import OpenEtl.Core.Identity
import OpenEtl.Lib.Keyset
import OpenEtl.Source.MysqlBatch

/-!
# The snapshot pages of `mysql_snapshot_cdc` (`source/mysql_snapshot_cdc.go`)

| here | there |
| --- | --- |
| `PKKind` | `resolvedPKKind` (:57) |
| `moveCursor` | the cursor update of `snapshotTable` (:1001-1020) |
| `snapshotRecord` | the record of a row (:1021-1050) |
| `emitRows` | the loop over the rows of a page (:984-1058) |
| `Table.turn` | a pass of the paging loop (:955-1066) |

The database compares and sorts keys in an order of its own (`Table.rank`); the code moves its cursor only to a key
that is greater as an `int64`, or as a Go string.
-/

namespace OpenEtl.Source.SnapshotCdc

open Keyset (behind mem_behind Ascends)
open Keyset (grow nextPage pages)
open List Function

/-! ## Keys -/

inductive PKKind
  | none | numeric | ordered
deriving DecidableEq, Repr

structure ResolvedPK where
  column : String := ""
  kind : PKKind := .none
deriving DecidableEq, Repr

/-- `strconv.ParseInt(s, 10, 64)`. -/
def parseInt (s : String) : Except String Int :=
  let (sign, digits) : Int × List Char :=
    match s.toList with
    | '-' :: cs => (-1, cs)
    | '+' :: cs => (1, cs)
    | cs => (1, cs)
  if digits = [] ∨ !digits.all Char.isDigit then
    .error ("strconv.ParseInt: parsing \"" ++ s ++ "\": invalid syntax")
  else
    let n := sign * (digits.foldl (fun n c => 10 * n + (c.toNat - '0'.toNat)) 0 : Nat)
    if -2 ^ 63 ≤ n ∧ n < 2 ^ 63 then .ok n
    else .error ("strconv.ParseInt: parsing \"" ++ s ++ "\": value out of range")

def parseText (s : String) : Except Err Int :=
  match parseInt (trimSpace s) with
  | .ok n => .ok n
  | .error e => .error { msg := "parse \"" ++ s ++ "\": " ++ e }

section

variable (conv : Conv) (floatID : String → Option Int)

/-- `floatID` is the integer a float is equal to, if it is one and an `int64`. -/
def parseSnapshotID : Value → Except Err Int
  | .int k n =>
    if (k = .uint ∨ k = .uint64) ∧ 2 ^ 63 ≤ n then
      .error { msg := "unsigned value " ++ toString n ++ " overflows int64" }
    else .ok n
  | .float t =>
    match floatID t with
    | some n => .ok n
    | none => .error { msg := "non-integer numeric value " ++ t }
  | .str s => parseText s
  | .bytes bs => parseText (Bytes.text bs)
  | .null => .error { msg := "unsupported numeric value type <nil>" }
  | .bool _ => .error { msg := "unsupported numeric value type bool" }
  | .time _ => .error { msg := "unsupported numeric value type time.Time" }
  | .json _ => .error { msg := "unsupported numeric value type json.RawMessage" }

/-- `snapshotReadIDs[table]` and `snapshotReadStr[table]`. -/
structure ReadCursor where
  id : Int := 0
  str : String := ""
deriving DecidableEq, Repr

structure Snapshot where
  sourceName : String := "mysql_snapshot_cdc"
  database : String := ""
  table : String := ""
  pk : ResolvedPK
  handoffFile : String := ""
  handoffPos : UInt32 := 0
deriving DecidableEq, Repr

variable (snap : Snapshot)

/-- The parameter of `WHERE key > ?`. -/
def Snapshot.param (c : ReadCursor) : Value :=
  match snap.pk.kind with
  | .numeric => .int64 c.id
  | _ => .str c.str

def moveCursor (c : ReadCursor) (d : Data) : Except Err ReadCursor :=
  match d.get? snap.pk.column with
  | none => .ok c
  | some v =>
    match snap.pk.kind with
    | .numeric =>
      match parseSnapshotID floatID v with
      | .error e => .error { e with msg := "snapshot cursor " ++ snap.table ++ "." ++ snap.pk.column ++ ": " ++ e.msg }
      | .ok n => .ok (if c.id < n then { c with id := n } else c)
    | _ =>
      if v = .null then .error { msg := "snapshot cursor " ++ snap.table ++ "." ++ snap.pk.column ++ " is NULL" }
      else
        let text := cursorString conv v
        .ok (if c.str < text then { c with str := text } else c)

def numericOffset (d : Data) : Int :=
  match snap.pk.kind, d.get? snap.pk.column with
  | .numeric, some v => (parseSnapshotID floatID v).toOption.getD 0
  | _, _ => 0

def snapshotRecord (d : Data) : Record :=
  { operation := .insert
    data := d
    metadata :=
      { source := snap.sourceName
        sourceType := "mysql_snapshot_cdc"
        sourcePhase := "snapshot"
        database := snap.database
        table := snap.table
        snapshotHandoffFile := snap.handoffFile
        snapshotHandoffPos := snap.handoffPos
        offset := numericOffset floatID snap d
        cursor := cursorString conv ((d.get? snap.pk.column).getD .null)
        cursorKind := if snap.pk.kind = .numeric then .numeric else .ordered
        key := metadataKeyJSONMulti [snap.pk.column] d
        primaryKeyColumns := [snap.pk.column] } }

/-! ## The paging loop -/

/-- A row: its key, and all its columns under the names the driver reports. -/
structure Row where
  key : Value
  data : Data
deriving DecidableEq, Repr

/-- The rows of a page, up to one whose key cannot be read; the cursor moves before the record is sent. -/
def emitRows : ReadCursor → List Row → ReadCursor × List (Row × Record) × Option Err
  | c, [] => (c, [], none)
  | c, row :: rows =>
    match moveCursor conv floatID snap c row.data with
    | .error e => (c, [], some e)
    | .ok c' =>
      let (c'', sent, e) := emitRows c' rows
      (c'', (row, snapshotRecord conv floatID snap row.data) :: sent, e)

inductive Status
  | running | finished
  | failed (e : Err)
deriving DecidableEq, Repr

structure Paging where
  cursor : ReadCursor := {}
  sent : List (Row × Record) := []
  status : Status := .running

/-- A table in the order in which the database compares its keys, and the parameters, of its queries. -/
structure Table (α : Type*) [LinearOrder α] where
  snap : Snapshot
  keyed : snap.pk.kind ≠ .none
  rank : Value → α
  /-- the rows the query selects: all, or those of a shard -/
  rows : List Row
  sorted : rows.Pairwise fun a b => rank a.key < rank b.key
  /-- whether the key column is reported under the configured name, upper and lower case included -/
  named : Bool
  projected : ∀ row ∈ rows, row.data.get? snap.pk.column = if named then some row.key else none
  /-- numeric keys are compared as numbers -/
  rank_id : snap.pk.kind = .numeric → ∀ row ∈ rows, ∀ n, parseSnapshotID floatID row.key = .ok n →
    rank row.key = rank (.int64 n)
  rank_mono : snap.pk.kind = .numeric → ∀ m n, rank (.int64 m) < rank (.int64 n) ↔ m < n
  /-- the text of another key stands for the key -/
  rank_str : snap.pk.kind = .ordered → ∀ row ∈ rows, row.key ≠ .null →
    rank row.key = rank (.str (cursorString conv row.key))
  limit : Nat
  limit_pos : 0 < limit

variable {conv floatID} {α : Type*} [LinearOrder α] (t : Table conv floatID α)

def Table.rowRank (row : Row) : α := t.rank row.key

/-- `SELECT * FROM … WHERE key > ? ORDER BY key LIMIT …`. -/
def Table.page (c : ReadCursor) : List Row := (behind t.rowRank t.rows (t.rank (t.snap.param c))).take t.limit

/-- A pass of the loop; the first empty page ends it. -/
def Table.turn (s : Paging) : Paging :=
  match s.status with
  | .running =>
    let page := t.page s.cursor
    let (c, sent, e) := emitRows conv floatID t.snap s.cursor page
    { cursor := c
      sent := s.sent ++ sent
      status :=
        match e with
        | some e => .failed e
        | none => if page = [] then .finished else .running }
  | _ => s

/-- The loop ends, and every row was emitted exactly once. -/
def Table.Complete : Prop := ∃ n, (t.turn^[n] {}).status = .finished ∧ ((t.turn^[n] {}).sent.map Prod.fst).Perm t.rows

/-! ## The condition -/

/-- The key can be read. -/
def Table.Readable (row : Row) : Prop :=
  match t.snap.pk.kind with
  | .numeric => ∃ n, parseSnapshotID floatID row.key = .ok n
  | _ => row.key ≠ .null

/-- The table is empty, or its keys can be read and are behind 0 or the empty string, and rows with other
keys than numbers that end a page are greater in Go's order than all rows before them. -/
def Table.Pageable : Prop :=
  t.rows = [] ∨
    (t.named = true ∧ (∀ row ∈ t.rows, t.Readable row ∧ t.rank (t.snap.param {}) < t.rank row.key) ∧
      (t.snap.pk.kind = .numeric ∨
        ∀ pre row post, t.rows = pre ++ row :: post → (t.limit ∣ pre.length + 1 ∨ post = []) →
          ∀ earlier ∈ pre, cursorString conv earlier.key < cursorString conv row.key))

/-! ## Tables whose keys can all be read -/

/-- The cursor of such a table as a value of its own order, which only grows. -/
structure Growth (γ : Type*) [LinearOrder γ] where
  get : ReadCursor → γ
  val : Row → γ
  pos : γ → α
  move : ∀ row ∈ t.rows, ∀ c, ∃ c', moveCursor conv floatID t.snap c row.data = .ok c' ∧
    get c' = max (get c) (val row)
  param : ∀ c, t.rank (t.snap.param c) = pos (get c)
  key : ∀ row ∈ t.rows, pos (val row) = t.rowRank row

variable {t} {γ : Type*} [LinearOrder γ] (g : Growth t γ) {rows : List Row}

theorem Growth.emitRows (hrows : rows ⊆ t.rows) (c : ReadCursor) :
    ∃ c', SnapshotCdc.emitRows conv floatID t.snap c rows =
        (c', rows.map fun row => (row, snapshotRecord conv floatID t.snap row.data), none) ∧
      g.get c' = grow g.val (g.get c) rows := by
  induction rows generalizing c with
  | nil => exact ⟨c, rfl, rfl⟩
  | cons row rows ih =>
    obtain ⟨c1, hmove, hget⟩ := g.move row (hrows (by simp)) c
    obtain ⟨c2, hemit, hgrow⟩ := ih (fun x hx => hrows (by simp [hx])) c1
    refine ⟨c2, ?_, ?_⟩
    · simp only [SnapshotCdc.emitRows, hmove, hemit, map_cons]
    · rw [hgrow, hget]
      rfl

theorem Growth.page_eq (c : ReadCursor) : t.page c = nextPage t.rowRank t.rows g.pos t.limit (g.get c) := by
  rw [Table.page, g.param]
  rfl

/-- A pass of the loop reads the next page. -/
theorem Growth.turn {s : Paging} (hs : s.status = .running) :
    g.get (t.turn s).cursor = Keyset.advance t.rowRank t.rows g.val g.pos t.limit (g.get s.cursor) ∧
      (t.turn s).sent.map Prod.fst =
        s.sent.map Prod.fst ++ nextPage t.rowRank t.rows g.pos t.limit (g.get s.cursor) ∧
      (t.turn s).status =
        if nextPage t.rowRank t.rows g.pos t.limit (g.get s.cursor) = [] then .finished else .running := by
  have hsub : t.page s.cursor ⊆ t.rows := by
    intro row hrow
    exact (mem_behind.mp (mem_of_mem_take hrow)).1
  obtain ⟨c', hemit, hget⟩ := g.emitRows hsub s.cursor
  rw [← g.page_eq]
  simp only [Table.turn, hs, hemit]
  refine ⟨?_, ?_, trivial⟩
  · rw [hget, Keyset.advance, ← g.page_eq]
  · simp [comp_def]

/-- From any cursor the loop is still running, or it has ended with the first empty page. -/
theorem Growth.loop (c : ReadCursor) (n : Nat) :
    ((t.turn^[n] { cursor := c }).status = .running ∧
        g.get (t.turn^[n] { cursor := c }).cursor =
          (Keyset.advance t.rowRank t.rows g.val g.pos t.limit)^[n] (g.get c) ∧
        (t.turn^[n] { cursor := c }).sent.map Prod.fst =
          pages t.rowRank t.rows g.val g.pos t.limit n (g.get c) ∧
        ∀ k < n, nextPage t.rowRank t.rows g.pos t.limit
          ((Keyset.advance t.rowRank t.rows g.val g.pos t.limit)^[k] (g.get c)) ≠ []) ∨
      ∃ k, (t.turn^[n] { cursor := c }).status = .finished ∧
        (t.turn^[n] { cursor := c }).sent.map Prod.fst =
          pages t.rowRank t.rows g.val g.pos t.limit k (g.get c) ∧
        nextPage t.rowRank t.rows g.pos t.limit
          ((Keyset.advance t.rowRank t.rows g.val g.pos t.limit)^[k] (g.get c)) = [] := by
  induction n with
  | zero => exact .inl ⟨rfl, rfl, rfl, by simp⟩
  | succ n ih =>
    rw [iterate_succ_apply' t.turn]
    rcases ih with ⟨hrun, hget, hsent, hfull⟩ | ⟨k, hfin, hsent, hnil⟩
    · obtain ⟨hget', hsent', hstatus⟩ := g.turn hrun
      rw [hget] at hget' hsent' hstatus
      by_cases hnil : nextPage t.rowRank t.rows g.pos t.limit
          ((Keyset.advance t.rowRank t.rows g.val g.pos t.limit)^[n] (g.get c)) = []
      · refine .inr ⟨n, by rw [hstatus, if_pos hnil], ?_, hnil⟩
        rw [hsent', hsent, hnil, append_nil]
      · refine .inl ⟨by rw [hstatus, if_neg hnil], ?_, ?_, fun k hk => ?_⟩
        · rw [hget', iterate_succ_apply' (Keyset.advance _ _ _ _ _)]
        · rw [hsent', hsent, Keyset.pages_succ]
        · rcases Nat.lt_succ_iff_lt_or_eq.mp hk with hk | rfl
          · exact hfull k hk
          · exact hnil
    · have hstay : t.turn (t.turn^[n] { cursor := c }) = t.turn^[n] { cursor := c } := by
        simp only [Table.turn, hfin]
      exact .inr ⟨k, by rw [hstay]; exact ⟨hfin, hsent, hnil⟩⟩

/-- From a cursor the loop ends and reads the rows behind it exactly if those that end a page ascend. -/
theorem Growth.reads_iff (c : ReadCursor) :
    (∃ n, (t.turn^[n] { cursor := c }).status = .finished ∧
        ((t.turn^[n] { cursor := c }).sent.map Prod.fst).Perm (behind t.rowRank t.rows (g.pos (g.get c)))) ↔
      Ascends g.val t.limit (g.get c) (behind t.rowRank t.rows (g.pos (g.get c))) := by
  constructor
  · rintro ⟨n, hfin, hperm⟩
    rcases g.loop c n with ⟨hrun, -⟩ | ⟨k, -, hsent, hnil⟩
    · rw [hrun] at hfin
      simp at hfin
    · rw [hsent] at hperm
      exact (Keyset.pages_perm_iff t.sorted g.key t.limit_pos hnil).mp hperm
  · intro hasc
    obtain ⟨n, hnil⟩ := hasc.ends t.sorted g.key t.limit_pos
    rcases g.loop c (n + 1) with ⟨-, -, -, hfull⟩ | ⟨k, hfin, hsent, hnil⟩
    · exact absurd hnil (hfull n (Nat.lt_succ_self n))
    · refine ⟨n + 1, hfin, ?_⟩
      rw [hsent]
      exact (Keyset.pages_perm_iff t.sorted g.key t.limit_pos hnil).mpr hasc

/-- **With a growing cursor** the table is read completely exactly if all rows are behind its start and
those that end a page ascend. -/
theorem Growth.complete_iff :
    t.Complete ↔ (∀ row ∈ t.rows, t.rank (t.snap.param {}) < t.rank row.key) ∧
      Ascends g.val t.limit (g.get {}) t.rows := by
  have hall : (∀ row ∈ t.rows, t.rank (t.snap.param {}) < t.rank row.key) ↔
      behind t.rowRank t.rows (g.pos (g.get {})) = t.rows := by
    rw [← g.param]
    refine ⟨Keyset.behind_eq_self, fun h row hrow => ?_⟩
    rw [← h] at hrow
    exact (mem_behind.mp hrow).2
  constructor
  · intro hcomplete
    have hbehind : ∀ row ∈ t.rows, t.rank (t.snap.param {}) < t.rank row.key := by
      intro row hrow
      obtain ⟨n, hfin, hperm⟩ := hcomplete
      rcases g.loop {} n with ⟨hrun, -⟩ | ⟨k, -, hsent, -⟩
      · cases hrun.symm.trans hfin
      · have hmem := Keyset.pages_subset g.key k (g.get {}) (hsent ▸ hperm.mem_iff.mpr hrow)
        rw [g.param]
        exact (mem_behind.mp hmem).2
    have hreads := g.reads_iff {}
    rw [hall.mp hbehind] at hreads
    exact ⟨hbehind, hreads.mp hcomplete⟩
  · rintro ⟨hbehind, hasc⟩
    have hreads := g.reads_iff {}
    rw [hall.mp hbehind] at hreads
    exact hreads.mpr hasc

/-! ## The two kinds of cursors -/

def idOf (floatID : String → Option Int) (row : Row) : Int := (parseSnapshotID floatID row.key).toOption.getD 0

variable {row : Row}

theorem get_key (hnamed : t.named = true) (hrow : row ∈ t.rows) : row.data.get? t.snap.pk.column = some row.key := by
  rw [t.projected row hrow, if_pos hnamed]

theorem Table.Readable.parse (hkind : t.snap.pk.kind = .numeric) (h : t.Readable row) :
    parseSnapshotID floatID row.key = .ok (idOf floatID row) := by
  rw [Table.Readable, hkind] at h
  obtain ⟨n, hn⟩ := h
  rw [idOf, hn]
  rfl

theorem Table.Readable.ne_null (hkind : t.snap.pk.kind = .ordered) (h : t.Readable row) : row.key ≠ .null := by
  rwa [Table.Readable, hkind] at h

def numericGrowth (hkind : t.snap.pk.kind = .numeric) (hnamed : t.named = true)
    (hread : ∀ row ∈ t.rows, t.Readable row) : Growth t Int where
  get := ReadCursor.id
  val := idOf floatID
  pos n := t.rank (.int64 n)
  move row hrow c := by
    have hparse := (hread row hrow).parse hkind
    refine ⟨if c.id < idOf floatID row then { c with id := idOf floatID row } else c, ?_, ?_⟩
    · simp only [moveCursor, get_key hnamed hrow, hkind, hparse]
    · rw [apply_ite ReadCursor.id, max_def_lt]
  param c := by rw [Snapshot.param, hkind]
  key row hrow := (t.rank_id hkind row hrow _ ((hread row hrow).parse hkind)).symm

def orderedGrowth (hkind : t.snap.pk.kind = .ordered) (hnamed : t.named = true)
    (hread : ∀ row ∈ t.rows, t.Readable row) : Growth t String where
  get := ReadCursor.str
  val row := cursorString conv row.key
  pos s := t.rank (.str s)
  move row hrow c := by
    have hne := (hread row hrow).ne_null hkind
    refine ⟨if c.str < cursorString conv row.key then { c with str := cursorString conv row.key } else c, ?_, ?_⟩
    · simp only [moveCursor, get_key hnamed hrow, hkind, hne, if_false]
    · rw [apply_ite ReadCursor.str, max_def_lt]
  param c := by rw [Snapshot.param, hkind]
  key row hrow := (t.rank_str hkind row hrow ((hread row hrow).ne_null hkind)).symm

/-- Numbers in the order of the database are in Go's order. -/
theorem ascends_numeric_from (hkind : t.snap.pk.kind = .numeric) (hread : ∀ row ∈ t.rows, t.Readable row) (c : Int) :
    Ascends (idOf floatID) t.limit c (behind t.rowRank t.rows (t.rank (.int64 c))) := by
  have hrank {row : Row} (hrow : row ∈ t.rows) : t.rank row.key = t.rank (.int64 (idOf floatID row)) :=
    t.rank_id hkind row hrow _ ((hread row hrow).parse hkind)
  intro pre row post hrows _
  have hrow : row ∈ behind t.rowRank t.rows (t.rank (.int64 c)) := by simp [hrows]
  obtain ⟨hmem, hlt⟩ := mem_behind.mp hrow
  constructor
  · rw [Table.rowRank, hrank hmem] at hlt
    exact (t.rank_mono hkind _ _).mp hlt
  · intro earlier hpre
    have hearlier : earlier ∈ behind t.rowRank t.rows (t.rank (.int64 c)) := by simp [hrows, hpre]
    have hsorted := Keyset.pairwise_behind t.sorted (t.rank (.int64 c))
    rw [show behind (fun row => t.rank row.key) t.rows (t.rank (.int64 c)) = pre ++ row :: post from hrows] at hsorted
    have hlt := (pairwise_append.mp hsorted).2.2 earlier hpre row (by simp)
    rw [hrank (mem_behind.mp hearlier).1, hrank hmem] at hlt
    exact (t.rank_mono hkind _ _).mp hlt

theorem ascends_numeric (hkind : t.snap.pk.kind = .numeric) (hread : ∀ row ∈ t.rows, t.Readable row)
    (hstart : ∀ row ∈ t.rows, t.rank (t.snap.param {}) < t.rank row.key) :
    Ascends (idOf floatID) t.limit (0 : Int) t.rows := by
  have hparam : t.snap.param {} = .int64 0 := by rw [Snapshot.param, hkind]
  have hasc := ascends_numeric_from hkind hread 0
  have hself : behind t.rowRank t.rows (t.rank (.int64 0)) = t.rows := Keyset.behind_eq_self (hparam ▸ hstart)
  rwa [hself] at hasc

theorem blank_lt {s : String} (h : s ≠ "") : "" < s := by
  rw [String.lt_iff_toList_lt]
  cases hs : s.toList with
  | nil => exact absurd (String.toList_eq_nil_iff.mp hs) h
  | cons c cs => exact nil_lt_cons c cs

theorem ascends_ordered_iff (hkind : t.snap.pk.kind = .ordered) (hread : ∀ row ∈ t.rows, t.Readable row)
    (hstart : ∀ row ∈ t.rows, t.rank (t.snap.param {}) < t.rank row.key) :
    Ascends (fun row : Row => cursorString conv row.key) t.limit "" t.rows ↔
      ∀ pre row post, t.rows = pre ++ row :: post → (t.limit ∣ pre.length + 1 ∨ post = []) →
        ∀ earlier ∈ pre, cursorString conv earlier.key < cursorString conv row.key := by
  constructor
  · intro h pre row post hrows hends
    exact (h pre row post hrows hends).2
  · intro h pre row post hrows hends
    have hrow : row ∈ t.rows := by simp [hrows]
    refine ⟨blank_lt fun hblank => ?_, h pre row post hrows hends⟩
    -- a key with the empty text is not behind the empty string
    have hlt := hstart row hrow
    rw [t.rank_str hkind row hrow ((hread row hrow).ne_null hkind), show cursorString conv row.key = "" from hblank,
      Snapshot.param, hkind] at hlt
    exact lt_irrefl _ hlt

/-! ## Tables whose keys cannot be read -/

/-- Without the key column the cursor stays. -/
theorem emitRows_unnamed (hnamed : t.named = false) (hrows : rows ⊆ t.rows) (c : ReadCursor) :
    (emitRows conv floatID t.snap c rows).1 = c ∧ (emitRows conv floatID t.snap c rows).2.2 = none := by
  induction rows with
  | nil => exact ⟨rfl, rfl⟩
  | cons row rows ih =>
    have hget : row.data.get? t.snap.pk.column = none := by
      rw [t.projected row (hrows (by simp)), hnamed]
      rfl
    obtain ⟨hc, he⟩ := ih fun x hx => hrows (by simp [hx])
    simp only [emitRows, moveCursor, hget]
    exact ⟨hc, he⟩

theorem page_subset (c : ReadCursor) : t.page c ⊆ t.rows := by
  intro row hrow
  exact (mem_behind.mp (mem_of_mem_take hrow)).1

theorem loop_unnamed (hnamed : t.named = false) (hpage : t.page {} ≠ []) (n : Nat) :
    (t.turn^[n] {}).status = .running ∧ (t.turn^[n] {}).cursor = {} := by
  induction n with
  | zero => exact ⟨rfl, rfl⟩
  | succ n ih =>
    obtain ⟨hrun, hcur⟩ := ih
    rw [iterate_succ_apply' t.turn]
    obtain ⟨hc, he⟩ := emitRows_unnamed hnamed (page_subset {}) {}
    simp only [Table.turn, hrun, hcur, hc, he, hpage, if_false]
    exact ⟨trivial, trivial⟩

/-- What is sent could be read. -/
theorem emitRows_readable (hnamed : t.named = true) (hrows : rows ⊆ t.rows) (c : ReadCursor) :
    ∀ e ∈ (emitRows conv floatID t.snap c rows).2.1, t.Readable e.1 := by
  induction rows generalizing c with
  | nil => simp [emitRows]
  | cons row rows ih =>
    have hget := get_key hnamed (hrows (by simp : row ∈ row :: rows))
    intro e he
    rw [emitRows] at he
    split at he
    · simp at he
    · rename_i c' hmove
      rcases mem_cons.mp he with rfl | he
      · unfold moveCursor at hmove
        rw [hget] at hmove
        unfold Table.Readable
        simp only at hmove ⊢
        split at hmove
        · split at hmove
          · simp at hmove
          · rename_i n hn
            exact ⟨n, hn⟩
        · intro hnull
          simp [hnull] at hmove
      · exact ih (fun x hx => hrows (by simp [hx])) c' e he

theorem sent_readable (hnamed : t.named = true) (n : Nat) : ∀ e ∈ (t.turn^[n] {}).sent, t.Readable e.1 := by
  induction n with
  | zero => simp
  | succ n ih =>
    rw [iterate_succ_apply' t.turn]
    intro e he
    unfold Table.turn at he
    split at he
    · rcases mem_append.mp he with he | he
      · exact ih e he
      · exact emitRows_readable hnamed (page_subset _) _ e he
    · exact ih e he

/-- If the first page is empty nothing is ever sent. -/
theorem loop_empty (hpage : t.page {} = []) (n : Nat) : (t.turn^[n] {}).sent = [] ∧ (t.turn^[n] {}).cursor = {} := by
  induction n with
  | zero => exact ⟨rfl, rfl⟩
  | succ n ih =>
    obtain ⟨hsent, hcur⟩ := ih
    rw [iterate_succ_apply' t.turn]
    generalize t.turn^[n] {} = s at hsent hcur ⊢
    unfold Table.turn
    split
    · simp only [hcur, hpage, emitRows, hsent]
      exact ⟨rfl, trivial⟩
    · exact ⟨hsent, hcur⟩

theorem pageable_of_complete (h : t.Complete) : t.Pageable := by
  by_cases hrows : t.rows = []
  · exact .inl hrows
  right
  obtain ⟨n, hfin, hperm⟩ := id h
  have hnamed : t.named = true := by
    by_contra hn
    by_cases hpage : t.page {} = []
    · rw [(loop_empty hpage n).1] at hperm
      exact hrows (perm_nil.mp hperm.symm)
    · rw [(loop_unnamed (by simpa using hn) hpage n).1] at hfin
      simp at hfin
  have hread : ∀ row ∈ t.rows, t.Readable row := by
    intro row hrow
    obtain ⟨e, he, rfl⟩ := mem_map.mp (hperm.mem_iff.mpr hrow)
    exact sent_readable hnamed n e he
  cases hkind : t.snap.pk.kind with
  | none => exact absurd hkind t.keyed
  | numeric =>
    obtain ⟨hstart, -⟩ := (numericGrowth hkind hnamed hread).complete_iff.mp h
    exact ⟨hnamed, fun row hrow => ⟨hread row hrow, hstart row hrow⟩, .inl rfl⟩
  | ordered =>
    obtain ⟨hstart, hasc⟩ := (orderedGrowth hkind hnamed hread).complete_iff.mp h
    refine ⟨hnamed, fun row hrow => ⟨hread row hrow, hstart row hrow⟩, .inr ?_⟩
    exact (ascends_ordered_iff hkind hread hstart).mp hasc

theorem complete_of_pageable (h : t.Pageable) : t.Complete := by
  rcases h with hnil | ⟨hnamed, hrows, hends⟩
  · have hpage : t.page {} = [] := by simp [Table.page, behind, hnil]
    refine ⟨1, ?_, ?_⟩
    · simp [Table.turn, hpage, emitRows]
    · rw [(loop_empty hpage 1).1, hnil]
      exact Perm.nil
  have hread : ∀ row ∈ t.rows, t.Readable row := fun row hrow => (hrows row hrow).1
  have hstart : ∀ row ∈ t.rows, t.rank (t.snap.param {}) < t.rank row.key := fun row hrow => (hrows row hrow).2
  cases hkind : t.snap.pk.kind with
  | none => exact absurd hkind t.keyed
  | numeric =>
    exact (numericGrowth hkind hnamed hread).complete_iff.mpr ⟨hstart, ascends_numeric hkind hread hstart⟩
  | ordered =>
    have hends := hends.resolve_left (by simp [hkind])
    exact (orderedGrowth hkind hnamed hread).complete_iff.mpr
      ⟨hstart, (ascends_ordered_iff hkind hread hstart).mpr hends⟩

end

/-- **Snapshot paging ends and emits every row exactly once** exactly if the table is pageable. -/
theorem snapshot_complete_iff {conv : Conv} {floatID : String → Option Int} {α : Type*} [LinearOrder α]
    (t : Table conv floatID α) : t.Complete ↔ t.Pageable :=
  ⟨pageable_of_complete, complete_of_pageable⟩

/-! ### Example: a negative key, an empty key, and keys compared without case -/

def noConv : Conv := ⟨fun _ => 0, id⟩

def noFloat : String → Option Int := fun _ => none

def rowOf (key : Value) : Row := ⟨key, [("id", key)]⟩

theorem rowOf_get (key : Value) : (rowOf key).data.get? "id" = some key := by simp [rowOf, Data.get?]

/-- A table with a `bigint` key. -/
def numberTable (keys : List Int) (hsorted : keys.Pairwise (· < ·)) (limit : Nat) (hlimit : 0 < limit) :
    Table noConv noFloat Int where
  snap := { table := "t", pk := ⟨"id", .numeric⟩ }
  keyed := PKKind.noConfusion
  rank
    | .int _ n => n
    | _ => 0
  rows := keys.map fun n => rowOf (.int64 n)
  sorted := List.pairwise_map.mpr hsorted
  named := true
  projected := List.forall_mem_map.mpr fun n _ => rowOf_get (.int64 n)
  rank_id _ := List.forall_mem_map.mpr fun m _ n h => by
    have heq : m = n := by simpa [rowOf, Value.int64, parseSnapshotID] using h
    exact heq
  rank_mono _ _ _ := Iff.rfl
  rank_str h := PKKind.noConfusion h
  limit := limit
  limit_pos := hlimit

/-- A collation that does not tell upper from lower case. -/
def withoutCase (s : String) : List Nat := s.toList.map fun c => c.toLower.toNat

/-- A table with a `varchar` key. -/
def textTable (keys : List String) (hsorted : keys.Pairwise fun a b => withoutCase a < withoutCase b)
    (limit : Nat) (hlimit : 0 < limit) : Table noConv noFloat (List Nat) where
  snap := { table := "t", pk := ⟨"id", .ordered⟩ }
  keyed := PKKind.noConfusion
  rank
    | .str s => withoutCase s
    | _ => []
  rows := keys.map fun s => rowOf (.str s)
  sorted := List.pairwise_map.mpr hsorted
  named := true
  projected := List.forall_mem_map.mpr fun s _ => rowOf_get (.str s)
  rank_id h := PKKind.noConfusion h
  rank_mono h := PKKind.noConfusion h
  rank_str _ := List.forall_mem_map.mpr fun _ _ _ => rfl
  limit := limit
  limit_pos := hlimit

/-- The rows with the keys -1 and 0 and with the empty key are never selected, and a page that ends with
"B" behind "a" comes again and again. -/
theorem snapshot_loses_rows :
    ¬ (numberTable [-1, 0, 7] (by decide) 1000 (by decide)).Complete ∧
      ¬ (textTable ["", "a"] (by decide) 1000 (by decide)).Complete ∧
        ¬ (textTable ["a", "B"] (by decide) 1000 (by decide)).Complete := by
  refine ⟨fun h => ?_, fun h => ?_, fun h => ?_⟩
  · rcases pageable_of_complete h with hnil | ⟨-, hrows, -⟩
    · simp [numberTable] at hnil
    · exact absurd (hrows (rowOf (.int64 (-1))) (by decide)).2 (by decide)
  · rcases pageable_of_complete h with hnil | ⟨-, hrows, -⟩
    · simp [textTable] at hnil
    · exact absurd (hrows (rowOf (.str "")) (by decide)).2 (by decide)
  · rcases pageable_of_complete h with hnil | ⟨-, -, hkind | hends⟩
    · simp [textTable] at hnil
    · cases hkind
    · have hlt := hends [rowOf (.str "a")] (rowOf (.str "B")) [] rfl (.inr rfl) (rowOf (.str "a")) (by simp)
      exact absurd hlt (by decide)

end OpenEtl.Source.SnapshotCdc
