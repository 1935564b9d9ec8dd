import Mathlib.Data.Finset.Lattice.Fold
import OpenEtl.Lib.Keyset
import OpenEtl.Source.ReadAhead

/-!
# Paging through a table with `mysql_batch`

| here | there |
| --- | --- |
| `Job` | the table, and the readers `Open` makes for it (mysql_batch.go:182-240) |
| `Job.page` | the rows the query of `ReadBatch` selects (mysql_batch.go:249-290) |
| `Fault` | what goes wrong while the rows are iterated (mysql_batch.go:306-316) |
| `Job.call` | a turn of the batch path of `readLoop` (pipeline.go:951-977) |

`rows.Err()` is never asked for, so rows cut off by an error look like a short page. `ReadBatch` answers the end of
the table with an empty batch; a custom query ends with the first page that is not full.
-/

namespace OpenEtl.Source.Paging

open List Keyset Trace

/-! ## The table and its readers -/

/-- A row of the table: its key, and the columns the query selects. -/
structure Row where
  key : Value
  data : Data
deriving DecidableEq, Repr

/-- The types of key columns: integers, strings and times, as the driver hands them over. -/
def KeyType : Value → Bool
  | .int .. | .str _ | .time _ => true
  | _ => false

structure Job (α : Type*) [LinearOrder α] where
  col : Column α
  /-- `MOD(key, n)`, if that is one of 0, 1, 2, … -/
  mod : Value → Nat → Option Nat
  /-- the sign of `MOD` is that of the key -/
  mod_int : ∀ k v n, mod (.int k v) n = if 0 ≤ v.tmod n then some (v.tmod n).toNat else none
  rows : List Row
  sorted : rows.Pairwise fun a b => col.rank a.key < col.rank b.key
  typed : ∀ row ∈ rows, KeyType row.key = true
  /-- the reader that `Open` makes, for every shard the same -/
  reader : MySQLBatchReader
  opened : reader.done = false
  limit_pos : 0 < reader.limit
  /-- whether the key column is among the selected columns -/
  selected : Bool
  projected : ∀ row ∈ rows, row.data.get? reader.cursorColumn = if selected then some row.key else none
  batchSize : Nat
  shards : Nat
  shards_pos : 0 < shards

/-- What goes wrong in a call: the query fails, the iteration stops with an error after some rows, or a
row cannot be scanned. -/
inductive Fault
  | none
  | refused (e : Err)
  | iteration (after : Nat)
  | scan (after : Nat) (e : Err)

/-- The rows that are iterated over. -/
def Fault.delivered (page : List Row) : Fault → List Row
  | .none => page
  | .refused _ => []
  | .iteration k => page.take k
  | .scan k _ => page.take k

def Fault.answer (page : List Row) : Fault → Page
  | .none => .rows (page.map Row.data) .none
  | .refused e => .refused e
  | .iteration k => .rows ((page.take k).map Row.data) .none
  | .scan k e => .rows ((page.take k).map Row.data) (if k < page.length then some e else .none)

def Fault.isIteration : Fault → Bool
  | .iteration _ => true
  | _ => false

structure Reading where
  reader : MySQLBatchReader
  returned : List Row := []
  /-- `readLoop` has seen an empty batch -/
  ended : Bool := false
  /-- an error of the iteration was taken for the end -/
  misled : Bool := false

section

variable {α : Type*} [LinearOrder α] (job : Job α)

/-- `MOD(key, shardTotal) = shardIndex`, asked for with more than one shard. -/
def Job.inShard (i : Nat) (row : Row) : Bool :=
  decide (job.shards ≤ 1) || job.mod row.key job.shards == some i

def Job.rowsOf (i : Nat) : List Row := job.rows.filter (job.inShard i)

def Job.rank (row : Row) : α := job.col.rank row.key

/-- Where the query parameter stands in the order of the keys. -/
def Job.position (r : MySQLBatchReader) : α := job.col.rank (cursorValue r.lastCursor)

/-- `WHERE key > ? AND MOD(…) ORDER BY key LIMIT …`; no query is made by a reader that is done. -/
def Job.page (i : Nat) (r : MySQLBatchReader) : List Row :=
  if r.done then []
  else (behind job.rank (job.rowsOf i) (job.position r)).take (pageLimit r job.batchSize)

def Job.call (conv : Conv) (i : Nat) (s : Reading) (f : Fault) : Reading :=
  if s.ended then s
  else
    let page := job.page i s.reader
    match readBatch conv s.reader job.batchSize (f.answer page) with
    | (r, .error _) => { s with reader := r }
    | (r, .ok recs) =>
      { reader := r
        returned := s.returned ++ f.delivered page
        ended := recs.isEmpty
        misled := s.misled || (f.isIteration && !s.reader.done && r.done) }

/-- The reading of a shard: calls with these faults, and then `m` calls without. -/
def Job.readAll (conv : Conv) (faults : Nat → List Fault) (m i : Nat) : Reading :=
  run (job.call conv i) { reader := job.reader } (faults i ++ List.replicate m .none)

/-- The rows that are not before the start cursor. -/
def Job.wanted : List Row :=
  match job.reader.lastCursor with
  | none => job.rows
  | some _ => behind job.rank job.rows (job.position job.reader)

/-- After some calls every shard has reported the end of data, none because of an error, and all rows
were returned exactly once. -/
def Job.Complete (conv : Conv) (faults : Nat → List Fault) : Prop :=
  ∃ m, (∀ i < job.shards, (job.readAll conv faults m i).ended = true ∧
      (job.readAll conv faults m i).misled = false) ∧
    ((List.range job.shards).flatMap fun i => (job.readAll conv faults m i).returned).Perm job.wanted

/-! ## The condition -/

/-- Every row wanted is behind the parameter of the first query and in a shard. -/
def Job.Covered : Prop :=
  ∀ row ∈ job.wanted, job.position job.reader < job.rank row ∧ ∃ i < job.shards, job.inShard i row = true

/-- `updateCursor` takes the row's key over. -/
def Job.Moves (row : Row) : Prop := job.selected = true ∧ Exact row.key = true

/-- The cursor follows to the last of the rows. -/
def Job.Follows (rows : List Row) : Prop := ∃ row, rows.getLast? = some row ∧ job.Moves row

/-- A page without a fault is empty, or the cursor follows, or a custom query ends with it. -/
def Job.Settles (r : MySQLBatchReader) (page : List Row) : Prop :=
  page = [] ∨ job.Follows page ∨ (r.customQuery = true ∧ page.length < pageLimit r job.batchSize)

/-- What a fault may do to a page. -/
def Job.Tolerates (r : MySQLBatchReader) (page : List Row) : Fault → Prop
  | .none => job.Settles r page
  | .refused _ => True
  | .iteration k => job.Follows (page.take k) ∧
      (r.customQuery = true → pageLimit r job.batchSize ≤ (page.take k).length)
  | .scan k _ => if k < page.length then ∀ row ∈ page.take k, ¬ job.Moves row else job.Settles r page

/-- The condition on a call: a custom query selects its cursor column, and the fault can be tolerated. -/
def Job.Harmless (i : Nat) (s : Reading) (f : Fault) : Prop :=
  s.ended = true ∨ s.reader.done = true ∨
    ((job.page i s.reader = [] ∨ s.reader.customQuery = false ∨ job.selected = true) ∧
      job.Tolerates s.reader (job.page i s.reader) f)

/-! ## Where the rows leave the cursor -/

/-- The position is at the last row whose key was taken over, if there is one. -/
def Job.Landed (κ : α) (rows : List Row) (next : α) : Prop :=
  ((∀ row ∈ rows, ¬ job.Moves row) ∧ next = κ) ∨
    ∃ l₁ y l₂, rows = l₁ ++ y :: l₂ ∧ job.Moves y ∧ (∀ row ∈ l₂, ¬ job.Moves row) ∧ next = job.rank y

/-- A reader of the job: only the cursor and `done` may differ. -/
structure Job.Owns (r : MySQLBatchReader) : Prop where
  custom : r.customQuery = job.reader.customQuery
  column : r.cursorColumn = job.reader.cursorColumn
  limit : r.limit = job.reader.limit

theorem Job.rowsOf_sorted (i : Nat) : (job.rowsOf i).Pairwise fun a b => job.rank a < job.rank b :=
  job.sorted.filter _

variable {job} {conv : Conv} {i : Nat} {s : Reading} {f : Fault} {r : MySQLBatchReader} {rows : List Row} {κ next : α}

theorem cursorOf_eq_none {v : Value} (htype : KeyType v = true) (h : Exact v = false) : cursorOf conv v = none := by
  cases v with
  | int k n => cases k <;> first | rfl | simp [Exact] at h
  | str s => simp [Exact] at h
  | time t => rfl
  | null | bool | float | bytes | json => simp [KeyType] at htype

variable {row : Row}

theorem Job.Owns.rowKey (h : job.Owns r) (hrow : row ∈ job.rows) :
    rowKey r row.data = if job.selected then row.key else .null := by
  rw [Source.rowKey, h.column, job.projected row hrow]
  cases job.selected <;> rfl

variable (conv) in
theorem Job.Owns.landed (h : job.Owns r) (hrows : rows ⊆ job.rows) :
    job.Landed (job.position r) rows (job.col.rank (cursorValue
      (advance conv r.lastCursor ((rows.map Row.data).map (Source.rowKey r))))) := by
  induction rows using reverseRecOn with
  | nil => exact .inl ⟨by simp, rfl⟩
  | append_singleton rows row ih =>
    have hrow : row ∈ job.rows := hrows (by simp)
    have ih := ih fun x hx => hrows (by simp [hx])
    have hadvance : advance conv r.lastCursor (((rows ++ [row]).map Row.data).map (Source.rowKey r)) =
        (cursorOf conv (Source.rowKey r row.data)).or
          (advance conv r.lastCursor ((rows.map Row.data).map (Source.rowKey r))) := by
      simp [advance]
    rw [hadvance, h.rowKey hrow]
    by_cases hm : job.Moves row
    · have hkey : ∃ c, cursorOf conv row.key = some c ∧
          job.col.rank (cursorValue (some c)) = job.col.rank row.key := rank_cursorValue hm.2
      obtain ⟨c, hc, hrank⟩ := hkey
      refine .inr ⟨rows, row, [], rfl, hm, by simp, ?_⟩
      simp only [hm.1, if_true, hc]
      exact hrank
    · have hnone : cursorOf conv (if job.selected then row.key else .null) = none := by
        cases hsel : job.selected with
        | false => rfl
        | true =>
          refine cursorOf_eq_none (job.typed row hrow) ?_
          simpa [Job.Moves, hsel] using hm
      rw [hnone]
      rcases ih with ⟨hstay, heq⟩ | ⟨l1, y, l2, rfl, hy, hstay, heq⟩
      · refine .inl ⟨fun x hx => ?_, heq⟩
        rcases mem_append.mp hx with hx | hx
        · exact hstay x hx
        · rwa [mem_singleton.mp hx]
      · refine .inr ⟨l1, y, l2 ++ [row], by simp, hy, fun x hx => ?_, heq⟩
        rcases mem_append.mp hx with hx | hx
        · exact hstay x hx
        · rwa [mem_singleton.mp hx]

/-- The last row read, if its key is taken over, is where the position is. -/
theorem Job.Landed.eq_of_last (h : job.Landed κ rows next) (hlast : rows.getLast? = some row) (hm : job.Moves row) :
    next = job.rank row := by
  rcases h with ⟨hstay, -⟩ | ⟨l1, y, l2, rfl, -, hstay, rfl⟩
  · exact absurd hm (hstay row (mem_of_getLast? hlast))
  · rcases eq_nil_or_concat l2 with rfl | ⟨l, z, rfl⟩
    · obtain rfl : y = row := by simpa using hlast
      rfl
    · obtain rfl : z = row := by
        rw [concat_eq_append, ← cons_append, ← append_assoc, getLast?_append] at hlast
        simpa using hlast
      exact absurd hm (hstay z (by simp))

section

variable (hpage : rows <+: behind job.rank (job.rowsOf i) κ) (h : job.Landed κ rows next)
include hpage h

theorem Job.Landed.reads (kept : Bool) : Turn.Reads job.rank job.Moves (job.rowsOf i) κ ⟨rows, kept, next⟩ := by
  refine ⟨hpage, ?_, fun y hlast hm => h.eq_of_last hlast hm⟩
  rcases h with ⟨-, heq⟩ | ⟨l1, y, l2, hrows, hy, -, heq⟩
  · exact .inl heq
  · exact .inr ⟨y, by simp [hrows], heq, fun _ => hy⟩

theorem Job.Landed.clean_kept : Turn.Clean job.rank κ ⟨rows, true, next⟩ ↔ rows = [] ∨ job.Follows rows := by
  constructor
  · intro hc
    rcases hlast : rows.getLast? with _ | row
    · exact .inl (getLast?_eq_none_iff.mp hlast)
    · refine .inr ⟨row, hlast, ?_⟩
      have hmem := mem_behind.mp (hpage.subset (mem_of_getLast? hlast))
      have hrank := hc row hlast
      rcases h with ⟨-, heq⟩ | ⟨l1, y, l2, hrows, hy, -, heq⟩
      · exact absurd hmem.2 (by rw [← hrank, heq]; exact lt_irrefl κ)
      · have hymem := mem_behind.mp (hpage.subset (by simp [hrows] : y ∈ rows))
        have hsame := eq_of_rank_eq (job.rowsOf_sorted i) hymem.1 hmem.1 (heq.symm.trans hrank)
        exact hsame ▸ hy
  · rintro (rfl | ⟨row, hlast, hm⟩) x hx
    · simp at hx
    · cases hlast.symm.trans hx
      exact h.eq_of_last hlast hm

theorem Job.Landed.clean_dropped : Turn.Clean job.rank κ ⟨rows, false, next⟩ ↔ ∀ row ∈ rows, ¬ job.Moves row := by
  rcases h with ⟨hstay, heq⟩ | ⟨l1, y, l2, hrows, hy, -, heq⟩
  · exact ⟨fun _ => hstay, fun _ => heq⟩
  · have hymem := mem_behind.mp (hpage.subset (by simp [hrows] : y ∈ rows))
    constructor
    · intro hκ
      exact absurd hymem.2 (by rw [← hκ, heq]; exact lt_irrefl _)
    · intro hstay
      exact absurd hy (hstay y (by simp [hrows]))

end

/-! ## One call -/

variable (job) in
structure Job.Live (s : Reading) : Prop where
  owns : job.Owns s.reader
  ended : s.ended = false
  done : s.reader.done = false

variable (job) in
/-- What a call does: it reads on, it reads the rest of the table, or it takes an error for its end. -/
inductive Job.Outcome (i : Nat) (s s' : Reading) (f : Fault) : Prop
  | goesOn (t : Turn Row α) (reads : t.Reads job.rank job.Moves (job.rowsOf i) (job.position s.reader))
      (next : job.position s'.reader = t.next) (returned : s'.returned = s.returned ++ t.handed)
      (live : job.Live s') (misled : s'.misled = s.misled)
      (clean : job.Harmless i s f ↔ t.Clean job.rank (job.position s.reader))
      (progress : f = .none → t.handed ≠ [])
  | finishes (returned : s'.returned = s.returned ++ behind job.rank (job.rowsOf i) (job.position s.reader))
      (closed : s'.ended = true ∨ s'.reader.done = true) (misled : s'.misled = s.misled)
      (harmless : job.Harmless i s f)
  | mistakes (misled : s'.misled = true) (harmful : ¬ job.Harmless i s f)

theorem Job.Owns.pageLimit_pos (h : job.Owns r) : 0 < pageLimit r job.batchSize := by
  have hpos := job.limit_pos
  rw [← h.limit] at hpos
  unfold pageLimit
  split <;> omega

section

variable (h : job.Live s)

include h

theorem Job.Live.page_eq : job.page i s.reader =
    (behind job.rank (job.rowsOf i) (job.position s.reader)).take (pageLimit s.reader job.batchSize) := by
  simp [Job.page, h.done]

theorem Job.Live.page_initial :
    job.page i s.reader <+: behind job.rank (job.rowsOf i) (job.position s.reader) :=
  h.page_eq ▸ take_prefix _ _

theorem Job.Live.page_subset : job.page i s.reader ⊆ job.rows := by
  intro row hrow
  exact mem_of_mem_filter (mem_behind.mp (h.page_initial.subset hrow)).1

theorem Job.Live.harmless_iff
    (hread : job.page i s.reader = [] ∨ s.reader.customQuery = false ∨ job.selected = true) :
    job.Harmless i s f ↔ job.Tolerates s.reader (job.page i s.reader) f := by
  simp [Job.Harmless, h.ended, h.done, hread]

theorem Job.Live.readable (hharm : job.Harmless i s f) :
    job.page i s.reader = [] ∨ s.reader.customQuery = false ∨ job.selected = true := by
  rcases hharm with he | hd | ⟨hread, -⟩
  · simp [h.ended] at he
  · simp [h.done] at hd
  · exact hread

/-- The rows of a page have the cursor column where a custom query asks for it. -/
theorem Job.Live.hasCursor
    (hread : job.page i s.reader = [] ∨ s.reader.customQuery = false ∨ job.selected = true)
    (hrows : rows ⊆ job.page i s.reader) : HasCursor s.reader (rows.map Row.data) := by
  intro d hd
  obtain ⟨row, hrow, rfl⟩ := mem_map.mp hd
  rcases hread with hnil | hq | hsel
  · have hmem := hrows hrow
    rw [hnil] at hmem
    simp at hmem
  · exact .inl hq
  · have hproj := job.projected row (h.page_subset (hrows hrow))
    rw [← h.owns.column] at hproj
    exact .inr (by simp [hproj, hsel])

end

theorem Job.Owns.ne_nil_of_sawEnd (h : job.Owns r) (hsaw : r.sawEnd job.batchSize rows.length = false) :
    rows ≠ [] := by
  rintro rfl
  have hpos := h.pageLimit_pos
  unfold MySQLBatchReader.sawEnd at hsaw
  cases hq : r.customQuery <;> simp [hq] at hsaw
  omega

/-- A page after which the reader is done has all that was left. -/
theorem Job.Live.page_eq_behind (h : job.Live s)
    (hsaw : s.reader.sawEnd job.batchSize (job.page i s.reader).length = true) :
    job.page i s.reader = behind job.rank (job.rowsOf i) (job.position s.reader) := by
  have hpos := h.owns.pageLimit_pos
  have hpage := h.page_eq (i := i)
  have hshort : (job.page i s.reader).length < pageLimit s.reader job.batchSize := by
    unfold MySQLBatchReader.sawEnd at hsaw
    cases hq : s.reader.customQuery <;> simp [hq] at hsaw
    · simpa [hsaw] using hpos
    · exact hsaw
  rw [hpage, length_take] at hshort
  rw [hpage]
  exact take_of_length_le (by omega)

theorem Job.Owns.settles_iff (h : job.Owns r) (hsaw : r.sawEnd job.batchSize rows.length = false) :
    job.Settles r rows ↔ job.Follows rows := by
  have hne := h.ne_nil_of_sawEnd hsaw
  have hfull : ¬ (r.customQuery = true ∧ rows.length < pageLimit r job.batchSize) := by
    rintro ⟨hq, hlt⟩
    simp [MySQLBatchReader.sawEnd, hq, hlt] at hsaw
  simp [Job.Settles, hne, hfull]

theorem settles_of_sawEnd (hsaw : r.sawEnd job.batchSize rows.length = true) : job.Settles r rows := by
  unfold MySQLBatchReader.sawEnd at hsaw
  cases hq : r.customQuery with
  | false => exact .inl (by simpa [hq] using hsaw)
  | true => exact .inr (.inr ⟨hq, by simpa [hq] using hsaw⟩)

section

variable (h : job.Live s)
  (hread : job.page i s.reader = [] ∨ s.reader.customQuery = false ∨ job.selected = true)
include h hread

/-- A call that returns the rows it got. -/
theorem Job.Live.outcome_returned (hans : f.answer (job.page i s.reader) = .rows (rows.map Row.data) none)
    (hdel : f.delivered (job.page i s.reader) = rows) (hrows : rows <+: job.page i s.reader)
    (hon : s.reader.sawEnd job.batchSize rows.length = false →
      (job.Tolerates s.reader (job.page i s.reader) f ↔ job.Follows rows))
    (hend : s.reader.sawEnd job.batchSize rows.length = true →
      (f.isIteration = true ∧ ¬ job.Tolerates s.reader (job.page i s.reader) f) ∨
        (f.isIteration = false ∧ rows = job.page i s.reader ∧
          job.Tolerates s.reader (job.page i s.reader) f)) :
    job.Outcome i s (job.call conv i s f) f := by
  have hb := readBatch_ok conv job.batchSize h.done (h.hasCursor hread hrows.subset)
  have hland : job.Landed (job.position s.reader) rows _ :=
    h.owns.landed conv fun x hx => h.page_subset (hrows.subset hx)
  have hinit := hrows.trans h.page_initial
  have hcall : job.call conv i s f =
      { reader := { s.reader with
          lastCursor := advance conv s.reader.lastCursor ((rows.map Row.data).map (Source.rowKey s.reader))
          done := s.reader.sawEnd job.batchSize rows.length }
        returned := s.returned ++ rows
        ended := rows.isEmpty
        misled := s.misled || (f.isIteration && s.reader.sawEnd job.batchSize rows.length) } := by
    simp only [Job.call, h.ended, hans, hb, hdel, h.done]
    simp
  rw [hcall]
  cases hsaw : s.reader.sawEnd job.batchSize rows.length with
  | false =>
    have hne := h.owns.ne_nil_of_sawEnd hsaw
    refine .goesOn ⟨rows, true, _⟩ (hland.reads hinit true) rfl rfl ?_ (by simp) ?_ fun _ => ?_
    · exact ⟨⟨h.owns.custom, h.owns.column, h.owns.limit⟩, by simpa using hne, rfl⟩
    · rw [h.harmless_iff hread, hon hsaw, hland.clean_kept hinit]
      simp [hne]
    · simpa [Turn.handed] using hne
  | true =>
    rcases hend hsaw with ⟨hit, htol⟩ | ⟨hit, rfl, htol⟩
    · exact .mistakes (by simp [hit]) (by rwa [h.harmless_iff hread])
    · refine .finishes ?_ (.inr rfl) (by simp [hit]) ((h.harmless_iff hread).mpr htol)
      rw [← h.page_eq_behind hsaw]

/-- A page that arrives as it is. -/
theorem Job.Live.outcome_full (hans : f.answer (job.page i s.reader) = .rows ((job.page i s.reader).map Row.data) none)
    (hdel : f.delivered (job.page i s.reader) = job.page i s.reader) (hit : f.isIteration = false)
    (htol : job.Tolerates s.reader (job.page i s.reader) f ↔ job.Settles s.reader (job.page i s.reader)) :
    job.Outcome i s (job.call conv i s f) f := by
  refine h.outcome_returned hread hans hdel (prefix_refl _) (fun hsaw => ?_) fun hsaw => ?_
  · rw [htol, h.owns.settles_iff hsaw]
  · exact .inr ⟨hit, rfl, htol.mpr (settles_of_sawEnd hsaw)⟩

variable (conv) in
/-- **What a call does**, when the query can be answered at all. -/
theorem call_cases (f : Fault) : job.Outcome i s (job.call conv i s f) f := by
  cases f with
  | none => exact h.outcome_full hread rfl rfl rfl Iff.rfl
  | refused e =>
    have hcall : job.call conv i s (.refused e) = s := by
      rw [Job.call, if_neg (by simp [h.ended])]
      simp only [Fault.answer, readBatch, h.done, Bool.false_eq_true, if_false]
    rw [hcall]
    have hland : job.Landed (job.position s.reader) [] (job.position s.reader) := .inl ⟨by simp, rfl⟩
    refine .goesOn ⟨[], false, job.position s.reader⟩ (hland.reads nil_prefix false) rfl
      (by simp [Turn.handed]) h rfl ?_ (by simp)
    rw [h.harmless_iff hread]
    simp [Job.Tolerates, Turn.Clean]
  | iteration k =>
    refine h.outcome_returned hread rfl rfl ( take_prefix _ _) (fun hsaw => ?_) fun hsaw => ?_
    · have hfull : s.reader.customQuery = true →
          pageLimit s.reader job.batchSize ≤ ((job.page i s.reader).take k).length := by
        intro hq
        simpa [MySQLBatchReader.sawEnd, hq] using hsaw
      exact and_iff_left hfull
    · refine .inl ⟨rfl, ?_⟩
      rintro ⟨⟨row, hlast, -⟩, hfull⟩
      unfold MySQLBatchReader.sawEnd at hsaw
      cases hq : s.reader.customQuery with
      | false =>
        have hnil : (job.page i s.reader).take k = [] := eq_nil_of_length_eq_zero (by simpa [hq] using hsaw)
        rw [hnil] at hlast
        simp at hlast
      | true =>
        have hlt : ((job.page i s.reader).take k).length < pageLimit s.reader job.batchSize := by
          simpa [hq] using hsaw
        exact absurd (hfull hq) (by omega)
  | scan k e =>
    by_cases hk : k < (job.page i s.reader).length
    · have hinit := ( take_prefix k _).trans (h.page_initial (i := i))
      have hland : job.Landed (job.position s.reader) ((job.page i s.reader).take k) _ :=
        h.owns.landed conv fun x hx => h.page_subset (mem_of_mem_take hx)
      have hcur : HasCursor s.reader (((job.page i s.reader).take k).map Row.data) :=
        h.hasCursor hread fun x hx => mem_of_mem_take hx
      have hb := readBatch_scanError conv job.batchSize e h.done hcur
      have hcall : job.call conv i s (.scan k e) = { s with reader := { s.reader with
          lastCursor := advance conv s.reader.lastCursor
            ((((job.page i s.reader).take k).map Row.data).map (Source.rowKey s.reader)) } } := by
        simp only [Job.call, h.ended, Bool.false_eq_true, if_false, Fault.answer, hk, if_true, hb]
      rw [hcall]
      refine .goesOn ⟨(job.page i s.reader).take k, false, _⟩ (hland.reads hinit false) rfl
        (by simp [Turn.handed]) ?_ rfl ?_ (by simp)
      · exact ⟨⟨h.owns.custom, h.owns.column, h.owns.limit⟩, h.ended, h.done⟩
      · rw [h.harmless_iff hread, hland.clean_dropped hinit]
        simp only [Job.Tolerates, hk, if_true]
    · have htake : (job.page i s.reader).take k = job.page i s.reader := take_of_length_le (by omega)
      refine h.outcome_full hread ?_ htake rfl ?_
      · simp only [Fault.answer, hk, if_false, htake]
      · simp only [Job.Tolerates, hk, if_false]

end

/-! ## Whole readings -/

variable (conv) in
/-- Without its cursor column a custom query fails as long as it has rows. -/
theorem Job.Live.blocked (h : job.Live s) (hpage : job.page i s.reader ≠ []) (hq : s.reader.customQuery = true)
    (hsel : job.selected = false) (f : Fault) :
    job.call conv i s f = s ∨ (job.call conv i s f).misled = true := by
  obtain ⟨row, rest, hrows⟩ := exists_cons_of_ne_nil hpage
  have hmiss : row.data.get? s.reader.cursorColumn = none := by
    rw [h.owns.column, job.projected row (h.page_subset (i := i) (by simp [hrows]))]
    simp [hsel]
  -- the first row that arrives lacks the column
  have hstay (rows : List Row) (e : Option Err)
      (hans : f.answer (job.page i s.reader) = .rows ((row :: rows).map Row.data) e) : job.call conv i s f = s := by
    rw [Job.call, if_neg (by simp [h.ended])]
    simp only [hans, readBatch, h.done, Bool.false_eq_true, if_false, map_cons, scan, hmiss, hq, if_true]
  cases f with
  | none => exact .inl (hstay rest none (by rw [hrows]; rfl))
  | refused e =>
    left
    rw [Job.call, if_neg (by simp [h.ended])]
    simp only [Fault.answer, readBatch, h.done, Bool.false_eq_true, if_false]
  | iteration k =>
    cases k with
    | zero =>
      have hpos := h.owns.pageLimit_pos
      simp [Job.call, h.ended, Fault.answer, readBatch, h.done, scan, hq, Fault.isIteration, hpos]
    | succ k => exact .inl (hstay (rest.take k) none (by rw [hrows]; rfl))
  | scan k e =>
    left
    cases k with
    | zero =>
      rw [Job.call, if_neg (by simp [h.ended])]
      simp only [Fault.answer, hrows, readBatch, h.done, Bool.false_eq_true, if_false, take_zero,
        map_nil, length_cons, Nat.zero_lt_succ, if_true, scan]
    | succ k => exact hstay (rest.take k) _ (by rw [hrows]; rfl)

variable (job conv i) in
/-- Once closed, a reading returns nothing more. -/
theorem call_closed (h : s.ended = true ∨ s.reader.done = true) (f : Fault) :
    (job.call conv i s f).returned = s.returned ∧ (job.call conv i s f).misled = s.misled ∧
      (job.call conv i s f).ended = true := by
  by_cases he : s.ended = true
  · simp [Job.call, he]
  · have hd : s.reader.done = true := h.resolve_left he
    have hnil : f.delivered [] = [] := by cases f <;> simp [Fault.delivered]
    simp [Job.call, he, Job.page, hd, readBatch, hnil]

variable (job conv i) in
theorem run_closed (h : s.ended = true ∨ s.reader.done = true) (fs : List Fault) :
    (run (job.call conv i) s fs).returned = s.returned ∧ (run (job.call conv i) s fs).misled = s.misled ∧
      (fs ≠ [] → (run (job.call conv i) s fs).ended = true) ∧
        Steps (job.Harmless i) (job.call conv i) s fs := by
  induction fs generalizing s with
  | nil => exact ⟨rfl, rfl, absurd rfl, trivial⟩
  | cons f fs ih =>
    obtain ⟨hret, hmis, hend⟩ := call_closed job conv i h f
    obtain ⟨hret', hmis', hend', hsteps⟩ := ih (.inl hend)
    refine ⟨hret'.trans hret, hmis'.trans hmis, fun _ => ?_, ?_, hsteps⟩
    · cases fs with
      | nil => exact hend
      | cons g fs => exact hend' (by simp)
    · exact h.elim .inl fun hd => .inr (.inl hd)

theorem run_ended (h : s.ended = true) (fs : List Fault) : run (job.call conv i) s fs = s := by
  induction fs with
  | nil => rfl
  | cons f fs ih =>
    have hcall : job.call conv i s f = s := by simp [Job.call, h]
    rw [run_cons, hcall, ih]

theorem run_misled (h : s.misled = true) (fs : List Fault) : (run (job.call conv i) s fs).misled = true := by
  refine run_invariant (fun s : Reading => s.misled = true) (fun s f hs => ?_) h
  unfold Job.call
  split
  · exact hs
  · simp only
    split
    · exact hs
    · simp [hs]

variable (conv) in
/-- A custom query without its cursor column never comes to the end of a table with rows. -/
theorem Job.Live.blocked_run (h : job.Live s) (hpage : job.page i s.reader ≠ [])
    (hq : s.reader.customQuery = true) (hsel : job.selected = false) (fs : List Fault) :
    (run (job.call conv i) s fs).ended = false ∨ (run (job.call conv i) s fs).misled = true := by
  induction fs with
  | nil => exact .inl h.ended
  | cons f fs ih =>
    rw [run_cons]
    rcases h.blocked conv hpage hq hsel f with hsame | hmis
    · rwa [hsame]
    · exact .inr (run_misled hmis fs)

variable {fs : List Fault}

/-- **A reading that has ended is a chain of turns**, all clean exactly if all its calls were harmless. -/
theorem exists_chain (h : job.Live s) (hend : (run (job.call conv i) s fs).ended = true)
    (hmis : (run (job.call conv i) s fs).misled = false) :
    ∃ ts, Chain job.rank job.Moves (job.rowsOf i) (job.position s.reader) ts ∧
      (run (job.call conv i) s fs).returned =
        s.returned ++ handed job.rank (job.rowsOf i) (job.position s.reader) ts ∧
      (Clean job.rank (job.position s.reader) ts ↔ Steps (job.Harmless i) (job.call conv i) s fs) := by
  induction fs generalizing s with
  | nil =>
    rw [run_nil, h.ended] at hend
    simp at hend
  | cons f fs ih =>
    have hread : job.page i s.reader = [] ∨ s.reader.customQuery = false ∨ job.selected = true := by
      by_contra hnot
      simp only [not_or, Bool.not_eq_false, Bool.not_eq_true] at hnot
      obtain ⟨hpage, hq, hsel⟩ := hnot
      rcases h.blocked_run conv hpage hq hsel (f :: fs) with hno | hyes
      · rw [hno] at hend
        simp at hend
      · rw [hyes] at hmis
        simp at hmis
    rw [run_cons] at hend hmis ⊢
    cases call_cases conv h hread f with
    | goesOn t reads next returned live misled clean _ =>
      obtain ⟨ts, hchain, hret, hclean⟩ := ih live hend hmis
      rw [next] at hchain hret hclean
      refine ⟨t :: ts, ⟨reads, hchain⟩, ?_, ?_⟩
      · rw [hret, returned, append_assoc]
        rfl
      · exact and_congr clean.symm hclean
    | finishes returned closed misled harmless =>
      obtain ⟨hret, -, -, hsteps⟩ := run_closed job conv i closed fs
      refine ⟨[], trivial, hret.trans returned, ?_⟩
      exact ⟨fun _ => ⟨harmless, hsteps⟩, fun _ => trivial⟩
    | mistakes misled _ =>
      rw [run_misled misled fs] at hmis
      simp at hmis

/-- Harmless calls come to an end once there are no more faults: each reads on, or is the last. -/
theorem Job.Live.ends_after (h : job.Live s)
    (hok : ∀ m, Steps (job.Harmless i) (job.call conv i) s (fs ++ replicate m .none)) :
    ∃ m, (run (job.call conv i) s (fs ++ replicate m .none)).ended = true ∧
      (run (job.call conv i) s (fs ++ replicate m .none)).misled = s.misled := by
  -- on the calls with faults and the rows behind the cursor
  induction hn : fs.length + (behind job.rank (job.rowsOf i) (job.position s.reader)).length using
    Nat.strong_induction_on generalizing s fs with
  | _ n ih =>
    obtain ⟨f, gs, k, hcalls, hgs⟩ : ∃ f gs k, (∀ m, fs ++ replicate (m + k) .none = f :: (gs ++ replicate m .none)) ∧
        (gs.length < fs.length ∨ gs.length = fs.length ∧ f = .none) := by
      cases fs with
      | nil => exact ⟨.none, [], 1, fun _ => rfl, .inr ⟨rfl, rfl⟩⟩
      | cons f fs => exact ⟨f, fs, 0, fun _ => rfl, .inl (by simp)⟩
    have hsteps (m : Nat) := hcalls m ▸ hok (m + k)
    have hharm : job.Harmless i s f := (hsteps 0).1
    cases call_cases conv h (h.readable hharm) f with
    | goesOn t reads next returned live misled clean progress =>
      have hlen := congrArg length (reads.behind_eq (job.rowsOf_sorted i) (clean.mp hharm))
      rw [length_append, ← next] at hlen
      have hpos : f = .none → 0 < _ := fun hf => length_pos_of_ne_nil (progress hf)
      obtain ⟨m, hend, hmis⟩ := ih _ (by grind) live (fun m => (hsteps m).2) rfl
      refine ⟨m + k, ?_, ?_⟩ <;> rw [hcalls]
      · exact hend
      · exact hmis.trans misled
    | finishes returned closed misled harmless =>
      obtain ⟨-, hmis, hend, -⟩ := run_closed job conv i closed (gs ++ replicate 1 .none)
      refine ⟨1 + k, ?_, ?_⟩ <;> rw [hcalls]
      · exact hend (by simp)
      · exact hmis.trans misled
    | mistakes misled harmful => exact absurd hharm harmful

/-! ## All shards -/

theorem Job.live_start : job.Live { reader := job.reader } := ⟨⟨rfl, rfl, rfl⟩, rfl, job.opened⟩

theorem Job.mem_wanted (hrow : row ∈ job.rows) (hpos : job.position job.reader < job.rank row) :
    row ∈ job.wanted := by
  unfold Job.wanted
  split
  · exact hrow
  · exact mem_behind.mpr ⟨hrow, hpos⟩

theorem Job.wanted_subset : job.wanted ⊆ job.rows := by
  intro row hrow
  unfold Job.wanted at hrow
  split at hrow
  · exact hrow
  · exact (mem_behind.mp hrow).1

theorem Job.nodup_wanted : job.wanted.Nodup := by
  unfold Job.wanted
  split
  · exact job.sorted.imp fun h heq => absurd (heq ▸ h) (lt_irrefl _)
  · have hs : job.rows.Pairwise fun a b => job.rank a < job.rank b := job.sorted
    exact nodup_behind hs _

theorem inShard_unique {i j : Nat} (hi : i < job.shards) (hj : j < job.shards) (h : job.inShard i row = true)
    (h' : job.inShard j row = true) : i = j := by
  unfold Job.inShard at h h'
  by_cases hone : job.shards ≤ 1
  · omega
  · simp only [hone, decide_false, Bool.false_or, beq_iff_eq] at h h'
    exact Option.some.inj (h.symm.trans h')

theorem mem_shard {i : Nat} :
    row ∈ behind job.rank (job.rowsOf i) (job.position job.reader) ↔
      row ∈ job.rows ∧ job.inShard i row = true ∧ job.position job.reader < job.rank row := by
  simp [mem_behind, Job.rowsOf, and_assoc]

theorem run_replicate {m m' : Nat} (hle : m ≤ m')
    (h : (run (job.call conv i) s (fs ++ replicate m .none)).ended = true) :
    run (job.call conv i) s (fs ++ replicate m' .none) =
      run (job.call conv i) s (fs ++ replicate m .none) := by
  obtain ⟨d, rfl⟩ := Nat.exists_eq_add_of_le hle
  rw [replicate_add, ← append_assoc, run_append, run_ended h]

/-- The calls of a reading are harmless however long it goes on if they are until its end. -/
theorem steps_of_ended {m : Nat} (h : (run (job.call conv i) s (fs ++ replicate m .none)).ended = true)
    (hsteps : Steps (job.Harmless i) (job.call conv i) s (fs ++ replicate m .none)) (m' : Nat) :
    Steps (job.Harmless i) (job.call conv i) s (fs ++ replicate m' .none) := by
  rcases Nat.le_total m m' with hle | hle
  · obtain ⟨d, rfl⟩ := Nat.exists_eq_add_of_le hle
    rw [replicate_add, ← append_assoc]
    exact steps_append.mpr ⟨hsteps, (run_closed job conv i (.inl h) _).2.2.2⟩
  · obtain ⟨d, rfl⟩ := Nat.exists_eq_add_of_le hle
    rw [replicate_add, ← append_assoc] at hsteps
    exact (steps_append.mp hsteps).1

variable {faults : Nat → List Fault}

theorem harmless_of_complete (h : job.Complete conv faults) :
    job.Covered ∧ ∀ i < job.shards, ∀ m, Steps (job.Harmless i) (job.call conv i) { reader := job.reader }
      (faults i ++ replicate m .none) := by
  obtain ⟨m, hends, hperm⟩ := h
  have hin {i : Nat} (hi : i < job.shards) {row : Row} (hrow : row ∈ (job.readAll conv faults m i).returned) :
      row ∈ behind job.rank (job.rowsOf i) (job.position job.reader) := by
    obtain ⟨ts, hchain, hret, -⟩ := exists_chain job.live_start (hends i hi).1 (hends i hi).2
    rw [Job.readAll, hret] at hrow
    exact hchain.handed_subset hrow
  have hout {row : Row} (hrow : row ∈ job.wanted) :
      ∃ i < job.shards, row ∈ (job.readAll conv faults m i).returned := by
    obtain ⟨i, hi, hmem⟩ := mem_flatMap.mp (hperm.mem_iff.mpr hrow)
    exact ⟨i, mem_range.mp hi, hmem⟩
  refine ⟨fun row hrow => ?_, fun i hi => ?_⟩
  · obtain ⟨i, hi, hmem⟩ := hout hrow
    obtain ⟨-, hshard, hpos⟩ := mem_shard.mp (hin hi hmem)
    exact ⟨hpos, i, hi, hshard⟩
  · -- each shard has returned its own rows exactly once
    obtain ⟨ts, hchain, hret, hclean⟩ := exists_chain job.live_start (hends i hi).1 (hends i hi).2
    have hnodup : (job.readAll conv faults m i).returned.Nodup := by
      have hall := hperm.nodup_iff.mpr job.nodup_wanted
      exact (nodup_flatMap.mp hall).1 i (mem_range.mpr hi)
    have hshard : (job.readAll conv faults m i).returned.Perm
        (behind job.rank (job.rowsOf i) (job.position job.reader)) := by
      refine (perm_ext_iff_of_nodup hnodup (nodup_behind (job.rowsOf_sorted i) _)).mpr fun row => ?_
      refine ⟨hin hi, fun hrow => ?_⟩
      obtain ⟨hmem, hs, hpos⟩ := mem_shard.mp hrow
      obtain ⟨j, hj, hret⟩ := hout (job.mem_wanted hmem hpos)
      obtain rfl := inShard_unique hi hj hs (mem_shard.mp (hin hj hret)).2.1
      exact hret
    rw [Job.readAll, hret] at hshard
    have hsteps := hclean.mp ((handed_perm_iff (job.rowsOf_sorted i) hchain).mp hshard)
    exact steps_of_ended (hends i hi).1 hsteps

/-- A shard whose calls are harmless returns its rows and ends. -/
theorem shard_of_harmless (hok : ∀ m, Steps (job.Harmless i) (job.call conv i) { reader := job.reader }
    (faults i ++ replicate m .none)) :
    ∃ m, (job.readAll conv faults m i).ended = true ∧ (job.readAll conv faults m i).misled = false ∧
      (job.readAll conv faults m i).returned =
        behind job.rank (job.rowsOf i) (job.position job.reader) := by
  obtain ⟨m, hend, hmis⟩ := job.live_start.ends_after hok
  obtain ⟨ts, hchain, hret, hclean⟩ := exists_chain job.live_start hend hmis
  refine ⟨m, hend, hmis, ?_⟩
  rw [Job.readAll, hret]
  exact hchain.handed_eq (job.rowsOf_sorted i) (hclean.mpr (hok m))

theorem complete_of_harmless (hcov : job.Covered)
    (hok : ∀ i < job.shards, ∀ m, Steps (job.Harmless i) (job.call conv i) { reader := job.reader }
      (faults i ++ replicate m .none)) : job.Complete conv faults := by
  have hshard (i : Nat) (hi : i < job.shards) := shard_of_harmless (hok i hi)
  choose! m hend hmis hret using hshard
  -- enough calls for the slowest shard
  let calls := (Finset.range job.shards).sup m
  have hsame {i : Nat} (hi : i < job.shards) :
      job.readAll conv faults calls i = job.readAll conv faults (m i) i :=
    run_replicate (Finset.le_sup (Finset.mem_range.mpr hi)) (hend i hi)
  refine ⟨calls, fun i hi => ?_, ?_⟩
  · rw [hsame hi]
    exact ⟨hend i hi, hmis i hi⟩
  · have hmem {i : Nat} (hi : i ∈ range job.shards) {row : Row} :
        row ∈ (job.readAll conv faults calls i).returned ↔
          row ∈ job.rows ∧ job.inShard i row = true ∧ job.position job.reader < job.rank row := by
      have hi := mem_range.mp hi
      rw [hsame hi, hret i hi, mem_shard]
    have hnodup : ((range job.shards).flatMap fun i => (job.readAll conv faults calls i).returned).Nodup := by
      refine nodup_flatMap.mpr ⟨fun i hi => ?_, ?_⟩
      · have hi := mem_range.mp hi
        rw [hsame hi, hret i hi]
        exact nodup_behind (job.rowsOf_sorted i) _
      · refine nodup_range.imp_of_mem fun {i j} hi hj hne row hrow hrow' => hne ?_
        exact inShard_unique (mem_range.mp hi) (mem_range.mp hj) ((hmem hi).mp hrow).2.1
          ((hmem hj).mp hrow').2.1
    refine (perm_ext_iff_of_nodup hnodup job.nodup_wanted).mpr fun row => ?_
    rw [mem_flatMap]
    constructor
    · rintro ⟨i, hi, hrow⟩
      obtain ⟨hr, -, hpos⟩ := (hmem hi).mp hrow
      exact job.mem_wanted hr hpos
    · intro hrow
      obtain ⟨hpos, i, hi, hs⟩ := hcov row hrow
      exact ⟨i, mem_range.mpr hi, (hmem (mem_range.mpr hi)).mpr ⟨job.wanted_subset hrow, hs, hpos⟩⟩

end

/-- **Paging is complete and ends** exactly if every row is in a shard and behind the parameter of the
first query, and every call is harmless. -/
theorem paging_complete_iff {α : Type*} [LinearOrder α] (job : Job α) (conv : Conv) (faults : Nat → List Fault) :
    job.Complete conv faults ↔
      job.Covered ∧ ∀ i < job.shards, ∀ m, Steps (job.Harmless i) (job.call conv i) { reader := job.reader }
        (faults i ++ List.replicate m .none) := by
  constructor
  · exact harmless_of_complete
  · rintro ⟨hcov, hok⟩
    exact complete_of_harmless hcov hok

/-! ### Example: tables with one or two rows -/

/-- Numbers by value, and strings by length. -/
def numberColumn : Column Int where
  rank
    | .int _ n => n
    | .str s => s.length
    | _ => 0
  rank_int _ _ := rfl
  rank_blank := rfl

/-- `SELECT * FROM …`, or the columns without the key. -/
def rowOf (selected : Bool) (key : Value) : Row := ⟨key, if selected then [("id", key)] else [("name", .null)]⟩

theorem rowOf_get (selected : Bool) (key : Value) :
    (rowOf selected key).data.get? "id" = if selected then some key else none := by
  cases selected <;> simp [rowOf, Data.get?]

/-- A first read of a table with these keys, by one reader. -/
def tableOf (selected : Bool) (keys : List Value)
    (hsorted : keys.Pairwise fun a b => numberColumn.rank a < numberColumn.rank b)
    (htyped : ∀ key ∈ keys, KeyType key = true) : Job Int where
  col := numberColumn
  mod
    | .int _ v, n => if 0 ≤ v.tmod n then some (v.tmod n).toNat else none
    | _, _ => none
  mod_int _ _ _ := rfl
  rows := keys.map (rowOf selected)
  sorted := List.pairwise_map.mpr hsorted
  typed := List.forall_mem_map.mpr htyped
  reader := {}
  opened := rfl
  limit_pos := by decide
  selected
  projected := List.forall_mem_map.mpr fun key _ => rowOf_get selected key
  batchSize := 100
  shards := 1
  shards_pos := Nat.one_pos

def noConv : Conv := ⟨fun _ => 0, id⟩

/-- If the first page is one row, the cursor has to follow to it. -/
theorem moves_of_complete {α : Type*} [LinearOrder α] {job : Job α} {conv : Conv} (row : Row)
    (h : job.Complete conv fun _ => []) (hpage : job.page 0 job.reader = [row])
    (hq : job.reader.customQuery = false) : job.Moves row := by
  rcases ((harmless_of_complete h).2 0 job.shards_pos 1).1 with he | hd | ⟨-, htol⟩
  · simp at he
  · simp [job.opened] at hd
  · have hset : job.Settles job.reader [row] := hpage ▸ htol
    rcases hset with hnil | ⟨row', hlast, hm⟩ | ⟨hq', -⟩
    · simp at hnil
    · obtain rfl : row = row' := by simpa using hlast
      exact hm
    · simp [hq] at hq'

/-- A negative key is never selected; a page with an unsigned key, or without the key column, comes again
and again; and rows behind an error of the iteration are taken not to be there. -/
theorem paging_loses_rows :
    ¬ (tableOf true [.int64 (-1), .int64 5] (by decide) (by decide)).Complete noConv (fun _ => []) ∧
      ¬ (tableOf true [.int .uint64 5] (by decide) (by decide)).Complete noConv (fun _ => []) ∧
        ¬ (tableOf false [.int64 5] (by decide) (by decide)).Complete noConv (fun _ => []) ∧
          ¬ (tableOf true [.int64 5] (by decide) (by decide)).Complete noConv (fun _ => [.iteration 0]) := by
  refine ⟨fun h => ?_, fun h => ?_, fun h => ?_, fun h => ?_⟩
  · have hcov := (harmless_of_complete h).1 (rowOf true (.int64 (-1))) (by decide)
    cases hcov.1
  · have hm := moves_of_complete (rowOf true (.int .uint64 5)) h (by decide) rfl
    cases hm.2
  · have hm := moves_of_complete (rowOf false (.int64 5)) h (by decide) rfl
    cases hm.1
  · -- the call with the fault is taken for the end
    rcases ((harmless_of_complete h).2 0 Nat.one_pos 0).1 with he | hd | ⟨-, ⟨row, hlast, -⟩, -⟩
    · simp at he
    · cases hd
    · simp at hlast

end OpenEtl.Source.Paging
