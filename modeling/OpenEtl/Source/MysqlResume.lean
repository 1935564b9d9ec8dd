import OpenEtl.Source.MysqlCdc

/-!
# Resuming a MySQL binlog (`source/mysql_cdc.go:207-409, 463-478`, `source/checkpoint_validation.go:117, 295-400`)

| here | there |
| --- | --- |
| `validateBinlogFile`, `validateCheckpoint` | the functions of these names (:117, :295) |
| `decodeCheckpointPosition` | `decodeMySQLCDCCheckpointPosition` (:362) |
| `openReader` | `MySQLCDCSource.Open` up to the goroutine (:207) |
| `startCanalOnce` | `startCanalOnce`: the GTID set, the file position, or the master position (:365) |
| `checkpointForRecord` | `CheckpointForRecord` (:463) |

The server is its binlog: a list of events, each with the position behind it and the transaction it belongs to. It
sends the events behind a position, or those of the transactions outside a set. The canal is a parameter: it hands
the rows and statements of an event over and may then report positions and sets (`Canal`).
-/

namespace OpenEtl.Source.Cdc

open List
open Trace (run)

/-! ## The binlog -/

/-- What an event holds for the source: rows of a captured table, a statement that changes a table, or neither. -/
inductive Content
  | rows (e : RowsEvent)
  | ddl (query : String)
  | other

/-- An event, the position behind it, and the number of its transaction. -/
structure LogEvent where
  content : Content
  name : String
  pos : UInt32
  transaction : Nat

namespace LogEvent

variable (u : LogEvent)

def position : Nat ×ₗ Nat := binlogPosition u.name u.pos

/-- The callback that gets the rows or the statement. -/
def calls : List Event :=
  match u.content with
  | .rows e => [.rows e]
  | .ddl query => [.ddl query u.name u.pos]
  | .other => []

end LogEvent

structure Binlog where
  events : List LogEvent
  /-- `mysql.ParseGTIDSet`: the set contains this many transactions of the binlog -/
  parseGTIDSet : String → Except String Nat
  sorted : events.Pairwise fun a b => a.position < b.position ∧ a.transaction ≤ b.transaction
  named : ∀ u ∈ events, u.name ≠ ""

namespace Binlog

variable (B : Binlog)

/-- The first event behind a position. -/
def fromPosition (name : String) (pos : UInt32) : Nat :=
  (B.events.takeWhile fun u => u.position ≤ binlogPosition name pos).length

/-- The first event outside the first `n` transactions. -/
def fromTransaction (n : Nat) : Nat := (B.events.takeWhile fun u => u.transaction < n).length

/-- How many transactions a set contains, if it can be read; the empty text is no set. -/
def fromGTID (set : String) : Option Nat := if set = "" then none else (B.parseGTIDSet set).toOption

/-- The transaction of the `i`-th event. -/
def transaction (i : Nat) : Nat := (B.events[i]?.map LogEvent.transaction).getD 0

/-- What the canal may report once an event is handed over: a position that is not behind it, and a set without later
transactions. -/
def Reports (u : LogEvent) : Event → Prop
  | .xid name pos | .rotate name pos => name ≠ "" ∧ binlogPosition name pos ≤ u.position
  | .posSynced name pos gtid =>
    (name ≠ "" ∧ binlogPosition name pos ≤ u.position) ∧
      ∀ set n, gtid = some set → B.parseGTIDSet set = .ok n → n ≤ u.transaction + 1
  | .rows _ | .ddl .. => False

/-- The callbacks a canal makes for an event. -/
structure Canal where
  callbacks : Nat → List Event
  /-- rows and statements come first -/
  handsOver : ∀ i u, B.events[i]? = some u →
    ∃ reports, callbacks i = u.calls ++ reports ∧ ∀ ev ∈ reports, B.Reports u ev

end Binlog

/-! ## Checkpoints -/

structure CdcPosition where
  file : String := ""
  pos : UInt32 := 0
  gtid : String := ""
deriving DecidableEq, Repr

/-- The fields of a checkpoint's JSON object; a field that is null or of another type is refused before. -/
structure CheckpointFields where
  file : Option String := none
  binlogFile : Option String := none
  pos : Option Int := none
  binlogPos : Option Int := none
  gtid : Option String := none
deriving DecidableEq, Repr

/-- `json.Marshal` of a position: the set is left out if it is empty. -/
def CdcPosition.fields (p : CdcPosition) : CheckpointFields :=
  { file := some p.file, pos := some p.pos.toNat, gtid := if p.gtid = "" then none else some p.gtid }

def decodeCheckpointPosition (f : CheckpointFields) : CdcPosition :=
  { file := ((f.file <|> f.binlogFile).getD "")
    pos := UInt32.ofInt ((f.pos <|> f.binlogPos).getD 0)
    gtid := f.gtid.getD "" }

/-- `unicode.IsControl`. -/
def isControl (c : Char) : Bool := c.toNat < 0x20 || (0x7F ≤ c.toNat && c.toNat ≤ 0x9F)

def validateBinlogFile (file : String) : Except String Unit :=
  let file := trimSpace file
  if file = "" then .error "checkpoint binlog file is empty"
  else if file.toList.any fun c => isWhiteSpace c || isControl c || c = '/' || c = '\\' then
    .error "checkpoint binlog file contains an unsafe path/control character"
  else .ok ()

/-- `start_from`; without it the reader starts from the master position. -/
inductive StartFrom
  | master
  | gtid (text : String)
  | binlog (file : String) (pos : UInt32) (named : file ≠ "")

structure MySQLCDCSource where
  name : String := ""
  database : String := ""
  enableGTID : Bool := false
  startFrom : StartFrom := .master

/-- `canal.GetMasterPos`. -/
structure MasterPos where
  name : String
  pos : UInt32
  named : name ≠ ""

/-- A position the file fallback starts from. -/
def Proper (name : String) (pos : UInt32) : Prop := name ≠ "master" ∧ 0 < pos

instance (name : String) (pos : UInt32) : Decidable (Proper name pos) := inferInstanceAs (Decidable (_ ∧ _))

section

variable (B : Binlog) (source : MySQLCDCSource) (master : MasterPos)

def validateCheckpoint (f : CheckpointFields) : Except String Unit := do
  let file := f.file <|> f.binlogFile
  let pos := f.pos <|> f.binlogPos
  let gtid := trimSpace (f.gtid.getD "")
  if gtid ≠ "" then
    if let .error err := B.parseGTIDSet gtid then throw ("checkpoint GTID is invalid: " ++ err)
  match file with
  | some file =>
    validateBinlogFile file
    if pos.all (· ≤ 0) then
      if gtid = "" then throw "checkpoint binlog file requires a positive position"
      if !source.enableGTID then throw "checkpoint contains GTID-only progress but source enable_gtid is false"
  | none =>
    if gtid = "" then throw "checkpoint must contain a binlog file/position or a GTID"
    if !source.enableGTID then throw "checkpoint contains GTID-only progress but source enable_gtid is false"
  match pos with
  | some pos =>
    if pos < 0 then throw ("checkpoint binlog position must be >= 0, got " ++ toString pos)
    if 4294967295 < pos then throw ("checkpoint binlog position " ++ toString pos ++ " exceeds uint32")
  | none => return ()

def openReader (cp : Option CheckpointFields) : Except String Reader :=
  let reader : Reader := { name := source.name, database := source.database, lastPosName := "master" }
  match cp with
  | some f =>
    match validateCheckpoint B source f with
    | .error err => .error err
    | .ok () =>
      let pos := decodeCheckpointPosition f
      .ok { reader with
        lastPosName := if pos.file ≠ "" then pos.file else "master"
        lastPos := if pos.file ≠ "" then pos.pos else 0
        lastGTID := pos.gtid }
  | none =>
    .ok (match source.startFrom with
      | .master => reader
      | .gtid text => { reader with lastGTID := text }
      | .binlog file pos _ => { reader with lastPosName := file, lastPos := pos })

/-- The reader the canal starts with, and the first event the server sends. -/
def startCanalOnce (r : Reader) : Reader × Nat :=
  match B.fromGTID r.lastGTID with
  | some n => (r, B.fromTransaction n)
  | none =>
    if r.lastPosName = "master" ∧ r.lastPos = 0 then
      ({ r with lastPosName := master.name, lastPos := master.pos }, B.fromPosition master.name master.pos)
    else if Proper r.lastPosName r.lastPos then (r, B.fromPosition r.lastPosName r.lastPos)
    else (r, B.fromPosition master.name master.pos)

def checkpointForRecord (r : Reader) (rec : Record) : CdcPosition :=
  { file := if rec.metadata.binlogFile ≠ "" then rec.metadata.binlogFile else r.lastPosName
    pos := if rec.metadata.binlogFile ≠ "" then rec.metadata.binlogPos else r.lastPos
    gtid := if rec.metadata.gtid ≠ "" then rec.metadata.gtid else r.lastGTID }

/-- The first event that is sent after a restart from a checkpoint, if `Open` takes it. -/
def restart (cp : CdcPosition) : Except String Nat :=
  match openReader B source (some cp.fields) with
  | .error err => .error err
  | .ok r => .ok (startCanalOnce B master r).2

end

/-! ## Sessions -/

/-- A record with the event and the place in it that it comes from. -/
structure Emitted where
  record : Record
  event : Nat
  index : Nat
deriving DecidableEq

/-- The reader, the event that is being handled and the callbacks still to be made for it. -/
structure Session (B : Binlog) where
  canal : B.Canal
  reader : Reader
  event : Nat
  due : List Event
  emitted : List Emitted := []

/-- A callback or the next event; a new canal after a disconnect; and after a purged binlog, with
`resume_from_current`, one from the current position. -/
inductive SessionEvent (B : Binlog)
  | next
  | reconnect (canal : B.Canal) (master : MasterPos)
  | purged (canal : B.Canal) (current master : MasterPos)

section

variable {B : Binlog} (T : Texts)

def Session.connect (canal : B.Canal) (master : MasterPos) (r : Reader) (emitted : List Emitted) : Session B :=
  let (reader, event) := startCanalOnce B master r
  { canal, reader, event, due := canal.callbacks event, emitted }

def Session.start (source : MySQLCDCSource) (cp : Option CheckpointFields) (canal : B.Canal) (master : MasterPos) :
    Except String (Session B) :=
  (openReader B source cp).map fun r => Session.connect canal master r []

/-- The next callback. -/
def Session.call (s : Session B) (ev : Event) (due : List Event) : Session B :=
  let (reader, recs) := handle T s.reader ev
  { s with reader, due, emitted := s.emitted ++ recs.mapIdx fun i rec => ⟨rec, s.event, i⟩ }

def Session.step (s : Session B) : SessionEvent B → Session B
  | .next =>
    match B.events[s.event]?, s.due with
    | none, _ => s
    | some _, [] => { s with event := s.event + 1, due := s.canal.callbacks (s.event + 1) }
    | some _, ev :: due => s.call T ev due
  | .reconnect canal master => Session.connect canal master s.reader s.emitted
  | .purged canal current master =>
    Session.connect canal master { s.reader with lastPosName := current.name, lastPos := current.pos } s.emitted

/-- How many records an event gives. -/
def LogEvent.recordCount (u : LogEvent) : Nat := (u.calls.flatMap fun ev => (handle T {} ev).2).length

variable (B)

/-- The record is the last one of its event. -/
def Emitted.endsEvent (e : Emitted) : Bool := (B.events[e.event]?).any fun u => e.index + 1 = u.recordCount T

/-- The record is the last one of its transaction. -/
def Emitted.isLast (e : Emitted) : Bool :=
  e.endsEvent B T &&
    (B.events.drop (e.event + 1)).all fun u => u.transaction ≠ B.transaction e.event || u.recordCount T = 0

/-- The event a restart for a record must not start behind: the first one of a later transaction, or the first one
with a record that follows. -/
def Emitted.limit (e : Emitted) : Nat :=
  if e.isLast B T then B.fromTransaction (B.transaction e.event + 1)
  else if e.endsEvent B T then e.event + 1
  else e.event

def NotAhead (source : MySQLCDCSource) (master : MasterPos) (r : Reader) (e : Emitted) : Prop :=
  ∃ i, restart B source master (checkpointForRecord r e.record) = .ok i ∧ i ≤ e.limit B T

/-- `Open` takes the record's position with the set in use, which is the record's own or else the reader's. A set of
its own does not contain the record's transaction unless the record is the last one; that of the reader contains no
transaction that has to be sent again. Without a set the record has a position of its own, or there is nothing
behind it. -/
def Bound (source : MySQLCDCSource) (master : MasterPos) (r : Reader) (e : Emitted) : Prop :=
  let m := e.record.metadata
  let gtid := if m.gtid ≠ "" then m.gtid else r.lastGTID
  let position : CdcPosition := { file := m.binlogFile, pos := m.binlogPos, gtid }
  validateCheckpoint B source position.fields = .ok () ∧
    match B.fromGTID gtid with
    | some n =>
      if m.gtid ≠ "" then n ≤ B.transaction e.event ∨ e.isLast B T = true
      else ∀ u, B.events[e.limit B T]? = some u → n ≤ u.transaction
    | none => Proper m.binlogFile m.binlogPos ∨ B.fromPosition master.name master.pos ≤ e.limit B T

end

/-! ## The first event that is sent -/

theorem lt_length_takeWhile {α : Type} {p : α → Bool} {l : List α} (h : l.Pairwise fun a b => p b = true → p a = true)
    (i : Nat) : i < (l.takeWhile p).length ↔ ∃ x, l[i]? = some x ∧ p x = true := by
  induction l generalizing i with
  | nil => simp
  | cons a l ih =>
    obtain ⟨ha, hl⟩ := pairwise_cons.mp h
    cases hp : p a with
    | false =>
      -- nothing behind the first element is taken either
      have hno : ∀ x ∈ a :: l, p x = false := by
        intro x hx
        rcases mem_cons.mp hx with rfl | hx
        · exact hp
        · exact Bool.eq_false_iff.mpr fun hpx => by simp [ha x hx hpx] at hp
      rw [takeWhile_cons, if_neg (by simp [hp])]
      refine iff_of_false (Nat.not_lt_zero i) ?_
      rintro ⟨x, hx, hpx⟩
      rw [hno x (mem_of_getElem? hx)] at hpx
      exact absurd hpx Bool.false_ne_true
    | true =>
      rw [takeWhile_cons, if_pos hp]
      cases i with
      | zero => simp [hp]
      | succ i => simpa using ih hl i

section

variable {B : Binlog} {T : Texts} {c n : Nat} {u : LogEvent} {name : String} {pos : UInt32}

theorem lt_fromPosition_iff :
    c < B.fromPosition name pos ↔ ∃ u, B.events[c]? = some u ∧ u.position ≤ binlogPosition name pos := by
  rw [Binlog.fromPosition, lt_length_takeWhile]
  · simp only [decide_eq_true_eq]
  · refine B.sorted.imp fun h hb => ?_
    rw [decide_eq_true_eq] at hb ⊢
    exact le_trans (le_of_lt h.1) hb

theorem lt_fromTransaction_iff : c < B.fromTransaction n ↔ ∃ u, B.events[c]? = some u ∧ u.transaction < n := by
  rw [Binlog.fromTransaction, lt_length_takeWhile]
  · simp only [decide_eq_true_eq]
  · refine B.sorted.imp fun h hb => ?_
    rw [decide_eq_true_eq] at hb ⊢
    exact Nat.lt_of_le_of_lt h.2 hb

theorem fromTransaction_le_iff : B.fromTransaction n ≤ c ↔ ∀ u, B.events[c]? = some u → n ≤ u.transaction := by
  rw [← not_lt, lt_fromTransaction_iff, not_exists]
  simp only [not_and, Nat.not_lt]

theorem sorted_at {i j : Nat} {a b : LogEvent} (h : i < j) (ha : B.events[i]? = some a) (hb : B.events[j]? = some b) :
    a.position < b.position ∧ a.transaction ≤ b.transaction := by
  obtain ⟨hi, rfl⟩ := List.getElem?_eq_some_iff.mp ha
  obtain ⟨hj, rfl⟩ := List.getElem?_eq_some_iff.mp hb
  exact pairwise_iff_getElem.mp B.sorted i j hi hj h

/-- From a position that is not behind an event the next event is still sent. -/
theorem fromPosition_le (hu : B.events[c]? = some u) (h : binlogPosition name pos ≤ u.position) :
    B.fromPosition name pos ≤ c + 1 := by
  refine Nat.not_lt.mp fun hlt => ?_
  obtain ⟨v, hv, hle⟩ := lt_fromPosition_iff.mp hlt
  exact absurd (le_trans hle h) (not_le_of_gt (sorted_at (Nat.lt_succ_self c) hu hv).1)

theorem transaction_eq (hu : B.events[c]? = some u) : B.transaction c = u.transaction := by
  simp [Binlog.transaction, hu]

/-! ## Limits -/

variable {e : Emitted}

theorem lt_fromTransaction_succ (hu : B.events[c]? = some u) : c < B.fromTransaction (u.transaction + 1) :=
  lt_fromTransaction_iff.mpr ⟨u, hu, Nat.lt_succ_self _⟩

theorem Emitted.event_le_limit (hu : B.events[e.event]? = some u) : e.event ≤ e.limit B T := by
  unfold Emitted.limit
  split
  · rw [transaction_eq hu]
    exact Nat.le_of_lt (lt_fromTransaction_succ hu)
  · split
    · exact Nat.le_succ _
    · exact Nat.le_refl _

theorem Emitted.event_lt_limit (hu : B.events[e.event]? = some u) (hends : e.endsEvent B T = true) :
    e.event < e.limit B T := by
  rw [Emitted.limit, if_pos hends]
  split
  · rw [transaction_eq hu]
    exact lt_fromTransaction_succ hu
  · exact Nat.lt_succ_self _

/-- Behind its own transaction a record that is not the last one would be ahead. -/
theorem Emitted.limit_lt_of_not_last (hu : B.events[e.event]? = some u) (hlast : e.isLast B T = false) :
    e.limit B T < B.fromTransaction (u.transaction + 1) := by
  rw [Emitted.limit, if_neg (by simp [hlast])]
  split
  · rename_i hends
    -- a later event of the transaction has a record
    rw [Emitted.isLast, hends, Bool.true_and, all_eq_false] at hlast
    obtain ⟨v, hv, hrec⟩ := hlast
    obtain ⟨j, hj⟩ := mem_iff_getElem?.mp hv
    rw [getElem?_drop] at hj
    have htx : v.transaction = u.transaction := by
      rw [← transaction_eq hu]
      by_contra hne
      simp [hne] at hrec
    have hlt := lt_fromTransaction_succ hj
    rw [htx] at hlt
    omega
  · exact lt_fromTransaction_succ hu

/-- A set without later transactions is not ahead unless it contains the transaction of a record with records
behind it. -/
theorem Emitted.fromTransaction_le_limit_iff (hu : B.events[e.event]? = some u) (hn : n ≤ u.transaction + 1) :
    B.fromTransaction n ≤ e.limit B T ↔ n ≤ B.transaction e.event ∨ e.isLast B T = true := by
  rw [transaction_eq hu]
  cases hlast : e.isLast B T with
  | true =>
    simp only [or_true, iff_true]
    rw [Emitted.limit, if_pos hlast, transaction_eq hu, fromTransaction_le_iff]
    intro v hv
    refine Nat.le_trans hn (Nat.not_lt.mp fun hlt => ?_)
    exact Nat.lt_irrefl _ (lt_fromTransaction_iff.mpr ⟨v, hv, hlt⟩)
  | false =>
    simp only [Bool.false_eq_true, or_false]
    constructor
    · intro hle
      refine Nat.not_lt.mp fun hlt => ?_
      have heq : n = u.transaction + 1 := Nat.le_antisymm hn hlt
      rw [heq] at hle
      exact Nat.not_le_of_gt (Emitted.limit_lt_of_not_last hu hlast) hle
    · intro hle
      refine Nat.le_trans (fromTransaction_le_iff.mpr fun v hv => ?_) (Emitted.event_le_limit hu)
      obtain rfl := Option.some.inj (hu.symm.trans hv)
      exact hle

/-! ## What the reader knows -/

variable (B)

/-- A set contains no transaction behind the `t`-th; without one the position lets the `k`-th event be sent. -/
def Behind (gtid name : String) (pos : UInt32) (t k : Nat) : Prop :=
  match B.fromGTID gtid with
  | some n => n ≤ t + 1
  | none => Proper name pos → B.fromPosition name pos ≤ k

def Reader.Behind (r : Reader) (t k : Nat) : Prop := Cdc.Behind B r.lastGTID r.lastPosName r.lastPos t k

variable (T)

/-- The position and set of a record. -/
structure Emitted.Known (e : Emitted) : Prop where
  file : e.record.metadata.binlogFile ≠ ""
  behind : ∃ u, B.events[e.event]? = some u ∧
    Behind B e.record.metadata.gtid e.record.metadata.binlogFile e.record.metadata.binlogPos u.transaction
      (e.limit B T)

variable {B T}

/-- While an event is not handed over, the reader knows nothing of it; then only reports are due. -/
def Session.Placed (s : Session B) (u : LogEvent) : Prop :=
  (s.due = s.canal.callbacks s.event ∧ s.reader.Behind B u.transaction s.event) ∨
    ((∀ ev ∈ s.due, B.Reports u ev) ∧ s.reader.Behind B u.transaction (s.event + 1))

variable (T)

structure SessionInv (s : Session B) : Prop where
  named : s.reader.lastPosName ≠ ""
  placed : ∀ u, B.events[s.event]? = some u → s.Placed u
  emitted : ∀ e ∈ s.emitted, e.Known B T

variable {T} {gtid : String} {t k : Nat}

theorem Behind.mono {t' k' : Nat} (h : Behind B gtid name pos t k) (ht : t ≤ t') (hk : k ≤ k') :
    Behind B gtid name pos t' k' := by
  unfold Behind at h ⊢
  split at h
  · exact Nat.le_trans h (Nat.succ_le_succ ht)
  · exact fun hp => Nat.le_trans (h hp) hk

variable {source : MySQLCDCSource} {r : Reader}

theorem openReader_named {cp : Option CheckpointFields} (h : openReader B source cp = .ok r) :
    r.lastPosName ≠ "" := by
  unfold openReader at h
  cases cp with
  | none =>
    obtain rfl := Except.ok.inj h
    cases source.startFrom with
    | master | gtid => exact show "master" ≠ "" by decide
    | binlog file pos named => exact named
  | some f =>
    simp only at h
    split at h
    · exact nomatch h
    · obtain rfl := Except.ok.inj h
      simp only
      split
      · assumption
      · decide

theorem startCanalOnce_named (master : MasterPos) (hr : r.lastPosName ≠ "") :
    (startCanalOnce B master r).1.lastPosName ≠ "" := by
  unfold startCanalOnce
  split
  · exact hr
  · split
    · exact master.named
    · split <;> exact hr

/-- The server starts where the reader is. -/
theorem startCanalOnce_behind (master : MasterPos) (hu : B.events[(startCanalOnce B master r).2]? = some u) :
    (startCanalOnce B master r).1.Behind B u.transaction (startCanalOnce B master r).2 := by
  unfold startCanalOnce at hu ⊢
  cases hg : B.fromGTID r.lastGTID with
  | some n =>
    simp only [hg] at hu
    have hn := fromTransaction_le_iff.mp (Nat.le_refl (B.fromTransaction n)) u hu
    simpa [Reader.Behind, Behind, hg] using Nat.le_succ_of_le hn
  | none =>
    simp only
    split
    · simp [Reader.Behind, Behind, hg]
    · split
      · simp [Reader.Behind, Behind, hg]
      · rename_i hp
        simp [Reader.Behind, Behind, hg, hp]

theorem SessionInv.connect (canal : B.Canal) (master : MasterPos) {emitted : List Emitted} (hr : r.lastPosName ≠ "")
    (hemitted : ∀ e ∈ emitted, e.Known B T) : SessionInv T (Session.connect canal master r emitted) where
  named := startCanalOnce_named master hr
  placed _ hu := .inl ⟨rfl, startCanalOnce_behind master hu⟩
  emitted := hemitted

/-! ## Callbacks -/

variable {rec : Record}

/-- A record of a row event carries what the reader knows. -/
theorem metadata_onRow {ev : RowsEvent} (h : rec ∈ onRow T r ev) :
    rec.metadata.binlogFile = r.lastPosName ∧ rec.metadata.binlogPos = r.lastPos ∧
      rec.metadata.gtid = r.lastGTID := by
  have hupdate : ∀ rows, rec ∈ updateRecords T r ev.table rows →
      rec.metadata.binlogFile = r.lastPosName ∧ rec.metadata.binlogPos = r.lastPos ∧
        rec.metadata.gtid = r.lastGTID := by
    intro rows hrec
    fun_induction updateRecords T r ev.table rows with
    | case1 => exact absurd hrec not_mem_nil
    | case2 before =>
      obtain rfl := mem_singleton.mp hrec
      exact ⟨rfl, rfl, rfl⟩
    | case3 before after rest before' data key ih =>
      rcases mem_cons.mp hrec with rfl | hrec
      · exact ⟨rfl, rfl, rfl⟩
      · exact ih hrec
  unfold onRow at h
  split at h
  · obtain ⟨row, _, rfl⟩ := mem_map.mp h
    exact ⟨rfl, rfl, rfl⟩
  · exact hupdate _ h
  · obtain ⟨row, _, rfl⟩ := mem_map.mp h
    exact ⟨rfl, rfl, rfl⟩

theorem Emitted.known_row {ev : RowsEvent} {i : Nat} (hu : B.events[c]? = some u) (hnamed : r.lastPosName ≠ "")
    (hr : r.Behind B u.transaction c) (h : rec ∈ onRow T r ev) : (⟨rec, c, i⟩ : Emitted).Known B T := by
  obtain ⟨hfile, hpos, hgtid⟩ := metadata_onRow h
  refine ⟨hfile ▸ hnamed, u, hu, ?_⟩
  simp only [hfile, hpos, hgtid]
  exact hr.mono (Nat.le_refl _) (Emitted.event_le_limit (e := ⟨rec, c, i⟩) hu)

/-- The record of a statement is the only one of its event, and its position is behind the event. -/
theorem Emitted.known_ddl {query : String} {i : Nat} (hu : B.events[c]? = some u) (hcontent : u.content = .ddl query)
    (h : (onDDL T r query u.name u.pos).2[i]? = some rec) : (⟨rec, c, i⟩ : Emitted).Known B T := by
  unfold onDDL at h
  split at h
  · exact nomatch h
  · rename_i hquery
    obtain ⟨hi, rfl⟩ := List.getElem?_eq_some_iff.mp h
    obtain rfl : i = 0 := Nat.lt_one_iff.mp hi
    refine ⟨B.named u (mem_of_getElem? hu), u, hu, ?_⟩
    have hends : ∀ rec, (⟨rec, c, 0⟩ : Emitted).endsEvent B T = true := fun rec => by
      simp [Emitted.endsEvent, hu, LogEvent.recordCount, LogEvent.calls, hcontent, handle, onDDL, hquery]
    simp only [Behind, Binlog.fromGTID]
    exact fun _ => Nat.le_trans (fromPosition_le hu (le_refl _)) (Emitted.event_lt_limit hu (hends _))

/-- A report tells the reader nothing of later events. -/
theorem behind_report {ev : Event} (hu : B.events[c]? = some u) (hev : B.Reports u ev)
    (hr : r.Behind B u.transaction (c + 1)) :
    (handle T r ev).1.lastPosName ≠ "" ∧ (handle T r ev).1.Behind B u.transaction (c + 1) ∧
      (handle T r ev).2 = [] := by
  have hmoved : ∀ name pos, binlogPosition name pos ≤ u.position →
      Behind B r.lastGTID name pos u.transaction (c + 1) := by
    intro name pos hle
    unfold Reader.Behind Cdc.Behind at hr
    unfold Cdc.Behind
    split at hr
    · exact hr
    · exact fun _ => fromPosition_le hu hle
  cases ev with
  | rows e => exact absurd hev id
  | ddl query name pos => exact absurd hev id
  | xid name pos | rotate name pos => exact ⟨hev.1, hmoved name pos hev.2, rfl⟩
  | posSynced name pos gtid =>
    refine ⟨hev.1.1, ?_, rfl⟩
    cases gtid with
    | none => exact hmoved name pos hev.1.2
    | some g =>
      simp only [handle, onPosSynced, Option.getD_some, Reader.Behind, Behind]
      cases hg : B.fromGTID g with
      | none => exact fun _ => fromPosition_le hu hev.1.2
      | some n =>
        unfold Binlog.fromGTID at hg
        split at hg
        · cases hg
        · exact hev.2 g n rfl (by
            cases hp : B.parseGTIDSet g with
            | error err => simp [hp, Except.toOption] at hg
            | ok m => simpa [hp, Except.toOption] using hg)

variable {s : Session B}

/-- The next event: what the reader knows is behind it. -/
theorem SessionInv.advance (h : SessionInv T s) (hu : B.events[s.event]? = some u) :
    SessionInv T { s with event := s.event + 1, due := s.canal.callbacks (s.event + 1) } where
  named := h.named
  emitted := h.emitted
  placed v hv := by
    refine .inl ⟨rfl, ?_⟩
    have htx := (sorted_at (Nat.lt_succ_self _) hu hv).2
    rcases h.placed u hu with ⟨-, hr⟩ | ⟨-, hr⟩
    · exact hr.mono htx (Nat.le_succ _)
    · exact hr.mono htx (Nat.le_refl _)

variable {ev : Event} {due : List Event}

/-- A callback that tells the reader nothing of later events, and behind which only reports are due. -/
theorem SessionInv.handled (h : SessionInv T s) (hu : B.events[s.event]? = some u)
    (hread : (handle T s.reader ev).1.lastPosName ≠ "" ∧ (handle T s.reader ev).1.Behind B u.transaction (s.event + 1))
    (hdue : ∀ ev' ∈ due, B.Reports u ev')
    (hrecs : ∀ i rec, (handle T s.reader ev).2[i]? = some rec → (⟨rec, s.event, i⟩ : Emitted).Known B T) :
    SessionInv T (s.call T ev due) := by
  refine ⟨hread.1, fun v hv => ?_, fun e he => ?_⟩
  · obtain rfl := Option.some.inj (hu.symm.trans hv)
    exact .inr ⟨hdue, hread.2⟩
  · rcases mem_append.mp he with he | he
    · exact h.emitted e he
    · obtain ⟨i, hi, rfl⟩ := mem_mapIdx.mp he
      exact hrecs i _ (getElem?_eq_getElem hi)

theorem SessionInv.report (h : SessionInv T s) (hu : B.events[s.event]? = some u)
    (hdue : ∀ ev' ∈ ev :: due, B.Reports u ev') (hr : s.reader.Behind B u.transaction (s.event + 1)) :
    SessionInv T (s.call T ev due) := by
  obtain ⟨hnamed, hbehind, hnone⟩ := @behind_report B T s.event u s.reader ev hu (hdue ev mem_cons_self) hr
  exact h.handled hu ⟨hnamed, hbehind⟩ (fun ev' hev' => hdue ev' (mem_cons_of_mem _ hev')) (by simp [hnone])

theorem SessionInv.call (h : SessionInv T s) (hu : B.events[s.event]? = some u)
    (hdue : ev :: due = s.canal.callbacks s.event) (hr : s.reader.Behind B u.transaction s.event) :
    SessionInv T (s.call T ev due) := by
  obtain ⟨reports, hcallbacks, hreports⟩ := s.canal.handsOver s.event u hu
  rw [hcallbacks] at hdue
  have hlater := hr.mono (Nat.le_refl u.transaction) (Nat.le_succ s.event)
  cases hcontent : u.content with
  | other =>
    simp only [LogEvent.calls, hcontent, nil_append] at hdue
    exact h.report hu (fun ev' hev' => hreports ev' (hdue ▸ hev')) hlater
  | rows e =>
    simp only [LogEvent.calls, hcontent, singleton_append, cons.injEq] at hdue
    obtain ⟨rfl, rfl⟩ := hdue
    exact h.handled hu ⟨h.named, hlater⟩ hreports fun i rec hrec =>
      Emitted.known_row hu h.named hr (mem_of_getElem? hrec)
  | ddl query =>
    simp only [LogEvent.calls, hcontent, singleton_append, cons.injEq] at hdue
    obtain ⟨rfl, rfl⟩ := hdue
    refine h.handled hu ?_ hreports fun i rec hrec => Emitted.known_ddl hu hcontent hrec
    change (onDDL T s.reader query u.name u.pos).1.lastPosName ≠ "" ∧
      (onDDL T s.reader query u.name u.pos).1.Behind B u.transaction (s.event + 1)
    unfold onDDL
    split
    · exact ⟨h.named, hlater⟩
    · exact (@behind_report B T s.event u s.reader (.xid u.name u.pos) hu
        ⟨B.named u (mem_of_getElem? hu), le_refl _⟩ hlater).imp id And.left

theorem SessionInv.step (h : SessionInv T s) (event : SessionEvent B) : SessionInv T (s.step T event) := by
  cases event with
  | reconnect canal master => exact .connect canal master h.named h.emitted
  | purged canal current master => exact .connect canal master current.named h.emitted
  | next =>
    unfold Session.step
    cases hu : B.events[s.event]? with
    | none => exact h
    | some u =>
      cases hdue : s.due with
      | nil => exact h.advance hu
      | cons ev due =>
        rcases h.placed u hu with ⟨hcalls, hr⟩ | ⟨hreports, hr⟩
        · exact h.call hu (hdue.symm.trans hcalls) hr
        · exact h.report hu (hdue ▸ hreports) hr

end

/-! ## When a checkpoint is not ahead -/

section

variable {B : Binlog} {T : Texts} {source : MySQLCDCSource} {master : MasterPos} {r : Reader} {e : Emitted}
  {cp : CdcPosition}

theorem decode_fields (cp : CdcPosition) : decodeCheckpointPosition cp.fields = cp := by
  obtain ⟨file, pos, gtid⟩ := cp
  have hpos : UInt32.ofInt (pos.toNat : Int) = pos := by
    have hlt : (pos.toNat : Int) < 2 ^ 32 := by exact_mod_cast pos.toNat_lt
    rw [UInt32.ofInt, Int.emod_eq_of_lt (Int.natCast_nonneg _) hlt, Int.toNat_natCast, UInt32.ofNat_toNat]
  by_cases hg : gtid = ""
  · simp [decodeCheckpointPosition, CdcPosition.fields, hg, hpos]
  · simp [decodeCheckpointPosition, CdcPosition.fields, hg, hpos]

variable (B master)

/-- The first event sent for a position that `Open` takes. -/
def resumeIndex (cp : CdcPosition) : Nat :=
  match B.fromGTID cp.gtid with
  | some n => B.fromTransaction n
  | none =>
    if Proper cp.file cp.pos then B.fromPosition cp.file cp.pos else B.fromPosition master.name master.pos

variable {B master}

theorem restart_eq (hfile : cp.file ≠ "") (hvalid : validateCheckpoint B source cp.fields = .ok ()) :
    restart B source master cp = .ok (resumeIndex B master cp) := by
  simp only [restart, openReader, hvalid, decode_fields, ne_eq, hfile, not_false_eq_true, if_true, startCanalOnce,
    resumeIndex]
  cases B.fromGTID cp.gtid with
  | some n => rfl
  | none =>
    simp only
    split
    · rename_i hmaster
      rw [if_neg fun hp => hp.1 hmaster.1]
    · split <;> rfl

theorem notAhead_iff_resumeIndex (hfile : (checkpointForRecord r e.record).file ≠ "") :
    NotAhead B T source master r e ↔
      validateCheckpoint B source (checkpointForRecord r e.record).fields = .ok () ∧
        resumeIndex B master (checkpointForRecord r e.record) ≤ e.limit B T := by
  unfold NotAhead
  constructor
  · rintro ⟨i, hi, hle⟩
    cases hvalid : validateCheckpoint B source (checkpointForRecord r e.record).fields with
    | error err => simp [restart, openReader, hvalid] at hi
    | ok =>
      rw [restart_eq hfile hvalid] at hi
      obtain rfl := Except.ok.inj hi
      exact ⟨rfl, hle⟩
  · rintro ⟨hvalid, hle⟩
    exact ⟨_, restart_eq hfile hvalid, hle⟩

theorem Emitted.Known.notAhead_iff (h : e.Known B T) :
    NotAhead B T source master r e ↔ Bound B T source master r e := by
  obtain ⟨hfile, u, hu, hbehind⟩ := h
  have hcp : checkpointForRecord r e.record =
      { file := e.record.metadata.binlogFile, pos := e.record.metadata.binlogPos
        gtid := if e.record.metadata.gtid ≠ "" then e.record.metadata.gtid else r.lastGTID } := by
    simp only [checkpointForRecord, ne_eq, hfile, not_false_eq_true, if_true]
  rw [notAhead_iff_resumeIndex (by rw [hcp]; exact hfile), hcp]
  simp only [Bound, resumeIndex]
  refine and_congr_right fun _ => ?_
  cases hset : B.fromGTID (if e.record.metadata.gtid ≠ "" then e.record.metadata.gtid else r.lastGTID) with
  | some n =>
    simp only
    split
    · rename_i hown
      rw [if_pos hown] at hset
      simp only [Behind, hset] at hbehind
      exact Emitted.fromTransaction_le_limit_iff hu hbehind
    · exact fromTransaction_le_iff
  | none =>
    -- a set of the record's own that cannot be read leaves its position
    have hown : B.fromGTID e.record.metadata.gtid = none := by
      by_cases hg : e.record.metadata.gtid = ""
      · rw [hg, Binlog.fromGTID, if_pos rfl]
      · rwa [if_pos hg] at hset
    simp only [Behind, hown] at hbehind
    simp only
    split
    · rename_i hp
      exact iff_of_true (hbehind hp) (.inl hp)
    · rename_i hp
      simp [hp]

end

/-- **When the checkpoint of a record is not ahead of it**: for every binlog, canal and start, every record that was
emitted and everything the reader has seen since. -/
theorem checkpoint_not_ahead_iff (B : Binlog) (T : Texts) (source : MySQLCDCSource) (cp : Option CheckpointFields)
    (canal : B.Canal) (master₀ master : MasterPos) (s₀ : Session B)
    (hstart : Session.start source cp canal master₀ = .ok s₀) (events : List (SessionEvent B)) (e : Emitted)
    (he : e ∈ (run (Session.step T) s₀ events).emitted) :
    NotAhead B T source master (run (Session.step T) s₀ events).reader e ↔
      Bound B T source master (run (Session.step T) s₀ events).reader e := by
  have hinv₀ : SessionInv T s₀ := by
    cases hopen : openReader B source cp with
    | error err => simp [Session.start, hopen, Except.map] at hstart
    | ok r =>
      rw [Session.start, hopen] at hstart
      obtain rfl := Except.ok.inj hstart
      exact .connect canal master₀ (openReader_named hopen) (by simp)
  have hinv : SessionInv T (run (Session.step T) s₀ events) :=
    Trace.run_invariant (SessionInv T) (fun s ev h => h.step ev) hinv₀
  exact (hinv.emitted e he).notAhead_iff

/-! ### Example: a statement and a row, with GTIDs -/

def noTexts : Texts := { marshal := fun _ => none, extractDDLTable := fun _ => "t" }

def insertRow : RowsEvent :=
  { table := { name := "t", columns := ["id"], pkColumns := [0] }, action := .insert, rows := [[.int64 1]] }

def exampleSets : String → Except String Nat
  | "s:0" => .ok 0
  | "s:1" => .ok 1
  | "s:1-2" => .ok 2
  | _ => .error "invalid"

def exampleEvents : List LogEvent :=
  [ { content := .ddl "ALTER TABLE t ADD c INT", name := "bin.000001", pos := 200, transaction := 0 },
    { content := .rows insertRow, name := "bin.000001", pos := 350, transaction := 1 },
    { content := .other, name := "bin.000001", pos := 400, transaction := 1 } ]

theorem exampleEvents_sorted :
    exampleEvents.Pairwise fun a b => a.position < b.position ∧ a.transaction ≤ b.transaction := by
  decide +kernel

def exampleLog : Binlog where
  events := exampleEvents
  parseGTIDSet := exampleSets
  sorted := exampleEvents_sorted
  named := by decide

/-- The sets are reported behind a statement and at the end of a transaction. -/
def exampleCallbacks : Nat → List Event
  | 0 => [.ddl "ALTER TABLE t ADD c INT" "bin.000001" 200, .posSynced "bin.000001" 200 (some "s:1")]
  | 1 => [.rows insertRow]
  | 2 => [.xid "bin.000001" 400, .posSynced "bin.000001" 400 (some "s:1-2")]
  | _ => []

theorem exampleCallbacks_handsOver (i : Nat) (u : LogEvent) (hu : exampleLog.events[i]? = some u) :
    ∃ reports, exampleCallbacks i = u.calls ++ reports ∧ ∀ ev ∈ reports, exampleLog.Reports u ev := by
  match i, hu with
  | 0, hu =>
    obtain rfl := Option.some.inj hu
    refine ⟨[.posSynced "bin.000001" 200 (some "s:1")], rfl, fun ev hev => ?_⟩
    obtain rfl := mem_singleton.mp hev
    refine ⟨⟨by decide, le_refl _⟩, fun text n htext hn => ?_⟩
    obtain rfl := Option.some.inj htext
    obtain rfl := Except.ok.inj hn
    exact Nat.le_refl 1
  | 1, hu =>
    obtain rfl := Option.some.inj hu
    exact ⟨[], rfl, fun ev hev => absurd hev not_mem_nil⟩
  | 2, hu =>
    obtain rfl := Option.some.inj hu
    refine ⟨_, rfl, fun ev hev => ?_⟩
    rcases mem_cons.mp hev with rfl | hev
    · exact ⟨by decide, le_refl _⟩
    · obtain rfl := mem_singleton.mp hev
      refine ⟨⟨by decide, le_refl _⟩, fun text n htext hn => ?_⟩
      obtain rfl := Option.some.inj htext
      obtain rfl := Except.ok.inj hn
      exact Nat.le_refl 2

def exampleCanal : exampleLog.Canal := ⟨exampleCallbacks, exampleCallbacks_handsOver⟩

def exampleMaster : MasterPos := { name := "bin.000001", pos := 400, named := by decide }

def exampleSource : MySQLCDCSource := { name := "m", database := "d", startFrom := .gtid "s:0" }

/-- The session that starts before the statement and has seen both transactions. -/
def exampleSession : Session exampleLog :=
  run (Session.step noTexts)
    (Session.connect exampleCanal exampleMaster
      { name := "m", database := "d", lastPosName := "master", lastGTID := "s:0" } [])
    (replicate 7 .next)

def rowEmitted : Emitted :=
  { record := { data := [("id", .int64 1)]
                metadata := { source := "m", sourceType := "mysql_cdc", sourcePhase := "cdc", database := "d"
                              table := "t", binlogFile := "bin.000001", binlogPos := 200, gtid := "s:1"
                              primaryKeyColumns := ["id"] } }
    event := 1, index := 0 }

def ddlEmitted : Emitted :=
  { record := { operation := .ddl
                metadata := { source := "m", sourceType := "mysql_cdc", sourcePhase := "cdc", database := "d"
                              table := "t", binlogFile := "bin.000001", binlogPos := 200 } }
    event := 0, index := 0 }

theorem checkpoint_not_ahead_iff_row :
    NotAhead exampleLog noTexts exampleSource exampleMaster exampleSession.reader rowEmitted :=
  (checkpoint_not_ahead_iff exampleLog noTexts exampleSource none exampleCanal exampleMaster exampleMaster _ rfl
    (replicate 7 .next) rowEmitted (by decide +kernel)).mpr ⟨by decide +kernel, .inl (by decide)⟩

/-- The checkpoint for the record of the statement has the set behind the row, and a restart from it does not send
the row. -/
theorem ddl_checkpoint_skips_rows :
    ddlEmitted ∈ exampleSession.emitted ∧
      restart exampleLog exampleSource exampleMaster (checkpointForRecord exampleSession.reader ddlEmitted.record) =
          .ok 3 ∧
        ¬ NotAhead exampleLog noTexts exampleSource exampleMaster exampleSession.reader ddlEmitted := by
  have hrestart : restart exampleLog exampleSource exampleMaster
      (checkpointForRecord exampleSession.reader ddlEmitted.record) = .ok 3 := by decide +kernel
  refine ⟨by decide +kernel, hrestart, ?_⟩
  rintro ⟨i, hi, hle⟩
  obtain rfl := Except.ok.inj (hrestart.symm.trans hi)
  revert hle
  decide +kernel

end OpenEtl.Source.Cdc
