import OpenEtl.Lib.Bytes
import OpenEtl.Lib.Trace
import OpenEtl.Sink.ClickHouse

/-!
# Dedup tokens of INSERT blocks (`sink/clickhouse_dedup.go`)

| here | there |
| --- | --- |
| `Process` | the sink's fields `dedupPipelineKey` and `writeBatches`, which live as long as the process |
| `plannedBlocks`, `writeStep`| the INSERTs of `Write`, each with `pendingDedupToken` (clickhouse.go:605-690, 1080-1198) |

A history is any sequence of writes, checkpoint saves and process starts. Of a write's blocks the server sees the
first ones, up to a failure or a crash.
-/

namespace OpenEtl.Sink.ClickHouse

open List Function Bytes Trace

/-! ## Tokens -/

def positionString (m : Metadata) : String :=
  if m.binlogFile ≠ "" then m.binlogFile ++ ":" ++ toString m.binlogPos.toNat
  else if m.gtid ≠ "" then "gtid:" ++ m.gtid
  else if m.partition ≠ 0 ∨ m.offset ≠ 0 then "kafka:" ++ toString m.partition ++ "@" ++ toString m.offset
  else if m.lsn ≠ "" then "lsn:" ++ m.lsn
  else if m.cursor ≠ "" then "cursor:" ++ m.cursor
  else ""

def batchPosition (records : List Record) : String × String :=
  let positions := (records.filter (·.operation ≠ .ddl)).map fun r => positionString r.metadata
  let positions := positions.filter (· ≠ "")
  (positions.head?.getD "", positions.getLast?.getD "")

def maxDedupPositionLen : Nat := 4096

/-- The bytes of a text that `writeLenPrefixed` hashes. -/
def fieldBytes (s : String) : List UInt8 := s.toUTF8.toList.take maxDedupPositionLen

/-- What `beginDedupBatch` leaves in the sink for the tokens of a write. -/
structure Stamp where
  pipelineKey : String
  first : String
  last : String
  batchSeq : UInt64
  rows : Nat
deriving DecidableEq, Repr

variable (hash : List UInt8 → String)

/-- `deriveDedupToken`, with SHA-256 and its hexadecimal text as a parameter. -/
def deriveDedupToken (s : Stamp) : String :=
  hash (lenPrefixed 4 (fieldBytes s.pipelineKey) ++
    (lenPrefixed 4 (fieldBytes s.first) ++
      (lenPrefixed 4 (fieldBytes s.last) ++
        (littleEndian 8 s.batchSeq.toNat ++ littleEndian 8 s.rows))))

/-- Two stamps agree in everything that is hashed. -/
structure Stamp.Same (s s' : Stamp) : Prop where
  pipelineKey : fieldBytes s.pipelineKey = fieldBytes s'.pipelineKey
  first : fieldBytes s.first = fieldBytes s'.first
  last : fieldBytes s.last = fieldBytes s'.last
  batchSeq : s.batchSeq = s'.batchSeq
  rows : s.rows % 2 ^ 64 = s'.rows % 2 ^ 64

theorem fieldBytes_length_lt (s : String) : (fieldBytes s).length < 256 ^ 4 := by
  have h : (fieldBytes s).length ≤ maxDedupPositionLen := length_take_le _ _
  simp only [maxDedupPositionLen] at h
  omega

variable {hash}

/-- **A token identifies its five fields**, if the hash has no collisions. -/
theorem deriveDedupToken_eq_iff (hhash : Injective hash) {s s' : Stamp} :
    deriveDedupToken hash s = deriveDedupToken hash s' ↔ s.Same s' := by
  constructor
  · intro h
    have h := hhash h
    obtain ⟨hkey, h⟩ := lenPrefixed_append_inj (fieldBytes_length_lt _) (fieldBytes_length_lt _) h
    obtain ⟨hfirst, h⟩ := lenPrefixed_append_inj (fieldBytes_length_lt _) (fieldBytes_length_lt _) h
    obtain ⟨hlast, h⟩ := lenPrefixed_append_inj (fieldBytes_length_lt _) (fieldBytes_length_lt _) h
    obtain ⟨hseq, hrows⟩ := append_inj h (by simp)
    refine ⟨hkey, hfirst, hlast, ?_, littleEndian_eq_iff.mp hrows⟩
    have hseq : s.batchSeq.toNat % 2 ^ 64 = s'.batchSeq.toNat % 2 ^ 64 := littleEndian_eq_iff.mp hseq
    rw [Nat.mod_eq_of_lt s.batchSeq.toNat_lt, Nat.mod_eq_of_lt s'.batchSeq.toNat_lt] at hseq
    exact UInt64.toNat_inj.mp hseq
  · rintro ⟨hkey, hfirst, hlast, hseq, hrows⟩
    have hrows : littleEndian 8 s.rows = littleEndian 8 s'.rows := littleEndian_eq_iff.mpr hrows
    rw [deriveDedupToken, deriveDedupToken, hkey, hfirst, hlast, hseq, hrows]

variable (hash)

/-! ## Writes -/

structure Block where
  token : String
  table : String
  kind : OpType
  rows : List Row

/-- What lives as long as the process that holds the sink. -/
structure Process where
  pipelineKey : Option String := none
  writeBatches : UInt64 := 0

def setPipelineKey (p : Process) (key : String) : Process :=
  { p with pipelineKey := some (if key = "" then "clickhouse-sink" else key) }

def dedupPipelineKeyString (p : Process) : String :=
  match p.pipelineKey with
  | some v => if v ≠ "" then v else "clickhouse-sink"
  | none => "clickhouse-sink"

def beginDedupBatch (p : Process) (records : List Record) : Process × Stamp :=
  let p := { p with writeBatches := p.writeBatches + 1 }
  let position := batchPosition records
  (p, { pipelineKey := dedupPipelineKeyString p, first := position.1, last := position.2
        batchSeq := p.writeBatches, rows := (records.filter (·.operation ≠ .ddl)).length })

variable (C : Cfg)

/-- The tables of a batch; the source goes through them in the order of a Go map. -/
def tablesOf (prepared : List Record) : List String :=
  (prepared.filterMap fun r => (resolveTable C r).toOption).eraseDups

/-- The INSERTs of a table that are not empty, and whether their rows can be built. -/
def plannedBlocks (token : String) (prepared : List Record) (table : String) : List (Block × Bool) :=
  let tb := tableBatch C prepared table
  let block kind records row : Block × Bool :=
    ({ token, table, kind, rows := records.map row }, records.all fun r => (recordError C r).isNone)
  [block .insert tb.inserts (liveRow C table), block .update tb.updates (liveRow C table),
    block .delete tb.deletes (tombstoneRow C table)].filter fun b => !b.1.rows.isEmpty

/-- A write that stamped its batch: the INSERTs the server saw, and whether `Write` returned no error. -/
structure Entry where
  records : List Record
  stamp : Stamp
  inserts : List Block
  acked : Bool

/-- `Write`, with the order of the tables, the outcome of the batch's DDL, and how many INSERTs reach the
server before one fails or the process dies. A batch that is refused before `beginDedupBatch` leaves no
entry. -/
def writeStep (p : Process) (records : List Record) (ddlOk : Bool) (order : List String) (sent : Nat) :
    Process × Option Entry :=
  match prepareDataRecords C (records.filter (·.operation ≠ .ddl)) with
  | .error _ => (p, none)
  | .ok prepared =>
    if !ddlOk || prepared.any (fun r => (resolveTable C r).toOption.isNone) then (p, none)
    else
      let begun := beginDedupBatch p records
      let tables := tablesOf C prepared
      let tables := if order.isPerm tables then order else tables
      let planned := tables.flatMap (plannedBlocks C (deriveDedupToken hash begun.2) prepared)
      (begun.1,
        some
          { records, stamp := begun.2
            inserts := ((planned.takeWhile (·.2)).take sent).map (·.1)
            acked := decide (planned.length ≤ sent) && planned.all (·.2) })

/-! ## Histories -/

inductive Act
  | write (records : List Record) (ddlOk : Bool) (order : List String) (sent : Nat)
  /-- the checkpoint of everything written is saved -/
  | checkpoint
  /-- a new process, whose sink is given a pipeline key or none -/
  | restart (key : Option String)

inductive Ev
  | wrote (e : Entry)
  | saved
  | restarted

structure History where
  process : Process := {}
  log : List Ev := []

def actStep (s : History) : Act → History
  | .write records ddlOk order sent =>
    match writeStep hash C s.process records ddlOk order sent with
    | (p, none) => { s with process := p }
    | (p, some e) => { process := p, log := s.log ++ [.wrote e] }
  | .checkpoint => { s with log := s.log ++ [.saved] }
  | .restart key =>
    { process := match key with
        | none => {}
        | some key => setPipelineKey {} key
      log := s.log ++ [.restarted] }

def logOf (acts : List Act) : List Ev := (run (actStep hash C) {} acts).log

/-- `j` writes the batch of `i` again: `i` was acknowledged, its process ended before a checkpoint of it was
saved, and `j` is a write of a later process for the same pipeline. -/
def Replayed (log : List Ev) (i j : Entry) : Prop :=
  ∃ before between later rest, log = before ++ .wrote i :: (between ++ .restarted :: (later ++ .wrote j :: rest)) ∧
    Ev.saved ∉ between ∧ i.acked = true ∧ i.records = j.records ∧ i.stamp.pipelineKey = j.stamp.pipelineKey

structure TokensIdentify (log : List Ev) : Prop where
  /-- a replayed batch carries the token it had, table block by table block -/
  replay : ∀ i j, Replayed log i j → ∀ b ∈ i.inserts, ∀ b' ∈ j.inserts,
    b.table = b'.table → b.kind = b'.kind → b.token = b'.token
  /-- blocks with one token have the same rows -/
  rows : ∀ i j, .wrote i ∈ log → .wrote j ∈ log → ∀ b ∈ i.inserts, ∀ b' ∈ j.inserts,
    b.token = b'.token → b.rows = b'.rows
  /-- the inserts, updates and deletes of a table in one write have different tokens -/
  apart : ∀ i, .wrote i ∈ log → ∀ b ∈ i.inserts, ∀ b' ∈ i.inserts,
    b.table = b'.table → b.kind ≠ b'.kind → b.token ≠ b'.token

structure StampsIdentify (log : List Ev) : Prop where
  /-- a replayed batch is as many writes into its process as it was before -/
  replay : ∀ i j, Replayed log i j →
    (∃ b ∈ i.inserts, ∃ b' ∈ j.inserts, b.table = b'.table ∧ b.kind = b'.kind) →
      i.stamp.batchSeq = j.stamp.batchSeq
  /-- writes of one stamp send one and the same block -/
  rows : ∀ i j, .wrote i ∈ log → .wrote j ∈ log → i.stamp.Same j.stamp →
    ∀ b ∈ i.inserts, ∀ b' ∈ j.inserts, b.rows = b'.rows
  /-- no write sends two blocks to a table -/
  apart : ∀ i, .wrote i ∈ log → ∀ b ∈ i.inserts, ∀ b' ∈ i.inserts, b.table = b'.table → b.kind = b'.kind

variable {C}

theorem plannedBlocks_token {token table : String} {prepared : List Record} {b : Block × Bool}
    (h : b ∈ plannedBlocks C token prepared table) : b.1.token = token := by
  have h := mem_of_mem_filter h
  simp only [mem_cons, not_mem_nil, or_false] at h
  rcases h with rfl | rfl | rfl <;> rfl

structure Entry.Made (e : Entry) : Prop where
  position : (e.stamp.first, e.stamp.last) = batchPosition e.records
  rows : e.stamp.rows = (e.records.filter (·.operation ≠ .ddl)).length
  token : ∀ b ∈ e.inserts, b.token = deriveDedupToken hash e.stamp

theorem writeStep_made {p p' : Process} {records : List Record} {ddlOk : Bool} {order : List String} {sent : Nat}
    {e : Entry} (h : writeStep hash C p records ddlOk order sent = (p', some e)) : e.Made hash := by
  unfold writeStep at h
  split at h
  · simp at h
  · split at h
    · simp at h
    · obtain ⟨-, rfl⟩ := h
      refine ⟨rfl, rfl, fun b hb => ?_⟩
      obtain ⟨planned, hplanned, rfl⟩ := mem_map.mp hb
      have hplanned := (takeWhile_sublist _).mem (mem_of_mem_take hplanned)
      obtain ⟨table, _, hplanned⟩ := mem_flatMap.mp hplanned
      exact plannedBlocks_token hplanned

theorem actStep_made {s : History} {act : Act} (h : ∀ e, .wrote e ∈ s.log → e.Made hash) :
    ∀ e, .wrote e ∈ (actStep hash C s act).log → e.Made hash := by
  intro e he
  cases act with
  | write records ddlOk order sent =>
    simp only [actStep] at he
    split at he
    · exact h e he
    · rename_i p e' hw
      rcases mem_append.mp he with he | he
      · exact h e he
      · obtain rfl : e = e' := by simpa using he
        exact writeStep_made hash hw
  | checkpoint | restart key =>
    rcases mem_append.mp he with he | he
    · exact h e he
    · simp at he

theorem logOf_made {acts : List Act} {e : Entry} (h : .wrote e ∈ logOf hash C acts) : e.Made hash := by
  have hinv : ∀ e, .wrote e ∈ (run (actStep hash C) {} acts).log → e.Made hash :=
    run_invariant (fun s : History => ∀ e, .wrote e ∈ s.log → e.Made hash)
      (fun s act hs => actStep_made hash hs) (by simp)
  exact hinv e h

theorem Replayed.mem {log : List Ev} {i j : Entry} (h : Replayed log i j) : .wrote i ∈ log ∧ .wrote j ∈ log := by
  obtain ⟨before, between, later, rest, rfl, _⟩ := h
  simp

variable {hash}

/-- A replayed batch has the stamp it had exactly if it has the number it had. -/
theorem Replayed.same_iff {acts : List Act} {i j : Entry} (h : Replayed (logOf hash C acts) i j) :
    i.stamp.Same j.stamp ↔ i.stamp.batchSeq = j.stamp.batchSeq := by
  have hi := logOf_made hash h.mem.1
  have hj := logOf_made hash h.mem.2
  obtain ⟨_, _, _, _, _, _, _, hrecords, hkey⟩ := h
  have hpos : (i.stamp.first, i.stamp.last) = (j.stamp.first, j.stamp.last) := by
    rw [hi.position, hj.position, hrecords]
  obtain ⟨hfirst, hlast⟩ := Prod.mk.inj hpos
  refine ⟨Stamp.Same.batchSeq, fun hseq => ⟨?_, ?_, ?_, hseq, ?_⟩⟩
  · rw [hkey]
  · rw [hfirst]
  · rw [hlast]
  · rw [hi.rows, hj.rows, hrecords]

/-- **Tokens identify blocks exactly if stamps do.** -/
theorem tokens_identify_iff (hhash : Injective hash) (acts : List Act) :
    TokensIdentify (logOf hash C acts) ↔ StampsIdentify (logOf hash C acts) := by
  -- the token of a block is that of its write
  have htoken : ∀ i j, .wrote i ∈ logOf hash C acts → .wrote j ∈ logOf hash C acts →
      ∀ b ∈ i.inserts, ∀ b' ∈ j.inserts, b.token = b'.token ↔ i.stamp.Same j.stamp := by
    intro i j hi hj b hb b' hb'
    rw [(logOf_made hash hi).token b hb, (logOf_made hash hj).token b' hb', deriveDedupToken_eq_iff hhash]
  constructor
  · intro h
    refine ⟨?_, ?_, ?_⟩
    · rintro i j hij ⟨b, hb, b', hb', ht, hk⟩
      rw [← hij.same_iff, ← htoken i j hij.mem.1 hij.mem.2 b hb b' hb']
      exact h.replay i j hij b hb b' hb' ht hk
    · intro i j hi hj hsame b hb b' hb'
      exact h.rows i j hi hj b hb b' hb' ((htoken i j hi hj b hb b' hb').mpr hsame)
    · intro i hi b hb b' hb' ht
      by_contra hk
      exact h.apart i hi b hb b' hb' ht hk ((htoken i i hi hi b hb b' hb').mpr ⟨rfl, rfl, rfl, rfl, rfl⟩)
  · intro h
    refine ⟨?_, ?_, ?_⟩
    · intro i j hij b hb b' hb' ht hk
      rw [htoken i j hij.mem.1 hij.mem.2 b hb b' hb', hij.same_iff]
      exact h.replay i j hij ⟨b, hb, b', hb', ht, hk⟩
    · intro i j hi hj b hb b' hb' heq
      exact h.rows i j hi hj ((htoken i j hi hj b hb b' hb').mp heq) b hb b' hb'
    · intro i hi b hb b' hb' ht hk
      exact absurd (h.apart i hi b hb b' hb' ht) hk

/-! ## Two histories -/

/-- A hash without collisions: each byte as a character. -/
def latin1 (bytes : List UInt8) : String := String.ofList (bytes.map fun b => Char.ofNat b.toNat)

theorem latin1_injective : Injective latin1 := by
  intro a b h
  have h : a.map (fun b => Char.ofNat b.toNat) = b.map fun b => Char.ofNat b.toNat := String.ofList_injective h
  refine map_injective_iff.mpr (fun x y hxy => ?_) h
  have hval : ∀ n < 256, (Char.ofNat n).toNat = n := by decide +kernel
  apply UInt8.toNat_inj.mp
  rw [← hval _ x.toNat_lt, ← hval _ y.toNat_lt, hxy]

def eventSink : Cfg := { database := "dw", table := "events" }

/-- A change of the binlog at `pos`. -/
def eventRecord (op : OpType) (id : Int) (pos : UInt32) : Record :=
  { operation := op, data := [("id", .int64 id)]
    metadata := { sourceType := "mysql_cdc", table := "events", binlogFile := "mysql-bin.000001", binlogPos := pos } }

/-- The first batch of a process is written, the process dies before the checkpoint, and writes it again. -/
def firstBatchReplay : List Act :=
  [.restart (some "p"), .write [eventRecord .insert 1 100] true [] 9,
    .restart (some "p"), .write [eventRecord .insert 1 100] true [] 9]

def insertAndUpdate : List Act :=
  [.restart (some "p"), .write [eventRecord .insert 1 100, eventRecord .update 2 200] true [] 9]

/-- The same for the second batch, after the checkpoint of the first. -/
def secondBatchReplay : List Act :=
  [.restart (some "p"), .write [eventRecord .insert 1 100] true [] 9, .checkpoint,
    .write [eventRecord .insert 2 200] true [] 9,
    .restart (some "p"), .write [eventRecord .insert 2 200] true [] 9]

/-- The first batch keeps its token when it is replayed. -/
theorem tokens_identify_iff_first_batch : TokensIdentify (logOf latin1 eventSink firstBatchReplay) := by
  obtain ⟨e, b, hlog, hb⟩ : ∃ e b,
      logOf latin1 eventSink firstBatchReplay = [.restarted, .wrote e, .restarted, .wrote e] ∧ e.inserts = [b] :=
    ⟨_, _, rfl, rfl⟩
  have hwrote : ∀ i, .wrote i ∈ logOf latin1 eventSink firstBatchReplay → i = e := by
    intro i hi
    rw [hlog] at hi
    simpa using hi
  rw [tokens_identify_iff latin1_injective]
  refine ⟨fun i j hij _ => ?_, fun i j hi hj _ x hx y hy => ?_, fun i hi x hx y hy _ => ?_⟩
  · rw [hwrote i hij.mem.1, hwrote j hij.mem.2]
  · rw [hwrote i hi, hb] at hx
    rw [hwrote j hj, hb] at hy
    rw [mem_singleton.mp hx, mem_singleton.mp hy]
  · rw [hwrote i hi, hb] at hx hy
    rw [mem_singleton.mp hx, mem_singleton.mp hy]

/-- The insert and the update of one write have one token, so the server drops the update. The second batch
of a process gets a new token when it is replayed, because the new process counts its writes from one. -/
theorem tokens_do_not_identify_blocks :
    ¬TokensIdentify (logOf latin1 eventSink insertAndUpdate) ∧
      ¬TokensIdentify (logOf latin1 eventSink secondBatchReplay) := by
  refine ⟨fun h => ?_, fun h => ?_⟩
  · obtain ⟨e, x, y, hlog, hinserts, htable, hkind, htoken⟩ : ∃ e x y,
        logOf latin1 eventSink insertAndUpdate = [.restarted, .wrote e] ∧ e.inserts = [x, y] ∧
          x.table = y.table ∧ x.kind ≠ y.kind ∧ x.token = y.token :=
      ⟨_, _, _, rfl, rfl, rfl, by decide, rfl⟩
    rw [hlog] at h
    exact h.apart e (by simp) x (by simp [hinserts]) y (by simp [hinserts]) htable hkind htoken
  · obtain ⟨e₁, e₂, e₃, x, y, hlog, hacked, hrecords, hkey, hx, hy, htable, hkind, htoken⟩ : ∃ e₁ e₂ e₃ x y,
        logOf latin1 eventSink secondBatchReplay =
          [.restarted, .wrote e₁, .saved, .wrote e₂, .restarted, .wrote e₃] ∧
        e₂.acked = true ∧ e₂.records = e₃.records ∧ e₂.stamp.pipelineKey = e₃.stamp.pipelineKey ∧
        e₂.inserts = [x] ∧ e₃.inserts = [y] ∧ x.table = y.table ∧ x.kind = y.kind ∧ x.token ≠ y.token :=
      ⟨_, _, _, _, _, rfl, rfl, rfl, rfl, rfl, rfl, rfl, rfl, by decide +kernel⟩
    have hreplay : Replayed (logOf latin1 eventSink secondBatchReplay) e₂ e₃ :=
      ⟨[.restarted, .wrote e₁, .saved], [], [], [], by simp [hlog], by simp, hacked, hrecords, hkey⟩
    exact htoken (h.replay e₂ e₃ hreplay x (by simp [hx]) y (by simp [hy]) htable hkind)

end OpenEtl.Sink.ClickHouse
