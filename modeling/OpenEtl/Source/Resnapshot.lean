import OpenEtl.Lib.Trace
import OpenEtl.Source.SnapshotCheckpoint

/-!
# A second snapshot after a purged binlog (`source/mysql_snapshot_cdc.go`)

| here | there |
| --- | --- |
| `State` | what `snapshotCDCReader` keeps under its lock |
| `getSnapshotReadID` | `getSnapshotReadID`, `getTableLastIDLocked` (:1195, :1233) |
| `Act` | the run loop (:632) and the calls of the runner |
-/

namespace OpenEtl.Source.SnapshotCdc

open List Keyset Trace

/-! ## The reader -/

structure State where
  reader : Reader
  /-- `snapshotHandoffFile`, `snapshotHandoffPos`, if `snapshotHandoffValid` -/
  handoff : Option (String × UInt32) := none
  snapshotReadIDs : List (String × Int) := []
  snapshotReadStr : List (String × String) := []

def State.getSnapshotReadID (st : State) (table : String) : Int :=
  match st.snapshotReadIDs.lookup table with
  | some v => v
  | none =>
    match st.reader.durable.lastIDs.lookup table with
    | some v => v
    | none => if table = st.reader.table then st.reader.durable.lastID else 0

def State.getSnapshotReadStr (st : State) (table : String) : String := (st.snapshotReadStr.lookup table).getD ""

/-- The cursor at which the snapshot of a table begins. -/
def State.readCursor (st : State) (table : String) : ReadCursor where
  id := st.getSnapshotReadID table
  str := st.getSnapshotReadStr table

/-- The phase of the run loop is part of `Sys` below. -/
def requestResnapshot (st : State) : State := { st with handoff := none }

def installSnapshotHandoff (st : State) (file : String) (pos : UInt32) : State :=
  { st with
    handoff := some (file, pos)
    reader := { st.reader with durable := { st.reader.durable with phase := .snapshot, file, pos } } }

/-- `master` is what the server reports if there is no handoff yet. -/
def snapshotStartPosition (st : State) (master : String × UInt32) : State :=
  match st.handoff with
  | some _ => st
  | none => installSnapshotHandoff st master.1 master.2

def ackCheckpoint (st : State) (p : SnapshotPosition) : Except Err State :=
  if p.file = "" ∨ p.pos = 0 then
    .error { msg :=
      match p.phase with
      | .snapshot => "mysql_snapshot_cdc snapshot checkpoint is missing the CDC handoff position"
      | .cdc => "mysql_snapshot_cdc CDC checkpoint is missing the binlog position" }
  else
    let lastIDs :=
      if p.lastID ≠ 0 ∧ st.reader.table ≠ "" ∧ p.lastIDs.lookup st.reader.table = none then
        assign p.lastIDs st.reader.table p.lastID
      else p.lastIDs
    .ok { st with
      reader := { st.reader with durable := { p with lastIDs } }
      handoff := match p.phase with
        | .snapshot => some (p.file, p.pos)
        | .cdc => st.handoff }

/-! ## What the second snapshot reads -/

section

variable {conv : Conv} {floatID : String → Option Int} {α : Type*} [LinearOrder α] (t : Table conv floatID α)

/-- From the cursor the loop ends, and emits every changed row. -/
def Table.Recovers (c : ReadCursor) (changed : Row → Prop) : Prop :=
  ∃ n, (t.turn^[n] { cursor := c }).status = .finished ∧
    ∀ row ∈ t.rows, changed row → row ∈ (t.turn^[n] { cursor := c }).sent.map Prod.fst

/-- The keys can be read, and string keys that end a page are greater in Go's order than the cursor and all rows
before them. -/
def Table.PageableFrom (c : ReadCursor) : Prop :=
  t.named = true ∧ (∀ row ∈ t.rows, t.Readable row) ∧
    (t.snap.pk.kind = .numeric ∨
      Ascends (fun row : Row => cursorString conv row.key) t.limit c.str
        (behind t.rowRank t.rows (t.rank (t.snap.param c))))

variable {t} {c : ReadCursor}

/-- A key that moves the cursor is the key the query is then made with. -/
theorem moveCursor_rank {row : Row} (hrow : row ∈ t.rows) {c' : ReadCursor}
    (h : moveCursor conv floatID t.snap c row.data = .ok c') :
    t.rank (t.snap.param c') = t.rank (t.snap.param c) ∨ t.rank (t.snap.param c') = t.rowRank row := by
  have hget := t.projected row hrow
  unfold moveCursor at h
  cases hn : t.named with
  | false =>
    rw [hget, hn] at h
    simp only [Bool.false_eq_true, if_false, Except.ok.injEq] at h
    exact .inl (h ▸ rfl)
  | true =>
    rw [hget, hn] at h
    simp only [if_true] at h
    cases hkind : t.snap.pk.kind with
    | none => exact absurd hkind t.keyed
    | numeric =>
      simp only [hkind] at h
      cases hparse : parseSnapshotID floatID row.key with
      | error e => simp [hparse] at h
      | ok n =>
        simp only [hparse, Except.ok.injEq] at h
        subst h
        split
        · right
          simp only [Snapshot.param, hkind]
          exact (t.rank_id hkind row hrow n hparse).symm
        · exact .inl rfl
    | ordered =>
      simp only [hkind] at h
      by_cases hnull : row.key = .null
      · simp [hnull] at h
      · simp only [hnull, if_false, Except.ok.injEq] at h
        subst h
        split
        · right
          simp only [Snapshot.param, hkind]
          exact (t.rank_str hkind row hrow hnull).symm
        · exact .inl rfl

/-- The rows of a page leave the cursor where it is or move it on. -/
theorem emitRows_behind {κ : α} {rows : List Row} (hrows : ∀ row ∈ rows, row ∈ t.rows ∧ κ < t.rowRank row)
    (hc : κ ≤ t.rank (t.snap.param c)) :
    κ ≤ t.rank (t.snap.param (emitRows conv floatID t.snap c rows).1) ∧
      ∀ e ∈ (emitRows conv floatID t.snap c rows).2.1, e.1 ∈ rows := by
  induction rows generalizing c with
  | nil => exact ⟨hc, by simp [emitRows]⟩
  | cons row rows ih =>
    obtain ⟨hrow, hlt⟩ := hrows row (by simp)
    rw [emitRows]
    split
    · exact ⟨hc, by simp⟩
    · rename_i c' hmove
      have hc' : κ ≤ t.rank (t.snap.param c') := by
        rcases moveCursor_rank hrow hmove with he | he
        · exact he ▸ hc
        · exact he ▸ hlt.le
      obtain ⟨hcur, hsent⟩ := ih (fun x hx => hrows x (by simp [hx])) hc'
      refine ⟨hcur, fun e he => ?_⟩
      rcases mem_cons.mp he with rfl | he
      · simp
      · exact mem_cons_of_mem _ (hsent e he)

/-- No row up to the cursor is ever emitted. -/
theorem sent_behind (c : ReadCursor) (n : Nat) :
    t.rank (t.snap.param c) ≤ t.rank (t.snap.param (t.turn^[n] { cursor := c }).cursor) ∧
      ∀ e ∈ (t.turn^[n] { cursor := c }).sent, t.rank (t.snap.param c) < t.rank e.1.key := by
  induction n with
  | zero => exact ⟨le_refl _, by simp⟩
  | succ n ih =>
    obtain ⟨hcur, hsent⟩ := ih
    rw [Function.iterate_succ_apply' t.turn]
    generalize t.turn^[n] { cursor := c } = s at hcur hsent ⊢
    unfold Table.turn
    split
    · have hpage : ∀ row ∈ t.page s.cursor, row ∈ t.rows ∧ t.rank (t.snap.param c) < t.rowRank row := by
        intro row hrow
        obtain ⟨hmem, hlt⟩ := mem_behind.mp (mem_of_mem_take hrow)
        exact ⟨hmem, lt_of_le_of_lt hcur hlt⟩
      obtain ⟨hmove, hpaged⟩ := emitRows_behind hpage hcur
      refine ⟨hmove, fun e he => ?_⟩
      rcases mem_append.mp he with he | he
      · exact hsent e he
      · exact (hpage e.1 (hpaged e he)).2
    · exact ⟨hcur, hsent⟩

/-- A pageable table is read from the cursor to its end. -/
theorem recovers_of_pageableFrom (h : t.PageableFrom c) {changed : Row → Prop}
    (hbehind : ∀ row ∈ t.rows, changed row → t.rank (t.snap.param c) < t.rank row.key) : t.Recovers c changed := by
  obtain ⟨hnamed, hread, hends⟩ := h
  have hreads : ∃ n, (t.turn^[n] { cursor := c }).status = .finished ∧
      ((t.turn^[n] { cursor := c }).sent.map Prod.fst).Perm
        (behind t.rowRank t.rows (t.rank (t.snap.param c))) := by
    cases hkind : t.snap.pk.kind with
    | none => exact absurd hkind t.keyed
    | numeric =>
      have hparam : t.snap.param c = .int64 c.id := by rw [Snapshot.param, hkind]
      rw [hparam]
      exact ((numericGrowth hkind hnamed hread).reads_iff c).mpr (ascends_numeric_from hkind hread c.id)
    | ordered =>
      have hends := hends.resolve_left (by simp [hkind])
      have hparam : t.snap.param c = .str c.str := by rw [Snapshot.param, hkind]
      rw [hparam] at hends ⊢
      exact ((orderedGrowth hkind hnamed hread).reads_iff c).mpr hends
  obtain ⟨n, hfin, hperm⟩ := hreads
  exact ⟨n, hfin, fun row hrow hch => hperm.mem_iff.mpr (mem_behind.mpr ⟨hrow, hbehind row hrow hch⟩)⟩

end

/-- **Recovery by a second snapshot**: the rows changed in the gap are emitted only if they are behind the cursor at
which the first snapshot ended, and if they are then they are, on every table that can be paged from there. -/
theorem resnapshot_recovers_iff {conv : Conv} {floatID : String → Option Int} {α : Type*} [LinearOrder α]
    (t : Table conv floatID α) (st : State) (file : String) (pos : UInt32) (changed : Row → Prop) :
    (t.Recovers ((installSnapshotHandoff (requestResnapshot st) file pos).readCursor t.snap.table) changed →
      ∀ row ∈ t.rows, changed row → t.rank (t.snap.param (st.readCursor t.snap.table)) < t.rank row.key) ∧
    (t.PageableFrom (st.readCursor t.snap.table) →
      (∀ row ∈ t.rows, changed row → t.rank (t.snap.param (st.readCursor t.snap.table)) < t.rank row.key) →
        t.Recovers ((installSnapshotHandoff (requestResnapshot st) file pos).readCursor t.snap.table) changed) := by
  refine ⟨?_, fun hpage hbehind => recovers_of_pageableFrom hpage hbehind⟩
  rintro ⟨n, -, hsent⟩ row hrow hch
  obtain ⟨e, he, rfl⟩ := mem_map.mp (hsent row hrow hch)
  exact (sent_behind (st.readCursor t.snap.table) n).2 e he

/-- The first snapshot ended at key 2, and the row with key 1 was updated in the gap. The second snapshot emits nothing. -/
theorem updated_row_not_recovered :
    let st : State := { reader := { table := "t", resolvedPKs := fun _ => ⟨"id", .numeric⟩ }, snapshotReadIDs := [("t", 2)] }
    let t := numberTable [1, 2] (by decide) 1000 (by decide)
    ¬t.Recovers ((installSnapshotHandoff (requestResnapshot st) "bin.000009" 4).readCursor "t") fun row =>
      row = rowOf (.int64 1) := by
  rintro st t ⟨n, -, hsent⟩
  obtain ⟨e, he, hrow⟩ := mem_map.mp (hsent (rowOf (.int64 1)) (by decide) rfl)
  have hlt := (sent_behind ((installSnapshotHandoff (requestResnapshot st) "bin.000009" 4).readCursor "t") n).2 e he
  rw [hrow] at hlt
  cases hlt

/-! ## The run loop and the runner -/

inductive Stage
  /-- before `snapshotStartPosition` -/
  | entering
  | snapshot
  | stream
  | ended
deriving DecidableEq, Repr

structure Sys where
  st : State
  stage : Stage
  /-- the handoffs installed so far -/
  gen : Nat := 0
  /-- the last of them, or the position of the checkpoint -/
  base : String × UInt32
  /-- the records of the channel, each with the handoffs installed when it was sent -/
  emitted : List (Nat × Record) := []
  /-- how many of them are acknowledged -/
  next : Nat := 0
  /-- a checkpoint that was generated and not yet acknowledged, with the records it covers -/
  saving : Option (Nat × SnapshotPosition) := none
  blocked : Bool := false

def SnapshotPosition.binlog (p : SnapshotPosition) : String × UInt32 := (p.file, p.pos)

/-- The reader after `Open` with a checkpoint, or with the zero position. -/
def Sys.opened (r : Reader) : Sys where
  st :=
    { reader := r
      handoff := if r.durable.phase = .snapshot ∧ r.durable.file ≠ "" then some r.durable.binlog else none
      snapshotReadIDs := r.durable.lastIDs
      snapshotReadStr := r.durable.lastStrs }
  stage := match r.durable.phase with
    | .snapshot => .entering
    | .cdc => .stream
  base := r.durable.binlog

inductive Act
  /-- a row of the snapshot or a change of the stream is sent -/
  | emit (record : Record)
  /-- error 1236 under the policy `resnapshot` -/
  | purged
  /-- `snapshotStartPosition`, with what the server reports -/
  | start (master : String × UInt32)
  /-- the tables are read, and the stream is opened -/
  | finished
  /-- `CheckpointForRecords` for the next records written -/
  | checkpoint (records : Nat)
  | saveFailed
  /-- saved, and acknowledged -/
  | ack

def FromStream (record : Record) : Prop := record.metadata.binlogFile ≠ ""

instance : DecidablePred FromStream := fun _ => inferInstanceAs (Decidable (_ ≠ _))

def Sys.send (s : Sys) (record : Record) : Sys := { s with emitted := s.emitted ++ [(s.gen, record)] }

def Sys.pending (s : Sys) : List (Nat × Record) := s.emitted.drop s.next

/-- The records of the next checkpoint. -/
def Sys.batch (s : Sys) (n : Nat) : List Record := (s.pending.take n).map Prod.snd

section

variable (conv : Conv) (floatID : String → Option Int)

def step (s : Sys) : Act → Sys
  | .emit record =>
    match s.stage with
    | .snapshot => if FromStream record then s else s.send record
    | .stream => if FromStream record then s.send record else s
    | _ => s
  | .purged => if s.stage = .stream then { s with st := requestResnapshot s.st, stage := .entering } else s
  | .start master =>
    if s.stage = .entering then
      match s.st.handoff with
      | some _ => { s with stage := .snapshot }
      | none =>
        if master.1 = "" ∨ master.2 = 0 then { s with stage := .ended }
        else { s with st := snapshotStartPosition s.st master, stage := .snapshot, gen := s.gen + 1, base := master }
    else s
  | .finished => if s.stage = .snapshot then { s with stage := .stream } else s
  | .checkpoint n =>
    if s.blocked = true ∨ s.saving ≠ none ∨ s.batch n = [] then s
    else
      match checkpointFromRecords conv floatID s.st.reader (s.batch n) with
      | .error _ => { s with blocked := true }
      | .ok p => { s with saving := some (s.next + (s.batch n).length, p) }
  | .saveFailed => if s.saving = none then s else { s with saving := none, blocked := true }
  | .ack =>
    match s.saving with
    | none => s
    | some (n, p) =>
      match ackCheckpoint s.st p with
      | .error _ => { s with saving := none, blocked := true }
      | .ok st => { s with st, next := n, saving := none }

/-- The position is the last handoff, or that of a change sent after it. -/
def Sys.Current (s : Sys) (p : SnapshotPosition) : Prop :=
  p.binlog = s.base ∨
    ∃ e ∈ s.emitted, e.1 = s.gen ∧ FromStream e.2 ∧ p.binlog = (e.2.metadata.binlogFile, e.2.metadata.binlogPos)

def Late (e : Err) : Prop := e.msg = "mysql_snapshot_cdc snapshot record arrived after CDC phase"

/-- The resume position was not set back behind the last handoff, and no checkpoint that comes next fails with rows of
the snapshot after changes of the stream. -/
def Sys.Sound (s : Sys) : Prop :=
  s.Current s.st.reader.durable ∧
    ∀ n e, checkpointFromRecords conv floatID s.st.reader (s.batch n) = .error e → ¬Late e

/-- A snapshot starts first of all, or with all records sent before it acknowledged and with a new handoff. -/
def Orderly (s : Sys) : Act → Prop
  | .start _ => s.emitted = [] ∨ (s.next = s.emitted.length ∧ s.saving = none ∧ s.st.handoff = none)
  | _ => True

instance (s : Sys) : DecidablePred (Orderly s) := fun a => by
  cases a <;> unfold Orderly <;> infer_instance

/-! ### Checkpoints of records in order -/

variable {conv floatID} {p p' : SnapshotPosition} {r : Reader} {record : Record}

theorem enterCursor_frame (h : enterCursor conv floatID r p record = .ok p') : p'.binlog = p.binlog := by
  unfold enterCursor at h
  dsimp only at h
  repeat' split at h
  all_goals simp only [Except.ok.injEq, reduceCtorEq] at h
  all_goals
    subst h
    rfl

theorem checkpointStep_ok (h : checkpointStep conv floatID r p record = .ok p') :
    (FromStream record ∧ p'.phase = .cdc ∧ p'.binlog = (record.metadata.binlogFile, record.metadata.binlogPos)) ∨
      (¬FromStream record ∧ p.phase = .snapshot ∧ p'.phase = .snapshot ∧ p'.binlog = p.binlog) := by
  unfold checkpointStep at h
  split at h
  · rename_i hstream
    split at h
    · cases h
    · simp only [Except.ok.injEq] at h
      subst h
      exact .inl ⟨hstream, rfl, rfl⟩
  · rename_i hrow
    split at h
    · cases h
    · rename_i hphase
      have hsnap : p.phase = .snapshot := by
        cases hp : p.phase with
        | snapshot => rfl
        | cdc => exact absurd hp hphase
      split at h
      · cases h
      · rename_i q henter
        have hframe : q.binlog = p.binlog := enterCursor_frame henter
        split at h
        · cases h
        · simp only [Except.ok.injEq] at h
          subst h
          exact .inr ⟨hrow, hsnap, rfl, hframe⟩

/-- A text that begins otherwise is another text. -/
theorem append_ne_of_take {a b m : String} (h : a.toList ≠ m.toList.take a.toList.length) : a ++ b ≠ m := by
  rintro rfl
  rw [String.toList_append, take_left] at h
  exact h rfl

theorem enterCursor_not_late {e : Err} (h : enterCursor conv floatID r p record = .error e) : ¬Late e := by
  unfold enterCursor at h
  dsimp only at h
  repeat' split at h
  all_goals simp only [Except.error.injEq, reduceCtorEq] at h
  all_goals
    subst h
    simp only [Late, String.append_assoc]
    exact append_ne_of_take (by decide)

/-- Only rows of the snapshot are late, and only after changes of the stream. -/
theorem checkpointStep_late {e : Err} (h : checkpointStep conv floatID r p record = .error e) (hlate : Late e) :
    ¬FromStream record ∧ p.phase = .cdc := by
  unfold checkpointStep at h
  split at h
  · split at h
    · simp only [Except.error.injEq] at h
      subst h
      simp only [String.append_assoc] at hlate
      exact absurd hlate (append_ne_of_take (by decide))
    · cases h
  · rename_i hrow
    split at h
    · rename_i hphase
      exact ⟨hrow, hphase⟩
    · split at h
      · rename_i henter
        simp only [Except.error.injEq] at h
        subst h
        exact absurd hlate (enterCursor_not_late henter)
      · split at h
        · simp only [Except.error.injEq] at h
          subst h
          unfold Late at hlate
          simp at hlate
        · cases h

theorem foldlM_checkpointStep_ok {records : List Record}
    (h : records.foldlM (checkpointStep conv floatID r) p = .ok p') :
    (p'.binlog = p.binlog ∨ ∃ record ∈ records,
        FromStream record ∧ p'.binlog = (record.metadata.binlogFile, record.metadata.binlogPos)) ∧
      (p'.phase = .cdc → p.phase = .cdc ∨ ∃ record ∈ records, FromStream record) := by
  induction records generalizing p with
  | nil =>
    cases h
    exact ⟨.inl rfl, .inl⟩
  | cons record records ih =>
    rw [foldlM_cons] at h
    cases hstep : checkpointStep conv floatID r p record with
    | error e =>
      rw [hstep] at h
      cases h
    | ok q =>
      rw [hstep] at h
      obtain ⟨hpos, hphase⟩ := ih h
      rcases checkpointStep_ok hstep with ⟨hstream, -, hq⟩ | ⟨-, -, hq, hkeep⟩
      · refine ⟨?_, fun _ => .inr ⟨record, by simp, hstream⟩⟩
        rcases hpos with hpos | ⟨x, hx, hpos⟩
        · exact .inr ⟨record, by simp, hstream, hpos.trans hq⟩
        · exact .inr ⟨x, by simp [hx], hpos⟩
      · constructor
        · rcases hpos with hpos | ⟨x, hx, hpos⟩
          · exact .inl (hpos.trans hkeep)
          · exact .inr ⟨x, by simp [hx], hpos⟩
        · intro hp'
          rcases hphase hp' with hp | ⟨x, hx, hs⟩
          · rw [hq] at hp
            cases hp
          · exact .inr ⟨x, by simp [hx], hs⟩

/-- Records in which changes of the stream follow the rows of the snapshot are never late. -/
theorem foldlM_checkpointStep_not_late {records : List Record} {e : Err}
    (horder : records.Pairwise fun a b => FromStream a → FromStream b)
    (hphase : p.phase = .cdc → ∀ record ∈ records, FromStream record)
    (h : records.foldlM (checkpointStep conv floatID r) p = .error e) : ¬Late e := by
  induction records generalizing p with
  | nil =>
    cases h
  | cons record records ih =>
    rw [foldlM_cons] at h
    obtain ⟨hhead, htail⟩ := pairwise_cons.mp horder
    cases hstep : checkpointStep conv floatID r p record with
    | error e' =>
      rw [hstep] at h
      cases h
      intro hlate
      obtain ⟨hrow, hp⟩ := checkpointStep_late hstep hlate
      exact hrow (hphase hp record (by simp))
    | ok q =>
      rw [hstep] at h
      refine ih htail (fun hq => ?_) h
      rcases checkpointStep_ok hstep with ⟨hstream, -⟩ | ⟨-, -, hq', -⟩
      · exact fun x hx => hhead x hx hstream
      · rw [hq'] at hq
        cases hq

/-! ### Runs -/

theorem ackCheckpoint_ok {st st' : State} (h : ackCheckpoint st p = .ok st') :
    st'.reader.durable.binlog = p.binlog ∧ st'.reader.durable.phase = p.phase := by
  unfold ackCheckpoint at h
  split at h
  · cases h
  · simp only [Except.ok.injEq] at h
    subst h
    exact ⟨rfl, rfl⟩

/-- From `k` on, `p` is no later in the order than the records. -/
def Sys.Before (s : Sys) (k : Nat) (p : SnapshotPosition) : Prop :=
  p.phase = .cdc → ∀ e ∈ s.emitted.drop k, FromStream e.2

structure Inv (s : Sys) : Prop where
  current : s.Current s.st.reader.durable
  mine : ∀ e ∈ s.pending, e.1 = s.gen
  order : s.pending.Pairwise fun a b => FromStream a.2 → FromStream b.2
  before : s.Before s.next s.st.reader.durable
  saving : ∀ n p, s.saving = some (n, p) → s.next < n ∧ n ≤ s.emitted.length ∧ s.Current p ∧ s.Before n p
  /-- during the snapshot nothing of the stream is pending -/
  reading : s.stage = .snapshot → s.st.reader.durable.phase = .snapshot ∧
    (∀ n p, s.saving = some (n, p) → p.phase = .snapshot) ∧ ∀ e ∈ s.pending, ¬FromStream e.2
  resumed : s.stage = .entering → s.emitted = [] → s.st.handoff ≠ none → s.st.reader.durable.phase = .snapshot
  bounded : s.next ≤ s.emitted.length

theorem Inv.opened (r : Reader) : Inv (Sys.opened r) where
  current := .inl rfl
  mine := by simp [Sys.opened, Sys.pending]
  order := by simp [Sys.opened, Sys.pending]
  before := by simp [Sys.opened, Sys.Before]
  saving := by simp [Sys.opened]
  reading h := by
    unfold Sys.opened at h
    dsimp only at h
    split at h <;> exact absurd h nofun
  resumed h _ _ := by
    unfold Sys.opened at h
    dsimp only at h
    split at h
    · assumption
    · cases h
  bounded := le_refl _

variable {s : Sys}

theorem Inv.sound (h : Inv s) : s.Sound conv floatID := by
  refine ⟨h.current, fun n e he => foldlM_checkpointStep_not_late ?_ ?_ he⟩
  · rw [Sys.batch, pairwise_map]
    exact h.order.sublist (take_sublist n s.pending)
  · intro hphase record hrec
    obtain ⟨x, hx, rfl⟩ := mem_map.mp hrec
    exact h.before hphase x (mem_of_mem_take hx)

theorem Sys.Current.send (h : s.Current p) (record : Record) : (s.send record).Current p := by
  rcases h with h | ⟨e, he, hgen⟩
  · exact .inl h
  · exact .inr ⟨e, mem_append_left _ he, hgen⟩

theorem Sys.mem_drop_send {k : Nat} (hk : k ≤ s.emitted.length) {e : Nat × Record} :
    e ∈ (s.send record).emitted.drop k ↔ e ∈ s.emitted.drop k ∨ e = (s.gen, record) := by
  rw [Sys.send, drop_append_of_le_length hk]
  simp

section

variable (h : Inv s)

include h

/-- A row is sent while the snapshot is read, a change of the stream when it is. -/
theorem Inv.send
    (hstage : s.stage = .snapshot ∧ ¬FromStream record ∨ s.stage = .stream ∧ FromStream record) :
    Inv (s.send record) := by
  have hpending {e : Nat × Record} : e ∈ (s.send record).pending ↔ e ∈ s.pending ∨ e = (s.gen, record) :=
    Sys.mem_drop_send h.bounded
  -- a position from which the stream has begun is kept only while the stream is sent
  have hbefore {k : Nat} {p : SnapshotPosition} (hk : k ≤ s.emitted.length) (hp : s.Before k p)
      (hsnap : s.stage = .snapshot → p.phase = .snapshot) : (s.send record).Before k p := by
    intro hphase e he
    rcases (Sys.mem_drop_send hk).mp he with he | rfl
    · exact hp hphase e he
    · rcases hstage with ⟨hst, -⟩ | ⟨-, hstream⟩
      · rw [hsnap hst] at hphase
        cases hphase
      · exact hstream
  refine
    { current := h.current.send record
      mine := fun e he => ?_
      order := ?_
      before := hbefore h.bounded h.before fun hst => (h.reading hst).1
      saving := fun n p hp => ?_
      reading := fun hst => ?_
      resumed := fun hst => ?_
      bounded := h.bounded.trans (by simp [Sys.send]) }
  · rcases hpending.mp he with he | rfl
    · exact h.mine e he
    · rfl
  · rw [Sys.pending, Sys.send, drop_append_of_le_length h.bounded, pairwise_append]
    refine ⟨h.order, pairwise_singleton _ _, fun a ha b hb hab => ?_⟩
    rcases mem_singleton.mp hb with rfl
    rcases hstage with ⟨hst, -⟩ | ⟨-, hstream⟩
    · exact absurd hab ((h.reading hst).2.2 a ha)
    · exact hstream
  · obtain ⟨hlt, hle, hcur, hbef⟩ := h.saving n p hp
    exact ⟨hlt, hle.trans (by simp [Sys.send]), hcur.send record, hbefore hle hbef fun hst => (h.reading hst).2.1 n p hp⟩
  · obtain ⟨hphase, hsaving, hrows⟩ := h.reading hst
    refine ⟨hphase, hsaving, fun e he => ?_⟩
    rcases hpending.mp he with he | rfl
    · exact hrows e he
    · rcases hstage with ⟨-, hrow⟩ | ⟨hstream, -⟩
      · exact hrow
      · cases hst.symm.trans hstream
  · rcases hstage with ⟨hs, -⟩ | ⟨hs, -⟩ <;> exact absurd (hst.symm.trans hs) nofun

theorem Inv.purged : Inv { s with st := requestResnapshot s.st, stage := .entering } :=
  { h with
    reading := nofun
    resumed := fun _ _ hhandoff => absurd rfl hhandoff }

/-- A new handoff is installed when nothing is pending. -/
theorem Inv.install (hdone : s.pending = []) (hsaving : s.saving = none) (master : String × UInt32) :
    Inv { s with
      st := installSnapshotHandoff s.st master.1 master.2, stage := .snapshot, gen := s.gen + 1, base := master } := by
  have hno : ∀ e, e ∉ s.pending := by simp [hdone]
  exact
    { current := .inl rfl
      mine := fun e he => absurd he (hno e)
      order := h.order
      before := nofun
      saving := fun n p hp => absurd (hsaving.symm.trans hp) nofun
      reading := fun _ => ⟨rfl, fun n p hp => absurd (hsaving.symm.trans hp) nofun, fun e he => absurd he (hno e)⟩
      resumed := nofun
      bounded := h.bounded }

theorem Inv.start (master : String × UInt32) (horderly : Orderly s (.start master))
    (hstage : s.stage = .entering) : Inv (step conv floatID s (.start master)) := by
  have hnone : s.emitted = [] → s.saving = none := by
    intro hemitted
    cases hs : s.saving with
    | none => rfl
    | some x =>
      obtain ⟨hlt, hle, -⟩ := h.saving x.1 x.2 hs
      rw [hemitted, length_nil] at hle
      omega
  have hidle : s.pending = [] ∧ s.saving = none := by
    rcases horderly with hemitted | ⟨hnext, hsaving, -⟩
    · exact ⟨by rw [Sys.pending, hemitted, drop_nil], hnone hemitted⟩
    · exact ⟨by rw [Sys.pending, hnext, drop_length], hsaving⟩
  obtain ⟨hdone, hsaving⟩ := hidle
  rw [step, if_pos hstage]
  cases hhandoff : s.st.handoff with
  | none =>
    have hinstall : snapshotStartPosition s.st master = installSnapshotHandoff s.st master.1 master.2 := by
      rw [snapshotStartPosition, hhandoff]
    dsimp only
    split
    · exact { h with reading := nofun, resumed := nofun }
    · rw [hinstall]
      exact h.install hdone hsaving master
  | some x =>
    -- the handoff of a checkpoint, which only the first snapshot finds
    have hemitted : s.emitted = [] := by
      rcases horderly with hemitted | ⟨-, -, hno⟩
      · exact hemitted
      · cases hhandoff.symm.trans hno
    have hphase := h.resumed hstage hemitted (by simp [hhandoff])
    have hno : ∀ e, e ∉ s.pending := by simp [hdone]
    exact
      { h with
        reading := fun _ => ⟨hphase, fun n p hp => absurd (hsaving.symm.trans hp) nofun, fun e he => absurd he (hno e)⟩
        resumed := nofun }

theorem Inv.finished : Inv { s with stage := .stream } :=
  { h with reading := nofun, resumed := nofun }

theorem Inv.blocked : Inv { s with blocked := true } := { h with }

theorem Inv.dropped : Inv { s with saving := none, blocked := true } :=
  { h with
    saving := nofun
    reading := fun hst => ⟨(h.reading hst).1, nofun, (h.reading hst).2.2⟩ }

/-- A checkpoint of pending records takes its position from the durable one or from them. -/
theorem Inv.checkpoint {n : Nat} (hbatch : s.batch n ≠ [])
    (hp : checkpointFromRecords conv floatID s.st.reader (s.batch n) = .ok p) :
    Inv { s with saving := some (s.next + (s.batch n).length, p) } := by
  obtain ⟨hpos, hphase⟩ := foldlM_checkpointStep_ok hp
  have hlen : (s.batch n).length = min n (s.emitted.length - s.next) := by
    simp [Sys.batch, Sys.pending]
  have hmem {record : Record} (hr : record ∈ s.batch n) : ∃ e ∈ s.pending, e.2 = record := by
    obtain ⟨e, he, rfl⟩ := mem_map.mp hr
    exact ⟨e, mem_of_mem_take he, rfl⟩
  have hcur : s.Current p := by
    rcases hpos with hpos | ⟨record, hr, hstream, hpos⟩
    · rcases h.current with hc | ⟨e, he, hgen, hs, hc⟩
      · exact .inl (hpos.trans hc)
      · exact .inr ⟨e, he, hgen, hs, hpos.trans hc⟩
    · obtain ⟨e, he, rfl⟩ := hmem hr
      exact .inr ⟨e, mem_of_mem_drop he, h.mine e he, hstream, hpos⟩
  have hbefore : s.Before (s.next + (s.batch n).length) p := by
    intro hcdc e he
    have hdrop : s.emitted.drop (s.next + (s.batch n).length) = s.pending.drop (s.batch n).length := by
      rw [Sys.pending, drop_drop]
    rw [hdrop] at he
    rcases hphase hcdc with hd | ⟨record, hr, hstream⟩
    · exact h.before hd e (mem_of_mem_drop he)
    · -- the changes of the stream come last
      obtain ⟨x, hx, rfl⟩ := mem_map.mp hr
      have hsplit : s.pending.take (s.batch n).length ++ s.pending.drop (s.batch n).length = s.pending :=
        take_append_drop _ _
      have htake : s.pending.take n = s.pending.take (s.batch n).length := by
        exact take_eq_take_iff.mpr (by simp [Sys.batch])
      rw [htake] at hx
      have horder := h.order
      rw [← hsplit, pairwise_append] at horder
      exact horder.2.2 x hx e he hstream
  refine { h with saving := fun k q hq => ?_, reading := fun hst => ?_ }
  · obtain ⟨rfl, rfl⟩ := hq
    have hpos : 0 < (s.batch n).length := length_pos_iff.mpr hbatch
    exact ⟨by dsimp only; omega, by dsimp only; omega, hcur, hbefore⟩
  · obtain ⟨hd, -, hrows⟩ := h.reading hst
    refine ⟨hd, fun k q hq => ?_, hrows⟩
    obtain ⟨-, rfl⟩ := hq
    cases hq : p.phase with
    | snapshot => rfl
    | cdc =>
      rcases hphase hq with hd' | ⟨record, hr, hstream⟩
      · cases hd.symm.trans hd'
      · obtain ⟨e, he, rfl⟩ := hmem hr
        exact absurd hstream (hrows e he)

theorem Inv.ack {n : Nat} (hs : s.saving = some (n, p)) {st : State}
    (hack : ackCheckpoint s.st p = .ok st) : Inv { s with st, next := n, saving := none } := by
  obtain ⟨hlt, hle, hcur, hbefore⟩ := h.saving n p hs
  obtain ⟨hbinlog, hphase⟩ := ackCheckpoint_ok hack
  have hsub : Sublist (s.emitted.drop n) s.pending := by
    have hdrop : s.emitted.drop n = s.pending.drop (n - s.next) := by
      rw [Sys.pending, drop_drop, Nat.add_sub_cancel' hlt.le]
    rw [hdrop]
    exact drop_sublist _ _
  refine
    { current := ?_
      mine := fun e he => h.mine e (hsub.subset he)
      order := h.order.sublist hsub
      before := fun hcdc => hbefore (hphase.symm.trans hcdc)
      saving := nofun
      reading := fun hst => ?_
      resumed := fun _ hemitted => ?_
      bounded := hle }
  · rcases hcur with hc | ⟨e, he, hgen, hstream, hc⟩
    · exact .inl (hbinlog.trans hc)
    · exact .inr ⟨e, he, hgen, hstream, hbinlog.trans hc⟩
  · obtain ⟨-, hsaving, hrows⟩ := h.reading hst
    exact ⟨hphase.trans (hsaving n p hs), nofun, fun e he => hrows e (hsub.subset he)⟩
  · rw [show s.emitted = [] from hemitted, length_nil] at hle
    omega

end

theorem Inv.step {a : Act} (horderly : Orderly s a) (h : Inv s) : Inv (step conv floatID s a) := by
  cases a with
  | emit record =>
    unfold SnapshotCdc.step
    dsimp only
    split
    · rename_i hst
      split
      · exact h
      · rename_i hrow
        exact h.send (.inl ⟨hst, hrow⟩)
    · rename_i hst
      split
      · rename_i hstream
        exact h.send (.inr ⟨hst, hstream⟩)
      · exact h
    · exact h
  | purged =>
    unfold SnapshotCdc.step
    dsimp only
    split
    · exact h.purged
    · exact h
  | start master =>
    by_cases hst : s.stage = .entering
    · exact h.start master horderly hst
    · rw [SnapshotCdc.step, if_neg hst]
      exact h
  | finished =>
    unfold SnapshotCdc.step
    dsimp only
    split
    · exact h.finished
    · exact h
  | checkpoint n =>
    unfold SnapshotCdc.step
    dsimp only
    split
    · exact h
    · rename_i hfree
      split
      · exact h.blocked
      · rename_i p hp
        exact h.checkpoint (fun hnil => hfree (.inr (.inr hnil))) hp
  | saveFailed =>
    unfold SnapshotCdc.step
    dsimp only
    split
    · exact h
    · exact h.dropped
  | ack =>
    unfold SnapshotCdc.step
    dsimp only
    split
    · exact h
    · rename_i n p hs
      split
      · exact h.dropped
      · rename_i st hack
        exact h.ack hs hack

end

/-- **A resnapshot is not undone** in a run in which every later snapshot starts with the records sent before it
acknowledged and a new handoff to install. -/
theorem resnapshot_not_undone (conv : Conv) (floatID : String → Option Int) (r : Reader) (acts : List Act)
    (h : Steps Orderly (step conv floatID) (Sys.opened r) acts) :
    (run (step conv floatID) (Sys.opened r) acts).Sound conv floatID :=
  (run_invariant_of Inv (fun _ _ horderly hinv => hinv.step horderly) (Inv.opened r) h).sound

def resuming : Reader where
  table := "t"
  resolvedPKs := fun _ => ⟨"id", .numeric⟩
  durable := { phase := .cdc, lastID := 2, lastIDs := [("t", 2)], file := "bin.000003", pos := 1000 }

/-- One of the rows of an event. -/
def changeOf (key : Int) : Record where
  operation := .update
  data := [("id", .int64 key)]
  metadata := { table := "t", binlogFile := "bin.000003", binlogPos := 1200 }

def rowRecord (key : Int) : Record where
  operation := .insert
  data := [("id", .int64 key)]
  metadata := { table := "t" }

/-- The changes are acknowledged before the new snapshot starts. -/
theorem acknowledged_resnapshot :
    let acts : List Act := [.emit (changeOf 1), .checkpoint 1, .ack, .purged, .start ("bin.000009", 4),
      .emit (rowRecord 3), .finished]
    Steps Orderly (step noConv noFloat) (Sys.opened resuming) acts ∧
      (run (step noConv noFloat) (Sys.opened resuming) acts).Sound noConv noFloat := by
  intro acts
  have horderly : Steps Orderly (step noConv noFloat) (Sys.opened resuming) acts := by decide
  exact ⟨horderly, resnapshot_not_undone noConv noFloat resuming acts horderly⟩

/-- Two rows of an event are sent, and the first is acknowledged, when the binlog turns out to be purged. The second is
acknowledged after the new handoff is installed: the reader is back at the purged position, and the row of the new
snapshot can not be checkpointed. -/
theorem late_ack_undoes_resnapshot :
    let before : List Act := [.emit (changeOf 1), .emit (changeOf 2), .checkpoint 1, .ack]
    let after : List Act := [.purged, .start ("bin.000009", 4), .emit (rowRecord 3), .checkpoint 1, .ack]
    let s := run (step noConv noFloat) (Sys.opened resuming) before
    let s' := run (step noConv noFloat) (Sys.opened resuming) (before ++ after)
    s.st.reader.durable.binlog = ("bin.000003", 1200) ∧ s'.base = ("bin.000009", 4) ∧
      s'.st.reader.durable.binlog = ("bin.000003", 1200) ∧ s'.batch 1 = [rowRecord 3] ∧
      checkpointFromRecords noConv noFloat s'.st.reader (s'.batch 1) =
        .error { msg := "mysql_snapshot_cdc snapshot record arrived after CDC phase" } ∧
      ¬s'.Sound noConv noFloat := by
  intro before after s s'
  have hfails : checkpointFromRecords noConv noFloat s'.st.reader (s'.batch 1) =
      .error { msg := "mysql_snapshot_cdc snapshot record arrived after CDC phase" } := by rfl
  exact ⟨rfl, rfl, rfl, rfl, hfails, fun hsound => hsound.2 1 _ hfails rfl⟩

end OpenEtl.Source.SnapshotCdc
