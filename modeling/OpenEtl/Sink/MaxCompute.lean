import OpenEtl.Sink.Chunked
import Mathlib.Data.List.Sort

/-!
# The MaxCompute sink's `Write` (`sink/maxcompute.go:114-400`)

A chunk is split by partition and each partition is written with its own retries; a chunk in which
some partitions fail and some do not ends in a `maxComputePartialBatchError`.

The client is assumed to be truthful: when it returns nil, the partition took all rows it was given
(`Exchange`). After an error it may have taken any of them.
-/

namespace OpenEtl.Sink.MaxCompute

open List

/-- An error of the client: `status` when the chain holds a `restclient.HttpError`. -/
structure ClientErr extends Cause where
  status : Option Nat := none
deriving DecidableEq, Repr

def classifyMaxComputeMessage (message : String) : ErrorClass :=
  let msg := toLower message
  if containsAny msg ["accessdenied", "access denied", "forbidden", "unauthorized", "permission"] then .auth
  else if containsAny msg ["nosuch", "not found", "partition", "schema", "column", "table"] then .schema
  else if containsAny msg ["timeout", "temporar", "throttl", "too many", "service unavailable"] then .transient
  else if containsAny msg ["parse", "invalid data", "type mismatch", "out of range", "decimal"] then .data
  else .unknown

/-- `classifyMaxComputeError` (:802). -/
def classifyMaxComputeError (e : ClientErr) : Cause :=
  if e.classified.isSome then e.toCause
  else if e.netTemporary then { e.toCause with classified := some .transient }
  else
    match e.status with
    | some code =>
      let cls :=
        if code = 401 ∨ code = 403 then .auth
        else if code = 404 then .schema
        else if code = 408 ∨ code = 429 ∨ code ≥ 500 then .transient
        else if code ≥ 400 then
          let c := classifyMaxComputeMessage e.msg
          if c = .unknown then .data else c
        else .unknown
      { e.toCause with classified := some cls }
    | none =>
      let c := classifyMaxComputeMessage e.msg
      { e.toCause with classified := some (if c = .unknown then classifyError e.toCause else c) }

/-- One call of the client with `n` rows of a partition. -/
structure Exchange (n : Nat) where
  err : Option ClientErr
  accepted : List Nat
  bounded : ∀ i ∈ accepted, i < n
  honest : err = none → ∀ i < n, i ∈ accepted

structure MaxComputeSink where
  batchSize : Nat := 500
  /-- checked by `validateConfig` (:186) -/
  batchSize_pos : 0 < batchSize := by decide
  maxRetries : Nat := 3
  /-- static partition columns, in key order -/
  partition : List (String × String) := []
  partitionFields : List String := []

/-- The outcomes of one call of `Write`, for the attempts at a partition of the chunk that starts at
`start`. -/
structure Client where
  exchange : (start : Nat) → (partition : String) → (attempt n : Nat) → Exchange n
  ctxErr : (start : Nat) → (partition : String) → (attempt : Nat) → Option CtxErr := fun _ _ _ => none
  waitDone : (start : Nat) → (partition : String) → (attempt : Nat) → Option CtxErr := fun _ _ _ => none

def sanitizeMaxComputePartitionValue (value : String) : String :=
  trimSpace (String.ofList (value.toList.filter fun c => c != '\'' && c != '"'))

structure PartitionBatch where
  partition : String
  rows : List Data
  /-- positions of the rows in the whole batch -/
  indices : List Nat

section

variable (S : MaxComputeSink) (E : Client)

/-- `partitionSpec`: a missing or blank dynamic field is an error. -/
def partitionFieldSpecs (row : Data) : List String → Except Err (List String)
  | [] => .ok []
  | field :: rest =>
    match row.get? field with
    | none | some .null =>
      .error
        { msg := "maxcompute dynamic partition field \"" ++ field ++ "\" is missing or empty"
          classified := some .data }
    | some v =>
      if trimSpace (fmtV v) = "" then
        .error
          { msg := "maxcompute dynamic partition field \"" ++ field ++ "\" is missing or empty"
            classified := some .data }
      else do
        let specs ← partitionFieldSpecs row rest
        return (field ++ "='" ++ sanitizeMaxComputePartitionValue (fmtV v) ++ "'") :: specs

def partitionSpec (row : Data) : Except Err String := do
  let dynamic ← partitionFieldSpecs row S.partitionFields
  let static := S.partition.map fun (k, v) => k ++ "='" ++ sanitizeMaxComputePartitionValue v ++ "'"
  return joinStr "," (static ++ dynamic)

/-- `rowData`: dynamic partition columns are not part of the row. -/
def rowData (row : Data) : Data := row.filter fun p => !(S.partitionFields.any fun f => toLower f == toLower p.1)

/-- Adds a row to the group of its partition, or opens one behind the others. -/
def addRow (partition : String) (row : Data) (idx : Nat) : List PartitionBatch → List PartitionBatch
  | [] => [{ partition, rows := [row], indices := [idx] }]
  | g :: rest =>
    if g.partition = partition then
      { g with rows := g.rows ++ [row], indices := g.indices ++ [idx] } :: rest
    else g :: addRow partition row idx rest

/-- The grouping loop of `writeChunk`, from position `idx` on. -/
def groupRows : List Record → Nat → List PartitionBatch → Except Err (List PartitionBatch)
  | [], _, groups => .ok groups
  | rec :: rest, idx, groups =>
    match partitionSpec S rec.data with
    | .error e => .error e
    | .ok partition => groupRows rest (idx + 1) (addRow partition (rowData S rec.data) idx groups)

structure PartitionResult where
  err : Option Cause
  accepted : List Nat

/-- `writePartitionWithRetry` with `k` attempts left (`k = maxRetries + 1 - attempt`). -/
def writePartitionLoop (start : Nat) (partition : String) (n : Nat) : Nat → Nat → Option Cause → PartitionResult
  | 0, _, last => { err := last, accepted := [] }
  | k + 1, attempt, _ =>
    match E.ctxErr start partition attempt with
    | some e => { err := some e.toErr.toCause, accepted := [] }
    | none =>
      let x := E.exchange start partition attempt n
      match x.err with
      | none => { err := none, accepted := x.accepted }
      | some e =>
        let last := classifyMaxComputeError e
        if isRetryableError { toCause := last } = false ∨ k = 0 then { err := some last, accepted := x.accepted }
        else
          match E.waitDone start partition attempt with
          | some ctxErr => { err := some ctxErr.toErr.toCause, accepted := x.accepted }
          | none =>
            let rest := writePartitionLoop start partition n k (attempt + 1) (some last)
            { rest with accepted := x.accepted ++ rest.accepted }

def writePartitionWithRetry (start : Nat) (partition : String) (n : Nat) : PartitionResult :=
  writePartitionLoop E start partition n (S.maxRetries + 1) 0 none

/-- The locals of `writeChunk` after its write loop. -/
structure ChunkState where
  failed : List (Nat × Cause) := []
  successCount : Nat := 0
  lastErr : Option Cause := none
  accepted : List Nat := []

/-- The write loop of `writeChunk`. -/
def writeGroups (start : Nat) : List PartitionBatch → ChunkState → ChunkState
  | [], st => st
  | g :: rest, st =>
    let r := writePartitionWithRetry S E start g.partition g.rows.length
    let taken := r.accepted.filterMap fun j => g.indices[j]?
    match r.err with
    | none =>
      writeGroups start rest
        { st with successCount := st.successCount + g.rows.length, accepted := st.accepted ++ taken }
    | some e =>
      let e := classifyMaxComputeError { toCause := e }
      writeGroups start rest
        { st with
          failed := st.failed ++ g.indices.map (·, e)
          lastErr := some e
          accepted := st.accepted ++ taken }

/-- `maxComputePartialBatchError`. -/
def partialError (failed : List (Nat × Cause)) : Err where
  msg := "maxcompute partial batch failed for " ++ toString failed.length ++ " record(s)"
  classified := some .data
  partialBatch := some
    { failedRecordIndices := ((failed.map Prod.fst).insertionSort (· ≤ ·)).map fun i : Nat => (i : Int)
      causes := failed.map fun p => ((p.1 : Int), p.2) }

/-- `writeChunk` for the chunk that starts at `start`. -/
def writeChunk (records : List Record) (start : Nat) : WriteResult :=
  match groupRows S ((records.drop start).take S.batchSize) start [] with
  | .error e => { err := some e }
  | .ok groups =>
    let st := writeGroups S E start groups {}
    match st.lastErr with
    | none => { err := none, accepted := st.accepted }
    | some e =>
      if st.successCount = 0 then { err := some { toCause := e }, accepted := st.accepted }
      else { err := some (partialError st.failed), accepted := st.accepted }

/-- `MaxComputeSink.Write`, with the client open. -/
def write (records : List Record) : WriteResult :=
  chunkLoop S.batchSize records.length (writeChunk S E records) records.length 0

/-! ## Soundness of a chunk -/

/-- The groups hold the positions `lo, …, hi - 1`, one row for each. -/
structure Groups (lo hi : Nat) (groups : List PartitionBatch) : Prop where
  rows : ∀ g ∈ groups, g.rows.length = g.indices.length
  bounded : ∀ g ∈ groups, ∀ i ∈ g.indices, lo ≤ i ∧ i < hi
  covered : ∀ i, lo ≤ i → i < hi → ∃ g ∈ groups, i ∈ g.indices

variable {partition : String} {row : Data} {idx : Nat} {groups : List PartitionBatch}

theorem mem_addRow {i : Nat} : (∃ g ∈ addRow partition row idx groups, i ∈ g.indices) ↔
    i = idx ∨ ∃ g ∈ groups, i ∈ g.indices := by
  induction groups with
  | nil => simp [addRow]
  | cons g rest ih =>
    unfold addRow
    split
    · simp [or_assoc, or_left_comm]
    · simp [ih, or_left_comm]

theorem addRow_rows (h : ∀ g ∈ groups, g.rows.length = g.indices.length) :
    ∀ g ∈ addRow partition row idx groups, g.rows.length = g.indices.length := by
  induction groups with
  | nil => simp [addRow]
  | cons g rest ih =>
    simp only [forall_mem_cons] at h
    unfold addRow
    split
    · simpa [h.1] using h.2
    · simpa [h.1] using ih h.2

theorem Groups.addRow {lo hi : Nat} (h : Groups lo hi groups) (hle : lo ≤ hi) :
    Groups lo (hi + 1) (addRow partition row hi groups) := by
  refine ⟨addRow_rows h.rows, fun g hg i hi' => ?_, fun i hlo hi' => mem_addRow.mpr ?_⟩
  · rcases mem_addRow.mp ⟨g, hg, hi'⟩ with rfl | ⟨g', hg', hm⟩
    · omega
    · have := h.bounded g' hg' i hm
      omega
  · by_cases heq : i = hi
    · exact .inl heq
    · exact .inr (h.covered i hlo (by omega))

theorem groupRows_groups {lo : Nat} : ∀ (recs : List Record) (idx : Nat) (groups result : List PartitionBatch),
    lo ≤ idx → Groups lo idx groups → groupRows S recs idx groups = .ok result →
      Groups lo (idx + recs.length) result
  | [], _, _, _, _, hg, h => by
    cases h
    simpa using hg
  | rec :: rest, idx, groups, result, hle, hg, h => by
    unfold groupRows at h
    cases hp : partitionSpec S rec.data with
    | error e => simp [hp] at h
    | ok partition =>
      simp only [hp] at h
      have := groupRows_groups rest (idx + 1) _ result (by omega) (hg.addRow hle) h
      have hlen : idx + (rec :: rest).length = idx + 1 + rest.length := by simp; omega
      rwa [hlen]

theorem partitionFieldSpecs_plain (row : Data) {e : Err} : ∀ {fields : List String},
    partitionFieldSpecs row fields = .error e → e.partialBatch = none
  | [], h => by simp [partitionFieldSpecs] at h
  | field :: rest, h => by
    unfold partitionFieldSpecs at h
    split at h
    · cases h; rfl
    · cases h; rfl
    · split at h
      · cases h; rfl
      · cases hr : partitionFieldSpecs row rest with
        | error e' =>
          simp only [hr, bind, Except.bind, Except.error.injEq] at h
          subst h
          exact partitionFieldSpecs_plain row hr
        | ok specs => simp [hr, bind, Except.bind, pure, Except.pure] at h

theorem groupRows_plain {e : Err} : ∀ {recs : List Record} {idx : Nat} {groups : List PartitionBatch},
    groupRows S recs idx groups = .error e → e.partialBatch = none
  | [], _, _, h => by simp [groupRows] at h
  | rec :: rest, idx, groups, h => by
    unfold groupRows at h
    cases hp : partitionSpec S rec.data with
    | error e' =>
      simp only [hp, Except.error.injEq] at h
      subst h
      unfold partitionSpec at hp
      cases hf : partitionFieldSpecs rec.data S.partitionFields with
      | error e'' =>
        simp only [hf, bind, Except.bind, Except.error.injEq] at hp
        subst hp
        exact partitionFieldSpecs_plain _ hf
      | ok specs => simp [hf, bind, Except.bind, pure, Except.pure] at hp
    | ok partition =>
      simp only [hp] at h
      exact groupRows_plain h

/-- A partition that was written took all its rows. -/
theorem writePartitionLoop_nil (start : Nat) (partition : String) (n : Nat) :
    ∀ (k attempt : Nat) (last : Option Cause), 0 < k →
      (writePartitionLoop E start partition n k attempt last).err = none →
        ∀ i < n, i ∈ (writePartitionLoop E start partition n k attempt last).accepted
  | k + 1, attempt, last, _, h => by
    unfold writePartitionLoop at h ⊢
    cases hc : E.ctxErr start partition attempt with
    | some e => simp [hc] at h
    | none =>
      cases hx : (E.exchange start partition attempt n).err with
      | none =>
        simp only [hx]
        exact (E.exchange start partition attempt n).honest hx
      | some e =>
        simp only [hc, hx] at h ⊢
        split at h
        · simp at h
        · rename_i hr
          rw [if_neg hr]
          cases hw : E.waitDone start partition attempt with
          | some ce => simp [hw] at h
          | none =>
            simp only [hw] at h ⊢
            intro i hi
            refine mem_append_right _ (writePartitionLoop_nil start partition n k (attempt + 1) _ ?_ h i hi)
            exact Nat.pos_of_ne_zero fun hk => hr (.inr hk)

structure Written (groups : List PartitionBatch) (st st' : ChunkState) : Prop where
  accepted : ∀ i ∈ st'.accepted, i ∈ st.accepted ∨ ∃ g ∈ groups, i ∈ g.indices
  failed : ∀ p ∈ st'.failed, p ∈ st.failed ∨ ∃ g ∈ groups, p.1 ∈ g.indices
  keepsAccepted : ∀ i ∈ st.accepted, i ∈ st'.accepted
  keepsFailed : ∀ p ∈ st.failed, p ∈ st'.failed
  noError : st'.lastErr = none → st'.failed = st.failed ∧ st.lastErr = none
  ended : ∀ g ∈ groups, g.rows.length = g.indices.length →
    ∀ i ∈ g.indices, i ∈ st'.accepted ∨ i ∈ st'.failed.map Prod.fst

theorem mem_taken {g : PartitionBatch} {accepted : List Nat} {i : Nat}
    (h : i ∈ accepted.filterMap fun j => g.indices[j]?) : i ∈ g.indices := by
  obtain ⟨j, -, hj⟩ := mem_filterMap.mp h
  exact mem_of_getElem? hj

theorem Written.cons {g : PartitionBatch} {rest : List PartitionBatch} {st st₁ st₂ : ChunkState}
    (h : Written [g] st st₁) (hrest : Written rest st₁ st₂) : Written (g :: rest) st st₂ := by
  obtain ⟨haccepted, hfailed, hkeepsAccepted, hkeepsFailed, hnoError, hended⟩ := hrest
  constructor
  · grind [h.accepted]
  · grind [h.failed]
  · grind [h.keepsAccepted]
  · grind [h.keepsFailed]
  · grind [h.noError]
  · intro g' hg' hlen i hi
    rcases mem_cons.mp hg' with rfl | hg'
    · have := h.ended g' mem_cons_self hlen i hi
      grind
    · exact hended g' hg' hlen i hi

theorem writeGroups_written (start : Nat) : ∀ (groups : List PartitionBatch) (st : ChunkState),
    Written groups st (writeGroups S E start groups st)
  | [], st => ⟨fun i hi => .inl hi, fun p hp => .inl hp, fun _ h => h, fun _ h => h, fun h => ⟨rfl, h⟩, by simp⟩
  | g :: rest, st => by
    unfold writeGroups
    cases hr : (writePartitionWithRetry S E start g.partition g.rows.length).err with
    | none =>
      simp only [hr]
      refine .cons ?_ (writeGroups_written start rest _)
      refine ⟨?_, by simp +contextual, by simp +contextual, by simp, by simp, ?_⟩
      · simp only [mem_append, mem_singleton, exists_eq_left]
        exact fun i hi => hi.imp_right mem_taken
      · simp only [mem_singleton, forall_eq]
        intro hlen i hi
        obtain ⟨j, hj⟩ := mem_iff_getElem?.mp hi
        have hlt : j < g.indices.length := (List.getElem?_eq_some_iff.mp hj).1
        refine .inl (mem_append_right _ (mem_filterMap.mpr ⟨j, ?_, hj⟩))
        exact writePartitionLoop_nil E start g.partition g.rows.length _ 0 none (by omega) hr j (by omega)
    | some e =>
      simp only [hr]
      refine .cons ?_ (writeGroups_written start rest _)
      refine ⟨?_, ?_, by simp +contextual, by simp +contextual, by simp, by simp +contextual⟩
      · simp only [mem_append, mem_singleton, exists_eq_left]
        exact fun i hi => hi.imp_right mem_taken
      · simp +contextual [or_imp]

variable (records : List Record)

theorem writeChunk_sound (start : Nat) :
    ChunkSound S.batchSize records.length start (writeChunk S E records start) := by
  unfold writeChunk
  cases hg : groupRows S ((records.drop start).take S.batchSize) start [] with
  | error e => exact ChunkSound.plain rfl (groupRows_plain S hg) (by simp)
  | ok groups =>
    have hgroups : Groups start (start + ((records.drop start).take S.batchSize).length) groups :=
      groupRows_groups S _ start [] groups le_rfl ⟨by simp, by simp, by omega⟩ hg
    have hlen : ((records.drop start).take S.batchSize).length = min S.batchSize (records.length - start) := by
      simp
    have hw := writeGroups_written S E start groups {}
    -- positions of groups are positions of the chunk
    have hin : ∀ g ∈ groups, ∀ i ∈ g.indices, InChunk S.batchSize records.length start i := by
      intro g hgm i hi
      have := hgroups.bounded g hgm i hi
      exact ⟨by omega, by omega, by omega⟩
    have hacc : ∀ i ∈ (writeGroups S E start groups {}).accepted, InChunk S.batchSize records.length start i := by
      intro i hi
      rcases hw.accepted i hi with hi | ⟨g, hgm, hi⟩
      · simp at hi
      · exact hin g hgm i hi
    have hend : ∀ i, InChunk S.batchSize records.length start i →
        i ∈ (writeGroups S E start groups {}).accepted ∨
          i ∈ (writeGroups S E start groups {}).failed.map Prod.fst := by
      rintro i ⟨h1, h2, h3⟩
      obtain ⟨g, hgm, hi⟩ := hgroups.covered i h1 (by omega)
      exact hw.ended g hgm (hgroups.rows g hgm) i hi
    simp only
    cases hl : (writeGroups S E start groups {}).lastErr with
    | none =>
      refine ⟨hacc, fun _ i hi => ?_, by simp, by simp⟩
      rcases hend i hi with h | h
      · exact h
      · rw [(hw.noError hl).1] at h
        simp at h
    | some e =>
      simp only
      split
      · exact ChunkSound.plain rfl rfl hacc
      · refine ⟨hacc, by simp, ?_, ?_⟩
        · intro e' p he hp idx hidx
          cases he
          cases hp
          obtain ⟨i, hi, rfl⟩ := mem_map.mp hidx
          rw [mem_insertionSort] at hi
          obtain ⟨q, hq, rfl⟩ := mem_map.mp hi
          rcases hw.failed q hq with hq | ⟨g, hgm, hq⟩
          · simp at hq
          · exact ⟨q.1, rfl, hin g hgm _ hq⟩
        · intro e' p he hp i hi hnot
          cases he
          cases hp
          rcases hend i hi with h | h
          · exact h
          · refine absurd (mem_map.mpr ⟨i, ?_, rfl⟩) hnot
            rwa [mem_insertionSort]

theorem write_nilSound : (write S E records).NilSound records.length := by
  intro herr i hi
  exact chunkLoop_nil S.batchSize_pos (writeChunk_sound S E records) _ 0 (by omega) herr i (by omega) hi

/-- **A `PartialBatchError` of the MaxCompute sink is sound exactly when** no chunk but the last is the
first to fail in some of its partitions only. -/
theorem write_partialSound_iff :
    (write S E records).PartialSound records.length ↔
      PartialOnlyLast S.batchSize records.length (writeChunk S E records) 0 := by
  rw [← chunkLoop_partialSound_iff S.batchSize_pos (writeChunk_sound S E records) records.length 0 (by omega)]
  simp only [WriteResult.PartialSound, write, Nat.zero_le, true_implies]

end

end OpenEtl.Sink.MaxCompute
