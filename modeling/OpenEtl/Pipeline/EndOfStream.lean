import OpenEtl.Orchestrator.Closing
import OpenEtl.Pipeline.BatchPartition
import OpenEtl.Transform.Window

/-!
# The end of the stream (`pipeline/pipeline.go:1096-1127`, `core/core.go:399`, `orchestrator/executor.go:628`)

| here | there |
| --- | --- |
| `endOfStream` | the EOF branch of `writeLoop` (pipeline.go:1113-1127) |
| `chainVisits` | the transforms that `ApplyBatch` or `Apply` gives a batch's records to |

What a `Flusher` returns has been through the transforms before it.
-/

namespace OpenEtl.Pipeline

open Storage (Ctx)
open List Window Trace

/-- A record that a transform has made. Only sources set `Rejection`. -/
abbrev Made := { r : Record // r.rejection = none }

structure FlushTransform where
  transform : Transform
  /-- what `Flush` returns when the stream has ended; `none` when the transform is no `Flusher` -/
  flush : Option (Except Cause (List Made)) := none

/-- The records of the `Flusher`s from the `k`-th transform on, each with its producer, up to the first error. -/
def returned : Nat → List FlushTransform → List (Nat × Made)
  | _, [] => []
  | k, t :: chain =>
    match t.flush with
    | none => returned (k + 1) chain
    | some (.ok out) => out.map (k, ·) ++ returned (k + 1) chain
    | some (.error _) => []

def flushChain : List FlushTransform → List Made × Option Cause
  | [] => ([], none)
  | t :: chain =>
    match t.flush with
    | none => flushChain chain
    | some (.error e) => ([], some e)
    | some (.ok out) =>
      let (rest, err) := flushChain chain
      (out ++ rest, err)

/-! ## Which transforms a record comes to -/

/-- `Apply` of a chain, from its `k`-th transform. -/
def recordVisits (t i : Nat) : Nat → List Transform → Item → List (Nat × Item)
  | _, [], _ => []
  | k, tr :: tc, it =>
    (k, it) ::
      match tr.apply t i it.record with
      | .ok r => recordVisits t i (k + 1) tc { it with record := r }
      | .error _ => []

/-- `ApplyBatch` of a chain, from its `k`-th transform. -/
def batchVisits (t : Nat) : Nat → List Transform → List Item → List (Nat × Item)
  | _, [], _ => []
  | k, tr :: tc, recs =>
    recs.map (k, ·) ++
      match tr.applyBatch with
      | some applyBatch =>
        match applyBatch t recs with
        | (_, some (.other _)) => []
        | (out, _) => if out = [] then [] else batchVisits t (k + 1) tc out
      | none => batchVisits t (k + 1) tc (applyEach tr t 0 recs).1

section

variable (C : Cfg) (E : Env)

def serialVisits : St → Nat → List Item → List (Nat × Item)
  | _, _, [] => []
  | s, i, it :: rest =>
    recordVisits s.log.length i 0 C.transforms it ++
      serialVisits (applyResult C E s it (chainApply C.transforms s.log.length i it.record)).1 (i + 1) rest

/-- The transforms that `writeBatch` gives the records of a batch to. -/
def chainVisits (s : St) (batch : List Item) : List (Nat × Item) :=
  let accepted := batch.filter (·.record.rejection.isNone)
  let s := (rejectRecords C E s batch).1
  if hasBatchTransform C then batchVisits s.log.length 0 C.transforms accepted
  else if canParallelizeRecordTransforms C && decide (1 < accepted.length) then
    (accepted.mapIdx fun i it => recordVisits s.log.length i 0 C.transforms it).flatten
  else serialVisits C E s 0 accepted

/-! ## The EOF branch -/

def withTransforms (chain : List FlushTransform) : Cfg := { C with transforms := chain.map (·.transform) }

/-- `forceFlushAndCheckpoint`. -/
def lastFlush (runCtx : Ctx) (s : St) (batch : List Record) : St :=
  let s := if batch = [] then s else step C E runCtx s (.lastBatch batch)
  step C E runCtx s .final

/-- What `FlushChain` returns is written like a batch; after an error it is dropped. -/
def writeFlushed (runCtx : Ctx) (chain : List FlushTransform) (s : St) : St :=
  match flushChain chain with
  | (flushed, none) =>
    if flushed = [] then s else step (withTransforms C chain) E runCtx s (.flushed (flushed.map (·.1)))
  | (_, some _) => s

def endOfStream (runCtx : Ctx) (chain : List FlushTransform) (s : St) (batch : List Record) : St :=
  writeFlushed C E runCtx chain (lastFlush (withTransforms C chain) E runCtx s batch)

/-- The transforms to which `writeFlushed` gives records. -/
def flushVisits (chain : List FlushTransform) (s : St) : List (Nat × Item) :=
  match flushChain chain with
  | (flushed, none) =>
    let (s, batch) := enter s (.flushed (flushed.map (·.1)))
    if flushed = [] then [] else chainVisits (withTransforms C chain) E s batch
  | (_, some _) => []

/-- The record is given to the sink or the DLQ. -/
def Event.Reaches (r : Record) : Event → Prop
  | .sinkWrite its _ => ∃ it ∈ its, it.record = r
  | .dlq it _ _ => it.record = r
  | _ => False

/-- Each record a `Flusher` returned comes to the transform after it, and to no transform that follows none of the
record's producers; after the last transform it comes to the sink or the DLQ. -/
structure Follows (chain : List FlushTransform) (visits : List (Nat × Item)) (events : List Event) : Prop where
  next : ∀ k r, (k, r) ∈ returned 0 chain → k + 1 < chain.length → ∃ it, (k + 1, it) ∈ visits ∧ it.record = r.1
  only : ∀ k r, (k, r) ∈ returned 0 chain → ∀ j it, (j, it) ∈ visits → it.record = r.1 →
    ∃ k', k' < j ∧ (k', r) ∈ returned 0 chain
  last : ∀ k r, (k, r) ∈ returned 0 chain → k + 1 = chain.length → ∃ e ∈ events, Event.Reaches r.1 e

/-- The EOF branch gives every flushed record to the transforms behind its producer. -/
def FlushFollows (runCtx : Ctx) (chain : List FlushTransform) (s : St) (batch : List Record) : Prop :=
  let before := lastFlush (withTransforms C chain) E runCtx s batch
  Follows chain (flushVisits C E chain before) (added before.log (endOfStream C E runCtx chain s batch).log)

/-! ## The chain is entered at its first transform -/

variable {k t : Nat} {tc : List Transform}

theorem mem_recordVisits {i : Nat} (it : Item) (h : tc ≠ []) :
    (k, it) ∈ recordVisits t i k tc it := by
  cases tc with
  | nil => exact absurd rfl h
  | cons tr tc => exact mem_cons_self

variable {it : Item}

theorem mem_batchVisits {recs : List Item} (h : tc ≠ []) (hit : it ∈ recs) :
    (k, it) ∈ batchVisits t k tc recs := by
  cases tc with
  | nil => exact absurd rfl h
  | cons tr tc => exact mem_append_left _ (mem_map_of_mem hit)

variable {C E}

theorem mem_serialVisits (h : C.transforms ≠ []) {recs : List Item} {s : St} {i : Nat} (hit : it ∈ recs) :
    (0, it) ∈ serialVisits C E s i recs := by
  induction recs generalizing s i with
  | nil => cases hit
  | cons it' recs ih =>
    rw [serialVisits, mem_append]
    rcases mem_cons.mp hit with rfl | hit
    · exact .inl (mem_recordVisits it h)
    · exact .inr (ih hit)

/-- An accepted record comes to the first transform, on every path. -/
theorem mem_chainVisits {s : St} {batch : List Item} (h : C.transforms ≠ []) (hit : it ∈ batch)
    (hacc : it.record.rejection = none) : (0, it) ∈ chainVisits C E s batch := by
  have haccepted : it ∈ batch.filter (·.record.rejection.isNone) := mem_filter.mpr ⟨hit, by simp [hacc]⟩
  unfold chainVisits
  simp only
  split
  · exact mem_batchVisits h haccepted
  split
  · obtain ⟨i, hi, rfl⟩ := mem_iff_getElem.mp haccepted
    rw [mem_flatten]
    exact ⟨_, mem_mapIdx.mpr ⟨i, hi, rfl⟩, mem_recordVisits _ h⟩
  · exact mem_serialVisits h haccepted

/-! ## What the `Flusher`s return -/

theorem mem_returned {r : Made} : ∀ {chain : List FlushTransform} {j k : Nat}, (k, r) ∈ returned j chain →
    r ∈ (flushChain chain).1 ∧ k < j + chain.length ∧ ((flushChain chain).2.isSome = true → k + 1 < j + chain.length)
  | [], j, k, h => by simp [returned] at h
  | t :: chain, j, k, h => by
    unfold returned at h
    unfold flushChain
    cases hf : t.flush with
    | none =>
      simp only [hf] at h ⊢
      obtain ⟨hmem, hlt, hlast⟩ := mem_returned h
      refine ⟨hmem, by simp only [length_cons]; omega, fun herr => ?_⟩
      have := hlast herr
      simp only [length_cons]
      omega
    | some res =>
      cases res with
      | error e => simp [hf] at h
      | ok out =>
        simp only [hf] at h ⊢
        rcases mem_append.mp h with h | h
        · obtain ⟨r', hr', heq⟩ := mem_map.mp h
          obtain ⟨rfl, rfl⟩ : j = k ∧ r' = r := by simpa using heq
          refine ⟨mem_append_left _ hr', by simp, fun herr => ?_⟩
          -- the error is one of a later transform
          cases chain with
          | nil => simp [flushChain] at herr
          | cons _ _ => simp
        · obtain ⟨hmem, hlt, hlast⟩ := mem_returned h
          refine ⟨mem_append_right _ hmem, by simp only [length_cons]; omega, fun herr => ?_⟩
          have := hlast herr
          simp only [length_cons]
          omega

variable (C E)

theorem flushFollows_iff (runCtx : Ctx) (chain : List FlushTransform) (s : St) (batch : List Record) :
    FlushFollows C E runCtx chain s batch ↔ returned 0 chain = [] := by
  unfold FlushFollows
  generalize lastFlush (withTransforms C chain) E runCtx s batch = s'
  constructor
  · intro h
    by_contra hne
    obtain ⟨⟨k, r⟩, hkr⟩ := exists_mem_of_ne_nil _ hne
    obtain ⟨hmem, hlt, hlast⟩ := mem_returned hkr
    have hchain : chain ≠ [] := by
      rintro rfl
      simp [returned] at hkr
    cases herr : (flushChain chain).2 with
    | some e =>
      -- the records are dropped, and the producer was not the last transform
      have hnext := hlast (by simp [herr])
      obtain ⟨it, hvisit, -⟩ := h.next k r hkr (by omega)
      have hnone : flushVisits C E chain s' = [] := by
        unfold flushVisits
        rw [show flushChain chain = ((flushChain chain).1, some e) from Prod.ext rfl herr]
      rw [hnone] at hvisit
      simp at hvisit
    | none =>
      have hflush : flushChain chain = ((flushChain chain).1, none) := Prod.ext rfl herr
      have hvisit : (0, (⟨0, r.1⟩ : Item)) ∈ flushVisits C E chain s' := by
        unfold flushVisits
        rw [hflush]
        simp only [ne_nil_of_mem hmem]
        refine mem_chainVisits ?_ ?_ r.2
        · simpa [withTransforms] using hchain
        · exact mem_map.mpr ⟨r.1, mem_map_of_mem hmem, rfl⟩
      obtain ⟨k', hk', -⟩ := h.only k r hkr 0 _ hvisit rfl
      omega
  · intro hnil
    exact ⟨fun k r hkr => absurd hkr (by simp [hnil]), fun k r hkr => absurd hkr (by simp [hnil]),
      fun k r hkr => absurd hkr (by simp [hnil])⟩

end

/-! ## A window at the end of the stream -/

section

variable {F : Type} (A : Arith F) (W : Config) (order : Order F) (now later : Int)
  (w : State F)

theorem flushAll_made : ∀ row ∈ (flushAll A W order now w).1, row.record.rejection = none := by
  intro row hrow
  obtain ⟨e, -, rfl⟩ := mem_map.mp hrow
  rfl

/-- What the window makes of its own records after a `Flush` at the time `now`, which is their timestamp. -/
def comeBack (its : List Item) : List Row × State F :=
  emitClosed A W order later
    (accumulateAll A W (fun _ => later) 0 (flushAll A W order now w).2
      (its.map fun it => { it with timestamp := some now }))

/-- A window with the state `w` when the stream ends: its `Flush`, and the `ApplyBatch` that comes after it. -/
def windowTransform : FlushTransform where
  transform :=
    { apply := fun _ _ _ => .error .filtered
      applyBatch := some (Partition.windowApplyBatch fun _ its => .ok ((comeBack A W order now later w its).1.map (·.record)))
      stateful := true }
  flush := some (.ok ((flushAll A W order now w).1.pmap (fun row h => ⟨row.record, h⟩)
    (flushAll_made A W order now w)))

variable {A W order now later w}

/-- They are in the current window, which is not emitted. -/
theorem accumulated_now {n : Nat → Int} : ∀ {xs : List Arrival} {i : Nat} {w : State F},
    (∀ x ∈ xs, x.timestamp = some now) → (∀ e ∈ w.buffer, e.windowStart = windowStart W now) →
      ∀ e ∈ (accumulateAll A W n i w xs).buffer, e.windowStart = windowStart W now
  | [], _, _, _, h => h
  | x :: xs, i, w, hx, h => by
    rw [accumulateAll]
    refine accumulated_now (fun x' hx' => hx x' (mem_cons_of_mem _ hx')) fun e he => ?_
    unfold accumulate at he
    split at he
    · exact h e he
    · rcases mem_addTo he with hws | he
      · rw [hws, hx x mem_cons_self]
        rfl
      · exact h e he

theorem comeBack_rows (h : windowStart W later = windowStart W now) (its : List Item) :
    (comeBack A W order now later w its).1 = [] := by
  unfold comeBack
  rw [emitClosed, map_eq_nil_iff, eq_nil_iff_forall_not_mem]
  intro e he
  obtain ⟨hmem, hdue⟩ := mem_closed.mp he
  have hws : e.windowStart = windowStart W now := by
    refine accumulated_now (fun x hx => ?_) (fun e he => ?_) e hmem
    · obtain ⟨it, -, rfl⟩ := mem_map.mp hx
      rfl
    · simp [flushAll] at he
  have hlt := (due_iff.mp hdue).1
  omega

variable (A W order w)

theorem window_batch (h : windowStart W later = windowStart W now) (t : Nat) (its : List Item) :
    chainApplyBatch [(windowTransform A W order now later w).transform] t its = .ok [] [] := by
  have hempty : (Partition.windowApplyBatch
      (fun _ its => .ok ((comeBack A W order now later w its).1.map (·.record))) t its) = ([], none) := by
    unfold Partition.windowApplyBatch
    split
    · rfl
    · simp [comeBack_rows h]
  simp [chainApplyBatch, chainApplyBatchLoop, windowTransform, hempty]

theorem rejectRecords_made (C : Cfg) (E : Env) (s : St) : ∀ recs : List Made,
    rejectRecords C E s (recs.map fun r => ⟨0, r.1⟩) = (s, true)
  | [] => rfl
  | r :: recs => by
    rw [map_cons, rejectRecords, r.2]
    exact rejectRecords_made C E s recs

theorem filter_made (recs : List Made) :
    (recs.map fun r => (⟨0, r.1⟩ : Item)).filter (·.record.rejection.isNone) = recs.map fun r => ⟨0, r.1⟩ := by
  rw [filter_eq_self]
  intro it hit
  obtain ⟨r, -, rfl⟩ := mem_map.mp hit
  simp [r.2]

/-- A batch of which the chain makes nothing is not written, and is nobody's failure. -/
theorem writeBatch_nothing (C : Cfg) (E : Env) (runCtx : Ctx) (s : St) {recs : List Made} (hne : recs ≠ [])
    (hbatch : hasBatchTransform C = true)
    (hout : ∀ t its, chainApplyBatch C.transforms t its = .ok [] []) :
    writeBatch C E runCtx s (recs.map fun r => ⟨0, r.1⟩) =
      routeAll s (recs.map fun r => ⟨0, r.1⟩) (.batched [] []) := by
  have htransform : ∀ safe, transformBatch C E s (recs.map fun r => ⟨0, r.1⟩) safe =
      (routeAll s (recs.map fun r => ⟨0, r.1⟩) (.batched [] []),
        some { batchTransformZeroOutput := true, checkpointBoundarySafe := safe }) := by
    intro safe
    have hitems : (recs.map fun r => (⟨0, r.1⟩ : Item)) ≠ [] := map_eq_nil_iff.not.mpr hne
    rw [transformBatch, if_neg hitems, if_pos hbatch, hout]
    simp [handleFailedRecords]
  unfold writeBatch prepareBatch
  simp only [rejectRecords_made, filter_made, htransform]
  unfold gateTransformed
  cases C.identityRequired <;> simp [identityGate, zeroSurvivorSaves, hbatch]

/-- **A window swallows its own aggregates**: as long as the window of the flush is the current one, what follows
`Flush` reaches neither the sink nor the DLQ. -/
theorem window_swallows (h : windowStart W later = windowStart W now) (C : Cfg) (E : Env) (runCtx : Ctx)
    (s : St) : ∀ e ∈ added s.log (writeFlushed C E runCtx [windowTransform A W order now later w] s).log, ∀ r,
      ¬ Event.Reaches r e := by
  unfold writeFlushed
  split
  · rename_i flushed hflush
    split
    · simp [added]
    · rename_i hne
      have hbatch : hasBatchTransform (withTransforms C [windowTransform A W order now later w]) = true := by
        simp [hasBatchTransform, withTransforms, windowTransform]
      have hstep := writeBatch_nothing (withTransforms C [windowTransform A W order now later w]) E .background
        { s.emit .call with uncheckpointedBatches := 10 } hne hbatch (window_batch A W order w h)
      simp only [step, enter, map_map, Function.comp_def, hstep]
      have hlog : (routeAll { s.emit .call with uncheckpointedBatches := 10 } (flushed.map fun r => ⟨0, r.1⟩)
          (.batched [] [])).log =
            s.log ++ (.call :: (flushed.map fun r => (⟨0, r.1⟩ : Item)).map (Event.routed · (.batched [] []))) := by
        simp [routeAll, St.emit]
      rw [hlog, added_append]
      intro e he r
      rcases mem_cons.mp he with rfl | he
      · exact id
      · obtain ⟨it, -, rfl⟩ := mem_map.mp he
        exact id
  · simp [added]

end

/-! ## The graph -/

/-- Each record left in a node's transform comes to the nodes whose edges take it, once the channel is closed. -/
def DagFollows (C : Orchestrator.Cfg) (E : Orchestrator.Env) (runCtx : Ctx) (s : Orchestrator.St)
    (left : List (String × Record)) : Prop :=
  ∀ p ∈ left, ∀ e ∈ Orchestrator.takenEdges C p.1 p.2,
    e.target ∈ (Orchestrator.step C E runCtx s .closed).visits.drop s.visits.length

theorem dagFollows_iff (C : Orchestrator.Cfg) (E : Orchestrator.Env) (runCtx : Ctx) (s : Orchestrator.St)
    (left : List (String × Record)) :
    DagFollows C E runCtx s left ↔ ∀ p ∈ left, Orchestrator.takenEdges C p.1 p.2 = [] := by
  have hnone : (Orchestrator.step C E runCtx s .closed).visits.drop s.visits.length = [] := by
    rw [Orchestrator.visits_closed, drop_length]
  unfold DagFollows
  rw [hnone]
  constructor
  · intro h p hp
    rw [eq_nil_iff_forall_not_mem]
    intro e he
    simpa using h p hp e he
  · intro h p hp e he
    rw [h p hp] at he
    simp at he

/-- **At the end of the stream** flushed records follow their producers only if there are none: the runner gives them to
the chain's first transform, or drops them after an error, and the executor leaves them in the transform. A window that
is alone in its chain takes its aggregates in again. -/
theorem flushed_records_follow_iff (runCtx : Ctx) :
    (∀ C E chain s batch, FlushFollows C E runCtx chain s batch ↔ returned 0 chain = []) ∧
      (∀ C E s left, DagFollows C E runCtx s left ↔ ∀ p ∈ left, Orchestrator.takenEdges C p.1 p.2 = []) ∧
        ∀ (F : Type) (A : Arith F) (W : Config) order now later w C E s,
          windowStart W later = windowStart W now →
            ∀ e ∈ added s.log (writeFlushed C E runCtx [windowTransform A W order now later w] s).log, ∀ r,
              ¬ Event.Reaches r e :=
  ⟨fun C E chain s batch => flushFollows_iff C E runCtx chain s batch,
    fun C E s left => dagFollows_iff C E runCtx s left,
    fun _ A W order _ _ w C E s h => window_swallows A W order w h C E runCtx s⟩

/-- A minute's count is flushed at its end. -/
def lastMinute : FlushTransform :=
  windowTransform ints minutes asListed (unix 70) (unix 70)
    { buffer := [{ windowStart := 60, groupKey := "_all", state := { sum := 0, avgSum := 0, count := 3 } }] }

/-- The window's count goes to the window again, which counts it: nothing is written, and no record is a dead letter. -/
theorem flushed_aggregate_swallowed :
    (returned 0 [lastMinute]).length = 1 ∧
      (endOfStream {} {} .background [lastMinute] {} []).log.all
        (fun | .sinkWrite _ _ => false | .dlq _ _ _ => false | _ => true) = true ∧
      ¬ FlushFollows {} {} .background [lastMinute] {} [] := by
  have hlen : (returned 0 [lastMinute]).length = 1 := by decide +kernel
  refine ⟨hlen, by decide +kernel, fun h => ?_⟩
  have hnil := (flushFollows_iff {} {} .background [lastMinute] {} []).mp h
  simp [hnil] at hlen

end OpenEtl.Pipeline
