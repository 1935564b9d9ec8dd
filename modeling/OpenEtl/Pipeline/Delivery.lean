import OpenEtl.Lib.Trace
import OpenEtl.Pipeline.Runner

/-!
# What a batch commit delivers

One lemma per stage of `writeBatch`: which events it adds (`Sent`: none of them a checkpoint save, the
records sent to the DLQ in `D` and those written to the sink in `W`; and the checkpoint fence is never
lifted) and, unless the fence is up afterwards, where each record it was given has gone. Records still
on their way to the sink are carried as the list `outs` of `Covered`.
-/

namespace OpenEtl.Pipeline

open Storage (Ctx)
open List Trace

/-! ## Delivery, read off the log -/

/-- What a call of `Sink.Write` acknowledged: all of it, or, for a `PartialBatchError`, the records it
does not list. An error without a usable listing acknowledges nothing. -/
def Acked (its : List Item) (res : WriteResult) (it : Item) : Prop :=
  match res.err with
  | none => it ∈ its
  | some e => ∃ p, e.partialBatch = some p ∧ p.failedRecordIndices ≠ [] ∧
      (∀ idx ∈ p.failedRecordIndices, (recordAt its idx).isSome) ∧
      ∃ i : Nat, its[i]? = some it ∧ (i : Int) ∉ p.failedRecordIndices

/-- Acknowledged by the sink, or durable in the DLQ. -/
def Delivered (log : List Event) (it : Item) : Prop :=
  (∃ its res, .sinkWrite its res ∈ log ∧ Acked its res it) ∨ ∃ cause, .dlq it cause none ∈ log

/-- A record reached its end, except for what is still among `outs`. -/
def Covered (log : List Event) (outs : List Item) (it : Item) : Prop :=
  ∃ fate, .routed it fate ∈ log ∧
    match fate with
    | .rejected | .failed => Delivered log it
    | .filtered => True
    | .output r => r ∈ outs ∨ Delivered log r
    | .batched os fs => ∀ r ∈ os ++ fs, r ∈ outs ∨ Delivered log r

/-- Source record number `n` (itself or what the transforms made of it) is acknowledged by the sink or
in the DLQ, or it was filtered, or consumed by a batch transform. -/
def Settled (log : List Event) (n : Nat) : Prop := ∃ it : Item, it.seq = n ∧ Covered log [] it

variable {log log' : List Event} {it : Item}

theorem Delivered.mono (hsub : log ⊆ log') : Delivered log it → Delivered log' it := by
  rintro (⟨its, res, hm, ha⟩ | ⟨c, hm⟩)
  · exact .inl ⟨its, res, hsub hm, ha⟩
  · exact .inr ⟨c, hsub hm⟩

theorem Covered.mono {outs outs' : List Item} (hsub : log ⊆ log')
    (houts : ∀ r ∈ outs, r ∈ outs' ∨ Delivered log' r) : Covered log outs it → Covered log' outs' it := by
  rintro ⟨fate, hm, hf⟩
  have lift : ∀ r, r ∈ outs ∨ Delivered log r → r ∈ outs' ∨ Delivered log' r := by
    rintro r (hr | hr)
    · exact houts r hr
    · exact .inr (hr.mono hsub)
  refine ⟨fate, hsub hm, ?_⟩
  cases fate with
  | rejected => exact Delivered.mono hsub hf
  | failed => exact Delivered.mono hsub hf
  | filtered => trivial
  | output r => exact lift r hf
  | batched os fs => exact fun r hr => lift r (hf r hr)

theorem Settled.mono {n : Nat} (hsub : log ⊆ log') : Settled log n → Settled log' n := by
  rintro ⟨it, hn, hc⟩
  exact ⟨it, hn, hc.mono hsub (by simp)⟩

/-! ## What the stages do not change -/

def Event.isCheckpoint : Event → Bool
  | .save .. | .ack .. => true
  | _ => false

/-- Writes to the DLQ are of records in `D`, writes to the sink of records in `W`. -/
def Event.Goes (D W : Item → Prop) : Event → Prop
  | .dlq it _ _ => D it
  | .sinkWrite its _ => ∀ it ∈ its, W it
  | _ => True

/-- `s'` comes after `s` without a checkpoint save in between. -/
structure Sent (D W : Item → Prop) (s s' : St) : Prop where
  log : Grew (fun e => e.isCheckpoint = false ∧ e.Goes D W) s.log s'.log
  blocked : s.checkpointBlocked = true → s'.checkpointBlocked = true
  processed : s'.pendingCheckpointProcessed = s.pendingCheckpointProcessed
  committed : s'.pendingCheckpointCommitted = s.pendingCheckpointCommitted
  handed : s'.handed = s.handed

/-- The same, whatever was sent where. -/
abbrev Ext : St → St → Prop := Sent (fun _ => True) fun _ => True

section

variable {D W : Item → Prop} {s s' s'' : St}

theorem Sent.refl (s : St) : Sent D W s s := ⟨Grew.refl _ _, id, rfl, rfl, rfl⟩

section

variable (h : Sent D W s s')

include h

theorem Sent.trans (h' : Sent D W s' s'') : Sent D W s s'' :=
  ⟨h.log.trans h'.log, h'.blocked ∘ h.blocked, h'.processed.trans h.processed,
    h'.committed.trans h.committed, h'.handed.trans h.handed⟩

theorem Sent.log_grows : s.log <+: s'.log := h.log.grows

theorem Sent.subset : s.log ⊆ s'.log := h.log_grows.subset

theorem Sent.quiet : Grew (fun e => e.isCheckpoint = false) s.log s'.log :=
  h.log.mono fun _ he => he.1

end

theorem Sent.emit (s : St) {e : Event} (he : e.isCheckpoint = false ∧ e.Goes D W) : Sent D W s (s.emit e) :=
  ⟨Grew.snoc s.log he, id, rfl, rfl, rfl⟩

theorem call_ext (s : St) : Ext s (s.emit .call) := Sent.emit s ⟨rfl, trivial⟩

/-- If the fence is down after a stage, it was down before. -/
theorem Sent.unblocked (h : Sent D W s s') (hb : s'.checkpointBlocked = false) : s.checkpointBlocked = false := by
  cases hs : s.checkpointBlocked with
  | false => rfl
  | true => rw [h.blocked hs] at hb; exact hb

end

section

variable (C : Cfg) (E : Env) {D W : Item → Prop}

/-- Failed records are durable: the fence is down, or the DLQ takes whatever it is given. -/
def Durable (s : St) : Prop := s.checkpointBlocked = false ∨ C.hasDLQ = true ∧ ∀ n it, E.dlq n it = none

theorem Sent.durable {s s' : St} (h : Sent D W s s') : Durable C E s' → Durable C E s := Or.imp_left h.unblocked

/-! ## Failed records -/

variable {it : Item}

theorem handleFailedRecord_sent (s : St) (cause : Cause) (hit : D it) :
    Sent D W s (handleFailedRecord C E s it cause).1 := by
  unfold handleFailedRecord
  simp only
  split
  · split
    · exact ⟨Grew.snoc s.log ⟨rfl, hit⟩, fun _ => rfl, rfl, rfl, rfl⟩
    · exact ⟨Grew.snoc s.log ⟨rfl, hit⟩, id, rfl, rfl, rfl⟩
  · exact ⟨Grew.snoc s.log ⟨rfl, trivial⟩, fun _ => rfl, rfl, rfl, rfl⟩

theorem handleFailedRecord_ext (s : St) (it : Item) (cause : Cause) : Ext s (handleFailedRecord C E s it cause).1 :=
  handleFailedRecord_sent C E s cause trivial

/-- Unless it raises the fence, `handleFailedRecord` leaves the record in the DLQ. -/
theorem handleFailedRecord_inDLQ (s : St) (it : Item) (cause : Cause)
    (hb : Durable C E (handleFailedRecord C E s it cause).1) :
    .dlq it cause none ∈ (handleFailedRecord C E s it cause).1.log := by
  unfold handleFailedRecord at hb ⊢
  by_cases hd : C.hasDLQ = true
  · rw [if_pos hd] at hb ⊢
    cases herr : E.dlq s.log.length it with
    | none => simp [St.emit]
    | some e =>
      rcases hb with hb | ⟨-, hb⟩
      · simp [herr, blockCheckpoint] at hb
      · simp [hb] at herr
  · rw [if_neg hd] at hb
    rcases hb with hb | ⟨hb, -⟩
    · simp [blockCheckpoint] at hb
    · exact absurd hb hd

theorem handleFailedRecord_delivered (s : St) (it : Item) (cause : Cause)
    (hb : Durable C E (handleFailedRecord C E s it cause).1) :
    Delivered (handleFailedRecord C E s it cause).1.log it :=
  .inr ⟨cause, handleFailedRecord_inDLQ C E s it cause hb⟩

theorem handleFailedRecords_sent : ∀ (l : List (Item × Cause)) (s : St), (∀ p ∈ l, D p.1) →
    Sent D W s (handleFailedRecords C E s l).1
  | [], s, _ => .refl s
  | (_, cause) :: rest, s, h =>
    (handleFailedRecord_sent C E s cause (h _ mem_cons_self)).trans
      (handleFailedRecords_sent rest _ fun p hp => h p (mem_cons_of_mem _ hp))

/-- The same without an account of where the records go. -/
theorem handleFailedRecords_ext (l : List (Item × Cause)) (s : St) : Ext s (handleFailedRecords C E s l).1 :=
  handleFailedRecords_sent C E l s fun _ _ => trivial

theorem handleFailedRecords_delivered : ∀ (l : List (Item × Cause)) (s : St),
    Durable C E (handleFailedRecords C E s l).1 →
      ∀ p ∈ l, Delivered (handleFailedRecords C E s l).1.log p.1
  | [], _, _, _, hp => by simp at hp
  | (it, cause) :: rest, s, hb, p, hp => by
    have hext := handleFailedRecords_ext C E rest (handleFailedRecord C E s it cause).1
    rcases mem_cons.mp hp with rfl | hp
    · exact (handleFailedRecord_delivered C E s it cause (hext.durable C E hb)).mono hext.subset
    · exact handleFailedRecords_delivered rest _ hb p hp

/-- Rejected records end in the DLQ. -/
theorem rejectRecords_spec : ∀ (batch : List Item) (s : St), (∀ it ∈ batch, it.record.rejection ≠ none → D it) →
    Sent D W s (rejectRecords C E s batch).1 ∧ ((rejectRecords C E s batch).1.checkpointBlocked = false →
      ∀ it ∈ batch, it.record.rejection ≠ none → .routed it .rejected ∈ (rejectRecords C E s batch).1.log ∧
        ∃ cause, .dlq it cause none ∈ (rejectRecords C E s batch).1.log)
  | [], s, _ => ⟨.refl s, by simp⟩
  | it :: rest, s, h => by
    have hrest : ∀ it ∈ rest, it.record.rejection ≠ none → D it := fun x hx => h x (mem_cons_of_mem _ hx)
    unfold rejectRecords
    split
    · rename_i hnone
      obtain ⟨hsent, hdlq⟩ := rejectRecords_spec rest s hrest
      exact ⟨hsent, fun hb => forall_mem_cons.mpr ⟨absurd hnone, hdlq hb⟩⟩
    · rename_i rej hrej
      have hit : D it := h it mem_cons_self (by simp [hrej])
      have hone : Sent D W _ _ := handleFailedRecord_sent C E (s.emit (.routed it .rejected))
        (sourceRecordRejectionError rej) hit
      obtain ⟨hsent, hdlq⟩ := rejectRecords_spec rest (handleFailedRecord C E (s.emit (.routed it .rejected)) it
        (sourceRecordRejectionError rej)).1 hrest
      refine ⟨((Sent.emit s (e := .routed it .rejected) ⟨rfl, trivial⟩).trans hone).trans hsent,
        fun hb => forall_mem_cons.mpr ⟨fun _ => ?_, hdlq hb⟩⟩
      exact ⟨hsent.subset (hone.subset (by simp [St.emit])), _,
        hsent.subset (handleFailedRecord_inDLQ C E _ it _ (.inl (hsent.unblocked hb)))⟩

theorem rejectRecords_inDLQ (batch : List Item) (s : St) (hb : (rejectRecords C E s batch).1.checkpointBlocked = false) :
    ∀ it ∈ batch, it.record.rejection ≠ none → .routed it .rejected ∈ (rejectRecords C E s batch).1.log ∧
      ∃ cause, .dlq it cause none ∈ (rejectRecords C E s batch).1.log :=
  (rejectRecords_spec (D := fun _ => True) (W := fun _ => True) C E batch s fun _ _ _ => trivial).2 hb

/-! ## Transforms -/

/-- A record that failed belongs to `D`, an output to `W`. -/
def ResultIn (D W : Item → Prop) (it : Item) : Except TransformErr Record → Prop
  | .ok r => W { it with record := r }
  | .error .filtered => True
  | .error (.failed _) => D it

theorem resultIn_true (it : Item) (res : Except TransformErr Record) :
    ResultIn (fun _ => True) (fun _ => True) it res := by
  rcases res with (_ | e) | r <;> trivial

theorem applyResult_sent (s : St) {res : Except TransformErr Record} (h : ResultIn D W it res) :
    Sent D W s (applyResult C E s it res).1 ∧ ∀ x ∈ (applyResult C E s it res).2.transformed, W x := by
  unfold applyResult
  rcases res with (_ | e) | r
  · exact ⟨Sent.emit s ⟨rfl, trivial⟩, by simp⟩
  · exact ⟨(Sent.emit s (e := .routed it .failed) ⟨rfl, trivial⟩).trans (handleFailedRecord_sent C E _ e h), by simp⟩
  · refine ⟨Sent.emit s ⟨rfl, trivial⟩, fun x hx => ?_⟩
    obtain rfl := mem_singleton.mp hx
    exact h

theorem applyResult_covered (s : St) (it : Item) (res : Except TransformErr Record)
    (hb : Durable C E (applyResult C E s it res).1) :
    Covered (applyResult C E s it res).1.log (applyResult C E s it res).2.transformed it := by
  unfold applyResult at hb ⊢
  split at hb
  · exact ⟨.filtered, by simp [St.emit], trivial⟩
  · refine ⟨.failed, (handleFailedRecord_ext C E _ it _).subset (by simp [St.emit]), ?_⟩
    exact handleFailedRecord_delivered C E _ it _ hb
  · rename_i r
    exact ⟨.output { it with record := r }, by simp [St.emit], .inl (by simp)⟩

theorem enterResults_sent : ∀ (l : List (Item × Except TransformErr Record)) (s : St),
    (∀ p ∈ l, ResultIn D W p.1 p.2) →
      Sent D W s (enterResults C E s l).1 ∧ ∀ x ∈ (enterResults C E s l).2.transformed, W x
  | [], s, _ => ⟨.refl s, by simp [enterResults]⟩
  | (it, res) :: rest, s, h => by
    obtain ⟨hlog, hout⟩ := applyResult_sent C E s (h (it, res) mem_cons_self)
    obtain ⟨hlog', hout'⟩ := enterResults_sent rest (applyResult C E s it res).1
      fun p hp => h p (mem_cons_of_mem _ hp)
    refine ⟨hlog.trans hlog', fun x hx => ?_⟩
    rcases mem_append.mp hx with hx | hx
    · exact hout x hx
    · exact hout' x hx

/-- What entering a result does stays so while the rest is entered. -/
theorem enterResults_rule {Q : Item × Except TransformErr Record → List Event → List Item → Prop}
    (hmono : ∀ {p log log' out out'}, log ⊆ log' → out ⊆ out' → Q p log out → Q p log' out')
    (hone : ∀ s it res, Durable C E (applyResult C E s it res).1 →
      Q (it, res) (applyResult C E s it res).1.log (applyResult C E s it res).2.transformed) :
    ∀ (l : List (Item × Except TransformErr Record)) (s : St), Durable C E (enterResults C E s l).1 →
      ∀ p ∈ l, Q p (enterResults C E s l).1.log (enterResults C E s l).2.transformed
  | [], _, _, _, hp => by simp at hp
  | (it, res) :: rest, s, hb, p, hp => by
    have hext : Ext _ _ := (enterResults_sent C E rest (applyResult C E s it res).1 fun _ _ => resultIn_true _ _).1
    rcases mem_cons.mp hp with rfl | hp
    · exact hmono hext.subset (subset_append_left _ _) (hone s it res (hext.durable C E hb))
    · have ih := enterResults_rule (Q := Q) hmono hone rest _ hb p hp
      exact hmono (List.Subset.refl _) (subset_append_right _ _) ih

theorem enterResults_covered (l : List (Item × Except TransformErr Record)) (s : St)
    (hb : Durable C E (enterResults C E s l).1) :
    ∀ p ∈ l, Covered (enterResults C E s l).1.log (enterResults C E s l).2.transformed p.1 :=
  enterResults_rule C E (Q := fun p log out => Covered log out p.1)
    (fun hsub hout h => h.mono hsub fun _ hr => .inl (hout hr)) (applyResult_covered C E) l s hb

/-- One record after the other: the results of the chain, each at its time, are entered. -/
theorem applyRecordTransformsSerial_eq : ∀ (batch : List Item) (i : Nat) (s : St), ∃ t : Nat → Nat,
    applyRecordTransformsSerial C E s i batch =
      enterResults C E s (batch.mapIdx fun n it => (it, chainApply C.transforms (t n) (i + n) it.record))
  | [], _, _ => ⟨id, rfl⟩
  | it :: rest, i, s => by
    obtain ⟨t, ht⟩ := applyRecordTransformsSerial_eq rest (i + 1)
      (applyResult C E s it (chainApply C.transforms s.log.length i it.record)).1
    refine ⟨fun n => n.casesOn s.log.length t, ?_⟩
    simp only [applyRecordTransformsSerial, ht, mapIdx_cons, enterResults, Nat.add_assoc, Nat.add_comm 1]
    rfl

variable (s : St)

theorem applyRecordTransforms_eq (batch : List Item) : ∃ t : Nat → Nat, applyRecordTransforms C E s batch =
    enterResults C E s (batch.mapIdx fun n it => (it, chainApply C.transforms (t n) n it.record)) := by
  unfold applyRecordTransforms
  split
  · exact ⟨fun _ => s.log.length, rfl⟩
  · simpa only [Nat.zero_add] using applyRecordTransformsSerial_eq C E batch 0 s

variable {batch : List Item}

theorem applyRecordTransforms_sent
    (h : ∀ (n : Nat) (it : Item), batch[n]? = some it → ∀ t, ResultIn D W it (chainApply C.transforms t n it.record)) :
    Sent D W s (applyRecordTransforms C E s batch).1 ∧
      ∀ x ∈ (applyRecordTransforms C E s batch).2.transformed, W x := by
  obtain ⟨t, ht⟩ := applyRecordTransforms_eq C E s batch
  rw [ht]
  refine enterResults_sent C E _ s fun p hp => ?_
  obtain ⟨i, hi, rfl⟩ := mem_mapIdx.mp hp
  exact h i _ (getElem?_eq_getElem hi) _

theorem applyRecordTransforms_covered (batch : List Item)
    (hb : (applyRecordTransforms C E s batch).1.checkpointBlocked = false) :
    ∀ it ∈ batch, Covered (applyRecordTransforms C E s batch).1.log
      (applyRecordTransforms C E s batch).2.transformed it := by
  intro it hit
  obtain ⟨t, ht⟩ := applyRecordTransforms_eq C E s batch
  rw [ht] at hb ⊢
  obtain ⟨i, hi, rfl⟩ := mem_iff_getElem.mp hit
  exact enterResults_covered C E _ s (.inl hb) _ (mem_mapIdx.mpr ⟨i, hi, rfl⟩)

theorem routeAll_sent (batch : List Item) (fate : Fate) : Sent D W s (routeAll s batch fate) :=
  ⟨⟨_, rfl, by simp [Event.isCheckpoint, Event.Goes]⟩, id, rfl, rfl, rfl⟩

theorem mem_routeAll (fate : Fate) (hit : it ∈ batch) :
    Event.routed it fate ∈ (routeAll s batch fate).log := by
  simp [routeAll, hit]

/-- What the transform stage may write to the DLQ or hand on. -/
structure StageIn (D W : Item → Prop) (batch : List Item) : Prop where
  record : hasBatchTransform C = false → ∀ (n : Nat) (it : Item), batch[n]? = some it →
    ∀ t, ResultIn D W it (chainApply C.transforms t n it.record)
  failed : hasBatchTransform C = true → ∀ t e, chainApplyBatch C.transforms t batch = .failed e → ∀ it ∈ batch, D it
  ok : hasBatchTransform C = true → ∀ t out fs, chainApplyBatch C.transforms t batch = .ok out fs →
    (∀ it ∈ out, W it) ∧ ∀ p ∈ fs, D p.1

theorem stageIn_true (batch : List Item) : StageIn C (fun _ => True) (fun _ => True) batch :=
  ⟨fun _ _ _ _ _ => resultIn_true _ _, fun _ _ _ _ _ _ => trivial, fun _ _ _ _ _ =>
    ⟨fun _ _ => trivial, fun _ _ => trivial⟩⟩

/-- What `transformBatch` hands on, nothing when it ends the batch. -/
def handedOn (r : St × Option Stage) : List Item :=
  match r.2 with
  | none => []
  | some st => st.transformed

theorem transformBatch_sent (s : St) (safe : Bool) (h : StageIn C D W batch) :
    Sent D W s (transformBatch C E s batch safe).1 ∧ ∀ x ∈ handedOn (transformBatch C E s batch safe), W x := by
  unfold transformBatch
  by_cases hne : batch = []
  · rw [if_pos hne]
    exact ⟨.refl s, by simp [handedOn]⟩
  rw [if_neg hne]
  cases hbt : hasBatchTransform C with
  | true =>
    cases hres : chainApplyBatch C.transforms s.log.length batch with
    | failed e =>
      refine ⟨(routeAll_sent s batch .failed).trans (handleFailedRecords_sent C E _ _ fun p hp => ?_), by simp [handedOn]⟩
      obtain ⟨it, hit, rfl⟩ := mem_map.mp hp
      exact h.failed hbt _ e hres it hit
    | ok out fs =>
      obtain ⟨hout, hfs⟩ := h.ok hbt _ out fs hres
      exact ⟨(routeAll_sent s batch _).trans (handleFailedRecords_sent C E fs _ hfs), hout⟩
  | false =>
    exact applyRecordTransforms_sent C E s (h.record hbt)

theorem transformBatch_covered (s : St) (batch : List Item) (safe : Bool)
    (hb : (transformBatch C E s batch safe).1.checkpointBlocked = false) :
    ∀ it ∈ batch, Covered (transformBatch C E s batch safe).1.log
      (handedOn (transformBatch C E s batch safe)) it := by
  intro it hit
  have hne : batch ≠ [] := ne_nil_of_mem hit
  unfold transformBatch at hb ⊢
  rw [if_neg hne] at hb ⊢
  by_cases hbt : hasBatchTransform C = true
  · rw [if_pos hbt] at hb ⊢
    cases hres : chainApplyBatch C.transforms s.log.length batch with
    | failed e =>
      simp only [hres] at hb ⊢
      have hd := handleFailedRecords_delivered C E _ _ (.inl hb) (it, e) (mem_map.mpr ⟨it, hit, rfl⟩)
      exact ⟨.failed, (handleFailedRecords_ext C E _ _).subset (mem_routeAll s .failed hit), hd⟩
    | ok out failures =>
      simp only [hres] at hb ⊢
      refine ⟨.batched out (failures.map Prod.fst),
        (handleFailedRecords_ext C E _ _).subset (mem_routeAll s _ hit), fun r hr => ?_⟩
      rcases mem_append.mp hr with hr | hr
      · exact .inl hr
      · obtain ⟨p, hp, rfl⟩ := mem_map.mp hr
        exact .inr (handleFailedRecords_delivered C E _ _ (.inl hb) p hp)
  · rw [if_neg hbt] at hb ⊢
    exact applyRecordTransforms_covered C E s batch hb it hit

/-- The identity gate passes a record on or leaves it in the DLQ. -/
theorem identityGate_spec (hWD : ∀ it, W it → D it) : ∀ (l : List Item) (s : St), (∀ it ∈ l, W it) →
    Sent D W s (identityGate C E s l).1 ∧ (∀ x ∈ (identityGate C E s l).2.1, W x) ∧
      (Durable C E (identityGate C E s l).1 →
        ∀ it ∈ l, it ∈ (identityGate C E s l).2.1 ∨ Delivered (identityGate C E s l).1.log it)
  | [], s, _ => ⟨.refl s, by simp [identityGate]⟩
  | it :: rest, s, h => by
    have hrest : ∀ x ∈ rest, W x := fun x hx => h x (mem_cons_of_mem _ hx)
    cases hid : C.identity it.record with
    | none =>
      obtain ⟨hlog, hout, hdel⟩ := identityGate_spec hWD rest s hrest
      simp only [identityGate, hid]
      refine ⟨hlog, forall_mem_cons.mpr ⟨h it mem_cons_self, hout⟩, fun hb => ?_⟩
      exact forall_mem_cons.mpr ⟨.inl mem_cons_self, fun x hx => (hdel hb x hx).imp_left (mem_cons_of_mem _)⟩
    | some cause =>
      obtain ⟨hlog, hout, hdel⟩ := identityGate_spec hWD rest (handleFailedRecord C E s it cause).1 hrest
      simp only [identityGate, hid]
      refine ⟨(handleFailedRecord_sent C E s cause (hWD it (h it mem_cons_self))).trans hlog, hout, fun hb => ?_⟩
      refine forall_mem_cons.mpr ⟨.inr ?_, hdel hb⟩
      exact (handleFailedRecord_delivered C E s it cause (hlog.durable C E hb)).mono hlog.subset

/-! ## The sink write -/

/-- A call of `Sink.Write` for `its` that returned `r` is in the log. -/
def Wrote (E : Env) (log : List Event) (its : List Item) (r : Option Err) : Prop :=
  ∃ n, (E.write n its).err = r ∧ .sinkWrite its (E.write n its) ∈ log

theorem Wrote.mono {E : Env} {log log' : List Event} {its : List Item} {r : Option Err}
    (hsub : log ⊆ log') : Wrote E log its r → Wrote E log' its r := by
  rintro ⟨n, hr, hm⟩
  exact ⟨n, hr, hsub hm⟩

/-- What the caller may conclude from the result: nil, and an error that lists failed records, are
results of a write. -/
def Answered (E : Env) (log : List Event) (its : List Item) (r : Option Err) : Prop :=
  match r with
  | none => Wrote E log its none
  | some e => e.partialBatch ≠ none → Wrote E log its (some e)

theorem writeSink_sent (s : St) (its : List Item) (hits : ∀ it ∈ its, W it) :
    Sent D W s (writeSink C E s its).1 ∧ Answered E (writeSink C E s its).1.log its (writeSink C E s its).2 := by
  unfold writeSink
  split
  · exact ⟨Sent.emit s ⟨rfl, trivial⟩, by simp [Answered]⟩
  · refine ⟨Sent.emit s ⟨rfl, hits⟩, ?_⟩
    have hw : Wrote E (s.emit (.sinkWrite its (E.write s.log.length its))).log its
        (E.write s.log.length its).err := ⟨_, rfl, by simp [St.emit]⟩
    cases hr : (E.write s.log.length its).err with
    | none =>
      simpa only [hr, Answered] using hw
    | some e =>
      simpa only [hr, Answered] using fun _ => hw

/-- `retry.Do` around the write: nil only after a write that returned nil, and an error that lists
failed records is the error of a write. -/
theorem retryWrite_sent (s : St) (its : List Item) (hits : ∀ it ∈ its, W it) :
    Sent D W s (retryWrite C E s its).1 ∧ Answered E (retryWrite C E s its).1.log its (retryWrite C E s its).2 := by
  refine Retry.Do_induction (P := Sent D W s)
    (Q := fun s' r => Sent D W s s' ∧ Answered E s'.log its r) C.retry_pos ?_ ?_ ?_ (.refl s)
  · intro s1 s2 hP hf
    have hw := writeSink_sent (D := D) C E s1 its hits
    rw [hf] at hw
    exact ⟨hP.trans hw.1, hw.2⟩
  · intro s1 s2 e hP hf
    have hw := writeSink_sent (D := D) C E s1 its hits
    rw [hf] at hw
    exact ⟨hP.trans hw.1, hP.trans hw.1, hw.2⟩
  · intro s1 e hP hd
    obtain ⟨ce, -, rfl⟩ := Option.map_eq_some_iff.mp hd
    exact ⟨hP, by simp [Answered]⟩

theorem retryWrite_spec (s : St) (its : List Item) :
    Ext s (retryWrite C E s its).1 ∧ Answered E (retryWrite C E s its).1.log its (retryWrite C E s its).2 :=
  retryWrite_sent C E s its fun _ _ => trivial

theorem partialFailuresLoop_spec (err : Err) (p : PartialBatch) (records : List Item) :
    ∀ (idxs seen : List Int) (fs : List (Item × Cause)),
      partialFailuresLoop err p records idxs seen = some fs →
        (∀ idx ∈ idxs, ∃ it, recordAt records idx = some it ∧ (idx ∉ seen → it ∈ fs.map Prod.fst)) ∧
          ∀ q ∈ fs, q.1 ∈ records
  | [], _, _, h => by
    cases h
    simp
  | x :: rest, seen, fs, h => by
    unfold partialFailuresLoop at h
    cases hx : recordAt records x with
    | none => simp [hx] at h
    | some it =>
      simp only [hx] at h
      by_cases hseen : x ∈ seen
      · rw [if_pos hseen] at h
        obtain ⟨hall, hmem⟩ := partialFailuresLoop_spec err p records rest seen fs h
        exact ⟨forall_mem_cons.mpr ⟨⟨it, hx, absurd hseen⟩, hall⟩, hmem⟩
      · rw [if_neg hseen] at h
        obtain ⟨fs', hfs', rfl⟩ := Option.map_eq_some_iff.mp h
        obtain ⟨hall, hmem⟩ := partialFailuresLoop_spec err p records rest _ fs' hfs'
        have hit : it ∈ records := by
          unfold recordAt at hx
          split at hx
          · simp at hx
          · exact mem_of_getElem? hx
        refine ⟨forall_mem_cons.mpr ⟨⟨it, hx, fun _ => by simp⟩, fun idx hidx => ?_⟩, forall_mem_cons.mpr ⟨hit, hmem⟩⟩
        obtain ⟨it', hit', hmem⟩ := hall idx hidx
        refine ⟨it', hit', fun hn => ?_⟩
        by_cases hxi : idx = x
        · subst hxi
          rw [hx] at hit'
          cases hit'
          simp
        · simpa using .inr (by simpa using hmem (by simp [hxi, hn]))

variable {err : Err} {records : List Item} {fs : List (Item × Cause)}

/-- A usable listing names a record among the failures or the sink acknowledged it. -/
theorem partialBatchFailures_spec (h : partialBatchFailures err records = some fs) :
    fs ≠ [] ∧ err.partialBatch ≠ none ∧ (∀ q ∈ fs, q.1 ∈ records) ∧
      ∀ it ∈ records, it ∈ fs.map Prod.fst ∨ ∀ res : WriteResult, res.err = some err → Acked records res it := by
  unfold partialBatchFailures at h
  cases hp : err.partialBatch with
  | none => simp [hp] at h
  | some p =>
    simp only [hp] at h
    by_cases hne : p.failedRecordIndices = []
    · simp [hne] at h
    rw [if_neg hne] at h
    obtain ⟨hloop, hmem⟩ := partialFailuresLoop_spec err p records _ _ _ h
    refine ⟨?_, by simp, hmem, fun it hit => ?_⟩
    · obtain ⟨idx, hidx⟩ := exists_mem_of_ne_nil _ hne
      obtain ⟨it, -, hf⟩ := hloop idx hidx
      rintro rfl
      simpa using hf (by simp)
    obtain ⟨i, hi⟩ := mem_iff_getElem?.mp hit
    by_cases hmem : (i : Int) ∈ p.failedRecordIndices
    · obtain ⟨it', hit', hf⟩ := hloop i hmem
      have heq : recordAt records (i : Int) = some it := by simp [recordAt, hi]
      rw [heq] at hit'
      cases hit'
      exact .inl (hf (by simp))
    · refine .inr fun res hres => ?_
      simp only [Acked, hres]
      refine ⟨p, hp, hne, fun idx hidx => ?_, i, hi, hmem⟩
      obtain ⟨it', hit', -⟩ := hloop idx hidx
      simp [hit']

/-- Row by row, a record is among the failures or was written with nil. -/
theorem writeRecordsIndividually_spec : ∀ (l : List Item) (s : St), (∀ it ∈ l, W it) →
    Sent D W s (writeRecordsIndividually C E s l).1 ∧ (∀ p ∈ (writeRecordsIndividually C E s l).2.2, p.1 ∈ l) ∧
      ∀ it ∈ l, it ∈ (writeRecordsIndividually C E s l).2.2.map Prod.fst ∨
        Wrote E (writeRecordsIndividually C E s l).1.log [it] none
  | [], s, _ => ⟨.refl s, by simp [writeRecordsIndividually]⟩
  | x :: rest, s, h => by
    have hone : ∀ y ∈ [x], W y := fun y hy => mem_singleton.mp hy ▸ h x mem_cons_self
    obtain ⟨hfirst, hx⟩ := retryWrite_sent (D := D) C E s [x] hone
    obtain ⟨hlog, hmem, hwrote⟩ := writeRecordsIndividually_spec rest (retryWrite C E s [x]).1
      fun y hy => h y (mem_cons_of_mem _ hy)
    have hmem' := fun p hp => mem_cons_of_mem x (hmem p hp)
    unfold writeRecordsIndividually
    cases hr : (retryWrite C E s [x]).2 with
    | none =>
      simp only [hr] at hx ⊢
      exact ⟨hfirst.trans hlog, hmem', forall_mem_cons.mpr ⟨.inr (Wrote.mono hlog.subset hx), hwrote⟩⟩
    | some e =>
      simp only [hr]
      refine ⟨hfirst.trans hlog, forall_mem_cons.mpr ⟨mem_cons_self, hmem'⟩,
        forall_mem_cons.mpr ⟨.inl (by simp), fun it hit => (hwrote it hit).imp_left fun h => ?_⟩⟩
      exact mem_cons_of_mem _ h

theorem writeRecordsIndividually_ext (l : List Item) (s : St) : Ext s (writeRecordsIndividually C E s l).1 :=
  (writeRecordsIndividually_spec C E l s fun _ _ => trivial).1

theorem recordFailure_sent (s : St) : Sent D W s (recordFailure E s) :=
  ⟨⟨[], by simp [recordFailure]⟩, id, rfl, rfl, rfl⟩

theorem addRecordsWritten_sent (s : St) (delta : Nat) : Sent D W s (addRecordsWritten s delta) :=
  ⟨⟨[], by simp [addRecordsWritten]⟩, id, rfl, rfl, rfl⟩

theorem writeFailed_sent (hWD : ∀ it, W it → D it) (s : St) (transformed : List Item) (err : Err)
    (h : ∀ it ∈ transformed, W it) : Sent D W s (writeFailed C E s transformed err) := by
  unfold writeFailed
  refine (recordFailure_sent E s).trans ?_
  cases hp : partialBatchFailures err transformed with
  | some fs =>
    exact (addRecordsWritten_sent _ _).trans
      (handleFailedRecords_sent C E fs _ fun p hp' => hWD _ (h _ ((partialBatchFailures_spec hp).2.2.1 p hp')))
  | none =>
    obtain ⟨hlog, hmem, -⟩ := writeRecordsIndividually_spec C E transformed (recordFailure E s) h
    exact hlog.trans ((addRecordsWritten_sent _ _).trans
      (handleFailedRecords_sent C E _ _ fun p hp' => hWD _ (h _ (hmem p hp'))))

variable (s : St) (transformed : List Item)

theorem writeFailed_ext (err : Err) : Ext s (writeFailed C E s transformed err) :=
  writeFailed_sent C E (fun _ => id) s transformed err fun _ _ => trivial

/-- What `writeFailed` does not hand to `handleFailedRecords` the sink acknowledged. -/
theorem writeFailed_fates (err : Err)
    (hlog : Answered E s.log transformed (some err)) :
    ∃ s1 fs, writeFailed C E s transformed err = (handleFailedRecords C E s1 fs).1 ∧ ∀ it ∈ transformed,
      it ∈ fs.map Prod.fst ∨ ∃ its n, .sinkWrite its (E.write n its) ∈ s1.log ∧ Acked its (E.write n its) it := by
  unfold writeFailed
  cases hp : partialBatchFailures err transformed with
  | some fs =>
    obtain ⟨-, hpart, -, hcov⟩ := partialBatchFailures_spec hp
    obtain ⟨n, hn, hmem⟩ := hlog hpart
    exact ⟨_, fs, rfl, fun it hit => (hcov it hit).imp_right fun ha => ⟨transformed, n, hmem, ha _ hn⟩⟩
  | none =>
    obtain ⟨-, -, hwrote⟩ := writeRecordsIndividually_spec (D := fun _ => True) (W := fun _ => True) C E transformed
      (recordFailure E s) fun _ _ => trivial
    refine ⟨_, _, rfl, fun it hit => (hwrote it hit).imp_right ?_⟩
    rintro ⟨n, hn, hmem⟩
    exact ⟨[it], n, hmem, by simp [Acked, hn]⟩

/-- After a failed write every record is acknowledged or in the DLQ, unless the fence is up. -/
theorem writeFailed_delivered (err : Err)
    (hlog : Answered E s.log transformed (some err)) (hb : Durable C E (writeFailed C E s transformed err)) :
    ∀ it ∈ transformed, Delivered (writeFailed C E s transformed err).log it := by
  intro it hit
  obtain ⟨s1, fs, heq, hfates⟩ := writeFailed_fates C E s transformed err hlog
  rw [heq] at hb ⊢
  rcases hfates it hit with hf | ⟨its, n, hmem, ha⟩
  · obtain ⟨q, hq, rfl⟩ := mem_map.mp hf
    exact handleFailedRecords_delivered C E fs s1 hb q hq
  · exact .inl ⟨its, _, (handleFailedRecords_ext C E fs s1).subset hmem, ha⟩

theorem breakerGate_sent : Sent D W s (breakerGate E s).1 := by
  unfold breakerGate
  split
  · exact .refl s
  · simp only
    split
    · exact ⟨⟨[], by simp⟩, id, rfl, rfl, rfl⟩
    · exact ⟨Grew.snoc s.log ⟨rfl, trivial⟩, id, rfl, rfl, rfl⟩

/-- The write is given up only when the commit context ends during the cooldown. -/
theorem breakerGate_proceeds (hwait : ∀ n, E.waitExpires n = false) : (breakerGate E s).2 = true := by
  unfold breakerGate
  split
  · rfl
  · simp only
    split
    · rfl
    · simp [hwait]

end

end OpenEtl.Pipeline
