import OpenEtl.Pipeline.Delivery

/-!
# What one call of `writeBatch` or `flushPendingCheckpoint` can do

`saveCommittedCheckpoint_cases` and `writeBatch_cases` say it once; the results about whole runs are
proved from them and do not unfold the model again.
-/

namespace OpenEtl.Pipeline

open Storage (Ctx)

section

variable (C : Cfg) (E : Env) {D W : Item → Prop}

/-! ## Saving -/

/-- `s'` is `s` after a call of `checkpointStore.Save` for `processed` and its acknowledgement. -/
structure Saved (ctx : Ctx) (processed : List Item) (s s' : St) (ok : Bool) : Prop where
  nonempty : processed ≠ []
  unblocked : s.checkpointBlocked = false
  log : ∃ err evs, s'.log = s.log ++ .save ctx processed err :: evs ∧ ∀ e ∈ evs, ∃ r, e = .ack processed r
  /-- a save that did not succeed, or was not acknowledged, raises the fence -/
  blocked : s'.checkpointBlocked = !ok
  processed : s'.pendingCheckpointProcessed = s.pendingCheckpointProcessed
  committed : s'.pendingCheckpointCommitted = s.pendingCheckpointCommitted
  handed : s'.handed = s.handed

variable {processed : List Item}

theorem persistCheckpoint_saved (ctx : Ctx) (s : St) (hne : processed ≠ [])
    (hb : s.checkpointBlocked = false) :
    Saved ctx processed s (persistCheckpoint C E ctx s processed).1
      (persistCheckpoint C E ctx s processed).2 := by
  unfold persistCheckpoint
  cases E.save s.log.length with
  | some e => exact ⟨hne, hb, ⟨some e, [], by simp [recordFailure, blockCheckpoint, St.emit]⟩, rfl, rfl, rfl, rfl⟩
  | none =>
    simp only
    split
    · split
      · rename_i e _
        refine ⟨hne, hb, ⟨none, [.ack processed (some e)], ?_, by simp⟩, rfl, rfl, rfl, rfl⟩
        simp [recordFailure, blockCheckpoint, St.emit]
      · refine ⟨hne, hb, ⟨none, [.ack processed none], by simp [St.emit], by simp⟩, ?_, rfl, rfl, rfl⟩
        simpa [St.emit] using hb
    · refine ⟨hne, hb, ⟨none, [], by simp [St.emit]⟩, ?_, rfl, rfl, rfl⟩
      simpa [St.emit] using hb

/-- `saveCommittedCheckpoint` saves, or it returns false and logs nothing. -/
theorem saveCommittedCheckpoint_cases (ctx : Ctx) (s : St) (processed committed : List Item) :
    let r := saveCommittedCheckpoint C E ctx s processed committed
    (Sent D W s r.1 ∧ r.2 = false) ∨ Saved ctx processed s r.1 r.2 := by
  intro r
  simp only [r]
  unfold saveCommittedCheckpoint
  by_cases h1 : (!C.hasStore || processed.isEmpty) = true
  · rw [if_pos h1]
    exact .inl ⟨.refl s, rfl⟩
  rw [if_neg h1]
  by_cases h2 : s.checkpointBlocked = true
  · rw [if_pos h2]
    exact .inl ⟨recordFailure_sent E s, rfl⟩
  rw [if_neg h2]
  by_cases h3 : C.checkpointer = .neither
  · rw [if_pos h3]
    exact .inl ⟨.refl s, rfl⟩
  rw [if_neg h3]
  split
  · exact .inl ⟨⟨⟨[], by simp [recordFailure, blockCheckpoint]⟩, fun _ => rfl, rfl, rfl, rfl⟩, rfl⟩
  · split
    · exact .inl ⟨recordFailure_sent E s, rfl⟩
    · refine .inr (persistCheckpoint_saved C E ctx s ?_ (by simpa using h2))
      intro hnil
      simp [hnil] at h1

/-- `flushPendingCheckpoint` leaves the pending boundary, or saves all of it and, if that worked,
clears it. -/
theorem flushPendingCheckpoint_cases (ctx : Ctx) (force : Bool) (s : St) :
    let s' := flushPendingCheckpoint C E ctx force s
    Sent D W s s' ∨ ∃ s1 ok, Saved ctx s.pendingCheckpointProcessed s s1 ok ∧
      s' = if ok then { s1 with pendingCheckpointProcessed := [], pendingCheckpointCommitted := [] }
        else s1 := by
  intro s'
  simp only [s']
  unfold flushPendingCheckpoint
  by_cases h1 : s.pendingCheckpointProcessed.isEmpty = true
  · rw [if_pos h1]
    exact .inl (.refl s)
  rw [if_neg h1]
  by_cases h2 : (!force && !saveDue C E s) = true
  · rw [if_pos h2]
    exact .inl (.refl s)
  rw [if_neg h2]
  rcases saveCommittedCheckpoint_cases C E ctx s s.pendingCheckpointProcessed
    s.pendingCheckpointCommitted with ⟨hext, hf⟩ | hsaved
  · left
    simp only [hf]
    exact hext
  · exact .inr ⟨_, _, hsaved, rfl⟩

/-! ## Preparing -/

theorem gateTransformed_spec (hWD : ∀ it, W it → D it) (s : St) (st : Stage) (n : Nat) (h : ∀ it ∈ st.transformed, W it) :
    Sent D W s (gateTransformed C E s st n).1 ∧ (∀ x ∈ (gateTransformed C E s st n).2.transformed, W x) ∧
      (Durable C E (gateTransformed C E s st n).1 → ∀ it ∈ st.transformed,
        it ∈ (gateTransformed C E s st n).2.transformed ∨ Delivered (gateTransformed C E s st n).1.log it) := by
  unfold gateTransformed
  split
  · exact identityGate_spec C E hWD st.transformed s h
  · exact ⟨.refl s, h, fun _ _ => .inl⟩

theorem gateTransformed_ext (s : St) (st : Stage) (n : Nat) : Ext s (gateTransformed C E s st n).1 :=
  (gateTransformed_spec C E (fun _ => id) s st n fun _ _ => trivial).1

theorem gateTransformed_delivered (s : St) (st : Stage) (n : Nat) (hb : Durable C E (gateTransformed C E s st n).1) :
    ∀ it ∈ st.transformed, it ∈ (gateTransformed C E s st n).2.transformed ∨
      Delivered (gateTransformed C E s st n).1.log it :=
  (gateTransformed_spec (D := fun _ => True) C E (fun _ => id) s st n fun _ _ => trivial).2.2 hb

/-- The records `writeBatch` is about to write. -/
def survivors (s : St) (batch : List Item) : List Item :=
  match (prepareBatch C E s batch).2 with
  | none => []
  | some p => p.transformed

/-- What the stages before the write send to the DLQ and hand on. -/
theorem prepareBatch_sent (hWD : ∀ it, W it → D it) (s : St) (batch : List Item)
    (hstage : StageIn C D W (batch.filter (·.record.rejection.isNone))) :
    Sent D W (rejectRecords C E s batch).1 (prepareBatch C E s batch).1 ∧ ∀ it ∈ survivors C E s batch, W it := by
  obtain ⟨htrans, hon⟩ := transformBatch_sent C E (rejectRecords C E s batch).1 (rejectRecords C E s batch).2 hstage
  unfold survivors prepareBatch
  simp only
  rcases ht : transformBatch C E (rejectRecords C E s batch).1 (batch.filter (·.record.rejection.isNone))
    (rejectRecords C E s batch).2 with ⟨s1, _ | st⟩
  · rw [ht] at htrans
    exact ⟨htrans, by simp⟩
  · rw [ht] at htrans hon
    obtain ⟨hgate, hvalid, -⟩ := gateTransformed_spec C E hWD s1 st
      (batch.length - (batch.filter (·.record.rejection.isNone)).length) hon
    exact ⟨htrans.trans hgate, hvalid⟩

theorem prepareBatch_extends (s : St) (batch : List Item) : Ext (rejectRecords C E s batch).1 (prepareBatch C E s batch).1 :=
  (prepareBatch_sent C E (fun _ => id) s batch (stageIn_true C _)).1

theorem prepareBatch_ext (s : St) (batch : List Item) : Ext s (prepareBatch C E s batch).1 :=
  (rejectRecords_spec C E batch s fun _ _ _ => trivial).1.trans (prepareBatch_extends C E s batch)

/-- Once a batch is prepared, its records are at their end or among the survivors. -/
theorem prepareBatch_covered (s : St) (batch : List Item)
    (hb : (prepareBatch C E s batch).1.checkpointBlocked = false) :
    ∀ it ∈ batch, Covered (prepareBatch C E s batch).1.log (survivors C E s batch) it := by
  intro it hit
  have hext1 : Ext _ _ := (transformBatch_sent C E (rejectRecords C E s batch).1 (rejectRecords C E s batch).2
    (stageIn_true C (batch.filter (·.record.rejection.isNone)))).1
  have hcovered := transformBatch_covered C E (rejectRecords C E s batch).1
    (batch.filter (·.record.rejection.isNone)) (rejectRecords C E s batch).2
  unfold survivors
  unfold prepareBatch at hb ⊢
  rcases ht : transformBatch C E (rejectRecords C E s batch).1
    (batch.filter (·.record.rejection.isNone)) (rejectRecords C E s batch).2 with ⟨s1, o⟩
  rw [ht] at hext1 hcovered
  -- rejected records were settled first, the others by the transforms
  have key (hbt : s1.checkpointBlocked = false) : Covered s1.log (handedOn (s1, o)) it := by
    cases hr : it.record.rejection with
    | none => exact hcovered hbt it (by simp [hit, hr])
    | some rej =>
      obtain ⟨hrouted, hdlq⟩ := rejectRecords_inDLQ C E batch s (hext1.unblocked hbt) it hit (by simp [hr])
      have hc : Covered (rejectRecords C E s batch).1.log [] it := ⟨.rejected, hrouted, .inr hdlq⟩
      exact hc.mono hext1.subset (by simp)
  cases o with
  | none =>
    simp only [ht] at hb ⊢
    exact key hb
  | some st =>
    simp only [ht] at hb ⊢
    have hg := gateTransformed_ext C E s1 st (batch.length - (batch.filter (·.record.rejection.isNone)).length)
    exact (key (hg.unblocked hb)).mono hg.subset (gateTransformed_delivered C E s1 st _ (.inl hb))

/-! ## Committing -/

theorem recordSuccess_sent (s : St) : Sent D W s (recordSuccess s) :=
  ⟨⟨[], by simp [recordSuccess]⟩, id, rfl, rfl, rfl⟩

theorem writeSucceeded_cases (ctx : Ctx) (s : St) (processed transformed : List Item) (safe : Bool) :
    let s' := writeSucceeded C E ctx s processed transformed safe
    ∃ s1, Sent D W s s1 ∧
      (s' = s1 ∨ s' = appendPending s1 processed transformed ∨
        s' = flushPendingCheckpoint C E ctx true (appendPending s1 processed transformed)) := by
  intro s'
  have hext : Sent D W s _ := (addRecordsWritten_sent s transformed.length).trans (recordSuccess_sent _)
  simp only [s']
  unfold writeSucceeded
  simp only
  split
  · refine ⟨_, hext, .inr ?_⟩
    split
    · exact .inr rfl
    · exact .inl rfl
  · exact ⟨_, hext.trans (recordFailure_sent E _), .inl rfl⟩

def Event.SavesUnder (ctx : Ctx) : Event → Prop
  | .save c _ _ => c = ctx
  | _ => True

variable {s s' : St}

/-- What a call may do: records go to `D` and `W`, checkpoints are saved under `ctx`, and nothing is handed over. -/
structure Does (ctx : Ctx) (D W : Item → Prop) (s s' : St) : Prop where
  log : Trace.Grew (fun e => e.SavesUnder ctx ∧ e.Goes D W) s.log s'.log
  handed : s'.handed = s.handed

variable {ctx : Ctx}

theorem Does.trans {s'' : St} (h : Does ctx D W s s') (h' : Does ctx D W s' s'') : Does ctx D W s s'' :=
  ⟨h.log.trans h'.log, h'.handed.trans h.handed⟩

theorem Sent.does (h : Sent D W s s') : Does ctx D W s s' := by
  refine ⟨h.log.mono fun e he => ⟨?_, he.2⟩, h.handed⟩
  obtain ⟨hquiet, -⟩ := he
  cases e <;> trivial

theorem Saved.does {ok : Bool} (h : Saved ctx processed s s' ok) : Does ctx D W s s' := by
  obtain ⟨err, evs, hl, hacks⟩ := h.log
  refine ⟨⟨_, hl, fun e he => ?_⟩, h.handed⟩
  rcases List.mem_cons.mp he with rfl | he
  · exact ⟨rfl, trivial⟩
  · obtain ⟨r, rfl⟩ := hacks e he
    exact ⟨trivial, trivial⟩

theorem saveCommittedCheckpoint_does (ctx : Ctx) (s : St) (processed committed : List Item) :
    Does ctx D W s (saveCommittedCheckpoint C E ctx s processed committed).1 := by
  rcases saveCommittedCheckpoint_cases C E ctx s processed committed with ⟨he, -⟩ | hs
  · exact he.does
  · exact hs.does

/-- A flush saves under the context it is given. -/
theorem flushPendingCheckpoint_does (ctx : Ctx) (force : Bool) (s : St) :
    Does ctx D W s (flushPendingCheckpoint C E ctx force s) := by
  rcases flushPendingCheckpoint_cases C E ctx force s with he | ⟨s1, ok, hs, heq⟩
  · exact he.does
  · have hdoes : Does ctx D W s s1 := hs.does
    rw [heq]
    split
    · exact ⟨hdoes.log, hdoes.handed⟩
    · exact hdoes

theorem writeSucceeded_log_grows (ctx : Ctx) (s : St) (processed transformed : List Item) (safe : Bool) :
    s.log <+: (writeSucceeded C E ctx s processed transformed safe).log := by
  obtain ⟨s1, he, hcases⟩ := writeSucceeded_cases C E (D := fun _ => True) (W := fun _ => True) ctx s processed
    transformed safe
  rcases hcases with h | h | h <;> rw [h]
  · exact he.log_grows
  · exact he.log_grows
  · exact he.log_grows.trans (flushPendingCheckpoint_does (D := fun _ => True) (W := fun _ => True) C E ctx true
      (appendPending s1 processed transformed)).log.grows

/-- The sink half either ends without touching the pending boundary (the write failed, or the flag was
down, or the breaker's wait was cut short), or it appends the batch to it and maybe flushes. -/
theorem commitBatch_cases (hWD : ∀ it, W it → D it) (ctx : Ctx) (s : St) (processed transformed : List Item)
    (safe : Bool) (h : ∀ it ∈ transformed, W it) :
    let s' := commitBatch C E ctx s processed transformed safe
    ∃ s1, Sent D W s s1 ∧
      ((∀ n, E.waitExpires n = false) → Durable C E s1 → ∀ it ∈ transformed, Delivered s1.log it) ∧
      (s' = s1 ∨ s' = appendPending s1 processed transformed ∨
        s' = flushPendingCheckpoint C E ctx true (appendPending s1 processed transformed)) := by
  intro s'
  simp only [s']
  unfold commitBatch
  have hgate : Sent D W s _ := breakerGate_sent E s
  by_cases hp : (breakerGate E s).2 = true
  · simp only [hp]
    obtain ⟨hext, hspec⟩ := retryWrite_sent C E (breakerGate E s).1 transformed h
    cases hr : (retryWrite C E (breakerGate E s).1 transformed).2 with
    | some err =>
      rw [hr] at hspec
      refine ⟨_, (hgate.trans hext).trans (writeFailed_sent C E hWD _ transformed err h), fun _ hb => ?_, .inl rfl⟩
      exact writeFailed_delivered C E _ transformed err hspec hb
    | none =>
      rw [hr] at hspec
      obtain ⟨s1, hext1, hcases⟩ := writeSucceeded_cases C E ctx
        (retryWrite C E (breakerGate E s).1 transformed).1 processed transformed safe
      refine ⟨s1, (hgate.trans hext).trans hext1, fun _ _ it hit => ?_, hcases⟩
      obtain ⟨n, hn, hmem⟩ := hspec
      exact .inl ⟨transformed, _, hext1.subset hmem, by simpa [Acked, hn] using hit⟩
  · simp only [hp]
    exact ⟨_, hgate, fun hw _ => absurd (breakerGate_proceeds E s hw) hp, .inl rfl⟩

/-- **What `writeBatch` does.** Up to some point `s₁` it saves nothing. From the prepared batch to there, it
delivers the survivors, if no breaker wait is cut short. Then it stops, or saves a batch without survivors, or
appends a batch with survivors to the pending boundary and maybe flushes that. -/
theorem writeBatch_spec (hWD : ∀ it, W it → D it) (runCtx : Ctx) (s : St) (batch : List Item)
    (h : ∀ it ∈ survivors C E s batch, W it) :
    let s' := writeBatch C E runCtx s batch
    ∃ s1, Sent D W (prepareBatch C E s batch).1 s1 ∧
      ((∀ n, E.waitExpires n = false) → Durable C E s1 → ∀ it ∈ survivors C E s batch, Delivered s1.log it) ∧
      (s' = s1 ∨
        (survivors C E s batch = [] ∧ s' = (saveCommittedCheckpoint C E .background s1 batch []).1) ∨
        (survivors C E s batch ≠ [] ∧ ∃ transformed, s' = appendPending s1 batch transformed ∨
          s' = flushPendingCheckpoint C E .background true (appendPending s1 batch transformed))) := by
  intro s'
  simp only [s']
  unfold survivors at h ⊢
  unfold writeBatch
  rcases hprep : prepareBatch C E s batch with ⟨s0, _ | p⟩
  · exact ⟨s0, .refl s0, by simp, .inl rfl⟩
  · simp only
    by_cases hnil : p.transformed = []
    · rw [if_pos hnil, hnil]
      split
      · exact ⟨s0, .refl s0, by simp, .inr (.inl ⟨rfl, rfl⟩)⟩
      · exact ⟨s0, .refl s0, by simp, .inl rfl⟩
    · rw [if_neg hnil]
      rw [hprep] at h
      obtain ⟨s1, hext1, hdel, hcases⟩ :=
        commitBatch_cases C E hWD .background s0 batch p.transformed p.checkpointBoundarySafe h
      refine ⟨s1, hext1, hdel, ?_⟩
      rcases hcases with h | h | h
      · exact .inl h
      · exact .inr (.inr ⟨hnil, p.transformed, .inl h⟩)
      · exact .inr (.inr ⟨hnil, p.transformed, .inr h⟩)

/-- If the fence is down at that point, every record of the batch has reached its end there. -/
theorem writeBatch_cases (runCtx : Ctx) (s : St) (batch : List Item) :
    let s' := writeBatch C E runCtx s batch
    ∃ s1, Ext s s1 ∧
      ((∀ n, E.waitExpires n = false) → s1.checkpointBlocked = false →
        ∀ it ∈ batch, Covered s1.log [] it) ∧
      (s' = s1 ∨
        (survivors C E s batch = [] ∧ s' = (saveCommittedCheckpoint C E .background s1 batch []).1) ∨
        (survivors C E s batch ≠ [] ∧ ∃ transformed, s' = appendPending s1 batch transformed ∨
          s' = flushPendingCheckpoint C E .background true (appendPending s1 batch transformed))) := by
  obtain ⟨s1, hext, hdel, hcases⟩ := writeBatch_spec C E (fun _ => id) runCtx s
    batch fun _ _ => trivial
  refine ⟨s1, (prepareBatch_ext C E s batch).trans hext, fun hw hb it hit => ?_, hcases⟩
  exact (prepareBatch_covered C E s batch (hext.unblocked hb) it hit).mono hext.subset
    fun r hr => .inr (hdel hw (.inl hb) r hr)

/-- `writeBatch` saves under a background context, whatever context it is called with. -/
theorem writeBatch_does (hWD : ∀ it, W it → D it) (runCtx : Ctx) (s : St) (batch : List Item)
    (h : ∀ it ∈ survivors C E s batch, W it) :
    Does .background D W (prepareBatch C E s batch).1 (writeBatch C E runCtx s batch) := by
  obtain ⟨s1, hsent, -, hcases⟩ := writeBatch_spec C E hWD runCtx s batch h
  have hdoes : Does .background D W _ s1 := hsent.does
  have happend (transformed : List Item) : Does .background D W _ (appendPending s1 batch transformed) :=
    ⟨hdoes.log, hdoes.handed⟩
  rcases hcases with heq | ⟨-, heq⟩ | ⟨-, transformed, heq | heq⟩ <;> rw [heq]
  · exact hdoes
  · exact hdoes.trans (saveCommittedCheckpoint_does C E _ s1 batch [])
  · exact happend transformed
  · exact (happend transformed).trans (flushPendingCheckpoint_does C E _ true _)

theorem writeBatch_done (runCtx : Ctx) (s : St) (batch : List Item) :
    Does .background (fun _ => True) (fun _ => True) s (writeBatch C E runCtx s batch) :=
  (prepareBatch_ext C E s batch).does.trans (writeBatch_does C E (fun _ => id) runCtx s batch fun _ _ => trivial)

end

end OpenEtl.Pipeline
