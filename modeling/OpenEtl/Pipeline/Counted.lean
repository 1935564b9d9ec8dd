import OpenEtl.Pipeline.Commit

/-!
# What the linear runner counts as written

`CommitSound`: a batch counted in full, or owed a checkpoint, was written by calls of `Sink.Write` that
returned nil, in this commit and not in an earlier one.
-/

namespace OpenEtl.Pipeline

open Storage (Ctx)
open List

/-- A call of `Sink.Write` for `its` returned nil. -/
def NilWrite (evs : List Event) (its : List Item) : Prop := ∃ res, .sinkWrite its res ∈ evs ∧ res.err = none

/-- What a commit may conclude: a batch counted in full was written, together or record by record, with
nil; and unless the batch was written with nil, no checkpoint is saved and none is owed. -/
def CommitSound (s s' : St) (transformed : List Item) : Prop :=
  (s.recordsWritten + transformed.length ≤ s'.recordsWritten →
    ∀ it ∈ transformed, ∃ its, it ∈ its ∧ NilWrite (Trace.added s.log s'.log) its) ∧
  ((∃ e ∈ Trace.added s.log s'.log, e.isCheckpoint = true) ∨
      s'.pendingCheckpointProcessed ≠ s.pendingCheckpointProcessed →
    NilWrite (Trace.added s.log s'.log) transformed)

section

variable (C : Cfg) (E : Env)

theorem recordsWritten_retryWrite (s : St) (its : List Item) :
    (retryWrite C E s its).1.recordsWritten = s.recordsWritten :=
  Retry.Do_invariant (P := fun s' : St => s'.recordsWritten = s.recordsWritten)
    (fun s' h => by unfold writeSink; split <;> exact h) rfl

/-- The write that lets `retry.Do` return nil is one it made. -/
theorem retryWrite_nil (s : St) (its : List Item) (h : (retryWrite C E s its).2 = none) :
    NilWrite (Trace.added s.log (retryWrite C E s its).1.log) its := by
  have key : Ext s (retryWrite C E s its).1 ∧
      ((retryWrite C E s its).2 = none → NilWrite (Trace.added s.log (retryWrite C E s its).1.log) its) := by
    refine Retry.Do_induction (P := Ext s)
      (Q := fun s' r => Ext s s' ∧ (r = none → NilWrite (Trace.added s.log s'.log) its)) C.retry_pos ?_ ?_ ?_ (.refl s)
    · intro s1 s2 hP hf
      have hext := (writeSink_sent (D := fun _ => True) C E s1 its fun _ _ => trivial).1
      rw [hf] at hext
      refine ⟨hP.trans hext, fun _ => ?_⟩
      unfold writeSink at hf
      split at hf
      · cases hf
      · simp only [Prod.mk.injEq] at hf
        obtain ⟨rfl, herr⟩ := hf
        refine ⟨_, Trace.mem_added hP.log_grows hext.log_grows (prefix_refl _) ?_, herr⟩
        simp [St.emit]
    · intro s1 s2 e hP hf
      have hext := (writeSink_sent (D := fun _ => True) C E s1 its fun _ _ => trivial).1
      rw [hf] at hext
      exact ⟨hP.trans hext, hP.trans hext, by simp⟩
    · exact fun s1 e hP _ => ⟨hP, by simp⟩
  exact key.2 h

theorem recordsWritten_handleFailedRecord (s : St) (it : Item) (cause : Cause) :
    (handleFailedRecord C E s it cause).1.recordsWritten = s.recordsWritten := by
  unfold handleFailedRecord
  simp only
  split
  · split <;> rfl
  · rfl

theorem recordsWritten_handleFailedRecords : ∀ (l : List (Item × Cause)) (s : St),
    (handleFailedRecords C E s l).1.recordsWritten = s.recordsWritten
  | [], _ => rfl
  | (it, cause) :: rest, s =>
    (recordsWritten_handleFailedRecords rest _).trans (recordsWritten_handleFailedRecord C E s it cause)

theorem recordsWritten_writeRecordsIndividually : ∀ (l : List Item) (s : St),
    (writeRecordsIndividually C E s l).1.recordsWritten = s.recordsWritten
  | [], _ => rfl
  | it :: rest, s => by
    have h := (recordsWritten_writeRecordsIndividually rest (retryWrite C E s [it]).1).trans
      (recordsWritten_retryWrite C E s [it])
    unfold writeRecordsIndividually
    cases hr : (retryWrite C E s [it]).2 <;> simpa [hr] using h

/-- Row by row, only rows written with nil are counted. -/
theorem writeRecordsIndividually_counted : ∀ (l : List Item) (s : St),
    (writeRecordsIndividually C E s l).2.1 ≤ l.length ∧
      (l.length ≤ (writeRecordsIndividually C E s l).2.1 →
        ∀ it ∈ l, NilWrite (Trace.added s.log (writeRecordsIndividually C E s l).1.log) [it])
  | [], _ => by simp [writeRecordsIndividually]
  | x :: rest, s => by
    obtain ⟨hle, hall⟩ := writeRecordsIndividually_counted rest (retryWrite C E s [x]).1
    have hext1 := (retryWrite_spec C E s [x]).1
    have hext2 := writeRecordsIndividually_ext C E rest (retryWrite C E s [x]).1
    have hnil := retryWrite_nil C E s [x]
    rcases hw : writeRecordsIndividually C E (retryWrite C E s [x]).1 rest with ⟨s2, good, fs⟩
    rw [hw] at hle hall hext2
    cases hr : (retryWrite C E s [x]).2 with
    | some e =>
      have hs : writeRecordsIndividually C E s (x :: rest) = (s2, (good, (x, e.toCause) :: fs)) := by
        simp only [writeRecordsIndividually, hr, hw]
      rw [hs]
      exact ⟨Nat.le_succ_of_le hle, fun h => absurd (Nat.lt_of_lt_of_le h hle) (Nat.lt_irrefl _)⟩
    | none =>
      have hs : writeRecordsIndividually C E s (x :: rest) = (s2, (good + 1, fs)) := by
        simp only [writeRecordsIndividually, hr, hw]
      rw [hs]
      refine ⟨Nat.succ_le_succ hle, fun h it hit => ?_⟩
      rcases mem_cons.mp hit with rfl | hit
      · obtain ⟨res, hm, hres⟩ := hnil hr
        exact ⟨res, Trace.mem_added (prefix_refl _) hext1.log_grows hext2.log_grows hm, hres⟩
      · obtain ⟨res, hm, hres⟩ := hall (Nat.le_of_succ_le_succ h) it hit
        exact ⟨res, Trace.mem_added hext1.log_grows hext2.log_grows (prefix_refl _) hm, hres⟩

/-- A batch whose write failed is not counted in full, unless row by row. -/
theorem writeFailed_counted (s : St) (transformed : List Item) (err : Err) (hne : transformed ≠ [])
    (h : s.recordsWritten + transformed.length ≤ (writeFailed C E s transformed err).recordsWritten) :
    ∀ it ∈ transformed, NilWrite (Trace.added s.log (writeFailed C E s transformed err).log) [it] := by
  have hpos : 0 < transformed.length := length_pos_iff.mpr hne
  have hfail : Ext s _ := recordFailure_sent E s
  cases hp : partialBatchFailures err transformed with
  | some fs =>
    have hfs : 0 < fs.length := length_pos_iff.mpr (partialBatchFailures_spec hp).1
    simp only [writeFailed, hp, recordsWritten_handleFailedRecords] at h
    have h' : s.recordsWritten + transformed.length ≤ s.recordsWritten + (transformed.length - fs.length) := h
    omega
  | none =>
    obtain ⟨-, hall⟩ := writeRecordsIndividually_counted C E transformed (recordFailure E s)
    have hext := writeRecordsIndividually_ext C E transformed (recordFailure E s)
    have hrw := recordsWritten_writeRecordsIndividually C E transformed (recordFailure E s)
    rcases hw : writeRecordsIndividually C E (recordFailure E s) transformed with ⟨s1, good, fs⟩
    rw [hw] at hall hext hrw
    have hs : writeFailed C E s transformed err =
        (handleFailedRecords C E (addRecordsWritten s1 good) fs).1 := by
      simp only [writeFailed, hp, hw]
    rw [hs, recordsWritten_handleFailedRecords] at h
    have hgood : transformed.length ≤ good := by
      have h' : s.recordsWritten + transformed.length ≤ s1.recordsWritten + good := h
      have hrw' : s1.recordsWritten = s.recordsWritten := hrw
      omega
    have hend : Ext s1 _ := (addRecordsWritten_sent s1 good).trans (handleFailedRecords_ext C E fs _)
    intro it hit
    obtain ⟨res, hm, hres⟩ := hall hgood it hit
    rw [hs]
    exact ⟨res, Trace.mem_added hfail.log_grows hext.log_grows hend.log_grows hm, hres⟩

theorem recordsWritten_breakerGate (s : St) : (breakerGate E s).1.recordsWritten = s.recordsWritten := by
  unfold breakerGate
  split
  · rfl
  simp only
  split <;> rfl

/-- **A commit of the linear runner** rests on writes that returned nil. -/
theorem commitBatch_sound (ctx : Ctx) (s : St) (processed transformed : List Item) (safe : Bool)
    (hne : transformed ≠ []) :
    CommitSound s (commitBatch C E ctx s processed transformed safe) transformed := by
  have hgate : Ext s _ := breakerGate_sent E s
  have hcount := recordsWritten_breakerGate E s
  -- without a write nothing is counted and nothing is saved
  have hquiet : ∀ s', Ext s s' →
      (s.recordsWritten + transformed.length ≤ s'.recordsWritten →
        ∀ it ∈ transformed, ∃ its, it ∈ its ∧ NilWrite (Trace.added s.log s'.log) its) →
      CommitSound s s' transformed := by
    intro s' he hcounted
    refine ⟨hcounted, fun h => ?_⟩
    obtain ⟨evs, hl, hns⟩ := he.quiet
    rcases h with ⟨e, hmem, hck⟩ | hp
    · rw [hl, Trace.added_append] at hmem
      simp [hns e hmem] at hck
    · exact absurd he.processed hp
  unfold commitBatch
  rcases hg : breakerGate E s with ⟨s0, proceed⟩
  rw [hg] at hgate hcount
  cases proceed with
  | false =>
    refine hquiet s0 hgate fun h => absurd h ?_
    have := length_pos_iff.mpr hne
    simp only at hcount
    omega
  | true =>
    obtain ⟨hext, -⟩ := retryWrite_spec C E s0 transformed
    have hrw := recordsWritten_retryWrite C E s0 transformed
    have hnil := retryWrite_nil C E s0 transformed
    simp only
    rcases hr : retryWrite C E s0 transformed with ⟨s1, r⟩
    rw [hr] at hext hrw hnil
    cases r with
    | some err =>
      have hf := writeFailed_ext C E s1 transformed err
      refine hquiet _ ((hgate.trans hext).trans hf) fun h it hit => ?_
      have hcount' : s1.recordsWritten = s.recordsWritten := hrw.trans hcount
      obtain ⟨res, hm, hres⟩ := writeFailed_counted C E s1 transformed err hne (by rwa [hcount']) it hit
      exact ⟨[it], by simp, res,
        Trace.mem_added (hgate.trans hext).log_grows hf.log_grows (prefix_refl _) hm, hres⟩
    | none =>
      obtain ⟨res, hm, hres⟩ := hnil rfl
      have hgrows := writeSucceeded_log_grows C E ctx s1 processed transformed safe
      have hw : NilWrite (Trace.added s.log (writeSucceeded C E ctx s1 processed transformed safe).log)
          transformed := ⟨res, Trace.mem_added hgate.log_grows hext.log_grows hgrows hm, hres⟩
      exact ⟨fun _ it hit => ⟨transformed, hit, hw⟩, fun _ => hw⟩

end

end OpenEtl.Pipeline
