import OpenEtl.Orchestrator.Commit

/-!
# What the DAG executor counts as written

Unlike the linear runner's, its configuration may allow no attempt at all, so the results here ask for
one.
-/

namespace OpenEtl.Orchestrator

open Trace

open Storage (Ctx)

/-- What `writeToSink` may conclude: a count or a checkpoint needs a write of the batch that returned
nil. -/
def CommitSound (s s' : St) (sinkID : String) (batch : List RecordMsg) : Prop :=
  s.recordsWritten < s'.recordsWritten ∨ (∃ e ∈ added s.log s'.log, e.isSave = true) →
    .sinkWrite sinkID batch none ∈ added s.log s'.log

section

variable (C : Cfg) (E : Env)

theorem recordsWritten_retryWrite (s : St) (sinkID : String) (batch : List RecordMsg) :
    (retryWrite C E s sinkID batch).1.recordsWritten = s.recordsWritten :=
  Retry.Do_invariant (P := fun s' : St => s'.recordsWritten = s.recordsWritten) (fun _ h => h) rfl

theorem recordsWritten_blockSources (reason : String) : ∀ (l : List (String × List RecordMsg)) (s : St),
    (blockSources s reason l).recordsWritten = s.recordsWritten
  | [], _ => rfl
  | (sourceID, _) :: rest, s => by
    rw [blockSources, recordsWritten_blockSources reason rest, blockSourceCheckpoint]
    split <;> rfl

theorem recordsWritten_failBatch (sinkID : String) (cause : Cause) : ∀ (batch : List RecordMsg) (s : St),
    (failBatch C E sinkID cause s batch).1.recordsWritten = s.recordsWritten
  | [], _ => rfl
  | msg :: rest, s => by
    rw [failBatch, recordsWritten_failBatch sinkID cause rest, handleFailed]
    split
    · split
      · split <;> rfl
      · rfl
    · rfl

theorem recordsWritten_writeFailed (s : St) (sinkID : String) (batch : List RecordMsg)
    (recordsBySource : List (String × List RecordMsg)) (err : Err) :
    (writeFailed C E s sinkID batch recordsBySource err).recordsWritten = s.recordsWritten := by
  have hc : (failBatch C E sinkID err.toCause (recordFailure E s sinkID) batch).1.recordsWritten =
      s.recordsWritten := recordsWritten_failBatch C E sinkID _ batch _
  unfold writeFailed
  simp only
  split
  · exact hc
  · exact (recordsWritten_blockSources _ _ _).trans hc

/-- **A write of the DAG executor** that is counted or checkpointed returned nil. -/
theorem writeBatch_sound (hpos : 0 < C.retry.maxAttempts) (ctx : Ctx) (s : St) (sinkID : String)
    (batch : List RecordMsg) (recordsBySource : List (String × List RecordMsg)) :
    CommitSound s (writeBatch C E ctx s sinkID batch recordsBySource) sinkID batch := by
  have hext : Ext s (retryWrite C E s sinkID batch).1 := retryWrite_adds C E (fun _ _ => rfl) s sinkID
  have hcount := recordsWritten_retryWrite C E s sinkID batch
  have hnil := retryWrite_spec C E hpos s sinkID batch
  unfold writeBatch
  rcases hr : retryWrite C E s sinkID batch with ⟨s1, r⟩
  rw [hr] at hext hcount hnil
  cases r with
  | none =>
    exact fun _ => mem_added (List.prefix_refl _) hext.grows
      (writeSucceeded_adds C E (Writing.savesUnder ctx batch) s1 sinkID recordsBySource).grows (hnil rfl)
  | some err =>
    -- a failed write is neither counted nor checkpointed
    show CommitSound s (writeFailed C E s1 sinkID batch recordsBySource err) sinkID batch
    have hfail := writeFailed_adds C E Routes.noSave.toFailures s1 sinkID batch recordsBySource err
    rintro (hlt | ⟨e, he, hsave⟩)
    · have hcount' : s1.recordsWritten = s.recordsWritten := hcount
      rw [recordsWritten_writeFailed, hcount'] at hlt
      exact absurd hlt (Nat.lt_irrefl _)
    · have hq := (hext.trans hfail).events.added e he
      simp [hq] at hsave

end

end OpenEtl.Orchestrator
