import OpenEtl.Orchestrator.Counted
import OpenEtl.Pipeline.Counted
import OpenEtl.Pipeline.Spec
import OpenEtl.Server.Replayed

/-!
# What the callers make of a successful `retry.Do`

The linear runner, the DAG executor and the two DLQ replays take nil from `retry.Do` for a write that succeeded: the
batch is counted, its checkpoint saved, the dead letter deleted. This is right exactly for configurations that allow
an attempt.
-/

namespace OpenEtl.Retry

open Pipeline

open Trace

/-- The retry section of a pipeline that validation let through. -/
inductive Accepted
  | linear (retry : Option RetrySpec) (valid : retryProblems (applyRetryDefaults retry) = [])
  | dag (retry : Option RetrySpec)

def Accepted.config : Accepted → Config
  | .linear retry _ | .dag retry => retryConfig (applyRetryDefaults retry)

structure SuccessMeansWritten (cfg : Config) : Prop where
  retry : NilMeansSuccess cfg
  linear : ∀ (C : Cfg) (E : Env), C.retry = cfg →
    ∀ ctx s processed transformed safe, transformed ≠ [] →
      CommitSound s (commitBatch C E ctx s processed transformed safe) transformed
  dag : ∀ (C : Orchestrator.Cfg) (E : Orchestrator.Env), C.retry = cfg →
    ∀ ctx s sinkID batch recordsBySource, Orchestrator.CommitSound s
      (Orchestrator.writeBatch C E ctx s sinkID batch recordsBySource) sinkID batch
  linearReplay : ∀ (spec : Server.LinearSpec) (E : Server.Env), spec.retry = cfg → ∀ items,
    Always (Server.DeleteFor (Server.Replayed items)) (Server.replayDLQItems E spec items).1
  dagReplay : ∀ (spec : Server.DagSpec) (E : Server.Env), spec.retry = cfg → ∀ items,
    Always (Server.DeleteFor (Server.ReplayedDAG E spec items)) (Server.replayDAGDLQItems E spec items).1

theorem successMeansWritten_of_pos {cfg : Config} (hpos : 0 < cfg.maxAttempts) : SuccessMeansWritten cfg where
  retry := nilMeansSuccess_of_pos hpos
  linear C E _ ctx s processed transformed safe hne :=
    commitBatch_sound C E ctx s processed transformed safe hne
  dag C E h ctx s sinkID batch recordsBySource :=
    Orchestrator.writeBatch_sound C E (h ▸ hpos) ctx s sinkID batch recordsBySource
  linearReplay _ E h items := Server.replayDLQItems_sound E (h ▸ hpos) items
  dagReplay _ E h items := Server.replayDAGDLQItems_sound E (h ▸ hpos) items

theorem Accepted.config_pos_iff (p : Accepted) :
    0 < p.config.maxAttempts ↔ ∀ r, p = .dag (some r) → 0 < r.maxAttempts := by
  cases p with
  | linear retry valid =>
    simp only [reduceCtorEq, false_implies, implies_true, iff_true]
    exact retryConfig_pos_of_valid valid
  | dag retry =>
    cases retry with
    | none => simp [Accepted.config, applyRetryDefaults, retryConfig]
    | some r => simp [Accepted.config, applyRetryDefaults, retryConfig]

/-- **Nil means written**, for every pipeline but a DAG whose retry section allows no attempt. -/
theorem success_means_written_iff (p : Accepted) :
    SuccessMeansWritten p.config ↔ ∀ r, p = .dag (some r) → 0 < r.maxAttempts := by
  rw [← p.config_pos_iff]
  exact ⟨fun h => (nilMeansSuccess_iff _).mp h.retry, successMeansWritten_of_pos⟩

/-! ### Counterexample: a retry section that only sets an interval -/

/-- `retry: {initial_interval_ms: 500}` leaves the other fields at zero. -/
def intervalOnly : RetrySpec := { maxAttempts := 0, initialIntervalMs := 500, maxIntervalMs := 0 }

def filterDag : Orchestrator.DAG where
  nodes := [⟨"src", .source, "demo"⟩, ⟨"keep", .transform, "filter"⟩, ⟨"out", .sink, "demo"⟩]
  edges := [{ source := "src", target := "keep" }, { source := "keep", target := "out" }]

def intervalOnlyRun : Orchestrator.St :=
  let C : Orchestrator.Cfg := { dag := filterDag, retry := (Accepted.dag (some intervalOnly)).config }
  run (Orchestrator.step C {} .background) (Orchestrator.St.start C)
    [.deliver "src" {}, .receive, .closed]

def deadAt (nodeID : String) : Server.DeadLetter := { id := 7, record := {}, dagNode := nodeID }

/-- The dead letter, marked as acknowledged by the sink and then deleted. -/
def markedAndDeleted (nodeID : String) : Server.Log :=
  [.update 0 { deadAt nodeID with replayState := .sinkAcked, replayAttempt := 1 } none, .delete 0 none]

/-- The executor counts and checkpoints a record, and a replay deletes a dead letter, without a call of
`Sink.Write`; and with three attempts a replay deletes a dead letter that the transform filters. -/
theorem unattempted_write_succeeds :
    (intervalOnlyRun.recordsWritten = 1 ∧
      .save .background "src" [⟨{}, "src", 0⟩] none ∈ intervalOnlyRun.log ∧
      intervalOnlyRun.log.all (fun e => match e with | .sinkWrite .. => false | _ => true) = true) ∧
    (Server.replayDAGDLQItems {} { dag := filterDag, retry := (Accepted.dag (some intervalOnly)).config }
      [deadAt "out"]).1 = .visit 0 "out" :: markedAndDeleted "out" ∧
    (Server.replayDAGDLQItems { applyNode := fun _ _ _ => .error .filtered } { dag := filterDag }
      [deadAt "keep"]).1 = .visit 0 "keep" :: .noSink 0 :: markedAndDeleted "keep" :=
  ⟨by decide, rfl, rfl⟩

end OpenEtl.Retry
