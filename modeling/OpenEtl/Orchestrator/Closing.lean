import OpenEtl.Orchestrator.Saves

/-!
# The end of the stream in the DAG executor (`orchestrator/executor.go:628, 780`)

When the channel is closed the routers write out their batches and return. No node is visited any more
(`visits_closed`): `Flush` is not called, and there is no route from a transform that would have records left.
-/

namespace OpenEtl.Orchestrator

open Trace

open Storage (Ctx)

def Event.visited? : Event → Option String
  | .visit nodeID => some nodeID
  | _ => none

/-- The nodes that were visited, in order. -/
def St.visits (s : St) : List String := s.log.filterMap Event.visited?

section

variable (C : Cfg) (E : Env)

/-- Writing batches out visits no node. -/
theorem visits_of_logs {s s' : St} (h : Grew (fun e => e.visited? = none) s.log s'.log) : s'.visits = s.visits := by
  obtain ⟨evs, hlog, hevs⟩ := h
  rw [St.visits, hlog, List.filterMap_append, List.filterMap_eq_nil_iff.mpr hevs, List.append_nil, St.visits]

theorem writing_unvisited (ctx : Ctx) (batch : List RecordMsg) : Writing (fun e => e.visited? = none) ctx batch where
  dlq _ _ _ _ := rfl
  noDLQ _ _ _ := rfl
  wait _ _ := rfl
  write _ _ := rfl
  save _ _ _ := rfl
  ack _ _ _ := rfl

theorem visits_drainSources (runCtx : Ctx) (hpar : 1 < C.workers) (sources : List String) (s : St) :
    (drainSources C E runCtx sources s).visits = s.visits :=
  visits_of_logs ((logs_drained C E (writing_unvisited runCtx) s).drainSources hpar sources (Grew.refl _ _))

theorem visits_finish (runCtx : Ctx) (s : St) : (finish C E runCtx s).visits = s.visits :=
  visits_of_logs (writeDue_logs C E runCtx .flush (writing_unvisited _) 1 (sinkIDs C) s)

/-- **The channel is closed**: nothing is routed any more. -/
theorem visits_closed (runCtx : Ctx) (s : St) : (step C E runCtx s .closed).visits = s.visits := by
  have hcall : (s.emit .call).visits = s.visits := visits_of_logs (Grew.snoc s.log rfl)
  unfold step
  split
  · rfl
  simp only
  split
  · rename_i hpar
    unfold stepParallel
    simp only
    split
    · rw [visits_finish, visits_drainSources C E runCtx hpar, hcall]
    · exact hcall
  · unfold stepSequential
    simp only
    split
    · rw [visits_finish, hcall]
    · exact hcall

end

end OpenEtl.Orchestrator
