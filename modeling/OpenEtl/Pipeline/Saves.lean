import OpenEtl.Pipeline.Commit
import OpenEtl.Storage.Fence

/-!
# The contexts under which the linear runner saves checkpoints

`writeBatch` replaces the context it is called with by one derived from `context.Background()`
(pipeline.go:1165), and the flush at EOF or shutdown makes its own. Only the flush of the ticker runs
under the context of the run.
-/

namespace OpenEtl.Pipeline

open Storage (Ctx)
open Trace (Grew)

section

variable (C : Cfg) (E : Env)

def Call.fenced : Call → Bool
  | .tick => true
  | _ => false

theorem enter_grows (s : St) (c : Call) : s.log <+: (enter s c).1.log := by
  cases c <;> exact List.prefix_append s.log [.call]

theorem step_grows (runCtx : Ctx) (s : St) (c : Call) : s.log <+: (step C E runCtx s c).log := by
  refine (enter_grows s c).trans ?_
  have hflush (ctx : Ctx) (force : Bool) (s : St) : s.log <+: (flushPendingCheckpoint C E ctx force s).log :=
    (flushPendingCheckpoint_does (D := fun _ => True) (W := fun _ => True) C E ctx force s).log.grows
  cases c with
  | batch recs => exact (writeBatch_done C E runCtx _ _).log.grows
  | lastBatch recs | flushed recs => exact (writeBatch_done C E .background _ _).log.grows
  | tick => exact hflush runCtx false _
  | final => exact hflush .background true _

theorem step_under (runCtx : Ctx) (s : St) (c : Call) (hc : c.fenced = true) :
    Grew (Event.SavesUnder runCtx) s.log (step C E runCtx s c).log := by
  cases c with
  | tick =>
    exact ((call_ext s).does.trans (flushPendingCheckpoint_does C E runCtx false _)).log.mono fun _ he => he.1
  | batch | lastBatch | flushed | final => simp [Call.fenced] at hc

/-- The call of `Save` behind an event; the job is the pipeline's name (pipeline.go:1725). -/
def saveCall (name : String) : Event → Option Storage.SaveCall
  | .save ctx _ err => some { ctx, jobName := name, err }
  | _ => none

/-- The runner, as the checkpoint store sees it. -/
def engine (name : String) : Storage.Engine where
  State := St
  Step := Call
  Event := Event
  step := step C E
  log := St.log
  save := saveCall name
  fenced := Call.fenced
  grows := step_grows C E
  under := by
    intro ctx s i hi e he c hc
    have hu := (step_under C E ctx s i hi).added e he
    cases e <;> simp only [saveCall, Option.some.injEq, reduceCtorEq] at hc
    rw [← hc]
    exact hu

end

end OpenEtl.Pipeline
