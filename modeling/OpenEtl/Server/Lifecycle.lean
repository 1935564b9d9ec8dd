import OpenEtl.Orchestrator.Saves
import OpenEtl.Orchestrator.ZeroLoss
import OpenEtl.Pipeline.Saves
import OpenEtl.Pipeline.ZeroLoss

/-!
# Managed runs and their generation (`server/lifecycle.go`)

A managed run is started with a fresh generation, which travels in its context; a checkpoint saved under that context
is refused once the pipeline has a newer generation. The runs of this module are those of either engine, among
arbitrary transactions of the control plane on the same store.
-/

namespace OpenEtl.Server

open Storage
open Trace (Always Steps run)

/-- `startManagedPipelineLocked` up to `runner.Start(runCtx)` (:43-52): the context of the run
and its generation. -/
def startManagedPipelineLocked (running : Bool) (st : Store) (ctx : Ctx) (id : String) :
    Store × Except Err (Ctx × Nat) :=
  if running then (st, .error { msg := "pipeline " ++ id ++ " is already running" })
  else
    match beginPipelineGeneration st id with
    | (st, .error e) => (st, .error { e with msg := "allocate pipeline generation: " ++ e.msg })
    | (st, .ok generation) => (st, .ok (withCheckpointFence ctx id generation, generation))

/-- The run's context carries the fence of its generation. -/
theorem fence_of_start {running : Bool} {st0 st : Store} {ctx runCtx : Ctx} {id : String} {g : Nat}
    (h : startManagedPipelineLocked running st0 ctx id = (st, .ok (runCtx, g))) :
    checkpointFenceFromContext runCtx = some ⟨id, g⟩ := by
  unfold startManagedPipelineLocked at h
  split at h
  · simp at h
  unfold beginPipelineGeneration at h
  cases hp : st0.pipelines id with
  | none => simp [hp] at h
  | some p =>
    have hid : id ≠ "" := by
      rintro rfl
      simp [st0.id_ne_empty] at hp
    by_cases hrun : p.desiredState = .running
    · simp only [hp, hrun] at h
      obtain ⟨-, rfl, rfl⟩ := h
      simp [checkpointFenceFromContext, withCheckpointFence, hid]
    · simp [hp, hrun] at h

/-- The implementations of `pipeline.RunnerInterface`, with the name from their spec. -/
inductive Managed
  | linear (C : Pipeline.Cfg) (E : Pipeline.Env) (name : String)
  | dag (C : Orchestrator.Cfg) (E : Orchestrator.Env) (name : String)

def Managed.engine : Managed → Engine
  | .linear C E name => Pipeline.engine C E name
  | .dag C E name => Orchestrator.engine C E name

/-- **Generation fence.** A managed run of either engine, among any transactions of the control plane: if
no step that saves outside the run's context is taken, or still under way, when the pipeline has a
generation newer than the run's, then from that generation on no save of the run inserts or changes a
row of the checkpoints table. -/
theorem superseded_run_leaves_checkpoints (R : Managed) (equal like : String → String → Bool) (running : Bool)
    (st₀ st : Store) (ctx runCtx : Ctx) (id : String) (g : Nat) (s : R.engine.State)
    (steps : List (R.engine.Step × Meanwhile))
    (hstart : startManagedPipelineLocked running st₀ ctx id = (st, .ok (runCtx, g)))
    (hsteps : Steps (Unsuperseded equal like R.engine st id g) (R.engine.act runCtx) ⟨s, []⟩ steps) :
    Always (FenceHolds equal like R.engine st id g) (run (R.engine.act runCtx) ⟨s, []⟩ steps).acts :=
  Engine.fence_holds (fence_of_start hstart) s hsteps

/-! ## A pipeline that is paused and reset -/

/-- A store with one pipeline, wanted running and never started. -/
def ordersStore : Store where
  pipelines id := if id = "p1" then some ⟨"orders", .running, 0⟩ else none
  checkpoints _ := none
  id_ne_empty := rfl

def startedStore : Store := (startManagedPipelineLocked false ordersStore .background "p1").1

def ordersCtx : Ctx := withCheckpointFence .background "p1" 1

/-- Before the `k`-th event of a step the pipeline is paused and its checkpoint reset. -/
def resetAt (k : Nat) : Meanwhile where
  ops n := if n = k then [.desiredState "p1" .paused, .resetCheckpoint "p1"] else []

/-- A checkpoint is due only at the tick, and the store refuses it there. -/
def tickEnv : Pipeline.Env where
  now n := if n < 4 then 0 else 100 * Pipeline.second
  save n := if n = 4 then some (errCheckpointFenced "pipeline=p1 write_generation=1 current_generation=2") else none

/-- A linear pipeline with a checkpoint interval. -/
def tickRunner : Managed := .linear { checkpointInterval := 10 * Pipeline.second } tickEnv "orders"

theorem superseded_run_leaves_checkpoints_tick :
    Always (FenceHolds (· == ·) (fun _ _ => false) tickRunner.engine startedStore "p1" 1)
      (run (tickRunner.engine.act ordersCtx) ⟨({} : Pipeline.St), []⟩
        [(.batch [Pipeline.row 1], {}), (.tick, resetAt 0)]).acts := by
  refine superseded_run_leaves_checkpoints tickRunner _ _ false ordersStore startedStore .background ordersCtx
    "p1" 1 _ _ rfl ⟨.inr ⟨?_, by simp⟩, .inl rfl, trivial⟩
  intro n hn
  have hgen : startedStore.generation "p1" = some 1 := rfl
  obtain rfl : 1 = n := by simpa [storeAfter, hgen] using hn
  exact Nat.le_refl 1

/-- One batch, during which the pipeline is paused and reset just before the checkpoint is saved. -/
def lateCommit : List (Act Pipeline.Event) :=
  (run ((Pipeline.engine {} {} "orders").act ordersCtx) ⟨({} : Pipeline.St), []⟩
    [(.batch [Pipeline.row 1], resetAt 3)]).acts

/-- A record that the ticker flushes, with the same interruption. -/
def lateFlush : List (Act Orchestrator.Event) :=
  let C := Orchestrator.pairCfg 1 2 Nat.two_pos
  (run ((Orchestrator.engine C {} "orders").act ordersCtx) ⟨Orchestrator.St.start C, []⟩
    [(.deliver "src" {}, {}), (.receive, {}), (.tick, resetAt 2)]).acts

/-- Both saves come after generation 2 and write a row that the reset had removed. -/
theorem late_saves_are_written :
    ¬ Always (FenceHolds (· == ·) (fun _ _ => false) (Pipeline.engine {} {} "orders") startedStore "p1" 1) lateCommit ∧
      ¬ Always (FenceHolds (· == ·) (fun _ _ => false) (Orchestrator.engine (Orchestrator.pairCfg 1 2 (by decide)) {}
        "orders") startedStore "p1" 1) lateFlush := by
  constructor
  · intro h
    have hsame := h.at 5 rfl ⟨2, rfl, by decide⟩
    cases congrFun hsame "orders"
  · intro h
    have hsame := h.at 9 rfl ⟨2, rfl, by decide⟩
    cases congrFun hsame "orders-src"

end OpenEtl.Server
