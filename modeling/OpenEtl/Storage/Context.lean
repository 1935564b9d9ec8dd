import Mathlib.Data.List.Basic

/-!
# Contexts and the checkpoint fence they carry (`storage/adapters.go:21-46`)

A Go context is represented by the only value the engine puts into one, the checkpoint fence.
Deriving a context (`WithCancel`, `WithTimeout`, `WithDeadline`) keeps its values, so these are the
identity here; `context.Background()` carries nothing. When a context expires is decided by the
environment of the function that waits on it.
-/

namespace OpenEtl.Storage

/-- `storage.CheckpointFence`. -/
structure CheckpointFence where
  pipelineID : String
  generation : Int
deriving DecidableEq, Repr

structure Ctx where
  fenceValue : Option CheckpointFence := none
deriving DecidableEq, Repr

/-- `context.Background()`. -/
def Ctx.background : Ctx := {}

/-- `WithCheckpointFence`. -/
def withCheckpointFence (_ctx : Ctx) (pipelineID : String) (generation : Int) : Ctx :=
  { fenceValue := some { pipelineID, generation } }

/-- `CheckpointFenceFromContext`: a value without an id or a positive generation is no fence. -/
def checkpointFenceFromContext (ctx : Ctx) : Option CheckpointFence :=
  ctx.fenceValue.filter (fun f => f.pipelineID != "" && decide (0 < f.generation))

end OpenEtl.Storage
