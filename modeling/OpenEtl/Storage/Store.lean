import OpenEtl.Core.Errors
import OpenEtl.Storage.Context

/-!
# The pipelines and checkpoints tables (`storage/sqlstore/store.go`, `storage/adapters.go`)

| here | there |
| --- | --- |
| `adapterSave` | `CheckpointStoreAdapter.Save` (adapters.go:58) |

A table is a partial function of its primary key. Each function is one transaction, or one statement;
when the database or an injected failure refuses it, nothing happens, and that is the `fail` argument
of `saveCheckpoint`. Which texts `=` and `LIKE` match in a deletion is the database's business and a parameter. The columns
that only describe a pipeline (`spec_yaml`, `status`, `observed_state`, …) and `updated_at` are left
out: nothing here reads them.
-/

namespace OpenEtl.Storage

inductive DesiredState
  | running | stopped | paused
deriving DecidableEq, Repr

def DesiredState.text : DesiredState → String
  | .running => "running"
  | .stopped => "stopped"
  | .paused => "paused"

/-- A row of `pipelines`; its generation starts at 0 and is only ever counted up. -/
structure PipelineRow where
  name : String
  desiredState : DesiredState
  generation : Nat
deriving DecidableEq, Repr

/-- A row of `checkpoints`, without its key `job_name`. -/
structure CheckpointRow where
  source : String
  position : String
  generation : Int
  timestamp : Int
deriving DecidableEq, Repr

structure Store where
  pipelines : String → Option PipelineRow
  checkpoints : String → Option CheckpointRow
  /-- `EnsurePipelineID` gives every row an id -/
  id_ne_empty : pipelines "" = none

/-- `core.Checkpoint`, and the time at which the adapter stamps it. -/
structure Checkpoint where
  jobName : String
  source : String := ""
  position : String := ""
  generation : Int := 0
  timestamp : Int := 0
deriving DecidableEq, Repr

/-- `storage.CheckpointRecord`. -/
structure CheckpointRecord extends Checkpoint where
  pipelineID : String := ""
deriving DecidableEq, Repr

def CheckpointRecord.row (rec : CheckpointRecord) : CheckpointRow where
  source := rec.source
  position := rec.position
  generation := rec.generation
  timestamp := rec.timestamp

def Store.generation (st : Store) (id : String) : Option Nat := (st.pipelines id).map (·.generation)

/-! ## Pipelines -/

/-- `UPDATE pipelines SET … WHERE id=?` -/
def Store.updatePipeline (st : Store) (id : String) (f : PipelineRow → PipelineRow) : Store :=
  { st with
    pipelines := fun x => if x = id then (st.pipelines x).map f else st.pipelines x
    id_ne_empty := by simp [st.id_ne_empty] }

def PipelineRow.next (p : PipelineRow) : PipelineRow := { p with generation := p.generation + 1 }

def errNotFound (id : String) : Err := { msg := "pipeline \"" ++ id ++ "\" not found" }

def updatePipelineDesiredState (st : Store) (id : String) (desired : DesiredState) : Store × Option Err :=
  match st.pipelines id with
  | none => (st, some (errNotFound id))
  | some _ => (st.updatePipeline id ({ · with desiredState := desired }), none)

/-- The new generation, for a pipeline that is wanted running. -/
def beginPipelineGeneration (st : Store) (id : String) : Store × Except Err Nat :=
  match st.pipelines id with
  | none => (st, .error (errNotFound id))
  | some p =>
    if p.desiredState = .running then (st.updatePipeline id PipelineRow.next, .ok (p.generation + 1))
    else
      (st, .error
        { msg := "pipeline desired state does not permit execution: pipeline " ++ id ++
            " desired_state=" ++ p.desiredState.text })

/-- The new generation and the name, for a pipeline that is wanted stopped or paused. -/
def advanceQuiescentGeneration (st : Store) (id : String) : Store × Except Err (Nat × String) :=
  match st.pipelines id with
  | none => (st, .error (errNotFound id))
  | some p =>
    if p.desiredState = .stopped ∨ p.desiredState = .paused then
      (st.updatePipeline id PipelineRow.next, .ok (p.generation + 1, p.name))
    else
      (st, .error
        { msg := "pipeline must be stopped or paused for checkpoint mutation: pipeline " ++ id ++
            " desired_state=" ++ p.desiredState.text })

/-! ## Checkpoints -/

/-- `INSERT … ON CONFLICT(job_name) DO UPDATE` of every column. -/
def Store.upsertCheckpoint (st : Store) (rec : CheckpointRecord) : Store :=
  { st with checkpoints := Function.update st.checkpoints rec.jobName (some rec.row) }

def resetPipelineCheckpoint (equal like : String → String → Bool) (st : Store) (id : String) :
    Store × Except Err Nat :=
  match advanceQuiescentGeneration st id with
  | (st, .error e) => (st, .error e)
  | (st, .ok (generation, name)) =>
    ({ st with
        checkpoints := fun job =>
          if equal job id ∨ equal job name ∨ like job (id ++ ".shard-%") ∨ like job (id ++ "-%") then none
          else st.checkpoints job },
      .ok generation)

def setPipelineCheckpoint (st : Store) (id : String) (cp : Checkpoint) : Store × Except Err Nat :=
  match advanceQuiescentGeneration st id with
  | (st, .error e) => (st, .error e)
  | (st, .ok (generation, _)) =>
    (st.upsertCheckpoint { cp with pipelineID := id, generation := generation }, .ok generation)

/-- `core.ErrCheckpointFenced` -/
def errCheckpointFenced (detail : String) : Err :=
  { msg := "checkpoint write fenced by a newer pipeline generation: " ++ detail, fenced := true }

/-- `SaveCheckpoint`: a record that names a pipeline and a generation is written only while that is
the stored generation, one that does not is written as it is. -/
def saveCheckpoint (fail : Option Err) (st : Store) (rec : CheckpointRecord) : Store × Option Err :=
  match fail with
  | some e => (st, some e)
  | none =>
    if rec.pipelineID ≠ "" ∧ 0 < rec.generation then
      match st.generation rec.pipelineID with
      | none => (st, some (errCheckpointFenced ("pipeline " ++ rec.pipelineID ++ " no longer exists")))
      | some current =>
        if (current : Int) = rec.generation then (st.upsertCheckpoint rec, none)
        else
          (st, some (errCheckpointFenced
            ("pipeline=" ++ rec.pipelineID ++ " write_generation=" ++ toString rec.generation ++
              " current_generation=" ++ toString current)))
    else (st.upsertCheckpoint rec, none)

/-- `CheckpointStoreAdapter.Save`: the record takes pipeline and generation from the context's fence. -/
def adapterSave (fail : Option Err) (st : Store) (ctx : Ctx) (cp : Checkpoint) : Store × Option Err :=
  match checkpointFenceFromContext ctx with
  | some fence =>
    saveCheckpoint fail st { cp with pipelineID := fence.pipelineID, generation := fence.generation }
  | none => saveCheckpoint fail st { cp with }

/-! ## What they do to the generation -/

variable (st : Store)

@[simp] theorem generation_updatePipeline_self (id : String) (f : PipelineRow → PipelineRow) :
    (st.updatePipeline id f).generation id = (st.pipelines id).map fun p => (f p).generation := by
  cases h : st.pipelines id <;> simp [Store.generation, Store.updatePipeline, h]

@[simp] theorem generation_updatePipeline_of_ne {id x : String} (f : PipelineRow → PipelineRow)
    (h : x ≠ id) : (st.updatePipeline id f).generation x = st.generation x := by
  simp [Store.generation, Store.updatePipeline, h]

variable (fail : Option Err)

theorem saveCheckpoint_generation (rec : CheckpointRecord) :
    (saveCheckpoint fail st rec).1.generation = st.generation := by
  unfold saveCheckpoint
  split
  · rfl
  split
  · split
    · rfl
    · split <;> rfl
  · rfl

theorem adapterSave_generation (ctx : Ctx) (cp : Checkpoint) :
    (adapterSave fail st ctx cp).1.generation = st.generation := by
  unfold adapterSave
  split <;> exact saveCheckpoint_generation _ _ _

/-- **The fence holds** for a save whose context carries it: unless the stored generation is the
fence's, the table stays as it is. -/
theorem adapterSave_fenced {ctx : Ctx} {fence : CheckpointFence}
    (cp : Checkpoint) (hctx : checkpointFenceFromContext ctx = some fence)
    (hgen : ∀ n, st.generation fence.pipelineID = some n → (n : Int) ≠ fence.generation) :
    (adapterSave fail st ctx cp).1 = st := by
  have hvalid : fence.pipelineID ≠ "" ∧ 0 < fence.generation := by
    obtain ⟨-, h⟩ := Option.filter_eq_some_iff.mp hctx
    simpa using h
  unfold adapterSave
  rw [hctx]
  simp only [saveCheckpoint]
  split
  · rfl
  · rw [if_pos hvalid]
    split
    · rfl
    · rename_i current hcur
      rw [if_neg (hgen current hcur)]

end OpenEtl.Storage
