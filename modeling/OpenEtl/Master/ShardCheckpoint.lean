import OpenEtl.Master.TaskRow
import OpenEtl.Storage.Store

/-!
# The checkpoint of a shard (`worker/executor.go:40`, `pipeline/shard_builder.go:31`, `pipeline/parallel.go:450`)

| here | there |
| --- | --- |
| `buildShardRunner` | `BuildShardRunner`, as far as the key its runner saves under |
| `Act.save` | `checkpointStore.Save` in `saveCommittedCheckpoint` (pipeline.go:1749) |

`ExecuteShard` hands the runner no generation. The tick saves under the worker's own context (pipeline.go:1134), every
other save under one made from `context.Background()` (pipeline.go:1105, 1140, 1165), and no fence is put into either: an
execution whose task was claimed again in the meantime saves as before. Only if no execution is left when the task is
claimed again does the checkpoint have one writer (`one_checkpoint_writer`). `specName` is the name in the specification
that `ExecuteShard` loads for the task.
-/

namespace OpenEtl.Master.Shard

open Storage

open Trace

def shardKey (baseName : String) (shardIdx : Nat) : String := baseName ++ ".shard-" ++ toString shardIdx

def buildShardRunner (specName : String) (idx total : Nat) : Except Err String :=
  let total := if total < 1 then 1 else total
  if total ≤ idx then
    .error { msg := "invalid shard index " ++ toString idx ++ " (total " ++ toString total ++ ")" }
  -- a single shard keeps the key of the pipeline itself
  else if 1 < total then .ok (shardKey specName idx)
  else .ok specName

structure Sys where
  tasks : Master.Sys
  store : Store

inductive Act
  | task (act : Master.Act)
  /-- the execution of agent `a` saves a checkpoint -/
  | save (a : Nat) (cp : Checkpoint) (fail : Option Err)
  /-- the worker of agent `a` shuts down or is lost; its task stays as it is -/
  | stop (a : Nat)

def step (maxAttempts : Int) (specName : String) (s : Sys) : Act → Sys
  | .task act => { s with tasks := Master.step maxAttempts s.tasks act }
  | .save a cp fail =>
    match s.tasks.locals a with
    | .executing t =>
      match buildShardRunner specName t.shardIndex t.shardTotal with
      | .ok key => { s with store := (adapterSave fail s.store Ctx.background { cp with jobName := key }).1 }
      | .error _ => s
    | _ => s
  | .stop a => { s with tasks := s.tasks.at a .idle }

/-- The task was claimed again after the execution's own claim. -/
def Sys.Superseded (s : Sys) (t : TaskAssignment) : Prop := ∃ c ∈ s.tasks.claims, t.generation < c.2

instance (s : Sys) (t : TaskAssignment) : Decidable (s.Superseded t) :=
  inferInstanceAs (Decidable (∃ c ∈ s.tasks.claims, t.generation < c.2))

/-- An execution that was superseded does not change the shard's checkpoint. -/
def SaveFenced (maxAttempts : Int) (specName : String) (s : Sys) (act : Act) : Prop :=
  match act with
  | .task _ | .stop _ => True
  | .save a cp fail =>
    ∀ t key, s.tasks.locals a = .executing t → s.Superseded t →
      buildShardRunner specName t.shardIndex t.shardTotal = .ok key →
        (step maxAttempts specName s (.save a cp fail)).store.checkpoints key = s.store.checkpoints key

/-- The task is claimed only while nobody executes it, and its execution starts only if nobody has claimed it since. -/
def Alone (s : Sys) (act : Act) : Prop :=
  match act with
  | .task (.claim _ _ _) => ∀ a t, s.tasks.locals a ≠ .executing t
  | .task (.markRunning a _ _ _) => ∀ t, s.tasks.locals a = .claimed t → ¬s.Superseded t
  | .task (.update a) => ∀ t, s.tasks.locals a = .unconditional t false → ¬s.Superseded t
  | _ => True

/-- The executions that go on are those of the last claim. -/
def Latest (s : Sys) : Prop := ∀ a t, s.tasks.locals a = .executing t → ¬s.Superseded t

variable {maxAttempts : Int} {specName : String} {s : Sys}

theorem step_claims {act : Master.Act} (h : ∀ a now lease, act ≠ .claim a now lease) (tasks : Master.Sys) :
    (Master.step maxAttempts tasks act).claims = tasks.claims := by
  cases act with
  | claim a now lease => exact absurd rfl (h a now lease)
  | _ =>
    simp only [Master.step]
    repeat' split
    all_goals rfl

theorem Latest.task {act : Master.Act} (h : Latest s) (hok : Alone s (.task act)) :
    Latest (step maxAttempts specName s (.task act)) := by
  intro a t hl
  by_cases hclaim : ∃ b now lease, act = .claim b now lease
  · -- nobody executes when the task is claimed, and the claim starts no execution
    obtain ⟨b, now, lease, rfl⟩ := hclaim
    rcases step_executing hl with hbefore | ⟨_, _, _, hact, -⟩ | ⟨hact, -⟩
    · exact absurd hbefore (hok a t)
    · cases hact
    · cases hact
  · have hsame : (step maxAttempts specName s (.task act)).Superseded t ↔ s.Superseded t := by
      simp only [Sys.Superseded, step, step_claims fun b now lease heq => hclaim ⟨b, now, lease, heq⟩]
    rw [hsame]
    rcases step_executing hl with hbefore | ⟨now, ttl, t', rfl, hclaimed, rfl⟩ | ⟨rfl, hnext⟩
    · exact h a t hbefore
    · exact hok t' hclaimed
    · exact hok t hnext

theorem Latest.step (h : Latest s) {act : Act} (hok : Alone s act) : Latest (step maxAttempts specName s act) := by
  cases act with
  | task act => exact h.task hok
  | save a cp fail =>
    have htasks : (Shard.step maxAttempts specName s (.save a cp fail)).tasks = s.tasks := by
      simp only [Shard.step]
      repeat' split
      all_goals rfl
    intro b t hl
    rw [Sys.Superseded, htasks]
    exact h b t (htasks ▸ hl)
  | stop a =>
    intro b t hl
    by_cases hb : b = a
    · subst hb
      simp [Shard.step, Master.Sys.at] at hl
    · exact h b t (by simpa [Shard.step, Master.Sys.at, hb] using hl)

theorem Latest.saveFenced (h : Latest s) (act : Act) : SaveFenced maxAttempts specName s act := by
  cases act with
  | task act => trivial
  | save a cp fail => exact fun t key hl hsup => absurd hsup (h a t hl)
  | stop a => trivial

/-- **The checkpoint of a shard has one writer** in every run in which the task is claimed only while nobody executes it,
and an execution starts only if the task was not claimed since. -/
theorem one_checkpoint_writer (maxAttempts : Int) (specName : String) (row : TaskAssignment) (store : Store)
    (acts : List Act) (h : Steps Alone (step maxAttempts specName) { tasks := { row }, store } acts) :
    Steps (SaveFenced maxAttempts specName) (step maxAttempts specName) { tasks := { row }, store } acts :=
  steps_of_invariant Latest (fun _ act hok h => ⟨h.step hok, h.saveFenced act⟩) (fun _ _ hl => nomatch hl) h

theorem noPipelines : (fun _ : String => (none : Option PipelineRow)) "" = none := rfl

def emptyStore : Store where
  pipelines _ := none
  checkpoints _ := none
  id_ne_empty := noPipelines

def shardOne : TaskAssignment := { pipeline := "p", shardIndex := 1, shardTotal := 2 }

/-- A worker shuts down, and another one goes on from its checkpoint. -/
theorem takeover_after_stop :
    Steps (SaveFenced 3 "p") (step 3 "p") { tasks := { row := shardOne }, store := emptyStore }
      [.task (.list 1 "w1"), .task (.claim 1 0 30), .task (.markRunning 1 1 30 false),
        .save 1 { jobName := "", position := "100" } none, .stop 1, .task (.listStale 9 (offline "w1") 40),
        .task (.reassign 9), .task (.list 2 "w2"), .task (.claim 2 41 71), .task (.markRunning 2 42 30 false),
        .save 2 { jobName := "", position := "200" } none] := by
  refine one_checkpoint_writer 3 "p" shardOne emptyStore _
    ⟨trivial, fun a t h => ?_, fun t h hsup => ?_, trivial, trivial, trivial, trivial, trivial, fun a t h => ?_,
      fun t h hsup => ?_, trivial, trivial⟩
  · rcases eq_or_ne a 1 with rfl | h1
    · cases h
    · cases (Function.update_of_ne h1 _ _).symm.trans h
  · cases h
    exact absurd hsup (by decide)
  · rcases eq_or_ne a 1 with rfl | h1
    · cases h
    rcases eq_or_ne a 9 with rfl | h9
    · cases h
    rcases eq_or_ne a 2 with rfl | h2
    · cases h
    -- no other agent has acted
    have of9 {f : Nat → Local} {l : Local} : Function.update f 9 l a = f a := Function.update_of_ne h9 _ _
    have of1 {f : Nat → Local} {l : Local} : Function.update f 1 l a = f a := Function.update_of_ne h1 _ _
    have hstopped := of9.symm.trans (of9.symm.trans ((Function.update_of_ne h2 _ _).symm.trans h))
    cases of1.symm.trans (of1.symm.trans (of1.symm.trans (of1.symm.trans hstopped)))
  · cases h
    exact absurd hsup (by decide)

/-- A worker is cut off from the master and goes on. Its checkpoint replaces that of the worker which took over. -/
theorem old_worker_saves_last :
    ¬ Steps (SaveFenced 3 "p") (step 3 "p") { tasks := { row := shardOne }, store := emptyStore }
      [.task (.list 1 "w1"), .task (.claim 1 0 30), .task (.markRunning 1 1 30 false),
        .task (.listStale 9 (offline "w1") 40), .task (.reassign 9), .task (.list 2 "w2"), .task (.claim 2 41 71),
        .task (.markRunning 2 42 30 false), .save 2 { jobName := "", position := "200" } none,
        .save 1 { jobName := "", position := "100" } none] := by
  intro h
  have hsame := h.2.2.2.2.2.2.2.2.2.1 _ "p.shard-1" rfl ⟨("w2", 2), by decide, by decide⟩ rfl
  exact absurd (congrArg (Option.map (·.position)) hsame) (by decide)

end OpenEtl.Master.Shard
