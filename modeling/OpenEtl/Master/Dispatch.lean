import OpenEtl.Master.Tasks

/-!
# Shards of a distributed run (`master/dispatch.go:54-142`, `pipeline/parallel.go:324-370`)

| here | there |
| --- | --- |
| `taskID` | `fmt.Sprintf("%s-shard-%d", pipelineName, i)` |
| `waitShard` | one turn of `TaskDispatcher.WaitShard` (dispatch.go:102) |
| `Act.start` | `ParallelRunner.startDistributed` (parallel.go:324) |

`task_assignments` has no key on `task_id` (store.go:280), so a second start adds rows under the ids of the first one,
and `GetTask` asks for any one row of an id (`LIMIT 1` without an order). A row here also knows the start that made
it.
-/

namespace OpenEtl.Master.Dispatch

open List Trace

structure Entry where
  task : TaskAssignment
  run : Nat
deriving DecidableEq, Repr

def taskID (pipelineName : String) (i : Nat) : String := pipelineName ++ "-shard-" ++ toString i

def newTask (pipelineName : String) (count : Nat) (now : Int) (i : Nat) : TaskAssignment :=
  { taskID := taskID pipelineName i
    pipeline := pipelineName
    shardIndex := i
    shardTotal := count
    assignedAt := some now }

/-- `DispatchShards`: an error of `CreateTask` is logged, and the result is `nil` in every case. `createFails` if no row
is made; an error behind the insert makes no difference. -/
def dispatchShards (pipelineName : String) (count : Nat) (createFails : Nat → Bool) (now : Int) (run : Nat)
    (rows : List Entry) : List Entry :=
  if count ≤ 1 then rows
  else rows ++ ((List.range count).filter (!createFails ·)).map fun i => ⟨newTask pipelineName count now i, run⟩

def Entry.claimable (pipelineName : String) (i : Nat) (e : Entry) : Bool :=
  e.task.taskID == taskID pipelineName i && e.task.status == .pending

open Entry (claimable)

/-- There is exactly one task a worker may claim for each shard, and the current run has made it. -/
def Dispatched (pipelineName : String) (count run : Nat) (rows : List Entry) : Prop :=
  ∀ i < count, ∃ e : Entry, rows.filter (claimable pipelineName i) = [e] ∧ e.run = run

/-- The status that a turn of `WaitShard` returns for the row `GetTask` has found. -/
def waitShard (found : Option TaskAssignment) : Option TaskStatus :=
  match found with
  | some t => if t.status.terminal then some t.status else none
  | none => none

/-! ## One start -/

variable {i : Nat}

theorem taskID_inj {pipelineName : String} {j : Nat} (h : taskID pipelineName i = taskID pipelineName j) : i = j := by
  have hlist := congrArg String.toList h
  simp only [taskID, String.toList_append, append_cancel_left_eq] at hlist
  have hdigits : Nat.toDigits 10 i = Nat.toDigits 10 j := by
    rw [← Nat.toList_repr, ← Nat.toList_repr]
    exact hlist
  have hread := congrArg (Nat.ofDigitChars 10 · 0) hdigits
  simp only [Nat.ofDigitChars_toDigits (by decide : 1 < 10) (Nat.le_refl 10)] at hread
  exact hread

variable {count run : Nat} {createFails : Nat → Bool} {now : Int} {rows : List Entry}

theorem claimable_new {pipelineName : String} (j : Nat) :
    claimable pipelineName i ⟨newTask pipelineName count now j, run⟩ = decide (j = i) := by
  by_cases hij : j = i
  · simp [claimable, newTask, hij]
  · have hne : taskID pipelineName j ≠ taskID pipelineName i := fun h => hij (taskID_inj h)
    simp [claimable, newTask, hij, hne]

theorem filter_dispatch {pipelineName : String} (hcount : 2 ≤ count) (hi : i < count) :
    (dispatchShards pipelineName count createFails now run rows).filter (claimable pipelineName i) =
      rows.filter (claimable pipelineName i) ++
        if createFails i then [] else [⟨newTask pipelineName count now i, run⟩] := by
  have hone : ((range count).filter (!createFails ·)).filter (· = i) = if createFails i then [] else [i] := by
    rw [filter_eq, Nodup.count (nodup_range.filter _)]
    cases hf : createFails i <;> simp [hf, hi]
  rw [dispatchShards, if_neg (by omega), filter_append, filter_map]
  simp only [Function.comp_def, claimable_new, hone]
  split <;> rfl

/-- **One start.** -/
theorem dispatched_iff {pipelineName : String} (hcount : 1 ≤ count) (hold : ∀ e ∈ rows, e.run < run) :
    Dispatched pipelineName count run (dispatchShards pipelineName count createFails now run rows) ↔
      2 ≤ count ∧ ∀ i < count, createFails i = false ∧ rows.filter (claimable pipelineName i) = [] := by
  constructor
  · intro h
    -- a task of the current run was made just now
    have hmade : 2 ≤ count := by
      by_contra hlt
      obtain ⟨e, he, hrun⟩ := h 0 hcount
      rw [dispatchShards, if_pos (by omega)] at he
      have hmem : e ∈ rows := (mem_filter.mp (he ▸ mem_singleton_self e)).1
      have hlt := hold e hmem
      omega
    refine ⟨hmade, fun i hi => ?_⟩
    obtain ⟨e, he, hrun⟩ := h i hi
    rw [filter_dispatch hmade hi] at he
    cases hf : createFails i with
    | true =>
      rw [hf, if_pos rfl, append_nil] at he
      have hmem : e ∈ rows := (mem_filter.mp (he ▸ mem_singleton_self e)).1
      have hlt := hold e hmem
      omega
    | false =>
      rw [hf, if_neg Bool.false_ne_true] at he
      have hlen := congrArg length he
      simp only [length_append, length_singleton] at hlen
      exact ⟨rfl, eq_nil_of_length_eq_zero (by omega)⟩
  · rintro ⟨hmade, h⟩ i hi
    obtain ⟨hf, hnone⟩ := h i hi
    exact ⟨⟨newTask pipelineName count now i, run⟩, by rw [filter_dispatch hmade hi, hnone, hf]; rfl, rfl⟩

/-! ## Runs -/

structure Sys where
  rows : List Entry := []
  /-- the number of starts -/
  run : Nat := 0
  count : Nat := 0

/-- What can happen to the table. `found` is the number of the row of its id that `GetTask` gets. -/
inductive Act
  | start (count : Nat) (createFails : Nat → Bool) (now : Int)
  | claim (workerID : String) (now leaseUntil : Int) (t : TaskAssignment)
  | casUpdate (t : TaskAssignment)
  | update (t : TaskAssignment)
  /-- `PurgeFinishedTasksBefore` -/
  | purge (cutoff : Int)
  | poll (i found : Nat)

/-- An `UPDATE … WHERE task_id=?`. -/
def updateWhere (id : String) (f : TaskAssignment → TaskAssignment) (rows : List Entry) : List Entry :=
  rows.map fun e => if e.task.taskID = id then { e with task := f e.task } else e

def purged (cutoff : Int) (e : Entry) : Bool :=
  (e.task.status.terminal || e.task.status == .other "cancelled") && e.task.finishedAt.any (· ≤ cutoff)

def step (pipelineName : String) (s : Sys) : Act → Sys
  | .start count createFails now =>
    { rows := dispatchShards pipelineName count createFails now (s.run + 1) s.rows, run := s.run + 1, count }
  | .claim workerID now leaseUntil t =>
    { s with rows := updateWhere t.taskID (fun row => (claimTask workerID now leaseUntil t row).1) s.rows }
  | .casUpdate t => { s with rows := updateWhere t.taskID (fun row => (casUpdateTask t row).1) s.rows }
  | .update t => { s with rows := updateWhere t.taskID (updateTask t) s.rows }
  | .purge cutoff => { s with rows := s.rows.filter (!purged cutoff ·) }
  | .poll _ _ => s

/-- The row that `GetTask` gets. -/
def Sys.getTask (pipelineName : String) (s : Sys) (i found : Nat) : Option Entry :=
  (s.rows.filter (·.task.taskID == taskID pipelineName i))[found]?

/-- A start leaves one claimable task per shard, and a status that is waited for is one the current run's task has. -/
def StepGood (pipelineName : String) (s : Sys) (act : Act) (s' : Sys) : Prop :=
  match act with
  | .start count _ _ => Dispatched pipelineName count s'.run s'.rows
  | .poll i found =>
    i < s.count → ∀ status, waitShard ((s.getTask pipelineName i found).map (·.task)) = some status →
      ∃ e ∈ s.rows, e.task.taskID = taskID pipelineName i ∧ e.run = s.run ∧ e.task.status = status
  | _ => True

/-- At a start there are at least two shards, all rows can be made, and no row of a shard is left. -/
def Orderly (pipelineName : String) (s : Sys) : Act → Prop
  | .start count createFails _ =>
    2 ≤ count ∧ ∀ i < count, createFails i = false ∧ ∀ e ∈ s.rows, e.task.taskID ≠ taskID pipelineName i
  | _ => True

variable {pipelineName : String}

/-- The rows of the current shards are the current run's. -/
structure Inv (pipelineName : String) (s : Sys) : Prop where
  old : ∀ e ∈ s.rows, e.run ≤ s.run
  current : ∀ e ∈ s.rows, ∀ i < s.count, e.task.taskID = taskID pipelineName i → e.run = s.run

variable {s : Sys}

/-- A statement that changes rows in place. -/
theorem Inv.updateWhere (h : Inv pipelineName s) (id : String) {f : TaskAssignment → TaskAssignment}
    (hf : ∀ row, (f row).taskID = row.taskID) : Inv pipelineName { s with rows := updateWhere id f s.rows } := by
  have hback : ∀ e ∈ Dispatch.updateWhere id f s.rows, ∃ e' ∈ s.rows, e'.run = e.run ∧ e'.task.taskID = e.task.taskID := by
    intro e he
    obtain ⟨e', he', rfl⟩ := mem_map.mp he
    refine ⟨e', he', ?_, ?_⟩
    · split <;> rfl
    · split
      · exact (hf e'.task).symm
      · rfl
  refine ⟨fun e he => ?_, fun e he i hi hid => ?_⟩
  · obtain ⟨e', he', hrun, -⟩ := hback e he
    exact hrun ▸ h.old e' he'
  · obtain ⟨e', he', hrun, hid'⟩ := hback e he
    exact hrun ▸ h.current e' he' i hi (hid'.trans hid)

theorem Inv.step {act : Act} (h : Inv pipelineName s) (hok : Orderly pipelineName s act) :
    Inv pipelineName (step pipelineName s act) ∧ StepGood pipelineName s act (step pipelineName s act) := by
  cases act with
  | start count createFails now =>
    obtain ⟨hcount, hshards⟩ := hok
    have hgood : Dispatched pipelineName count (s.run + 1)
        (dispatchShards pipelineName count createFails now (s.run + 1) s.rows) := by
      refine (dispatched_iff (by omega) fun e he => Nat.lt_succ_of_le (h.old e he)).mpr ⟨hcount, fun i hi => ?_⟩
      refine ⟨(hshards i hi).1, filter_eq_nil_iff.mpr fun e he hclaim => ?_⟩
      simp only [claimable, Bool.and_eq_true, beq_iff_eq] at hclaim
      exact (hshards i hi).2 e he hclaim.1
    have hmem : ∀ e ∈ dispatchShards pipelineName count createFails now (s.run + 1) s.rows,
        e ∈ s.rows ∨ e.run = s.run + 1 := by
      intro e he
      rw [dispatchShards, if_neg (by omega)] at he
      rcases mem_append.mp he with he | he
      · exact .inl he
      · obtain ⟨j, -, rfl⟩ := mem_map.mp he
        exact .inr rfl
    refine ⟨⟨fun e he => ?_, fun e he i hi hid => ?_⟩, hgood⟩
    · rcases hmem e he with he | he
      · exact Nat.le_succ_of_le (h.old e he)
      · exact he.le
    · rcases hmem e he with he | he
      · exact absurd hid ((hshards i hi).2 e he)
      · exact he
  | claim workerID now leaseUntil t =>
    refine ⟨h.updateWhere t.taskID fun row => ?_, trivial⟩
    unfold claimTask
    split <;> rfl
  | casUpdate t =>
    refine ⟨h.updateWhere t.taskID fun row => ?_, trivial⟩
    unfold casUpdateTask
    split <;> rfl
  | update t => exact ⟨h.updateWhere t.taskID fun _ => rfl, trivial⟩
  | purge cutoff =>
    refine ⟨⟨fun e he => h.old e (mem_of_mem_filter he), fun e he => h.current e (mem_of_mem_filter he)⟩, trivial⟩
  | poll i found =>
    refine ⟨h, fun hi status hst => ?_⟩
    cases hget : s.getTask pipelineName i found with
    | none => simp [hget, waitShard] at hst
    | some e =>
      obtain ⟨hmem, hid⟩ := mem_filter.mp (mem_of_getElem? hget)
      have hid' : e.task.taskID = taskID pipelineName i := by simpa using hid
      simp only [hget, Option.map_some, waitShard] at hst
      split at hst
      · exact ⟨e, hmem, hid', h.current e hmem i hi hid', Option.some.inj hst⟩
      · exact absurd hst nofun

/-- **Dispatch of a run**, and of all runs of a pipeline. -/
theorem dispatched_shards_wait_iff (pipelineName : String) :
    (∀ count createFails now run rows, 1 ≤ count → (∀ e ∈ rows, e.run < run) →
      (Dispatched pipelineName count run (dispatchShards pipelineName count createFails now run rows) ↔
        2 ≤ count ∧ ∀ i < count, createFails i = false ∧ rows.filter (claimable pipelineName i) = [])) ∧
    ∀ acts, Steps (Orderly pipelineName) (step pipelineName) {} acts →
      Steps (fun s act => StepGood pipelineName s act (step pipelineName s act)) (step pipelineName) {} acts :=
  ⟨fun _ _ _ _ _ hcount hold => dispatched_iff hcount hold,
    fun _ h => steps_of_invariant (Inv pipelineName) (fun _ _ hok h => h.step hok) ⟨by simp, by simp⟩ h⟩

/-- Two starts, between which the tasks of the first one end, are waited for and purged. -/
def purgedBetween : List Act :=
  [.start 2 (fun _ => false) 0, .update { newTask "p" 2 0 0 with status := .completed, finishedAt := some 9 },
    .update { newTask "p" 2 0 1 with status := .failed, finishedAt := some 9 }, .poll 0 0, .purge 10,
    .start 2 (fun _ => false) 20]

theorem purged_runs_dispatched :
    Steps (fun s act => StepGood "p" s act (step "p" s act)) (step "p") {} purgedBetween := by
  refine (dispatched_shards_wait_iff "p").2 _ ⟨?_, trivial, trivial, trivial, trivial, ?_, trivial⟩ <;>
    unfold Orderly <;> decide

/-- The first run ends; the second start finds its rows, and waiting for its first shard ends at once. A single shard
gets no task. -/
theorem earlier_run_awaited :
    let first := Trace.run (step "p") {}
      [.start 2 (fun _ => false) 0, .claim "w" 1 31 (newTask "p" 2 0 0),
        .casUpdate { claimed "w" 1 31 (newTask "p" 2 0 0) with status := .completed, finishedAt := some 9 }]
    let second := step "p" first (.start 2 (fun _ => false) 20)
    waitShard ((second.getTask "p" 0 0).map (·.task)) = some .completed ∧
      (∀ e ∈ second.rows, e.run = second.run → e.task.status = .pending) ∧
      (step "p" {} (.start 1 (fun _ => false) 0)).rows = [] := by
  decide

end OpenEtl.Master.Dispatch
