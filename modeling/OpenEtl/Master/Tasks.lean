import OpenEtl.Lib.Trace

/-!
# Task assignments (`storage/sqlstore/store.go:1600-1696`, `master/dispatch.go:202-298`, `worker/poll.go:101-138`)

| here | there |
| --- | --- |
| `TaskAssignment` | `storage.TaskAssignment`, and a row of `task_assignments` |
| `updateTask`, `casUpdateTask` | the statements of these methods (store.go:1615, 1679) |
| `claimTask` | the `UPDATE` of `Store.ClaimTask` (store.go:1648), for a task that was listed |
| `reportTask` | `ReportTaskResult` (dispatch.go:204) between `GetTask` and `CASUpdateTask` |
| `reassignTask` | `ReassignStaleTasks` (dispatch.go:240) between `ListTasks` and `UpdateTask` |
| `markRunning`, `markTerminal` | `casMarkRunning`, `casMarkTerminal` (poll.go:103, 123) before the update |

A statement is a function of the row; the flag says that the row was affected. Times are numbers. The order in which
tasks are listed and the labels of workers decide which task a worker is offered, and are left to the caller.
-/

namespace OpenEtl.Master

inductive TaskStatus
  | pending | assigned | running | completed | failed
  /-- a text from the body of a report -/
  | other (text : String)
deriving DecidableEq, Repr

def TaskStatus.terminal : TaskStatus → Bool
  | .completed | .failed => true
  | _ => false

structure TaskAssignment where
  taskID : String := ""
  pipeline : String := ""
  shardIndex : Nat := 0
  shardTotal : Nat := 0
  workerID : String := ""
  status : TaskStatus := .pending
  generation : Int := 0
  attempt : Int := 0
  assignedAt : Option Int := none
  startedAt : Option Int := none
  finishedAt : Option Int := none
  leaseExpiresAt : Option Int := none
  lastError : String := ""
deriving DecidableEq, Repr

/-! ## Statements -/

def updateTask (t row : TaskAssignment) : TaskAssignment :=
  { row with
    status := t.status
    workerID := t.workerID
    startedAt := t.startedAt
    finishedAt := t.finishedAt
    generation := t.generation
    attempt := t.attempt
    leaseExpiresAt := t.leaseExpiresAt
    lastError := t.lastError }

def claimed (workerID : String) (now leaseUntil : Int) (t : TaskAssignment) : TaskAssignment :=
  { t with
    workerID
    status := .assigned
    generation := t.generation + 1
    attempt := t.attempt + 1
    assignedAt := some now
    startedAt := none
    finishedAt := none
    leaseExpiresAt := some leaseUntil
    lastError := "" }

/-- `WHERE status='pending' AND generation=?`; the new values are those of the task as it was listed. -/
def claimTask (workerID : String) (now leaseUntil : Int) (t row : TaskAssignment) : TaskAssignment × Bool :=
  if row.status = .pending ∧ row.generation = t.generation then
    ({ claimed workerID now leaseUntil row with attempt := t.attempt + 1 }, true)
  else (row, false)

/-- `WHERE worker_id=? AND generation=?` -/
def casUpdateTask (t row : TaskAssignment) : TaskAssignment × Bool :=
  if row.workerID = t.workerID ∧ row.generation = t.generation then
    ({ row with
      status := t.status
      startedAt := t.startedAt
      finishedAt := t.finishedAt
      leaseExpiresAt := t.leaseExpiresAt
      lastError := t.lastError
      attempt := t.attempt }, true)
  else (row, false)

/-! ## What is written -/

/-- `none` is `ErrTaskFenced`. -/
def reportTask (workerID : String) (generation : Int) (status : TaskStatus) (lastError : String) (now : Int)
    (t : TaskAssignment) : Option TaskAssignment :=
  if workerID ≠ "" ∧ t.workerID ≠ "" ∧ t.workerID ≠ workerID then none
  else if 0 < generation ∧ t.generation ≠ generation then none
  else
    some
      { t with
        status
        finishedAt := some now
        lastError := if lastError ≠ "" then lastError else t.lastError
        workerID := if workerID ≠ "" then workerID else t.workerID
        generation := if 0 < generation then generation else t.generation }

/-- Why a task is stale: its worker is not among those online, or its lease has run out. -/
def staleReason (online : String → Bool) (now : Int) (t : TaskAssignment) : Option String :=
  if t.workerID ≠ "" ∧ online t.workerID = false then some ("worker " ++ t.workerID ++ " offline")
  else if t.leaseExpiresAt.any (· < now) then some "lease expired"
  else none

/-- `none` when the task is left alone. The worker of a task that is given up stays in the row. -/
def reassignTask (maxAttempts : Int) (online : String → Bool) (now : Int) (t : TaskAssignment) : Option TaskAssignment :=
  if t.status ≠ .assigned ∧ t.status ≠ .running then none
  else
    (staleReason online now t).map fun reason =>
      if maxAttempts ≤ t.attempt then
        { t with
          status := .failed
          lastError := "exceeded max attempts (" ++ toString maxAttempts ++ "): " ++ reason
          finishedAt := some now }
      else
        { t with
          status := .pending
          workerID := ""
          assignedAt := none
          startedAt := none
          finishedAt := none
          leaseExpiresAt := none
          lastError := reason }

def markRunning (now leaseTTL : Int) (t : TaskAssignment) : TaskAssignment :=
  { t with
    status := .running
    startedAt := some now
    leaseExpiresAt := if t.leaseExpiresAt.all (· < now) then some (now + leaseTTL) else t.leaseExpiresAt }

def markTerminal (status : TaskStatus) (lastError : String) (now : Int) (t : TaskAssignment) : TaskAssignment :=
  { t with
    status
    finishedAt := some now
    lastError := if lastError ≠ "" then lastError else t.lastError }

/-! ## What a statement leaves of the row -/

variable {now : Int} {ok : Bool} {row row' t : TaskAssignment} {workerID : String}

theorem claimTask_cases {leaseUntil : Int}
    (h : claimTask workerID now leaseUntil t row = (row', ok)) :
    (ok = true ∧ row.status = .pending ∧ row.generation = t.generation ∧ row'.generation = row.generation + 1 ∧
        row'.status = .assigned ∧ row'.workerID = workerID) ∨
      ok = false ∧ row' = row := by
  unfold claimTask at h
  split at h
  · rename_i hcond
    cases h
    exact .inl ⟨rfl, hcond.1, hcond.2, rfl, rfl, rfl⟩
  · cases h
    exact .inr ⟨rfl, rfl⟩

theorem casUpdateTask_cases (h : casUpdateTask t row = (row', ok)) :
    (ok = true ∧ row.workerID = t.workerID ∧ row.generation = t.generation ∧ row'.generation = row.generation ∧
        row'.status = t.status) ∨
      ok = false ∧ row' = row := by
  unfold casUpdateTask at h
  split at h
  · rename_i hcond
    cases h
    exact .inl ⟨rfl, hcond.1, hcond.2, rfl, rfl⟩
  · cases h
    exact .inr ⟨rfl, rfl⟩

theorem reportTask_generation {generation : Int} {status : TaskStatus} {lastError : String}
    {t' : TaskAssignment} (h : reportTask workerID generation status lastError now t = some t')
    (hpos : 0 < generation) : t'.generation = generation := by
  unfold reportTask at h
  split at h
  · cases h
  split at h
  · cases h
  · cases h
    rfl

end OpenEtl.Master
