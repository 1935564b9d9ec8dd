import OpenEtl.Master.Tasks

/-!
# The row of a task between workers and masters

Any number of agents act on one row, each statement by itself: between a `ListTasks` or `GetTask` and the update that
follows it the row may be changed by others. An agent is what runs one `ClaimTask` with the execution it leads to, one
`ReportTaskResult`, or one turn of `ReassignStaleTasks`; reports come from anyone who can reach the master.

Claims and reports compare and set. `ReassignStaleTasks` writes back the row it listed, generation included, and so does
a worker whose update met an error of the database (poll.go:116, 136). `task_row_safe` says what holds as long as
such a write finds the generation it was read with, and nobody writes to a task that has ended.
-/

namespace OpenEtl.Master

open List Function Trace

/-- Where an agent is, and the task it has in its hands. -/
inductive Local
  | idle
  /-- in `ClaimTask`, with the task it has listed -/
  | listed (workerID : String) (t : TaskAssignment)
  | claimed (t : TaskAssignment)
  | executing (t : TaskAssignment)
  /-- `CASUpdateTask` met an error that is not `ErrTaskFenced`: `UpdateTask` comes next -/
  | unconditional (t : TaskAssignment) (terminal : Bool)
  /-- in `ReportTaskResult`, with the task it will write -/
  | reporting (workerID : String) (generation : Int) (t : TaskAssignment)
  /-- in `ReassignStaleTasks`, with the task it will write -/
  | reassigning (t : TaskAssignment)
deriving DecidableEq, Repr

inductive Act
  | list (a : Nat) (workerID : String)
  | claim (a : Nat) (now leaseUntil : Int)
  | markRunning (a : Nat) (now leaseTTL : Int) (err : Bool)
  | markTerminal (a : Nat) (completed : Bool) (lastError : String) (now : Int) (err : Bool)
  | update (a : Nat)
  | get (a : Nat) (workerID : String) (generation : Int) (status : TaskStatus) (lastError : String) (now : Int)
  | report (a : Nat)
  | listStale (a : Nat) (online : String → Bool) (now : Int)
  | reassign (a : Nat)

structure Sys where
  row : TaskAssignment
  locals : Nat → Local := fun _ => .idle
  /-- the claims that were made: worker and generation -/
  claims : List (String × Int) := []

def Sys.at (s : Sys) (a : Nat) (l : Local) : Sys := { s with locals := update s.locals a l }

def step (maxAttempts : Int) (s : Sys) : Act → Sys
  | .list a workerID =>
    match s.locals a with
    | .idle => if s.row.status = .pending then s.at a (.listed workerID s.row) else s
    | _ => s
  | .claim a now leaseUntil =>
    match s.locals a with
    | .listed workerID t =>
      match claimTask workerID now leaseUntil t s.row with
      | (row, true) =>
        { s.at a (.claimed (claimed workerID now leaseUntil t)) with
          row
          claims := s.claims ++ [(workerID, t.generation + 1)] }
      | (_, false) => s.at a .idle
    | _ => s
  | .markRunning a now leaseTTL err =>
    match s.locals a with
    | .claimed t =>
      let t := markRunning now leaseTTL t
      if err then s.at a (.unconditional t false)
      else
        let (row, ok) := casUpdateTask t s.row
        { s.at a (if ok then .executing t else .idle) with row }
    | _ => s
  | .markTerminal a completed lastError now err =>
    match s.locals a with
    | .executing t =>
      let t := markTerminal (if completed then .completed else .failed) lastError now t
      if err then s.at a (.unconditional t true)
      else { s.at a .idle with row := (casUpdateTask t s.row).1 }
    | _ => s
  | .update a =>
    match s.locals a with
    | .unconditional t terminal => { s.at a (if terminal then .idle else .executing t) with row := updateTask t s.row }
    | _ => s
  | .get a workerID generation status lastError now =>
    match s.locals a with
    | .idle =>
      match reportTask workerID generation status lastError now s.row with
      | some t => s.at a (.reporting workerID generation t)
      | none => s
    | _ => s
  | .report a =>
    match s.locals a with
    | .reporting _ _ t => { s.at a .idle with row := (casUpdateTask t s.row).1 }
    | _ => s
  | .listStale a online now =>
    match s.locals a with
    | .idle =>
      match reassignTask maxAttempts online now s.row with
      | some t => s.at a (.reassigning t)
      | none => s
    | _ => s
  | .reassign a =>
    match s.locals a with
    | .reassigning t => { s.at a .idle with row := updateTask t s.row }
    | _ => s

/-! ## What a step may do to the row -/

/-- The write an act makes: the task, by compare and set or not, and for whom: a worker's report for a generation. -/
structure Write where
  task : TaskAssignment
  cas : Bool
  report : Option (String × Int) := none

/-- The write that is due; claims apart. -/
def Sys.write (s : Sys) : Act → Option Write
  | .markRunning a now leaseTTL false =>
    match s.locals a with
    | .claimed t => some ⟨markRunning now leaseTTL t, true, some (t.workerID, t.generation)⟩
    | _ => none
  | .markTerminal a completed lastError now false =>
    match s.locals a with
    | .executing t =>
      some ⟨markTerminal (if completed then .completed else .failed) lastError now t, true,
        some (t.workerID, t.generation)⟩
    | _ => none
  | .update a =>
    match s.locals a with
    | .unconditional t _ => some ⟨t, false, some (t.workerID, t.generation)⟩
    | _ => none
  | .report a =>
    match s.locals a with
    | .reporting workerID generation t => some ⟨t, true, some (workerID, generation)⟩
    | _ => none
  | .reassign a =>
    match s.locals a with
    | .reassigning t => some ⟨t, false, none⟩
    | _ => none
  | _ => none

def Write.run (w : Write) (row : TaskAssignment) : TaskAssignment :=
  if w.cas then (casUpdateTask w.task row).1 else updateTask w.task row

/-- Another worker has claimed the task since. -/
def Sys.Superseded (s : Sys) (workerID : String) (generation : Int) : Prop :=
  ∃ c ∈ s.claims, c.1 ≠ workerID ∧ generation < c.2

/-- The generation does not go back, every claim has its own, a task that has ended stays as it ended, and a report
that was superseded changes nothing. -/
structure StepSafe (s : Sys) (act : Act) (s' : Sys) : Prop where
  generation : s.row.generation ≤ s'.row.generation
  claims : (s'.claims.map (·.2)).Nodup
  ended : s.row.status.terminal = true → s'.row.status = s.row.status
  reports : ∀ w workerID generation, s.write act = some w → w.report = some (workerID, generation) →
    s.Superseded workerID generation → s'.row = s.row

/-- A write by compare and set does not reach a task that has ended otherwise; any other finds the generation it was
read with, in a task that has not ended. A report names the generation it is for, unless its worker is the only one. -/
structure Write.InOrder (s : Sys) (w : Write) : Prop where
  cas : w.cas = true → s.row.workerID = w.task.workerID → s.row.generation = w.task.generation →
    s.row.status.terminal = false ∨ s.row.status = w.task.status
  plain : w.cas = false → s.row.generation = w.task.generation ∧ s.row.status.terminal = false
  named : ∀ r ∈ w.report, 0 < r.2 ∨ ∀ c ∈ s.claims, c.1 = r.1

def Orderly (s : Sys) (act : Act) : Prop := ∀ w ∈ s.write act, w.InOrder s

instance (s : Sys) (w : Write) : Decidable (w.InOrder s) :=
  decidable_of_iff
    ((w.cas = true → s.row.workerID = w.task.workerID → s.row.generation = w.task.generation →
        s.row.status.terminal = false ∨ s.row.status = w.task.status) ∧
      (w.cas = false → s.row.generation = w.task.generation ∧ s.row.status.terminal = false) ∧
        ∀ r ∈ w.report, 0 < r.2 ∨ ∀ c ∈ s.claims, c.1 = r.1)
    ⟨fun h => ⟨h.1, h.2.1, h.2.2⟩, fun h => ⟨h.cas, h.plain, h.named⟩⟩

instance (s : Sys) (act : Act) : Decidable (Orderly s act) :=
  inferInstanceAs (Decidable (∀ w ∈ s.write act, w.InOrder s))

/-! ## Every step -/

variable {maxAttempts : Int}

/-- **What a step does**: a claim that takes the next generation, or the write that is due. -/
theorem step_cases (s : Sys) (act : Act) :
    (∃ workerID, s.row.status = .pending ∧ s.write act = none ∧
        (step maxAttempts s act).row.generation = s.row.generation + 1 ∧
        (step maxAttempts s act).claims = s.claims ++ [(workerID, s.row.generation + 1)]) ∨
      (step maxAttempts s act).claims = s.claims ∧
        (s.write act = none ∧ (step maxAttempts s act).row = s.row ∨
          ∃ w, s.write act = some w ∧ (step maxAttempts s act).row = w.run s.row) := by
  cases act with
  | list a workerID =>
    cases hl : s.locals a <;> simp only [step, Sys.write, hl]
    case idle => by_cases hp : s.row.status = .pending <;> simp [hp, Sys.at]
    all_goals simp
  | claim a now leaseUntil =>
    cases hl : s.locals a
    case listed workerID t =>
      rcases hc : claimTask workerID now leaseUntil t s.row with ⟨row, _ | _⟩
      · simp [step, Sys.write, hl, hc, Sys.at]
      · rcases claimTask_cases hc with ⟨-, hpending, hgen, hnew, -⟩ | ⟨hno, -⟩
        · left
          refine ⟨workerID, hpending, rfl, ?_, ?_⟩ <;> simp [step, hl, hc, hnew, hgen]
        · cases hno
    all_goals
      simp [step, Sys.write, hl]
  | markRunning a now leaseTTL err | markTerminal a completed lastError now err =>
    cases hl : s.locals a <;> cases err <;> simp [step, Sys.write, Write.run, hl, Sys.at]
  | update a | report a | reassign a =>
    cases hl : s.locals a <;> simp [step, Sys.write, Write.run, hl, Sys.at]
  | get a workerID generation status lastError now =>
    cases hl : s.locals a <;> simp only [step, Sys.write, hl]
    case idle => cases reportTask workerID generation status lastError now s.row <;> simp [Sys.at]
    all_goals simp
  | listStale a online now =>
    cases hl : s.locals a <;> simp only [step, Sys.write, hl]
    case idle => cases reassignTask maxAttempts online now s.row <;> simp [Sys.at]
    all_goals simp

/-- A report with a generation writes that generation. -/
structure Inv (s : Sys) : Prop where
  claims : ∀ c ∈ s.claims, c.2 ≤ s.row.generation
  increasing : (s.claims.map (·.2)).Pairwise (· < ·)
  reporting : ∀ a workerID generation t, s.locals a = .reporting workerID generation t → 0 < generation →
    t.generation = generation

variable {act : Act} {generation : Int} {s : Sys} {workerID : String}

/-- The agent that acts. -/
def Act.agent : Act → Nat
  | .list a _ | .claim a _ _ | .markRunning a _ _ _ | .markTerminal a _ _ _ _ | .update a | .get a _ _ _ _ _ | .report a
  | .listStale a _ _ | .reassign a => a

section

variable {a : Nat} {t : TaskAssignment}

theorem step_locals_of_ne (h : a ≠ act.agent) : (step maxAttempts s act).locals a = s.locals a := by
  cases act <;> simp only [step] <;> (repeat' split) <;>
    first
    | rfl
    | exact update_of_ne h _ _

/-- An agent that reports afterwards has read the row just now, or was reporting before. -/
theorem step_reporting (h : (step maxAttempts s act).locals a = .reporting workerID generation t) :
    s.locals a = .reporting workerID generation t ∨
      ∃ status lastError now, reportTask workerID generation status lastError now s.row = some t := by
  by_cases ha : a = act.agent
  swap
  · exact .inl (by rwa [step_locals_of_ne ha] at h)
  subst ha
  cases act with
  | get b w g status lastError now =>
    simp only [step, Act.agent] at h ⊢
    split at h
    · split at h
      · rename_i t' ht'
        simp only [Sys.at, update_self] at h
        obtain ⟨rfl, rfl, rfl⟩ := Local.reporting.inj h
        exact .inr ⟨status, lastError, now, ht'⟩
      · exact .inl h
    · exact .inl h
  | _ =>
    left
    simp only [step, Act.agent] at h ⊢
    repeat' split at h
    all_goals simp_all [Sys.at]

/-- An agent that executes afterwards has just started, after its claim, or was executing before. -/
theorem step_executing (h : (step maxAttempts s act).locals a = .executing t) :
    s.locals a = .executing t ∨
      (∃ now ttl t', act = .markRunning a now ttl false ∧ s.locals a = .claimed t' ∧ t = markRunning now ttl t') ∨
        act = .update a ∧ s.locals a = .unconditional t false := by
  by_cases ha : a = act.agent
  swap
  · exact .inl (by rwa [step_locals_of_ne ha] at h)
  subst ha
  cases act <;> simp only [step, Act.agent] at h ⊢ <;> repeat' split at h
  all_goals simp_all [Sys.at]

end

variable {w : Write}

/-- A write under the condition keeps the generation, and the status of a task that has ended. -/
theorem Write.run_orderly (hw : s.write act = some w) (hok : Orderly s act) :
    (w.run s.row).generation = s.row.generation ∧
      (s.row.status.terminal = true → (w.run s.row).status = s.row.status) := by
  obtain ⟨hcas, hplain, -⟩ := hok w hw
  unfold Write.run
  cases hc : w.cas with
  | true =>
    rcases hres : casUpdateTask w.task s.row with ⟨row, ok⟩
    rcases casUpdateTask_cases hres with ⟨-, hworker, hgen, hsame, hstatus⟩ | ⟨-, rfl⟩
    · refine ⟨hsame, fun hended => ?_⟩
      rcases hcas hc hworker hgen with hopen | heq
      · cases hended.symm.trans hopen
      · exact hstatus.trans heq.symm
    · exact ⟨rfl, fun _ => rfl⟩
  | false =>
    obtain ⟨hgen, hopen⟩ := hplain hc
    exact ⟨hgen.symm, fun hended => absurd (hended.symm.trans hopen) nofun⟩

/-- A worker writes for the generation of its task; a report for the one it names. -/
theorem write_report (hw : s.write act = some w) (hr : w.report = some (workerID, generation)) :
    w.task.generation = generation ∨ ∃ a, s.locals a = .reporting workerID generation w.task := by
  have hown : ∀ {t t' : TaskAssignment} {cas : Bool}, t'.generation = t.generation →
      some (⟨t', cas, some (t.workerID, t.generation)⟩ : Write) = some w → w.task.generation = generation := by
    intro t t' cas ht hsome
    cases hsome
    obtain ⟨-, rfl⟩ := Prod.mk.inj (Option.some.inj hr)
    exact ht
  cases act with
  | markRunning a now leaseTTL err | markTerminal a completed lastError now err =>
    cases err with
    | true => simp [Sys.write] at hw
    | false =>
      simp only [Sys.write] at hw
      split at hw
      · exact .inl (hown rfl hw)
      · simp at hw
  | update a =>
    simp only [Sys.write] at hw
    split at hw
    · exact .inl (hown rfl hw)
    · simp at hw
  | report a =>
    simp only [Sys.write] at hw
    split at hw
    · rename_i hl
      cases hw
      cases Option.some.inj hr
      exact .inr ⟨a, hl⟩
    · simp at hw
  | reassign a =>
    simp only [Sys.write] at hw
    split at hw
    · cases hw
      simp at hr
    · simp at hw
  | list | claim | get | listStale => simp [Sys.write] at hw

/-- A report that was superseded finds another generation in the row than the one it writes for. -/
theorem Inv.superseded (h : Inv s) (hw : s.write act = some w) (hok : Orderly s act)
    (hr : w.report = some (workerID, generation)) (hsup : s.Superseded workerID generation) : w.run s.row = s.row := by
  obtain ⟨c, hc, hother, hlt⟩ := hsup
  have hle := h.claims c hc
  obtain ⟨-, hplain, hnamed⟩ := hok w hw
  have hpos : 0 < generation := (hnamed _ hr).resolve_right fun hall => hother (hall c hc)
  have htask : w.task.generation = generation := by
    rcases write_report hw hr with heq | ⟨a, hl⟩
    · exact heq
    · exact h.reporting a workerID generation w.task hl hpos
  have hne : s.row.generation ≠ w.task.generation := by omega
  unfold Write.run
  cases hcas : w.cas with
  | true =>
    rw [if_pos rfl]
    unfold casUpdateTask
    rw [if_neg fun hcond => hne hcond.2]
  | false => exact absurd (hplain hcas).1 hne

theorem Inv.step (h : Inv s) (hok : Orderly s act) :
    Inv (step maxAttempts s act) ∧ StepSafe s act (step maxAttempts s act) := by
  have hreporting : ∀ a workerID generation t,
      (Master.step maxAttempts s act).locals a = .reporting workerID generation t → 0 < generation →
        t.generation = generation := by
    intro a workerID generation t hl hpos
    rcases step_reporting hl with hl | ⟨_, _, _, ht⟩
    · exact h.reporting a workerID generation t hl hpos
    · exact reportTask_generation ht hpos
  have hnodup : ∀ {l : List Int}, l.Pairwise (· < ·) → l.Nodup := fun hl => hl.imp fun hlt => by omega
  rcases step_cases s act with ⟨workerID, hpending, hnone, hgen, hclaims⟩ | ⟨hclaims, hrow⟩
  · have hincreasing : ((Master.step maxAttempts s act).claims.map (·.2)).Pairwise (· < ·) := by
      rw [hclaims, map_append, pairwise_append]
      refine ⟨h.increasing, pairwise_singleton _ _, fun x hx y hy => ?_⟩
      obtain ⟨c, hc, rfl⟩ := mem_map.mp hx
      obtain rfl := mem_singleton.mp hy
      have hle := h.claims c hc
      simp only
      omega
    refine ⟨⟨fun c hc => ?_, hincreasing, hreporting⟩, ⟨by omega, hnodup hincreasing, fun hended => ?_, ?_⟩⟩
    · rw [hclaims] at hc
      rcases mem_append.mp hc with hc | hc
      · have hle := h.claims c hc
        omega
      · obtain rfl := mem_singleton.mp hc
        omega
    · rw [hpending] at hended
      exact absurd hended nofun
    · intro w _ _ hw
      exact absurd (hnone.symm.trans hw) nofun
  · have hsafe : (Master.step maxAttempts s act).row.generation = s.row.generation ∧
        (s.row.status.terminal = true → (Master.step maxAttempts s act).row.status = s.row.status) := by
      rcases hrow with ⟨-, hrow⟩ | ⟨w, hw, hrow⟩
      · rw [hrow]
        exact ⟨rfl, fun _ => rfl⟩
      · rw [hrow]
        exact Write.run_orderly hw hok
    refine ⟨⟨fun c hc => ?_, hclaims ▸ h.increasing, hreporting⟩,
      ⟨by omega, hclaims ▸ hnodup h.increasing, hsafe.2, ?_⟩⟩
    · rw [hclaims] at hc
      have hle := h.claims c hc
      omega
    · intro w workerID generation hw hr hsup
      rcases hrow with ⟨hnone, -⟩ | ⟨w', hw', hrow⟩
      · exact absurd (hnone.symm.trans hw) nofun
      · obtain rfl := Option.some.inj (hw'.symm.trans hw)
        rw [hrow]
        exact h.superseded hw hok hr hsup

/-! ## Runs -/

variable (maxAttempts)

/-- **Workers and masters on one row**: every step is safe in every run in which unconditional writes find the
generation they were read with, and tasks that have ended are not written to. -/
theorem task_row_safe (row : TaskAssignment) {acts : List Act}
    (h : Steps Orderly (step maxAttempts) { row } acts) :
    Steps (fun s act => StepSafe s act (step maxAttempts s act)) (step maxAttempts) { row } acts :=
  steps_of_invariant Inv (fun _ _ hok h => h.step hok) ⟨by simp, by simp, by simp⟩ h

/-! ### Runs -/

def offline (workerID : String) : String → Bool := fun w => w != workerID

/-- A worker is lost, another one takes over and completes the task; the report of the first one comes too late. -/
theorem takeover_safe :
    Steps (fun s act => StepSafe s act (step 3 s act)) (step 3) { row := {} }
      [.list 1 "w1", .claim 1 0 30, .markRunning 1 1 30 false, .listStale 9 (offline "w1") 40, .reassign 9,
        .list 2 "w2", .claim 2 41 71, .markRunning 2 42 30 false, .markTerminal 1 true "" 43 false,
        .markTerminal 2 true "" 50 false] :=
  task_row_safe 3 {} (by decide)

/-- Two masters have listed the task when its worker is lost. After the first one's update the task is claimed again, and
the second one's takes that back: the generation goes from 2 to 1, and the next claim is number 2 once more. In the
second run the task is completed between a master's list and its update. In the third a task without attempts left is
given up under its worker's name, and the worker completes it. -/
theorem stale_update_unsafe :
    let s := run (step 3) { row := {} }
      [.list 1 "w1", .claim 1 0 30, .listStale 8 (offline "w1") 40, .listStale 9 (offline "w1") 40, .reassign 8,
        .list 2 "w2", .claim 2 41 71]
    let t := run (step 3) { row := {} }
      [.list 1 "w1", .claim 1 0 30, .markRunning 1 1 30 false, .listStale 9 (fun _ => true) 40,
        .markTerminal 1 true "" 41 false]
    let u := run (step 1) { row := {} }
      [.list 1 "w1", .claim 1 0 30, .markRunning 1 1 30 false, .listStale 8 (offline "w1") 40, .reassign 8]
    (s.row.generation = 2 ∧ (step 3 s (.reassign 9)).row.generation = 1 ∧
      (run (step 3) s [.reassign 9, .list 3 "w3", .claim 3 42 72]).claims = [("w1", 1), ("w2", 2), ("w3", 2)]) ∧
    (t.row.status = .completed ∧ (step 3 t (.reassign 9)).row.status = .pending) ∧
      u.row.status = .failed ∧ (step 1 u (.markTerminal 1 true "" 41 false)).row.status = .completed := by
  decide

end OpenEtl.Master
