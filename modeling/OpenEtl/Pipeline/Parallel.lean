import OpenEtl.Pipeline.RunStatus
import Mathlib.Data.List.Nodup

/-!
# The parallel runner (`pipeline/parallel.go`, `pipeline/runner_iface.go`)

| here | there |
| --- | --- |
| `Cfg.mode` | the three branches of `ParallelRunner.Start` (:197, :205, :210) |
| `Act.shardStart`, `Act.launch` | the loops of `Start` (:211) and `startInlineBounded` (:232) |
| `Act.dispatch` | `DispatchShards` in `startDistributed` (:332) |
| `Act.shardEnd` | `Runner.Wait` and `Runner.Status`, or `WaitShard` (:346) |
| `aggregate`, `Act.decide` | `waitForInstances` (:282), and what follows `wg.Wait()` (:272, :355) |
| `Act.stop`, `Act.pause` | `Stop` (:372), `Pause` (runner_iface.go:124) |
-/

namespace OpenEtl.Pipeline.Parallel

open List Function Trace

inductive Outcome
  | startError
  | failed
  | completed
  | stopped
deriving DecidableEq, Repr

inductive Shard
  | idle
  /-- its goroutine runs, `Start` has not returned -/
  | launched
  | running
  | ended (o : Outcome)
deriving DecidableEq, Repr

def Shard.failing : Shard → Bool
  | .ended .startError | .ended .failed => true
  | _ => false

def Shard.quiet : Shard → Bool
  | .idle | .ended _ => true
  | _ => false

inductive Mode
  | allAtOnce
  | bounded
  | distributed
deriving DecidableEq, Repr

structure Cfg where
  shardCount : Nat
  maxActiveShards : Int := 0
  /-- `pr.distributed && pr.dispatcher != nil` -/
  distributed : Bool := false

def Cfg.mode (cfg : Cfg) : Mode :=
  if cfg.distributed then .distributed
  else if 0 < cfg.maxActiveShards ∧ cfg.maxActiveShards < cfg.shardCount then .bounded
  else .allAtOnce

/-- Where the run is that the last `Start` began. -/
inductive Phase
  | ended
  /-- shard `i` is the next one to start; in distributed mode nothing is dispatched yet -/
  | launching (i : Nat)
  /-- `preset` is the status `waitForInstances` is given -/
  | waiting (preset : Status)
  /-- `finishRun` comes next -/
  | decided (terminal : Status)
deriving DecidableEq, Repr

structure Sys where
  status : Status := .stopped
  runActive : Bool := false
  /-- the run's number stands for its `done` channel -/
  run : Nat := 0
  closes : List Nat := []
  phase : Phase := .ended
  /-- `ctx.Err() != nil` -/
  cancelled : Bool := false
  shards : Nat → Shard := fun _ => .idle
  -- what happened in this run
  dispatchFailed : Bool := false
  /-- the context was found cancelled when the final status was computed -/
  seenCancelled : Bool := false
  stopRequested : Bool := false
  /-- a stop came before any failure -/
  stopFirst : Bool := false
  paused : Bool := false

/-- Some shard failed, or failed to start. -/
def Sys.failing (cfg : Cfg) (s : Sys) : Bool :=
  s.dispatchFailed || (List.range cfg.shardCount).any fun i => (s.shards i).failing

def Sys.allQuiet (cfg : Cfg) (s : Sys) : Bool := (List.range cfg.shardCount).all fun i => (s.shards i).quiet

def Sys.active (cfg : Cfg) (s : Sys) : Nat := (List.range cfg.shardCount).countP fun i => !(s.shards i).quiet

/-- The final status as the mode computes it. -/
def aggregate (cfg : Cfg) (preset : Status) (s : Sys) : Status :=
  match cfg.mode with
  | .allAtOnce => if s.status = .stopped then .stopped else preset
  | .bounded | .distributed =>
    if s.cancelled then .stopped
    else if s.failing cfg then .failed
    else .completed

def finishRun (done : Nat) (terminal : Status) (s : Sys) : Sys :=
  if s.run ≠ done ∨ s.runActive = false then s
  else
    { s with
      status := if s.status = .running then terminal else s.status
      runActive := false
      closes := s.closes ++ [done]
      phase := .ended }

inductive Act
  | start
  /-- `Start` of shard `i` returns -/
  | shardStart (i : Nat) (fails : Bool)
  /-- bounded mode: the loop takes a slot for the next shard -/
  | launch
  /-- bounded mode: the loop finds the context done -/
  | breakLaunch
  | dispatch (fails : Bool)
  | shardEnd (i : Nat) (o : Outcome)
  | decide
  | finish
  | stop
  /-- the second half of `Pause`, after the shards were paused -/
  | pause
  | parentCancel

def setShard (s : Sys) (i : Nat) (sh : Shard) : Sys := { s with shards := update s.shards i sh }

/-- The loop goes on with the next shard, or is through. -/
def Phase.next (cfg : Cfg) (i : Nat) : Phase := if i + 1 < cfg.shardCount then .launching (i + 1) else .waiting .completed

def step (cfg : Cfg) (s : Sys) : Act → Sys
  | .start =>
    if s.status = .running ∨ s.runActive = true then s
    else
      { status := .running, runActive := true, run := s.run + 1, closes := s.closes
        phase := if cfg.mode ≠ .distributed ∧ cfg.shardCount = 0 then .waiting .completed else .launching 0 }
  | .shardStart i fails =>
    match cfg.mode with
    | .allAtOnce =>
      if s.phase = .launching i then
        if fails then { setShard s i (.ended .startError) with phase := .waiting .failed, cancelled := true }
        else { setShard s i .running with phase := Phase.next cfg i }
      else s
    | .bounded =>
      if i < cfg.shardCount ∧ s.shards i = .launched then
        if fails then { setShard s i (.ended .startError) with cancelled := true } else setShard s i .running
      else s
    | .distributed => s
  | .launch =>
    match cfg.mode, s.phase with
    | .bounded, .launching i =>
      if (s.active cfg : Int) < cfg.maxActiveShards then
        -- a stopped or paused runner launches no further shard
        if s.status = .running then { setShard s i .launched with phase := Phase.next cfg i }
        else { s with phase := .waiting .completed }
      else s
    | _, _ => s
  | .breakLaunch =>
    match cfg.mode, s.phase with
    | .bounded, .launching _ => if s.cancelled then { s with phase := .waiting .completed } else s
    | _, _ => s
  | .dispatch fails =>
    match cfg.mode, s.phase with
    | .distributed, .launching _ =>
      if fails then { s with status := .failed, dispatchFailed := true, phase := .decided .failed }
      else
        { s with
          shards := fun i => if i < cfg.shardCount then .running else .idle
          phase := .waiting .completed }
    | _, _ => s
  | .shardEnd i o =>
    -- only `WaitShard` reports a shard that never ran
    if i < cfg.shardCount ∧ s.shards i = .running ∧ (o = .startError → cfg.mode = .distributed) then
      setShard s i (.ended o)
    else s
  | .decide =>
    match s.phase with
    | .waiting preset =>
      if s.allQuiet cfg then
        { s with phase := .decided (aggregate cfg preset s), seenCancelled := s.cancelled }
      else s
    | _ => s
  | .finish =>
    match s.phase with
    | .decided terminal => finishRun s.run terminal s
    | _ => s
  | .stop =>
    { s with
      status := if s.status = .running then .stopped else s.status
      cancelled := s.cancelled || s.status == .running
      stopRequested := s.stopRequested || s.runActive
      stopFirst := s.stopFirst || (s.runActive && !s.failing cfg) }
  | .pause =>
    if s.status = .running then { s with status := .paused, cancelled := true, paused := true }
    else { s with cancelled := true }
  | .parentCancel => { s with cancelled := true }

/-! ## The outcome -/

/-- What the status of an ended run should say of its shards and stops. -/
structure EndsRight (cfg : Cfg) (s : Sys) : Prop where
  completed : s.status = .completed → s.dispatchFailed = false ∧ ∀ i < cfg.shardCount, s.shards i = .ended .completed
  failed : s.failing cfg = true → s.stopRequested = false → s.status = .failed
  stopped : s.stopFirst = true → s.status = .stopped

def Sys.allCompleted (cfg : Cfg) (s : Sys) : Prop := ∀ i < cfg.shardCount, s.shards i = .ended .completed

/-- When a run without a stop or a pause ends right. -/
def Aggregates (cfg : Cfg) (s : Sys) : Prop :=
  match cfg.mode with
  | .allAtOnce => (∃ i < cfg.shardCount, s.shards i = .ended .startError) ∨ s.allCompleted cfg
  | .bounded | .distributed =>
    if s.seenCancelled then s.failing cfg = false else s.failing cfg = true ∨ s.allCompleted cfg

def Orderly (cfg : Cfg) (s : Sys) : Prop :=
  if s.dispatchFailed then s.stopFirst = false
  else if s.paused then s.stopFirst = false ∧ (s.failing cfg = true → s.stopRequested = true)
  else s.stopRequested = true ∨ Aggregates cfg s

/-! ## One `done` for each run -/

structure Closed (s : Sys) : Prop where
  active : s.phase ≠ .ended → s.runActive = true
  first : s.runActive = true → 1 ≤ s.run
  once : s.closes.Nodup
  mem_iff : ∀ r, r ∈ s.closes ↔ 1 ≤ r ∧ r ≤ s.run ∧ (r = s.run → s.runActive = false)

/-- Everything but `Start` and `finishRun` leaves the run and its channel alone. -/
theorem step_frame (cfg : Cfg) (s : Sys) {act : Act} (hstart : act ≠ .start) (hfinish : act ≠ .finish) :
    (step cfg s act).run = s.run ∧ (step cfg s act).closes = s.closes ∧ (step cfg s act).runActive = s.runActive ∧
      (s.phase = .ended → (step cfg s act).phase = .ended) := by
  cases act with
  | start => exact absurd rfl hstart
  | finish => exact absurd rfl hfinish
  | _ =>
    simp only [step]
    (repeat' split) <;> simp_all [setShard]

variable {cfg : Cfg} {s : Sys}

theorem Closed.start (h : Closed s) : Closed (Parallel.step cfg s .start) := by
  simp only [Parallel.step]
  split
  · exact h
  · rename_i hs
    have hidle : s.runActive = false := by simpa using (not_or.mp hs).2
    refine ⟨fun _ => rfl, fun _ => Nat.le_add_left 1 _, h.once, fun r => ?_⟩
    rw [h.mem_iff r]
    simp only [hidle, implies_true, and_true, Bool.true_eq_false, imp_false]
    omega

theorem Closed.finishRun (h : Closed s) (hactive : s.runActive = true) (t : Status) :
    Closed (Parallel.finishRun s.run t s) := by
  have hnew : s.run ∉ s.closes := fun hm => by
    have hended := ((h.mem_iff _).mp hm).2.2 rfl
    simp [hactive] at hended
  have hfirst := h.first hactive
  simp only [Parallel.finishRun, hactive, ne_eq, not_true_eq_false, Bool.true_eq_false, or_self, ↓reduceIte]
  refine ⟨absurd rfl, nofun, ?_, fun r => ?_⟩
  · exact nodup_append.mpr ⟨h.once, by simp, fun a ha b hb hab => hnew (by simp_all)⟩
  · rw [mem_append, h.mem_iff, mem_singleton]
    simp only [implies_true, and_true]
    omega

theorem Closed.step (h : Closed s) (act : Act) : Closed (Parallel.step cfg s act) := by
  by_cases hstart : act = .start
  · exact hstart ▸ h.start
  by_cases hfinish : act = .finish
  · subst hfinish
    simp only [Parallel.step]
    split
    · rename_i t ht
      exact h.finishRun (h.active (by simp [ht])) t
    · exact h
  obtain ⟨hrun, hcloses, hactive, hphase⟩ := step_frame cfg s hstart hfinish
  refine ⟨fun hp => ?_, fun ha => ?_, hcloses ▸ h.once, fun r => ?_⟩
  · rw [hactive]
    exact h.active fun he => hp (hphase he)
  · rw [hrun]
    exact h.first (hactive ▸ ha)
  · rw [hcloses, hrun, hactive]
    exact h.mem_iff r

/-! ## How a run comes to its status -/

/-- The status of an active run follows from what was asked of it. -/
structure Asked (s : Sys) : Prop where
  status : s.runActive = true → s.dispatchFailed = false →
    (s.status = .running ∧ s.stopRequested = false ∧ s.stopFirst = false ∧ s.paused = false) ∨
      (s.status = .stopped ∧ s.stopRequested = true ∧ s.paused = false) ∨ (s.status = .paused ∧ s.paused = true)
  dispatched : s.runActive = true → s.dispatchFailed = true → s.status = .failed
  running : s.status = .running → s.runActive = true
  waiting : ∀ p, s.phase = .waiting p → p ≠ .running
  decided : ∀ t, s.phase = .decided t → t ≠ .running

theorem aggregate_ne_running (cfg : Cfg) {preset : Status} (h : preset ≠ .running) (s : Sys) :
    aggregate cfg preset s ≠ .running := by
  unfold aggregate
  split
  · split
    · exact nofun
    · exact h
  all_goals (repeat' split) <;> exact nofun

/-- A step that only moves the phase, and not to a decision. -/
theorem Asked.move {phase : Phase} {shards : Nat → Shard} {cancelled : Bool} (h : Asked s)
    (hphase : phase = s.phase ∨ (∃ i, phase = .launching i) ∨ ∃ p, phase = .waiting p ∧ p ≠ .running) :
    Asked { s with phase, shards, cancelled } := by
  refine ⟨h.status, h.dispatched, h.running, fun p hw => ?_, fun t hdec => ?_⟩
  · rcases hphase with hsame | ⟨i, hl⟩ | ⟨q, hq, hne⟩
    · exact h.waiting p (hsame ▸ hw)
    · simp [hl] at hw
    · rw [hq] at hw
      exact Phase.waiting.inj hw ▸ hne
  · rcases hphase with hsame | ⟨i, hl⟩ | ⟨q, hq, hne⟩
    · exact h.decided t (hsame ▸ hdec)
    · simp [hl] at hdec
    · simp [hq] at hdec

theorem phase_next (cfg : Cfg) (i : Nat) :
    (∃ j, Phase.next cfg i = .launching j) ∨ ∃ p, Phase.next cfg i = .waiting p ∧ p ≠ .running := by
  unfold Phase.next
  split
  · exact .inl ⟨_, rfl⟩
  · exact .inr ⟨.completed, rfl, nofun⟩

theorem Asked.start (h : Asked s) : Asked (Parallel.step cfg s .start) := by
  simp only [Parallel.step]
  split
  · exact h
  · refine ⟨fun _ _ => .inl ⟨rfl, rfl, rfl, rfl⟩, nofun, fun _ => rfl, fun p hp => ?_, fun t ht => ?_⟩
    · split at hp
      · exact Phase.waiting.inj hp ▸ nofun
      · cases hp
    · split at ht
      · cases ht
      · cases ht

theorem Asked.shardStart (h : Asked s) (i : Nat) (fails : Bool) :
    Asked (Parallel.step cfg s (.shardStart i fails)) := by
  simp only [Parallel.step]
  split
  · split
    · split
      · exact h.move (.inr (.inr ⟨.failed, rfl, nofun⟩))
      · exact h.move (.inr (phase_next cfg i))
    · exact h
  · split
    · split
      · exact h.move (.inl rfl)
      · exact h.move (.inl rfl)
    · exact h
  · exact h

theorem Asked.launch (h : Asked s) : Asked (Parallel.step cfg s .launch) := by
  simp only [Parallel.step]
  split
  · split
    · split
      · exact h.move (.inr (phase_next cfg _))
      · exact h.move (.inr (.inr ⟨.completed, rfl, nofun⟩))
    · exact h
  · exact h

theorem Asked.dispatch (h : Asked s) (fails : Bool) : Asked (Parallel.step cfg s (.dispatch fails)) := by
  simp only [Parallel.step]
  split
  · split
    · exact ⟨nofun, fun _ _ => rfl, nofun, nofun, fun t ht => Phase.decided.inj ht ▸ nofun⟩
    · exact h.move (.inr (.inr ⟨.completed, rfl, nofun⟩))
  · exact h

theorem Asked.decide (h : Asked s) : Asked (Parallel.step cfg s .decide) := by
  simp only [Parallel.step]
  split
  · rename_i preset hp
    split
    · refine ⟨h.status, h.dispatched, h.running, nofun, fun t ht => ?_⟩
      cases ht
      exact aggregate_ne_running cfg (h.waiting preset hp) s
    · exact h
  · exact h

theorem Asked.finish (h : Asked s) : Asked (Parallel.step cfg s .finish) := by
  simp only [Parallel.step]
  split
  · rename_i t ht
    simp only [Parallel.finishRun]
    split
    · exact h
    · refine ⟨nofun, nofun, fun hs => ?_, nofun, nofun⟩
      split at hs
      · exact absurd hs (h.decided t ht)
      · contradiction
  · exact h

theorem Asked.stop (h : Asked s) : Asked (Parallel.step cfg s .stop) := by
  refine ⟨fun ha hf => ?_, fun ha hf => ?_, fun hs => ?_, h.waiting, h.decided⟩
  · simp only [Parallel.step] at ha hf ⊢
    rcases h.status ha hf with ⟨h1, h2, h3, h4⟩ | ⟨h1, h2, h3⟩ | ⟨h1, h2⟩ <;> simp [*]
  · simp only [Parallel.step] at ha hf ⊢
    simp [h.dispatched ha hf]
  · simp only [Parallel.step] at hs
    split at hs
    · cases hs
    · contradiction

theorem Asked.pause (h : Asked s) : Asked (Parallel.step cfg s .pause) := by
  simp only [Parallel.step]
  split
  · rename_i hs
    refine ⟨fun _ _ => .inr (.inr ⟨rfl, rfl⟩), fun ha hf => ?_, nofun, h.waiting, h.decided⟩
    -- a run whose dispatch failed is not running
    cases (h.dispatched ha hf).symm.trans hs
  · exact h.move (.inl rfl)

theorem Asked.step (h : Asked s) (act : Act) : Asked (Parallel.step cfg s act) := by
  cases act with
  | start => exact h.start
  | shardStart i fails => exact h.shardStart i fails
  | launch => exact h.launch
  | dispatch fails => exact h.dispatch fails
  | decide => exact h.decide
  | finish => exact h.finish
  | stop => exact h.stop
  | pause => exact h.pause
  | breakLaunch =>
    simp only [Parallel.step]
    split
    · split
      · exact h.move (.inr (.inr ⟨.completed, rfl, nofun⟩))
      · exact h
    · exact h
  | shardEnd i o =>
    simp only [Parallel.step]
    split
    · exact h.move (.inl rfl)
    · exact h
  | parentCancel => exact h.move (.inl rfl)

/-- The status `waitForInstances` is given says whether a shard failed to start, and nothing else. -/
def Preset (cfg : Cfg) (shards : Nat → Shard) (preset : Status) : Prop :=
  (preset = .failed ∧ ∃ i < cfg.shardCount, shards i = .ended .startError) ∨
    (preset = .completed ∧ ∀ i < cfg.shardCount, shards i ≠ .ended .startError)

theorem Preset.shardEnd {shards : Nat → Shard} {preset : Status} (h : Preset cfg shards preset) {i : Nat}
    {o : Outcome} (hi : shards i = .running) (ho : o ≠ .startError) :
    Preset cfg (update shards i (.ended o)) preset := by
  refine h.imp (fun h => ⟨h.1, ?_⟩) fun h => ⟨h.1, fun j hj => ?_⟩
  · obtain ⟨j, hj, hstart⟩ := h.2
    have hne : j ≠ i := fun e => by simp [e, hi] at hstart
    exact ⟨j, hj, by rwa [update_of_ne hne]⟩
  · by_cases hji : j = i
    · simpa [hji] using ho
    · rw [update_of_ne hji]
      exact h.2 j hj

/-- The computed status, while nobody has stopped or paused the run. -/
def Computed (cfg : Cfg) (s : Sys) (t : Status) : Prop :=
  match cfg.mode with
  | .allAtOnce => Preset cfg s.shards t
  | .bounded | .distributed =>
    t = if s.seenCancelled then .stopped else if s.failing cfg then .failed else .completed

structure Decides (cfg : Cfg) (s : Sys) : Prop where
  launching : cfg.mode = .allAtOnce → ∀ i, s.phase = .launching i →
    i < cfg.shardCount ∧ ∀ j < cfg.shardCount, s.shards j ≠ .ended .startError
  waiting : cfg.mode = .allAtOnce → ∀ p, s.phase = .waiting p → Preset cfg s.shards p
  quiet : ∀ t, s.phase = .decided t → s.dispatchFailed = false → ∀ i < cfg.shardCount, (s.shards i).quiet = true
  terminal : ∀ t, s.phase = .decided t → s.dispatchFailed = false → s.status = .running → Computed cfg s t

/-- A step that leaves shards, phase and computation alone and does not make the run running. -/
theorem Decides.frame {status : Status} {cancelled stopRequested stopFirst paused : Bool} (h : Decides cfg s)
    (hs : status = .running → s.status = .running) :
    Decides cfg { s with status, cancelled, stopRequested, stopFirst, paused } :=
  ⟨h.launching, h.waiting, h.quiet, fun t ht hd hst => h.terminal t ht hd (hs hst)⟩

/-- A step to a phase before the decision, in a mode that does not preset the status. -/
theorem Decides.undecided (hm : cfg.mode ≠ .allAtOnce) (hp : ∀ t, s.phase ≠ .decided t) : Decides cfg s :=
  ⟨fun h => absurd h hm, fun h => absurd h hm, fun t ht => absurd ht (hp t), fun t ht => absurd ht (hp t)⟩

theorem Decides.shardStart (h : Decides cfg s) (i : Nat) (fails : Bool) :
    Decides cfg (Parallel.step cfg s (.shardStart i fails)) := by
  cases hm : cfg.mode with
  | distributed => simpa only [Parallel.step, hm] using h
  | bounded =>
    simp only [Parallel.step, hm]
    split
    · rename_i hi
      have hne : cfg.mode ≠ .allAtOnce := by simp [hm]
      -- a launched shard is waited for, so nothing is decided yet, unless nothing was dispatched
      have hund : s.dispatchFailed = false → ∀ t, s.phase ≠ .decided t := fun hd t ht => by
        have := h.quiet t ht hd i hi.1
        simp [hi.2, Shard.quiet] at this
      split <;> exact ⟨fun e => absurd e hne, fun e => absurd e hne, fun t ht hd => absurd ht (hund hd t),
        fun t ht hd => absurd ht (hund hd t)⟩
    · exact h
  | allAtOnce =>
    simp only [Parallel.step, hm]
    split
    · rename_i hp
      obtain ⟨hi, hno⟩ := h.launching hm i hp
      split
      · refine ⟨nofun, fun _ p e => ?_, nofun, nofun⟩
        cases e
        exact .inl ⟨rfl, i, hi, by simp [setShard]⟩
      · have hno' : ∀ j < cfg.shardCount, update s.shards i .running j ≠ .ended .startError := fun j hj => by
          by_cases hji : j = i
          · simp [hji]
          · rw [update_of_ne hji]
            exact hno j hj
        by_cases hlast : i + 1 < cfg.shardCount
        · simp only [Phase.next, if_pos hlast]
          refine ⟨fun _ k e => ?_, nofun, nofun, nofun⟩
          cases e
          exact ⟨hlast, hno'⟩
        · simp only [Phase.next, if_neg hlast]
          refine ⟨nofun, fun _ p e => ?_, nofun, nofun⟩
          cases e
          exact .inr ⟨rfl, hno'⟩
    · exact h

theorem Decides.shardEnd (h : Decides cfg s) (i : Nat) (o : Outcome) :
    Decides cfg (Parallel.step cfg s (.shardEnd i o)) := by
  simp only [Parallel.step]
  split
  · rename_i hi
    obtain ⟨hlt, hrun, ho⟩ := hi
    have hund : s.dispatchFailed = false → ∀ t, s.phase ≠ .decided t := fun hd t ht => by
      have := h.quiet t ht hd i hlt
      simp [hrun, Shard.quiet] at this
    have hne : cfg.mode = .allAtOnce → o ≠ .startError := fun hm e => by simp [ho e] at hm
    refine ⟨fun hm k hk => ⟨(h.launching hm k hk).1, fun j hj => ?_⟩, fun hm p hp => ?_,
      fun t ht hd => absurd ht (hund hd t), fun t ht hd => absurd ht (hund hd t)⟩
    · by_cases hji : j = i
      · simpa [setShard, hji] using hne hm
      · simp only [setShard, update_of_ne hji]
        exact (h.launching hm k hk).2 j hj
    · exact (h.waiting hm p hp).shardEnd hrun (hne hm)
  · exact h

theorem Decides.decide (h : Decides cfg s) : Decides cfg (Parallel.step cfg s .decide) := by
  simp only [Parallel.step]
  split
  · rename_i preset hp
    split
    · rename_i hq
      refine ⟨nofun, nofun, fun t _ _ i hi => ?_, fun t ht _ hs => ?_⟩
      · exact all_eq_true.mp hq i (mem_range.mpr hi)
      · cases ht
        have hrunning : s.status = .running := hs
        unfold Computed
        cases hm : cfg.mode with
        | allAtOnce => simpa [aggregate, hm, hrunning] using h.waiting hm preset hp
        | bounded => simp [aggregate, hm, Sys.failing]
        | distributed => simp [aggregate, hm, Sys.failing]
    · exact h
  · exact h

theorem Decides.step (h : Decides cfg s) (act : Act) : Decides cfg (Parallel.step cfg s act) := by
  cases act with
  | shardStart i fails => exact h.shardStart i fails
  | shardEnd i o => exact h.shardEnd i o
  | decide => exact h.decide
  | start =>
    simp only [Parallel.step]
    split
    · exact h
    · by_cases hc : cfg.mode ≠ .distributed ∧ cfg.shardCount = 0
      · simp only [if_pos hc]
        refine ⟨nofun, fun _ p e => ?_, nofun, nofun⟩
        cases e
        exact .inr ⟨rfl, by simp⟩
      · simp only [if_neg hc]
        refine ⟨fun hm i e => ?_, nofun, nofun, nofun⟩
        cases e
        exact ⟨by simp [hm] at hc; omega, by simp⟩
  | launch =>
    simp only [Parallel.step]
    split
    · rename_i hm _
      have hne : cfg.mode ≠ .allAtOnce := by simp [hm]
      (repeat' split)
      · refine Decides.undecided hne fun t => ?_
        simp only [Phase.next]
        split <;> exact nofun
      · exact Decides.undecided hne nofun
      · exact h
    · exact h
  | breakLaunch =>
    simp only [Parallel.step]
    split
    · rename_i hm _
      split
      · exact Decides.undecided (by simp [hm]) nofun
      · exact h
    · exact h
  | dispatch fails =>
    simp only [Parallel.step]
    split
    · rename_i hm _
      have hne : cfg.mode ≠ .allAtOnce := by simp [hm]
      split
      · exact ⟨nofun, nofun, fun _ _ hd => absurd hd nofun, fun _ _ hd => absurd hd nofun⟩
      · exact Decides.undecided hne nofun
    · exact h
  | finish =>
    simp only [Parallel.step]
    split
    · simp only [finishRun]
      split
      · exact h
      · exact ⟨nofun, nofun, nofun, nofun⟩
    · exact h
  | stop =>
    refine h.frame fun hs => ?_
    split at hs
    · cases hs
    · exact hs
  | pause =>
    simp only [Parallel.step]
    split
    · exact h.frame nofun
    · exact h.frame id
  | parentCancel => exact h.frame id

/-! ## The result -/

theorem allCompleted_not_failing (hd : s.dispatchFailed = false) (h : s.allCompleted cfg) :
    s.failing cfg = false := by
  simp only [Sys.failing, hd, Bool.false_or, any_eq_false, mem_range]
  intro i hi
  simp [h i hi, Shard.failing]

/-- Without a stop the status has to say `completed` and `failed` rightly. -/
theorem aggregates_iff {t : Status} (hd : s.dispatchFailed = false) (ht : Computed cfg s t) :
    ((t = .completed → s.allCompleted cfg) ∧ (s.failing cfg = true → t = .failed)) ↔ Aggregates cfg s := by
  have hnot : s.allCompleted cfg → s.failing cfg = false := allCompleted_not_failing hd
  have hmode : (t = if s.seenCancelled then .stopped else if s.failing cfg then .failed else .completed) →
      (((t = .completed → s.allCompleted cfg) ∧ (s.failing cfg = true → t = .failed)) ↔
        if s.seenCancelled then s.failing cfg = false else s.failing cfg = true ∨ s.allCompleted cfg) := by
    rintro rfl
    cases s.seenCancelled <;> cases hf : s.failing cfg <;> simp
  unfold Computed at ht
  unfold Aggregates
  cases hm : cfg.mode with
  | allAtOnce =>
    simp only [hm] at ht ⊢
    rcases ht with ⟨rfl, hstart⟩ | ⟨rfl, hno⟩
    · simp [hstart]
    · have hnone : ¬∃ i < cfg.shardCount, s.shards i = .ended .startError := fun ⟨i, hi, he⟩ => hno i hi he
      simp only [hnone, false_or, true_implies, reduceCtorEq, imp_false, Bool.not_eq_true]
      exact ⟨fun h => h.1, fun h => ⟨h, hnot h⟩⟩
  | bounded | distributed =>
    simp only [hm] at ht ⊢
    exact hmode ht

theorem endsRight_iff (hc : Closed s) (ha : Asked s) (hd : Decides cfg s) {t : Status} (ht : s.phase = .decided t) :
    EndsRight cfg (step cfg s .finish) ↔ Orderly cfg s := by
  have hactive := hc.active (by simp [ht])
  have hstep : step cfg s .finish =
      { s with
        status := if s.status = .running then t else s.status
        runActive := false
        closes := s.closes ++ [s.run]
        phase := .ended } := by
    simp [step, ht, finishRun, hactive]
  rw [hstep]
  unfold Orderly
  by_cases hdf : s.dispatchFailed = true
  · rw [if_pos hdf]
    have hs := ha.dispatched hactive hdf
    constructor
    · intro h
      by_contra hfirst
      have := h.stopped (by simpa using hfirst)
      simp [hs] at this
    · intro h
      exact ⟨by simp [hs], by simp [hs], by simp [h]⟩
  · have hdf' : s.dispatchFailed = false := by simpa using hdf
    rw [if_neg hdf]
    rcases ha.status hactive hdf' with ⟨hs, hreq, hfirst, hp⟩ | ⟨hs, hreq, hp⟩ | ⟨hs, hp⟩
    · have hp' : ¬s.paused = true := by simp [hp]
      have hreq' : ¬s.stopRequested = true := by simp [hreq]
      rw [if_neg hp', or_iff_right hreq', ← aggregates_iff hdf' (hd.terminal t ht hdf' hs)]
      constructor
      · intro h
        refine ⟨fun hcomp => (h.completed (by simpa [hs] using hcomp)).2, fun hf => ?_⟩
        simpa [hs] using h.failed hf hreq
      · intro h
        refine ⟨fun hcomp => ⟨hdf', h.1 (by simpa [hs] using hcomp)⟩, fun hf _ => ?_, fun hst => ?_⟩
        · simpa [hs] using h.2 hf
        · exact absurd hst (by simp [hfirst])
    · have hp' : ¬s.paused = true := by simp [hp]
      rw [if_neg hp']
      exact ⟨fun _ => .inl hreq, fun _ => ⟨by simp [hs], by simp [hreq], by simp [hs]⟩⟩
    · rw [if_pos hp]
      constructor
      · intro h
        refine ⟨?_, fun hf => ?_⟩
        · by_contra hfirst
          have := h.stopped (by simpa using hfirst)
          simp [hs] at this
        · by_contra hreq
          have := h.failed hf (by simpa using hreq)
          simp [hs] at this
      · intro h
        refine ⟨by simp [hs], fun hf hreq => ?_, by simp [h.1]⟩
        have := h.2 hf
        simp only at hreq
        simp [hreq] at this

theorem run_inv (cfg : Cfg) (acts : List Act) :
    Closed (run (step cfg) {} acts) ∧ Asked (run (step cfg) {} acts) ∧
      Decides cfg (run (step cfg) {} acts) := by
  refine ⟨?_, ?_, ?_⟩
  · refine run_invariant Closed (fun s act h => h.step act) ⟨by simp, by simp, by simp, fun r => ?_⟩
    simp only [not_mem_nil, false_iff]
    omega
  · exact run_invariant Asked (fun s act h => h.step act) ⟨nofun, nofun, nofun, nofun, nofun⟩
  · exact run_invariant (Decides cfg) (fun s act h => h.step act) ⟨nofun, nofun, nofun, nofun⟩

/-- **The status of a parallel run**: in every run it is right exactly if `Orderly` holds when `finishRun` is called, and
every run that has ended has closed its channel once. -/
theorem run_ends_right_iff (cfg : Cfg) (acts : List Act) :
    (∀ t, (run (step cfg) {} acts).phase = .decided t →
      (EndsRight cfg (step cfg (run (step cfg) {} acts) .finish) ↔ Orderly cfg (run (step cfg) {} acts))) ∧
    (run (step cfg) {} acts).closes.Nodup ∧
      ∀ r, r ∈ (run (step cfg) {} acts).closes ↔
        1 ≤ r ∧ r ≤ (run (step cfg) {} acts).run ∧
          (r = (run (step cfg) {} acts).run → (run (step cfg) {} acts).runActive = false) := by
  obtain ⟨hc, ha, hd⟩ := run_inv cfg acts
  exact ⟨fun t ht => endsRight_iff hc ha hd ht, hc.once, hc.mem_iff⟩

/-- All at once, one of two shards fails. -/
def oneFails : Sys :=
  run (step { shardCount := 2 }) {}
    [.start, .shardStart 0 false, .shardStart 1 false, .shardEnd 0 .failed, .shardEnd 1 .completed, .decide, .finish]

/-- Bounded, a shard does not start. -/
def oneUnstarted : Sys :=
  run (step { shardCount := 2, maxActiveShards := 1 }) {}
    [.start, .launch, .shardStart 0 true, .breakLaunch, .decide, .finish]

/-- Distributed, the dispatch fails after a stop. -/
def stoppedDispatch : Sys :=
  run (step { shardCount := 2, distributed := true }) {} [.start, .stop, .dispatch true, .finish]

/-- The first run is said to be completed, the second to be stopped and the third to have failed. -/
theorem shard_failure_misreported :
    (oneFails.status = .completed ∧ ¬EndsRight { shardCount := 2 } oneFails) ∧
    (oneUnstarted.status = .stopped ∧ ¬EndsRight { shardCount := 2, maxActiveShards := 1 } oneUnstarted) ∧
    (stoppedDispatch.status = .failed ∧ ¬EndsRight { shardCount := 2, distributed := true } stoppedDispatch) := by
  refine ⟨⟨by decide, fun h => ?_⟩, ⟨by decide, fun h => ?_⟩, by decide, fun h => ?_⟩
  · exact absurd ((h.completed (by decide)).2 0 (by decide)) (by decide)
  · exact absurd (h.failed (by decide) (by decide)) (by decide)
  · exact absurd (h.stopped (by decide)) (by decide)

end OpenEtl.Pipeline.Parallel
