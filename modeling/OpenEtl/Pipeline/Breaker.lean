import OpenEtl.Lib.Trace
import OpenEtl.Pipeline.CircuitBreaker

/-!
# The calls of a circuit breaker (`pipeline/circuit_breaker.go:34-123`)

A history has the calls, the last one first, each with its time and what it returned.
-/

namespace OpenEtl.Pipeline.Breaker

open List Trace

inductive Call
  | allow | recordSuccess | recordFailure
deriving DecidableEq

structure Entry where
  call : Call
  time : Int
  result : Bool

/-- What `RecordFailure` returns: the breaker has just tripped. -/
def trips (cb : CircuitBreaker) (now : Int) : Bool :=
  cb.state = .halfOpen ∨
    ((cb.failures.filter (fun t => now - t < duration cb.cfg.windowSec) ++ [now]).length : Int) ≥ cb.cfg.maxFailures

def call (cb : CircuitBreaker) (now : Int) : Call → CircuitBreaker × Bool
  | .allow => cb.allow now
  | .recordSuccess => (cb.recordSuccess, true)
  | .recordFailure => (cb.recordFailure now, trips cb now)

def step (x : CircuitBreaker × List Entry) (c : Int × Call) : CircuitBreaker × List Entry :=
  ((call x.1 c.1 c.2).1, ⟨c.2, c.1, (call x.1 c.1 c.2).2⟩ :: x.2)

/-! ## What the history says -/

def Entry.IsTrip (e : Entry) : Prop := e.call = .recordFailure ∧ e.result = true

/-- An entry that meets `P`, and after it only such that meet `Q`. -/
def Since (P : Entry → List Entry → Prop) (Q : Entry → Prop) (hist : List Entry) : Prop :=
  ∃ later e earlier, hist = later ++ e :: earlier ∧ P e earlier ∧ ∀ x ∈ later, Q x

/-- The last trip was at `t`; since then there was no success, and no `Allow` as late as the cooldown after it. -/
def OpenSince (cooldown : Int) (hist : List Entry) (t : Int) : Prop :=
  Since (fun trip _ => trip.IsTrip ∧ trip.time = t)
    (fun e => ¬e.IsTrip ∧ e.call ≠ .recordSuccess ∧ (e.call = .allow → e.time - t < cooldown)) hist

/-- An `Allow` found the breaker open and was granted, and there was no success and no failure since. -/
def Probing (cooldown : Int) : List Entry → Prop :=
  Since (fun probe earlier => probe.call = .allow ∧ probe.result = true ∧ ∃ t, OpenSince cooldown earlier t)
    (·.call = .allow)

/-- The failures since the last success that are within the window. -/
def recentFailures (window : Int) (hist : List Entry) (now : Int) : List Entry :=
  (hist.takeWhile (·.call ≠ .recordSuccess)).filter fun e => e.call = .recordFailure ∧ now - e.time < window

structure Characterised (cfg : CircuitBreakerCfg) (x : CircuitBreaker × List Entry) : Prop where
  opened : x.1.state = .opened ↔ ∃ t, OpenSince (cfg.cooldownSec * second) x.2 t
  closed : ∀ now, (∀ e ∈ x.2, e.time ≤ now) → x.1.state = .closed →
    (trips x.1 now = true ↔ cfg.maxFailures ≤ (recentFailures (cfg.windowSec * second) x.2 now).length + 1)
  probing : ∀ now, Probing (cfg.cooldownSec * second) x.2 → trips x.1 now = true
  retained : ∀ e ∈ x.2.find? (·.call = .recordFailure), ∀ t ∈ x.1.failures, e.time - t < cfg.windowSec * second

/-- The durations have at most 64 bits; if one failure is enough, no window is looked at. -/
def Fits (cfg : CircuitBreakerCfg) : Prop :=
  (cfg.maxFailures = 1 ∨ cfg.windowSec ≤ 9223372036) ∧ cfg.cooldownSec ≤ 9223372036

theorem since_cons {P : Entry → List Entry → Prop} {Q : Entry → Prop} {e : Entry} {hist : List Entry} :
    Since P Q (e :: hist) ↔ P e hist ∨ Q e ∧ Since P Q hist := by
  constructor
  · rintro ⟨_ | ⟨e', later⟩, x, earlier, heq, hx, hlater⟩ <;> cases heq
    · exact .inl hx
    · obtain ⟨he, hlater⟩ := forall_mem_cons.mp hlater
      exact .inr ⟨he, later, x, earlier, rfl, hx, hlater⟩
  · rintro (hx | ⟨he, later, x, earlier, rfl, hx, hlater⟩)
    · exact ⟨[], e, hist, rfl, hx, by simp⟩
    · exact ⟨e :: later, x, earlier, rfl, hx, forall_mem_cons.mpr ⟨he, hlater⟩⟩

theorem duration_eq {sec : Int} (hpos : 0 < sec) (h : sec ≤ 9223372036) : duration sec = sec * second := by
  unfold duration second
  omega

theorem exists_before_of_not_fits {sec : Int} (h : ¬sec ≤ 9223372036) :
    ∃ late, 0 ≤ late ∧ duration sec ≤ late ∧ late < sec * second := by
  refine ⟨max 0 (duration sec), by omega, by omega, ?_⟩
  unfold duration second
  omega

/-! ## Every call -/

theorem allow_keeps (cb : CircuitBreaker) (now : Int) :
    (cb.allow now).1.cfg = cb.cfg ∧ (cb.allow now).1.failures = cb.failures := by
  unfold CircuitBreaker.allow
  split
  · exact ⟨rfl, rfl⟩
  · split <;> exact ⟨rfl, rfl⟩
  · exact ⟨rfl, rfl⟩

theorem recordFailure_eq (cb : CircuitBreaker) (now : Int) : cb.recordFailure now =
    { cb with
      failures := cb.failures.filter (fun t => now - t < duration cb.cfg.windowSec) ++ [now]
      state := if trips cb now then .opened else cb.state
      trippedAt := if trips cb now then now else cb.trippedAt } := by
  unfold CircuitBreaker.recordFailure trips
  simp only [decide_eq_true_eq]
  split <;> rfl

/-- Of the failures those are kept that may still count. -/
structure Inv (c : CircuitBreakerCfg) (x : CircuitBreaker × List Entry) : Prop where
  cfg : x.1.cfg = c
  opened : ∀ t, OpenSince (c.cooldownSec * second) x.2 t ↔ x.1.state = .opened ∧ x.1.trippedAt = t
  probing : Probing (c.cooldownSec * second) x.2 → x.1.state = .halfOpen
  kept : ∀ now, (∀ e ∈ x.2, e.time ≤ now) → (x.1.failures.filter fun t => now - t < duration c.windowSec).length =
    (recentFailures (duration c.windowSec) x.2 now).length
  retained : ∀ e ∈ x.2.find? (·.call = .recordFailure), ∀ t ∈ x.1.failures, e.time - t < c.windowSec * second

variable {c : CircuitBreakerCfg} {x : CircuitBreaker × List Entry}

theorem Inv.allow (h : Inv c x) (hcool : duration c.cooldownSec = c.cooldownSec * second) (now : Int) :
    Inv c (step x (now, .allow)) := by
  obtain ⟨⟨cfg, failures, state, trippedAt⟩, hist⟩ := x
  obtain ⟨rfl, hopen, hprobe, hkept, hretained⟩ := h
  obtain ⟨hcfg, hfail⟩ := allow_keeps ⟨cfg, failures, state, trippedAt⟩ now
  refine ⟨hcfg, fun t => ?_, fun hp => ?_, fun now' hle => ?_, ?_⟩
  · rw [step, OpenSince, since_cons, ← OpenSince, hopen]
    simp only [call, Entry.IsTrip, CircuitBreaker.allow, hcool]
    cases state with
    | closed => simp
    | halfOpen => simp
    | opened =>
      by_cases hlate : now - trippedAt ≥ cfg.cooldownSec * second
      · simp only [hlate]
        simp
        omega
      · simp [hlate]
        omega
  · rcases since_cons.mp hp with ⟨-, hgranted, t, ht⟩ | ⟨-, hp⟩
    · obtain ⟨rfl, rfl⟩ := (hopen t).mp ht
      simp only [call, CircuitBreaker.allow] at hgranted
      split at hgranted
      · rename_i hlate
        simp [step, call, CircuitBreaker.allow, hlate]
      · cases hgranted
    · cases hprobe hp
      rfl
  · have hrec := hkept now' fun e he => hle e (mem_cons_of_mem _ he)
    simp only [step, call, hfail]
    rw [hrec]
    simp [recentFailures]
  · simp only [step, call, hfail]
    simpa using hretained

theorem Inv.recordSuccess (h : Inv c x) (now : Int) : Inv c (step x (now, .recordSuccess)) where
  cfg := h.cfg
  opened t := by simp [step, call, OpenSince, since_cons, Entry.IsTrip, CircuitBreaker.recordSuccess]
  probing hp := by simp [step, Probing, since_cons] at hp
  kept now _ := by simp [step, call, CircuitBreaker.recordSuccess, recentFailures]
  retained e _ t ht := by simp [step, call, CircuitBreaker.recordSuccess] at ht

theorem Inv.recordFailure (h : Inv c x) (hwin : 0 < c.windowSec) (now : Int) : Inv c (step x (now, .recordFailure)) := by
  obtain ⟨cb, hist⟩ := x
  obtain ⟨rfl, hopen, hprobe, hkept, hretained⟩ := h
  refine ⟨?_, fun t => ?_, fun hp => by simp [step, Probing, since_cons] at hp, fun now' hle => ?_, fun e he t ht => ?_⟩
  · simp [step, call, recordFailure_eq]
  · rw [step, OpenSince, since_cons, ← OpenSince, hopen]
    simp only [call, Entry.IsTrip, recordFailure_eq]
    cases trips cb now <;> simp
  · obtain ⟨hnow, hle⟩ := forall_mem_cons.mp hle
    -- what counts at a later time counted now
    have hstill : (cb.failures.filter fun t => now' - t < duration cb.cfg.windowSec ∧
        now - t < duration cb.cfg.windowSec) = cb.failures.filter fun t => now' - t < duration cb.cfg.windowSec := by
      refine filter_congr fun t _ => ?_
      simp only [decide_eq_decide, and_iff_left_iff_imp] at hnow ⊢
      omega
    have hrec := hkept now' hle
    by_cases hin : now' - now < duration cb.cfg.windowSec <;>
      simp_all [step, call, recordFailure_eq, recentFailures]
  · simp only [step, find?_cons, decide_true, Option.mem_some_iff] at he
    subst he
    simp only [step, call, recordFailure_eq, mem_append, mem_filter, mem_singleton, decide_eq_true_eq] at ht hwin ⊢
    unfold duration second at *
    omega

theorem Inv.characterised (h : Inv c x) (hfits : Fits c) (hpos : 0 < c.windowSec) : Characterised c x where
  opened := ⟨fun ho => ⟨_, (h.opened _).mpr ⟨ho, rfl⟩⟩, fun ⟨t, ht⟩ => ((h.opened t).mp ht).1⟩
  closed now hle hclosed := by
    simp only [trips, h.cfg, hclosed, length_append, length_singleton, h.kept now hle]
    rcases hfits.1 with hone | hwin
    · simp only [hone, reduceCtorEq, false_or, decide_eq_true_eq]
      omega
    · simp [duration_eq hpos hwin]
  probing now hp := by simp [trips, h.probing hp]
  retained := h.retained

/-! ## Every run -/

/-- A breaker as `NewCircuitBreaker` makes it. -/
structure New (b : CircuitBreaker) : Prop where
  failures : b.failures = []
  state : b.state = .closed
  maxFailures : 0 < b.cfg.maxFailures
  windowSec : 0 < b.cfg.windowSec
  cooldownSec : 0 < b.cfg.cooldownSec

theorem new (cfg : CircuitBreakerCfg) : New (newCircuitBreaker cfg) := by
  constructor <;> simp only [newCircuitBreaker]
  all_goals omega

variable {b : CircuitBreaker} (hb : New b)

include hb

theorem characterised_run (hfits : Fits b.cfg) (calls : List (Int × Call)) :
    Characterised b.cfg (run step (b, []) calls) := by
  refine Inv.characterised (run_invariant (Inv b.cfg) (fun x a h => ?_) ⟨rfl, fun t => ?_, ?_, fun _ _ => ?_, by simp⟩) hfits
    hb.windowSec
  · obtain ⟨now, _ | _ | _⟩ := a
    · exact h.allow (duration_eq hb.cooldownSec hfits.2) now
    · exact h.recordSuccess now
    · exact h.recordFailure hb.windowSec now
  · simp [OpenSince, Since, hb.state]
  · simp [Probing, Since]
  · simp [hb.failures, recentFailures]

/-- The breaker after `k` failures at time 0, fewer than it takes. -/
theorem failures_run : ∀ k : Nat, k < b.cfg.maxFailures → ∃ failures, failures.length ≤ k ∧ (∀ t ∈ failures, t = 0) ∧
    run step (b, []) (replicate k (0, .recordFailure)) = ({ b with failures }, replicate k ⟨.recordFailure, 0, false⟩)
  | 0, _ => ⟨[], by simp, by simp, by rw [← hb.failures]; rfl⟩
  | k + 1, hk => by
    obtain ⟨failures, hlen, hzero, hrun⟩ := failures_run k (by omega)
    have hfew := length_filter_le (fun t => 0 - t < duration b.cfg.windowSec) failures
    have hnot : trips { b with failures } 0 = false := by
      simp only [trips, hb.state, length_append, length_singleton, decide_eq_false_iff_not, not_or]
      exact ⟨by simp, by omega⟩
    refine ⟨failures.filter (fun t => 0 - t < duration b.cfg.windowSec) ++ [0], ?_, fun t ht => ?_, ?_⟩
    · simp only [length_append, length_singleton]
      omega
    · rcases mem_append.mp ht with ht | ht
      · exact hzero t (mem_filter.mp ht).1
      · exact mem_singleton.mp ht
    · rw [replicate_succ', run_append, hrun, run_cons, run_nil, step, call, recordFailure_eq, hnot]
      rfl

theorem fits_of_characterised
    (h : ∀ calls : List (Int × Call), calls.Pairwise (·.1 ≤ ·.1) → Characterised b.cfg (run step (b, []) calls)) :
    Fits b.cfg := by
  have hmax := hb.maxFailures
  have hwin := hb.windowSec
  obtain ⟨k, hk⟩ := Int.eq_ofNat_of_zero_le (a := b.cfg.maxFailures - 1) (by omega)
  obtain ⟨failures, -, hzero, hrun⟩ := failures_run hb k (by omega)
  have hchar := h (replicate k (0, .recordFailure)) (by simp [pairwise_replicate])
  rw [hrun] at hchar
  -- the next failure within the window has to trip the breaker
  have htrips : ∀ now, 0 ≤ now → now < b.cfg.windowSec * second → trips { b with failures } now = true := by
    intro now hnow hin
    refine (hchar.closed now (by simp [hnow]) hb.state).mpr ?_
    simp [recentFailures, hin]
    omega
  constructor
  · by_contra hnot
    rw [not_or] at hnot
    obtain ⟨late, hpos, hlate, hin⟩ := exists_before_of_not_fits hnot.2
    have hgone : failures.filter (fun t => late - t < duration b.cfg.windowSec) = [] := by
      refine filter_eq_nil_iff.mpr fun t ht => ?_
      simp [hzero t ht, hlate]
    have htrip := htrips late hpos hin
    simp [trips, hb.state, hgone] at htrip
    omega
  · by_contra hnot
    obtain ⟨late, hpos, hlate, hin⟩ := exists_before_of_not_fits hnot
    have htrip := htrips 0 (by omega) (by unfold second; omega)
    have hafter := h (replicate k (0, .recordFailure) ++ [(0, .recordFailure), (late, .allow)])
      (by simp [pairwise_append, pairwise_replicate, hpos])
    rw [run_append, hrun] at hafter
    simp only [run_cons, run_nil, step, call, recordFailure_eq, htrip, if_true, CircuitBreaker.allow, Int.sub_zero,
      ge_iff_le, hlate] at hafter
    have hopened := hafter.opened.mpr ⟨0, since_cons.mpr (.inr ⟨⟨by simp [Entry.IsTrip], by simp, fun _ => ?_⟩,
      since_cons.mpr (.inl ⟨⟨rfl, rfl⟩, rfl⟩)⟩)⟩
    · cases hopened
    · simpa using hin

omit hb

/-- **A breaker is what its history says**, for every history, exactly if its durations fit. -/
theorem breaker_characterised_iff (cfg : CircuitBreakerCfg) :
    (∀ calls : List (Int × Call), calls.Pairwise (·.1 ≤ ·.1) →
      Characterised (newCircuitBreaker cfg).cfg (run step (newCircuitBreaker cfg, []) calls)) ↔
    Fits (newCircuitBreaker cfg).cfg :=
  ⟨fits_of_characterised (new cfg), fun h calls _ => characterised_run (new cfg) h calls⟩

/-- With a window of 10000000000 seconds the second of two failures at one time does not count the first. -/
theorem overflowed_window_does_not_trip :
    let x := run step (newCircuitBreaker { maxFailures := 2, windowSec := 10000000000 }, []) [(0, .recordFailure)]
    x.1.state = .closed ∧ trips x.1 0 = false ∧
      x.1.cfg.maxFailures ≤ (recentFailures (x.1.cfg.windowSec * second) x.2 0).length + 1 := by
  decide

end OpenEtl.Pipeline.Breaker
