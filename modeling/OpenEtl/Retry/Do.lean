import Mathlib.Data.List.Basic

/-!
# `retry.Do` (`retry/retry.go:32`)

The state `σ` is whatever `fn` acts on; `fn` returns the new state and its error. `done s` is what
the `select` between `ctx.Done()` and the back-off timer picks when it is entered in state `s`:
`some err` for `ctx.Err()`, `none` for the timer. How long the wait is (interval, jitter, multiplier)
is not modelled, only which of the two ends it.

`Do_induction` is the rule every caller uses: an invariant between calls of `fn` and a postcondition
on what `Do` returns. It needs a first call, that is `0 < MaxAttempts`.
-/

namespace OpenEtl.Retry

/-- `retry.Config`, intervals in milliseconds. -/
structure Config where
  maxAttempts : Int
  initialInterval : Int
  maxInterval : Int
deriving DecidableEq, Repr

/-- `retry.DefaultConfig`. -/
def defaultConfig : Config where
  maxAttempts := 3
  initialInterval := 1000
  maxInterval := 30000

theorem defaultConfig_pos : 0 < defaultConfig.maxAttempts := by decide

section Loop

variable {σ ε : Type} (isRetryable : ε → Bool) (done : σ → Option ε) (fn : σ → σ × Option ε)

/-- The loop with `n` attempts left (`n = MaxAttempts - attempt`) and `lastErr`. -/
def loop : Nat → Option ε → σ → σ × Option ε
  | 0, lastErr, s => (s, lastErr)
  | n + 1, _, s =>
    match fn s with
    | (s', none) => (s', none)
    | (s', some err) =>
      if isRetryable err = false then (s', some err)
      else if n = 0 then (s', some err)
      else
        match done s' with
        | some ctxErr => (s', some ctxErr)
        | none => loop n (some err) s'

/-- `retry.Do`. -/
def Do (cfg : Config) (s : σ) : σ × Option ε := loop isRetryable done fn cfg.maxAttempts.toNat none s

variable {isRetryable done fn} {cfg : Config}

/-- With no attempts allowed nothing is called and nil is returned. -/
theorem Do_of_nonpos (h : cfg.maxAttempts ≤ 0) (s : σ) : Do isRetryable done fn cfg s = (s, none) := by
  simp [Do, Int.toNat_of_nonpos h, loop]

variable {P : σ → Prop} {Q : σ → Option ε → Prop}

/-- The step rule: `P` before every call of `fn`, `Q` of what is returned. -/
theorem loop_induction (hok : ∀ s s', P s → fn s = (s', none) → Q s' none)
    (herr : ∀ s s' e, P s → fn s = (s', some e) → P s' ∧ Q s' (some e))
    (hdone : ∀ s e, P s → done s = some e → Q s (some e)) :
    ∀ (n : Nat) (last : Option ε) (s : σ), 0 < n → P s →
      Q (loop isRetryable done fn n last s).1 (loop isRetryable done fn n last s).2
  | n + 1, last, s, _, hP => by
    unfold loop
    cases hf : fn s with
    | mk s' r =>
      cases r with
      | none => exact hok s s' hP hf
      | some e =>
        obtain ⟨hP', hQ'⟩ := herr s s' e hP hf
        by_cases hr : isRetryable e = false
        · simpa [hr] using hQ'
        · by_cases hn : n = 0
          · simpa [hr, hn] using hQ'
          · cases hd : done s' with
            | some ce => simpa [hr, hn, hd] using hdone s' ce hP' hd
            | none =>
              have ih := loop_induction hok herr hdone n (some e) s' (Nat.pos_of_ne_zero hn) hP'
              simpa [hr, hn, hd] using ih

variable {s : σ}

/-- **Rule for `Do`**, for a configuration that allows at least one attempt. -/
theorem Do_induction (hpos : 0 < cfg.maxAttempts)
    (hok : ∀ s s', P s → fn s = (s', none) → Q s' none)
    (herr : ∀ s s' e, P s → fn s = (s', some e) → P s' ∧ Q s' (some e))
    (hdone : ∀ s e, P s → done s = some e → Q s (some e)) (hP : P s) :
    Q (Do isRetryable done fn cfg s).1 (Do isRetryable done fn cfg s).2 :=
  loop_induction hok herr hdone _ _ _ (by omega) hP

/-- What every call of `fn` keeps, `Do` keeps, however many attempts it has. -/
theorem Do_invariant (hfn : ∀ s, P s → P (fn s).1) (hP : P s) : P (Do isRetryable done fn cfg s).1 := by
  by_cases hpos : 0 < cfg.maxAttempts
  · refine Do_induction (Q := fun s _ => P s) hpos ?_ ?_ (fun _ _ h _ => h) hP
    · intro s s' h hf
      simpa [hf] using hfn s h
    · intro s s' e h hf
      have hs' : P s' := by simpa [hf] using hfn s h
      exact ⟨hs', hs'⟩
  · rw [Do_of_nonpos (by omega)]
    exact hP

/-- What holds after the first call, and is kept by the others, holds at the end. -/
theorem Do_after_first (hpos : 0 < cfg.maxAttempts) (hfn : ∀ s, P s → P (fn s).1) (hfirst : P (fn s).1) :
    P (Do isRetryable done fn cfg s).1 := by
  obtain ⟨n, hn⟩ : ∃ n, cfg.maxAttempts.toNat = n + 1 := ⟨cfg.maxAttempts.toNat - 1, by omega⟩
  rw [Do, hn]
  unfold loop
  rcases hf : fn s with ⟨s', _ | e⟩
  · rw [hf] at hfirst
    exact hfirst
  · rw [hf] at hfirst
    simp only
    split
    · exact hfirst
    · split
      · exact hfirst
      · split
        · exact hfirst
        · refine loop_induction (Q := fun s _ => P s) ?_ ?_ (fun _ _ h _ => h) n _ s' (by omega) hfirst
          · intro s1 s2 h hf
            simpa [hf] using hfn s1 h
          · intro s1 s2 e h hf
            have h2 : P s2 := by simpa [hf] using hfn s1 h
            exact ⟨h2, h2⟩

end Loop

/-! ## The calls a run of `Do` makes -/

/-- `fn`, noting the result of each call. -/
def noted {σ ε : Type} (fn : σ → σ × Option ε) (s : σ × List (Option ε)) :
    (σ × List (Option ε)) × Option ε :=
  let (s', r) := fn s.1
  ((s', s.2 ++ [r]), r)

/-- `Do`, with the results of the calls it made. -/
def DoNoted {σ ε : Type} (isRetryable : ε → Bool) (done : σ → Option ε) (fn : σ → σ × Option ε)
    (cfg : Config) (s : σ) : (σ × List (Option ε)) × Option ε :=
  Do isRetryable (fun s => done s.1) (noted fn) cfg (s, [])

/-- Nil is only returned when the last call returned nil. -/
def NilMeansSuccess (cfg : Config) : Prop :=
  ∀ (σ ε : Type) (isRetryable : ε → Bool) (done : σ → Option ε) (fn : σ → σ × Option ε) (s : σ),
    (DoNoted isRetryable done fn cfg s).2 = none →
      (DoNoted isRetryable done fn cfg s).1.2.getLast? = some none

theorem nilMeansSuccess_of_pos {cfg : Config} (hpos : 0 < cfg.maxAttempts) : NilMeansSuccess cfg := by
  intro σ ε isRetryable done fn s
  refine Do_induction (P := fun _ => True)
    (Q := fun (s : σ × List (Option ε)) r => r = none → s.2.getLast? = some none)
    hpos ?_ ?_ ?_ trivial
  · intro s s' _ hf _
    simp only [noted, Prod.mk.injEq] at hf
    simp [← hf.1, hf.2]
  · intro s s' e _ _
    exact ⟨trivial, by simp⟩
  · simp

theorem nilMeansSuccess_iff (cfg : Config) : NilMeansSuccess cfg ↔ 0 < cfg.maxAttempts := by
  refine ⟨fun h => ?_, nilMeansSuccess_of_pos⟩
  by_contra hneg
  have := h Unit Unit (fun _ => true) (fun _ => none) (fun _ => ((), none)) ()
  simp [DoNoted, Do_of_nonpos (show cfg.maxAttempts ≤ 0 by omega)] at this

end OpenEtl.Retry
