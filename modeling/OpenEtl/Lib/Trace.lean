import Mathlib.Data.List.Infix

/-!
# Event logs and runs

A component that talks to the outside keeps a log of what it asked for and what it was told,
oldest event first. Safety properties of such a component say of every event what must have been
logged before it (`Always`); they are proved one appended event at a time (`always_snoc`,
`Always.append`). A run is a fold of the step function over the steps taken, and an invariant of
the steps is an invariant of the run (`run_invariant`).
-/

namespace OpenEtl.Trace

open List

variable {ε σ ι : Type*}

/-- Every event of the log meets `P` against the events logged before it. -/
def Always (P : List ε → ε → Prop) (log : List ε) : Prop := ∀ pre e post, log = pre ++ e :: post → P pre e

theorem always_nil (P : List ε → ε → Prop) : Always P [] := by
  intro pre e post h
  cases pre <;> simp at h

variable {P : List ε → ε → Prop} {e : ε} {log : List ε}

theorem Always.at (h : Always P log) (k : Nat) (he : log[k]? = some e) : P (log.take k) e := by
  obtain ⟨hk, rfl⟩ := List.getElem?_eq_some_iff.mp he
  exact h _ _ (log.drop (k + 1)) (by rw [getElem_cons_drop, take_append_drop])

theorem always_snoc : Always P (log ++ [e]) ↔ Always P log ∧ P log e := by
  constructor
  · intro h
    refine ⟨fun pre x post hl => h pre x (post ++ [e]) (by simp [hl]), h log e [] rfl⟩
  · rintro ⟨h, he⟩ pre x post hl
    rcases eq_nil_or_concat post with rfl | ⟨post', y, rfl⟩
    · obtain ⟨rfl, hx⟩ := append_inj' hl rfl
      cases hx; exact he
    · have hl' : log ++ [e] = (pre ++ x :: post') ++ [y] := by simpa using hl
      exact h pre x post' (append_inj' hl' rfl).1

theorem always_append {more : List ε} :
    Always P (log ++ more) ↔ Always P log ∧ Always (fun pre => P (log ++ pre)) more := by
  induction more using reverseRecOn with
  | nil => simp [always_nil]
  | append_singleton more e ih => rw [← append_assoc, always_snoc, always_snoc, ih, and_assoc]

/-- A log that grew by events `P` says nothing about keeps the property. -/
theorem Always.append {more : List ε} (h : Always P log) (hm : ∀ pre e, e ∈ more → P pre e) :
    Always P (log ++ more) := by
  refine always_append.mpr ⟨h, fun pre e post heq => hm _ e ?_⟩
  simp [heq]

/-- `log'` is `log` with further events, all of which meet `P`. -/
def Grew (P : ε → Prop) (log log' : List ε) : Prop := ∃ evs, log' = log ++ evs ∧ ∀ e ∈ evs, P e

theorem Grew.refl (P : ε → Prop) (log : List ε) : Grew P log log := ⟨[], by simp⟩

theorem Grew.trans {P : ε → Prop} {l0 l1 l2 : List ε} (h : Grew P l0 l1) (h' : Grew P l1 l2) : Grew P l0 l2 := by
  obtain ⟨evs, rfl, hP⟩ := h
  obtain ⟨evs', rfl, hP'⟩ := h'
  refine ⟨evs ++ evs', by simp, fun e he => ?_⟩
  rcases mem_append.mp he with he | he
  · exact hP e he
  · exact hP' e he

variable {log' : List ε}

theorem Grew.mono {P Q : ε → Prop} (h : Grew P log log') (hPQ : ∀ e, P e → Q e) : Grew Q log log' := by
  obtain ⟨evs, hl, hP⟩ := h
  exact ⟨evs, hl, fun e he => hPQ e (hP e he)⟩

theorem Grew.grows {P : ε → Prop} (h : Grew P log log') : log <+: log' := by
  obtain ⟨evs, rfl, -⟩ := h
  exact prefix_append log evs

theorem Grew.snoc {P : ε → Prop} (log : List ε) (he : P e) : Grew P log (log ++ [e]) := ⟨[e], rfl, by simpa using he⟩

/-- The events by which a log grew. -/
def added (log log' : List ε) : List ε := log'.drop log.length

@[simp] theorem added_append (log evs : List ε) : added log (log ++ evs) = evs := drop_left

theorem Grew.added {P : ε → Prop} (h : Grew P log log') : ∀ e ∈ added log log', P e := by
  obtain ⟨evs, rfl, hP⟩ := h
  rwa [added_append]

theorem mem_added {l0 l1 l2 l3 : List ε} (h1 : l0 <+: l1) (h2 : l1 <+: l2) (h3 : l2 <+: l3) (he : e ∈ added l1 l2) :
    e ∈ added l0 l3 := by
  obtain ⟨a, rfl⟩ := h1
  obtain ⟨b, rfl⟩ := h2
  obtain ⟨c, rfl⟩ := h3
  rw [added_append] at he
  simp [he]

/-! ## Interleavings -/

/-- The events of a component among what others do: `between k` comes before the `k`-th event, and after
the last one; `mark` adds to an event what it is given at that point. -/
def weave {α β : Type*} (between : Nat → List α) (mark : Nat → ε → β) : Nat → List ε → List (α ⊕ β)
  | k, [] => (between k).map .inl
  | k, e :: es => (between k).map .inl ++ .inr (mark k e) :: weave between mark (k + 1) es

theorem mem_weave {α β : Type*} {between : Nat → List α} {mark : Nat → ε → β} {a : α ⊕ β} :
    ∀ {k : Nat} {evs : List ε}, a ∈ weave between mark k evs →
      (∃ k, ∃ x ∈ between k, a = .inl x) ∨ ∃ k, ∃ e ∈ evs, a = .inr (mark k e)
  | k, [], h => by
    obtain ⟨x, hx, rfl⟩ := mem_map.mp h
    exact .inl ⟨k, x, hx, rfl⟩
  | k, e :: es, h => by
    rcases mem_append.mp h with h | h
    · obtain ⟨x, hx, rfl⟩ := mem_map.mp h
      exact .inl ⟨k, x, hx, rfl⟩
    rcases mem_cons.mp h with rfl | h
    · exact .inr ⟨k, e, by simp, rfl⟩
    · rcases mem_weave h with h | ⟨k', e', he', h⟩
      · exact .inl h
      · exact .inr ⟨k', e', by simp [he'], h⟩

/-! ## The end of a log -/

/-- In a log ordered by `R` every event is the last one or stands in `R` to it. -/
theorem le_getLast_of_pairwise {R : α → α → Prop} {l : List α} {x y : α} (h : l.Pairwise R) (hx : x ∈ l)
    (hy : l.getLast? = some y) : x = y ∨ R x y := by
  obtain ⟨l', rfl⟩ := getLast?_eq_some_iff.mp hy
  rcases mem_append.mp hx with hx | hx
  · exact .inr ((pairwise_append.mp h).2.2 x hx y (by simp))
  · exact .inl (by simpa using hx)

/-! ## Runs -/

/-- The states a run passes through, the last one. -/
def run (step : σ → ι → σ) (s : σ) (is : List ι) : σ := is.foldl step s

variable (step : σ → ι → σ)

@[simp] theorem run_nil (s : σ) : run step s [] = s := rfl

@[simp] theorem run_cons (s : σ) (i : ι) (is : List ι) :
    run step s (i :: is) = run step (step s i) is := rfl

theorem run_append (s : σ) (is is' : List ι) :
    run step s (is ++ is') = run step (run step s is) is' := by
  simp [run]

variable {step : σ → ι → σ}

/-- **Invariant rule**: what holds at the start and is kept by every step holds at the end. -/
theorem run_invariant (I : σ → Prop) (hstep : ∀ s i, I s → I (step s i)) :
    ∀ {is : List ι} {s : σ}, I s → I (run step s is)
  | [], _, h => h
  | i :: is, s, h => by
    rw [run_cons]
    exact run_invariant I hstep (hstep s i h)

/-- Every step of the run meets `ok` in the state it is taken in. -/
def Steps (ok : σ → ι → Prop) (step : σ → ι → σ) : σ → List ι → Prop
  | _, [] => True
  | s, i :: is => ok s i ∧ Steps ok step (step s i) is

def Steps.decidable {ok : σ → ι → Prop} [∀ s i, Decidable (ok s i)] (step : σ → ι → σ) :
    ∀ (is : List ι) (s : σ), Decidable (Steps ok step s is)
  | [], _ => .isTrue trivial
  | i :: is, s => @instDecidableAnd (ok s i) (Steps ok step (step s i) is) _ (Steps.decidable step is (step s i))

instance {ok : σ → ι → Prop} [∀ s i, Decidable (ok s i)] (step : σ → ι → σ) (s : σ) (is : List ι) :
    Decidable (Steps ok step s is) :=
  Steps.decidable step is s

variable {ok : σ → ι → Prop}

theorem steps_append {is is' : List ι} :
    ∀ {s : σ}, Steps ok step s (is ++ is') ↔ Steps ok step s is ∧ Steps ok step (run step s is) is' := by
  induction is with
  | nil => simp [Steps]
  | cons i is ih =>
    intro s
    simp only [cons_append, Steps, run_cons, ih, and_assoc]

/-- The invariant rule for runs whose steps meet a condition. -/
theorem run_invariant_of (I : σ → Prop) (hstep : ∀ s i, ok s i → I s → I (step s i)) :
    ∀ {is : List ι} {s : σ}, I s → Steps ok step s is → I (run step s is)
  | [], _, h, _ => h
  | i :: is, s, h, hs => by
    rw [run_cons]
    exact run_invariant_of I hstep (hstep s i hs.1 h) hs.2

/-- Steps that keep an invariant, and meet `Q` under it. -/
theorem steps_of_invariant {Q : σ → ι → Prop} (I : σ → Prop) (hstep : ∀ s i, ok s i → I s → I (step s i) ∧ Q s i) :
    ∀ {is : List ι} {s : σ}, I s → Steps ok step s is → Steps Q step s is
  | [], _, _, _ => trivial
  | i :: _, s, h, hs =>
    ⟨(hstep s i hs.1 h).2, steps_of_invariant I hstep (hstep s i hs.1 h).1 hs.2⟩

/-- Two conditions that agree under an invariant of all steps. -/
theorem steps_congr {P Q : σ → ι → Prop} (I : σ → Prop) (hstep : ∀ s i, I s → I (step s i) ∧ (P s i ↔ Q s i)) :
    ∀ (is : List ι) {s : σ}, I s → (Steps P step s is ↔ Steps Q step s is)
  | [], _, _ => Iff.rfl
  | i :: is, s, h => and_congr (hstep s i h).2 (steps_congr I hstep is (hstep s i h).1)

end OpenEtl.Trace
