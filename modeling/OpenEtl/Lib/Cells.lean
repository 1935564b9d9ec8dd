import Mathlib.Data.List.Perm.Lattice

/-!
# Changes of single cells

A state is a function from cells to contents, and a change reads and writes one cell and may fail. A run of
changes succeeds exactly if it does so in every cell (`run_eq_ok_iff`).
-/

namespace OpenEtl.Cells

open List Function

variable {κ ρ ε : Type*} [DecidableEq κ]

structure Change (κ ρ ε : Type*) where
  cell : κ
  apply : ρ → Except ε ρ

def step (s : κ → ρ) (c : Change κ ρ ε) : Except ε (κ → ρ) :=
  match c.apply (s c.cell) with
  | .ok x => .ok (update s c.cell x)
  | .error e => .error e

def run : List (Change κ ρ ε) → (κ → ρ) → Except ε (κ → ρ)
  | [], s => .ok s
  | c :: cs, s =>
    match step s c with
    | .ok s' => run cs s'
    | .error e => .error e

/-- The changes made to one content, in turn. -/
def chain : List (ρ → Except ε ρ) → ρ → Except ε ρ
  | [], x => .ok x
  | f :: fs, x =>
    match f x with
    | .ok x' => chain fs x'
    | .error e => .error e

def inCell (cs : List (Change κ ρ ε)) (l : κ) : List (ρ → Except ε ρ) := (cs.filter (·.cell = l)).map Change.apply

theorem run_append (cs cs' : List (Change κ ρ ε)) (s : κ → ρ) :
    run (cs ++ cs') s = match run cs s with
      | .ok s' => run cs' s'
      | .error e => .error e := by
  induction cs generalizing s with
  | nil => rfl
  | cons c cs ih =>
    simp only [cons_append, run]
    cases step s c with
    | error e => rfl
    | ok s' => exact ih s'

theorem inCell_cons (c : Change κ ρ ε) (cs : List (Change κ ρ ε)) (l : κ) :
    inCell (c :: cs) l = if c.cell = l then c.apply :: inCell cs l else inCell cs l := by
  by_cases h : c.cell = l <;> simp [inCell, h]

theorem inCell_map {α : Type*} (cell : α → κ) (f : α → ρ → Except ε ρ) (as : List α) (l : κ) :
    inCell (as.map fun a => ⟨cell a, f a⟩) l = (as.filter (cell · = l)).map f := by
  induction as with
  | nil => rfl
  | cons a as ih =>
    rw [map_cons, inCell_cons, ih]
    by_cases h : cell a = l <;> simp [h]

/-- **A run succeeds exactly if it does in every cell.** -/
theorem run_eq_ok_iff {cs : List (Change κ ρ ε)} {s s' : κ → ρ} :
    run cs s = .ok s' ↔ ∀ l, chain (inCell cs l) (s l) = .ok (s' l) := by
  induction cs generalizing s with
  | nil =>
    simp only [run, inCell, filter_nil, map_nil, chain, Except.ok.injEq]
    exact funext_iff
  | cons c cs ih =>
    unfold run step
    cases hc : c.apply (s c.cell) with
    | error e =>
      simp only [reduceCtorEq, false_iff, not_forall]
      refine ⟨c.cell, ?_⟩
      rw [inCell_cons, if_pos rfl, chain, hc]
      simp
    | ok x =>
      simp only [ih]
      refine forall_congr' fun l => ?_
      rw [inCell_cons]
      by_cases hl : c.cell = l
      · subst hl
        rw [update_self, if_pos rfl, chain, hc]
      · rw [update_of_ne (Ne.symm hl), if_neg hl]

/-- **Invariant rule**: what every change keeps in its cell, a run keeps in all cells. -/
theorem run_keeps {P : κ → ρ → Prop} :
    ∀ {cs : List (Change κ ρ ε)} {s s' : κ → ρ},
      (∀ c ∈ cs, ∀ x x', P c.cell x → c.apply x = .ok x' → P c.cell x') →
        run cs s = .ok s' → (∀ l, P l (s l)) → ∀ l, P l (s' l)
  | [], _, _, _, hrun, hs => by
    obtain rfl := Except.ok.inj hrun
    exact hs
  | c :: cs, s, s', h, hrun, hs => by
    unfold run step at hrun
    cases hc : c.apply (s c.cell) with
    | error e => simp [hc] at hrun
    | ok x =>
      simp only [hc] at hrun
      refine run_keeps (fun c' hc' => h c' (mem_cons_of_mem _ hc')) hrun fun l => ?_
      by_cases hl : l = c.cell
      · subst hl
        rw [update_self]
        exact h c mem_cons_self _ _ (hs c.cell) hc
      · rw [update_of_ne hl]
        exact hs l

/-- Changes of different cells can be made in any order. -/
theorem inCell_perm {cs cs' : List (Change κ ρ ε)} (h : cs.Perm cs') (hn : (cs.map Change.cell).Nodup) (l : κ) :
    inCell cs l = inCell cs' l := by
  have hperm := h.filter (·.cell = l)
  have hlen : (cs.filter (·.cell = l)).length ≤ 1 := by
    have hsub : ((cs.filter (·.cell = l)).map Change.cell).Nodup := hn.sublist (filter_sublist.map _)
    have hall : ∀ k ∈ (cs.filter (·.cell = l)).map Change.cell, k = l := by
      intro k hk
      obtain ⟨c, hc, rfl⟩ := mem_map.mp hk
      simpa using (mem_filter.mp hc).2
    rw [eq_replicate_of_mem hall] at hsub
    simpa using nodup_replicate.mp hsub
  unfold inCell
  cases hf : cs.filter (·.cell = l) with
  | nil =>
    rw [hf] at hperm
    rw [nil_perm.mp hperm]
  | cons c rest =>
    rw [hf] at hperm hlen
    obtain rfl : rest = [] := by simpa using hlen
    rw [singleton_perm.mp hperm]

/-! ## Grouping -/

theorem nodup_eraseDups {γ : Type*} [BEq γ] [LawfulBEq γ] : ∀ ks : List γ, ks.eraseDups.Nodup
  | [] => nodup_nil
  | k :: ks => by
    rw [eraseDups_cons, nodup_cons, mem_eraseDups]
    exact ⟨by simp, nodup_eraseDups _⟩
termination_by ks => ks.length
decreasing_by
  have := List.length_filter_le (fun b => !b == k) ks
  simp only [List.length_cons]
  omega

/-- A list, group by group, is the list in another order. -/
theorem flatMap_filter_perm {α γ : Type*} [DecidableEq γ] (key : α → γ) :
    ∀ {ks : List γ} {l : List α}, ks.Nodup → (∀ a ∈ l, key a ∈ ks) →
      (ks.flatMap fun k => l.filter (key · = k)).Perm l
  | [], l, _, h => by
    have : l = [] := eq_nil_iff_forall_not_mem.mpr fun a ha => absurd (h a ha) not_mem_nil
    simp [this]
  | k :: ks, l, hn, h => by
    rw [flatMap_cons]
    have hnot := (nodup_cons.mp hn).1
    have hrest : (ks.flatMap fun k' => l.filter (key · = k')) =
        ks.flatMap fun k' => (l.filter fun a => !decide (key a = k)).filter (key · = k') := by
      refine flatMap_congr fun k' hk' => ?_
      rw [filter_filter]
      refine filter_congr fun a _ => ?_
      by_cases ha : key a = k'
      · have : k' ≠ k := fun heq => hnot (heq ▸ hk')
        simp [ha, this]
      · simp [ha]
    have hmem : ∀ a ∈ l.filter (fun a => !decide (key a = k)), key a ∈ ks := by
      intro a ha
      obtain ⟨hal, hak⟩ := mem_filter.mp ha
      rcases mem_cons.mp (h a hal) with heq | hin
      · simp [heq] at hak
      · exact hin
    rw [hrest]
    exact ((flatMap_filter_perm key (nodup_cons.mp hn).2 hmem).append_left _).trans (filter_append_perm _ l)

end OpenEtl.Cells
