import Mathlib.Data.List.Induction
import Mathlib.Order.Lattice

/-!
# Replacing merges

Of the rows inserted under one key a replacing table keeps the one with the greatest version, and among
equal versions the one inserted last. Which row that is does not depend on the order and the number of
insertions exactly if one row has a greater version than every other row (`kept_eq_of_dominates`,
`kept_snoc_ne`).
-/

namespace OpenEtl.Replacing

open List

variable {ρ ν : Type*} [LinearOrder ν] (version : ρ → ν)

/-- The row kept after one more insertion. -/
def replace (kept : Option ρ) (row : ρ) : Option ρ :=
  match kept with
  | none => some row
  | some k => if version k ≤ version row then some row else some k

/-- The row kept of a sequence of insertions. -/
def kept (rows : List ρ) : Option ρ := rows.foldl (replace version) none

variable {version}

theorem kept_snoc (rows : List ρ) (row : ρ) :
    kept version (rows ++ [row]) = replace version (kept version rows) row := by
  rw [kept, foldl_append]
  rfl

variable {rows : List ρ}

theorem kept_eq_none_iff : kept version rows = none ↔ rows = [] := by
  rcases eq_nil_or_concat rows with rfl | ⟨rows, row, rfl⟩
  · simp [kept]
  · rw [concat_eq_append, kept_snoc]
    unfold replace
    cases kept version rows with
    | none => simp
    | some k =>
      simp only
      split <;> simp

/-- The kept row was inserted, and no row has a greater version. -/
theorem kept_spec {k : ρ} (h : kept version rows = some k) : k ∈ rows ∧ ∀ row ∈ rows, version row ≤ version k := by
  induction rows using reverseRecOn generalizing k with
  | nil => simp [kept] at h
  | append_singleton rows row ih =>
    rw [kept_snoc] at h
    unfold replace at h
    cases hk : kept version rows with
    | none =>
      rw [hk] at h
      obtain rfl : row = k := by simpa using h
      rw [kept_eq_none_iff.mp hk]
      simp
    | some k' =>
      rw [hk] at h
      obtain ⟨hmem, hle⟩ := ih hk
      by_cases hv : version k' ≤ version row
      · obtain rfl : row = k := by simpa [hv] using h
        refine ⟨by simp, fun x hx => ?_⟩
        rcases mem_append.mp hx with hx | hx
        · exact le_trans (hle x hx) hv
        · rw [mem_singleton.mp hx]
      · obtain rfl : k' = k := by simpa [hv] using h
        refine ⟨by simp [hmem], fun x hx => ?_⟩
        rcases mem_append.mp hx with hx | hx
        · exact hle x hx
        · rw [mem_singleton.mp hx]
          exact le_of_lt (not_le.mp hv)

/-- A row whose version is greater than that of every other row is kept, in whatever order and however
often the rows are inserted. -/
theorem kept_eq_of_dominates {best : ρ} (hmem : best ∈ rows)
    (h : ∀ row ∈ rows, row = best ∨ version row < version best) : kept version rows = some best := by
  cases hk : kept version rows with
  | none =>
    rw [kept_eq_none_iff.mp hk] at hmem
    simp at hmem
  | some k =>
    obtain ⟨hk', hle⟩ := kept_spec hk
    rcases h k hk' with rfl | hlt
    · rfl
    · exact absurd (hle best hmem) (not_le.mpr hlt)

/-- Another row of at least its version, inserted once more, replaces it. -/
theorem kept_snoc_ne {best row : ρ} (hne : row ≠ best) (hle : version best ≤ version row) :
    kept version (rows ++ [row]) ≠ some best := by
  rw [kept_snoc]
  unfold replace
  cases hk : kept version rows with
  | none => simpa using hne
  | some k =>
    simp only
    split
    · simpa using hne
    · rename_i hv
      intro heq
      obtain rfl : k = best := by simpa using heq
      exact hv hle

end OpenEtl.Replacing
