import Mathlib.Data.List.Flatten
import Mathlib.Data.List.Nodup
import Mathlib.Data.List.Perm.Subperm

/-!
# Wholes read part by part

Several readers each read some numbered parts of a whole, no part twice. What they read is the whole, in
some order, exactly if no part with something in it was left out (`flatMap_perm_iff`).
-/

namespace OpenEtl.Parts

open List

variable {β γ : Type*} {f : β → List γ}

/-- Empty parts make no difference. -/
theorem flatMap_filter (l : List β) : (l.filter fun x => !(f x).isEmpty).flatMap f = l.flatMap f := by
  induction l with
  | nil => rfl
  | cons x l ih =>
    rw [flatMap_cons, filter_cons]
    split
    · rw [flatMap_cons, ih]
    · rename_i hx
      have hnil : f x = [] := by simpa using hx
      rw [ih, hnil, nil_append]

theorem mem_nonempty {l : List β} {x : β} : x ∈ l.filter (fun x => !(f x).isEmpty) ↔ x ∈ l ∧ f x ≠ [] := by
  simp

/-- A part with something in it that was left out is missed. -/
theorem not_perm_of_missing {l1 l2 : List β} (h1 : l1.Nodup) (hsub : ∀ x ∈ l1, f x ≠ [] → x ∈ l2) {x : β}
    (hx : x ∈ l2) (hne : f x ≠ []) (hout : x ∉ l1) : ¬ (l1.flatMap f).Perm (l2.flatMap f) := by
  classical
  intro hperm
  have hread : l1.filter (fun x => !(f x).isEmpty) ⊆ l2.erase x := by
    intro y hy
    obtain ⟨hmem, hfy⟩ := mem_nonempty.mp hy
    have hyx : y ≠ x := fun heq => hout (heq ▸ hmem)
    exact (mem_erase_of_ne hyx).mpr (hsub y hmem hfy)
  have hle : (l1.flatMap f).length ≤ ((l2.erase x).flatMap f).length := by
    obtain ⟨l, hl, hsublist⟩ := (h1.filter _).subperm hread
    rw [← flatMap_filter l1, ← (hl.flatMap_right f).length_eq]
    exact (hsublist.flatMap f).length_le
  have hlt : ((l2.erase x).flatMap f).length < (l2.flatMap f).length := by
    have hsplit := ((perm_cons_erase hx).flatMap_right f).length_eq
    rw [flatMap_cons, length_append] at hsplit
    have hpos := length_pos_of_ne_nil hne
    omega
  have heq := hperm.length_eq
  omega

/-- **The parts read make up the whole** exactly if none with something in it was left out. -/
theorem flatMap_perm_iff {l1 l2 : List β} (h1 : l1.Nodup) (h2 : l2.Nodup)
    (hsub : ∀ x ∈ l1, f x ≠ [] → x ∈ l2) :
    (l1.flatMap f).Perm (l2.flatMap f) ↔ ∀ x ∈ l2, f x ≠ [] → x ∈ l1 := by
  constructor
  · intro hperm x hx hne
    by_contra hout
    exact not_perm_of_missing h1 hsub hx hne hout hperm
  · intro hall
    rw [← flatMap_filter l1, ← flatMap_filter l2]
    refine Perm.flatMap_right f ((perm_ext_iff_of_nodup (h1.filter _) (h2.filter _)).mpr fun x => ?_)
    rw [mem_nonempty, mem_nonempty]
    exact ⟨fun ⟨hx, hne⟩ => ⟨hsub x hx hne, hne⟩, fun ⟨hx, hne⟩ => ⟨hall x hx hne, hne⟩⟩

end OpenEtl.Parts
