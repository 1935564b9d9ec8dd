import Mathlib.Data.List.Basic

/-!
# Lists with a separator

A part that does not hold the separator can be read off what it is followed or preceded by; a decimal holds none.
-/

namespace OpenEtl.Delimited

open List

variable {α : Type*} {sep : α} {a a' rest rest' : List α}

/-- The part in front of the first separator. -/
theorem append_cons_inj (ha : sep ∉ a) (ha' : sep ∉ a')
    (h : a ++ sep :: rest = a' ++ sep :: rest') : a = a' ∧ rest = rest' := by
  induction a generalizing a' with
  | nil =>
    cases a' with
    | nil => exact ⟨rfl, (List.cons.inj h).2⟩
    | cons x a' => exact absurd (List.cons.inj h).1 fun heq => ha' (heq ▸ mem_cons_self)
  | cons x a ih =>
    cases a' with
    | nil => exact absurd (List.cons.inj h).1 fun heq => ha (heq ▸ mem_cons_self)
    | cons y a' =>
      obtain ⟨rfl, htail⟩ := List.cons.inj h
      obtain ⟨rfl, hrest⟩ := ih (fun hm => ha (mem_cons_of_mem _ hm))
        (fun hm => ha' (mem_cons_of_mem _ hm)) htail
      exact ⟨rfl, hrest⟩

variable {c : Char}

end OpenEtl.Delimited
