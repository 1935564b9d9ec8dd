import Mathlib.Data.List.Nodup

/-!
# Entries under names

A store that ignores an entry whose name it has seen (`firstWins`), and one in which an entry takes the
place of an earlier one of its name (`put`). Either keeps every entry exactly if no name comes twice
(`firstWins_eq_iff`, `puts_eq_iff`).
-/

namespace OpenEtl.Named

open List

variable {ν α : Type*} [DecidableEq ν]

/-- The entries that are taken; one without a name always is. -/
def firstWins : List ν → List (Option ν × α) → List α
  | _, [] => []
  | used, (none, a) :: l => a :: firstWins used l
  | used, (some n, a) :: l => if n ∈ used then firstWins used l else a :: firstWins (n :: used) l

theorem length_firstWins_le (used : List ν) (l : List (Option ν × α)) : (firstWins used l).length ≤ l.length := by
  induction l generalizing used with
  | nil => exact Nat.le_refl _
  | cons e l ih =>
    obtain ⟨_ | n, a⟩ := e
    · exact Nat.succ_le_succ (ih used)
    · rw [firstWins]
      split
      · exact Nat.le_trans (ih used) (Nat.le_succ _)
      · exact Nat.succ_le_succ (ih _)

theorem firstWins_eq_iff (used : List ν) (l : List (Option ν × α)) :
    firstWins used l = l.map Prod.snd ↔
      (l.filterMap Prod.fst).Nodup ∧ ∀ n ∈ l.filterMap Prod.fst, n ∉ used := by
  induction l generalizing used with
  | nil => simp [firstWins]
  | cons e l ih =>
    obtain ⟨_ | n, a⟩ := e
    · simp [firstWins, ih]
    · rw [firstWins]
      split
      · -- the entry is missing
        rename_i hused
        constructor
        · intro heq
          have hle := length_firstWins_le used l
          have hlen := congrArg length heq
          simp only [map_cons, length_cons, length_map] at hlen
          omega
        · rintro ⟨-, hfresh⟩
          exact absurd hused (hfresh n (by simp))
      · rename_i hused
        have hnames : ((some n, a) :: l).filterMap Prod.fst = n :: l.filterMap Prod.fst := rfl
        rw [hnames]
        simp only [map_cons, List.cons.injEq, true_and, ih, nodup_cons, mem_cons, not_or,
          forall_eq_or_imp]
        grind

/-- The entry is put at the end, in the place of one of its name. -/
def put (entries : List (ν × α)) (e : ν × α) : List (ν × α) := entries.filter (fun x => x.1 ≠ e.1) ++ [e]

variable {entries : List (ν × α)} {e : ν × α}

theorem put_fresh (h : e.1 ∉ entries.map Prod.fst) : put entries e = entries ++ [e] := by
  rw [put, filter_eq_self.mpr]
  intro x hx
  have hne : x.1 ≠ e.1 := fun heq => h (heq ▸ mem_map_of_mem hx)
  simpa using hne

theorem length_put_le (entries : List (ν × α)) (e : ν × α) : (put entries e).length ≤ entries.length + 1 := by
  rw [put, length_append, length_singleton]
  exact Nat.succ_le_succ (length_filter_le _ _)

theorem length_put_of_mem (h : e.1 ∈ entries.map Prod.fst) : (put entries e).length ≤ entries.length := by
  obtain ⟨x, hx, hname⟩ := mem_map.mp h
  have hlt : (entries.filter fun x => x.1 ≠ e.1).length < entries.length :=
    length_filter_lt_length_iff_exists.mpr ⟨x, hx, by simp [hname]⟩
  rw [put, length_append, length_singleton]
  omega

theorem length_puts_le (entries l : List (ν × α)) : (l.foldl put entries).length ≤ entries.length + l.length := by
  induction l generalizing entries with
  | nil => exact Nat.le_refl _
  | cons e l ih =>
    have hput := length_put_le entries e
    have hrest := ih (put entries e)
    rw [foldl_cons, length_cons]
    omega

theorem puts_eq_iff (entries l : List (ν × α)) :
    (l.foldl put entries).length = entries.length + l.length ↔
      (l.map Prod.fst).Nodup ∧ ∀ n ∈ l.map Prod.fst, n ∉ entries.map Prod.fst := by
  induction l generalizing entries with
  | nil => simp
  | cons e l ih =>
    rw [foldl_cons, map_cons, nodup_cons, length_cons]
    by_cases hmem : e.1 ∈ entries.map Prod.fst
    · -- the entry of this name is gone
      have hput := length_put_of_mem hmem
      have hrest := length_puts_le (put entries e) l
      constructor
      · omega
      · rintro ⟨-, hfresh⟩
        exact absurd hmem (hfresh _ mem_cons_self)
    · have hput := put_fresh hmem
      have hlen : (put entries e).length = entries.length + 1 := by rw [hput, length_append]; rfl
      have hiff := ih (put entries e)
      rw [hlen, hput, map_append, Nat.add_right_comm, Nat.add_assoc] at hiff
      rw [hput, hiff]
      simp only [map_cons, map_nil, mem_append, mem_cons, not_mem_nil]
      grind

theorem puts_eq_of_fresh {l : List (ν × α)} (hnodup : (l.map Prod.fst).Nodup)
    (hfresh : ∀ n ∈ l.map Prod.fst, n ∉ entries.map Prod.fst) : l.foldl put entries = entries ++ l := by
  induction l generalizing entries with
  | nil => rw [foldl_nil, append_nil]
  | cons e l ih =>
    obtain ⟨he, hnodup⟩ := nodup_cons.mp hnodup
    rw [foldl_cons, put_fresh (hfresh _ mem_cons_self), ih hnodup, append_assoc]
    · rfl
    · simp only [map_append, map_cons, mem_append, mem_cons] at hfresh ⊢
      grind

/-- Nothing is lost exactly if no name comes twice. -/
theorem puts_nil_iff (l : List (ν × α)) :
    (l.foldl put []).map Prod.snd = l.map Prod.snd ↔ (l.map Prod.fst).Nodup := by
  constructor
  · intro heq
    have hlen := congrArg length heq
    rw [length_map, length_map] at hlen
    exact ((puts_eq_iff [] l).mp (by rw [hlen, length_nil, Nat.zero_add])).1
  · intro hnodup
    rw [puts_eq_of_fresh hnodup fun n _ => not_mem_nil, nil_append]

end OpenEtl.Named
