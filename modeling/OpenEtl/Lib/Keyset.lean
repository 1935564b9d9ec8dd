import Mathlib.Data.List.Infix
import Mathlib.Data.List.Nodup
import Mathlib.Data.List.Perm.Basic
import Mathlib.Order.MinMax

/-!
# Reading in key order, a page at a time

Items stand in the order of a rank. A reader holds a position; in each turn it reads the first few items behind it,
hands them on or drops them, and moves its position.

A turn is clean if it ends at the last item it handed on, or did not move when it dropped what it read. Whoever reads
what is left after a chain of turns has handed on every item exactly once exactly if all the turns were clean
(`handed_perm_iff`), and then they come in order (`Chain.handed_eq`).
-/

namespace OpenEtl.Keyset

open List

variable {ι α : Type*} [LinearOrder α] (rank : ι → α)

/-- The items behind the position `κ`. -/
def behind (items : List ι) (κ : α) : List ι := items.filter fun x => decide (κ < rank x)

/-- What was read in a turn, whether it was handed on, and the position afterwards. -/
structure Turn (ι α : Type*) where
  page : List ι
  kept : Bool
  next : α

/-- The turn reads the first items behind `κ` and ends where it was or at one of them. An item that moves
the position does so whenever it comes last; no other item moves it in a turn that is dropped. -/
structure Turn.Reads (moves : ι → Prop) (items : List ι) (κ : α) (t : Turn ι α) : Prop where
  page : t.page <+: behind rank items κ
  next : t.next = κ ∨ ∃ y ∈ t.page, t.next = rank y ∧ (t.kept = false → moves y)
  last : ∀ y, t.page.getLast? = some y → moves y → t.next = rank y

/-- Nothing is read twice and nothing lost after the turn. -/
def Turn.Clean (κ : α) (t : Turn ι α) : Prop :=
  if t.kept then ∀ x, t.page.getLast? = some x → t.next = rank x else t.next = κ

def Turn.handed (t : Turn ι α) : List ι := if t.kept then t.page else []

/-- Turns one after the other, from the position `κ`. -/
def Chain (moves : ι → Prop) (items : List ι) : α → List (Turn ι α) → Prop
  | _, [] => True
  | κ, t :: ts => t.Reads rank moves items κ ∧ Chain moves items t.next ts

def Clean : α → List (Turn ι α) → Prop
  | _, [] => True
  | κ, t :: ts => t.Clean rank κ ∧ Clean t.next ts

/-- What a chain hands on, and then whatever is left behind its end. -/
def handed (items : List ι) : α → List (Turn ι α) → List ι
  | κ, [] => behind rank items κ
  | _, t :: ts => t.handed ++ handed items t.next ts

variable {rank} {moves : ι → Prop} {items : List ι} {κ κ' : α} {t : Turn ι α} {ts : List (Turn ι α)}

/-! ## Behind a position -/

theorem mem_behind {x : ι} : x ∈ behind rank items κ ↔ x ∈ items ∧ κ < rank x := by
  simp [behind]

/-- Further on there is less. -/
theorem behind_subset (h : κ ≤ κ') : behind rank items κ' ⊆ behind rank items κ := by
  intro x hx
  obtain ⟨hmem, hlt⟩ := mem_behind.mp hx
  exact mem_behind.mpr ⟨hmem, lt_of_le_of_lt h hlt⟩

theorem behind_behind (h : κ ≤ κ') : behind rank (behind rank items κ) κ' = behind rank items κ' := by
  rw [behind, behind, filter_filter]
  refine filter_congr fun x _ => ?_
  by_cases hx : κ' < rank x
  · simp [hx, lt_of_le_of_lt h hx]
  · simp [hx]

theorem behind_eq_self (h : ∀ x ∈ items, κ < rank x) : behind rank items κ = items := by
  rw [behind]
  simpa using h

theorem behind_eq_nil_iff : behind rank items κ = [] ↔ ∀ x ∈ items, rank x ≤ κ := by
  simp [behind]

/-- Behind the last item of the first part of an ordered list is the second part. -/
theorem behind_append {l1 l2 : List ι} (hs : (l1 ++ l2).Pairwise fun a b => rank a < rank b) {x : ι}
    (hx : l1.getLast? = some x) : behind rank (l1 ++ l2) (rank x) = l2 := by
  obtain ⟨l, rfl⟩ := getLast?_eq_some_iff.mp hx
  obtain ⟨h1, -, h12⟩ := pairwise_append.mp hs
  have hfirst : behind rank (l ++ [x]) (rank x) = [] := by
    refine behind_eq_nil_iff.mpr fun y hy => ?_
    rcases mem_append.mp hy with hy | hy
    · exact le_of_lt ((pairwise_append.mp h1).2.2 y hy x (by simp))
    · rw [mem_singleton.mp hy]
  have hsecond : behind rank l2 (rank x) = l2 := behind_eq_self fun y hy => h12 x (by simp) y hy
  rw [behind, filter_append]
  rw [behind] at hfirst hsecond
  rw [hfirst, hsecond, nil_append]

section

variable (hs : items.Pairwise fun a b => rank a < rank b)
include hs

theorem pairwise_behind (κ : α) : (behind rank items κ).Pairwise fun a b => rank a < rank b := hs.filter _

theorem nodup_behind (κ : α) : (behind rank items κ).Nodup :=
  (pairwise_behind hs κ).imp fun h heq => absurd (heq ▸ h) (lt_irrefl _)

variable {x : ι}

/-- Two items of one rank are the same. -/
theorem eq_of_rank_eq {y : ι} (hx : x ∈ items) (hy : y ∈ items) (h : rank x = rank y) : x = y := by
  have hnodup : (items.map rank).Nodup := pairwise_map.mpr (hs.imp ne_of_lt)
  exact inj_on_of_nodup_map hnodup hx hy h

/-! ## One turn -/

omit hs in
theorem Turn.Reads.le (h : t.Reads rank moves items κ) : κ ≤ t.next := by
  rcases h.next with hk | ⟨y, hy, hk, -⟩
  · exact hk ▸ le_refl _
  · rw [hk]
    exact le_of_lt (mem_behind.mp (h.page.subset hy)).2

/-- An item that was not read is behind the position reached. -/
theorem Turn.Reads.mem_next (h : t.Reads rank moves items κ) (hx : x ∈ behind rank items κ) (hout : x ∉ t.page) :
    (∀ y ∈ t.page, rank y < rank x) ∧ x ∈ behind rank items t.next := by
  obtain ⟨rest, hrest⟩ := h.page
  have hsorted := pairwise_behind hs κ
  rw [← hrest] at hsorted hx
  have hx' : x ∈ rest := (mem_append.mp hx).resolve_left hout
  have hlt : ∀ y ∈ t.page, rank y < rank x := fun y hy => (pairwise_append.mp hsorted).2.2 y hy x hx'
  have hκ := mem_behind.mp (hrest ▸ mem_append_right t.page hx')
  refine ⟨hlt, mem_behind.mpr ⟨hκ.1, ?_⟩⟩
  rcases h.next with hk | ⟨y, hy, hk, -⟩
  · exact hk ▸ hκ.2
  · exact hk ▸ hlt y hy

/-- A clean turn parts what is behind the position into what it hands on and what is left. -/
theorem Turn.Reads.behind_eq (h : t.Reads rank moves items κ) (hc : t.Clean rank κ) :
    behind rank items κ = t.handed ++ behind rank items t.next := by
  unfold Turn.Clean at hc
  unfold Turn.handed
  cases hk : t.kept with
  | false =>
    rw [hk] at hc
    have hnext : t.next = κ := by simpa using hc
    simp [hnext]
  | true =>
    simp only [hk, if_true] at hc ⊢
    rcases hlast : t.page.getLast? with _ | x
    · -- nothing was read, so the position cannot have moved
      have hnil := getLast?_eq_none_iff.mp hlast
      rcases h.next with hn | ⟨y, hy, -⟩
      · rw [hnil, hn, nil_append]
      · simp [hnil] at hy
    · obtain ⟨rest, hrest⟩ := h.page
      have hsorted := pairwise_behind hs κ
      rw [← hrest] at hsorted
      have hleft := behind_append hsorted hlast
      rw [hrest, ← hc x hlast, behind_behind h.le] at hleft
      rw [hleft, hrest]

/-! ## Chains of turns -/

omit hs in
theorem Chain.handed_subset (h : Chain rank moves items κ ts) : handed rank items κ ts ⊆ behind rank items κ := by
  induction ts generalizing κ with
  | nil => exact fun _ hx => hx
  | cons t ts ih =>
    intro x hx
    rcases mem_append.mp hx with hx | hx
    · apply h.1.page.subset
      unfold Turn.handed at hx
      split at hx
      · exact hx
      · simp at hx
    · exact behind_subset h.1.le (ih h.2 hx)

/-- **Clean turns hand on everything once and in order.** -/
theorem Chain.handed_eq (h : Chain rank moves items κ ts) (hc : Clean rank κ ts) :
    handed rank items κ ts = behind rank items κ := by
  induction ts generalizing κ with
  | nil => rfl
  | cons t ts ih => rw [handed, ih h.2 hc.2, h.1.behind_eq hs hc.1]

/-- An item behind the position that moves no position itself is handed on, or an item after it is lost. -/
theorem Chain.handed_or_lost (h : Chain rank moves items κ ts) (hx : x ∈ behind rank items κ) (hstay : ¬ moves x) :
    x ∈ handed rank items κ ts ∨
      ∃ y ∈ behind rank items κ, rank x < rank y ∧ y ∉ handed rank items κ ts := by
  induction ts generalizing κ with
  | nil => exact .inl hx
  | cons t ts ih =>
    have hle := h.1.le
    -- the claim for the turns to come carries over if this turn reads nothing from `x` on
    have hlater (hnext : x ∈ behind rank items t.next) (hpage : ∀ y ∈ t.handed, rank y < rank x) :
        x ∈ handed rank items κ (t :: ts) ∨
          ∃ y ∈ behind rank items κ, rank x < rank y ∧ y ∉ handed rank items κ (t :: ts) := by
      rcases ih h.2 hnext with hin | ⟨y, hy, hlt, hout⟩
      · exact .inl (mem_append_right _ hin)
      · refine .inr ⟨y, behind_subset hle hy, hlt, fun hmem => ?_⟩
        rcases mem_append.mp hmem with hmem | hmem
        · exact absurd (hpage y hmem) (not_lt.mpr (le_of_lt hlt))
        · exact hout hmem
    by_cases hk : t.kept = true
    · have hhanded : t.handed = t.page := by simp [Turn.handed, hk]
      by_cases hin : x ∈ t.page
      · exact .inl (mem_append_left _ (hhanded ▸ hin))
      · obtain ⟨hlt, hnext⟩ := h.1.mem_next hs hx hin
        exact hlater hnext (hhanded ▸ hlt)
    · have hhanded : t.handed = [] := by simp [Turn.handed, hk]
      have hpage : ∀ y ∈ t.handed, rank y < rank x := by simp [hhanded]
      rcases h.1.next with hn | ⟨y, hy, hn, hmoves⟩
      · exact hlater (hn ▸ hx) hpage
      · have hyb := h.1.page.subset hy
        rcases lt_trichotomy (rank y) (rank x) with hlt | heq | hgt
        · exact hlater (mem_behind.mpr ⟨(mem_behind.mp hx).1, hn ▸ hlt⟩) hpage
        · -- `x` itself moves no position
          have hxy := eq_of_rank_eq hs (mem_behind.mp hyb).1 (mem_behind.mp hx).1 heq
          exact absurd (hmoves (by simpa using hk)) (hxy ▸ hstay)
        · refine .inr ⟨y, hyb, hgt, fun hmem => ?_⟩
          rw [handed, hhanded] at hmem
          exact lt_irrefl _ (hn ▸ (mem_behind.mp (h.2.handed_subset hmem)).2)

/-- The first turn of a chain that hands on everything once is clean. -/
theorem Chain.clean_head (h : Chain rank moves items κ (t :: ts))
    (hp : (handed rank items κ (t :: ts)).Perm (behind rank items κ)) : t.Clean rank κ := by
  have hmem {y : ι} (hy : y ∈ behind rank items κ) : y ∈ t.handed ++ handed rank items t.next ts := hp.mem_iff.mpr hy
  unfold Turn.Clean
  split
  · rename_i hk
    have hhanded : t.handed = t.page := by simp [Turn.handed, hk]
    intro x hlast
    by_contra hne
    -- `x` is still behind the position, so it comes again, or an item after it is lost
    obtain ⟨l, hl⟩ := getLast?_eq_some_iff.mp hlast
    have hxp : x ∈ t.page := by simp [hl]
    have hxb := h.1.page.subset hxp
    have hmax : ∀ y ∈ t.page, y = x ∨ rank y < rank x := by
      intro y hy
      have hsorted := (pairwise_behind hs κ).sublist h.1.page.sublist
      rw [hl] at hsorted hy
      rcases mem_append.mp hy with hy | hy
      · exact .inr ((pairwise_append.mp hsorted).2.2 y hy x (by simp))
      · exact .inl (mem_singleton.mp hy)
    have hnext : x ∈ behind rank items t.next := by
      refine mem_behind.mpr ⟨(mem_behind.mp hxb).1, ?_⟩
      rcases h.1.next with hn | ⟨y, hy, hn, -⟩
      · exact hn ▸ (mem_behind.mp hxb).2
      · rcases hmax y hy with rfl | hlt
        · exact absurd hn hne
        · exact hn ▸ hlt
    have hstay : ¬ moves x := fun hm => hne (h.1.last x hlast hm)
    rcases h.2.handed_or_lost hs hnext hstay with hin | ⟨y, hy, hlt, hout⟩
    · have hnodup : (t.handed ++ handed rank items t.next ts).Nodup := hp.nodup_iff.mpr (nodup_behind hs κ)
      exact (nodup_append.mp hnodup).2.2 x (hhanded ▸ hxp) x hin rfl
    · rcases mem_append.mp (hmem (behind_subset h.1.le hy)) with hin | hin
      · rcases hmax y (hhanded ▸ hin) with rfl | hgt
        · exact lt_irrefl _ hlt
        · exact absurd hlt (not_lt.mpr (le_of_lt hgt))
      · exact hout hin
  · rename_i hk
    have hhanded : t.handed = [] := by simp [Turn.handed, hk]
    rcases h.1.next with hn | ⟨y, hy, hn, -⟩
    · exact hn
    · -- the item at the position reached was dropped and is not read again
      have hin := hmem (h.1.page.subset hy)
      rw [hhanded] at hin
      exact absurd (mem_behind.mp (h.2.handed_subset hin)).2 (hn ▸ lt_irrefl _)

/-- **Everything is handed on exactly once exactly if every turn is clean.** -/
theorem handed_perm_iff (h : Chain rank moves items κ ts) :
    (handed rank items κ ts).Perm (behind rank items κ) ↔ Clean rank κ ts := by
  constructor
  · intro hp
    induction ts generalizing κ with
    | nil => trivial
    | cons t ts ih =>
      have hc := h.clean_head hs hp
      refine ⟨hc, ih h.2 ?_⟩
      rw [h.1.behind_eq hs hc] at hp
      exact (perm_append_left_iff _).mp hp
  · intro hc
    rw [h.handed_eq hs hc]

end

/-! ## A cursor that only grows -/

section

variable {γ : Type*} [LinearOrder γ] (rank) (items) (val : ι → γ) (pos : γ → α) (limit : Nat)

/-- The next page behind the cursor `c`. -/
def nextPage (c : γ) : List ι := (behind rank items (pos c)).take limit

/-- The greatest of the cursor and the values read. -/
def grow (c : γ) (page : List ι) : γ := page.foldl (fun c x => max c (val x)) c

def advance (c : γ) : γ := grow val c (nextPage rank items pos limit c)

/-- What is read in the next `n` pages. -/
def pages : Nat → γ → List ι
  | 0, _ => []
  | n + 1, c => nextPage rank items pos limit c ++ pages n (advance rank items val pos limit c)

/-- The turns of the next `n` pages. -/
def turns : Nat → γ → List (Turn ι α)
  | 0, _ => []
  | n + 1, c =>
    ⟨nextPage rank items pos limit c, true, pos (advance rank items val pos limit c)⟩ ::
      turns n (advance rank items val pos limit c)

/-- Every item that ends a page is greater than the cursor and all items before it. -/
def Ascends (c : γ) (l : List ι) : Prop :=
  ∀ pre x post, l = pre ++ x :: post → (limit ∣ pre.length + 1 ∨ post = []) →
    c < val x ∧ ∀ y ∈ pre, val y < val x

variable {rank items val pos limit} {c : γ} {page rest : List ι}

theorem grow_eq (val : ι → γ) (c : γ) (page : List ι) :
    (∀ y ∈ page, val y ≤ grow val c page) ∧ c ≤ grow val c page ∧
      (grow val c page = c ∨ ∃ y ∈ page, grow val c page = val y) := by
  induction page generalizing c with
  | nil => exact ⟨by simp, le_refl c, .inl rfl⟩
  | cons x page ih =>
    obtain ⟨hall, hle, hcase⟩ := ih (max c (val x))
    refine ⟨fun y hy => ?_, le_trans (le_max_left _ _) hle, ?_⟩
    · rcases mem_cons.mp hy with rfl | hy
      · exact le_trans (le_max_right _ _) hle
      · exact hall y hy
    · rcases hcase with heq | ⟨y, hy, heq⟩
      · rcases max_choice c (val x) with hmax | hmax
        · exact .inl (heq.trans hmax)
        · exact .inr ⟨x, by simp, heq.trans hmax⟩
      · exact .inr ⟨y, by simp [hy], heq⟩

/-- The cursor grows to the last item exactly if that is the greatest. -/
theorem grow_eq_last {l : List ι} {x : ι} (hne : ∀ y ∈ l, val y ≠ val x) (hc : c ≠ val x) :
    grow val c (l ++ [x]) = val x ↔ c < val x ∧ ∀ y ∈ l, val y < val x := by
  obtain ⟨hall, hle, hcase⟩ := grow_eq val c (l ++ [x])
  constructor
  · intro heq
    rw [heq] at hall hle
    exact ⟨lt_of_le_of_ne hle hc, fun y hy => lt_of_le_of_ne (hall y (by simp [hy])) (hne y hy)⟩
  · rintro ⟨hlt, hless⟩
    rcases hcase with heq | ⟨y, hy, heq⟩
    · exact absurd (hall x (by simp)) (by rw [heq]; exact not_le.mpr hlt)
    · rcases mem_append.mp hy with hy | hy
      · exact absurd (hall x (by simp)) (by rw [heq]; exact not_le.mpr (hless y hy))
      · rw [heq, mem_singleton.mp hy]

theorem Ascends.nil : Ascends val limit c [] := by
  intro pre x post h
  simp at h

/-- A number is a multiple of the limit if it is one beyond a full page. -/
theorem dvd_beyond {n m : Nat} (hn : n = limit) : limit ∣ n + m + 1 ↔ limit ∣ m + 1 := by
  rw [hn, Nat.add_assoc]
  exact Nat.dvd_add_right (Nat.dvd_refl limit)

/-- One page more: its last item, and then the pages behind it with the cursor there. -/
theorem ascends_append {l : List ι} {x : ι} (hfull : (l ++ [x]).length = limit ∨ rest = [])
    (hlen : (l ++ [x]).length ≤ limit) :
    Ascends val limit c (l ++ [x] ++ rest) ↔
      (c < val x ∧ ∀ y ∈ l, val y < val x) ∧ Ascends val limit (val x) rest := by
  constructor
  · intro h
    have hends : limit ∣ l.length + 1 ∨ rest = [] := hfull.imp_left fun hl => by
      rw [← hl]
      simp
    refine ⟨h l x rest (by simp) hends, fun pre y post heq hends => ?_⟩
    have hl : (l ++ [x]).length = limit := hfull.resolve_right (by rintro rfl; simp at heq)
    obtain ⟨-, hbefore⟩ := h (l ++ [x] ++ pre) y post (by simp [heq]) (hends.imp_left fun hd => by
      rw [length_append]
      exact (dvd_beyond hl).mpr hd)
    exact ⟨hbefore x (by simp), fun z hz => hbefore z (by simp [hz])⟩
  · rintro ⟨⟨hcx, hlx⟩, hrest⟩ pre y post heq hends
    -- the item stands behind this page, or in it, and then at its end
    have hcases : (∃ mid, pre = l ++ [x] ++ mid ∧ rest = mid ++ y :: post) ∨
        ∃ mid, l ++ [x] = pre ++ y :: mid ∧ post = mid ++ rest := by
      rcases append_eq_append_iff.mp heq with hbehind | ⟨mid, hpage, htail⟩
      · exact .inl hbehind
      · cases mid with
        | nil => exact .inl ⟨[], by simpa using hpage.symm, by simpa using htail.symm⟩
        | cons z mid =>
          obtain ⟨rfl, hpost⟩ : y = z ∧ post = mid ++ rest := by simpa using htail
          exact .inr ⟨mid, hpage, hpost⟩
    rcases hcases with ⟨mid, hpre, htail⟩ | ⟨mid, hpage, hpost⟩
    · have hl : (l ++ [x]).length = limit := hfull.resolve_right (by rintro rfl; simp at htail)
      obtain ⟨hxy, hbefore⟩ := hrest mid y post htail (hends.imp_left fun hd => by
        rw [hpre, length_append] at hd
        exact (dvd_beyond hl).mp hd)
      refine ⟨lt_trans hcx hxy, fun z hz => ?_⟩
      rw [hpre, append_assoc] at hz
      rcases mem_append.mp hz with hz | hz
      · exact lt_trans (hlx z hz) hxy
      · rcases mem_cons.mp hz with rfl | hz
        · exact hxy
        · exact hbefore z hz
    · rw [hpage, length_append, length_cons] at hlen
      have hmid : mid = [] := by
        rcases hends with hd | hp
        · have hle := Nat.le_of_dvd (Nat.succ_pos _) hd
          exact eq_nil_of_length_eq_zero (by omega)
        · rw [hp] at hpost
          exact (append_eq_nil_iff.mp hpost.symm).1
      rw [hmid] at hpage
      obtain ⟨hl, hx⟩ := append_inj' hpage rfl
      obtain rfl : x = y := by simpa using hx
      exact ⟨hcx, hl ▸ hlx⟩

section

variable (hs : items.Pairwise fun a b => rank a < rank b) (hval : ∀ x ∈ items, pos (val x) = rank x)
  (hlimit : 0 < limit)
include hs hval

omit hs hval [LinearOrder γ] in
theorem nextPage_initial (c : γ) : nextPage rank items pos limit c <+: behind rank items (pos c) :=
  take_prefix _ _

omit hs hval [LinearOrder γ] in
theorem nextPage_eq_nil_iff (hlimit : 0 < limit) :
    nextPage rank items pos limit c = [] ↔ behind rank items (pos c) = [] := by
  rw [nextPage, take_eq_nil_iff]
  exact or_iff_right (by omega)

omit hs in
theorem chain_turns (limit n : Nat) (c : γ) :
    Chain rank (fun _ => False) items (pos c) (turns rank items val pos limit n c) := by
  induction n generalizing c with
  | zero => trivial
  | succ n ih =>
    refine ⟨⟨nextPage_initial c, ?_, fun _ _ hf => hf.elim⟩, ih _⟩
    rcases (grow_eq val c (nextPage rank items pos limit c)).2.2 with heq | ⟨y, hy, heq⟩
    · exact .inl (congrArg pos heq)
    · refine .inr ⟨y, hy, ?_, by simp⟩
      exact (congrArg pos heq).trans (hval y (mem_behind.mp ((nextPage_initial c).subset hy)).1)

omit hs hval in
theorem handed_turns (n : Nat) (c : γ) :
    handed rank items (pos c) (turns rank items val pos limit n c) =
      pages rank items val pos limit n c ++
        behind rank items (pos ((advance rank items val pos limit)^[n] c)) := by
  induction n generalizing c with
  | zero => rfl
  | succ n ih =>
    rw [turns, handed, ih, pages, append_assoc]
    rfl

omit hs in
theorem pages_subset (n : Nat) (c : γ) : pages rank items val pos limit n c ⊆ behind rank items (pos c) := by
  intro x hx
  refine (chain_turns hval limit n c).handed_subset ?_
  rw [handed_turns]
  exact mem_append_left _ hx

omit hs hval in
theorem pages_succ (n : Nat) (c : γ) :
    pages rank items val pos limit (n + 1) c = pages rank items val pos limit n c ++
      nextPage rank items pos limit ((advance rank items val pos limit)^[n] c) := by
  induction n generalizing c with
  | zero => simp [pages]
  | succ n ih =>
    rw [pages, ih, pages, append_assoc]
    rfl

omit [LinearOrder γ] in
/-- The values of a page differ from each other and from the cursor. -/
theorem val_ne {l : List ι} {x : ι} (hpage : l ++ [x] <+: behind rank items (pos c)) :
    (∀ y ∈ l, val y ≠ val x) ∧ c ≠ val x := by
  have hmem {y : ι} (hy : y ∈ l ++ [x]) := mem_behind.mp (hpage.subset hy)
  have hx := hmem (y := x) (by simp)
  have hsorted := (pairwise_behind hs (pos c)).sublist hpage.sublist
  constructor
  · intro y hy heq
    have hlt := (pairwise_append.mp hsorted).2.2 y hy x (by simp)
    rw [← hval y (hmem (by simp [hy])).1, ← hval x hx.1, heq] at hlt
    exact lt_irrefl _ hlt
  · rintro rfl
    rw [hval x hx.1] at hx
    exact lt_irrefl _ hx.2

section

variable {l : List ι} {x : ι} (hpage : nextPage rank items pos limit c = l ++ [x])
include hpage

omit [LinearOrder γ] hs hval in
theorem behind_split : behind rank items (pos c) = l ++ [x] ++ (behind rank items (pos c)).drop limit := by
  rw [← hpage, nextPage, take_append_drop]

theorem advance_eq_iff : advance rank items val pos limit c = val x ↔ c < val x ∧ ∀ y ∈ l, val y < val x := by
  obtain ⟨hne, hcx⟩ := val_ne hs hval (hpage ▸ nextPage_initial c)
  rw [advance, hpage]
  exact grow_eq_last hne hcx

omit [LinearOrder γ] in
theorem behind_last : behind rank items (pos (val x)) = (behind rank items (pos c)).drop limit := by
  have hx := mem_behind.mp ((nextPage_initial c).subset (hpage ▸ (by simp : x ∈ l ++ [x])))
  have hsorted := pairwise_behind hs (pos c)
  rw [behind_split hpage] at hsorted
  have hbehind := behind_append (x := x) hsorted (by simp)
  rwa [← behind_split hpage, behind_behind (le_of_lt hx.2), ← hval x hx.1] at hbehind

theorem ascends_iff :
    Ascends val limit c (behind rank items (pos c)) ↔
      (c < val x ∧ ∀ y ∈ l, val y < val x) ∧ Ascends val limit (val x) (behind rank items (pos (val x))) := by
  rw [behind_last hs hval hpage]
  have hlen : (l ++ [x]).length ≤ limit := by
    rw [← hpage, nextPage, length_take]
    exact Nat.min_le_left _ _
  have hfull : (l ++ [x]).length = limit ∨ (behind rank items (pos c)).drop limit = [] := by
    rw [← hpage, nextPage, length_take, drop_eq_nil_iff]
    omega
  have hascends : Ascends val limit c _ ↔ _ := ascends_append hfull hlen
  rwa [← behind_split hpage] at hascends

theorem clean_page_iff :
    Turn.Clean rank (pos c) ⟨nextPage rank items pos limit c, true, pos (advance rank items val pos limit c)⟩ ↔
      c < val x ∧ ∀ y ∈ l, val y < val x := by
  have hinit : l ++ [x] <+: behind rank items (pos c) := hpage ▸ nextPage_initial c
  have hx := mem_behind.mp (hinit.subset (by simp : x ∈ l ++ [x]))
  rw [← advance_eq_iff hs hval hpage]
  simp only [Turn.Clean, hpage, if_true, getLast?_append, getLast?_singleton, Option.some_or,
    Option.some.injEq, forall_eq']
  refine ⟨fun hrank => ?_, fun heq => by rw [heq, hval x hx.1]⟩
  -- the cursor is where it was or the value of an item read, and only `x` has the rank of `x`
  rw [advance, hpage] at hrank ⊢
  rcases (grow_eq val c (l ++ [x])).2.2 with heq | ⟨y, hy, heq⟩
  · rw [heq] at hrank
    exact absurd hx.2 (hrank ▸ lt_irrefl _)
  · have hymem := (mem_behind.mp (hinit.subset hy)).1
    rw [heq, hval y hymem] at hrank
    rw [heq, eq_of_rank_eq hs hymem hx.1 hrank]

end

include hlimit

/-- **Clean pages to the end are pages whose last items ascend.** -/
theorem clean_turns_iff (n : Nat) (c : γ)
    (hend : behind rank items (pos ((advance rank items val pos limit)^[n] c)) = []) :
    Clean rank (pos c) (turns rank items val pos limit n c) ↔
      Ascends val limit c (behind rank items (pos c)) := by
  induction n generalizing c with
  | zero =>
    rw [show behind rank items (pos c) = [] from hend]
    exact ⟨fun _ => Ascends.nil, fun _ => trivial⟩
  | succ n ih =>
    have ih := ih (advance rank items val pos limit c) hend
    rcases eq_nil_or_concat (nextPage rank items pos limit c) with hnil | ⟨l, x, hpage⟩
    · have hstay : advance rank items val pos limit c = c := by
        rw [advance, hnil]
        rfl
      have hb := (nextPage_eq_nil_iff hlimit).mp hnil
      rw [hstay, hb] at ih
      rw [hb]
      refine ⟨fun _ => Ascends.nil, fun _ => ⟨?_, by rw [hstay]; exact ih.mpr Ascends.nil⟩⟩
      simp [Turn.Clean, hnil]
    · rw [concat_eq_append] at hpage
      rw [ascends_iff hs hval hpage]
      refine (and_congr_left fun _ => clean_page_iff hs hval hpage).trans (and_congr_right fun hasc => ?_)
      rw [(advance_eq_iff hs hval hpage).mpr hasc] at ih ⊢
      exact ih

/-- Pages whose last items ascend come to an end. -/
theorem Ascends.ends (h : Ascends val limit c (behind rank items (pos c))) :
    ∃ n, nextPage rank items pos limit ((advance rank items val pos limit)^[n] c) = [] := by
  induction hn : (behind rank items (pos c)).length using Nat.strong_induction_on generalizing c with
  | _ m ih =>
    rcases eq_nil_or_concat (nextPage rank items pos limit c) with hnil | ⟨l, x, hpage⟩
    · exact ⟨0, hnil⟩
    · rw [concat_eq_append] at hpage
      obtain ⟨hasc, hrest⟩ := (ascends_iff hs hval hpage).mp h
      have hx := (nextPage_initial c).subset (hpage ▸ (by simp : x ∈ l ++ [x]))
      have hpos := length_pos_of_mem hx
      have hshort := congrArg length (behind_last hs hval hpage)
      rw [length_drop] at hshort
      obtain ⟨n, hend⟩ := ih _ (by omega) hrest rfl
      refine ⟨n + 1, ?_⟩
      rw [Function.iterate_succ_apply, (advance_eq_iff hs hval hpage).mpr hasc]
      exact hend

/-- **Paging with a growing cursor**: when the pages have come to their end, every item was read once
exactly if the items that end a page ascend. -/
theorem pages_perm_iff {n : Nat}
    (hend : nextPage rank items pos limit ((advance rank items val pos limit)^[n] c) = []) :
    (pages rank items val pos limit n c).Perm (behind rank items (pos c)) ↔
      Ascends val limit c (behind rank items (pos c)) := by
  have hnil := (nextPage_eq_nil_iff hlimit).mp hend
  rw [← clean_turns_iff hs hval hlimit n c hnil, ← handed_perm_iff hs (chain_turns hval limit n c), handed_turns,
    hnil, append_nil]

end

end

end OpenEtl.Keyset
