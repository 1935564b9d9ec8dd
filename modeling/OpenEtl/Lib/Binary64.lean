import Mathlib.Data.Int.Log
import Mathlib.Algebra.Order.Archimedean.Basic
import Mathlib.Tactic.Positivity

/-!
# Finite `binary64` numbers

A finite double is `m · 2^e` with `|m| < 2^53`, `-1074 ≤ e`, and less than `2^1024` in size. `round` takes a rational
to the nearest one, ties to the even significand; what would be `2^1024` or more is out of range.
-/

namespace OpenEtl.Binary64

/-- The exponent of the last place kept of `x`. -/
def lastPlace (x : ℚ) : ℤ := max (Int.log 2 |x| - 52) (-1074)

/-- The nearest integer, the even one of two. -/
def roundEven (y : ℚ) : ℤ :=
  if y - ⌊y⌋ < 1 / 2 then ⌊y⌋
  else if 1 / 2 < y - ⌊y⌋ then ⌊y⌋ + 1
  else if ⌊y⌋ % 2 = 0 then ⌊y⌋ else ⌊y⌋ + 1

def round (x : ℚ) : Option ℚ :=
  if |(roundEven (x / 2 ^ lastPlace x) : ℚ) * 2 ^ lastPlace x| < 2 ^ 1024 then
    some (roundEven (x / 2 ^ lastPlace x) * 2 ^ lastPlace x)
  else none

def IsDouble (x : ℚ) : Prop := |x| < 2 ^ 1024 ∧ ∃ m e : ℤ, |m| < 2 ^ 53 ∧ -1074 ≤ e ∧ x = m * 2 ^ e

theorem roundEven_intCast (n : ℤ) : roundEven n = n := by
  simp [roundEven]

theorem floor_le_roundEven (y : ℚ) : ⌊y⌋ ≤ roundEven y ∧ roundEven y ≤ ⌊y⌋ + 1 := by
  unfold roundEven
  split <;> [skip; split <;> [skip; split]] <;> omega

variable {x : ℚ}

/-- `|x|` is less than `2^53` units of its last place. -/
theorem abs_lt_units : |x / 2 ^ lastPlace x| < 2 ^ 53 := by
  have hpos : (0 : ℚ) < 2 ^ lastPlace x := zpow_pos two_pos _
  rw [abs_div, abs_of_pos hpos, div_lt_iff₀ hpos]
  calc |x| < (2 : ℚ) ^ (Int.log 2 |x| + 1) := by exact_mod_cast Int.lt_zpow_succ_log_self one_lt_two |x|
    _ ≤ 2 ^ (53 + lastPlace x) := by
      apply zpow_le_zpow_right₀ one_le_two
      unfold lastPlace
      omega
    _ = 2 ^ 53 * 2 ^ lastPlace x := by rw [zpow_add₀ two_ne_zero]; norm_num

theorem abs_roundEven_le (x : ℚ) : |roundEven (x / 2 ^ lastPlace x)| ≤ 2 ^ 53 := by
  have habs := abs_lt.mp (abs_lt_units (x := x))
  obtain ⟨hlo, hhi⟩ := floor_le_roundEven (x / 2 ^ lastPlace x)
  have hfloor : ⌊x / 2 ^ lastPlace x⌋ < 2 ^ 53 := Int.floor_lt.mpr (by exact_mod_cast habs.2)
  have hfloor' : -2 ^ 53 ≤ ⌊x / 2 ^ lastPlace x⌋ := Int.le_floor.mpr (by push_cast; exact habs.1.le)
  exact abs_le.mpr ⟨hfloor'.trans hlo, by omega⟩

theorem round_isDouble {r : ℚ} (h : round x = some r) : IsDouble r := by
  unfold round at h
  split at h
  case isFalse => cases h
  case isTrue hsize =>
    cases h
    refine ⟨hsize, ?_⟩
    have hplace : -1074 ≤ lastPlace x := le_max_right _ _
    rcases (abs_roundEven_le x).lt_or_eq with hlt | heq
    · exact ⟨_, _, hlt, hplace, rfl⟩
    -- a significand rounded up to `2^53` is `2^52` in the next binade
    · have hcarry : ((2 : ℚ) ^ 53) * 2 ^ lastPlace x = 2 ^ 52 * 2 ^ (lastPlace x + 1) := by
        rw [zpow_add_one₀ two_ne_zero]
        ring
      rcases (abs_eq (by positivity)).mp heq with hm | hm
      · exact ⟨2 ^ 52, lastPlace x + 1, by norm_num, by omega, by rw [hm]; push_cast; exact hcarry⟩
      · refine ⟨-2 ^ 52, lastPlace x + 1, by norm_num, by omega, ?_⟩
        rw [hm]
        push_cast
        linarith

theorem lastPlace_le {m e : ℤ} (hm : |m| < 2 ^ 53) (he : -1074 ≤ e) (hx : x = m * 2 ^ e) (h0 : x ≠ 0) :
    lastPlace x ≤ e := by
  have hsize : |x| < (2 : ℚ) ^ (e + 53) := by
    have hm' : |(m : ℚ)| < 2 ^ 53 := by exact_mod_cast hm
    have hpos : (0 : ℚ) < 2 ^ e := zpow_pos two_pos _
    rw [hx, abs_mul, abs_of_pos hpos, zpow_add₀ two_ne_zero, mul_comm ((2 : ℚ) ^ e)]
    exact mul_lt_mul_of_pos_right (by exact_mod_cast hm') hpos
  have hlog : Int.log 2 |x| < e + 53 :=
    (Int.lt_zpow_iff_log_lt one_lt_two (abs_pos.mpr h0)).mp (by exact_mod_cast hsize)
  exact max_le (by omega) he

theorem round_of_isDouble (h : IsDouble x) : round x = some x := by
  obtain ⟨hsize, m, e, hm, he, hx⟩ := h
  have hpos : (2 : ℚ) ^ lastPlace x ≠ 0 := zpow_ne_zero _ two_ne_zero
  -- in units of its last place `x` is an integer
  have hint : ∃ n : ℤ, x / 2 ^ lastPlace x = n := by
    by_cases h0 : x = 0
    · exact ⟨0, by simp [h0]⟩
    · obtain ⟨k, hk⟩ := Int.eq_ofNat_of_zero_le (sub_nonneg.mpr (lastPlace_le hm he hx h0))
      refine ⟨m * 2 ^ k, ?_⟩
      have hsplit : (2 : ℚ) ^ e = 2 ^ k * 2 ^ lastPlace x := by
        rw [← zpow_natCast, ← zpow_add₀ two_ne_zero]
        congr 1
        omega
      rw [div_eq_iff hpos]
      push_cast
      rw [mul_assoc, ← hsplit]
      exact hx
  obtain ⟨n, hn⟩ := hint
  have hback : (roundEven (x / 2 ^ lastPlace x) : ℚ) * 2 ^ lastPlace x = x := by
    rw [hn, roundEven_intCast, ← hn, div_mul_cancel₀ x hpos]
  simp only [round, hback, hsize, if_true]

theorem isDouble_intCast {n : ℤ} (h : |n| ≤ 2 ^ 53) : IsDouble n := by
  have hn : |(n : ℚ)| ≤ 2 ^ 53 := by exact_mod_cast h
  refine ⟨lt_of_le_of_lt hn (pow_lt_pow_right₀ one_lt_two (by norm_num)), ?_⟩
  rcases h.lt_or_eq with hlt | heq
  · exact ⟨n, 0, hlt, by norm_num, by simp⟩
  · rcases (abs_eq (by positivity)).mp heq with rfl | rfl
    · exact ⟨2 ^ 52, 1, by norm_num, by norm_num, by norm_num⟩
    · exact ⟨-2 ^ 52, 1, by norm_num, by norm_num, by norm_num⟩

theorem not_isDouble_odd {n : ℤ} (hodd : n % 2 = 1) (hsize : 2 ^ 53 < |n|) : ¬IsDouble n := by
  rintro ⟨-, m, e, hm, -, hn⟩
  rcases le_or_gt e 0 with he | he
  · -- a fraction of `m` is no larger than `m`
    have hle : |(n : ℚ)| ≤ |(m : ℚ)| := by
      have hpos : (0 : ℚ) < 2 ^ e := zpow_pos two_pos e
      rw [hn, abs_mul, abs_of_pos hpos]
      exact mul_le_of_le_one_right (abs_nonneg _) (zpow_le_one_of_nonpos₀ one_le_two he)
    have hle' : |n| ≤ |m| := by exact_mod_cast hle
    omega
  · -- a multiple of `2` is not odd
    obtain ⟨k, rfl⟩ := Int.eq_ofNat_of_zero_le he.le
    have heq : n = m * 2 ^ k := by exact_mod_cast hn
    obtain ⟨j, rfl⟩ : ∃ j, k = j + 1 := ⟨k - 1, by omega⟩
    rw [pow_succ, ← mul_assoc] at heq
    omega

end OpenEtl.Binary64
