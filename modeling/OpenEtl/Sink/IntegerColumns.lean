import OpenEtl.Lib.Binary64

/-!
# Integers in ClickHouse columns

`convertClickHouseValue` (sink/clickhouse.go:1658-1702) prints a value for an integer column, parses the text with
`ParseInt` and else with `ParseFloat`, and hands on an `int64`; where neither parses it, the value is handed on
untouched. `convertClickHouseHTTPValue` only changes times.
-/

namespace OpenEtl.Sink.IntegerColumns

open Binary64

/-- How the type of an integer is wrapped in a column type. -/
inductive Wrapping
  | plain | nullable | lowCardinality | lowCardinalityNullable

inductive ColumnType
  | integer (wrapping : Wrapping) (signed : Bool) (bits : Nat)
  | array (element : ColumnType)

/-- What an integer is written as: a Go integer of any width; a string or `json.Number` of a sign and digits; one with a
fraction or an exponent; the float64 of a number in a decoded JSON text. -/
inductive Form
  | goInt | digits | scaled | float64

/-- A value for a column; `jsonText` is a string that decodes to an array. -/
inductive Input
  | integer (form : Form) (n : Int)
  | anys (elements : List Input)
  | slice (elements : List Int)
  | jsonText (elements : List Input)

/-- What is handed to the driver or put into the HTTP row. -/
inductive Output
  | int64 (i : Int)
  | anys (elements : List Output)
  | marshalled
  | untouched

def InI64 (n : Int) : Prop := -9223372036854775808 ≤ n ∧ n ≤ 9223372036854775807

instance (n : Int) : Decidable (InI64 n) := inferInstanceAs (Decidable (_ ∧ _))

/-- `strconv.ParseFloat` of the text of an integer: nothing where the nearest float64 would be infinite. -/
def parseFloat (n : Int) : Option ℚ := Binary64.round n

/-- `%v` of a float64: `shown n` is the integer the text of the float64 nearest to `n` stands for, and that text parses to the
same float64. -/
structure Printing where
  shown : Int → Int
  parse_shown : ∀ n, parseFloat (shown n) = parseFloat n

/-- `int64(f)`, which on amd64 is the least `int64` where `f` is out of range. -/
def int64OfFloat (f : ℚ) : Int :=
  if InI64 (f.num.tdiv f.den) then f.num.tdiv f.den else -9223372036854775808

/-- The text of an integer: what it stands for, and whether it is of digits. A float64 is printed with an exponent from `1e+06`
on. -/
def text (P : Printing) : Form → Int → Int × Bool
  | .goInt, n | .digits, n => (n, true)
  | .scaled, n => (n, false)
  | .float64, n => if |n| < 1000000 then (n, true) else (P.shown n, false)

/-- The case of the integer types (clickhouse.go:1686-1702). -/
def convertInteger (s : Int × Bool) : Output :=
  if s.2 = true ∧ InI64 s.1 then .int64 s.1
  else match parseFloat s.1 with
    | some f => .int64 (int64OfFloat f)
    | none => .untouched

/-- `convertClickHouseValue` for the types of integers and their arrays. Of `LowCardinality(Nullable(Int64))` the prefixes are
tried in the other order, so that no case is met; a closing parenthesis that is left over is not looked at. -/
def convertClickHouseValue (P : Printing) : ColumnType → Input → Output
  | .integer .lowCardinalityNullable _ _, .integer _ _ => .untouched
  | .integer _ _ _, .integer form n => convertInteger (text P form n)
  -- the text of a list is no number
  | .integer _ _ _, .anys _ => .marshalled
  | .integer _ _ _, _ => .untouched
  -- `convertArrayValue` (clickhouse.go:1806-1839)
  | .array e, .anys vs | .array e, .jsonText vs => .anys (vs.map (convertClickHouseValue P e))
  | .array _, .slice _ => .untouched
  | .array _, .integer _ _ => .anys [.untouched]

/-- Every integer of the input is the same integer in the output, or untouched. -/
inductive Keeps : Input → Output → Prop
  | untouched (v : Input) : Keeps v .untouched
  | same (form : Form) (n : Int) : Keeps (.integer form n) (.int64 n)
  | wrapped (form : Form) (n : Int) : Keeps (.integer form n) (.anys [.untouched])
  | anys {vs : List Input} {outs : List Output} : List.Forall₂ Keeps vs outs → Keeps (.anys vs) (.anys outs)
  | jsonText {vs : List Input} {outs : List Output} : List.Forall₂ Keeps vs outs → Keeps (.jsonText vs) (.anys outs)
  | marshalled (vs : List Input) : Keeps (.anys vs) .marshalled

/-- An integer of a form that comes through the conversion. -/
def Exact : Form → Int → Prop
  | .goInt, n | .digits, n => InI64 n ∨ parseFloat n = none
  | .scaled, n | .float64, n => InI64 n ∧ IsDouble n ∨ parseFloat n = none

def AllExact : ColumnType → Input → Prop
  | .integer .lowCardinalityNullable _ _, .integer _ _ => True
  | .integer _ _ _, .integer form n => Exact form n
  | .array e, .anys vs | .array e, .jsonText vs => ∀ v ∈ vs, AllExact e v
  | _, _ => True

/-- The float64 nearest to an integer is an integer. -/
theorem parseFloat_int {n : Int} {f : ℚ} (h : parseFloat n = some f) : ∃ k : Int, f = k := by
  by_cases hn : |n| ≤ 2 ^ 53
  · rw [parseFloat, round_of_isDouble (isDouble_intCast hn)] at h
    exact ⟨n, (Option.some.inj h).symm⟩
  · have hn' : (2 : ℚ) ^ (53 : ℤ) ≤ |(n : ℚ)| := by
      have : (2 ^ 53 : ℤ) ≤ |n| := by omega
      exact_mod_cast this
    have hlog : 53 ≤ Int.log 2 |(n : ℚ)| :=
      (Int.zpow_le_iff_le_log one_lt_two (lt_of_lt_of_le (by positivity) hn')).mp (by exact_mod_cast hn')
    obtain ⟨k, hk⟩ := Int.eq_ofNat_of_zero_le (show 0 ≤ lastPlace n by unfold lastPlace; omega)
    unfold parseFloat Binary64.round at h
    split at h
    · refine ⟨roundEven (n / 2 ^ lastPlace n) * 2 ^ k, ?_⟩
      rw [← Option.some.inj h, hk]
      push_cast
      rw [zpow_natCast]
    · simp at h

theorem keeps_int64_iff {form : Form} {n i : Int} : Keeps (.integer form n) (.int64 i) ↔ i = n := by
  constructor
  · rintro ⟨⟩
    rfl
  · rintro rfl
    exact .same form i

theorem isDouble_pow63 {n : Int} (h : |n| = 9223372036854775808) : IsDouble n := by
  have habs : |(n : ℚ)| = 2 ^ 63 := by
    rw [← Int.cast_abs, h]
    norm_num
  refine ⟨lt_of_eq_of_lt habs (pow_lt_pow_right₀ one_lt_two (by norm_num)), ?_⟩
  rcases eq_or_eq_neg_of_abs_eq habs with h | h
  · exact ⟨1, 63, by norm_num, by norm_num, by rw [h]; norm_num⟩
  · exact ⟨-1, 63, by norm_num, by norm_num, by rw [h]; norm_num⟩

theorem int64OfFloat_int {f : ℚ} {k : Int} (hf : f = k) :
    int64OfFloat f = if InI64 k then k else -9223372036854775808 := by
  simp [int64OfFloat, hf]

/-- Through a float64 an integer comes exactly if it is one and fits. -/
theorem through_float_iff (form : Form) {n m : Int} (hm : parseFloat m = parseFloat n) :
    Keeps (.integer form n) (match parseFloat m with | some f => .int64 (int64OfFloat f) | none => .untouched) ↔
      InI64 n ∧ IsDouble n ∨ parseFloat n = none := by
  rw [hm]
  cases hf : parseFloat n with
  | none => simp [Keeps.untouched]
  | some f =>
    obtain ⟨k, rfl⟩ := parseFloat_int hf
    simp only [keeps_int64_iff, int64OfFloat_int rfl, reduceCtorEq, or_false]
    constructor
    · intro h
      by_cases hk : InI64 k
      · rw [if_pos hk] at h
        exact h ▸ ⟨hk, round_isDouble hf⟩
      · -- the least `int64` is a float64
        have hmin : IsDouble (-9223372036854775808 : Int) := isDouble_pow63 rfl
        rw [if_neg hk] at h
        rw [← h, parseFloat, round_of_isDouble hmin] at hf
        exact absurd (show InI64 k by rw [← Int.cast_inj.mp (Option.some.inj hf)]; decide) hk
    · rintro ⟨hin, hdouble⟩
      rw [parseFloat, round_of_isDouble hdouble] at hf
      rw [← Int.cast_inj.mp (Option.some.inj hf), if_pos hin]

theorem convertInteger_keeps_iff (P : Printing) (form : Form) (n : Int) :
    Keeps (.integer form n) (convertInteger (text P form n)) ↔ Exact form n := by
  cases form with
  | scaled => simpa [text, convertInteger, Exact] using through_float_iff .scaled rfl
  | float64 =>
    by_cases h : |n| < 1000000
    · have hn := abs_lt.mp h
      have hin : InI64 n := ⟨by omega, by omega⟩
      simp [text, convertInteger, Exact, h, hin, keeps_int64_iff, isDouble_intCast (show |n| ≤ 2 ^ 53 by omega)]
    · simpa [text, convertInteger, Exact, h] using through_float_iff .float64 (P.parse_shown n)
  | _ =>
    by_cases h : InI64 n
    · simp [text, convertInteger, Exact, h, keeps_int64_iff]
    · simpa [text, convertInteger, Exact, h] using through_float_iff _ (n := n) rfl

theorem keeps_map_iff {vs : List Input} {g : Input → Output} {p : Input → Prop} (h : ∀ v, Keeps v (g v) ↔ p v) :
    List.Forall₂ Keeps vs (vs.map g) ↔ ∀ v ∈ vs, p v := by
  simp [List.forall₂_same, h]

/-- **The conversion keeps every integer** exactly if all that are converted are exact. -/
theorem conversion_keeps_iff (P : Printing) : ∀ (t : ColumnType) (v : Input),
    Keeps v (convertClickHouseValue P t v) ↔ AllExact t v
  | .array e, .anys vs => by
    rw [AllExact, ← keeps_map_iff (conversion_keeps_iff P e)]
    exact ⟨fun | .anys h => h, .anys⟩
  | .array e, .jsonText vs => by
    rw [AllExact, ← keeps_map_iff (conversion_keeps_iff P e)]
    exact ⟨fun | .jsonText h => h, .jsonText⟩
  | .array _, .integer form n => by simp [convertClickHouseValue, AllExact, Keeps.wrapped]
  | .integer w _ _, .integer form n => by
    cases w <;> simp [convertClickHouseValue, AllExact, convertInteger_keeps_iff, Keeps.untouched]
  | .integer _ _ _, .anys _ => by simp [convertClickHouseValue, AllExact, Keeps.marshalled]
  | .array _, .slice _ | .integer _ _ _, .slice _ | .integer _ _ _, .jsonText _ => by
    simp [convertClickHouseValue, AllExact, Keeps.untouched]

/-- `2^63` in a `UInt64` column becomes `-2^63`. -/
theorem uint64_changed :
    convertClickHouseValue ⟨id, fun _ => rfl⟩ (.integer .plain false 64) (.integer .goInt 9223372036854775808) =
        .int64 (-9223372036854775808) ∧
      ¬Keeps (.integer .goInt 9223372036854775808) (.int64 (-9223372036854775808)) := by
  have hf : parseFloat 9223372036854775808 = some ((9223372036854775808 : Int) : ℚ) :=
    round_of_isDouble (isDouble_pow63 rfl)
  refine ⟨?_, by simp [keeps_int64_iff]⟩
  show convertInteger (9223372036854775808, true) = _
  rw [convertInteger, hf]
  exact congrArg Output.int64 (int64OfFloat_int rfl)

end OpenEtl.Sink.IntegerColumns
