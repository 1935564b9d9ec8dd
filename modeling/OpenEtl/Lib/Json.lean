import Mathlib.Data.List.TakeWhile

/-!
# JSON texts

A reader for all of JSON, with numbers kept as their text, and a writer for objects whose members are given
by their texts. The text of a string determines it, a byte that is no character included (`quoteRunes_inj`).
-/

namespace OpenEtl

open List

inductive Json
  | null
  | bool (b : Bool)
  | num (text : List Char)
  | str (s : String)
  | arr (items : List Json)
  | obj (members : List (String × Json))

namespace Json

/-! ## Writing -/

def hex (n : Nat) : Char := (n % 16).digitChar

def hex4 (n : Nat) : List Char := [hex (n / 4096), hex (n / 256), hex (n / 16), hex n]

/-- The characters below a space and those HTML gives a meaning are escaped too. -/
def escapeChar (c : Char) : List Char :=
  if c = '"' then ['\\', '"']
  else if c = '\\' then ['\\', '\\']
  else if c = '\n' then ['\\', 'n']
  else if c = '\r' then ['\\', 'r']
  else if c = '\t' then ['\\', 't']
  else if c.toNat < 0x20 ∨ c ∈ ['<', '>', '&'] ∨ c.toNat = 0x2028 ∨ c.toNat = 0x2029 then
    '\\' :: 'u' :: hex4 c.toNat
  else [c]

/-- A byte that is no part of a character is written as the replacement character, which itself is not escaped. -/
def escapeRune : Option Char → List Char
  | some c => escapeChar c
  | none => ['\\', 'u', 'f', 'f', 'f', 'd']

def quoteRunes (rs : List (Option Char)) : List Char := '"' :: (rs.flatMap escapeRune ++ ['"'])

def quote (s : String) : List Char := '"' :: (s.toList.flatMap escapeChar ++ ['"'])

def member (m : String × List Char) : List Char := quote m.1 ++ ':' :: m.2

/-- Parts with commas between them. -/
def listed : List (List Char) → List Char
  | [] => []
  | [cs] => cs
  | cs :: css => cs ++ ',' :: listed css

/-- An object with members whose values have these texts. -/
def object (ms : List (String × List Char)) : List Char := '{' :: (listed (ms.map member) ++ ['}'])

/-! ## Reading -/

def isSpace (c : Char) : Bool := c = ' ' || c = '\t' || c = '\n' || c = '\r'

def skipSpace (cs : List Char) : List Char := cs.dropWhile isSpace

def hexVal (c : Char) : Option Nat :=
  if '0' ≤ c ∧ c ≤ '9' then some (c.toNat - '0'.toNat)
  else if 'a' ≤ c ∧ c ≤ 'f' then some (c.toNat - 'a'.toNat + 10)
  else if 'A' ≤ c ∧ c ≤ 'F' then some (c.toNat - 'A'.toNat + 10)
  else none

def simpleEscape (c : Char) : Option Char :=
  if c = '"' ∨ c = '\\' ∨ c = '/' then some c
  else if c = 'b' then some (Char.ofNat 8)
  else if c = 'f' then some (Char.ofNat 12)
  else if c = 'n' then some '\n'
  else if c = 'r' then some '\r'
  else if c = 't' then some '\t'
  else none

/-- The code units up to the closing quote. -/
def units : List Char → Option (List Nat × List Char)
  | [] => none
  | '"' :: cs => some ([], cs)
  | '\\' :: 'u' :: a :: b :: c :: d :: cs => do
    let n := ((← hexVal a) * 16 + (← hexVal b)) * 256 + (← hexVal c) * 16 + (← hexVal d)
    let (us, rest) ← units cs
    return (n :: us, rest)
  | '\\' :: e :: cs => do
    let c ← simpleEscape e
    let (us, rest) ← units cs
    return (c.toNat :: us, rest)
  | c :: cs => do
    if c.toNat < 0x20 then none
    let (us, rest) ← units cs
    return (c.toNat :: us, rest)

def isHigh (u : Nat) : Bool := 0xD800 ≤ u && u < 0xDC00
def isLow (u : Nat) : Bool := 0xDC00 ≤ u && u < 0xE000

/-- A surrogate without its partner is replaced. -/
def ofUnit (u : Nat) : Char := if isHigh u || isLow u then Char.ofNat 0xFFFD else Char.ofNat u

def ofUnits : List Nat → List Char
  | [] => []
  | [u] => [ofUnit u]
  | u :: v :: us =>
    if isHigh u && isLow v then Char.ofNat (0x10000 + (u - 0xD800) * 0x400 + (v - 0xDC00)) :: ofUnits us
    else ofUnit u :: ofUnits (v :: us)

def string (cs : List Char) : Option (String × List Char) :=
  (units cs).map fun p => (String.ofList (ofUnits p.1), p.2)

def isNumberChar (c : Char) : Bool := c.isDigit || c = '-' || c = '+' || c = '.' || c = 'e' || c = 'E'

def allDigits (cs : List Char) : Bool := !cs.isEmpty && cs.all Char.isDigit

def validInt (cs : List Char) : Bool := allDigits cs && (cs.head? ≠ some '0' || cs.length = 1)

def validExponent (cs : List Char) : Bool :=
  match cs with
  | [] => true
  | e :: '+' :: ds | e :: '-' :: ds => (e = 'e' || e = 'E') && allDigits ds
  | e :: ds => (e = 'e' || e = 'E') && allDigits ds

/-- A fraction, an exponent, or both. -/
def validFraction : List Char → Bool
  | '.' :: ds => allDigits (ds.takeWhile Char.isDigit) && validExponent (ds.dropWhile Char.isDigit)
  | rest => validExponent rest

def validNumber (cs : List Char) : Bool :=
  let cs := if cs.head? = some '-' then cs.tail else cs
  validInt (cs.takeWhile Char.isDigit) && validFraction (cs.dropWhile Char.isDigit)

def number (cs : List Char) : Option (Json × List Char) :=
  let text := cs.takeWhile isNumberChar
  if validNumber text then some (.num text, cs.dropWhile isNumberChar) else none

/-- Parts with commas between them, up to the closing character; there are at most as many as the number says. -/
def parts {α : Type} (part : List Char → Option (α × List Char)) (close : Char) :
    Nat → List Char → Option (List α × List Char)
  | 0, _ => none
  | n + 1, cs => do
    let (x, cs) ← part cs
    match skipSpace cs with
    | [] => none
    | c :: cs =>
      if c = ',' then
        let (xs, cs) ← parts part close n cs
        return (x :: xs, cs)
      else if c = close then return ([x], cs)
      else none

def readMember (value : List Char → Option (Json × List Char)) (cs : List Char) :
    Option ((String × Json) × List Char) :=
  match skipSpace cs with
  | '"' :: cs => do
    let (name, cs) ← string cs
    match skipSpace cs with
    | ':' :: cs =>
      let (x, cs) ← value cs
      return ((name, x), cs)
    | _ => none
  | _ => none

/-- A value; the number bounds how deep values are nested. -/
def value : Nat → List Char → Option (Json × List Char)
  | 0, _ => none
  | depth + 1, cs =>
    match skipSpace cs with
    | '{' :: cs =>
      match skipSpace cs with
      | '}' :: cs => some (.obj [], cs)
      | cs => (parts (readMember (value depth)) '}' cs.length cs).map fun p => (.obj p.1, p.2)
    | '[' :: cs =>
      match skipSpace cs with
      | ']' :: cs => some (.arr [], cs)
      | cs => (parts (value depth) ']' cs.length cs).map fun p => (.arr p.1, p.2)
    | '"' :: cs => (string cs).map fun p => (.str p.1, p.2)
    | 't' :: 'r' :: 'u' :: 'e' :: cs => some (.bool true, cs)
    | 'f' :: 'a' :: 'l' :: 's' :: 'e' :: cs => some (.bool false, cs)
    | 'n' :: 'u' :: 'l' :: 'l' :: cs => some (.null, cs)
    | cs => number cs

/-- One value and nothing behind it. -/
def decode (text : List Char) : Option Json :=
  match value text.length text with
  | some (v, rest) => if skipSpace rest = [] then some v else none
  | none => none

/-! ## Strings are read back -/

theorem hexVal_digitChar : ∀ d < 16, hexVal d.digitChar = some d := by
  decide

theorem hexVal_hex (n : Nat) : hexVal (hex n) = some (n % 16) := hexVal_digitChar (n % 16) (Nat.mod_lt n (by decide))

theorem units_escapeChar (c : Char) (rest : List Char) :
    units (escapeChar c ++ rest) = (units rest).map fun p => (c.toNat :: p.1, p.2) := by
  unfold escapeChar
  by_cases h1 : c = '"'
  · subst h1
    cases h : units rest <;> simp [units, simpleEscape, h]
  by_cases h2 : c = '\\'
  · subst h2
    cases h : units rest <;> simp [units, simpleEscape, h]
  by_cases h3 : c = '\n'
  · subst h3
    cases h : units rest <;> simp [units, simpleEscape, h]
  by_cases h4 : c = '\r'
  · subst h4
    cases h : units rest <;> simp [units, simpleEscape, h]
  by_cases h5 : c = '\t'
  · subst h5
    cases h : units rest <;> simp [units, simpleEscape, h]
  rw [if_neg h1, if_neg h2, if_neg h3, if_neg h4, if_neg h5]
  split
  · rename_i hu
    have hlt : c.toNat < 65536 := by
      rcases hu with hu | hu | hu | hu
      · omega
      · simp only [mem_cons, not_mem_nil, or_false] at hu
        rcases hu with rfl | rfl | rfl <;> decide
      · omega
      · omega
    have hval : ((c.toNat / 4096 % 16) * 16 + c.toNat / 256 % 16) * 256 + c.toNat / 16 % 16 * 16 + c.toNat % 16 =
        c.toNat := by omega
    simp only [hex4, cons_append, nil_append, units, hexVal_hex]
    cases h : units rest <;> simp [hval]
  · rename_i hu
    simp only [not_or, Nat.not_lt] at hu
    have hlow : ¬ c.toNat < 0x20 := by omega
    cases h : units rest <;> simp [units, h2, hlow, h]

theorem quote_eq (s : String) : quote s = quoteRunes (s.toList.map some) := by
  simp [quote, quoteRunes, flatMap_map, escapeRune]

theorem units_runes (rs : List (Option Char)) (rest : List Char) :
    units (rs.flatMap escapeRune ++ '"' :: rest) =
      some (rs.map fun r => (r.getD (Char.ofNat 0xFFFD)).toNat, rest) := by
  induction rs with
  | nil => rfl
  | cons r rs ih =>
    rw [flatMap_cons, append_assoc]
    cases r with
    | some c => rw [escapeRune, units_escapeChar, ih, Option.map_some, map_cons, Option.getD_some]
    | none =>
      simp only [escapeRune, cons_append, nil_append, units, ih]
      rfl

theorem quoteRunes_inj {rs rs' : List (Option Char)} (h : quoteRunes rs = quoteRunes rs') : rs = rs' := by
  replace h := tail_eq_of_cons_eq h
  induction rs generalizing rs' with
  | nil =>
    have hunits := units_runes rs' []
    rw [← h] at hunits
    simpa [units] using hunits
  | cons r rs ih =>
    have hunits := units_runes (r :: rs) []
    rw [h, units_runes] at hunits
    cases rs' with
    | nil => simp at hunits
    | cons r' rs' =>
      simp only [map_cons, Option.some.injEq, Prod.mk.injEq, List.cons.injEq, and_true] at hunits
      have hr : r = r' := by
        have hchar : r'.getD (Char.ofNat 0xFFFD) = r.getD (Char.ofNat 0xFFFD) := Char.toNat_inj.mp hunits.1
        -- the replacement character is written as itself, a byte that is none with a backslash
        cases r with
        | some c =>
          cases r' with
          | some c' => rw [show c' = c from hchar]
          | none =>
            obtain rfl : Char.ofNat 0xFFFD = c := hchar
            simp [escapeRune, escapeChar] at h
        | none =>
          cases r' with
          | some c' =>
            obtain rfl : c' = Char.ofNat 0xFFFD := hchar
            simp [escapeRune, escapeChar] at h
          | none => rfl
      subst hr
      rw [flatMap_cons, flatMap_cons, append_assoc, append_assoc] at h
      rw [ih (append_cancel_left h)]

/-! ## Integers -/

theorem head_toDigits {n : Nat} (h : 0 < n) : (Nat.toDigits 10 n).head? ≠ some '0' := by
  induction n using Nat.strongRecOn with
  | ind n ih =>
    by_cases hn : n < 10
    · rw [Nat.toDigits_of_lt_base hn]
      simp
      omega
    · rw [Nat.toDigits_of_base_le (by decide) (by omega)]
      have := ih (n / 10) (by omega) (by omega)
      cases hd : Nat.toDigits 10 (n / 10) with
      | nil => exact absurd hd Nat.toDigits_ne_nil
      | cons c cs => simpa [hd] using this

theorem isDigit_toDigits {n : Nat} {c : Char} (h : c ∈ Nat.toDigits 10 n) : c.isDigit = true :=
  Nat.isDigit_of_mem_toDigits (by decide) (by decide) h

theorem validInt_toDigits (n : Nat) : validInt (Nat.toDigits 10 n) = true := by
  simp only [validInt, allDigits, Bool.and_eq_true, Bool.or_eq_true]
  refine ⟨⟨by simp, by simpa using fun c => isDigit_toDigits⟩, ?_⟩
  cases n with
  | zero => exact Or.inr rfl
  | succ n => exact Or.inl (by simpa using head_toDigits (Nat.succ_pos n))

theorem toList_toString_int (n : Int) :
    (toString n).toList = if 0 ≤ n then Nat.toDigits 10 n.toNat else '-' :: Nat.toDigits 10 (-n).toNat := by
  rw [Int.toString_eq_repr, Int.repr_eq_if]
  split
  · exact Nat.toList_repr
  · rw [String.toList_append, Nat.toList_repr]
    rfl

theorem validNumber_toDigits (n : Nat) :
    validNumber (Nat.toDigits 10 n) = true ∧ validNumber ('-' :: Nat.toDigits 10 n) = true := by
  have hall : ∀ c ∈ Nat.toDigits 10 n, c.isDigit = true := fun c => isDigit_toDigits
  have htake := takeWhile_eq_self_iff.mpr hall
  have hdrop := dropWhile_eq_nil_iff.mpr hall
  have hhead : (Nat.toDigits 10 n).head? ≠ some '-' := by
    intro h
    have := isDigit_toDigits (mem_of_mem_head? h)
    simp at this
  constructor
  · simp [validNumber, hhead, htake, hdrop, validInt_toDigits, validFraction, validExponent]
  · simp [validNumber, htake, hdrop, validInt_toDigits, validFraction, validExponent]

theorem validNumber_int (n : Int) : validNumber (toString n).toList = true := by
  rw [toList_toString_int]
  split
  · exact (validNumber_toDigits _).1
  · exact (validNumber_toDigits _).2

end Json

end OpenEtl
