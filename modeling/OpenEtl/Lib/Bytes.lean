import Mathlib.Algebra.Ring.Nat
import Mathlib.Data.List.Basic

/-!
# Byte encodings

Fixed-width words of either byte order and fields with their length in front. A sequence of such parts can
be read back from its concatenation, so it determines them (`littleEndian_eq_iff`, `lenPrefixed_append_inj`,
`ofBigEndian_bigEndian`). Bytes are read as UTF-8 one character after the other (`runes`); those of a text are read back
(`text_utf8`).
-/

namespace OpenEtl.Bytes

open List

/-- The `w` low bytes of a number, the lowest first. -/
def littleEndian (w n : Nat) : List UInt8 := (List.range w).map fun i => UInt8.ofNat (n >>> (8 * i))

@[simp] theorem littleEndian_length (w n : Nat) : (littleEndian w n).length = w := by
  simp [littleEndian]

theorem littleEndian_succ (w n : Nat) : littleEndian (w + 1) n = UInt8.ofNat n :: littleEndian w (n / 256) := by
  rw [littleEndian, range_succ_eq_map, map_cons, map_map]
  congr 1
  refine map_congr_left fun i _ => ?_
  have h : n >>> (8 * (i + 1)) = (n / 256) >>> (8 * i) := by
    rw [Nat.mul_add, Nat.add_comm, Nat.shiftRight_add, Nat.shiftRight_eq_div_pow n]
  rw [Function.comp, h]

/-- A word is the number up to its width. -/
theorem littleEndian_eq_iff {w a b : Nat} : littleEndian w a = littleEndian w b ↔ a % 256 ^ w = b % 256 ^ w := by
  induction w generalizing a b with
  | zero => simp [littleEndian, Nat.mod_one]
  | succ w ih =>
    have hlow : UInt8.ofNat a = UInt8.ofNat b ↔ a % 256 = b % 256 := by
      rw [← UInt8.toNat_inj, UInt8.toNat_ofNat', UInt8.toNat_ofNat']
    rw [littleEndian_succ, littleEndian_succ, List.cons.injEq, ih, hlow, Nat.pow_succ, Nat.mul_comm,
      Nat.mod_mul, Nat.mod_mul]
    omega

/-- A field with its length in front, as a word of `w` bytes. -/
def lenPrefixed (w : Nat) (s : List UInt8) : List UInt8 := littleEndian w s.length ++ s

/-- A field can be read back from the front of a text. -/
theorem lenPrefixed_append_inj {w : Nat} {s s' rest rest' : List UInt8} (hs : s.length < 256 ^ w)
    (hs' : s'.length < 256 ^ w) (h : lenPrefixed w s ++ rest = lenPrefixed w s' ++ rest') :
    s = s' ∧ rest = rest' := by
  rw [lenPrefixed, lenPrefixed, append_assoc, append_assoc] at h
  obtain ⟨hlen, h⟩ := append_inj h (by simp)
  have hlen : s.length = s'.length := by
    have := littleEndian_eq_iff.mp hlen
    rwa [Nat.mod_eq_of_lt hs, Nat.mod_eq_of_lt hs'] at this
  exact append_inj h hlen

/-! ## Network byte order -/

/-- The `w` low bytes of a number, the highest first. -/
def bigEndian (w n : Nat) : List UInt8 := (littleEndian w n).reverse

def ofBigEndian (bs : List UInt8) : Nat := bs.foldl (fun n b => n * 256 + b.toNat) 0

@[simp] theorem bigEndian_length (w n : Nat) : (bigEndian w n).length = w := by
  simp [bigEndian]

theorem bigEndian_succ (w n : Nat) : bigEndian (w + 1) n = bigEndian w (n / 256) ++ [UInt8.ofNat n] := by
  rw [bigEndian, littleEndian_succ, reverse_cons, bigEndian]

theorem bigEndian_cons (w n : Nat) : bigEndian (w + 1) n = UInt8.ofNat (n >>> (8 * w)) :: bigEndian w n := by
  simp [bigEndian, littleEndian, range_succ]

theorem ofBigEndian_snoc (bs : List UInt8) (b : UInt8) : ofBigEndian (bs ++ [b]) = ofBigEndian bs * 256 + b.toNat := by
  simp [ofBigEndian]

theorem ofBigEndian_bigEndian (w n : Nat) : ofBigEndian (bigEndian w n) = n % 256 ^ w := by
  induction w generalizing n with
  | zero => simp [bigEndian, littleEndian, ofBigEndian, Nat.mod_one]
  | succ w ih =>
    have hlow : (UInt8.ofNat n).toNat = n % 256 := UInt8.toNat_ofNat'
    rw [bigEndian_succ, ofBigEndian_snoc, ih, Nat.pow_succ, Nat.mul_comm (256 ^ w), Nat.mod_mul]
    omega

/-! ## Text -/

/-- The characters behind the first `skip` bytes; a byte that starts none stands alone, as `none`. -/
def runesFrom : (skip : Nat) → List UInt8 → List (Option Char)
  | _, [] => []
  | skip + 1, _ :: bs => runesFrom skip bs
  | 0, b :: bs =>
    let c := (b :: bs).toByteArray.utf8DecodeChar? 0
    c :: runesFrom ((c.map Char.utf8Size).getD 1 - 1) bs

def runes (bs : List UInt8) : List (Option Char) := runesFrom 0 bs

/-- The text of bytes, with the replacement character for what is none. -/
def text (bs : List UInt8) : String := String.ofList ((runes bs).map fun c => c.getD (Char.ofNat 0xFFFD))

/-- The bytes of a text. -/
def utf8 (s : String) : List UInt8 := s.toList.flatMap String.utf8EncodeChar

theorem runesFrom_append (bs rest : List UInt8) : runesFrom bs.length (bs ++ rest) = runes rest := by
  induction bs with
  | nil => rfl
  | cons b bs ih => exact ih

theorem runes_utf8EncodeChar_append (c : Char) (rest : List UInt8) :
    runes (String.utf8EncodeChar c ++ rest) = some c :: runes rest := by
  have hdecode : (String.utf8EncodeChar c ++ rest).toByteArray.utf8DecodeChar? 0 = some c := by
    rw [toByteArray_append']
    exact ByteArray.utf8DecodeChar?_utf8EncodeChar_append
  have hlen := String.length_utf8EncodeChar c
  cases hc : String.utf8EncodeChar c with
  | nil =>
    rw [hc] at hlen
    exact absurd hlen.symm (Nat.ne_of_gt c.utf8Size_pos)
  | cons b bs =>
    rw [hc] at hdecode hlen
    rw [runes, cons_append, runesFrom, ← cons_append, hdecode]
    simp only [Option.map_some, Option.getD_some, ← hlen, length_cons, Nat.add_sub_cancel, runesFrom_append]

theorem runes_utf8 (s : String) : runes (utf8 s) = s.toList.map some := by
  unfold utf8
  induction s.toList with
  | nil => rfl
  | cons c cs ih => rw [flatMap_cons, runes_utf8EncodeChar_append, ih, map_cons]

@[simp] theorem text_utf8 (s : String) : text (utf8 s) = s := by
  rw [text, runes_utf8, map_map]
  have hid : (fun c => Option.getD c (Char.ofNat 0xFFFD)) ∘ some = id := rfl
  rw [hid, map_id, String.ofList_toList]

/-- Bytes that are a text. -/
def IsText (bs : List UInt8) : Prop := ∃ s, utf8 s = bs

theorem utf8_text {bs : List UInt8} (h : IsText bs) : utf8 (text bs) = bs := by
  obtain ⟨s, rfl⟩ := h
  rw [text_utf8]

end OpenEtl.Bytes
