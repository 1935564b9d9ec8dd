import Mathlib.Data.List.Infix

/-!
# SQL `=` and `LIKE`

A pattern is a list of characters in which `%` stands for any text, `_` for any character, and the
character behind the escape character for itself. What the escape character is, if there is one, and
which characters and which texts are taken for the same, depends on the database and its collation.
-/

namespace OpenEtl.Like

structure Dialect where
  escape : Option Char
  same : Char → Char → Bool
  refl : ∀ c, same c c = true
  /-- `=` of two texts -/
  equal : String → String → Bool
  equal_refl : ∀ s, equal s s = true
  equal_symm : ∀ s t, equal s t = true → equal t s = true

inductive Token
  | any
  | one
  | lit (c : Char)
deriving DecidableEq, Repr

def token (c : Char) : Token := if c = '%' then .any else if c = '_' then .one else .lit c

/-- `escaped`: the last character was the escape character. -/
def tokens (escape : Option Char) : Bool → List Char → List Token
  | _, [] => []
  | true, c :: cs => .lit c :: tokens escape false cs
  | false, c :: cs => if escape = some c then tokens escape true cs else token c :: tokens escape false cs

def accepts (same : Char → Char → Bool) : List Token → List Char → Bool
  | [], text => text.isEmpty
  | .any :: ts, text => text.tails.any (accepts same ts)
  | .one :: _, [] => false
  | .one :: ts, _ :: text => accepts same ts text
  | .lit _ :: _, [] => false
  | .lit c :: ts, x :: text => same c x && accepts same ts text

/-- `text LIKE pattern`. -/
def Dialect.like (d : Dialect) (text pattern : String) : Bool :=
  accepts d.same (tokens d.escape false pattern.toList) text.toList

end OpenEtl.Like
