import Mathlib.Data.List.Basic

/-!
# Configuration trees

Maps and lists over leaves of any type, and the leaves that a walk over the fields reaches, with the keys they stand under:
it enters every member of a map, and of a list those items that are maps.
-/

namespace OpenEtl

/-- A map is a node with `isMap`, its children under their keys; the items of a list have no key. -/
inductive ConfigTree (α : Type)
  | leaf (a : α)
  | node (isMap : Bool) (children : List (String × ConfigTree α))

namespace ConfigTree

variable {α ε : Type}

abbrev map (members : List (String × ConfigTree α)) : ConfigTree α := .node true members

abbrev list (items : List (ConfigTree α)) : ConfigTree α := .node false (items.map fun v => ("", v))

def isMap : ConfigTree α → Bool
  | .leaf _ => false
  | .node m _ => m

/-- The way to a place, innermost step first: a key, and the number of siblings that follow. -/
abbrev Path := List (String × Nat)

/-- A leaf the walk reaches, with the key of the member it stands in. -/
structure Leaf (α : Type) where
  path : Path
  key : String
  value : α

mutual
def leaves (path : Path) (key : String) : ConfigTree α → List (Leaf α)
  | .leaf a => [⟨path, key, a⟩]
  | .node m cs => leavesAll m path cs

def leavesAll (inMap : Bool) (path : Path) : List (String × ConfigTree α) → List (Leaf α)
  | [] => []
  | (k, v) :: cs => (if inMap || v.isMap then leaves ((k, cs.length) :: path) k v else []) ++ leavesAll inMap path cs
end

theorem map_eq_ok {x : Except ε α} {β : Type} {f : α → β} {b : β} : x.map f = .ok b ↔ ∃ a, x = .ok a ∧ f a = b := by
  cases x <;> simp [Except.map]

end ConfigTree

/-- A value that is neither a map nor a list; texts are bytes, a number is its literal. -/
inductive Scalar
  | null
  | bool (b : Bool)
  | num (literal : String)
  | str (s : List UInt8)
  deriving DecidableEq

abbrev ConfigValue := ConfigTree Scalar

/-- A `map[string]any`, under its keys in a fixed order. -/
abbrev ConfigMap := List (String × ConfigValue)

end OpenEtl
