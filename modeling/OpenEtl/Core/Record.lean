import Mathlib.Data.List.Basic

/-!
# Records (`core/core.go`)

| here | there |
| --- | --- |
| `Value` | a Go `any` held by `Record.Data`: the dynamic types the connectors put there |
| `fmtV` | `fmt.Sprint(v)` / `fmt.Sprintf("%v", v)` |
| `Data` | `map[string]any`, an association list read by first match |
| `Metadata`, `Record` | `core.Metadata`, `core.Record` (the fields some modelled function reads) |

A `float64`, a `time.Time` and a nested JSON value are represented by the text Go prints for them
(the shortest decimal that reads back as the same float, `Time.String()`, the printed value), which
determines the value.
-/

namespace OpenEtl

open List

/-! ## `strings` -/

/-- `unicode.ToLower`, up to letters that no text of the code has: U+0130 and U+212A are the letters outside ASCII
whose lower case is in it. -/
def lower (c : Char) : Char :=
  if c.toNat = 0x130 then 'i' else if c.toNat = 0x212A then 'k' else c.toLower

/-- `strings.ToLower`. -/
def toLower (s : String) : String := String.ofList (s.toList.map lower)

/-- `unicode.IsSpace`. -/
def isWhiteSpace (c : Char) : Bool :=
  let n := c.toNat
  (9 ≤ n && n ≤ 13) || (0x2000 ≤ n && n ≤ 0x200A) ||
    n ∈ [0x20, 0x85, 0xA0, 0x1680, 0x2028, 0x2029, 0x202F, 0x205F, 0x3000]

/-- `strings.TrimSpace`. -/
def trimSpace (s : String) : String :=
  String.ofList ((s.toList.dropWhile isWhiteSpace).reverse.dropWhile isWhiteSpace).reverse

/-- `strings.Contains`. -/
def containsStr (s sub : String) : Bool := s.toList.tails.any (sub.toList.isPrefixOf ·)

/-- `strings.Join`. -/
def joinStr (sep : String) (parts : List String) : String := sep.intercalate parts

/-! ## Values -/

/-- The integer types a value can have at run time. -/
inductive IntKind
  | int | int8 | int16 | int32 | int64 | uint | uint8 | uint16 | uint32 | uint64
deriving DecidableEq, Repr

inductive Value
  | null
  | bool (b : Bool)
  | int (k : IntKind) (v : Int)
  | float (text : String)
  | str (s : String)
  | bytes (bs : List UInt8)
  | time (text : String)
  | json (text : String)
deriving DecidableEq, Repr, Inhabited

/-- An `int64`, what the drivers hand over for an integer column. -/
def Value.int64 (v : Int) : Value := .int .int64 v

/-- `fmt.Sprint` of one value. -/
def fmtV : Value → String
  | .null => "<nil>"
  | .bool b => if b then "true" else "false"
  | .int _ v => toString v
  | .float t => t
  | .str s => s
  | .bytes bs => "[" ++ joinStr " " (bs.map fun b => toString b.toNat) ++ "]"
  | .time t => t
  | .json t => t

/-- `map[string]any`. -/
abbrev Data := List (String × Value)

/-- `v, ok := d[c]`. -/
def Data.get? (d : Data) (c : String) : Option Value := d.lookup c

/-- `d[c] = v`. -/
def Data.set (d : Data) (c : String) (v : Value) : Data := (c, v) :: d.filter (fun p => p.1 != c)

/-- `delete(d, c)`. -/
def Data.erase (d : Data) (c : String) : Data := d.filter (fun p => p.1 != c)

/-- `for k, v := range e { d[k] = v }`. -/
def Data.merge (d e : Data) : Data := e.foldr (fun p acc => acc.set p.1 p.2) d

/-- The value under `c` is there and is not nil. -/
def Data.present (d : Data) (c : String) : Bool :=
  match d.get? c with
  | none | some .null => false
  | some _ => true

/-- The two hold the same. -/
def Data.Same (d e : Data) : Prop := ∀ c, d.get? c = e.get? c

/-! ## Records -/

/-- `core.OpType`; `unset` is the empty string. -/
inductive OpType
  | unset | insert | update | delete | ddl
deriving DecidableEq, Repr

/-- `core.SourceCursorKind`; `unset` is the empty string. -/
inductive CursorKind
  | unset | numeric | ordered
deriving DecidableEq, Repr

/-- `core.BeforeImageState`; `unset` is the empty string. -/
inductive BeforeImageState
  | unset | absent | null | emptyArray | presentEmpty | part | full | invalid
deriving DecidableEq, Repr, Inhabited

structure Metadata where
  source : String := ""
  database : String := ""
  table : String := ""
  key : String := ""
  binlogFile : String := ""
  binlogPos : UInt32 := 0
  snapshotHandoffFile : String := ""
  snapshotHandoffPos : UInt32 := 0
  gtid : String := ""
  lsn : String := ""
  partition : Int := 0
  offset : Int := 0
  sourceType : String := ""
  sourcePhase : String := ""
  cursor : String := ""
  cursorKind : CursorKind := .unset
  primaryKeyColumns : List String := []
  formatContractID : String := ""
  beforeImageState : BeforeImageState := .unset
  replayProvenance : String := ""
deriving DecidableEq, Repr, Inhabited

inductive ErrorClass
  | unknown | transient | data | schema | auth | config | programming
deriving DecidableEq, Repr

/-- `core.RecordRejection`: a source position that could not become a normal record. -/
structure RecordRejection where
  code : String := ""
  cls : Option ErrorClass := none
  message : String := ""
deriving DecidableEq, Repr

structure Record where
  operation : OpType := .insert
  data : Data := []
  before : Data := []
  metadata : Metadata := {}
  rejection : Option RecordRejection := none
deriving DecidableEq, Repr

instance : Inhabited Record := ⟨{}⟩

/-! ## Maps -/

theorem lookup_filter_ne {c c' : String} (h : c' ≠ c) :
    ∀ d : Data, (d.filter (fun p => p.1 != c)).lookup c' = d.lookup c'
  | [] => rfl
  | (k, v) :: d => by
    have ih := lookup_filter_ne h d
    by_cases hk : k = c
    · subst hk
      have hb : (c' == k) = false := by simpa using h
      simp [List.lookup_cons, hb, ih]
    · simp only [filter_cons, bne_iff_ne, ne_eq, hk, not_false_eq_true, if_true, List.lookup_cons, ih]

theorem Data.get?_set (d : Data) (c c' : String) (v : Value) :
    (d.set c v).get? c' = if c' = c then some v else d.get? c' := by
  unfold Data.set Data.get?
  by_cases h : c' = c
  · simp [h]
  · have hb : (c' == c) = false := by simpa using h
    simp only [List.lookup_cons, hb, if_neg h]
    exact lookup_filter_ne h d

theorem Data.get?_erase (d : Data) (c c' : String) : (d.erase c).get? c' = if c' = c then none else d.get? c' := by
  unfold Data.erase Data.get?
  by_cases h : c' = c
  · rw [if_pos h, lookup_eq_none_iff]
    intro p hp
    have hne : p.1 ≠ c := by simpa using (mem_filter.mp hp).2
    simpa [h] using fun heq => hne heq.symm
  · rw [if_neg h]
    exact lookup_filter_ne h d

theorem Data.get?_merge (d e : Data) (c : String) : (d.merge e).get? c = (e.get? c).or (d.get? c) := by
  induction e with
  | nil => rfl
  | cons p e ih =>
    obtain ⟨k, v⟩ := p
    rw [Data.merge, foldr_cons, Data.get?_set, ← Data.merge, ih]
    by_cases h : c = k
    · simp [h, Data.get?]
    · have hb : (c == k) = false := by simpa using h
      rw [if_neg h]
      simp [Data.get?, List.lookup_cons, hb]

end OpenEtl
