import Mathlib.Data.List.Nodup

/-!
# JSON values

Values with numbers in an arbitrary type, and structs written as objects with one member for each field: a field is
found by its name, or by a name that differs from it only in case, and a field that may be omitted is not written when
empty. `decode_encode`: a struct whose values have the kinds of its fields is read back.
-/

namespace OpenEtl

open List

inductive JsonValue (ν : Type)
  | null
  | bool (b : Bool)
  | num (n : ν)
  | str (s : String)
  | arr (items : List (JsonValue ν))
  | obj (members : List (String × JsonValue ν))

namespace JsonValue

variable {ν μ : Type}

/-! ## Numbers and depth -/

mutual
/-- The numbers of a value, in the order they are written. -/
def nums : JsonValue ν → List ν
  | .null | .bool _ | .str _ => []
  | .num n => [n]
  | .arr items => numsItems items
  | .obj members => numsMembers members

def numsItems : List (JsonValue ν) → List ν
  | [] => []
  | v :: vs => nums v ++ numsItems vs

def numsMembers : List (String × JsonValue ν) → List ν
  | [] => []
  | (_, v) :: ms => nums v ++ numsMembers ms
end

mutual
def map (f : ν → μ) : JsonValue ν → JsonValue μ
  | .null => .null
  | .bool b => .bool b
  | .num n => .num (f n)
  | .str s => .str s
  | .arr items => .arr (mapItems f items)
  | .obj members => .obj (mapMembers f members)

def mapItems (f : ν → μ) : List (JsonValue ν) → List (JsonValue μ)
  | [] => []
  | v :: vs => map f v :: mapItems f vs

def mapMembers (f : ν → μ) : List (String × JsonValue ν) → List (String × JsonValue μ)
  | [] => []
  | (k, v) :: ms => (k, map f v) :: mapMembers f ms
end

mutual
/-- The number of arrays and objects around the innermost value. -/
def depth : JsonValue ν → Nat
  | .null | .bool _ | .num _ | .str _ => 0
  | .arr items => depthItems items + 1
  | .obj members => depthMembers members + 1

def depthItems : List (JsonValue ν) → Nat
  | [] => 0
  | v :: vs => max (depth v) (depthItems vs)

def depthMembers : List (String × JsonValue ν) → Nat
  | [] => 0
  | (_, v) :: ms => max (depth v) (depthMembers ms)
end

mutual
theorem map_eq_self_iff (f : ν → ν) : ∀ j : JsonValue ν, map f j = j ↔ ∀ n ∈ nums j, f n = n
  | .null | .bool _ | .str _ => by simp [map, nums]
  | .num n => by simp [map, nums]
  | .arr items => by simp [map, nums, mapItems_eq_self_iff f items]
  | .obj members => by simp [map, nums, mapMembers_eq_self_iff f members]

theorem mapItems_eq_self_iff (f : ν → ν) : ∀ vs : List (JsonValue ν), mapItems f vs = vs ↔ ∀ n ∈ numsItems vs, f n = n
  | [] => by simp [mapItems, numsItems]
  | v :: vs => by
    simp [mapItems, numsItems, map_eq_self_iff f v, mapItems_eq_self_iff f vs, or_imp, forall_and]

theorem mapMembers_eq_self_iff (f : ν → ν) : ∀ ms : List (String × JsonValue ν),
    mapMembers f ms = ms ↔ ∀ n ∈ numsMembers ms, f n = n
  | [] => by simp [mapMembers, numsMembers]
  | (k, v) :: ms => by
    simp [mapMembers, numsMembers, map_eq_self_iff f v, mapMembers_eq_self_iff f ms, or_imp, forall_and]
end

/-! ## The fields of a struct -/

/-- Two letters that fold to an ASCII one from outside ASCII: the long s and the Kelvin sign. -/
def foldChar (c : Char) : Char :=
  if c.toNat = 0x17F then 's' else if c.toNat = 0x212A then 'k' else c.toLower

def foldName (s : String) : String := String.ofList (s.toList.map foldChar)

def fieldOf (names : List String) (key : String) : Option String :=
  if key ∈ names then some key else names.find? fun n => foldName n == foldName key

/-- The value a field gets: that of the last member that belongs to it. -/
def field (names : List String) (name : String) (members : List (String × JsonValue ν)) : Option (JsonValue ν) :=
  ((members.filter fun m => fieldOf names m.1 == some name).getLast?).map (·.2)

/-- How the numbers of the values hold integers. -/
structure Numerals (ν : Type) where
  ofInt : Int → ν
  toInt : ν → Option Int
  toInt_ofInt : ∀ v, toInt (ofInt v) = some v

inductive IntType
  | int | int32 | int64 | uint32
deriving DecidableEq, Repr

def IntType.lo : IntType → Int
  | .int | .int64 => -9223372036854775808
  | .int32 => -2147483648
  | .uint32 => 0

def IntType.hi : IntType → Int
  | .int | .int64 => 9223372036854775807
  | .int32 => 2147483647
  | .uint32 => 4294967295

inductive Kind
  | text
  | int (t : IntType)
  | texts
  /-- a map to texts -/
  | textMap
  /-- a map to byte strings, which are written in base 64 and may be null -/
  | bytesMap
deriving DecidableEq, Repr

/-- The value of a field, with texts of some type. -/
inductive FieldValue (τ : Type)
  | text (s : τ)
  | int (v : Int)
  | texts (l : List τ)
  | map (members : List (τ × Option τ))
deriving DecidableEq, Repr

def FieldValue.mapTexts {τ σ : Type} (f : τ → σ) : FieldValue τ → FieldValue σ
  | .text s => .text (f s)
  | .int v => .int v
  | .texts l => .texts (l.map f)
  | .map ms => .map (ms.map fun m => (f m.1, m.2.map f))

structure FieldSpec where
  name : String
  kind : Kind := .text
  omitEmpty : Bool := true
deriving DecidableEq, Repr

def Kind.zero : Kind → FieldValue String
  | .text => .text ""
  | .int _ => .int 0
  | .texts => .texts []
  | .textMap | .bytesMap => .map []

def Kind.Fits {τ : Type} : Kind → FieldValue τ → Prop
  | .text, .text _ => True
  | .int t, .int v => t.lo ≤ v ∧ v ≤ t.hi
  | .texts, .texts _ => True
  | .textMap, .map ms => ∀ m ∈ ms, m.2.isSome
  | .bytesMap, .map _ => True
  | _, _ => False

def FieldValue.isEmpty : FieldValue String → Bool
  | .text s => s == ""
  | .int v => v == 0
  | .texts l => l.isEmpty
  | .map ms => ms.isEmpty

variable (N : Numerals ν)

def encodeValue : FieldValue String → JsonValue ν
  | .text s => .str s
  | .int v => .num (N.ofInt v)
  | .texts l => .arr (l.map .str)
  | .map ms => .obj (ms.map fun m => (m.1, m.2.elim .null .str))

def encode (specs : List FieldSpec) (values : List (FieldValue String)) : List (String × JsonValue ν) :=
  (specs.zip values).filterMap fun p =>
    if p.1.omitEmpty && p.2.isEmpty then none else some (p.1.name, encodeValue N p.2)

def decodeText : JsonValue ν → Option String
  | .str s => some s
  | .null => some ""
  | _ => none

def decodeBytes : JsonValue ν → Option (Option String)
  | .str s => some (some s)
  | .null => some none
  | _ => none

/-- A member that is missing or null leaves the field as it is. -/
def decodeValue (k : Kind) (j : Option (JsonValue ν)) : Option (FieldValue String) :=
  match k, j with
  | k, none | k, some .null => some k.zero
  | .text, some (.str s) => some (.text s)
  | .int t, some (.num n) =>
    (N.toInt n).bind fun v => if t.lo ≤ v ∧ v ≤ t.hi then some (.int v) else none
  | .texts, some (.arr items) => (items.mapM decodeText).map .texts
  | .textMap, some (.obj ms) => (ms.mapM fun m => (decodeText m.2).map fun s => (m.1, some s)).map .map
  | .bytesMap, some (.obj ms) => (ms.mapM fun m => (decodeBytes m.2).map fun s => (m.1, s)).map .map
  | _, _ => none

def decode (specs : List FieldSpec) (members : List (String × JsonValue ν)) : Option (List (FieldValue String)) :=
  specs.mapM fun s => decodeValue N s.kind (field (specs.map (·.name)) s.name members)

/-! ## The values read have the kinds of their fields -/

variable {α β : Type} {g : α → Option β}

theorem forall₂_of_mapM_eq_some : ∀ {l : List α} {l' : List β},
    l.mapM g = some l' → Forall₂ (fun a b => g a = some b) l l'
  | [], l', h => by
    cases h
    exact .nil
  | a :: l, l', h => by
    rw [mapM_cons] at h
    obtain ⟨b, hb, h⟩ := Option.bind_eq_some_iff.mp h
    obtain ⟨bs, hbs, h⟩ := Option.bind_eq_some_iff.mp h
    cases h
    exact .cons hb (forall₂_of_mapM_eq_some hbs)

theorem Kind.fits_zero (k : Kind) : k.Fits k.zero := by
  cases k with
  | int t => cases t <;> simp [Kind.Fits, Kind.zero, IntType.lo, IntType.hi]
  | _ => simp [Kind.Fits, Kind.zero]

theorem Kind.fits_mapTexts {τ σ : Type} (f : τ → σ) {k : Kind} {v : FieldValue τ} (h : k.Fits v) :
    k.Fits (v.mapTexts f) := by
  cases k <;> cases v <;> simp only [Kind.Fits] at h <;> try trivial
  case textMap.map ms =>
    refine forall_mem_map.mpr fun m hm => ?_
    simpa using h m hm

variable {k : Kind} {v : FieldValue String}

theorem decodeValue_fits {j : Option (JsonValue ν)} (h : decodeValue N k j = some v) : k.Fits v := by
  unfold decodeValue at h
  split at h
  · exact Option.some.inj h ▸ Kind.fits_zero _
  · exact Option.some.inj h ▸ Kind.fits_zero _
  · exact Option.some.inj h ▸ trivial
  · obtain ⟨n, _, hn⟩ := Option.bind_eq_some_iff.mp h
    split at hn
    · rename_i hrange
      exact Option.some.inj hn ▸ hrange
    · cases hn
  · obtain ⟨l, _, rfl⟩ := Option.map_eq_some_iff.mp h
    trivial
  · obtain ⟨ms, hms, rfl⟩ := Option.map_eq_some_iff.mp h
    intro m hm
    obtain ⟨i, hi, rfl⟩ := mem_iff_getElem.mp hm
    have hall := forall₂_iff_get.mp (forall₂_of_mapM_eq_some hms)
    obtain ⟨s, _, heq⟩ := Option.map_eq_some_iff.mp (hall.2 i (hall.1 ▸ hi) hi)
    exact congrArg (·.2.isSome) heq ▸ rfl
  · obtain ⟨ms, _, rfl⟩ := Option.map_eq_some_iff.mp h
    trivial
  · cases h

/-- Values for the fields of a struct. -/
abbrev Fields (specs : List FieldSpec) (τ : Type := String) : Type :=
  { values : List (FieldValue τ) // List.Forall₂ (fun s v => s.kind.Fits v) specs values }

variable {members : List (String × JsonValue ν)} {specs : List FieldSpec} {values : List (FieldValue String)}

theorem decode_fits (h : decode N specs members = some values) : Forall₂ (fun s v => s.kind.Fits v) specs values :=
  (forall₂_of_mapM_eq_some h).imp fun _ _ hsv => decodeValue_fits N hsv

theorem zeros_fit (specs : List FieldSpec) : Forall₂ (fun s v => s.kind.Fits v) specs (specs.map (·.kind.zero)) := by
  rw [forall₂_map_right_iff, forall₂_same]
  exact fun s _ => s.kind.fits_zero

def zeros (specs : List FieldSpec) : Fields specs := ⟨_, zeros_fit specs⟩

/-- A struct as the value of a member. -/
def decodeFields (specs : List FieldSpec) : Option (JsonValue ν) → Option (Fields specs)
  | none | some .null => some (zeros specs)
  | some (.obj members) => (decode N specs members).pmap Subtype.mk fun _ => decode_fits N
  | _ => none

/-! ## What is written is read back -/

variable {l : List α}

theorem mapM_eq_some_of_forall₂ {l' : List β}
    (h : Forall₂ (fun a b => g a = some b) l l') : l.mapM g = some l' := by
  induction h with
  | nil => rfl
  | cons hab _ ih => simp [hab, ih]

theorem mapM_map_eq_some {γ : Type} {g : β → Option γ} {f : α → β} {e : α → γ}
    (h : ∀ a ∈ l, g (f a) = some (e a)) : (l.map f).mapM g = some (l.map e) := by
  refine mapM_eq_some_of_forall₂ ?_
  rw [forall₂_map_left_iff, forall₂_map_right_iff, forall₂_same]
  exact h

theorem decodeValue_encodeValue (h : k.Fits v) : decodeValue N k (some (encodeValue N v)) = some v := by
  cases k <;> cases v <;> simp only [Kind.Fits] at h
  case text s => rfl
  case int t v => simp [decodeValue, encodeValue, N.toInt_ofInt, h]
  case texts l =>
    have hl := mapM_map_eq_some (g := @decodeText ν) (f := .str) (l := l) fun _ _ => rfl
    simp [decodeValue, encodeValue, hl]
  case textMap ms =>
    have hms := mapM_map_eq_some (g := fun m : String × JsonValue ν => (decodeText m.2).map fun s => (m.1, some s))
      (f := fun m => (m.1, m.2.elim .null .str)) (e := id) fun m hm => by
        obtain ⟨k, _ | s⟩ := m
        · cases h _ hm
        · rfl
    simp [decodeValue, encodeValue, hms]
  case bytesMap ms =>
    have hms := mapM_map_eq_some (g := fun m : String × JsonValue ν => (decodeBytes m.2).map fun s => (m.1, s))
      (f := fun m => (m.1, m.2.elim .null .str)) (e := id) (l := ms) fun m _ => by
        obtain ⟨k, _ | s⟩ := m <;> rfl
    simp [decodeValue, encodeValue, hms]

theorem zero_of_isEmpty (h : k.Fits v) (hv : v.isEmpty = true) : k.zero = v := by
  cases k <;> cases v <;> simp_all [Kind.Fits, Kind.zero, FieldValue.isEmpty]

variable {name : String}

theorem filter_key_singleton {v : α} : ∀ {ms : List (String × α)},
    (ms.map (·.1)).Nodup → (name, v) ∈ ms → (ms.filter fun m => m.1 == name) = [(name, v)]
  | m :: ms, hnodup, hmem => by
    obtain ⟨hm, hms⟩ := nodup_cons.mp hnodup
    rcases mem_cons.mp hmem with rfl | hmem
    · have hrest : (ms.filter fun m => m.1 == name) = [] := by
        rw [filter_eq_nil_iff]
        intro m' hm' heq
        exact hm (mem_map.mpr ⟨m', hm', by simpa using heq⟩)
      simp [hrest]
    · have hne : (m.1 == name) = false := by
        refine beq_false_of_ne fun heq => hm ?_
        exact mem_map.mpr ⟨(name, v), hmem, heq.symm⟩
      rw [filter_cons, hne]
      exact filter_key_singleton hms hmem

variable {names : List String}

theorem fieldOf_of_mem {key : String} (h : key ∈ names) : fieldOf names key = some key := by
  simp [fieldOf, h]

section

variable (h : ∀ m ∈ members, m.1 ∈ names)

include h

theorem field_eq_filter (name : String) :
    field names name members = ((members.filter fun m => m.1 == name).getLast?).map (·.2) := by
  have hfilter : (members.filter fun m => fieldOf names m.1 == some name) = members.filter fun m => m.1 == name := by
    refine filter_congr fun m hm => ?_
    rw [fieldOf_of_mem (h m hm)]
    rfl
  rw [field, hfilter]

/-- Members that are named by the fields, each at most once. -/
theorem field_eq_some {v : JsonValue ν} (hnodup : (members.map (·.1)).Nodup)
    (hmem : (name, v) ∈ members) : field names name members = some v := by
  rw [field_eq_filter h, filter_key_singleton hnodup hmem]
  rfl

theorem field_eq_none (hno : name ∉ members.map (·.1)) :
    field names name members = none := by
  have hfilter : (members.filter fun m => m.1 == name) = [] := by
    rw [filter_eq_nil_iff]
    intro m hm heq
    exact hno (mem_map.mpr ⟨m, hm, by simpa using heq⟩)
  rw [field_eq_filter h, hfilter]
  rfl

end

theorem mem_encode {m : String × JsonValue ν} :
    m ∈ encode N specs values ↔
      ∃ p ∈ specs.zip values, (p.1.omitEmpty && p.2.isEmpty) = false ∧ m = (p.1.name, encodeValue N p.2) := by
  simp only [encode, mem_filterMap]
  refine exists_congr fun p => and_congr_right fun _ => ?_
  cases p.1.omitEmpty && p.2.isEmpty <;> simp [eq_comm]

theorem encode_names_sublist : ∀ (specs : List FieldSpec) (values : List (FieldValue String)),
    ((encode N specs values).map (·.1)).Sublist (specs.map (·.name))
  | [], _ => by simp [encode]
  | _ :: _, [] => by simp [encode]
  | s :: specs, v :: values => by
    have ih := encode_names_sublist specs values
    unfold encode at ih ⊢
    rw [zip_cons_cons, filterMap_cons]
    split
    · exact ih.cons s.name
    · rename_i m hm
      split at hm
      · cases hm
      · cases hm
        exact ih.cons_cons s.name

section

variable (hnodup : (specs.map (·.name)).Nodup)

include hnodup

theorem eq_of_name_eq (hlen : specs.length = values.length)
    {p q : FieldSpec × FieldValue String} (hp : p ∈ specs.zip values) (hq : q ∈ specs.zip values) (h : p.1.name = q.1.name) :
    p = q := by
  have hnames : ((specs.zip values).map fun p => p.1.name) = specs.map (·.name) := by
    conv_rhs => rw [← map_fst_zip (Nat.le_of_eq hlen)]
    rw [map_map]
    rfl
  exact inj_on_of_nodup_map (hnames ▸ hnodup) hp hq h

theorem decode_encode (h : Forall₂ (fun s v => s.kind.Fits v) specs values) :
    decode N specs (encode N specs values) = some values := by
  have hsub := encode_names_sublist N specs values
  have hnames : ∀ m ∈ encode N specs values, m.1 ∈ specs.map (·.name) := fun m hm =>
    hsub.subset (mem_map_of_mem hm)
  refine mapM_eq_some_of_forall₂ ((forall₂_iff_zip.mpr ⟨h.length_eq, ?_⟩))
  intro s v hsv
  have hfits : s.kind.Fits v := (forall₂_iff_zip.mp h).2 hsv
  cases hskip : s.omitEmpty && v.isEmpty with
  | false =>
    rw [field_eq_some hnames (hnodup.sublist hsub) ((mem_encode N).mpr ⟨(s, v), hsv, hskip, rfl⟩)]
    exact decodeValue_encodeValue N hfits
  | true =>
    have hno : s.name ∉ (encode N specs values).map (·.1) := by
      intro hmem
      obtain ⟨m, hm, hname⟩ := mem_map.mp hmem
      obtain ⟨q, hq, hkept, rfl⟩ := (mem_encode N).mp hm
      obtain rfl := eq_of_name_eq hnodup h.length_eq hq hsv hname
      rw [hskip] at hkept
      cases hkept
    rw [field_eq_none hnames hno]
    rw [Bool.and_eq_true] at hskip
    simp only [decodeValue, zero_of_isEmpty hfits hskip.2]

theorem decodeFields_encode (values : Fields specs) :
    decodeFields N specs (some (.obj (encode N specs values.1))) = some values := by
  have hback := decode_encode N hnodup values.2
  simp only [decodeFields, Option.pmap_eq_some_iff]
  exact ⟨values.1, values.2, hback, rfl⟩

end

end JsonValue

end OpenEtl
