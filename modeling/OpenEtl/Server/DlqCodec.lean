import OpenEtl.Lib.Binary64
import OpenEtl.Lib.Bytes
import OpenEtl.Lib.JsonValue
import OpenEtl.Server.DlqListing
import Mathlib.Data.List.Sort
import Mathlib.Data.List.Pairwise

/-!
# The record of a dead letter (`storage/sqlstore/store.go:1121-1201`, `core/core.go:22-111`)

| here | there |
| --- | --- |
| `GoValue`, `marshal`, `unmarshal` | a value of `map[string]any`, `json.Marshal` and `json.Unmarshal` of it |
| `metadataFields`, `rejectionFields` | the JSON tags of `core.Metadata` and `core.RecordRejection` |
| `marshalRecord`, `unmarshalRecord` | `json.Marshal(rec.Record)`, `json.Unmarshal(…, &rec.Record)` |

A document is compared as a JSON value: its numbers are the numbers that are written, its objects have their members in
the order `json.Marshal` writes them. A text or name of Go is a sequence of bytes; what is no UTF-8 is written as the
replacement character, so two names may be written as one, of which the last value is read. A number read into an `any`
becomes a `float64`; the reader of backups (backup_reader.go:169) keeps the text, the reader of dead letters does not.
How a float is read and written belongs to Go (`Floats`): what is written for a float is read back as it. A value
nested more than 10000 deep is written, and is an error to read.
-/

namespace OpenEtl.Server.Dlq

open OpenEtl (JsonValue)
open JsonValue (FieldSpec FieldValue Fields Numerals decodeFields decodeText encode field zeros)
open List
open JsonValue (depth depthMembers field_eq_some mapItems mapMembers map_eq_self_iff nums numsItems numsMembers obj)
open Bytes (IsText text utf8 utf8_text)

/-- `strconv.ParseFloat` of a number, an error out of range, and the decimal `json.Marshal` writes for a float. -/
structure Floats (F : Type) where
  parse : ℚ → Option F
  print : F → ℚ
  parse_print : ∀ f, parse (print f) = some f

/-- A `string` of Go. -/
abbrev GoText : Type := List UInt8

/-- The map after the members were assigned in turn: a later member takes the place of an earlier one of its name. -/
def assigned {α : Type} (ms : List (GoText × α)) : List (GoText × α) := ms.pwFilter fun m m' => m.1 ≠ m'.1

inductive GoValue (F : Type)
  | null
  | bool (b : Bool)
  | int (v : Int)
  | float (f : F)
  /-- a `json.Number` -/
  | number (q : ℚ)
  | str (s : GoText)
  /-- a `[]byte`, by its base 64 form -/
  | bytes (base64 : String)
  /-- a `time.Time`, by its RFC 3339 form -/
  | time (text : String)
  /-- what `json.Marshal` refuses: NaN and the infinities, functions, invalid numbers -/
  | unsupported
  | arr (items : List (GoValue F))
  | obj (members : List (GoText × GoValue F))

variable {F : Type} (fl : Floats F)

mutual
def marshal : GoValue F → Option (JsonValue ℚ)
  | .null => some .null
  | .bool b => some (.bool b)
  | .int v => some (.num v)
  | .float f => some (.num (fl.print f))
  | .number q => some (.num q)
  | .str s => some (.str (text s))
  | .bytes s | .time s => some (.str s)
  | .unsupported => none
  | .arr items => (marshalItems items).map .arr
  | .obj members => (marshalMembers members).map .obj

def marshalItems : List (GoValue F) → Option (List (JsonValue ℚ))
  | [] => some []
  | v :: vs => do return (← marshal v) :: (← marshalItems vs)

def marshalMembers : List (GoText × GoValue F) → Option (List (String × JsonValue ℚ))
  | [] => some []
  | (k, v) :: ms => do return (text k, ← marshal v) :: (← marshalMembers ms)
end

mutual
def unmarshal : JsonValue ℚ → Option (GoValue F)
  | .null => some .null
  | .bool b => some (.bool b)
  | .num q => (fl.parse q).map .float
  | .str s => some (.str (utf8 s))
  | .arr items => (unmarshalItems items).map .arr
  | .obj members => (unmarshalMembers members).map fun ms => .obj (assigned ms)

def unmarshalItems : List (JsonValue ℚ) → Option (List (GoValue F))
  | [] => some []
  | v :: vs => do return (← unmarshal v) :: (← unmarshalItems vs)

def unmarshalMembers : List (String × JsonValue ℚ) → Option (List (GoText × GoValue F))
  | [] => some []
  | (k, v) :: ms => do return (utf8 k, ← unmarshal v) :: (← unmarshalMembers ms)
end

/-! ## Records -/

def numerals : Numerals ℚ where
  ofInt v := v
  toInt q := if q.den = 1 then some q.num else none
  toInt_ofInt v := by simp

/-- `core.Metadata` but for `RawPayload`, which is not written (`json:"-"`). -/
def metadataFields : List FieldSpec :=
  [ { name := "source", omitEmpty := false }, { name := "database" }, { name := "table", omitEmpty := false },
    { name := "key" }, { name := "timestamp", omitEmpty := false }, { name := "binlog_file" },
    { name := "binlog_pos", kind := .int .uint32 }, { name := "snapshot_handoff_file" },
    { name := "snapshot_handoff_pos", kind := .int .uint32 }, { name := "gtid" }, { name := "lsn" },
    { name := "partition", kind := .int .int32 }, { name := "offset", kind := .int .int64 }, { name := "ddl" },
    { name := "source_type" }, { name := "source_phase" }, { name := "cursor" }, { name := "cursor_kind" },
    { name := "headers", kind := .bytesMap }, { name := "primary_key_columns", kind := .texts },
    { name := "format_contract_id" }, { name := "before_image_state" }, { name := "replay_provenance" },
    { name := "route" }, { name := "column_types", kind := .textMap } ]

def rejectionFields : List FieldSpec :=
  [ { name := "code", omitEmpty := false }, { name := "message", omitEmpty := false },
    { name := "error_class", omitEmpty := false }, { name := "remediation" } ]

/-! ## The fields of a struct -/

/-- A field as it is read: a map gets its members one after the other. -/
def readValue (v : FieldValue String) : FieldValue GoText :=
  match v.mapTexts utf8 with
  | .map ms => .map (assigned ms)
  | v => v

theorem fits_readValue {k : JsonValue.Kind} {v : FieldValue String} (h : k.Fits v) : k.Fits (readValue v) := by
  have hfits := JsonValue.Kind.fits_mapTexts utf8 h
  unfold readValue
  split
  · rename_i ms hms
    rw [hms] at hfits
    cases k <;> simp only [JsonValue.Kind.Fits] at hfits ⊢
    exact fun m hm => hfits m (pwFilter_subset _ hm)
  · exact hfits

variable {specs : List FieldSpec}

def writeFields (values : Fields specs GoText) : Fields specs :=
  ⟨values.1.map (·.mapTexts text),
    forall₂_map_right_iff.mpr (values.2.imp fun _ _ => JsonValue.Kind.fits_mapTexts text)⟩

def readFields (values : Fields specs) : Fields specs GoText :=
  ⟨values.1.map readValue, forall₂_map_right_iff.mpr (values.2.imp fun _ _ => fits_readValue)⟩

/-! ## Records -/

/-- `core.Record` with nested values; a nil map is `none`. -/
structure StoredRecord (F : Type) where
  operation : GoText
  data : Option (List (GoText × GoValue F))
  before : Option (List (GoText × GoValue F))
  metadata : Fields metadataFields GoText
  rejection : Option (Fields rejectionFields GoText)

def mapValue : Option (List (GoText × GoValue F)) → GoValue F
  | none => .null
  | some members => .obj members

def unmarshalMap : Option (JsonValue ℚ) → Option (Option (List (GoText × GoValue F)))
  | none | some .null => some none
  | some (.obj members) => (unmarshalMembers fl members).map fun ms => some (assigned ms)
  | _ => none

def recordNames : List String := ["operation", "data", "before", "metadata", "rejection"]

def recordMembers (r : StoredRecord F) (data before : JsonValue ℚ) : List (String × JsonValue ℚ) :=
  [("operation", .str (text r.operation)), ("data", data), ("before", before),
    ("metadata", .obj (encode numerals metadataFields (writeFields r.metadata).1))] ++
  r.rejection.elim [] fun fields => [("rejection", .obj (encode numerals rejectionFields (writeFields fields).1))]

def marshalRecord (r : StoredRecord F) : Option (JsonValue ℚ) := do
  let data ← marshal fl (mapValue r.data)
  let before ← marshal fl (mapValue r.before)
  return .obj (recordMembers r data before)

def unmarshalRejection : Option (JsonValue ℚ) → Option (Option (Fields rejectionFields GoText))
  | none | some .null => some none
  | some j => (decodeFields numerals rejectionFields (some j)).map fun fields => some (readFields fields)

def unmarshalMembersOfRecord (ms : List (String × JsonValue ℚ)) : Option (StoredRecord F) := do
  let operation ← ((field recordNames "operation" ms).map decodeText).getD (some "")
  let data ← unmarshalMap fl (field recordNames "data" ms)
  let before ← unmarshalMap fl (field recordNames "before" ms)
  let metadata ← decodeFields numerals metadataFields (field recordNames "metadata" ms)
  let rejection ← unmarshalRejection (field recordNames "rejection" ms)
  return { operation := utf8 operation, data, before, metadata := readFields metadata, rejection }

/-- The limit of the decoder's scanner on open arrays and objects. -/
def maxNestingDepth : Nat := 10000

def unmarshalRecord (j : JsonValue ℚ) : Option (StoredRecord F) :=
  if maxNestingDepth < j.depth then none
  else match j with
    | .null => unmarshalMembersOfRecord fl []
    | .obj ms => unmarshalMembersOfRecord fl ms
    | _ => none

/-! ## Maps, numbers and texts -/

mutual
/-- Each map has a name once. -/
def GoValue.Distinct : GoValue F → Prop
  | .arr items => DistinctItems items
  | .obj members => (members.map (·.1)).Nodup ∧ DistinctMembers members
  | _ => True

def DistinctItems : List (GoValue F) → Prop
  | [] => True
  | v :: vs => v.Distinct ∧ DistinctItems vs

def DistinctMembers : List (GoText × GoValue F) → Prop
  | [] => True
  | (_, v) :: ms => v.Distinct ∧ DistinctMembers ms
end

/-- The numbers that are written for a value. -/
def GoValue.numbers (v : GoValue F) : List ℚ := ((marshal fl v).map nums).getD []

mutual
/-- The texts and names of a value. -/
def GoValue.texts : GoValue F → List GoText
  | .str s => [s]
  | .bytes s | .time s => [utf8 s]
  | .arr items => textsItems items
  | .obj members => textsMembers members
  | _ => []

def textsItems : List (GoValue F) → List GoText
  | [] => []
  | v :: vs => v.texts ++ textsItems vs

def textsMembers : List (GoText × GoValue F) → List GoText
  | [] => []
  | (k, v) :: ms => k :: v.texts ++ textsMembers ms
end

def fieldTexts : FieldValue GoText → List GoText
  | .text s => [s]
  | .int _ => []
  | .texts l => l
  | .map ms => ms.flatMap fun m => m.1 :: m.2.toList

def DistinctField : FieldValue GoText → Prop
  | .map ms => (ms.map (·.1)).Nodup
  | _ => True

variable (r : StoredRecord F)

def StoredRecord.fields : List (FieldValue GoText) := r.metadata.1 ++ r.rejection.elim [] (·.1)

def StoredRecord.Distinct : Prop :=
  (mapValue r.data).Distinct ∧ (mapValue r.before).Distinct ∧ ∀ v ∈ r.fields, DistinctField v

def StoredRecord.numbers : List ℚ := (mapValue r.data).numbers fl ++ (mapValue r.before).numbers fl

def StoredRecord.texts : List GoText :=
  r.operation :: (mapValue r.data).texts ++ (mapValue r.before).texts ++ r.fields.flatMap fieldTexts

/-- The records are equal as JSON values: they have one document, and the same bytes in their texts and names. -/
def SameJSON (r' : StoredRecord F) : Prop := marshalRecord fl r = marshalRecord fl r' ∧ r.texts = r'.texts

/-! ## Writing -/

/-- A `storage.DLQRecord` that is handed to `WriteDeadLetter`, at a time. -/
structure Entry (F : Type) where
  jobName : String
  record : StoredRecord F
  distinct : record.Distinct
  error : String := ""
  errorClass : String := ""
  context : IdentityContext := {}
  dagNode : String := ""
  now : Nat

/-- The row that is inserted under the id the database gives; a record `json.Marshal` refuses is not written. The
identity context has typed fields only and is always written in a form that is read back. -/
def writeDeadLetter (id : Int) (e : Entry F) : Option (Row (JsonValue ℚ)) :=
  (marshalRecord fl e.record).map fun j =>
    { id, jobName := e.jobName, recordJSON := j, error := e.error, errorClass := e.errorClass
      identity := some e.context, dagNode := e.dagNode, createdAt := e.now }

structure Written (rows : List (Row (JsonValue ℚ))) : Prop where
  ids : (rows.map (·.id)).Nodup
  written : ∀ row ∈ rows, ∃ id, ∃ e : Entry F, writeDeadLetter fl id e = some row

/-- The database with the decoder of records; `view` is the record as the server goes on with it. -/
def reading (view : StoredRecord F → Record) (D : Database (JsonValue ℚ)) : Database (JsonValue ℚ) :=
  { D with decode := fun j => (unmarshalRecord fl j).map view }

/-! ## Values read back -/

theorem nums_marshal {v : GoValue F} {j : JsonValue ℚ} (h : marshal fl v = some j) : j.nums = v.numbers fl := by
  rw [GoValue.numbers, h]
  rfl

/-- What is written for a number that was read. -/
def reprint (q : ℚ) : ℚ := ((fl.parse q).map fl.print).getD q

theorem assigned_of_nodup {α : Type} {ms : List (GoText × α)} (h : (ms.map (·.1)).Nodup) : assigned ms = ms :=
  pwFilter_eq_self.mpr (pairwise_map.mp h)

theorem bind_cons_eq_some {α β : Type} {f : α → β} {o : Option α} {os : Option (List β)} {l : List β}
    (h : (do return f (← o) :: (← os)) = some l) : ∃ a t, o = some a ∧ os = some t ∧ l = f a :: t := by
  cases o <;> cases os <;> simp_all

mutual
/-- A value without bytes that are no text is written again with the numbers the floats have, and its texts. -/
theorem unmarshal_marshal : ∀ {v v' : GoValue F} {j : JsonValue ℚ}, marshal fl v = some j → v.Distinct →
    (∀ t ∈ v.texts, IsText t) → unmarshal fl j = some v' →
    marshal fl v' = some (j.map (reprint fl)) ∧ v'.texts = v.texts
  | .null, v', j, h, _, _, h' | .bool _, v', j, h, _, _, h' | .bytes _, v', j, h, _, _, h'
  | .time _, v', j, h, _, _, h' => by
    cases h
    cases h'
    simp [marshal, JsonValue.map, GoValue.texts]
  | .int _, v', j, h, _, _, h' | .float _, v', j, h, _, _, h' | .number _, v', j, h, _, _, h' => by
    cases h
    obtain ⟨f, hf, rfl⟩ := Option.map_eq_some_iff.mp h'
    simp [marshal, JsonValue.map, reprint, hf, GoValue.texts]
  | .str s, v', j, h, _, ht, h' => by
    cases h
    cases h'
    simp [marshal, JsonValue.map, GoValue.texts, utf8_text (ht s (by simp [GoValue.texts]))]
  | .unsupported, _, _, h, _, _, _ => absurd h nofun
  | .arr items, v', j, h, hd, ht, h' => by
    obtain ⟨js, hjs, rfl⟩ := Option.map_eq_some_iff.mp h
    obtain ⟨vs, hvs, rfl⟩ := Option.map_eq_some_iff.mp h'
    obtain ⟨hmarshal, htexts⟩ := unmarshal_marshalItems hjs hd ht hvs
    simp [marshal, JsonValue.map, hmarshal, GoValue.texts, htexts]
  | .obj members, v', j, h, hd, ht, h' => by
    obtain ⟨js, hjs, rfl⟩ := Option.map_eq_some_iff.mp h
    obtain ⟨ms, hms, rfl⟩ := Option.map_eq_some_iff.mp h'
    obtain ⟨hmarshal, htexts, hnames⟩ := unmarshal_marshalMembers hjs hd.2 ht hms
    rw [assigned_of_nodup (hnames ▸ hd.1)]
    simp [marshal, JsonValue.map, hmarshal, GoValue.texts, htexts]

theorem unmarshal_marshalItems : ∀ {vs vs' : List (GoValue F)} {js : List (JsonValue ℚ)},
    marshalItems fl vs = some js → DistinctItems vs → (∀ t ∈ textsItems vs, IsText t) →
    unmarshalItems fl js = some vs' →
    marshalItems fl vs' = some (mapItems (reprint fl) js) ∧ textsItems vs' = textsItems vs
  | [], _, _, h, _, _, h' => by
    cases h
    cases h'
    simp [marshalItems, mapItems]
  | v :: vs, _, _, h, hd, ht, h' => by
    obtain ⟨j, js, hj, hjs, rfl⟩ := bind_cons_eq_some h
    obtain ⟨w, ws, hw, hws, rfl⟩ := bind_cons_eq_some h'
    obtain ⟨hmarshal, htexts⟩ := unmarshal_marshal hj hd.1 (fun t h => ht t (mem_append_left _ h)) hw
    obtain ⟨hmarshal', htexts'⟩ := unmarshal_marshalItems hjs hd.2 (fun t h => ht t (mem_append_right _ h)) hws
    simp [marshalItems, mapItems, hmarshal, hmarshal', textsItems, htexts, htexts']

theorem unmarshal_marshalMembers : ∀ {vs vs' : List (GoText × GoValue F)} {js : List (String × JsonValue ℚ)},
    marshalMembers fl vs = some js → DistinctMembers vs → (∀ t ∈ textsMembers vs, IsText t) →
    unmarshalMembers fl js = some vs' →
    marshalMembers fl vs' = some (mapMembers (reprint fl) js) ∧ textsMembers vs' = textsMembers vs ∧
      vs'.map (·.1) = vs.map (·.1)
  | [], _, _, h, _, _, h' => by
    cases h
    cases h'
    simp [marshalMembers, mapMembers]
  | (k, v) :: vs, _, _, h, hd, ht, h' => by
    obtain ⟨j, js, hj, hjs, rfl⟩ := bind_cons_eq_some h
    obtain ⟨w, ws, hw, hws, rfl⟩ := bind_cons_eq_some h'
    simp only [textsMembers, cons_append, forall_mem_cons] at ht
    obtain ⟨hk, ht⟩ := ht
    obtain ⟨hmarshal, htexts⟩ := unmarshal_marshal hj hd.1 (fun t h => ht t (mem_append_left _ h)) hw
    obtain ⟨hmarshal', htexts', hnames⟩ :=
      unmarshal_marshalMembers hjs hd.2 (fun t h => ht t (mem_append_right _ h)) hws
    simp [marshalMembers, mapMembers, hmarshal, hmarshal', textsMembers, htexts, htexts', hnames, utf8_text hk]
end

theorem mem_textsMembers {t : GoText} : ∀ {ms : List (GoText × GoValue F)},
    t ∈ textsMembers ms ↔ ∃ m ∈ ms, t = m.1 ∨ t ∈ m.2.texts
  | [] => by simp [textsMembers]
  | (k, v) :: ms => by simp [textsMembers, mem_textsMembers, or_assoc]

mutual
/-- What is read consists of texts. -/
theorem unmarshal_texts : ∀ {j : JsonValue ℚ} {v : GoValue F}, unmarshal fl j = some v → ∀ t ∈ v.texts, IsText t
  | .null, _, h | .bool _, _, h => by
    cases h
    simp [GoValue.texts]
  | .num q, _, h => by
    obtain ⟨f, -, rfl⟩ := Option.map_eq_some_iff.mp h
    simp [GoValue.texts]
  | .str s, _, h => by
    cases h
    simp [GoValue.texts, IsText]
  | .arr items, _, h => by
    obtain ⟨vs, hvs, rfl⟩ := Option.map_eq_some_iff.mp h
    exact unmarshal_textsItems hvs
  | .obj members, _, h => by
    obtain ⟨ms, hms, rfl⟩ := Option.map_eq_some_iff.mp h
    intro t ht
    obtain ⟨m, hm, ht⟩ := mem_textsMembers.mp ht
    exact unmarshal_textsMembers hms t (mem_textsMembers.mpr ⟨m, pwFilter_subset _ hm, ht⟩)

theorem unmarshal_textsItems : ∀ {js : List (JsonValue ℚ)} {vs : List (GoValue F)}, unmarshalItems fl js = some vs →
    ∀ t ∈ textsItems vs, IsText t
  | [], _, h => by
    cases h
    simp [textsItems]
  | j :: js, _, h => by
    obtain ⟨v, vs, hv, hvs, rfl⟩ := bind_cons_eq_some h
    exact fun t ht => (mem_append.mp ht).elim (unmarshal_texts hv t) (unmarshal_textsItems hvs t)

theorem unmarshal_textsMembers : ∀ {js : List (String × JsonValue ℚ)} {vs : List (GoText × GoValue F)},
    unmarshalMembers fl js = some vs → ∀ t ∈ textsMembers vs, IsText t
  | [], _, h => by
    cases h
    simp [textsMembers]
  | (k, j) :: js, _, h => by
    obtain ⟨v, vs, hv, hvs, rfl⟩ := bind_cons_eq_some h
    refine forall_mem_cons.mpr ⟨⟨k, rfl⟩, fun t ht => ?_⟩
    exact (mem_append.mp ht).elim (unmarshal_texts hv t) (unmarshal_textsMembers hvs t)
end

mutual
/-- A value is read unless one of its numbers is out of range. -/
theorem unmarshal_isSome_iff : ∀ j : JsonValue ℚ, (unmarshal fl j).isSome ↔ ∀ q ∈ j.nums, (fl.parse q).isSome
  | .null | .bool _ | .str _ => by simp [unmarshal, nums]
  | .num q => by simp [unmarshal, nums]
  | .arr items => by simp [unmarshal, nums, unmarshalItems_isSome_iff items]
  | .obj members => by simp [unmarshal, nums, unmarshalMembers_isSome_iff members]

theorem unmarshalItems_isSome_iff : ∀ js : List (JsonValue ℚ),
    (unmarshalItems fl js).isSome ↔ ∀ q ∈ numsItems js, (fl.parse q).isSome
  | [] => by simp [unmarshalItems, numsItems]
  | j :: js => by
    have hj := unmarshal_isSome_iff j
    have hjs := unmarshalItems_isSome_iff js
    simp only [numsItems, mem_append, or_imp, forall_and, ← hj, ← hjs]
    cases hv : unmarshal fl j <;> cases hvs : unmarshalItems fl js <;> simp [unmarshalItems, hv, hvs]

theorem unmarshalMembers_isSome_iff : ∀ js : List (String × JsonValue ℚ),
    (unmarshalMembers fl js).isSome ↔ ∀ q ∈ numsMembers js, (fl.parse q).isSome
  | [] => by simp [unmarshalMembers, numsMembers]
  | (k, j) :: js => by
    have hj := unmarshal_isSome_iff j
    have hjs := unmarshalMembers_isSome_iff js
    simp only [numsMembers, mem_append, or_imp, forall_and, ← hj, ← hjs]
    cases hv : unmarshal fl j <;> cases hvs : unmarshalMembers fl js <;> simp [unmarshalMembers, hv, hvs]
end

variable {q : ℚ}

/-- A number is written again as it was iff it is what is written for some float. -/
theorem reprint_eq_self_iff (h : (fl.parse q).isSome) : reprint fl q = q ↔ ∃ f, fl.print f = q := by
  obtain ⟨f, hf⟩ := Option.isSome_iff_exists.mp h
  constructor
  · intro heq
    exact ⟨f, by simpa [reprint, hf] using heq⟩
  · rintro ⟨f', rfl⟩
    simp [reprint, fl.parse_print]

theorem parse_isSome_of_printed (h : ∃ f, fl.print f = q) : (fl.parse q).isSome := by
  obtain ⟨f, rfl⟩ := h
  simp [fl.parse_print]

/-! ## Records read back -/

theorem readValue_texts (v : FieldValue String) : ∀ t ∈ fieldTexts (readValue v), IsText t := by
  cases v with
  | text s => simp [readValue, FieldValue.mapTexts, fieldTexts, IsText]
  | int v => simp [readValue, FieldValue.mapTexts, fieldTexts]
  | texts l =>
    intro t ht
    obtain ⟨s, -, rfl⟩ := mem_map.mp ht
    exact ⟨s, rfl⟩
  | map ms =>
    intro t ht
    obtain ⟨m, hm, ht⟩ := mem_flatMap.mp ht
    obtain ⟨m', -, rfl⟩ := mem_map.mp (pwFilter_subset _ hm)
    rcases mem_cons.mp ht with rfl | ht
    · exact ⟨m'.1, rfl⟩
    · obtain ⟨s, -, rfl⟩ := Option.map_eq_some_iff.mp (Option.mem_toList.mp ht)
      exact ⟨s, rfl⟩

theorem map_utf8_text {l : List GoText} (h : ∀ t ∈ l, IsText t) : (l.map text).map utf8 = l := by
  rw [map_map]
  exact (map_congr_left fun t ht => utf8_text (h t ht)).trans (map_id l)

theorem readValue_mapTexts {v : FieldValue GoText} (hd : DistinctField v) (ht : ∀ t ∈ fieldTexts v, IsText t) :
    readValue (v.mapTexts text) = v := by
  cases v with
  | text s => simp [readValue, FieldValue.mapTexts, utf8_text (ht s (by simp [fieldTexts]))]
  | int v => rfl
  | texts l => exact congrArg FieldValue.texts (map_utf8_text ht)
  | map ms =>
    have hms : ((ms.map fun m => (text m.1, m.2.map text)).map fun m => (utf8 m.1, m.2.map utf8)) = ms := by
      rw [map_map]
      refine (map_congr_left fun m hm => ?_).trans (map_id ms)
      have hm' : ∀ t ∈ m.1 :: m.2.toList, IsText t := fun t h => ht t (mem_flatMap.mpr ⟨m, hm, h⟩)
      obtain ⟨k, _ | s⟩ := m <;> simp_all [utf8_text]
    simp only [readValue, FieldValue.mapTexts, hms, assigned_of_nodup hd]

variable {specs : List FieldSpec}

theorem readFields_writeFields {values : Fields specs GoText} (hd : ∀ v ∈ values.1, DistinctField v)
    (ht : ∀ v ∈ values.1, ∀ t ∈ fieldTexts v, IsText t) : readFields (writeFields values) = values := by
  refine Subtype.ext ?_
  simp only [readFields, writeFields, map_map]
  exact (map_congr_left fun v hv => readValue_mapTexts (hd v hv) (ht v hv)).trans (map_id _)

theorem readFields_texts (values : Fields specs) : ∀ v ∈ (readFields values).1, ∀ t ∈ fieldTexts v, IsText t := by
  intro v hv
  obtain ⟨w, -, rfl⟩ := mem_map.mp hv
  exact readValue_texts w

variable {j : JsonValue ℚ} {m : Option (List (GoText × GoValue F))}

theorem unmarshal_mapValue (h : marshal fl (mapValue m) = some j) :
    unmarshal fl j = (unmarshalMap fl (some j)).map mapValue := by
  cases m with
  | none =>
    cases h
    rfl
  | some members =>
    obtain ⟨js, -, rfl⟩ := Option.map_eq_some_iff.mp h
    simp only [unmarshal, unmarshalMap, Option.map_map]
    rfl

theorem unmarshalMap_isSome_iff (h : marshal fl (mapValue m) = some j) :
    (unmarshalMap fl (some j)).isSome ↔ ∀ q ∈ (mapValue m).numbers fl, (fl.parse q).isSome := by
  rw [← nums_marshal fl h, ← unmarshal_isSome_iff fl j, unmarshal_mapValue fl h, Option.isSome_map]

variable (r : StoredRecord F) (data before : JsonValue ℚ) (data' before' : Option (List (GoText × GoValue F)))

/-- The record as it is read, with other maps. -/
def StoredRecord.reread : StoredRecord F where
  operation := utf8 (text r.operation)
  data := data'
  before := before'
  metadata := readFields (writeFields r.metadata)
  rejection := r.rejection.map fun fields => readFields (writeFields fields)

variable {data' before'} in
theorem StoredRecord.reread_texts (hdata : ∀ t ∈ (mapValue data').texts, IsText t)
    (hbefore : ∀ t ∈ (mapValue before').texts, IsText t) : ∀ t ∈ (r.reread data' before').texts, IsText t := by
  have hfields : ∀ v ∈ (r.reread data' before').fields, ∀ t ∈ fieldTexts v, IsText t := by
    intro v hv
    rcases mem_append.mp hv with hv | hv
    · exact readFields_texts _ v hv
    · cases hr : r.rejection with
      | none => simp [reread, hr] at hv
      | some fields => exact readFields_texts (writeFields fields) v (by simpa [reread, hr] using hv)
  intro t ht
  simp only [texts, cons_append, mem_cons, mem_append, mem_flatMap] at ht
  rcases ht with rfl | (ht | ht) | ⟨v, hv, ht⟩
  · exact ⟨_, rfl⟩
  · exact hdata t ht
  · exact hbefore t ht
  · exact hfields v hv t ht

variable {r} in
theorem StoredRecord.reread_of_isText (hd : r.Distinct) (ht : ∀ t ∈ r.texts, IsText t) :
    r.reread data' before' = { r with data := data', before := before' } := by
  have hfields : ∀ v ∈ r.fields, ∀ t ∈ fieldTexts v, IsText t := fun v hv t h =>
    ht t (mem_append_right _ (mem_flatMap.mpr ⟨v, hv, h⟩))
  have hmetadata : readFields (writeFields r.metadata) = r.metadata :=
    readFields_writeFields (fun v hv => hd.2.2 v (mem_append_left _ hv)) fun v hv => hfields v (mem_append_left _ hv)
  have hrejection : (r.rejection.map fun fields => readFields (writeFields fields)) = r.rejection := by
    cases hr : r.rejection with
    | none => rfl
    | some fields =>
      have hmem : ∀ v ∈ fields.1, v ∈ r.fields := fun v hv => mem_append_right _ (by simpa [hr] using hv)
      exact congrArg some (readFields_writeFields (fun v hv => hd.2.2 v (hmem v hv)) fun v hv => hfields v (hmem v hv))
  rw [reread, utf8_text (ht r.operation (by simp [texts])), hmetadata, hrejection]

theorem recordMembers_named :
    (∀ m ∈ recordMembers r data before, m.1 ∈ recordNames) ∧ ((recordMembers r data before).map (·.1)).Nodup := by
  cases hr : r.rejection <;> simp [recordMembers, recordNames, hr]

theorem unmarshalRejection_recordMembers :
    unmarshalRejection (field recordNames "rejection" (recordMembers r data before)) =
      some (r.rejection.map fun fields => readFields (writeFields fields)) := by
  obtain ⟨hnames, hnodup⟩ := recordMembers_named r data before
  cases hr : r.rejection with
  | none =>
    rw [JsonValue.field_eq_none hnames (by simp [recordMembers, hr])]
    rfl
  | some fields =>
    rw [field_eq_some hnames hnodup (v := .obj (encode numerals rejectionFields (writeFields fields).1))
      (by simp [recordMembers, hr])]
    simp [unmarshalRejection, JsonValue.decodeFields_encode numerals (by decide : (rejectionFields.map (·.name)).Nodup)]

theorem unmarshal_recordMembers :
    unmarshalMembersOfRecord fl (recordMembers r data before) =
      (unmarshalMap fl (some data)).bind fun data' => (unmarshalMap fl (some before)).map (r.reread data') := by
  obtain ⟨hnames, hnodup⟩ := recordMembers_named r data before
  have hfield : ∀ name v, (name, v) ∈ recordMembers r data before →
      field recordNames name (recordMembers r data before) = some v :=
    fun _ _ hmem => field_eq_some hnames hnodup hmem
  unfold unmarshalMembersOfRecord
  rw [hfield "operation" (.str (text r.operation)) (by simp [recordMembers]),
    hfield "data" data (by simp [recordMembers]), hfield "before" before (by simp [recordMembers]),
    hfield "metadata" (.obj (encode numerals metadataFields (writeFields r.metadata).1)) (by simp [recordMembers]),
    JsonValue.decodeFields_encode numerals (by decide : (metadataFields.map (·.name)).Nodup),
    unmarshalRejection_recordMembers]
  cases unmarshalMap fl (some data) <;> cases unmarshalMap fl (some before) <;> simp [decodeText, StoredRecord.reread]

section
variable {fl} {r : StoredRecord F} {j : JsonValue ℚ}

theorem marshalRecord_eq_some (h : marshalRecord fl r = some j) :
    ∃ data before, marshal fl (mapValue r.data) = some data ∧ marshal fl (mapValue r.before) = some before ∧
      j = .obj (recordMembers r data before) := by
  obtain ⟨data, hdata, h⟩ := Option.bind_eq_some_iff.mp h
  obtain ⟨before, hbefore, h⟩ := Option.bind_eq_some_iff.mp h
  exact ⟨data, before, hdata, hbefore, (Option.some.inj h).symm⟩

/-- A stored record is read unless a number of its maps is out of range or it is nested too deeply. -/
theorem unmarshalRecord_isSome_iff (h : marshalRecord fl r = some j) :
    (unmarshalRecord fl j).isSome ↔ j.depth ≤ maxNestingDepth ∧ ∀ q ∈ r.numbers fl, (fl.parse q).isSome := by
  obtain ⟨data, before, hdata, hbefore, rfl⟩ := marshalRecord_eq_some h
  have hd := unmarshalMap_isSome_iff fl hdata
  have hb := unmarshalMap_isSome_iff fl hbefore
  unfold unmarshalRecord
  simp only [StoredRecord.numbers, mem_append, or_imp, forall_and, ← hd, ← hb]
  split
  · rename_i hdeep
    simp [Nat.not_le.mpr hdeep]
  · rename_i hdeep
    simp only [Nat.not_lt.mp hdeep, true_and, unmarshal_recordMembers]
    cases unmarshalMap fl (some data) <;> cases unmarshalMap fl (some before) <;> simp

/-- A record that is read is the one written, as a JSON value, iff the numbers of its maps are and all its texts are
UTF-8. -/
theorem sameJSON_iff {back : StoredRecord F} (h : marshalRecord fl r = some j) (hdistinct : r.Distinct)
    (hback : unmarshalRecord fl j = some back) :
    SameJSON fl back r ↔ (∀ q ∈ r.numbers fl, ∃ f, fl.print f = q) ∧ ∀ t ∈ r.texts, IsText t := by
  have hrange := ((unmarshalRecord_isSome_iff h).mp (by simp [hback])).2
  obtain ⟨data, before, hdata, hbefore, rfl⟩ := marshalRecord_eq_some h
  unfold unmarshalRecord at hback
  split at hback
  · cases hback
  simp only [unmarshal_recordMembers, Option.bind_eq_some_iff, Option.map_eq_some_iff] at hback
  obtain ⟨data', hdata', before', hbefore', rfl⟩ := hback
  have hread : unmarshal fl data = some (mapValue data') := by rw [unmarshal_mapValue fl hdata, hdata']; rfl
  have hread' : unmarshal fl before = some (mapValue before') := by rw [unmarshal_mapValue fl hbefore, hbefore']; rfl
  -- what is read has only texts, so bytes that are none make a difference
  by_cases htexts : ∀ t ∈ r.texts, IsText t
  swap
  · refine iff_of_false (fun hsame => htexts ?_) fun hboth => htexts hboth.2
    rw [← hsame.2]
    exact r.reread_texts (unmarshal_texts fl hread) (unmarshal_texts fl hread')
  have hin : (∀ t ∈ (mapValue r.data).texts, IsText t) ∧ ∀ t ∈ (mapValue r.before).texts, IsText t := by
    constructor <;> intro t ht <;> exact htexts t (by simp [StoredRecord.texts, ht])
  obtain ⟨hmarshal, hsame⟩ := unmarshal_marshal fl hdata hdistinct.1 hin.1 hread
  obtain ⟨hmarshal', hsame'⟩ := unmarshal_marshal fl hbefore hdistinct.2.1 hin.2 hread'
  have hdoc : marshalRecord fl { r with data := data', before := before' } = some (.obj (recordMembers r data before)) ↔
      data.map (reprint fl) = data ∧ before.map (reprint fl) = before := by
    simp [marshalRecord, hmarshal, hmarshal', recordMembers]
  have hback : ({ r with data := data', before := before' } : StoredRecord F).texts = r.texts := by
    simp [StoredRecord.texts, StoredRecord.fields, hsame, hsame']
  rw [StoredRecord.reread_of_isText _ _ hdistinct htexts, SameJSON, h, hdoc, and_iff_left hback, and_iff_left htexts,
    map_eq_self_iff, map_eq_self_iff, nums_marshal fl hdata, nums_marshal fl hbefore]
  simp only [StoredRecord.numbers, mem_append, or_imp, forall_and]
  exact and_congr
    (forall₂_congr fun q hq => reprint_eq_self_iff fl (hrange q (mem_append_left _ hq)))
    (forall₂_congr fun q hq => reprint_eq_self_iff fl (hrange q (mem_append_right _ hq)))

end

/-! ## Entries -/

section
variable (view : StoredRecord F → Record) (D : Database (JsonValue ℚ)) (rows : List (Row (JsonValue ℚ)))
  (row : Row (JsonValue ℚ)) (r : StoredRecord F)

/-- A dead letter that was read for a row has the record, as a JSON value. -/
def SameRecord (item : DeadLetter) : Prop :=
  item.id = row.id ∧ ∃ back : StoredRecord F, item.record = view back ∧ unmarshalRecord fl row.recordJSON = some back ∧
    SameJSON fl back r

/-- The row is read with the record, by its id and in every listing whose query has it. -/
def ReadBack : Prop :=
  (∃ item, getDeadLetterByID (reading fl view D) row.jobName row.id rows = .ok (some item) ∧
      SameRecord fl view row r item) ∧
    ∀ f, row ∈ listed (reading fl view D) f rows →
      ∃ items, listDeadLetters (reading fl view D) f rows = .ok items ∧ ∃ item ∈ items, SameRecord fl view row r item

/-- Some listing has the row, or is an error. -/
def Reported : Prop :=
  ∃ f, match listDeadLetters (reading fl view D) f rows with
    | .ok items => ∃ item ∈ items, item.id = row.id
    | .error _ => True

end

section
variable {fl} {view : StoredRecord F → Record} {D : Database (JsonValue ℚ)} {rows : List (Row (JsonValue ℚ))}
  {row : Row (JsonValue ℚ)}

theorem Written.identity (h : Written fl rows) (hrow : row ∈ rows) : ∃ c, row.identity = some c := by
  obtain ⟨id, e, he⟩ := h.written row hrow
  obtain ⟨j, -, rfl⟩ := Option.map_eq_some_iff.mp he
  exact ⟨e.context, rfl⟩

variable {E : Database (JsonValue ℚ)}

/-- With every identity context readable a listing is no error, and has exactly the rows whose record is read. -/
theorem scan_written : ∀ {rows : List (Row (JsonValue ℚ))},
    (∀ row ∈ rows, ∃ c, row.identity = some c) → ∃ items, scan E rows = .ok items ∧
      (∀ row ∈ rows, ∀ rec, E.decode row.recordJSON = some rec → ∃ item ∈ items, item.id = row.id ∧ item.record = rec) ∧
      ∀ item ∈ items, ∃ row ∈ rows, item.id = row.id ∧ E.decode row.recordJSON = some item.record
  | [], _ => ⟨[], rfl, by simp, by simp⟩
  | row :: rows, h => by
    obtain ⟨items, hscan, hread, hfrom⟩ := scan_written fun r hr => h r (mem_cons_of_mem _ hr)
    obtain ⟨c, hc⟩ := h row mem_cons_self
    cases hrec : E.decode row.recordJSON with
    | none =>
      refine ⟨items, by simp [scan, hrec, hscan], by simpa [hrec] using hread, fun item hitem => ?_⟩
      exact (hfrom item hitem).imp fun r hr => ⟨mem_cons_of_mem _ hr.1, hr.2⟩
    | some rec =>
      refine ⟨row.deadLetter rec c :: items, by simp [scan, hrec, hc, hscan, Except.map], ?_, ?_⟩
      · refine forall_mem_cons.mpr ⟨fun rec' h => ⟨_, mem_cons_self, rfl, Option.some.inj (hrec.symm.trans h)⟩, ?_⟩
        exact fun r hr rec' h => (hread r hr rec' h).imp fun item h => ⟨mem_cons_of_mem _ h.1, h.2⟩
      · refine forall_mem_cons.mpr ⟨⟨row, mem_cons_self, rfl, hrec⟩, fun item hitem => ?_⟩
        exact (hfrom item hitem).imp fun r hr => ⟨mem_cons_of_mem _ hr.1, hr.2⟩

theorem listDeadLetters_written (h : Written fl rows) (f : Filter) :
    ∃ items, listDeadLetters E f rows = .ok items ∧
      (∀ row ∈ listed E f rows, ∀ rec, E.decode row.recordJSON = some rec →
        ∃ item ∈ items, item.id = row.id ∧ item.record = rec) ∧
      ∀ item ∈ items, ∃ row ∈ listed E f rows, item.id = row.id ∧ E.decode row.recordJSON = some item.record :=
  scan_written fun _ hrow => h.identity (mem_of_listed hrow).1

theorem Written.eq_of_id (h : Written fl rows) {row' : Row (JsonValue ℚ)} (hrow : row ∈ rows) (hrow' : row' ∈ rows)
    (hid : row'.id = row.id) : row' = row :=
  inj_on_of_nodup_map h.ids hrow' hrow hid

theorem getDeadLetterByID_written (h : Written fl rows) (hrow : row ∈ rows) :
    getDeadLetterByID E row.jobName row.id rows = match E.decode row.recordJSON, row.identity with
      | none, _ => .error { msg := "unmarshal dlq record" }
      | some _, none => .error errIdentity
      | some rec, some c => .ok (some (row.deadLetter rec c)) := by
  have hfind : (rows.find? fun r => r.jobName == row.jobName && r.id == row.id) = some row := by
    cases hfound : rows.find? fun r => r.jobName == row.jobName && r.id == row.id with
    | none =>
      have := find?_eq_none.mp hfound row hrow
      simp at this
    | some r =>
      have hr := find?_some hfound
      simp only [Bool.and_eq_true, beq_iff_eq] at hr
      exact congrArg some (h.eq_of_id hrow (mem_of_find?_eq_some hfound) hr.2)
  simp only [getDeadLetterByID, hfind]
  cases E.decode row.recordJSON <;> cases row.identity <;> rfl

/-- The query for all rows of the job has the row. -/
theorem listed_all (hrow : row ∈ rows) : row ∈ listed E { jobName := row.jobName, limit := rows.length } rows := by
  have hmem : row ∈ E.order (rows.filter (selects E { jobName := row.jobName, limit := rows.length })) := by
    refine (E.order_perm _).symm.subset (mem_filter.mpr ⟨hrow, ?_⟩)
    simp [selects]
  have hpos : 0 < rows.length := length_pos_of_mem hrow
  have hlen :
      (E.order (rows.filter (selects E { jobName := row.jobName, limit := rows.length }))).length ≤ rows.length :=
    ((E.order_perm _).length_eq).trans_le (length_filter_le _ _)
  have hrows : Filter.rows { jobName := row.jobName, limit := rows.length } = rows.length := by
    simp only [Filter.rows]
    rw [if_neg (by omega)]
    rfl
  rw [listed, hrows, drop_zero, take_of_length_le hlen]
  exact hmem

theorem reported_iff (h : Written fl rows) (hrow : row ∈ rows) :
    Reported fl view D rows row ↔ (unmarshalRecord fl row.recordJSON).isSome := by
  constructor
  · rintro ⟨f, hf⟩
    obtain ⟨items, hlist, -, hfrom⟩ := listDeadLetters_written h f
    rw [hlist] at hf
    obtain ⟨item, hitem, hid⟩ := hf
    obtain ⟨row', hrow', hid', hdecode⟩ := hfrom item hitem
    obtain rfl := h.eq_of_id hrow (mem_of_listed hrow').1 (hid'.symm.trans hid)
    obtain ⟨back, hback, -⟩ := Option.map_eq_some_iff.mp hdecode
    simp [hback]
  · intro hsome
    obtain ⟨back, hback⟩ := Option.isSome_iff_exists.mp hsome
    refine ⟨{ jobName := row.jobName, limit := rows.length }, ?_⟩
    obtain ⟨items, hlist, hread, -⟩ := listDeadLetters_written h
      { jobName := row.jobName, limit := rows.length }
    rw [hlist]
    obtain ⟨item, hitem, hid, -⟩ := hread row (listed_all hrow) (view back) (by simp [reading, hback])
    exact ⟨item, hitem, hid⟩

theorem readBack_iff {r : StoredRecord F} (h : Written fl rows) (hrow : row ∈ rows) :
    ReadBack fl view D rows row r ↔ ∃ back, unmarshalRecord fl row.recordJSON = some back ∧ SameJSON fl back r := by
  constructor
  · rintro ⟨⟨item, -, -, back, -, hback, hsame⟩, -⟩
    exact ⟨back, hback, hsame⟩
  · rintro ⟨back, hback, hsame⟩
    have hdecode : (reading fl view D).decode row.recordJSON = some (view back) := by simp [reading, hback]
    obtain ⟨c, hc⟩ := h.identity hrow
    refine ⟨⟨row.deadLetter (view back) c, ?_, rfl, back, rfl, hback, hsame⟩, fun f hlisted => ?_⟩
    · rw [getDeadLetterByID_written h hrow, hdecode, hc]
    · obtain ⟨items, hlist, hread, -⟩ := listDeadLetters_written h f
      obtain ⟨item, hitem, hid, hrec⟩ := hread row hlisted (view back) hdecode
      exact ⟨items, hlist, item, hitem, hid, back, hrec, hback, hsame⟩

/-- A dead letter is read back with an equal record iff every number of its `Data` and `Before` is what is written for
some float, its texts and names are UTF-8, and the record is not nested more than 10000 deep; it is in some listing iff
those numbers are in the range of the floats and it is not nested more. A row for which the second fails is passed over
by every listing. -/
theorem dead_letter_round_trip_iff {id : Int} {e : Entry F} (h : Written fl rows) (hrow : row ∈ rows)
    (he : writeDeadLetter fl id e = some row) :
    (ReadBack fl view D rows row e.record ∧ Reported fl view D rows row ↔
      (∀ q ∈ e.record.numbers fl, ∃ f, fl.print f = q) ∧ (∀ t ∈ e.record.texts, IsText t) ∧
        row.recordJSON.depth ≤ maxNestingDepth) ∧
    (Reported fl view D rows row ↔
      (∀ q ∈ e.record.numbers fl, (fl.parse q).isSome) ∧ row.recordJSON.depth ≤ maxNestingDepth) := by
  obtain ⟨j, hj, rfl⟩ := Option.map_eq_some_iff.mp he
  have hread := unmarshalRecord_isSome_iff hj
  rw [reported_iff h hrow, readBack_iff h hrow, hread]
  refine ⟨⟨?_, ?_⟩, and_comm⟩
  · rintro ⟨⟨back, hback, hsame⟩, hdepth, -⟩
    obtain ⟨hprinted, htexts⟩ := (sameJSON_iff hj e.distinct hback).mp hsame
    exact ⟨hprinted, htexts, hdepth⟩
  · rintro ⟨hprinted, htexts, hdepth⟩
    have hrange : ∀ q ∈ e.record.numbers fl, (fl.parse q).isSome := fun q hq =>
      parse_isSome_of_printed fl (hprinted q hq)
    obtain ⟨back, hback⟩ := Option.isSome_iff_exists.mp (hread.mpr ⟨hdepth, hrange⟩)
    exact ⟨⟨back, hback, (sameJSON_iff hj e.distinct hback).mpr ⟨hprinted, htexts⟩⟩, hdepth, hrange⟩

end

/-! ## `binary64` -/

/-- The floats of Go, each written as the number it is. -/
def binary64 : Floats { x : ℚ // Binary64.IsDouble x } where
  parse q := (Binary64.round q).pmap Subtype.mk fun _ => Binary64.round_isDouble
  print f := f.1
  parse_print f := Option.pmap_eq_some_iff.mpr ⟨f.1, f.2, Binary64.round_of_isDouble f.2, rfl⟩

theorem binary64_printed_iff : (∃ f, binary64.print f = q) ↔ Binary64.IsDouble q :=
  ⟨fun ⟨f, hf⟩ => hf ▸ f.2, fun h => ⟨⟨q, h⟩, rfl⟩⟩

/-- A database with exact orders and no patterns. -/
def plainRows : Database (JsonValue ℚ) where
  like _ _ := true
  text _ := ""
  decode _ := none
  order rows := rows.insertionSort fun a b => b.createdAt ≤ a.createdAt
  order_perm rows := List.perm_insertionSort _ rows
  order_desc rows := List.pairwise_insertionSort _ rows

/-- A struct with all its fields empty. -/
def emptyFields (specs : List FieldSpec) : Fields specs GoText := readFields (zeros specs)

def entryOf (data : List (GoText × GoValue F)) (h : (GoValue.obj data).Distinct) : Entry F where
  jobName := "orders"
  record :=
    { operation := utf8 "INSERT", data := some data, before := none, metadata := emptyFields _, rejection := none }
  distinct := ⟨h, trivial, by
    simp [StoredRecord.fields, emptyFields, readFields, zeros, readValue, metadataFields, JsonValue.Kind.zero,
      FieldValue.mapTexts, DistinctField, assigned]⟩
  now := 1

def column (v : GoValue F) : List (GoText × GoValue F) := [(utf8 "a", v)]

theorem column_distinct {v : GoValue F} (h : v.Distinct) : (GoValue.obj (column v)).Distinct :=
  ⟨nodup_singleton _, h, trivial⟩

/-- A value inside `n` objects. -/
def nested : Nat → GoValue F
  | 0 => .null
  | n + 1 => .obj (column (nested n))

theorem nested_distinct : ∀ n, (nested n : GoValue F).Distinct
  | 0 => trivial
  | n + 1 => column_distinct (nested_distinct n)

theorem int_distinct (v : Int) : (GoValue.int v : GoValue F).Distinct := trivial

def columnEntry (v : GoValue F) (h : v.Distinct) : Entry F := entryOf (column v) (column_distinct h)

theorem marshal_column {v : GoValue F} {j : JsonValue ℚ} (h : marshal fl v = some j) :
    marshal fl (.obj (column v)) = some (.obj [("a", j)]) := by
  simp [column, marshal, marshalMembers, h]

theorem marshal_nested : ∀ n, ∃ j, marshal fl (nested n) = some j ∧ j.depth = n
  | 0 => ⟨.null, rfl, rfl⟩
  | n + 1 => by
    obtain ⟨j, hj, hdepth⟩ := marshal_nested n
    refine ⟨.obj [("a", j)], marshal_column fl hj, ?_⟩
    simp [depth, depthMembers, hdepth]

variable {row : Row (JsonValue ℚ)}

theorem written_single {id : Int} {e : Entry F} (h : writeDeadLetter fl id e = some row) :
    Written fl [row] where
  ids := nodup_singleton _
  written r hr := by
    obtain rfl := mem_singleton.mp hr
    exact ⟨id, e, h⟩

theorem columnEntry_written {v : GoValue F} {j : JsonValue ℚ} (hv : v.Distinct) (h : marshal fl v = some j) :
    ∃ row, writeDeadLetter fl 1 (columnEntry v hv) = some row ∧
      row.recordJSON = .obj (recordMembers (columnEntry v hv).record (.obj [("a", j)]) .null) := by
  have hdata : marshal fl (mapValue (columnEntry v hv).record.data) = some (.obj [("a", j)]) := marshal_column fl h
  have hbefore : marshal fl (mapValue (columnEntry v hv).record.before) = some .null := rfl
  refine ⟨_, by simp only [writeDeadLetter, marshalRecord, hdata, hbefore]; rfl, rfl⟩

theorem columnEntry_numbers {v : GoValue F} {j : JsonValue ℚ} (hv : v.Distinct) (h : marshal fl v = some j) :
    (columnEntry v hv).record.numbers fl = j.nums := by
  have hdata : (mapValue (columnEntry v hv).record.data).numbers fl = nums (.obj [("a", j)]) :=
    (nums_marshal fl (marshal_column fl h)).symm
  have hbefore : (mapValue (columnEntry v hv).record.before).numbers fl = [] := rfl
  rw [StoredRecord.numbers, hdata, hbefore]
  simp [nums, numsMembers]

variable {fl} in
theorem not_readBack {id : Int} {e : Entry F} {view : StoredRecord F → Record} {D : Database (JsonValue ℚ)}
    (he : writeDeadLetter fl id e = some row)
    (h : (∀ q ∈ e.record.numbers fl, ∃ f, fl.print f = q) → ¬∀ t ∈ e.record.texts, IsText t) :
    ¬ReadBack fl view D [row] row e.record := by
  intro hread
  obtain ⟨back, hback, hsame⟩ := (readBack_iff (written_single _ he) mem_cons_self).mp hread
  obtain ⟨j, hj, rfl⟩ := Option.map_eq_some_iff.mp he
  obtain ⟨hprinted, htexts⟩ := (sameJSON_iff hj e.distinct hback).mp hsame
  exact h hprinted htexts

/-- Two columns whose names are no UTF-8. -/
def twoColumns : Entry { x : ℚ // Binary64.IsDouble x } :=
  entryOf [([0xFE], .int 1), ([0xFF], .int 2)] ⟨by decide, by simp [DistinctMembers, GoValue.Distinct]⟩

/-- An id beyond `2^53` is read back as another number, two columns with names that are no UTF-8 are read back as one;
a record whose `Data` is nested 10000 deep, as much as a source reads, is stored and is then in no listing, nor an error
of one. -/
theorem dead_letter_changed_or_missing :
    (∃ row, writeDeadLetter binary64 1 (columnEntry (.int 9007199254740993) (int_distinct _)) = some row ∧
      ∀ view, ¬ReadBack binary64 view plainRows [row] row (columnEntry (.int 9007199254740993) (int_distinct _)).record) ∧
    (∃ row, writeDeadLetter binary64 1 twoColumns = some row ∧
      ∀ view, ¬ReadBack binary64 view plainRows [row] row twoColumns.record) ∧
    ∃ row, writeDeadLetter binary64 1 (columnEntry (nested 9999) (nested_distinct _)) = some row ∧
      ∀ view, ¬Reported binary64 view plainRows [row] row := by
  refine ⟨?_, ?_, ?_⟩
  · obtain ⟨row, hrow, -⟩ := columnEntry_written binary64 (int_distinct 9007199254740993) rfl
    refine ⟨row, hrow, fun view => not_readBack hrow fun hprinted => ?_⟩
    rw [columnEntry_numbers binary64 (int_distinct _) rfl] at hprinted
    have hdouble := binary64_printed_iff.mp (hprinted ((9007199254740993 : ℤ) : ℚ) mem_cons_self)
    exact absurd hdouble (Binary64.not_isDouble_odd (by decide) (by decide))
  · obtain ⟨row, hrow⟩ : ∃ row, writeDeadLetter binary64 1 twoColumns = some row := ⟨_, rfl⟩
    refine ⟨row, hrow, fun view => not_readBack hrow fun _ htexts => ?_⟩
    have htext := utf8_text (htexts [0xFE] (by
      simp [twoColumns, entryOf, StoredRecord.texts, mapValue, GoValue.texts, textsMembers]))
    exact absurd htext (by decide)
  · obtain ⟨j, hj, hdepth⟩ := marshal_nested binary64 9999
    obtain ⟨row, hrow, hdoc⟩ := columnEntry_written binary64 (nested_distinct 9999) hj
    refine ⟨row, hrow, fun view hreported => ?_⟩
    have hsome := (reported_iff (written_single _ hrow) mem_cons_self).mp hreported
    obtain ⟨doc, hmarshal, rfl⟩ := Option.map_eq_some_iff.mp hrow
    have hshallow := ((unmarshalRecord_isSome_iff hmarshal).mp hsome).1
    dsimp only at hdoc
    rw [hdoc] at hshallow
    simp only [recordMembers, cons_append, depth, depthMembers, maxNestingDepth] at hshallow
    omega

theorem dead_letter_round_trip_small :
    ∃ row, writeDeadLetter binary64 1 (columnEntry (.int 7) (int_distinct 7)) = some row ∧
      ∀ view, ReadBack binary64 view plainRows [row] row (columnEntry (.int 7) (int_distinct 7)).record := by
  obtain ⟨row, hrow, hdoc⟩ := columnEntry_written binary64 (int_distinct 7) rfl
  refine ⟨row, hrow, fun view =>
    ((dead_letter_round_trip_iff (written_single _ hrow) mem_cons_self hrow).1.mpr ⟨?_, ?_, ?_⟩).1⟩
  · rw [columnEntry_numbers binary64 (int_distinct 7) rfl]
    intro q hq
    obtain rfl := mem_singleton.mp hq
    exact binary64_printed_iff.mpr (Binary64.isDouble_intCast (by decide))
  · refine forall_mem_cons.mpr ⟨⟨_, rfl⟩, forall_mem_cons.mpr ⟨⟨_, rfl⟩, fun t ht => ?_⟩⟩
    obtain ⟨v, hv, ht⟩ := mem_flatMap.mp ht
    simp only [StoredRecord.fields, columnEntry, entryOf, Option.elim_none, append_nil] at hv
    exact readFields_texts (zeros metadataFields) v hv t ht
  · rw [hdoc]
    decide

end OpenEtl.Server.Dlq
