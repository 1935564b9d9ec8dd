import OpenEtl.Core.Transform

/-!
# What transforms do to the maps they are given (`transform/*.go`)

| here | there |
| --- | --- |
| `Rule` | the statements of a transform that write to `rec.Data` |
| `RecordTransform.call` | `Apply` of the transforms that are not batch transforms |
| `enricherCall` | `EnricherTransform.Apply` (enricher.go:257) |
| `lookupCall` | `LookupTransform.Apply`, `applyQuery`, `handleLookupMiss` (enricher.go:925-1263) |
| `Shipped` | what the registry can build |

Most transforms write to the map of the record and return the record; `project`, `lua`, `debezium_cdc` and the scripts
return a map of their own; the others only look. What a transform is told by the clock, by its state, or by the outside
is its `Answer`, and any answer is possible.

A write to a nil map, of which `add_field` is capable, ends the process and is left out.
-/

namespace OpenEtl.InPlace

/-! ## Writes -/

inductive Rule
  /-- `if v, ok := d[old]; ok { delete(d, old); d[new] = v }` -/
  | move (old new : String)
  | delete (field : String)
  /-- `d[target] = v`, if there is a value for it -/
  | assign (target : String) (value : Data → Option Value)

def Rule.run : Rule → Data → Data
  | .move old new, d =>
    match d.get? old with
    | some v => (d.erase old).set new v
    | none => d
  | .delete field, d => d.erase field
  | .assign target value, d =>
    match value d with
    | some v => d.set target v
    | none => d

/-- The rule finds nothing to change. -/
def Rule.Idle (d : Data) : Rule → Prop
  | .move old new => d.get? old = none ∨ old = new
  | .delete field => d.get? field = none
  | .assign target value => ∀ v, value d = some v → d.get? target = some v

theorem Rule.run_same_iff (r : Rule) (d : Data) : (r.run d).Same d ↔ r.Idle d := by
  cases r with
  | move old new =>
    cases hold : d.get? old with
    | none => simp [Rule.run, Rule.Idle, Data.Same, hold]
    | some v =>
      simp only [Rule.run, Rule.Idle, Data.Same, hold, Data.get?_set, Data.get?_erase, reduceCtorEq, false_or]
      constructor
      · intro h
        by_contra hne
        have hgone := h old
        rw [if_neg hne, if_pos rfl, hold] at hgone
        cases hgone
      · rintro rfl c
        by_cases hc : c = old
        · rw [if_pos hc, hc, hold]
        · rw [if_neg hc, if_neg hc]
  | delete field =>
    simp only [Rule.run, Rule.Idle, Data.Same, Data.get?_erase]
    refine ⟨fun h => ?_, fun h c => ?_⟩
    · simpa using (h field).symm
    · by_cases hc : c = field
      · rw [if_pos hc, hc, h]
      · rw [if_neg hc]
  | assign target value =>
    cases hv : value d with
    | none => simp [Rule.run, Rule.Idle, Data.Same, hv]
    | some v =>
      simp only [Rule.run, Rule.Idle, Data.Same, hv, Data.get?_set, Option.some.injEq, forall_eq']
      refine ⟨fun h => ?_, fun h c => ?_⟩
      · simpa using (h target).symm
      · by_cases hc : c = target
        · rw [if_pos hc, hc, h]
        · rw [if_neg hc]

/-! ## Calls of `Apply` -/

inductive Result
  /-- the map it was given; the record's other fields as here -/
  | same (rec : Record)
  /-- a new map -/
  | fresh (rec : Record)
  | filtered
  | failed (e : Cause)

/-- What a call does to its record's map, and what it returns. -/
structure Call where
  rules : List Rule := []
  result : Result

/-- The conversions of values and texts, by the names the code has for them. -/
structure Conversions where
  convertType : Value → String → Option Value
  castValue : Value → String → Except Cause Value
  /-- a group of the first match of a regular expression -/
  findSubmatch : String → Nat → String → Option String
  execute : String → Data → Option String

inductive JoinAnswer
  | noKey | noMatch
  | broken (e : Cause)
  | matched (other : Data)

inductive LookupAnswer
  /-- the record has no data -/
  | nothing
  /-- the dimension could not be loaded, or the query failed -/
  | unavailable (e : Cause)
  /-- the state store failed -/
  | broken (e : Cause)
  | miss (e : Cause)
  /-- a row; the state store may fail after its fields were copied -/
  | hit (row : Data) (broken : Option Cause)

/-- What a call is told: the order in which it goes through a map of its configuration, the time, and what its state
or the outside has for the record. -/
structure Answer where
  order : { f : List (String × String) → List (String × String) // ∀ l, (f l).Perm l } := ⟨id, List.Perm.refl⟩
  now : String := ""
  unix : Int := 0
  joined : JoinAnswer := .noKey
  looked : LookupAnswer := .nothing
  /-- the enricher's value; none when there is no key, or the failure is to be ignored -/
  fetched : Except Cause (Option Value) := .ok none
  /-- the decision of a transform that only looks -/
  verdict : Record → Except TransformErr Record := .ok
  /-- the result of one that makes a new map, or passes the record on -/
  remade : Record → Result := .same
  /-- the records a script makes of one -/
  produced : Record → Except Cause (List Record) := fun r => .ok [r]

inductive CastError
  | null | skip | fail
deriving DecidableEq, Repr

structure MapFieldRule where
  field : String
  dict : List (String × Value)
  defaultValue : Option Value := none
  /-- `on_missing: null` -/
  nullMissing : Bool := false

inductive ExtractRule
  | pattern (target source regexp : String) (group : Nat)
  | template (target text : String)

inductive JoinMiss
  | drop | dlq | error
deriving DecidableEq, Repr

structure JoinConfig where
  joinKey : String := ""
  inner : Bool := true
  joinFields : List String := []
  /-- what the copied fields' names begin with -/
  front : String := ""
  onMiss : JoinMiss := .drop

/-- Transforms that look at a record and return it, or an error. -/
inductive Observer
  | identity | filter | validate | cdcPolicy | tap | rateLimiter | router | deduplicate | distinct | limit | skip | sample
deriving DecidableEq, Repr

inductive Remaker
  | project | lua | debeziumCdc
deriving DecidableEq, Repr

inductive RecordTransform
  | rename (mappings : List (String × String))
  | dropField (fields : List String)
  | addField (field value : String)
  | typeConvert (conversions : List (String × String))
  | cast (casts : List (String × String)) (onError : CastError)
  | coalesce (fields : List String) (targetField : String)
  | mapFields (fields : List MapFieldRule)
  | extract (rules : List ExtractRule)
  | join (cfg : JoinConfig)
  | normalizeEnvelope (keepMetadata : Bool)
  | observe (which : Observer)
  | remake (which : Remaker)

/-- `isCoalesceEmpty`: of the integer types it knows three. -/
def isCoalesceEmpty : Value → Bool
  | .null => true
  | .str s => s = ""
  | .bytes bs => bs.isEmpty
  | .bool b => !b
  | .int .int n | .int .int32 n | .int .int64 n => n = 0
  | .int _ _ => false
  | .float t => t = "0" || t = "-0"
  | .time _ => false
  | .json t => t = "[]" || t = "map[]"

def addedValue (A : Answer) (value : String) : Value :=
  if value = "\x7b\x7bnow\x7d\x7d" ∨ value = "\x7b\x7b.Now\x7d\x7d" then .str A.now
  else if value = "\x7b\x7bts\x7d\x7d" then .int64 A.unix
  else .str value

def firstNonEmpty (fields : List String) (d : Data) : Option Value :=
  fields.findSome? fun f => (d.get? f).filter fun v => !isCoalesceEmpty v

def MapFieldRule.value (r : MapFieldRule) (d : Data) : Option Value :=
  match d.get? r.field with
  | none => none
  | some v =>
    match r.dict.lookup (fmtV v) with
    | some mapped => some mapped
    | none => r.defaultValue.or (if r.nullMissing then some .null else none)

/-- `rec.Data["_op"]` and `rec.Data["_source_table"]`. -/
def opText : OpType → String
  | .unset => ""
  | .insert => "INSERT"
  | .update => "UPDATE"
  | .delete => "DELETE"
  | .ddl => "DDL"

def plainMetadata (rec : Record) : List Rule :=
  [.assign "_op" fun _ => if rec.operation = .unset then none else some (.str (opText rec.operation)),
    .assign "_source_table" fun _ => if rec.metadata.table = "" then none else some (.str rec.metadata.table)]

section

variable (V : Conversions)

def ExtractRule.rule : ExtractRule → Rule
  | .pattern target source regexp group =>
    .assign target fun d =>
      match d.get? source with
      | some (.str s) => if s = "" then none else (V.findSubmatch regexp group s).map .str
      | _ => none
  | .template target text => .assign target fun d => (V.execute text d).map .str

/-- The loop of `CastTransform.Apply`: fields are converted one after the other, up to the first that cannot be. -/
def castFields (onError : CastError) (rec : Record) : List (String × String) → Data → Call
  | [], _ => { result := .same rec }
  | (field, target) :: rest, d =>
    let go (v : Value) : Call :=
      let call := castFields onError rec rest (d.set field v)
      { call with rules := .assign field (fun _ => some v) :: call.rules }
    match d.get? field with
    | none | some .null => castFields onError rec rest d
    | some v =>
      match V.castValue v target, onError with
      | .ok w, _ => go w
      | .error _, .null => go .null
      | .error _, .skip => { result := .filtered }
      | .error e, .fail => { result := .failed { e with msg := "cast: field \"" ++ field ++ "\": " ++ e.msg } }

def JoinConfig.miss (j : JoinConfig) (rec : Record) : Call :=
  let key := fmtV ((rec.data.get? j.joinKey).getD .null)
  match j.onMiss with
  | .drop => { result := .filtered }
  | .dlq => { result := .failed { msg := "join: no match for key=" ++ key ++ " (on_miss=dlq)" } }
  | .error => { result := .failed { msg := "join: no match for key=" ++ key ++ " (on_miss=error)" } }

def RecordTransform.call (A : Answer) (rec : Record) : RecordTransform → Call
  | .rename mappings => { rules := (A.order.1 mappings).map fun m => .move m.1 m.2, result := .same rec }
  | .dropField fields => { rules := fields.map .delete, result := .same rec }
  | .addField field value => { rules := [.assign field fun _ => some (addedValue A value)], result := .same rec }
  | .typeConvert conversions =>
    { rules := (A.order.1 conversions).map fun c => .assign c.1 fun d => (d.get? c.1).bind (V.convertType · c.2)
      result := .same rec }
  | .cast casts onError => castFields V onError rec (A.order.1 casts) rec.data
  | .coalesce fields targetField => { rules := [.assign targetField (firstNonEmpty fields)], result := .same rec }
  | .mapFields fields => { rules := fields.map fun r => .assign r.field r.value, result := .same rec }
  | .extract rules => { rules := rules.map (·.rule V), result := .same rec }
  | .join j =>
    match A.joined with
    | .noKey => if j.inner then j.miss rec else { result := .same rec }
    | .broken e => { result := .failed e }
    | .noMatch =>
      if j.inner then j.miss rec
      else { rules := j.joinFields.map fun f => .assign (j.front ++ f) fun _ => some .null, result := .same rec }
    | .matched other =>
      { rules := j.joinFields.map fun f => .assign (j.front ++ f) fun _ => other.get? f, result := .same rec }
  | .normalizeEnvelope keepMetadata =>
    match A.remade rec with
    -- no envelope
    | .same r => { rules := if keepMetadata then plainMetadata rec else [], result := .same r }
    | other => { result := other }
  | .observe _ =>
    { result :=
        match A.verdict rec with
        | .ok r => .same r
        | .error .filtered => .filtered
        | .error (.failed e) => .failed e }
  | .remake _ => { result := A.remade rec }

end

inductive LookupMiss
  | keep | null | dlq | error
deriving DecidableEq, Repr

structure LookupConfig where
  fields : List String
  onMiss : LookupMiss := .keep
  /-- `on_refresh_error: error` -/
  failRefresh : Bool := false

def enricherCall (targetField : String) (A : Answer) (rec : Record) : Call :=
  match A.fetched with
  | .error e => { result := .failed e }
  | .ok none => { result := .same rec }
  | .ok (some v) => { rules := [.assign targetField fun _ => some v], result := .same rec }

def lookupCall (l : LookupConfig) (A : Answer) (rec : Record) : Call :=
  match A.looked with
  | .nothing => { result := .same rec }
  | .unavailable e => { result := if l.failRefresh then .failed e else .same rec }
  | .broken e => { result := .failed e }
  | .miss e =>
    match l.onMiss with
    | .keep => { result := .same rec }
    | .null => { rules := l.fields.map fun f => .assign f fun _ => some .null, result := .same rec }
    | .dlq | .error => { result := .failed e }
  | .hit row broken =>
    { rules := l.fields.map fun f => .assign f fun _ => row.get? f
      result :=
        match broken with
        | some e => .failed e
        | none => .same rec }

/-! ## Batch transforms -/

inductive ScriptError
  | dlq | drop | error
deriving DecidableEq, Repr

inductive Shipped
  | record (t : RecordTransform)
  | enricher (targetField : String)
  | lookup (cfg : LookupConfig)
  /-- `flat_map`; `ts` is one with `dlq` -/
  | script (onError : ScriptError)
  | sort
  /-- `window` and `dbt`: the batch goes in, records of their own come out -/
  | window
  | dbt

def Shipped.isBatch : Shipped → Bool
  | .record _ => false
  | _ => true

end OpenEtl.InPlace
