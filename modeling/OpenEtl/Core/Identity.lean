import Mathlib.Algebra.Field.Rat
import Mathlib.Data.List.Sort
import Mathlib.Data.String.Basic
import OpenEtl.Core.Record
import OpenEtl.Lib.Bytes
import OpenEtl.Lib.Json

/-!
# The identity of a record (`core/record_contract.go:377-527, 601-700`)

| here | there |
| --- | --- |
| `marshal` | `json.Marshal` of a value |
| `identityValuesEqual` | `identityValuesEqual`, `identityNumber` (:651, 668) |

A number read from a key is kept as its text, as `json.Number` does; it is a `float` here. A point in time is
written as the text that stands for it.
-/

namespace OpenEtl

open Json

/-! ## JSON of values -/

def base64Digit (n : Nat) : Char :=
  if n < 26 then Char.ofNat (65 + n)
  else if n < 52 then Char.ofNat (71 + n)
  else if n < 62 then Char.ofNat (n - 4)
  else if n = 62 then '+'
  else '/'

def base64 : List UInt8 → List Char
  | [] => []
  | [a] => [base64Digit (a.toNat / 4), base64Digit (a.toNat % 4 * 16), '=', '=']
  | [a, b] =>
    [base64Digit (a.toNat / 4), base64Digit (a.toNat % 4 * 16 + b.toNat / 16), base64Digit (b.toNat % 16 * 4), '=']
  | a :: b :: c :: bs =>
    [base64Digit (a.toNat / 4), base64Digit (a.toNat % 4 * 16 + b.toNat / 16),
      base64Digit (b.toNat % 16 * 4 + c.toNat / 64), base64Digit (c.toNat % 64)] ++ base64 bs

/-- `json.Marshal`; there is no JSON for infinities and NaN. -/
def marshal : Value → Option (List Char)
  | .null => some "null".toList
  | .bool true => some "true".toList
  | .bool false => some "false".toList
  | .int _ n => some (toString n).toList
  | .float t => if validNumber t.toList then some t.toList else none
  | .str s => some (quote s)
  | .bytes bs => some (quote (String.ofList (base64 bs)))
  | .time t => some (quote t)
  | .json t => some t.toList

/-- `json.Marshal` of a map: the members in the order of their names. -/
def marshalObject (obj : Data) : Option String :=
  ((obj.insertionSort fun a b => a.1 ≤ b.1).mapM fun p => (marshal p.2).map fun t => (p.1, t)).map fun ms =>
    String.ofList (object ms)

/-- `obj[col] = row[col]`, unless it is missing or nil. -/
def addKeyColumn (row obj : Data) (col : String) : Data :=
  match row.get? col with
  | none | some .null => obj
  | some v => obj.set col v

/-- The key columns that have a value, as a JSON object; empty if there is none. -/
def metadataKeyJSONMulti (pkColumns : List String) (row : Data) : String :=
  let obj := pkColumns.foldl (addKeyColumn row) []
  if obj = [] then "" else (marshalObject obj).getD ""

/-- What the decoder makes of a JSON value in an `any`. -/
def ofJson : Json → Value
  | .null => .null
  | .bool b => .bool b
  | .num text => .float (String.ofList text)
  | .str s => .str s
  | .arr _ | .obj _ => .json ""

/-! ## Comparing -/

/-- A number as it is written: its digits, how many of them stand behind the point, and the exponent. -/
structure Decimal where
  negative : Bool
  digits : Nat
  fraction : Nat
  exponent : Int

def Decimal.ofText (text : List Char) : Decimal :=
  let unsigned := if text.head? = some '-' then text.tail else text
  let mantissa := unsigned.takeWhile fun c => c ≠ 'e' ∧ c ≠ 'E'
  let exponent := (unsigned.dropWhile fun c => c ≠ 'e' ∧ c ≠ 'E').tail
  let shift : Int := Nat.ofDigitChars 10 (exponent.filter Char.isDigit) 0
  { negative := text.head? = some '-'
    digits := Nat.ofDigitChars 10 (mantissa.filter Char.isDigit) 0
    fraction := (mantissa.dropWhile (· ≠ '.')).tail.length
    exponent := if exponent.head? = some '-' then -shift else shift }

def Decimal.value (d : Decimal) : ℚ :=
  let magnitude : ℚ := d.digits * (10 : ℚ) ^ (d.exponent - d.fraction)
  if d.negative then -magnitude else magnitude

/-- The number a decimal text stands for. -/
def decimal (text : List Char) : Option ℚ := if validNumber text then some (Decimal.ofText text).value else none

/-- The exponent is an `int64`, and a number that is not zero is shifted by a million places at most. -/
def Decimal.readable (d : Decimal) : Bool :=
  -9223372036854775808 ≤ d.exponent && d.exponent ≤ 9223372036854775807 &&
    (d.digits = 0 || (d.exponent - d.fraction).natAbs ≤ 1000000)

/-- `SetString` of a `big.Rat`. -/
def ratSetString (text : List Char) : Option ℚ := if (Decimal.ofText text).readable then decimal text else none

/-- The text of a number. -/
def numeral : Value → Option (List Char)
  | .int _ n => some (toString n).toList
  | .float t => some t.toList
  | _ => none

def identityNumber (v : Value) : Option ℚ := (numeral v).bind ratSetString

def identityValueEmpty : Value → Bool
  | .null => true
  | .str s => s = ""
  | .bytes bs => bs = []
  | .json _ => true
  | _ => false

/-- Bytes are compared as the string they are. -/
def identityJSON : Value → Option (List Char)
  | .bytes bs => some (quoteRunes (Bytes.runes bs))
  | v => marshal v

def identityValuesEqual (left right : Value) : Bool :=
  match identityNumber left, identityNumber right with
  | some a, some b => a = b
  | _, _ => (identityJSON left).isSome && identityJSON left = identityJSON right

/-! ## `RecordIdentity` -/

inductive RecordIdentityReason
  | pkDeclarationMissing | pkDeclarationInvalid
  | keyMissing | keyInvalidJSON | keyNotObject | keyEmpty
  | keyColumnMissing | keyColumnEmpty | keyColumnsConflict
  | beforeMissing | beforeKeyMissing | beforeKeyEmpty | beforeKeyConflict | beforeStateInvalid
  | dataKeyMissing | dataKeyEmpty | dataKeyConflict
  | formatContractUnknown | legacyKeyChangeUnsupported
deriving DecidableEq, Repr

def RecordIdentityReason.text : RecordIdentityReason → String
  | .pkDeclarationMissing => "primary_key_columns_missing"
  | .pkDeclarationInvalid => "primary_key_columns_invalid"
  | .keyMissing => "key_missing"
  | .keyInvalidJSON => "key_invalid_json"
  | .keyNotObject => "key_not_object"
  | .keyEmpty => "key_empty"
  | .keyColumnMissing => "key_component_missing"
  | .keyColumnEmpty => "key_component_empty"
  | .keyColumnsConflict => "key_columns_conflict"
  | .beforeMissing => "update_before_image_missing"
  | .beforeKeyMissing => "update_before_key_missing"
  | .beforeKeyEmpty => "update_before_key_empty"
  | .beforeKeyConflict => "update_before_key_conflict"
  | .beforeStateInvalid => "update_before_state_invalid"
  | .dataKeyMissing => "data_key_component_missing"
  | .dataKeyEmpty => "data_key_component_empty"
  | .dataKeyConflict => "data_key_component_conflict"
  | .formatContractUnknown => "format_contract_unknown"
  | .legacyKeyChangeUnsupported => "legacy_key_change_unsupported"

structure RecordIdentityResult where
  complete : Bool := false
  columns : List String := []
  values : Data := []
  reason : Option RecordIdentityReason := none
  missingColumns : List String := []
  beforeImage : Bool := false
  keyChanged : Bool := false
deriving DecidableEq, Repr

def formatContractCanalJSONV1 : String := "kafka.canal_json/v1"
def dlqReplayProvenanceLegacyVerified : String := "legacy_verified"

def normalizedPKColumns (input : List String) : Except RecordIdentityReason (List String) :=
  if input = [] then .error .pkDeclarationMissing
  else if input.any (fun c => trimSpace c = "") ∨ ¬ input.Nodup then .error .pkDeclarationInvalid
  else .ok input

def decodeIdentityKey (input : String) : Except RecordIdentityReason Data :=
  match decode input.toList with
  | none => .error .keyInvalidJSON
  | some (.obj ms) => .ok (ms.foldl (fun d m => Data.set d m.1 (ofJson m.2)) [])
  | some _ => .error .keyNotObject

/-- The values of the key columns in the decoded key; the columns it lacks are collected, and an empty one
ends the search. -/
def keyValues (decoded : Data) : List String → Data → List String → Except RecordIdentityResult (Data × List String)
  | [], values, missing => .ok (values, missing)
  | c :: cs, values, missing =>
    match decoded.get? c with
    | none => keyValues decoded cs values (missing ++ [c])
    | some v =>
      if identityValueEmpty v then
        .error { values, reason := some .keyColumnEmpty, missingColumns := [c] }
      else keyValues decoded cs (values.set c v) missing

/-- The check of the key columns of one row image; `compare` says whether a value has to be that of the key. -/
def checkImage (values image : Data) (absent empty conflict : RecordIdentityReason) (compare : Bool) :
    List String → Option (RecordIdentityReason × String)
  | [] => none
  | c :: cs =>
    match image.get? c with
    | none => some (absent, c)
    | some v =>
      if identityValueEmpty v then some (empty, c)
      else if compare && !identityValuesEqual ((values.get? c).getD .null) v then some (conflict, c)
      else checkImage values image absent empty conflict compare cs

def canalBeforeStateAllowsDataFallback : BeforeImageState → Bool
  | .presentEmpty | .part | .full => true
  | _ => false

/-- `Before[c]`, or `Data[c]` where the format leaves unchanged columns out. -/
def beforeImageOf (record : Record) (fallback : Bool) : Data :=
  if fallback then record.data.merge record.before else record.before

def identityOfUpdate (record : Record) (columns : List String) (values : Data) : RecordIdentityResult :=
  let canal := record.metadata.formatContractID = formatContractCanalJSONV1
  let fallback := canal && canalBeforeStateAllowsDataFallback record.metadata.beforeImageState
  if canal && !fallback then { columns, values, reason := some .beforeStateInvalid }
  else if record.before = [] && !fallback then { columns, values, reason := some .beforeMissing }
  else
    match checkImage values (beforeImageOf record fallback) .beforeKeyMissing .beforeKeyEmpty .beforeKeyConflict true
        columns with
    | some (reason, c) => { columns, values, reason := some reason, missingColumns := [c] }
    | none =>
      match checkImage values record.data .dataKeyMissing .dataKeyEmpty .dataKeyConflict false columns with
      | some (reason, c) => { columns, values, reason := some reason, missingColumns := [c] }
      | none =>
        let keyChanged := columns.any fun c =>
          !identityValuesEqual ((values.get? c).getD .null) ((record.data.get? c).getD .null)
        if record.metadata.replayProvenance = dlqReplayProvenanceLegacyVerified && keyChanged then
          { columns, values, beforeImage := true, keyChanged := true, reason := some .legacyKeyChangeUnsupported }
        else { complete := true, columns, values, beforeImage := true, keyChanged }

/-- The row images against the values of the key. -/
def identityOfImages (record : Record) (columns : List String) (values : Data) : RecordIdentityResult :=
  let imageProblem :=
    if record.operation = .insert ∨ record.operation = .delete then
      checkImage values record.data .dataKeyMissing .dataKeyEmpty .dataKeyConflict true columns
    else none
  match imageProblem with
  | some (reason, c) => { columns, values, reason := some reason, missingColumns := [c] }
  | none =>
    if record.operation = .update then identityOfUpdate record columns values
    else { complete := true, columns, values }

def recordIdentity (record : Record) : RecordIdentityResult :=
  match normalizedPKColumns record.metadata.primaryKeyColumns with
  | .error reason => { reason := some reason }
  | .ok columns =>
    let keyText := trimSpace record.metadata.key
    if keyText = "" then { columns, reason := some .keyMissing }
    else
      match decodeIdentityKey keyText with
      | .error reason => { columns, reason := some reason }
      | .ok decoded =>
        if decoded = [] then { columns, reason := some .keyEmpty }
        else
          match keyValues decoded columns [] [] with
          | .error result => { result with columns }
          | .ok (values, missing) =>
            if missing ≠ [] then { columns, values, reason := some .keyColumnMissing, missingColumns := missing }
            else if decoded.length ≠ columns.length then { columns, values, reason := some .keyColumnsConflict }
            else identityOfImages record columns values

end OpenEtl
