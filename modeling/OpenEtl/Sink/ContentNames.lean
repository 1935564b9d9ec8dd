import OpenEtl.Lib.Named
import OpenEtl.Sink.DedupToken
import OpenEtl.Sink.Doris

/-!
# Names made from the content (`sink/doris.go`, `sink/s3.go`)

| here | there |
| --- | --- |
| `objectName`, `uploads` | `FileSink.Write` (s3.go:229) |

A Doris load is labelled by a hash of its target and its payload, an object is named by the day and a hash of its
payload. Neither payload holds the position of a record in the source, so two batches of different records can have
one name.
-/

namespace OpenEtl.Sink.ContentNames

open OpenEtl.Sink.Doris
open ClickHouse (latin1)
open List Function Named Doris

/-! ## Labels of loads -/

def labelOf : Effect → Option String
  | .load _ label _ => some label
  | _ => none

/-- What the label of a request is a hash of. -/
def addressedOf (C : Cfg) (enc : Encoding) : Effect → Option (List UInt8)
  | .load table _ records => some (addressed C enc table records)
  | _ => none

section

variable {C : Cfg} {enc : Encoding} {hash : List UInt8 → String}

/-- The request carries the label of its payload, if it is a load. -/
def Labelled (C : Cfg) (enc : Encoding) (hash : List UInt8 → String) (e : Effect) : Prop :=
  labelOf e = (addressedOf C enc e).map fun bytes => "etl_" ++ hash bytes

/-- All requests of a part of `Write` do. -/
def AllLabelled (C : Cfg) (enc : Encoding) (hash : List UInt8 → String) (r : Requests) : Prop :=
  ∀ e ∈ r.effects, Labelled C enc hash e

theorem AllLabelled.none (error : Option Err) : AllLabelled C enc hash { error } :=
  fun _ he => absurd he not_mem_nil

theorem AllLabelled.andThen {a b : Requests} (ha : AllLabelled C enc hash a) (hb : AllLabelled C enc hash b) :
    AllLabelled C enc hash (a.andThen b) := by
  intro e he
  unfold Requests.andThen at he
  split at he
  · exact ha e he
  · rcases mem_append.mp he with he | he
    · exact ha e he
    · exact hb e he

/-- A single request that is no load. -/
theorem AllLabelled.single {e : Effect} (hl : labelOf e = Option.none)
    (ha : addressedOf C enc e = Option.none) : AllLabelled C enc hash { effects := [e] } := by
  intro x hx
  rw [mem_singleton.mp hx, Labelled, hl, ha]
  rfl

theorem applyDDLRecords_labelled (policy : DDLPolicy) (ddlOf : Record → String) (accepted : String → Bool)
    (records : List Record) : AllLabelled C enc hash (applyDDLRecords policy ddlOf accepted records) := by
  induction records with
  | nil => exact .none _
  | cons rec rest ih =>
    unfold applyDDLRecords
    split
    · exact ih
    · split
      · exact ih
      · split
        · exact (AllLabelled.single rfl rfl).andThen ih
        · exact .none _
    · exact .none _

theorem ensureTablesAndColumns_labelled (o : MapOrder) (records : List Record) :
    AllLabelled C enc hash (ensureTablesAndColumns C o records) := by
  unfold ensureTablesAndColumns
  split
  · split
    · exact .none _
    · intro e he
      obtain ⟨g, -, rfl⟩ := mem_map.mp he
      rfl
  · exact .none _

theorem writeViaStreamLoad_labelled (o : MapOrder) (records : List Record) :
    AllLabelled C enc hash (writeViaStreamLoad C enc hash o records) := by
  unfold writeViaStreamLoad
  split
  · exact .none _
  · intro e he
    obtain ⟨g, -, rfl⟩ := mem_map.mp he
    rfl

theorem writeViaInsert_labelled (records : List Record) : AllLabelled C enc hash (writeViaInsert C records) := by
  unfold writeViaInsert
  split
  · exact .none _
  · exact .single rfl rfl

theorem deleteChunks_labelled (table : String) (pk : List String) (recordChunks : List (List Record)) :
    AllLabelled C enc hash (deleteChunks table pk recordChunks) := by
  induction recordChunks with
  | nil => exact .none _
  | cons chunk rest ih =>
    rw [deleteChunks]
    split
    · exact .none _
    · exact (AllLabelled.single rfl rfl).andThen ih

theorem deleteGroups_labelled (byTable : List (String × List String)) (groups : List (String × List Record)) :
    AllLabelled C enc hash (deleteGroups C byTable groups) := by
  induction groups with
  | nil => exact .none _
  | cons g rest ih => exact (deleteChunks_labelled _ _ _).andThen ih

theorem writePhases_labelled (o : Orders) (byTable : List (String × List String)) (records : List Record) :
    AllLabelled C enc hash (writePhases C enc hash o byTable records) := by
  apply AllLabelled.andThen
  · split
    · exact .none _
    · unfold writeLive
      split
      · exact writeViaInsert_labelled _
      · exact writeViaStreamLoad_labelled _ _
  · split
    · exact .none _
    · unfold batchDeleteRecords
      split
      · exact .none _
      · exact deleteGroups_labelled _ _

theorem refuseMixed_labelled (records : List Record) : AllLabelled C enc hash (refuseMixed C records) := by
  unfold refuseMixed
  split <;> exact .none _

/-- Every request of a `Write` that has a label has the one of its payload. -/
theorem plan_labelled (o : Orders) (records : List Record) : AllLabelled C enc hash (plan C enc hash o records) := by
  simp only [plan]
  split
  · exact .none _
  · apply (applyDDLRecords_labelled _ _ _ _).andThen
    split
    · exact .none _
    · apply (ensureTablesAndColumns_labelled _ _).andThen
      exact (refuseMixed_labelled _).andThen (writePhases_labelled _ _ _)

/-- What the loads of some calls are labelled by. -/
def addressedBy (C : Cfg) (enc : Encoding) (hash : List UInt8 → String) (calls : List Call) :
    List (List UInt8) :=
  (calls.flatMap (effectsOf C enc hash)).filterMap (addressedOf C enc)

theorem labels_eq (calls : List Call) :
    (calls.flatMap (effectsOf C enc hash)).filterMap labelOf =
      (addressedBy C enc hash calls).map fun bytes => "etl_" ++ hash bytes := by
  rw [addressedBy, map_filterMap]
  refine filterMap_congr fun e he => ?_
  obtain ⟨call, -, he⟩ := mem_flatMap.mp he
  exact plan_labelled call.orders call.records e he

/-! ## The log of the target -/

theorem log_receive (effects : List Effect) (t : Target) :
    (effects.foldl Target.receive t).log =
      t.log ++ firstWins t.labels (effects.map fun e => (labelOf e, e)) := by
  induction effects generalizing t with
  | nil => simp [firstWins]
  | cons e rest ih =>
    rw [foldl_cons, ih, map_cons]
    cases e with
    | load table label records =>
      simp only [Target.receive, labelOf, firstWins]
      split
      · rfl
      · rw [append_assoc]
        rfl
    | _ =>
      simp only [Target.receive, append_assoc]
      rfl

theorem log_eq_iff (effects : List Effect) :
    (effects.foldl Target.receive {}).log = effects ↔ (effects.filterMap labelOf).Nodup := by
  have hsnd : (effects.map fun e => (labelOf e, e)).map Prod.snd = effects := by
    rw [map_map]
    exact map_id _
  have hfst : (effects.map fun e => (labelOf e, e)).filterMap Prod.fst = effects.filterMap labelOf := by
    rw [filterMap_map]
    rfl
  have hiff := firstWins_eq_iff ([] : List String) (effects.map fun e => (labelOf e, e))
  rw [hsnd, hfst] at hiff
  rw [log_receive, nil_append, hiff]
  exact and_iff_left fun _ _ => not_mem_nil

theorem label_injective (hhash : Injective hash) : Injective fun bytes => "etl_" ++ hash bytes := by
  intro a b h
  exact hhash (String.append_right_inj _ |>.mp h)

end

/-! ## Objects -/

inductive FileFormat
  | json | jsonl | csv | parquet
deriving DecidableEq, Repr

def FileFormat.name : FileFormat → String
  | .json => "json"
  | .jsonl => "jsonl"
  | .csv => "csv"
  | .parquet => "parquet"

/-- The sink's configuration, with the writers it calls: `json.Marshal`, a line of `csv.Writer`, and the
Parquet file of some rows. -/
structure FileSink where
  keyPrefix : String := ""
  format : FileFormat := .json
  marshal : Data → List UInt8
  csvRow : List String → List UInt8
  parquet : List Data → List UInt8

/-- `time.Now().UTC().Format("2006/01/02/")`. -/
structure Day where
  text : String
  length_eq : text.length = 11

structure Upload where
  day : Day
  records : List Record

section

variable (F : FileSink) (hash : List UInt8 → String)

def encode (records : List Record) : List UInt8 :=
  match F.format with
  | .json | .jsonl => records.flatMap fun rec => F.marshal rec.data ++ [10]
  | .csv =>
    let cols := csvColumnOrder records
    F.csvRow cols ++
      records.flatMap fun rec => F.csvRow (cols.map fun c => fmtV ((rec.data.get? c).getD .null))
  | .parquet => F.parquet (records.map (·.data))

def objectName (day : Day) (payload : List UInt8) : String :=
  F.keyPrefix ++ day.text ++ hash payload ++ "." ++ F.format.name

/-- The payload of a call; a call with deletes only writes none. -/
def payloadOf (u : Upload) : Option (Day × List UInt8) :=
  let writable := u.records.filter (·.operation ≠ .delete)
  if writable = [] then none else some (u.day, encode F writable)

/-- The objects some calls put, one after the other. -/
def puts (us : List Upload) : List (String × List UInt8) :=
  (us.filterMap (payloadOf F)).map fun p => (objectName F hash p.1 p.2, p.2)

/-- The bucket, or the directory, after the calls. -/
def uploads (us : List Upload) : List (String × List UInt8) := (puts F hash us).foldl put []

end

theorem Day.text_injective : Injective Day.text := by
  rintro ⟨a, _⟩ ⟨b, _⟩ h
  simpa using h

theorem objectName_injective (F : FileSink) {hash : List UInt8 → String} (hhash : Injective hash) :
    Injective fun p : Day × List UInt8 => objectName F hash p.1 p.2 := by
  rintro ⟨d, a⟩ ⟨d', b⟩ h
  have h := congrArg String.toList h
  simp only [objectName, String.toList_append, append_assoc, append_cancel_left_eq] at h
  have hlen : d.text.toList.length = d'.text.toList.length := by
    rw [String.length_toList, String.length_toList, d.length_eq, d'.length_eq]
  obtain ⟨hday, h⟩ := append_inj h hlen
  have hpayload := append_cancel_right h
  rw [Day.text_injective (String.toList_injective hday), hhash (String.toList_injective hpayload)]

/-- **No batch is suppressed exactly if no two have the content of one name**: the target and payload of a
load, the day and payload of an object. -/
theorem batches_kept_iff {hash : List UInt8 → String} (hhash : Injective hash) (C : Cfg)
    (enc : Encoding) (calls : List Call) (hnil : (writes C enc hash {} calls).2 = true) (F : FileSink)
    (us : List Upload) :
    ((writes C enc hash {} calls).1.log = calls.flatMap (effectsOf C enc hash) ↔
        (addressedBy C enc hash calls).Nodup) ∧
      ((uploads F hash us).map Prod.snd = (us.filterMap (payloadOf F)).map Prod.snd ↔
        (us.filterMap (payloadOf F)).Nodup) := by
  constructor
  · rw [writes_ok hnil, log_eq_iff, labels_eq]
    exact nodup_map_iff (label_injective hhash)
  · have hsnd : (puts F hash us).map Prod.snd = (us.filterMap (payloadOf F)).map Prod.snd := by
      rw [puts, map_map]
      rfl
    have hfst : (puts F hash us).map Prod.fst =
        (us.filterMap (payloadOf F)).map fun p => objectName F hash p.1 p.2 := by
      rw [puts, map_map]
      rfl
    rw [← hsnd, uploads, puts_nil_iff, hfst]
    exact nodup_map_iff (objectName_injective F hhash)

/-! ## State changes A, B, A -/

def printed (data : Data) : List UInt8 := (joinStr "," (data.map fun p => fmtV p.2)).toUTF8.toList

def printedRows : Encoding := { marshal := printed, csvRow := fun fields => (joinStr "," fields).toUTF8.toList }

def eventTable : Cfg := { host := "fe", database := "dw", table := "events" }

def asListed : MapOrder := { order := id, perm := List.Perm.refl }

/-- The row gets a state at a position of the binlog. -/
def stateChange (state : String) (pos : UInt32) : Record :=
  { operation := .update, data := [("id", .int64 1), ("state", .str state)]
    metadata := { table := "events", binlogFile := "binlog.1", binlogPos := pos } }

def stateCall (rec : Record) : Call where
  records := [rec]
  orders := { ensure := asListed, load := asListed, delete := asListed }
  attempts := [[.answered]]

def printedFiles : FileSink :=
  { marshal := printed, csvRow := printedRows.csvRow, parquet := fun rows => rows.flatMap printed }

theorem firstDay_length : "2026/01/02/".length = 11 := by decide

def firstDay : Day := { text := "2026/01/02/", length_eq := firstDay_length }

/-- A and B alone have two labels and two objects. -/
theorem batches_kept_iff_two_states :
    (writes eventTable printedRows latin1 {}
        ([stateChange "a" 1, stateChange "b" 2].map stateCall)).1.log =
      ([stateChange "a" 1, stateChange "b" 2].map stateCall).flatMap
        (effectsOf eventTable printedRows latin1) :=
  (batches_kept_iff ClickHouse.latin1_injective eventTable printedRows _ (by decide +kernel) printedFiles []).1.mpr
    (by decide +kernel)

/-- Three changes at three positions: the third has the label of the first, so the table keeps state `b`; and
two changes of one day to one state are one object. -/
theorem third_change_is_suppressed :
    let changes := [stateChange "a" 1, stateChange "b" 2, stateChange "a" 3]
    let done := writes eventTable printedRows latin1 {} (changes.map stateCall)
    changes.Nodup ∧ done.2 = true ∧
      done.1.log = ([stateChange "a" 1, stateChange "b" 2].map stateCall).flatMap
        (effectsOf eventTable printedRows latin1) ∧
      done.1.log ≠ (changes.map stateCall).flatMap (effectsOf eventTable printedRows latin1) ∧
      (uploads printedFiles latin1
        [⟨firstDay, [stateChange "a" 1]⟩, ⟨firstDay, [stateChange "a" 3]⟩]).length = 1 := by
  decide +kernel

end OpenEtl.Sink.ContentNames
