import OpenEtl.Sink.ClickHouse
import OpenEtl.Sink.Relational

/-!
# The Doris sink (`sink/doris.go`)

| here | there |
| --- | --- |
| `expand` | `expandMetadataPKKeyChanges` (metadata_pk.go:156) |
| `buildJSONBody`, `csvColumnOrder`, `buildCSVBody`, `label` | the functions of these names and the label of `streamLoadOnce` (:550-707) |
| `plan` | `DorisSink.Write` (:318): the requests it makes, and the error it ends with |
| `send`, `execute` | the requests as they are answered, with the retries of `streamLoad` (:511) |

A request either reaches the target or does not, and is answered or not; `Attempt` says which. Of a table
that is missing or has other columns the model says only that `ensureTablesAndColumns` asks for it. The
loops over Go maps go through the tables in any order (`MapOrder`). The encoders and SHA-256 are parameters.
-/

namespace OpenEtl.Sink.Doris

open OpenEtl.Sink.Sql (Identity addColumns expandKeyChange sortStrings compactRecordsByPK resolveDeleteKeys chunks)
open List

inductive WriteMode
  | streamLoad | insert
deriving DecidableEq, Repr

inductive LoadFormat
  | json | csv
deriving DecidableEq, Repr

inductive DDLPolicy
  | ignore | apply | reject
deriving DecidableEq, Repr

structure Cfg where
  host : String := ""
  httpPort : Nat := 8030
  database : String := ""
  table : String := ""
  tableTemplate : String := ""
  writeMode : WriteMode := .streamLoad
  streamLoadFormat : LoadFormat := .json
  pkColumns : List String := []
  pkColumnsFromMetadata : Bool := false
  /-- what `validateMetadataPKBatch` reads off one record, or refuses it for -/
  identity : Record → Except Err Identity := fun _ => .error { msg := "identity_missing" }
  insertChunkSize : Nat := 500
  /-- `auto_create`, or `schema_drift` other than `ignore` -/
  ensuresSchema : Bool := false
  ddlPolicy : DDLPolicy := .reject
  /-- `Metadata.DDL` of a record, and whether `validateDorisApplyDDL` accepts the statement -/
  ddlOf : Record → String := fun _ => ""
  ddlAccepted : String → Bool := fun _ => true
  allowMixedCDCNonAtomic : Bool := false

/-- The encoders of the payloads: `json.Marshal` of a row, and a line of `csv.Writer`. -/
structure Encoding where
  marshal : Data → List UInt8
  csvRow : List String → List UInt8

/-- The order in which a loop goes through the keys of a Go map. -/
structure MapOrder where
  order : List String → List String
  perm : ∀ l, (order l).Perm l

/-! ## Records -/

section

variable (C : Cfg)

def resolveTable (rec : Record) : Except Err String :=
  if C.tableTemplate = "" then .ok (if C.table ≠ "" then C.table else rec.metadata.table)
  else if containsStr C.tableTemplate "\x7bdb\x7d" ∧ rec.metadata.database = "" then
    .error
      { msg := "doris sink: table_template \"" ++ C.tableTemplate ++
          "\" references \x7bdb\x7d but record has no database metadata" }
  else if containsStr C.tableTemplate "\x7btable\x7d" ∧ rec.metadata.table = "" then
    .error
      { msg := "doris sink: table_template \"" ++ C.tableTemplate ++
          "\" references \x7btable\x7d but record has no table metadata" }
  else
    let withDB := ClickHouse.replaceAll "\x7bdb\x7d".toList rec.metadata.database.toList 0 C.tableTemplate.toList
    let table := String.ofList (ClickHouse.replaceAll "\x7btable\x7d".toList rec.metadata.table.toList 0 withDB)
    if table = "" then
      .error { msg := "doris sink: table_template \"" ++ C.tableTemplate ++ "\" resolved to empty" }
    else .ok table

/-- One record of `validateMetadataPKBatch`: its identity and the key columns declared so far. -/
def validateRecord (byTable : List (String × List String)) (rec : Record) :
    Except Err (List (String × List String) × Identity) :=
  match resolveTable C rec with
  | .error e => .error { msg := "target_metadata_missing; " ++ e.msg }
  | .ok resolved =>
    if trimSpace C.database = "" then
      .error
        { msg := "target_database_missing; set sink.config.database before enabling pk_columns_from_metadata" }
    else if trimSpace resolved = "" then
      .error
        { msg := "target_table_missing; set sink.config.table or use a source/format that supplies " ++
            "Metadata.Table for every record" }
    else
      match C.identity rec with
      | .error e => .error e
      | .ok id =>
        match addColumns byTable (trimSpace resolved) (sortStrings id.columns) with
        | .error e => .error e
        | .ok byTable =>
          match addColumns byTable (trimSpace rec.metadata.table) (sortStrings id.columns) with
          | .error e => .error e
          | .ok byTable => .ok (byTable, id)

/-- The key columns of each table, and the records with their key changes expanded. -/
def validateMetadataPKBatch : List (String × List String) → List Record →
    Except Err (List (String × List String) × List Record)
  | byTable, [] => .ok (byTable, [])
  | byTable, rec :: rest =>
    match validateRecord C byTable rec with
    | .error e => .error e
    | .ok (byTable, id) =>
      match validateMetadataPKBatch byTable rest with
      | .error e => .error e
      | .ok (byTable, out) => .ok (byTable, expandKeyChange rec id ++ out)

def prepare (records : List Record) : Except Err (List (String × List String) × List Record) :=
  if C.pkColumnsFromMetadata then validateMetadataPKBatch C [] records else .ok ([], records)

/-- The key columns compaction asks for, by the table of the source. -/
def compactColumns (byTable : List (String × List String)) (table : String) : List String :=
  match byTable.lookup table with
  | some pk => pk
  | none =>
    match if C.table ≠ "" then byTable.lookup C.table else none with
    | some pk => pk
    | none => if C.pkColumns ≠ [] then C.pkColumns else ["id"]

def deleteColumns (byTable : List (String × List String)) (table : String) : List String :=
  let pk := (byTable.lookup table).getD C.pkColumns
  if pk = [] then ["id"] else pk

/-! ## Requests -/

inductive Effect
  | ddl (statement : String)
  /-- the table is to exist with these columns -/
  | ensure (table : String) (cols : List String)
  | load (table label : String) (records : List Record)
  /-- one transaction: the columns and the rows of each group -/
  | insert (groups : List (String × List String × List (List Value)))
  | delete (table : String) (cols : List String) (rows : List (List Value))
deriving DecidableEq

/-- The tables of some records in the order they first appear, each with its records. -/
def tableGroups (records : List Record) : Except Err (List (String × List Record)) :=
  match records.mapM (resolveTable C) with
  | .error e => .error e
  | .ok tables =>
    .ok (tables.eraseDups.map fun t => (t, ((tables.zip records).filter (·.1 = t)).map Prod.snd))

/-- The groups as the loop over the map meets them. -/
def ordered (o : MapOrder) (groups : List (String × List Record)) : List (String × List Record) :=
  (o.order (groups.map Prod.fst)).map fun t => (t, (groups.lookup t).getD [])

def columnsOf (rec : Record) : List String := sortStrings (rec.data.map Prod.fst).eraseDups

def buildJSONBody (enc : Encoding) (records : List Record) : List UInt8 :=
  records.flatMap fun rec => enc.marshal rec.data ++ [10]

def csvColumnOrder : List Record → List String
  | [] => []
  | rec :: _ => columnsOf rec

/-- A field of a CSV row; nil is the empty text. -/
def csvField (rec : Record) (c : String) : String :=
  match rec.data.get? c with
  | none | some .null => ""
  | some v => fmtV v

def buildCSVBody (enc : Encoding) (records : List Record) : List UInt8 :=
  records.flatMap fun rec => enc.csvRow ((csvColumnOrder records).map (csvField rec))

def body (enc : Encoding) (records : List Record) : List UInt8 :=
  match C.streamLoadFormat with
  | .csv => buildCSVBody enc records
  | .json => buildJSONBody enc records

/-- The bytes whose hash is the label of a load. -/
def addressed (enc : Encoding) (table : String) (records : List Record) : List UInt8 :=
  (C.host ++ ":" ++ toString C.httpPort ++ "/" ++ C.database ++ "." ++ table ++ "|").toUTF8.toList ++
    body C enc records

def label (enc : Encoding) (hash : List UInt8 → String) (table : String) (records : List Record) : String :=
  "etl_" ++ hash (addressed C enc table records)

/-- What a part of `Write` asks for, and the error it ends with. -/
structure Requests where
  effects : List Effect := []
  error : Option Err := none

/-- The second part is reached if the first ended without an error. -/
def Requests.andThen (a b : Requests) : Requests :=
  match a.error with
  | some _ => a
  | none => { b with effects := a.effects ++ b.effects }

/-- The DDL of a batch; `accepted` says which statements the target takes. -/
def applyDDLRecords (policy : DDLPolicy) (ddlOf : Record → String) (accepted : String → Bool) :
    List Record → Requests
  | [] => {}
  | rec :: rest =>
    match policy with
    | .ignore => applyDDLRecords policy ddlOf accepted rest
    | .apply =>
      if ddlOf rec = "" then applyDDLRecords policy ddlOf accepted rest
      else if accepted (ddlOf rec) then
        Requests.andThen { effects := [.ddl (ddlOf rec)] } (applyDDLRecords policy ddlOf accepted rest)
      else { error := some { msg := "apply DDL on " ++ rec.metadata.table } }
    | .reject => { error := some { msg := "DDL record on " ++ rec.metadata.table ++ " rejected by ddl_policy" } }

def ensureTablesAndColumns (o : MapOrder) (records : List Record) : Requests :=
  if C.ensuresSchema then
    match tableGroups C records with
    | .error e => { error := some e }
    | .ok groups =>
      { effects := ((ordered o groups).filter (·.1 ≠ "")).map fun g =>
          .ensure g.1 (g.2.flatMap fun rec => rec.data.map Prod.fst).eraseDups }
  else {}

def writeViaStreamLoad (enc : Encoding) (hash : List UInt8 → String) (o : MapOrder) (records : List Record) :
    Requests :=
  match tableGroups C records with
  | .error e => { error := some e }
  | .ok groups => { effects := (ordered o groups).map fun g => .load g.1 (label C enc hash g.1 g.2) g.2 }

/-- The groups of INSERTs: a table and its columns, joined by commas. -/
def writeViaInsert (records : List Record) : Requests :=
  match records.mapM (resolveTable C) with
  | .error e => { error := some e }
  | .ok tables =>
    let keyed := (tables.zip records).map fun p => ((p.1, joinStr "," (columnsOf p.2)), p.2)
    { effects := [.insert ((keyed.map Prod.fst).eraseDups.map fun k =>
        let members := (keyed.filter (·.1 = k)).map Prod.snd
        let cols := (members.head?.map columnsOf).getD []
        (k.1, cols, members.map fun rec => cols.map fun c => (rec.data.get? c).getD .null))] }

/-- The DELETEs of a table: a chunk is sent before the keys of the next are read. -/
def deleteChunks (table : String) (pk : List String) : List (List Record) → Requests
  | [] => {}
  | chunk :: rest =>
    match chunk.mapM fun rec => resolveDeleteKeys rec pk with
    | .error e => { error := some { msg := "batch delete " ++ table ++ ": " ++ e.msg } }
    | .ok rows => Requests.andThen { effects := [.delete table pk rows] } (deleteChunks table pk rest)

def deleteGroups (byTable : List (String × List String)) : List (String × List Record) → Requests
  | [] => {}
  | (table, records) :: rest =>
    Requests.andThen
      (deleteChunks table (deleteColumns C byTable table) (chunks C.insertChunkSize records.length records))
      (deleteGroups byTable rest)

def batchDeleteRecords (o : MapOrder) (byTable : List (String × List String)) (records : List Record) : Requests :=
  match tableGroups C records with
  | .error e => { error := some e }
  | .ok groups => deleteGroups C byTable (ordered o groups)

/-- The orders in which a `Write` goes through its three maps. -/
structure Orders where
  ensure : MapOrder
  load : MapOrder
  delete : MapOrder

/-- The writes of a batch, by `write_mode`. -/
def writeLive (enc : Encoding) (hash : List UInt8 → String) (o : MapOrder) (writes : List Record) : Requests :=
  match C.writeMode with
  | .insert => writeViaInsert C writes
  | .streamLoad => writeViaStreamLoad C enc hash o writes

/-- The phases after the compaction: writes, then deletes. -/
def writePhases (enc : Encoding) (hash : List UInt8 → String) (o : Orders) (byTable : List (String × List String))
    (records : List Record) : Requests :=
  let writes := records.filter (·.operation ≠ .delete)
  let deletes := records.filter (·.operation = .delete)
  Requests.andThen
    (if writes = [] then {} else writeLive C enc hash o.load writes)
    (if deletes = [] then {} else batchDeleteRecords C o.delete byTable deletes)

/-- The refusal of a batch that had both writes and deletes before its key changes were expanded. -/
def refuseMixed (dataRecords : List Record) : Requests :=
  if dataRecords.any (·.operation ≠ .delete) ∧ dataRecords.any (·.operation = .delete) ∧
      C.allowMixedCDCNonAtomic = false then
    { error := some
        { msg := "doris sink refuses mixed write/delete CDC batch because Stream Load and MySQL DELETE are not " ++
            "atomic together; set allow_mixed_cdc_non_atomic=true to accept at-least-once non-atomic semantics" } }
  else {}

def plan (enc : Encoding) (hash : List UInt8 → String) (o : Orders) (records : List Record) : Requests :=
  let ddlRecords := records.filter (·.operation = .ddl)
  let dataRecords := records.filter (·.operation ≠ .ddl)
  match prepare C dataRecords with
  | .error e => { error := some e }
  | .ok (byTable, expanded) =>
    (applyDDLRecords C.ddlPolicy C.ddlOf C.ddlAccepted ddlRecords).andThen
      (if expanded = [] then {}
        else
          let compacted := compactRecordsByPK (compactColumns C byTable) expanded
          (ensureTablesAndColumns C o.ensure compacted).andThen
            ((refuseMixed C dataRecords).andThen (writePhases C enc hash o byTable compacted)))

end

/-! ## Answers -/

/-- The target: the labels it knows and the requests that took effect, in order. -/
structure Target where
  labels : List String := []
  log : List Effect := []

/-- A load whose label is known is ignored. -/
def Target.receive (t : Target) : Effect → Target
  | .load table label records =>
    if label ∈ t.labels then t
    else { labels := label :: t.labels, log := t.log ++ [.load table label records] }
  | e => { t with log := t.log ++ [e] }

/-- How one request ends: answered without an error, or failed before or after it took effect. -/
inductive Attempt
  | answered
  | failed (arrived retryable : Bool)

/-- The attempts at a request. None is left if the context is cancelled. -/
def send (e : Effect) : Nat → Target → List Attempt → Target × Bool
  | 0, t, _ => (t, false)
  | _ + 1, t, [] => (t, false)
  | _ + 1, t, .answered :: _ => (t.receive e, true)
  | n + 1, t, .failed arrived retryable :: rest =>
    let t := if arrived then t.receive e else t
    if retryable then send e n t rest else (t, false)

/-- A load is tried four times, another request once. -/
def maxAttempts : Effect → Nat
  | .load .. => 4
  | _ => 1

/-- The requests one after the other, up to one that fails. -/
def execute : Target → List Effect → List (List Attempt) → Target × Bool
  | t, [], _ => (t, true)
  | t, e :: rest, attempts =>
    match send e (maxAttempts e) t (attempts.head?.getD []) with
    | (t, true) => execute t rest attempts.tail
    | (t, false) => (t, false)

/-- A call of `Write`, with what the environment decides. -/
structure Call where
  records : List Record
  orders : Orders
  attempts : List (List Attempt)

section

variable (C : Cfg) (enc : Encoding) (hash : List UInt8 → String)

def effectsOf (call : Call) : List Effect := (plan C enc hash call.orders call.records).effects

/-- The target after the call, and whether `Write` returned nil. -/
def write (t : Target) (call : Call) : Target × Bool :=
  let done := execute t (effectsOf C enc hash call) call.attempts
  (done.1, done.2 && (plan C enc hash call.orders call.records).error.isNone)

/-- Calls one after the other, and whether all of them returned nil. -/
def writes : Target → List Call → Target × Bool
  | t, [] => (t, true)
  | t, call :: rest =>
    let done := write C enc hash t call
    let rest := writes done.1 rest
    (rest.1, done.2 && rest.2)

end

/-! ## What a call that returns nil leaves -/

theorem receive_receive (t : Target) (table label : String) (records : List Record) :
    (t.receive (.load table label records)).receive (.load table label records) =
      t.receive (.load table label records) := by
  simp only [Target.receive]
  split
  · rfl
  · rw [if_pos mem_cons_self]

variable {attempts : List Attempt} {t : Target}

/-- A load that is answered in the end took effect as if it had been sent once. -/
theorem send_load {table label : String} {records : List Record} {n : Nat}
    (h : (send (.load table label records) n t attempts).2 = true) :
    (send (.load table label records) n t attempts).1 = t.receive (.load table label records) := by
  induction n generalizing t attempts with
  | zero => exact absurd h Bool.false_ne_true
  | succ n ih =>
    match attempts with
    | [] => exact absurd h Bool.false_ne_true
    | .answered :: _ => rfl
    | .failed arrived retryable :: rest =>
      simp only [send] at h ⊢
      cases retryable with
      | false => exact absurd h Bool.false_ne_true
      | true =>
        rw [if_pos rfl] at h ⊢
        rw [ih h]
        cases arrived with
        | false => rfl
        | true => exact receive_receive t table label records

theorem send_once {e : Effect} (h : (send e 1 t attempts).2 = true) : (send e 1 t attempts).1 = t.receive e := by
  match attempts with
  | [] => exact absurd h Bool.false_ne_true
  | .answered :: _ => rfl
  | .failed arrived retryable :: rest =>
    cases retryable <;> exact absurd h Bool.false_ne_true

theorem send_ok {e : Effect} (h : (send e (maxAttempts e) t attempts).2 = true) :
    (send e (maxAttempts e) t attempts).1 = t.receive e := by
  cases e with
  | load table label records => exact send_load h
  | _ => exact send_once h

theorem execute_ok {effects : List Effect} {attempts : List (List Attempt)}
    (h : (execute t effects attempts).2 = true) : (execute t effects attempts).1 = effects.foldl Target.receive t := by
  induction effects generalizing t attempts with
  | nil => rfl
  | cons e rest ih =>
    rw [execute] at h ⊢
    split at h
    · rename_i t' heq
      have hsent : t' = t.receive e := by
        have hok := send_ok (congrArg Prod.snd heq)
        rwa [heq] at hok
      rw [foldl_cons, ← hsent]
      exact ih h
    · exact absurd h Bool.false_ne_true

/-- **What calls that return nil leave**: their requests, received in order. -/
theorem writes_ok {C : Cfg} {enc : Encoding} {hash : List UInt8 → String} {calls : List Call}
    (h : (writes C enc hash t calls).2 = true) :
    (writes C enc hash t calls).1 = (calls.flatMap (effectsOf C enc hash)).foldl Target.receive t := by
  induction calls generalizing t with
  | nil => rfl
  | cons call rest ih =>
    simp only [writes, Bool.and_eq_true] at h ⊢
    obtain ⟨hwrite, hrest⟩ := h
    simp only [write, Bool.and_eq_true] at hwrite hrest ⊢
    rw [ih hrest, flatMap_cons, foldl_append, execute_ok hwrite.1]

end OpenEtl.Sink.Doris
