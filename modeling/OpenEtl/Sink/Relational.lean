import OpenEtl.Lib.Cells
import OpenEtl.Sink.Compact
import Mathlib.Data.List.Sort
import Mathlib.Data.String.Basic

/-!
# The MySQL and PostgreSQL sinks (`sink/mysql.go`, `sink/postgres.go`, `sink/metadata_pk.go`)

| here | there |
| --- | --- |
| `Server`, `Db`, `exec` | the target tables and what SQL says of `INSERT` and `DELETE` |
| `expandKeyChange` | `expandMetadataPKKeyChanges` (metadata_pk.go:156) |
| `statementMode`, `onDuplicate` | the choice of the mode and the clauses of the INSERT (mysql.go:441, 541; postgres.go:424, 454) |
| `groupStatements`, `write`| `MySQLSink.Write` (mysql.go:282), `PostgresSink.Write` (postgres.go:265), for data records |

A table is a function from primary keys to rows; the primary key is its only unique key. What a column does
to a value it is sent, and addition, are parameters. `identity` stands for the checks and the key that
`validateMetadataPKBatch` reads off one record. Auto-created tables and columns are left out: the schema is
the one the statements meet. A failed statement rolls the transaction back, so a write that fails leaves
the tables as they were. The group key of the MySQL sink has the key columns of the target table as a third
part, which the first part determines.
-/

namespace OpenEtl.Sink.Sql

/-! ## Tables -/

structure Schema where
  columns : List String
  key : List String
  key_ne : key ≠ []
  key_columns : ∀ c ∈ key, c ∈ columns
  default : String → Value
  generated : List String

/-- The server: its tables' schemas, the value a column of a table holds when it is sent a value, and
`IFNULL(a, 0) + b`. -/
structure Server where
  schema : String → Schema
  stored : String → String → Value → Value
  plus : Value → Value → Value

abbrev Row := String → Value

abbrev Loc := String × List Value

abbrev Db := Loc → Option Row

inductive Assign
  /-- `c = VALUES(c)`, `c = EXCLUDED.c` -/
  | set (c : String)
  /-- `target = IFNULL(target, 0) + VALUES(source)` -/
  | add (target source : String)

inductive OnDuplicate
  | fail | ignore
  | update (assigns : List Assign)

inductive Statement
  /-- `conflict` holds the columns of an `ON CONFLICT` clause -/
  | insert (table : String) (cols : List String) (rows : List (List Value)) (conflict : Option (List String))
    (onDup : OnDuplicate)
  | delete (table : String) (cols : List String) (rows : List (List Value))

section

variable (S : Server)

def newRow (table : String) (cols : List String) (values : List Value) : Row := fun c =>
  match (cols.zip values).lookup c with
  | some v => S.stored table c v
  | none => (S.schema table).default c

def assign (new old : Row) : Assign → Row
  | .set c => Function.update old c (new c)
  | .add target source => Function.update old target (S.plus (old target) (new source))

/-- What inserting `new` does to the row under its key. -/
def insertCell (onDup : OnDuplicate) (new : Row) : Option Row → Except Err (Option Row)
  | none => .ok (some new)
  | some old =>
    match onDup with
    | .fail => .error { msg := "duplicate key value violates unique constraint" }
    | .ignore => .ok (some old)
    | .update assigns => .ok (some (assigns.foldl (assign S new) old))

def insertChange (table : String) (onDup : OnDuplicate) (new : Row) : Cells.Change Loc (Option Row) Err where
  cell := (table, (S.schema table).key.map new)
  apply := insertCell S onDup new

/-- `ON CONFLICT … DO UPDATE` changes no row twice. -/
def secondTime (conflict : Option (List String)) (onDup : OnDuplicate) (keys : List (List Value)) : Bool :=
  match conflict, onDup with
  | some _, .update _ => !decide keys.Nodup
  | _, _ => false

def exec (db : Db) : Statement → Except Err Db
  | .insert table cols rows conflict onDup =>
    let news := rows.map (newRow S table cols)
    if cols.any fun c => !(S.schema table).columns.contains c then .error { msg := "unknown column" }
    else if conflict.any fun cs => !cs.isPerm (S.schema table).key then
      .error { msg := "there is no unique or exclusion constraint matching the ON CONFLICT specification" }
    else if secondTime conflict onDup (news.map fun new => (S.schema table).key.map new) then
      .error { msg := "ON CONFLICT DO UPDATE command cannot affect row a second time" }
    else Cells.run (news.map (insertChange S table onDup)) db
  | .delete table cols rows =>
    if cols.any fun c => !(S.schema table).columns.contains c then .error { msg := "unknown column" }
    else
      .ok fun l =>
        match db l with
        | none => none
        | some row =>
          if l.1 = table ∧ ∃ values ∈ rows, cols.map row = List.zipWith (S.stored table) cols values then none
          else some row

def execAll (db : Db) : List Statement → Except Err Db
  | [] => .ok db
  | stmt :: stmts =>
    match exec S db stmt with
    | .ok db => execAll db stmts
    | .error e => .error e

end

/-! ## Configuration -/

inductive Dialect
  | mysql | postgres
deriving DecidableEq, Repr

inductive BatchMode
  | insert | upsert | increment
deriving DecidableEq, Repr

/-- What `core.RecordIdentity` says of a record whose metadata declare its key. -/
structure Identity where
  columns : List String
  keyChanged : Bool
  values : Data

structure Cfg where
  dialect : Dialect
  table : String := ""
  batchMode : BatchMode := .insert
  pkColumns : List String := []
  pkColumnsFromMetadata : Bool := false
  identity : Record → Except Err Identity := fun _ => .error { msg := "identity_missing" }
  /-- target column and source field -/
  incrementColumns : List (String × String) := []
  /-- checked by the constructors -/
  increment_ne : batchMode = .increment → incrementColumns ≠ [] := by decide
  insertChunkSize : Nat := 500
  chunk_pos : 0 < insertChunkSize := by decide
  /-- the `DELETE` or `TRUNCATE` before the batch; none once it has run since the start (see `PreWrite`) -/
  preWrite : Option (String → Db → Db) := none
  /-- `normalizeMySQLValue` -/
  normalize : Value → Value := id

/-! ## Records -/

section

variable (C : Cfg) (S : Server)

def targetTable (rec : Record) : String :=
  if trimSpace rec.metadata.table ≠ "" then trimSpace rec.metadata.table else trimSpace C.table

/-- `sort.Strings`. -/
def sortStrings (l : List String) : List String := l.insertionSort (· ≤ ·)

/-- The key columns declared for a table; a second declaration must name the same set. -/
def addColumns (byTable : List (String × List String)) (table : String) (columns : List String) :
    Except Err (List (String × List String)) :=
  if table = "" then .ok byTable
  else if (byTable.lookup table).all fun existing => existing.isPerm columns then .ok ((table, columns) :: byTable)
  else .error { msg := "target_key_set_changed: primary-key columns for table \"" ++ table ++ "\" changed" }

/-- An update that changed its key becomes a delete of the old key and the update. -/
def expandKeyChange (rec : Record) (id : Identity) : List Record :=
  if rec.operation = .update ∧ id.keyChanged = true then
    let oldData := id.columns.foldl
      (fun d c => if d.present c then d else d.set c ((id.values.get? c).getD .null)) (rec.data.merge rec.before)
    [{ rec with operation := .delete, data := oldData, before := oldData }, rec]
  else [rec]

def validateMetadataPKBatch : List (String × List String) → List Record →
    Except Err (List (String × List String) × List Record)
  | byTable, [] => .ok (byTable, [])
  | byTable, rec :: rest =>
    match C.identity rec with
    | .error e => .error e
    | .ok id =>
      match addColumns byTable (targetTable C rec) (sortStrings id.columns) with
      | .error e => .error e
      | .ok byTable =>
        match addColumns byTable (trimSpace rec.metadata.table) (sortStrings id.columns) with
        | .error e => .error e
        | .ok byTable =>
          match validateMetadataPKBatch byTable rest with
          | .error e => .error e
          | .ok (byTable, out) => .ok (byTable, expandKeyChange rec id ++ out)

/-- The key columns of each table and the records to write. -/
def prepare (records : List Record) : Except Err (List (String × List String) × List Record) :=
  if C.pkColumnsFromMetadata then validateMetadataPKBatch C [] records else .ok ([], records)

/-- `pkColumnsForTable`, the key columns compaction asks for. -/
def pkColumnsForTable (byTable : List (String × List String)) (table : String) : List String :=
  if C.pkColumnsFromMetadata then (byTable.lookup table).getD []
  else if C.pkColumns ≠ [] then C.pkColumns
  else ["id"]

/-- The key columns of the statements. Where the metadata name none, the MySQL sink deletes by `id`, the
PostgreSQL sink uses its configured columns. -/
def statementPk (byTable : List (String × List String)) (table : String) : List String :=
  match C.dialect with
  | .mysql =>
    if pkColumnsForTable C byTable table = [] then ["id"] else pkColumnsForTable C byTable table
  | .postgres =>
    let pks := if C.pkColumnsFromMetadata then (byTable.lookup table).getD [] else []
    let pks := if pks = [] then C.pkColumns else pks
    if pks = [] then ["id"] else pks

def columnsOf (rec : Record) : List String :=
  sortStrings ((rec.data.map Prod.fst).eraseDups.filter fun c =>
    !(S.schema (targetTable C rec)).generated.contains c)

def sqlValue (v : Value) : Value :=
  match C.dialect with
  | .mysql => C.normalize v
  | .postgres => v

def valuesOf (rec : Record) : List Value := (columnsOf C S rec).map fun c => sqlValue C ((rec.data.get? c).getD .null)

/-! ## Statements -/

/-- The mode of an INSERT with rows of these operations. Only the MySQL sink keeps `increment` for updates. -/
def statementMode (ops : List OpType) : BatchMode :=
  match C.dialect with
  | .mysql => if C.batchMode ≠ .increment ∧ .update ∈ ops then .upsert else C.batchMode
  | .postgres => if .update ∈ ops then .upsert else C.batchMode

/-- The assignments of `increment` mode. -/
def incrementAssigns (pk cols : List String) : List Assign :=
  (C.incrementColumns.map fun p => .add p.1 (if p.2 = "" then p.1 else p.2)) ++
    (cols.filter fun c => c ∉ pk ∧ c ∉ C.incrementColumns.map Prod.fst).map .set

/-- `DO UPDATE SET`, or `DO NOTHING` if there is nothing to set. -/
def doUpdate : List Assign → OnDuplicate
  | [] => .ignore
  | assigns => .update assigns

/-- The conflict clause of an INSERT. The MySQL sink leaves its configured key columns out of an increment,
whatever the metadata declare, and sets all columns in an upsert. -/
def onDuplicate (pk cols : List String) (mode : BatchMode) : Option (List String) × OnDuplicate :=
  match C.dialect, mode with
  | .mysql, .insert => (none, .ignore)
  | .mysql, .upsert => (none, .update (cols.map .set))
  | .mysql, .increment => (none, .update (incrementAssigns C C.pkColumns cols))
  | .postgres, .insert => (none, .fail)
  | .postgres, .upsert => (some pk, doUpdate ((cols.filter (· ∉ pk)).map .set))
  | .postgres, .increment => (some pk, doUpdate (incrementAssigns C pk cols))

/-- The group of a record: its table and its columns, joined by commas. -/
def groupKey (rec : Record) : String × String := (targetTable C rec, joinStr "," (columnsOf C S rec))

/-- `for offset := 0; offset < len(rows); offset += insertChunkSize`. -/
def chunks {α : Type*} (size : Nat) : Nat → List α → List (List α)
  | 0, _ => []
  | fuel + 1, rows => if rows.isEmpty then [] else rows.take size :: chunks size fuel (rows.drop size)

def chunked {α : Type*} (rows : List α) : List (List α) := chunks C.insertChunkSize rows.length rows

/-- The statements of a group: its rows, then its deletes. -/
def groupStatements (byTable : List (String × List String)) : List Record → Except Err (List Statement)
  | [] => .ok []
  | first :: rest =>
    let table := targetTable C first
    let cols := columnsOf C S first
    let pk := statementPk C byTable table
    let live := (first :: rest).filter (·.operation ≠ .delete)
    let dead := (first :: rest).filter (·.operation = .delete)
    let clause := onDuplicate C pk cols (statementMode C (live.map (·.operation)))
    match dead.mapM fun r => resolveDeleteKeys r pk with
    | .error e => .error e
    | .ok deleteRows =>
      if live ≠ [] ∧ cols = [] then
        .error { msg := "batch insert " ++ table ++ ": record has no writable columns" }
      else
        .ok ((chunked C (live.map (valuesOf C S))).map (fun rows => .insert table cols rows clause.1 clause.2) ++
          (chunked C deleteRows).map fun rows => .delete table pk rows)

/-- The groups of a batch, in the order they first appear. -/
def groups (records : List Record) : List (List Record) :=
  (records.map (groupKey C S)).eraseDups.map fun k => records.filter (groupKey C S · = k)

def runPreWrite (db : Db) (records : List Record) : Db :=
  match C.preWrite with
  | none => db
  | some action =>
    let table := if C.table ≠ "" then C.table else
      ((records.map (targetTable C)).find? (· ≠ "")).getD ""
    if table ≠ "" then action table db else db

def write (db : Db) (records : List Record) : Except Err Db :=
  match prepare C records with
  | .error e => .error e
  | .ok (byTable, expanded) =>
    if expanded = [] then .ok db
    else
      match (groups C S (compactRecordsByPK (pkColumnsForTable C byTable) expanded)).mapM
          (groupStatements C S byTable) with
      | .error e => .error e
      | .ok statements => execAll S (runPreWrite C db expanded) statements.flatten

end

end OpenEtl.Sink.Sql
