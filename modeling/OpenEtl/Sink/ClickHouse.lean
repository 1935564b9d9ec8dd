import OpenEtl.Core.Errors
import OpenEtl.Core.SourceOrder

/-!
# The rows a ClickHouse sink writes (`sink/clickhouse.go`)

| here | there |
| --- | --- |
| `tableBatch`, `write` | the grouping and the block writes of `Write` (:605-690) |

A row is given by what the server is sent for each column. The value conversions to the types of the
target columns are left out, and so are the reads of the target's schema. DDL records are taken out of a
batch before anything else. `pkByTable` stands for what `validateMetadataPKBatch` derives from the
metadata of the records, on which the records of a table agree.
-/

namespace OpenEtl.Sink.ClickHouse

open List

inductive VersionMode
  | sourceOrder | append
deriving DecidableEq, Repr

theorem default_columns_ne : "_version" ≠ "_is_deleted" := by decide

structure Cfg where
  database : String := ""
  table : String := ""
  tableTemplate : String := ""
  versionMode : VersionMode := .sourceOrder
  versionCol : String := "_version"
  deleteCol : String := "_is_deleted"
  /-- checked by the constructor (:311) -/
  columns_ne : versionCol ≠ deleteCol := by first | exact OpenEtl.Sink.ClickHouse.default_columns_ne | decide
  pkColumns : List String := []
  pkByTable : String → List String := fun _ => []

/-- `strings.ReplaceAll` with a text that is not empty; `skip` characters belong to the last match. -/
def replaceAll (old new : List Char) : Nat → List Char → List Char
  | _, [] => []
  | skip + 1, _ :: cs => replaceAll old new skip cs
  | 0, c :: cs =>
    if old.isPrefixOf (c :: cs) then new ++ replaceAll old new (old.length - 1) cs
    else c :: replaceAll old new 0 cs

section

variable (C : Cfg)

def resolveTable (rec : Record) : Except Err String :=
  if C.tableTemplate = "" then .ok (if C.table ≠ "" then C.table else rec.metadata.table)
  else if containsStr C.tableTemplate "\x7bdb\x7d" ∧ rec.metadata.database = "" then
    .error
      { msg := "clickhouse sink: table_template \"" ++ C.tableTemplate ++
          "\" references \x7bdb\x7d but record has no database metadata" }
  else if containsStr C.tableTemplate "\x7btable\x7d" ∧ rec.metadata.table = "" then
    .error
      { msg := "clickhouse sink: table_template \"" ++ C.tableTemplate ++
          "\" references \x7btable\x7d but record has no table metadata" }
  else
    let withDB := replaceAll "\x7bdb\x7d".toList rec.metadata.database.toList 0 C.tableTemplate.toList
    let table := String.ofList (replaceAll "\x7btable\x7d".toList rec.metadata.table.toList 0 withDB)
    if table = "" then
      .error { msg := "clickhouse sink: table_template \"" ++ C.tableTemplate ++ "\" resolved to empty" }
    else .ok table

def primaryKeyColumns (table : String) : List String :=
  if C.pkByTable table ≠ [] then C.pkByTable table
  else if C.pkColumns ≠ [] then C.pkColumns
  else ["id"]

/-! ## Preparing -/

def deleteFlag (deleted : Bool) : Value := .int .uint8 (if deleted then 1 else 0)

/-- The record with its version and delete columns. -/
def stamped (rec : Record) (version : Nat) (deleted : Bool) : Record :=
  { rec with
    data := (rec.data.set C.versionCol (.int .uint64 version)).set C.deleteCol (deleteFlag deleted) }

/-- Whether an update moved the key, as far as the before image says. -/
def keyChanged (rec : Record) (cols : List String) : Bool :=
  cols.any fun c =>
    match rec.before.get? c, rec.data.get? c with
    | some original, some after => fmtV original != fmtV after
    | _, _ => false

/-- The tombstone of the old key, at the version of the update, if the key changed. -/
def keyChangeTombstone (rec : Record) (version : Nat) : Except Err (Option Record) :=
  match resolveTable C rec with
  | .error e => .error e
  | .ok table =>
    let pkCols := primaryKeyColumns C table
    let oldData := rec.data.merge rec.before
    match pkCols.find? fun c => !rec.data.present c || !oldData.present c with
    | some column =>
      .error
        { msg := "clickhouse source_order UPDATE for table \"" ++ table ++
            "\" cannot compare primary-key column \"" ++ column ++ "\" across before/after images" }
    | none =>
      if keyChanged rec pkCols then
        .ok (some (stamped C { rec with operation := .delete, data := oldData } version true))
      else .ok none

def opText : OpType → String
  | .unset => ""
  | .insert => "INSERT"
  | .update => "UPDATE"
  | .delete => "DELETE"
  | .ddl => "DDL"

def reasonText : Option SourceOrderReason → String
  | none => ""
  | some .unknownSource => "source_type_unknown"
  | some .unsupportedSource => "source_order_unsupported"
  | some .positionMissing => "source_position_missing"
  | some .positionInvalid => "source_position_invalid"
  | some .positionOverflow => "source_position_overflow"
  | some .phaseInvalid => "source_phase_invalid"
  | some .numericUnavailable => "numeric_version_unavailable"

/-- The metadata fields `clickHouseSourceOrderError` asks for. -/
def requiredFields (m : Metadata) (sourceType : String) : String :=
  if sourceType = "mysql_cdc" then "metadata.binlog_file and metadata.binlog_pos"
  else if sourceType = "mysql_snapshot_cdc" then
    if toLower m.sourcePhase = "snapshot" ∨ m.binlogFile = "" then
      "metadata.snapshot_handoff_file and metadata.snapshot_handoff_pos for snapshot rows"
    else "metadata.binlog_file and metadata.binlog_pos for CDC rows"
  else if sourceType = "postgres_cdc" then
    "metadata.lsn (PostgreSQL initial snapshot rows currently have no numeric source order)"
  else if sourceType = "kafka" then "metadata.partition and metadata.offset"
  else if sourceType = "mysql_batch" then "metadata.cursor and metadata.cursor_kind=numeric"
  else "metadata.source_type and a connector-owned durable position"

def clickHouseSourceOrderError (rec : Record) (order : SourceOrderResult) : Err :=
  let named := toLower (trimSpace rec.metadata.sourceType)
  let sourceType := if named = "" then toLower (trimSpace rec.metadata.source) else named
  { msg := "clickhouse version_mode=source_order cannot derive a UInt64 version for source_type=\"" ++
      sourceType ++ "\" table=\"" ++ rec.metadata.table ++ "\": reason=" ++ reasonText order.reason ++
      "; required fields: " ++ requiredFields rec.metadata sourceType ++
      "; do not fall back to wall clock, and use version_mode=append only for INSERT-only data" }

def appendModeError (rec : Record) : Err :=
  { msg := "clickhouse version_mode=append accepts INSERT-only records; got operation " ++
      opText rec.operation ++ " for " ++ rec.metadata.database ++ "." ++ rec.metadata.table ++
      "; use version_mode=source_order with source position metadata for mutable CDC data" }

/-- What `prepareDataRecords` makes of one record. -/
def prepareRecord (rec : Record) : Except Err (List Record) :=
  match C.versionMode with
  | .append =>
    if rec.operation = .unset ∨ rec.operation = .insert then .ok [rec]
    else .error (appendModeError rec)
  | .sourceOrder =>
    let order := sourceOrder rec
    if !order.available || !order.versionAvailable then
      .error (clickHouseSourceOrderError rec order)
    else
      match rec.operation with
      | .delete => .ok [stamped C rec order.version true]
      | .update =>
        let prepared := stamped C rec order.version false
        match keyChangeTombstone C prepared order.version with
        | .error e => .error e
        | .ok none => .ok [prepared]
        | .ok (some tombstone) => .ok [prepared, tombstone]
      | _ => .ok [stamped C rec order.version false]

def prepareDataRecords : List Record → Except Err (List Record)
  | [] => .ok []
  | rec :: rest =>
    match prepareRecord C rec with
    | .error e => .error e
    | .ok out =>
      match prepareDataRecords rest with
      | .error e => .error e
      | .ok outs => .ok (out ++ outs)

/-! ## Writing -/

structure Row where
  /-- the printed values of the primary-key columns -/
  key : List String
  version : Nat
  columns : String → Option Value

/-- The version an insert carries; `append` mode has none. -/
def rowVersion (rec : Record) : Nat :=
  match rec.data.get? C.versionCol with
  | some (.int _ v) => v.toNat
  | _ => 0

def rowKey (table : String) (rec : Record) : List String :=
  (primaryKeyColumns C table).map fun c => fmtV ((rec.data.get? c).getD .null)

/-- A row of an insert or update block: every column of the record. -/
def liveRow (table : String) (rec : Record) : Row where
  key := rowKey C table rec
  version := rowVersion C rec
  columns c := rec.data.get? c

/-- The columns `writeDeletes` selects. -/
def tombstoneColumns (table : String) : List String := C.versionCol :: C.deleteCol :: primaryKeyColumns C table

def tombstoneRow (table : String) (rec : Record) : Row where
  key := rowKey C table rec
  version := rowVersion C rec
  columns c := if c ∈ tombstoneColumns C table then rec.data.get? c else none

/-- The records of a table by operation, in the order of the batch. -/
structure TableBatch where
  inserts : List Record
  updates : List Record
  deletes : List Record

def inTable (table : String) (rec : Record) : Bool :=
  match resolveTable C rec with
  | .ok t => t == table
  | .error _ => false

def tableBatch (prepared : List Record) (table : String) : TableBatch where
  inserts := prepared.filter fun r => inTable C table r && r.operation != .update && r.operation != .delete
  updates := prepared.filter fun r => inTable C table r && r.operation == .update
  deletes := prepared.filter fun r => inTable C table r && r.operation == .delete

/-- The inserts, updates and deletes blocks of a table, in the order they are sent. -/
def blocks (prepared : List Record) (table : String) : List (List Row) :=
  let tb := tableBatch C prepared table
  [tb.inserts.map (liveRow C table), tb.updates.map (liveRow C table), tb.deletes.map (tombstoneRow C table)]

/-- What makes `Write` fail for a prepared record: its table does not resolve or has no name, or it is a
tombstone that lacks one of the columns `writeDeletes` needs. -/
def recordError (rec : Record) : Option Err :=
  match resolveTable C rec with
  | .error e => some e
  | .ok table =>
    if table = "" then some { msg := "cannot write records without a table name" }
    else if rec.operation = .delete then
      ((tombstoneColumns C table).find? fun c => (rec.data.get? c).isNone).map fun c =>
        { msg := "clickhouse tombstone for " ++ C.database ++ "." ++ table ++
            " is missing required column \"" ++ c ++ "\"" }
    else none

/-- `Write`, when the server takes every block: the rows sent to each table. -/
def write (records : List Record) : Except Err (String → List Row) :=
  match prepareDataRecords C (records.filter (·.operation ≠ .ddl)) with
  | .error e => .error e
  | .ok prepared =>
    match prepared.findSome? (recordError C) with
    | some e => .error e
    | none => .ok fun table => (blocks C prepared table).flatten

end

/-! ## The rows of a batch are the rows of its records -/

section

variable {C : Cfg}

def rowOf (C : Cfg) (table : String) (rec : Record) : Row :=
  if rec.operation = .delete then tombstoneRow C table rec else liveRow C table rec

variable {row : Row} {table : String}

theorem mem_blocks {prepared : List Record} :
    row ∈ (blocks C prepared table).flatten ↔
      ∃ p ∈ prepared, inTable C table p = true ∧ rowOf C table p = row := by
  simp only [blocks, tableBatch, flatten_cons, flatten_nil, append_nil, mem_append,
    mem_map, mem_filter, Bool.and_eq_true, bne_iff_ne, beq_iff_eq]
  constructor
  · rintro (⟨p, ⟨hp, ⟨ht, _⟩, hd⟩, rfl⟩ | ⟨p, ⟨hp, ht, hu⟩, rfl⟩ | ⟨p, ⟨hp, ht, hd⟩, rfl⟩)
    · exact ⟨p, hp, ht, by simp [rowOf, hd]⟩
    · exact ⟨p, hp, ht, by simp [rowOf, hu]⟩
    · exact ⟨p, hp, ht, by simp [rowOf, hd]⟩
  · rintro ⟨p, hp, ht, rfl⟩
    by_cases hd : p.operation = .delete
    · exact .inr (.inr ⟨p, ⟨hp, ht, hd⟩, by simp [rowOf, hd]⟩)
    · by_cases hu : p.operation = .update
      · exact .inr (.inl ⟨p, ⟨hp, ht, hu⟩, by simp [rowOf, hd]⟩)
      · exact .inl ⟨p, ⟨hp, ⟨ht, hu⟩, hd⟩, by simp [rowOf, hd]⟩

/-- The records made of an accepted record. -/
def preparedOf (C : Cfg) (rec : Record) : List Record :=
  if rec.operation = .ddl then []
  else
    match prepareRecord C rec with
    | .ok out => out
    | .error _ => []

/-- What a record needs for a batch with it to be written. -/
def Accepted (C : Cfg) (rec : Record) : Prop :=
  rec.operation = .ddl ∨ ∃ out, prepareRecord C rec = .ok out ∧ ∀ p ∈ out, recordError C p = none

variable {records : List Record}

theorem prepareDataRecords_eq (h : ∀ rec ∈ records, Accepted C rec) :
    prepareDataRecords C (records.filter (·.operation ≠ .ddl)) = .ok (records.flatMap (preparedOf C)) := by
  induction records with
  | nil => rfl
  | cons rec records ih =>
    have ih := ih fun r hr => h r (mem_cons_of_mem _ hr)
    by_cases hddl : rec.operation = .ddl
    · rw [filter_cons_of_neg (by simpa using hddl), ih]
      simp [preparedOf, hddl]
    · obtain hd | ⟨out, hout, _⟩ := h rec mem_cons_self
      · exact absurd hd hddl
      · rw [filter_cons_of_pos (by simpa using hddl), prepareDataRecords, ih]
        simp [preparedOf, hddl, hout]

/-- A batch of accepted records is written. -/
theorem write_of_accepted (h : ∀ rec ∈ records, Accepted C rec) :
    write C records = .ok fun table => (blocks C (records.flatMap (preparedOf C)) table).flatten := by
  rw [write, prepareDataRecords_eq h]
  have hnone : (records.flatMap (preparedOf C)).findSome? (recordError C) = none := by
    rw [findSome?_eq_none_iff]
    intro p hp
    obtain ⟨rec, hrec, hp⟩ := mem_flatMap.mp hp
    unfold preparedOf at hp
    split at hp
    · simp at hp
    · rename_i hddl
      obtain hd | ⟨out, hout, herr⟩ := h rec hrec
      · exact absurd hd hddl
      · rw [hout] at hp
        exact herr p hp
  simp [hnone]

variable {rec : Record}

/-- A record is accepted if it is written as a batch of its own. -/
theorem accepted_iff : Accepted C rec ↔ (write C [rec]).isOk = true := by
  constructor
  · intro h
    rw [write_of_accepted (by simpa using h)]
    rfl
  · intro h
    by_cases hddl : rec.operation = .ddl
    · exact .inl hddl
    · right
      unfold write at h
      rw [filter_cons_of_pos (by simpa using hddl), filter_nil] at h
      cases hout : prepareRecord C rec with
      | error e =>
        simp [prepareDataRecords, hout, Except.toBool] at h
      | ok out =>
        refine ⟨out, rfl, ?_⟩
        simp only [prepareDataRecords, hout] at h
        cases hfind : out.findSome? (recordError C) with
        | some e => simp [hfind, Except.toBool] at h
        | none => exact findSome?_eq_none_iff.mp hfind

/-- The rows a table is sent by the write of a batch. -/
def rowsWritten (C : Cfg) (table : String) (records : List Record) : List Row :=
  match write C records with
  | .ok rows => rows table
  | .error _ => []

def rowsOf (C : Cfg) (table : String) (rec : Record) : List Row := rowsWritten C table [rec]

theorem rowsWritten_of_accepted (h : ∀ rec ∈ records, Accepted C rec) (table : String) :
    rowsWritten C table records = (blocks C (records.flatMap (preparedOf C)) table).flatten := by
  rw [rowsWritten, write_of_accepted h]

theorem rowsOf_of_accepted (h : Accepted C rec) (table : String) :
    rowsOf C table rec = (blocks C (preparedOf C rec) table).flatten := by
  rw [rowsOf, rowsWritten_of_accepted (by simpa using h)]
  simp

theorem mem_rowsWritten (h : ∀ rec ∈ records, Accepted C rec) :
    row ∈ rowsWritten C table records ↔ ∃ rec ∈ records, row ∈ rowsOf C table rec := by
  rw [rowsWritten_of_accepted h, mem_blocks]
  constructor
  · rintro ⟨p, hp, ht, rfl⟩
    obtain ⟨rec, hrec, hp⟩ := mem_flatMap.mp hp
    refine ⟨rec, hrec, ?_⟩
    rw [rowsOf_of_accepted (h rec hrec), mem_blocks]
    exact ⟨p, hp, ht, rfl⟩
  · rintro ⟨rec, hrec, hrow⟩
    rw [rowsOf_of_accepted (h rec hrec), mem_blocks] at hrow
    obtain ⟨p, hp, ht, rfl⟩ := hrow
    exact ⟨p, mem_flatMap.mpr ⟨rec, hrec, hp⟩, ht, rfl⟩

end

end OpenEtl.Sink.ClickHouse
