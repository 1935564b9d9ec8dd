import Mathlib.Data.Prod.Lex
import OpenEtl.Core.SourceOrder
import OpenEtl.Lib.Trace

/-!
# The records of a MySQL binlog (`source/mysql_cdc.go`)

| here | there |
| --- | --- |
| `Reader` | `mysqlCDCRecordReader`: the last position the callbacks saw |
| `Event` | the canal callbacks that move the position or emit records |
| `onXID`, `onRotate`, `onPosSynced`, `onDDL` | the callbacks of these names (:585-650) |

A row event does not move the reader's position, so every record of a transaction carries the position at which the
transaction before it ended (`position_onRow`).
-/

namespace OpenEtl.Source.Cdc

open List

inductive Action
  | insert | update | delete
deriving DecidableEq, Repr

/-- `schema.Table`; the key columns are indexes. -/
structure Table where
  name : String
  columns : List String
  pkColumns : List Nat

structure RowsEvent where
  table : Table
  action : Action
  rows : List (List Value)

structure Reader where
  name : String := ""
  database : String := ""
  lastPosName : String := ""
  lastPos : UInt32 := 0
  lastGTID : String := ""

inductive Event
  | rows (e : RowsEvent)
  | xid (name : String) (pos : UInt32)
  | rotate (name : String) (pos : UInt32)
  | posSynced (name : String) (pos : UInt32) (gtid : Option String)
  | ddl (query : String) (name : String) (pos : UInt32)

/-- The text functions of the handler: `json.Marshal` of a key object and `extractDDLTable`. -/
structure Texts where
  marshal : Data → Option String
  extractDDLTable : String → String

def rowToMap (columns : List String) (row : List Value) : Data := columns.zip row

def pkColumnNames (t : Table) : List String := t.pkColumns.filterMap (t.columns[·]?)

section

variable (T : Texts)

def metadataKeyJSONMulti (pkCols : List String) (row : Data) : String :=
  let obj := pkCols.filterMap fun c => if row.present c then (row.get? c).map (c, ·) else none
  if obj = [] then "" else (T.marshal obj).getD ""

def rowMetadata (r : Reader) (t : Table) (key : Data) : Metadata :=
  { source := r.name, sourceType := "mysql_cdc", sourcePhase := "cdc"
    database := r.database, table := t.name
    binlogFile := r.lastPosName, binlogPos := r.lastPos, gtid := r.lastGTID
    primaryKeyColumns := pkColumnNames t
    key := metadataKeyJSONMulti T (pkColumnNames t) key }

def rowRecord (r : Reader) (t : Table) (op : OpType) (row : List Value) : Record :=
  let data := rowToMap t.columns row
  { operation := op, data, metadata := rowMetadata T r t data }

/-- The rows of an update event come in pairs; a before image at the end may have no after image. -/
def updateRecords (r : Reader) (t : Table) : List (List Value) → List Record
  | [] => []
  | [before] =>
    let before := rowToMap t.columns before
    [{ operation := .update, before, metadata := rowMetadata T r t before }]
  | before :: after :: rest =>
    let before := rowToMap t.columns before
    let data := rowToMap t.columns after
    -- the key comes from the before image unless that is empty
    let key := if before = [] then data else before
    { operation := .update, data, before, metadata := rowMetadata T r t key } :: updateRecords r t rest

def onRow (r : Reader) (e : RowsEvent) : List Record :=
  match e.action with
  | .insert => e.rows.map (rowRecord T r e.table .insert)
  | .update => updateRecords T r e.table e.rows
  | .delete => e.rows.map (rowRecord T r e.table .delete)

def onXID (r : Reader) (name : String) (pos : UInt32) : Reader := { r with lastPosName := name, lastPos := pos }

def onRotate (r : Reader) (name : String) (pos : UInt32) : Reader := { r with lastPosName := name, lastPos := pos }

def onPosSynced (r : Reader) (name : String) (pos : UInt32) (gtid : Option String) : Reader :=
  { r with lastPosName := name, lastPos := pos, lastGTID := gtid.getD r.lastGTID }

def onDDL (r : Reader) (query name : String) (pos : UInt32) : Reader × List Record :=
  if query = "" then (r, [])
  else
    ({ r with lastPosName := name, lastPos := pos },
      [{ operation := .ddl
         metadata :=
          { source := r.name, sourceType := "mysql_cdc", sourcePhase := "cdc"
            database := r.database, table := T.extractDDLTable query
            binlogFile := name, binlogPos := pos } }])

def handle (r : Reader) : Event → Reader × List Record
  | .rows e => (r, onRow T r e)
  | .xid name pos => (onXID r name pos, [])
  | .rotate name pos => (onRotate r name pos, [])
  | .posSynced name pos gtid => (onPosSynced r name pos gtid, [])
  | .ddl query name pos => onDDL T r query name pos

/-- The records of a log, in source order. -/
def records (r : Reader) : List Event → List Record
  | [] => []
  | ev :: log => (handle T r ev).2 ++ records (handle T r ev).1 log

end

/-! ## Positions -/

/-- A binlog position: the number of the file, then the offset in it. -/
def binlogPosition (file : String) (pos : UInt32) : Nat ×ₗ Nat :=
  toLex ((parseBinlogFileSequence file).getD 0, pos.toNat)

def Reader.position (r : Reader) : Nat ×ₗ Nat := binlogPosition r.lastPosName r.lastPos

def position (rec : Record) : Nat ×ₗ Nat := binlogPosition rec.metadata.binlogFile rec.metadata.binlogPos

/-- No callback moves the reader back. -/
def Forward (T : Texts) : Reader → List Event → Prop :=
  Trace.Steps (fun r ev => r.position ≤ (handle T r ev).1.position) fun r ev => (handle T r ev).1

section

variable {T : Texts} {r : Reader} {rec : Record}

theorem position_updateRecords {t : Table} {rows : List (List Value)} (h : rec ∈ updateRecords T r t rows) :
    rec.metadata.sourceType = "mysql_cdc" ∧ position rec = r.position := by
  fun_induction updateRecords T r t rows with
  | case1 => exact absurd h not_mem_nil
  | case2 before =>
    obtain rfl := mem_singleton.mp h
    exact ⟨rfl, rfl⟩
  | case3 before after rest before' data key ih =>
    rcases mem_cons.mp h with rfl | h
    · exact ⟨rfl, rfl⟩
    · exact ih h

/-- Every record of a row event carries the position the reader had before it. -/
theorem position_onRow {e : RowsEvent} (h : rec ∈ onRow T r e) :
    rec.metadata.sourceType = "mysql_cdc" ∧ position rec = r.position := by
  unfold onRow at h
  split at h
  · obtain ⟨row, _, rfl⟩ := mem_map.mp h
    exact ⟨rfl, rfl⟩
  · exact position_updateRecords h
  · obtain ⟨row, _, rfl⟩ := mem_map.mp h
    exact ⟨rfl, rfl⟩

/-- A callback's records carry the position the reader has after it. -/
theorem position_handle {ev : Event} (h : rec ∈ (handle T r ev).2) :
    rec.metadata.sourceType = "mysql_cdc" ∧ position rec = (handle T r ev).1.position := by
  cases ev with
  | rows e => exact position_onRow h
  | xid name pos => exact absurd h not_mem_nil
  | rotate name pos => exact absurd h not_mem_nil
  | posSynced name pos gtid => exact absurd h not_mem_nil
  | ddl query name pos =>
    simp only [handle, onDDL] at h ⊢
    split at h
    · exact absurd h not_mem_nil
    · rename_i hq
      obtain rfl := mem_singleton.mp h
      rw [if_neg hq]
      exact ⟨rfl, rfl⟩

variable {log : List Event}

theorem records_sourceType (h : rec ∈ records T r log) : rec.metadata.sourceType = "mysql_cdc" := by
  induction log generalizing r with
  | nil => exact absurd h not_mem_nil
  | cons ev log ih =>
    rcases mem_append.mp h with h | h
    · exact (position_handle h).1
    · exact ih h

theorem le_position (hf : Forward T r log) (h : rec ∈ records T r log) : r.position ≤ position rec := by
  induction log generalizing r with
  | nil => exact absurd h not_mem_nil
  | cons ev log ih =>
    rcases mem_append.mp h with h | h
    · rw [(position_handle h).2]
      exact hf.1
    · exact le_trans hf.1 (ih hf.2 h)

/-- **Along a binlog positions never decrease.** -/
theorem records_sorted (hf : Forward T r log) : (records T r log).Pairwise fun a b => position a ≤ position b := by
  induction log generalizing r with
  | nil => exact List.Pairwise.nil
  | cons ev log ih =>
    refine pairwise_append.mpr ⟨?_, ih hf.2, ?_⟩
    · refine pairwise_of_forall_mem_list fun a ha b hb => ?_
      rw [(position_handle ha).2, (position_handle hb).2]
    · intro a ha b hb
      rw [(position_handle ha).2]
      exact le_position hf.2 hb

/-- The source order of a record is its binlog position. -/
theorem sourceOrder_position (hst : rec.metadata.sourceType = "mysql_cdc")
    (h : (sourceOrder rec).versionAvailable = true) :
    position rec = toLex ((sourceOrder rec).major, (sourceOrder rec).minor) := by
  have hc : canonicalRecordSourceType rec.metadata = "mysql_cdc" := by
    have htext : toLower (trimSpace "mysql_cdc") = "mysql_cdc" := by decide +kernel
    simp [canonicalRecordSourceType, hst, htext]
  unfold sourceOrder at h ⊢
  simp only [hc, if_true] at h ⊢
  unfold position binlogPosition mysqlBinlogOrder at *
  cases hseq : parseBinlogFileSequence rec.metadata.binlogFile with
  | none => simp [hseq, unavailableOrder] at h
  | some sequence =>
    simp only [hseq] at h ⊢
    split at h
    · simp [unavailableOrder] at h
    · rename_i hpos
      split at h
      · simp [unavailableOrder] at h
      · rename_i hmax
        rw [if_neg hpos, if_neg hmax]
        rfl

theorem before_iff_position_lt {a b : Record} (ha : a.metadata.sourceType = "mysql_cdc")
    (hb : b.metadata.sourceType = "mysql_cdc") (hva : (sourceOrder a).versionAvailable = true)
    (hvb : (sourceOrder b).versionAvailable = true) :
    (sourceOrder a).Before (sourceOrder b) ↔ position a < position b := by
  rw [sourceOrder_position ha hva, sourceOrder_position hb hvb]
  simp only [SourceOrderResult.Before, Prod.Lex.toLex_lt_toLex]

end

end OpenEtl.Source.Cdc
