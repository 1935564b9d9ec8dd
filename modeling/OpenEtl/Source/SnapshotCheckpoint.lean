import OpenEtl.Source.MysqlSnapshot

/-!
# Checkpoints of `mysql_snapshot_cdc` (`source/mysql_snapshot_cdc.go:1397-1538`)

| here | there |
| --- | --- |
| `SnapshotPosition` | `snapshotCDCPosition` (:70) |
| `Reader` | the durable side of `snapshotCDCReader`: what the last acknowledged checkpoint said |

The position is built from the records that reached the sink: the table and the cursor of a snapshot record are read
from its Data, so the position depends on what the map holds then (`checkpointFromRecords_congr`).
-/

namespace OpenEtl.Source.SnapshotCdc

inductive Phase
  | snapshot | cdc
deriving DecidableEq, Repr

structure SnapshotPosition where
  phase : Phase := .snapshot
  lastID : Int := 0
  lastIDs : List (String × Int) := []
  lastStrs : List (String × String) := []
  file : String := ""
  pos : UInt32 := 0
deriving DecidableEq, Repr

structure Reader where
  /-- the table of the source's configuration -/
  table : String := ""
  resolvedPKs : String → ResolvedPK
  /-- phase, cursors and binlog position as last acknowledged -/
  durable : SnapshotPosition := {}

/-- `m[k] = v`. -/
def assign {β : Type} (m : List (String × β)) (k : String) (v : β) : List (String × β) :=
  (k, v) :: m.filter (fun p => p.1 != k)

def sourceSnapshotTable (rec : Record) : String :=
  match rec.data.get? "_source_table" with
  | some (.str v) => if trimSpace v = "" then rec.metadata.table else v
  | _ => rec.metadata.table

section

variable (conv : Conv) (floatID : String → Option Int) (r : Reader)

/-- The cursor of a snapshot record, entered into the position. -/
def enterCursor (p : SnapshotPosition) (rec : Record) : Except Err SnapshotPosition :=
  let tableName := sourceSnapshotTable rec
  let rpk := r.resolvedPKs tableName
  let missing : Err :=
    { msg := "mysql_snapshot_cdc snapshot record for " ++ tableName ++ " is missing cursor column " ++ rpk.column }
  let cursor := "mysql_snapshot_cdc snapshot cursor " ++ tableName ++ "." ++ rpk.column
  match rpk.kind with
  | .numeric =>
    match rec.data.get? rpk.column with
    | none => .error missing
    | some value =>
      match parseSnapshotID floatID value with
      | .error e => .error { e with msg := cursor ++ ": " ++ e.msg }
      | .ok id =>
        let lastIDs :=
          match p.lastIDs.lookup tableName with
          | some current => if current < id then assign p.lastIDs tableName id else p.lastIDs
          | none => assign p.lastIDs tableName id
        let reached := (lastIDs.lookup tableName).getD 0
        .ok { p with
          lastIDs
          lastID := if tableName = r.table ∧ p.lastID < reached then reached else p.lastID }
  | .ordered =>
    match rec.data.get? rpk.column with
    | none => .error missing
    | some .null => .error { msg := cursor ++ " is NULL" }
    | some value =>
      let text := cursorString conv value
      .ok { p with
        lastStrs :=
          match p.lastStrs.lookup tableName with
          | some current => if current < text then assign p.lastStrs tableName text else p.lastStrs
          | none => assign p.lastStrs tableName text }
  | .none =>
    -- readers without a resolved key fall back to the record's offset
    let offset := rec.metadata.offset
    if offset = 0 then .error { msg := "mysql_snapshot_cdc cannot determine snapshot cursor for table " ++ tableName }
    else
      .ok { p with
        lastIDs := assign p.lastIDs tableName offset
        lastID := if tableName = r.table ∧ p.lastID < offset then offset else p.lastID }

/-- A pass of the loop of `checkpointFromRecords`. -/
def checkpointStep (p : SnapshotPosition) (rec : Record) : Except Err SnapshotPosition :=
  if rec.metadata.binlogFile ≠ "" then
    if rec.metadata.binlogPos = 0 then
      .error { msg := "mysql_snapshot_cdc CDC record " ++ rec.metadata.binlogFile ++ " has an empty binlog position" }
    else .ok { p with phase := .cdc, file := rec.metadata.binlogFile, pos := rec.metadata.binlogPos }
  else if p.phase = .cdc then .error { msg := "mysql_snapshot_cdc snapshot record arrived after CDC phase" }
  else
    match enterCursor conv floatID r p rec with
    | .error e => .error e
    | .ok p =>
      if p.file = "" ∨ p.pos = 0 then .error { msg := "mysql_snapshot_cdc snapshot handoff position is unavailable" }
      else .ok { p with phase := .snapshot }

def checkpointFromRecords (records : List Record) : Except Err SnapshotPosition :=
  records.foldlM (checkpointStep conv floatID r) r.durable

variable {conv floatID r}

/-! ## What the position depends on -/

theorem sourceSnapshotTable_congr {a b : Record} (hd : a.data.Same b.data) (hm : a.metadata = b.metadata) :
    sourceSnapshotTable a = sourceSnapshotTable b := by
  rw [sourceSnapshotTable, sourceSnapshotTable, hd, hm]

theorem checkpointStep_congr {a b : Record} (hd : a.data.Same b.data) (hm : a.metadata = b.metadata)
    (p : SnapshotPosition) : checkpointStep conv floatID r p a = checkpointStep conv floatID r p b := by
  have henter : enterCursor conv floatID r p a = enterCursor conv floatID r p b := by
    unfold enterCursor
    rw [sourceSnapshotTable_congr hd hm]
    simp only [hd _, hm]
  rw [checkpointStep, checkpointStep, hm, henter]

/-- Records with the same metadata whose maps hold the same give the same position. -/
theorem checkpointFromRecords_congr {as bs : List Record}
    (h : List.Forall₂ (fun a b => a.data.Same b.data ∧ a.metadata = b.metadata) as bs) :
    checkpointFromRecords conv floatID r as = checkpointFromRecords conv floatID r bs := by
  unfold checkpointFromRecords
  generalize r.durable = p
  induction h generalizing p with
  | nil => rfl
  | cons hab _ ih =>
    rw [List.foldlM_cons, checkpointStep_congr hab.1 hab.2]
    exact congrArg _ (funext ih)

end

end OpenEtl.Source.SnapshotCdc
