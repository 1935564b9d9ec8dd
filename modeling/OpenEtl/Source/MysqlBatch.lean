import OpenEtl.Core.Errors
import OpenEtl.Lib.Bytes

/-!
# The `mysql_batch` reader (`source/mysql_batch.go`)

| here | there |
| --- | --- |
| `openCursor` | `ValidateCheckpoint`, and the cursor `Open` restores (:182) |

The query text is left out; what the database answers to `WHERE col > cursorValue() ORDER BY col LIMIT n`
is a `Page`. Rows come with their values as `normalizeValue` leaves them.
-/

namespace OpenEtl.Source

/-- The two dynamic types of `lastCursor`. -/
inductive Cursor
  | int (n : Int)
  | str (s : String)
deriving DecidableEq, Repr

/-- Conversions of Go values that are kept here as the text they print as. -/
structure Conv where
  /-- `int64(v)` of a float -/
  trunc : String → Int
  /-- `Format("2006-01-02 15:04:05.000000")` of a time -/
  wallClock : String → String

/-- `mysqlBatchPosition`. -/
structure Position where
  lastID : Int := 0
  lastCursor : Option String := none
deriving DecidableEq, Repr

structure MySQLBatchReader where
  sourceName : String := ""
  database : String := ""
  table : String := ""
  pkCol : String := "id"
  /-- a custom query is configured -/
  customQuery : Bool := false
  cursorCol : String := ""
  limit : Nat := 5000
  /-- the driver reports a type for the cursor column, and whether it is an integer type -/
  declaredNumeric : Option Bool := none
  lastCursor : Option Cursor := none
  done : Bool := false
deriving DecidableEq, Repr

/-- The answer to a query: an error, or rows, and maybe an error of `Scan` after them. -/
inductive Page
  | refused (e : Err)
  | rows (rows : List Data) (scanErr : Option Err)

section

variable (conv : Conv)

/-! ## Cursor and position -/

/-- What a key value makes of the cursor; nothing for the types `updateCursor` does not know. -/
def cursorOf : Value → Option Cursor
  | .int .int n | .int .int32 n | .int .int64 n => some (.int n)
  | .float t => some (.int (conv.trunc t))
  | .str s => some (.str s)
  | .bytes bs => some (.str (Bytes.text bs))
  | _ => none

def updateCursor (r : MySQLBatchReader) (v : Value) : MySQLBatchReader :=
  match cursorOf conv v with
  | some c => { r with lastCursor := some c }
  | none => r

/-- The query parameter; no cursor is passed as the empty string. -/
def cursorValue : Option Cursor → Value
  | none => .str ""
  | some (.int n) => .int64 n
  | some (.str s) => .str s

def position (r : MySQLBatchReader) : Position :=
  match r.lastCursor with
  | some (.str s) => { lastCursor := some s }
  | some (.int n) => { lastID := n }
  | none => {}

/-- `CheckpointForRecord`: the reader's position, whatever the record. -/
def checkpointForRecord (r : MySQLBatchReader) (_rec : Record) : Position := position r

/-- The cursor with which `Open` starts from a checkpoint, once `ValidateCheckpoint` has let it pass. -/
def openCursor (pos : Position) : Except Err (Option Cursor) :=
  if pos.lastID < 0 then
    .error { msg := "checkpoint field \"last_id\" must be >= 0, got " ++ toString pos.lastID }
  else
    match pos.lastCursor with
    | some s => .ok (some (.str s))
    | none => .ok (if pos.lastID ≠ 0 then some (.int pos.lastID) else none)

/-! ## Reading -/

/-- `cursorColumn` of `ReadBatch`. -/
def MySQLBatchReader.cursorColumn (r : MySQLBatchReader) : String :=
  if r.customQuery then r.cursorCol else r.pkCol

def cursorString : Value → String
  | .null => ""
  | .str s => s
  | .bytes bs => Bytes.text bs
  | .time t => conv.wallClock t
  | v => fmtV v

/-- `mysqlBatchCursorMetadata`. -/
def cursorMetadata (r : MySQLBatchReader) : Value → String × CursorKind
  | .null => ("", .unset)
  | v =>
    let numeric := r.declaredNumeric.getD
      (match v with
        | .int .. | .float _ => true
        | _ => false)
    (cursorString conv v, if numeric then .numeric else .ordered)

def rowRecord (r : MySQLBatchReader) (d : Data) : Record :=
  let (cursor, cursorKind) := cursorMetadata conv r ((d.get? r.cursorColumn).getD .null)
  { operation := .insert
    data := d
    metadata :=
      { source := if r.sourceName = "" then "mysql_batch" else r.sourceName
        sourceType := "mysql_batch"
        sourcePhase := "batch"
        database := r.database
        table := if r.table = "" then "custom_query" else r.table
        cursor, cursorKind
        primaryKeyColumns := if r.pkCol = "" then [] else [r.pkCol] } }

/-- The scan loop: the cursor moves with every row, also when a later row fails and the page is lost. -/
def scan (scanErr : Option Err) : MySQLBatchReader → List Data → MySQLBatchReader × Except Err (List Record)
  | r, [] =>
    match scanErr with
    | some e => (r, .error { e with msg := "mysql_batch scan row: " ++ e.msg })
    | none => (r, .ok [])
  | r, d :: ds =>
    match d.get? r.cursorColumn with
    | some v =>
      let (r', res) := scan scanErr (updateCursor conv r v) ds
      (r', res.map (rowRecord conv r d :: ·))
    | none =>
      if r.customQuery then
        (r, .error { msg := "custom query result missing cursor_column \"" ++ r.cursorCol ++ "\"" })
      else
        let (r', res) := scan scanErr r ds
        (r', res.map (rowRecord conv r d :: ·))

def pageLimit (r : MySQLBatchReader) (n : Nat) : Nat := if 0 < n ∧ n < r.limit then n else r.limit

def readBatch (r : MySQLBatchReader) (n : Nat) (page : Page) :
    MySQLBatchReader × Except Err (List Record) :=
  if r.done then (r, .ok [])
  else
    match page with
    | .refused e => (r, .error { e with msg := (if r.customQuery then "custom query: " else "query: ") ++ e.msg })
    | .rows rows scanErr =>
      match scan conv scanErr r rows with
      | (r, .error e) => (r, .error e)
      | (r, .ok recs) =>
        let last := if r.customQuery then decide (recs.length < pageLimit r n) else recs.isEmpty
        ({ r with done := last }, .ok recs)

/-! ## The rows a call scans -/

/-- The rows of an answer that `scan` gets through. -/
def scannedRows (r : MySQLBatchReader) : Page → List Data
  | .refused _ => []
  | .rows rows _ =>
    if r.done then [] else rows.takeWhile fun d => !r.customQuery || (d.get? r.cursorColumn).isSome

def rowKey (r : MySQLBatchReader) (d : Data) : Value := (d.get? r.cursorColumn).getD .null

/-- The configuration of a reader, which no call changes. -/
def SameConfig (r r' : MySQLBatchReader) : Prop := r'.customQuery = r.customQuery ∧ r'.cursorColumn = r.cursorColumn

variable {r : MySQLBatchReader}

theorem SameConfig.rowKey {r' : MySQLBatchReader} (h : SameConfig r r') : rowKey r' = rowKey r := by
  funext d
  simp [Source.rowKey, h.2]

theorem updateCursor_config (r : MySQLBatchReader) (v : Value) : SameConfig r (updateCursor conv r v) := by
  unfold updateCursor
  split <;> exact ⟨rfl, rfl⟩

/-- The cursor moves over the keys of the scanned rows, one after the other. -/
def advance (c : Option Cursor) (keys : List Value) : Option Cursor :=
  keys.foldl (fun c v => (cursorOf conv v).or c) c

theorem updateCursor_lastCursor (r : MySQLBatchReader) (v : Value) :
    (updateCursor conv r v).lastCursor = (cursorOf conv v).or r.lastCursor := by
  unfold updateCursor
  cases cursorOf conv v <;> rfl

theorem scan_lastCursor (scanErr : Option Err) (rows : List Data) : ∀ r,
    (scan conv scanErr r rows).1.lastCursor = advance conv r.lastCursor
      ((rows.takeWhile fun d => !r.customQuery || (d.get? r.cursorColumn).isSome).map (rowKey r)) := by
  induction rows with
  | nil =>
    intro r
    unfold scan
    split <;> rfl
  | cons d ds ih =>
    intro r
    rw [scan]
    cases hd : d.get? r.cursorColumn with
    | some v =>
      have hcfg := updateCursor_config conv r v
      rw [ih, updateCursor_lastCursor, hcfg.1, hcfg.2, hcfg.rowKey]
      simp [hd, advance, rowKey]
    | none =>
      by_cases hq : r.customQuery = true
      · simp [hq, hd, advance]
      · -- a row without the key column leaves the cursor where it is
        have hq' : r.customQuery = false := by simpa using hq
        simp only [hq', Bool.false_eq_true, if_false, ih]
        simp [hd, advance, rowKey, cursorOf]

/-- **What a call does to the cursor**: it moves over every scanned row, whatever is returned. -/
theorem readBatch_lastCursor (r : MySQLBatchReader) (n : Nat) (page : Page) :
    (readBatch conv r n page).1.lastCursor =
      advance conv r.lastCursor ((scannedRows r page).map (rowKey r)) := by
  unfold readBatch scannedRows
  cases page with
  | refused e => split <;> rfl
  | rows rows scanErr =>
    by_cases hd : r.done = true
    · simp [hd, advance]
    · simp only [hd, Bool.false_eq_true, if_false]
      rw [← scan_lastCursor conv scanErr]
      rcases scan conv scanErr r rows with ⟨r', e | recs⟩ <;> rfl

/-! ## The result of a call -/

/-- Every row has the cursor column, or no custom query asks for it. -/
def HasCursor (r : MySQLBatchReader) (rows : List Data) : Prop :=
  ∀ d ∈ rows, r.customQuery = false ∨ (d.get? r.cursorColumn).isSome = true

/-- A scan that gets through the rows returns a record for each, or the error behind them, and touches
nothing of the reader but its cursor. -/
theorem scan_eq (scanErr : Option Err) (rows : List Data) : ∀ r, HasCursor r rows →
    scan conv scanErr r rows =
      ({ r with lastCursor := advance conv r.lastCursor (rows.map (rowKey r)) },
        (scan conv scanErr r []).2.map (rows.map (rowRecord conv r) ++ ·)) := by
  induction rows with
  | nil =>
    intro r _
    cases scanErr <;> rfl
  | cons d ds ih =>
    intro r h
    have htail (c : Option Cursor) : scan conv scanErr { r with lastCursor := c } ds =
        ({ r with lastCursor := advance conv c (ds.map (rowKey r)) },
          (scan conv scanErr r []).2.map (ds.map (rowRecord conv r) ++ ·)) := by
      rw [ih { r with lastCursor := c } fun d' hd' => h d' (by simp [hd'])]
      cases scanErr <;> rfl
    rw [scan]
    cases hd : d.get? r.cursorColumn with
    | some v =>
      have hr : updateCursor conv r v = { r with lastCursor := (cursorOf conv v).or r.lastCursor } := by
        unfold updateCursor
        cases cursorOf conv v <;> rfl
      simp only [hr, htail]
      cases scanErr <;> simp [advance, rowKey, hd, scan, Except.map]
    | none =>
      have hq : r.customQuery = false := by simpa [hd] using h d (by simp)
      have hds : scan conv scanErr r ds = _ := htail r.lastCursor
      simp only [hq, hds]
      cases scanErr <;> simp [advance, rowKey, hd, cursorOf, scan, Except.map]

/-- `done` after a call that returned this many rows. -/
def MySQLBatchReader.sawEnd (r : MySQLBatchReader) (n rows : Nat) : Bool :=
  if r.customQuery then decide (rows < pageLimit r n) else rows == 0

/-- **A call whose rows can be read** returns their records. -/
theorem readBatch_ok (n : Nat) {rows : List Data} (hdone : r.done = false) (h : HasCursor r rows) :
    readBatch conv r n (.rows rows none) =
      ({ r with
          lastCursor := advance conv r.lastCursor (rows.map (rowKey r))
          done := r.sawEnd n rows.length },
        .ok (rows.map (rowRecord conv r))) := by
  rw [readBatch, scan_eq conv none rows r h]
  simp only [hdone, scan, Except.map, List.append_nil, List.length_map]
  cases rows <;> rfl

/-- **A call with a row that cannot be scanned** fails, with the cursor behind the rows before it. -/
theorem readBatch_scanError (n : Nat) {rows : List Data} (e : Err) (hdone : r.done = false) (h : HasCursor r rows) :
    readBatch conv r n (.rows rows (some e)) =
      ({ r with lastCursor := advance conv r.lastCursor (rows.map (rowKey r)) },
        .error { e with msg := "mysql_batch scan row: " ++ e.msg }) := by
  rw [readBatch, scan_eq conv (some e) rows r h]
  simp only [hdone, Bool.false_eq_true, if_false, scan, Except.map]

end

end OpenEtl.Source
