import OpenEtl.Lib.Trace
import OpenEtl.Source.PgOutput

/-!
# From the snapshot to the replication stream (`source/postgres_cdc.go:127-181, 356-517, 1357-1525`,
`source/checkpoint_validation.go:402-438`)

| here | there |
| --- | --- |
| `validateCheckpoint` | `ValidateCheckpoint` (:402) |
| `Event.openReader` | `Open` with the last saved checkpoint (:127) |
| `select`, `row`, `finish`, `giveUp` | `runSnapshot`: a query, a row, the end, `<-r.done` (:1436) |
| `setupSlot`, `startReplication`, `receive`, `reconnect` | the second phase of `run` (:376) |
| `save` | `CheckpointForRecord` or `Snapshot`, the store, `AckCheckpoint` (:1357-1432) |
| `close`, `stop` | `Close` (:1508); the end of the process |

The server is its list of committed transactions; a slot sends the transactions whose commit is not before its
position, in the order of their commits. A record that was read is written to the sink, in order; only records
that were written are asked for checkpoints. `read` and `skipped` only remember what happened.
-/

namespace OpenEtl.Source.PgSnapshot

open Pg (PostgresCDCSource)

/-! ## The server -/

section

variable (κ ρ : Type)

/-- A change of one row and its place in the WAL; no row is a deletion. -/
structure RowChange where
  table : String
  key : κ
  row : Option ρ
  lsn : Nat
deriving DecidableEq

/-- A committed transaction; its changes stand before its commit. -/
structure Commit where
  lsn : Nat
  changes : List (RowChange κ ρ)
  lt_lsn : ∀ c ∈ changes, c.lsn < lsn
deriving DecidableEq

/-- A record the reader has emitted: a row of a snapshot, or the `j`-th change of the `i`-th transaction. -/
inductive Item
  | snapshot (table : String) (key : κ) (row : ρ)
  | cdc (i j : Nat)
deriving DecidableEq

end

variable {κ ρ : Type}

section

variable [DecidableEq κ]

def applyChange (rows : List (κ × ρ)) (c : RowChange κ ρ) : List (κ × ρ) :=
  let others := rows.filter fun p => p.1 ≠ c.key
  match c.row with
  | none => others
  | some row => (c.key, row) :: others

def tableRows (history : List (Commit κ ρ)) (table : String) : List (κ × ρ) :=
  ((history.flatMap Commit.changes).filter fun c => c.table = table).foldl applyChange []

end

def change? (history : List (Commit κ ρ)) (i j : Nat) : Option (RowChange κ ρ) :=
  history[i]?.bind fun c => c.changes[j]?

def commitLSN (history : List (Commit κ ρ)) (i : Nat) : Nat := (history[i]?.map Commit.lsn).getD 0

def walEnd (history : List (Commit κ ρ)) : Nat := (history.getLast?.map Commit.lsn).getD 0

/-- The first transaction a stream from this position sends. -/
def firstFrom (history : List (Commit κ ρ)) (lsn : Nat) : Nat := (history.takeWhile fun c => c.lsn < lsn).length

/-! ## The reader -/

inductive Phase
  | snapshot | cdc
deriving DecidableEq, Repr

/-- `pgPosition`; no LSN is the empty text. -/
structure PgPosition where
  lsn : Option Nat := none
  phase : Phase
deriving DecidableEq, Repr

/-- Where `run` is: in a snapshot with these tables to read, and these rows of the current one to send; before the
slot is set up; before replication starts; in the stream, before this change; or at its end. -/
inductive Stage (κ ρ : Type)
  | snapshot (left : List String) (table : String) (rows : List (κ × ρ))
  | setup
  | ready
  | streaming (i j : Nat)
  | ended
deriving DecidableEq

structure Life (κ ρ : Type) where
  phase : Phase
  stage : Stage κ ρ
  closed : Bool := false
  committedLsn : Option Nat := none
  /-- the records sent so far, and how many of them were written -/
  emitted : List (Item κ ρ) := []
  written : Nat := 0
  /-- a snapshot is complete, of this life or of one before it -/
  snapshotDone : Bool
deriving DecidableEq

structure Handoff (κ ρ : Type) where
  history : List (Commit κ ρ) := []
  /-- the position of the slot, if there is one -/
  slot : Option Nat := none
  saved : Option PgPosition := none
  sink : List (Item κ ρ) := []
  life : Option (Life κ ρ) := none
  /-- the tables the last snapshot has read, and after how many transactions -/
  read : List (String × Nat) := []
  /-- the rows that could not be scanned -/
  skipped : List (String × κ × ρ) := []
deriving DecidableEq

inductive Event (κ ρ : Type)
  | commit (c : Commit κ ρ)
  | openReader
  | select (rows : List (κ × ρ))
  | row (scanned : Bool)
  | finish
  | giveUp
  | fail
  | setupSlot
  | startReplication
  | receive
  | reconnect
  | write
  | save (record : Option Nat) (acked : Bool)
  | close (dropped : Bool)
  | stop

section

variable (src : PostgresCDCSource)

/-- The publication is for these tables, or for all. -/
def captured (table : String) : Bool := src.tables = [] ∨ table ∈ src.tables

/-- The positions are those the reader writes: a known phase, and an LSN that can be parsed or none. -/
def validateCheckpoint (pos : PgPosition) : Except String Unit :=
  if pos.phase = .snapshot ∧ src.enableSnapshot = false then
    .error "checkpoint is in snapshot phase but source enable_snapshot is false"
  else if pos.phase = .cdc ∧ pos.lsn = none then .error "CDC checkpoint is missing an LSN"
  else .ok ()

namespace Handoff

section

variable (s : Handoff κ ρ)

/-- A checkpoint that is refused leaves the reader down. -/
def openReader : Handoff κ ρ :=
  match s.saved with
  | none =>
    if src.enableSnapshot then
      { s with life := some { phase := .snapshot, stage := .snapshot src.tables "" [], snapshotDone := false }
               read := [] }
    else { s with life := some { phase := .cdc, stage := .setup, snapshotDone := true } }
  | some pos =>
    match validateCheckpoint src pos with
    | .error _ => s
    | .ok () =>
      if pos.phase ≠ .cdc ∧ src.enableSnapshot then
        { s with life := some { phase := pos.phase, stage := .snapshot src.tables "" [], snapshotDone := false
                                committedLsn := pos.lsn }
                 read := [] }
      else
        { s with life := some { phase := pos.phase, stage := .setup, snapshotDone := true, committedLsn := pos.lsn } }

/-- The slot sends from its own position or from the one asked for, whichever is later. -/
def stream (life : Life κ ρ) : Handoff κ ρ :=
  match s.slot with
  | none => { s with life := some { life with stage := .ended } }
  | some confirmed =>
    { s with life := some { life with
        stage := .streaming (firstFrom s.history (max confirmed (life.committedLsn.getD 0))) 0 } }

def receive (life : Life κ ρ) (i j : Nat) : Handoff κ ρ :=
  match s.history[i]? with
  | none => s
  | some c =>
    match c.changes[j]? with
    | none => { s with life := some { life with stage := .streaming (i + 1) 0 } }
    | some ch =>
      let emitted := if captured src ch.table then life.emitted ++ [.cdc i j] else life.emitted
      { s with life := some { life with stage := .streaming i (j + 1), emitted } }

/-- The position saved for a record: its own LSN, or that of the reader with the reader's phase. -/
def checkpoint (life : Life κ ρ) : Option (Item κ ρ) → PgPosition
  | some (.cdc i j) => { lsn := (change? s.history i j).map RowChange.lsn, phase := .cdc }
  | _ => { lsn := life.committedLsn, phase := life.phase }

def save (life : Life κ ρ) (record : Option (Item κ ρ)) (acked : Bool) : Handoff κ ρ :=
  let pos := s.checkpoint life record
  match pos.lsn, acked with
  | some lsn, true =>
    { s with saved := some pos, slot := s.slot.map (max lsn)
             life := some { life with committedLsn := some (max lsn (life.committedLsn.getD 0)) } }
  | _, _ => { s with saved := some pos }

end

variable [DecidableEq κ] [DecidableEq ρ] (s : Handoff κ ρ)

def onLife (life : Life κ ρ) : Event κ ρ → Handoff κ ρ
  | .select rows =>
    match life.stage with
    | .snapshot (t :: left) _ [] =>
      if rows.Perm (tableRows s.history t) then
        { s with life := some { life with stage := .snapshot left t rows }, read := (t, s.history.length) :: s.read }
      else s
    | _ => s
  | .row scanned =>
    match life.stage with
    | .snapshot left t (p :: rows) =>
      if scanned then
        { s with life := some { life with
            stage := .snapshot left t rows, emitted := life.emitted ++ [.snapshot t p.1 p.2] } }
      else { s with life := some { life with stage := .snapshot left t rows }, skipped := (t, p) :: s.skipped }
    | _ => s
  | .finish =>
    match life.stage with
    | .snapshot [] _ [] => { s with life := some { life with phase := .cdc, stage := .setup, snapshotDone := true } }
    | _ => s
  | .giveUp =>
    match life.stage with
    | .snapshot _ _ (_ :: _) =>
      if life.closed then { s with life := some { life with phase := .cdc, stage := .setup } } else s
    | _ => s
  | .fail => { s with life := some { life with stage := .ended } }
  | .setupSlot =>
    match life.stage with
    | .setup =>
      { s with life := some { life with stage := .ready }, slot := some (s.slot.getD (walEnd s.history + 1)) }
    | _ => s
  | .startReplication =>
    match life.stage with
    | .ready => if life.closed then { s with life := some { life with stage := .ended } } else s.stream life
    | _ => s
  | .receive =>
    match life.stage with
    | .streaming i j => if life.closed then s else s.receive src life i j
    | _ => s
  | .reconnect =>
    match life.stage with
    | .streaming _ _ => if life.closed then s else s.stream life
    | _ => s
  | .write =>
    match life.emitted[life.written]? with
    | some item => { s with sink := s.sink ++ [item], life := some { life with written := life.written + 1 } }
    | none => s
  | .save none acked => s.save life none acked
  | .save (some k) acked => if k < life.written then s.save life life.emitted[k]? acked else s
  | .close dropped =>
    { s with life := some { life with closed := true }
             slot := if src.dropSlotOnClose ∧ dropped then none else s.slot }
  | .stop => { s with life := none }
  | .commit _ | .openReader => s

def step : Event κ ρ → Handoff κ ρ
  | .commit c => if walEnd s.history < c.lsn then { s with history := s.history ++ [c] } else s
  | .openReader => if s.life.isSome then s else s.openReader src
  | e =>
    match s.life with
    | none => s
    | some life => s.onLife src life e

end Handoff

end

end OpenEtl.Source.PgSnapshot
