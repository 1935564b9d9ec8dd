import OpenEtl.Core.Transform
import OpenEtl.Lib.Trace
import OpenEtl.Orchestrator.Dag
import OpenEtl.Retry.Do
import OpenEtl.Server.DlqGate

/-!
# Replaying dead letters (`server/server.go:4830-4992`, `orchestrator/replay.go`)

A replay request works through a list of dead letters. Rows whose write was acknowledged by an earlier
request are only deleted; the others are written to the sink, marked, and deleted. `i` in an event is
the place of the row in the request, and the moment at which its record goes through the transforms.

Building and opening the plugins is part of the environment.
-/

namespace OpenEtl.Server

open Retry

open Orchestrator (DAG Node Edge Condition)

inductive Event
  /-- the route of row `i` visits a node -/
  | visit (i : Nat) (nodeID : String)
  /-- the route of row `i` ended with nothing for any sink -/
  | noSink (i : Nat)
  | write (i : Nat) (sinkID : String) (records : List Record) (err : Option Err)
  | update (i : Nat) (item : DeadLetter) (err : Option Err)
  | delete (i : Nat) (err : Option Err)
deriving DecidableEq, Repr

structure Env where
  applyNode : Nat → String → Record → Except TransformErr Record := fun _ _ r => .ok r
  openSink : Nat → String → Option Err := fun _ _ => none
  write : Nat → String → List Record → Option Err := fun _ _ _ => none
  retryDone : Nat → Option CtxErr := fun _ => none
  update : Nat → DeadLetter → Option Err := fun _ _ => none
  delete : Nat → DeadLetter → Option Err := fun _ _ => none
  /-- the order in which the map of sink batches is iterated -/
  sinkOrder : Nat → List (String × List Record) → List (String × List Record) := fun _ l => l
  sinkOrder_perm : ∀ n l, (sinkOrder n l).Perm l := by intros; exact .refl _

abbrev Log := List Event

/-- `dlqItemRef`. -/
def dlqItemRef (item : DeadLetter) : String :=
  if item.id ≠ 0 then "id " ++ toString item.id
  else if item.timestamp ≠ "" then "timestamp " ++ item.timestamp
  else "without id"

section

variable (E : Env)

/-- `retry.Do` around `sink.Write`. -/
def retryWrite (retry : Config) (i : Nat) (sinkID : String) (records : List Record) (log : Log) :
    Log × Option Err :=
  Do isRetryableError (fun log => (E.retryDone log.length).map CtxErr.toErr)
    (fun log =>
      let err := E.write log.length sinkID records
      (log ++ [.write i sinkID records err], err))
    retry log

/-- `markDLQReplayFailure`; a failing update is ignored. -/
def markDLQReplayFailure (i : Nat) (item : DeadLetter) (err : Err) (log : Log) : Log :=
  if item.id = 0 then log
  else
    let item := { item with replayAttempt := item.replayAttempt + 1, replayError := err.msg }
    log ++ [.update i item (E.update log.length item)]

/-- `checkpointDLQReplay`: the acknowledgement is stored before the row may be deleted. -/
def checkpointDLQReplay (i : Nat) (item : DeadLetter) (log : Log) : Log × Except Err DeadLetter :=
  if item.id = 0 then (log, .ok item)
  else
    let candidate :=
      { item with replayState := .sinkAcked, replayAttempt := item.replayAttempt + 1, replayError := "" }
    let err := E.update log.length candidate
    (log ++ [.update i candidate err],
      match err with
      | some e => .error { e with msg := "persist dlq replay checkpoint after sink acknowledgement: " ++ e.msg }
      | none => .ok candidate)

def deleteReplayedDLQItem (i : Nat) (item : DeadLetter) (log : Log) : Log × Option Err :=
  let err := E.delete log.length item
  (log ++ [.delete i err],
    err.map fun e => { e with msg := "delete replayed dlq " ++ dlqItemRef item ++ ": " ++ e.msg })

/-- The first loop of both replays: acknowledged rows are deleted, the others are kept. -/
def cleanAcked : Nat → List DeadLetter → Log → Log × Except Err (List (Nat × DeadLetter))
  | _, [], log => (log, .ok [])
  | i, item :: rest, log =>
    if item.replayState = .sinkAcked then
      match deleteReplayedDLQItem E i item log with
      | (log, some e) => (markDLQReplayFailure E i item e log, .error e)
      | (log, none) => cleanAcked (i + 1) rest log
    else
      match cleanAcked (i + 1) rest log with
      | (log, .ok pending) => (log, .ok ((i, item) :: pending))
      | (log, .error e) => (log, .error e)

/-- What follows a successful write of a row: mark it, then delete it. -/
def completeRow (i : Nat) (item : DeadLetter) (log : Log) : Log × Option Err :=
  match checkpointDLQReplay E i item log with
  | (log, .error e) => (markDLQReplayFailure E i item e log, some e)
  | (log, .ok item) =>
    match deleteReplayedDLQItem E i item log with
    | (log, some e) => (markDLQReplayFailure E i item e log, some e)
    | (log, none) => (log, none)

/-! ## Linear pipelines -/

/-- A linear spec as far as a replay needs it. -/
structure LinearSpec where
  transforms : List Transform := []
  retry : Config := defaultConfig
  gate : Gate := {}

def blocked (item : DeadLetter) (state : ReplayState) (reason : String) : DeadLetter :=
  { item with replayState := state, replayAttempt := item.replayAttempt + 1, replayError := reason }

/-- What a blocked row ends the request with, given what storing the block returned. -/
def blockError (item : DeadLetter) (state : ReplayState) (reason : String) : Option Err → Err
  | some e => { e with msg := "persist dlq replay block (" ++ reason ++ "): " ++ e.msg }
  | none =>
    { msg := "dlq id " ++ toString item.id ++ " replay blocked: state=" ++ state.text ++ " reason=" ++ reason }

def blockDLQReplay (i : Nat) (item : DeadLetter) (state : ReplayState) (reason : String) (log : Log) : Log × Err :=
  let item := blocked item state reason
  let err := E.update log.length item
  (log ++ [.update i item err], blockError item state reason err)

def prepareLinearDLQReplay (G : Gate) (i : Nat) (item : DeadLetter) (log : Log) : Log × Except Err DeadLetter :=
  match G.verdict item with
  | .block state reason =>
    let (log, e) := blockDLQReplay E i item state reason log
    (log, .error e)
  | .pass prepared none => (log, .ok prepared)
  | .pass prepared (some what) =>
    let err := E.update log.length prepared
    (log ++ [.update i prepared err],
      match err with
      | some e => .error { e with msg := what ++ e.msg }
      | none => .ok prepared)

def violation (rec : Record) : String :=
  "transform output violates replay identity contract: " ++ reasonText (recordIdentity rec)

def validateLinearReplayIdentity (G : Gate) (i : Nat) (item : DeadLetter) (rec : Record) (log : Log) :
    Log × Option Err :=
  if G.admits rec then (log, none)
  else
    let (log, e) := blockDLQReplay E i item .quarantined (violation rec) log
    (log, some e)

def writeRow (spec : LinearSpec) (i : Nat) (prepared : DeadLetter) (rec : Record) (log : Log) : Log × Option Err :=
  match retryWrite E spec.retry i "sink" [rec] log with
  | (log, some e) => (markDLQReplayFailure E i prepared e log, some e)
  | (log, none) => completeRow E i prepared log

/-- One row of a linear replay. A filtered record is an error here, like any other. -/
def replayRow (spec : LinearSpec) (i : Nat) (item : DeadLetter) (log : Log) : Log × Option Err :=
  match prepareLinearDLQReplay E spec.gate i item log with
  | (log, .error e) => (log, some e)
  | (log, .ok prepared) =>
    match chainApply spec.transforms i 0 prepared.record with
    | .error .filtered =>
      let e : Err := { msg := "transform dlq record: record filtered" }
      (markDLQReplayFailure E i prepared e log, some e)
    | .error (.failed c) =>
      let e : Err := { c with msg := "transform dlq record: " ++ c.msg }
      (markDLQReplayFailure E i prepared e log, some e)
    | .ok rec =>
      match validateLinearReplayIdentity E spec.gate i prepared rec log with
      | (log, some e) => (log, some e)
      | (log, none) => writeRow E spec i prepared rec log

/-- The loop over the rows still to be written: the first error ends the request. -/
def replayRows (row : Nat → DeadLetter → Log → Log × Option Err) :
    List (Nat × DeadLetter) → Log → Log × Option Err
  | [], log => (log, none)
  | (i, item) :: rest, log =>
    match row i item log with
    | (log, some e) => (log, some e)
    | (log, none) => replayRows row rest log

def replayWith (row : Nat → DeadLetter → Log → Log × Option Err) (items : List DeadLetter) :
    Log × Option Err :=
  match cleanAcked E 0 items [] with
  | (log, .error e) => (log, some e)
  | (log, .ok pending) => replayRows row pending log

def replayDLQItems (spec : LinearSpec) (items : List DeadLetter) : Log × Option Err :=
  replayWith E (replayRow E spec) items

/-! ## DAG pipelines -/

structure DagSpec where
  dag : DAG
  /-- `NewDAGReplayer` refuses other graphs (replay.go:31) -/
  valid : dag.validate = .ok () := by decide
  evalCondition : Condition → Record → Bool := fun _ _ => true
  retry : Config := defaultConfig

def takenEdges (spec : DagSpec) (nodeID : String) (rec : Record) : List Edge :=
  spec.dag.edges.filter fun e =>
    e.source == nodeID && (e.condition.elim true fun c => spec.evalCondition c rec)

/-- The edge loop of `route`: the first error ends it. -/
def routeEdges (next : String → Record → Log → Log × Except Err (List (String × Record))) (rec : Record) :
    List Edge → Log → Log × Except Err (List (String × Record))
  | [], log => (log, .ok [])
  | e :: es, log =>
    match next e.target rec log with
    | (log, .error err) => (log, .error err)
    | (log, .ok outs) =>
      match routeEdges next rec es log with
      | (log, .error err) => (log, .error err)
      | (log, .ok outs') => (log, .ok (outs ++ outs'))

/-- `DAGReplayer.route`, to a depth of `fuel` nodes; the result lists the records for the sinks. -/
def route (spec : DagSpec) (i : Nat) : Nat → String → Record → Log → Log × Except Err (List (String × Record))
  | 0, _, _, log => (log, .error { msg := "stack overflow" })
  | fuel + 1, nodeID, rec, log =>
    let log := log ++ [.visit i nodeID]
    match spec.dag.getNode nodeID with
    | none => (log, .error { msg := "dag node \"" ++ nodeID ++ "\" not found" })
    | some node =>
      match if node.kind = .transform then E.applyNode log.length nodeID rec else .ok rec with
      | .error .filtered => (log, .ok [])
      | .error (.failed c) => (log, .error { c with msg := "transform node " ++ nodeID ++ ": " ++ c.msg })
      | .ok rec =>
        if node.kind = .sink then (log, .ok [(nodeID, rec)])
        else routeEdges (route spec i fuel) rec (takenEdges spec nodeID rec) log

/-- `batchBySink[sinkID] = append(…, rec)` -/
def addSinkRecord (sinkID : String) (rec : Record) : List (String × List Record) → List (String × List Record)
  | [] => [(sinkID, [rec])]
  | (k, recs) :: rest =>
    if k = sinkID then (k, recs ++ [rec]) :: rest else (k, recs) :: addSinkRecord sinkID rec rest

def batchBySink (outs : List (String × Record)) : List (String × List Record) :=
  outs.foldl (fun batches o => addSinkRecord o.1 o.2 batches) []

/-- The sink loop of `Replay`. -/
def writeSinks (spec : DagSpec) (i : Nat) : List (String × List Record) → Log → Log × Option Err
  | [], log => (log, none)
  | (sinkID, records) :: rest, log =>
    match E.openSink log.length sinkID with
    | some e => (log, some { e with msg := "open sink " ++ sinkID ++ ": " ++ e.msg })
    | none =>
      match retryWrite E spec.retry i sinkID records log with
      | (log, some e) => (log, some { e with msg := "write sink " ++ sinkID ++ ": " ++ e.msg })
      | (log, none) => writeSinks spec i rest log

/-- `DAGReplayer.Replay`. -/
def replay (spec : DagSpec) (i : Nat) (nodeID : String) (rec : Record) (log : Log) : Log × Option Err :=
  if nodeID = "" then (log, some { msg := "dag replay requires dag_node on the DLQ record" })
  else if (spec.dag.getNode nodeID).isNone then
    (log, some { msg := "dag replay node \"" ++ nodeID ++ "\" not found" })
  else
    match route E spec i spec.dag.nodes.length nodeID rec log with
    | (log, .error e) => (log, some e)
    | (log, .ok []) => (log ++ [.noSink i], none)
    | (log, .ok outs) => writeSinks E spec i (E.sinkOrder log.length (batchBySink outs)) log

def replayDAGRow (spec : DagSpec) (i : Nat) (item : DeadLetter) (log : Log) : Log × Option Err :=
  let nodeID := trimSpace item.dagNode
  if nodeID = "" then (log, some { msg := "dag dlq record " ++ dlqItemRef item ++
    " has no dag_node; replay requires node context" })
  else
    match replay E spec i nodeID item.record log with
    | (log, some e) =>
      let e :=
        { e with msg := "replay dag dlq record " ++ dlqItemRef item ++ " from node " ++ nodeID ++ ": " ++ e.msg }
      (markDLQReplayFailure E i item e log, some e)
    | (log, none) => completeRow E i item log

def replayDAGDLQItems (spec : DagSpec) (items : List DeadLetter) : Log × Option Err :=
  replayWith E (replayDAGRow E spec) items

end

end OpenEtl.Server
