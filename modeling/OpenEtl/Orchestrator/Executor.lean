import OpenEtl.Core.Transform
import OpenEtl.Orchestrator.Dag
import OpenEtl.Pipeline.CircuitBreaker
import OpenEtl.Retry.Do
import OpenEtl.Storage.Context

/-!
# The DAG executor (`orchestrator/executor.go:440-1283`)

As for the linear runner, the outside is an environment `Env` indexed by the number of events logged
so far. Readers, forwarder, worker pool and router are separate goroutines in the source; here each
`Step` is one thing one of them does. A worker's whole route is one step, taken when it hands its
result over: until then nobody reads what it did, and the record's dead letters are only counted from
then on.

| here | there |
| --- | --- |
| `routeSafely` | `DAGExecutor.routeRecordSafely` (:805) |
| `receive` | the message case of `routeAndWrite` (:628) |
| `takeResult` | the result case of `routeAndWriteParallel` (:780) |
| `writeDue` | the full-batch loop (:648) and `flushAll` (:609, 765) |

How an edge condition is evaluated is a parameter of the configuration. Statistics nobody reads back,
alerts and logs are left out.
-/

namespace OpenEtl.Orchestrator

open Function

open Retry

open Storage (Ctx)
open Pipeline (CircuitBreaker newCircuitBreaker)

/-- `recordMsg`; a sink record keeps the source and number of the message it comes from. -/
structure RecordMsg where
  record : Record
  sourceID : String
  seq : Nat
deriving DecidableEq, Repr, Inhabited

/-- Where one path of a record through the graph ended, and the record as it arrived there. -/
inductive Branch
  | unknown (nodeID : String)
  | filtered (nodeID : String)
  /-- given to `handleFailed` -/
  | failed (nodeID : String) (rec : Record)
  /-- no edge out of the node takes the record -/
  | unmatched (nodeID : String)
  | sink (sinkID : String) (rec : Record)
deriving DecidableEq, Repr

inductive Event
  /-- a step begins -/
  | call
  | visit (nodeID : String)
  | dlq (nodeID : String) (msg : RecordMsg) (cause : Cause) (err : Option Err)
  | noDLQ (nodeID : String) (msg : RecordMsg) (cause : Cause)
  | routed (msg : RecordMsg) (ends : List Branch)
  | breakerWait (sinkID : String) (ended : Bool)
  | sinkWrite (sinkID : String) (batch : List RecordMsg) (err : Option Err)
  | save (ctx : Ctx) (sourceID : String) (records : List RecordMsg) (err : Option Err)
  | ack (sourceID : String) (records : List RecordMsg) (err : Option Err)
deriving DecidableEq, Repr

/-- The context `writeToSink` is called with: the run's, or the fresh one of `flushAll`. -/
inductive Under
  | run | flush
deriving DecidableEq, Repr

def Under.ctx (runCtx : Ctx) : Under → Ctx
  | .run => runCtx
  | .flush => .background

def defaultBatchSize : Nat := 1000

theorem defaultBatchSize_pos : 0 < defaultBatchSize := by decide

structure Cfg where
  dag : DAG
  allowUnsafe : Bool := false
  /-- `NewDAGExecutor` refuses other graphs (:126) -/
  valid : dag.validateProduction allowUnsafe = .ok () := by decide
  evalCondition : Condition → Record → Bool := fun _ _ => true
  retry : Config := defaultConfig
  workers : Nat := 1
  batchSize : Nat := defaultBatchSize
  batchSize_pos : 0 < batchSize := by first | exact OpenEtl.Orchestrator.defaultBatchSize_pos | decide
  /-- `dlqWriter` and `cpAdapter` are set -/
  hasDLQ : Bool := true
  hasStore : Bool := true
  /-- the source's reader implements `CheckpointAcker` -/
  hasAcker : String → Bool := fun _ => false

def inOrder (_ : Nat) (l : List (String × List RecordMsg)) : List (String × List RecordMsg) := l

theorem inOrder_perm (n : Nat) (l : List (String × List RecordMsg)) : (inOrder n l).Perm l := .refl l

structure Env where
  apply : Nat → String → Record → Except TransformErr Record := fun _ _ r => .ok r
  /-- a panic while the route visits a node -/
  panics : Nat → Option String := fun _ => none
  dlq : Nat → String → RecordMsg → Option Err := fun _ _ _ => none
  write : Nat → String → List RecordMsg → Option Err := fun _ _ _ => none
  retryDone : Nat → Option CtxErr := fun _ => none
  /-- the context has ended when `writeToSink` finds the breaker open -/
  ended : Under → Nat → Bool := fun _ _ => false
  /-- `ctx.Err() != nil` in `applyResult` -/
  ctxErr : Nat → Bool := fun _ => false
  /-- `stateSnapshotVersions`: an error, or whether there are any -/
  stateVersions : Nat → Except Err Bool := fun _ => .ok false
  /-- `BuildSinkCommitMetadata`: an error, or whether there is any -/
  sinkCommit : Nat → List RecordMsg → Except Err Bool := fun _ _ => .ok false
  checkpointFor : Nat → String → List RecordMsg → Option Err := fun _ _ _ => none
  envelope : Nat → Option Err := fun _ => none
  save : Nat → Option Err := fun _ => none
  ack : Nat → Option Err := fun _ => none
  now : Nat → Int := fun _ => 0
  /-- the order in which a map from sources is iterated -/
  sourceOrder : Nat → List (String × List RecordMsg) → List (String × List RecordMsg) := inOrder
  sourceOrder_perm : ∀ n l, (sourceOrder n l).Perm l := by exact OpenEtl.Orchestrator.inOrder_perm

/-- `routeResult`; its `batchBySink` is read off the ends of the route. -/
structure RouteResult where
  msg : RecordMsg
  ends : List Branch
  checkpointSafe : Bool
deriving DecidableEq, Repr

/-- What the readers, workers and router hand each other, and the router's batches. -/
structure Queues where
  /-- each reader's next number -/
  nextRead : String → Nat := fun _ => 0
  /-- sent by a reader and not routed yet, in channel order -/
  inFlight : List RecordMsg := []
  /-- the forwarder of the parallel router still runs -/
  forwarding : Bool := true
  results : List RouteResult := []
  pending : List RouteResult := []
  nextSeq : String → Nat := fun _ => 0
  batchBySink : String → List RecordMsg := fun _ => []
  recordsBySinkSource : String → List (String × List RecordMsg) := fun _ => []
  /-- how many messages of each source the router has entered into the batches -/
  applied : String → Nat := fun _ => 0
  /-- the router has returned -/
  routerDone : Bool := false

structure St extends Queues where
  log : List Event := []
  checkpointBlocks : List (String × String) := []
  breakers : String → Option CircuitBreaker := fun _ => none
  recordsWritten : Nat := 0
  recordsFailed : Nat := 0
  recordsDLQ : Nat := 0
  /-- the status was set to failed -/
  failed : Bool := false

def St.emit (s : St) (e : Event) : St := { s with log := s.log ++ [e] }

def St.blocked (s : St) (sourceID : String) : Bool := s.checkpointBlocks.any (·.1 == sourceID)

section

variable (C : Cfg) (E : Env)

/-! ## Failures -/

/-- `breakers[id].RecordFailure`, where there is one. -/
def recordFailure (s : St) (id : String) : St :=
  { s with
    breakers := update s.breakers id
      ((s.breakers id).map (·.recordFailure (E.now s.log.length))) }

def recordSuccess (s : St) (id : String) : St :=
  { s with breakers := update s.breakers id ((s.breakers id).map (·.recordSuccess)) }

/-- `blockSourceCheckpoint`: the first reason is kept. -/
def blockSourceCheckpoint (s : St) (sourceID reason : String) : St :=
  if s.blocked sourceID then s
  else { s with checkpointBlocks := s.checkpointBlocks ++ [(sourceID, reason)] }

def blockSources (s : St) (reason : String) : List (String × List RecordMsg) → St
  | [] => s
  | (sourceID, _) :: rest => blockSources (blockSourceCheckpoint s sourceID reason) reason rest

/-- `handleFailed`: whether the record is durable in the DLQ. -/
def handleFailed (s : St) (msg : RecordMsg) (cause : Cause) (nodeID : String) : St × Bool :=
  let s := { s with recordsFailed := s.recordsFailed + 1 }
  if C.hasDLQ then
    match E.dlq s.log.length nodeID msg with
    | some dlqErr =>
      let s := s.emit (.dlq nodeID msg cause (some dlqErr))
      (if nodeID = "" then s else recordFailure E s nodeID, false)
    | none => ({ s.emit (.dlq nodeID msg cause none) with recordsDLQ := s.recordsDLQ + 1 }, true)
  else (s.emit (.noDLQ nodeID msg cause), false)

/-! ## Routing -/

/-- What a route returns: the text of a panic, or where its paths ended and `checkpointSafe`. -/
abbrev Routed := Except String (List Branch × Bool)

/-- The edge loop of `route`, over the edges that take the record. -/
def routeEdges (next : String → RecordMsg → St → St × Routed) (msg : RecordMsg) :
    List Edge → St → St × Routed
  | [], s => (s, .ok ([], true))
  | e :: es, s =>
    match next e.target msg s with
    | (s, .error text) => (s, .error text)
    | (s, .ok (ends, ok)) =>
      match routeEdges next msg es s with
      | (s, .error text) => (s, .error text)
      | (s, .ok (ends', ok')) => (s, .ok (ends ++ ends', ok && ok'))

/-- The edges out of a node that take the record. -/
def takenEdges (nodeID : String) (rec : Record) : List Edge :=
  C.dag.edges.filter fun e =>
    e.source == nodeID && (e.condition.elim true fun c => C.evalCondition c rec)

/-- The transform of a node, the identity for other kinds. -/
def applyNode (s : St) (node : Node) (rec : Record) : Except TransformErr Record :=
  if node.kind = .transform then E.apply s.log.length node.id rec else .ok rec

/-- `route`, to a depth of `fuel` nodes. A validated graph has no longer paths (`route_fuel`). -/
def route : Nat → String → RecordMsg → St → St × Routed
  | 0, _, _, s => (s, .error "stack overflow")
  | fuel + 1, nodeID, msg, s =>
    let s := s.emit (.visit nodeID)
    match E.panics s.log.length with
    | some text => (s, .error text)
    | none =>
      match C.dag.getNode nodeID with
      | none => (s, .ok ([.unknown nodeID], true))
      | some node =>
        match applyNode E s node msg.record with
        | .error .filtered => (s, .ok ([.filtered nodeID], true))
        | .error (.failed cause) =>
          let (s, ok) := handleFailed C E s msg cause nodeID
          (s, .ok ([.failed nodeID msg.record], ok))
        | .ok rec =>
          if node.kind = .sink then (s, .ok ([.sink nodeID rec], true))
          else if takenEdges C nodeID rec = [] then (s, .ok ([.unmatched nodeID], true))
          else routeEdges (route fuel) { msg with record := rec } (takenEdges C nodeID rec) s

def routeRecord (s : St) (msg : RecordMsg) : St × Routed := route C E C.dag.nodes.length msg.sourceID msg s

/-- `routeRecordSafely`: after a panic the source record itself goes to the DLQ, with no node, and
nothing goes to the sinks. -/
def routeSafely (s : St) (msg : RecordMsg) : St × RouteResult :=
  match routeRecord C E s msg with
  | (s, .ok (ends, safe)) =>
    (s.emit (.routed msg ends), { msg, ends, checkpointSafe := safe })
  | (s, .error text) =>
    let (s, safe) := handleFailed C E { s with failed := true } msg { msg := "DAG route panic: " ++ text } ""
    let ends := [.failed "" msg.record]
    (s.emit (.routed msg ends), { msg, ends, checkpointSafe := safe })

/-- The records of a route for one sink: its entry of `batchBySink`. -/
def RouteResult.sinkRecords (r : RouteResult) (sinkID : String) : List RecordMsg :=
  r.ends.filterMap fun
    | .sink id rec => if id = sinkID then some { r.msg with record := rec } else none
    | _ => none

/-- `recordsBySource[sourceID] = append(…, msg)` -/
def addSourceRecord (msg : RecordMsg) : List (String × List RecordMsg) → List (String × List RecordMsg)
  | [] => [(msg.sourceID, [msg])]
  | (sourceID, msgs) :: rest =>
    if sourceID = msg.sourceID then (sourceID, msgs ++ [msg]) :: rest
    else (sourceID, msgs) :: addSourceRecord msg rest

/-- A routed record enters the batches (:633-646, 720-733). -/
def enterResult (s : St) (r : RouteResult) : St :=
  let s := if r.checkpointSafe then s
    else blockSourceCheckpoint s r.msg.sourceID "record failure could not be persisted to DLQ"
  { s with
    batchBySink := fun k => s.batchBySink k ++ r.sinkRecords k
    recordsBySinkSource := fun k =>
      if r.sinkRecords k = [] then s.recordsBySinkSource k
      else addSourceRecord r.msg (s.recordsBySinkSource k)
    applied := update s.applied r.msg.sourceID (s.applied r.msg.sourceID + 1) }

/-! ## The sink write -/

def writeSink (sinkID : String) (batch : List RecordMsg) (s : St) : St × Option Err :=
  let err := E.write s.log.length sinkID batch
  (s.emit (.sinkWrite sinkID batch err), err)

/-- `retry.Do` around `sink.Write`. -/
def retryWrite (s : St) (sinkID : String) (batch : List RecordMsg) : St × Option Err :=
  Do isRetryableError (fun s => (E.retryDone s.log.length).map CtxErr.toErr)
    (writeSink E sinkID batch) C.retry s

/-- The breaker check (:899-910): whether the write goes ahead. An open breaker is only
waited for when the context has not ended. -/
def breakerGate (u : Under) (s : St) (sinkID : String) : St × Bool :=
  match s.breakers sinkID with
  | none => (s, true)
  | some cb =>
    let (cb, allowed) := cb.allow (E.now s.log.length)
    let s := { s with breakers := update s.breakers sinkID (some cb) }
    if allowed then (s, true)
    else
      let ended := E.ended u s.log.length
      (s.emit (.breakerWait sinkID ended), !ended)

/-- Every record of a batch that was not written goes to the DLQ. -/
def failBatch (sinkID : String) (cause : Cause) : St → List RecordMsg → St × Bool
  | s, [] => (s, true)
  | s, msg :: rest =>
    let (s, ok) := handleFailed C E s msg cause sinkID
    let (s, oks) := failBatch sinkID cause s rest
    (s, ok && oks)

/-- `writeToSink` after a failed write (:915-935). -/
def writeFailed (s : St) (sinkID : String) (batch : List RecordMsg)
    (recordsBySource : List (String × List RecordMsg)) (err : Err) : St :=
  let (s, dlqDurable) := failBatch C E sinkID err.toCause (recordFailure E s sinkID) batch
  if dlqDurable then s
  else blockSources s "sink failure could not be persisted to DLQ" recordsBySource

/-! ## Checkpoints -/

/-- The checkpoint of one source (:969-1022): whether the loop goes on. -/
def saveSource (ctx : Ctx) (s : St) (sinkID sourceID : String) (records : List RecordMsg)
    (wrapped : Bool) : St × Bool :=
  match E.checkpointFor s.log.length sourceID records with
  | some e =>
    let s := blockSourceCheckpoint s sourceID ("source checkpoint generation failed: " ++ e.msg)
    (recordFailure E { s with failed := true } sinkID, false)
  | none =>
    match if wrapped then E.envelope s.log.length else none with
    | some _ => (recordFailure E s sinkID, false)
    | none =>
      match E.save s.log.length with
      | some e =>
        let s := s.emit (.save ctx sourceID records (some e))
        let s := blockSourceCheckpoint s sourceID ("checkpoint save failed: " ++ e.msg)
        ({ recordFailure E s sinkID with failed := true }, false)
      | none =>
        let s := s.emit (.save ctx sourceID records none)
        if C.hasAcker sourceID then
          match E.ack s.log.length with
          | some e =>
            let s := s.emit (.ack sourceID records (some e))
            let s := blockSourceCheckpoint s sourceID
              ("external checkpoint acknowledgement failed: " ++ e.msg)
            (recordFailure E { s with failed := true } sinkID, false)
          | none => (s.emit (.ack sourceID records none), true)
        else (s, true)

/-- The loop over the sources of a batch. -/
def saveSources (ctx : Ctx) (sinkID : String) (wrapped : Bool) :
    St → List (String × List RecordMsg) → St
  | s, [] => s
  | s, (sourceID, records) :: rest =>
    if records = [] then saveSources ctx sinkID wrapped s rest
    else if s.blocked sourceID then saveSources ctx sinkID wrapped (recordFailure E s sinkID) rest
    else
      match saveSource C E ctx s sinkID sourceID records wrapped with
      | (s, true) => saveSources ctx sinkID wrapped s rest
      | (s, false) => s

/-- `writeToSink` after a successful write (:936-1022). -/
def writeSucceeded (ctx : Ctx) (s : St) (sinkID : String) (batch : List RecordMsg)
    (recordsBySource : List (String × List RecordMsg)) : St :=
  let s := recordSuccess s sinkID
  let s := { s with recordsWritten := s.recordsWritten + batch.length }
  if !C.hasStore then s
  else
    match E.stateVersions s.log.length with
    | .error _ => recordFailure E s sinkID
    | .ok hasVersions =>
      match E.sinkCommit s.log.length batch with
      | .error e =>
        recordFailure E
          (blockSources s ("sink commit metadata collection failed: " ++ e.msg) recordsBySource) sinkID
      | .ok hasCommit =>
        saveSources C E ctx sinkID (hasVersions || hasCommit) s
          (E.sourceOrder s.log.length recordsBySource)

/-- The write with retries, and what follows it. -/
def writeBatch (ctx : Ctx) (s : St) (sinkID : String) (batch : List RecordMsg)
    (recordsBySource : List (String × List RecordMsg)) : St :=
  match retryWrite C E s sinkID batch with
  | (s, some err) => writeFailed C E s sinkID batch recordsBySource err
  | (s, none) => writeSucceeded C E ctx s sinkID batch recordsBySource

/-- `writeToSink`. -/
def writeToSink (runCtx : Ctx) (u : Under) (s : St) (sinkID : String) (batch : List RecordMsg)
    (recordsBySource : List (String × List RecordMsg)) : St :=
  if batch = [] then s
  else if sinkID ∉ C.dag.sinks.map (·.id) then s
  else
    let (s, proceed) := breakerGate E u s sinkID
    if proceed then writeBatch C E (u.ctx runCtx) s sinkID batch recordsBySource else s

/-- The caller forgets a batch once `writeToSink` has returned, written or not. -/
def clearBatch (s : St) (sinkID : String) : St :=
  { s with
    batchBySink := update s.batchBySink sinkID []
    recordsBySinkSource := update s.recordsBySinkSource sinkID [] }

/-- Writes out the batches of at least `len` records: the full ones, or with `len = 1` all of them. -/
def writeDue (runCtx : Ctx) (u : Under) (len : Nat) : List String → St → St
  | [], s => s
  | sinkID :: rest, s =>
    writeDue runCtx u len rest
      (if len ≤ (s.batchBySink sinkID).length then
        clearBatch (writeToSink C E runCtx u s sinkID (s.batchBySink sinkID)
          (s.recordsBySinkSource sinkID)) sinkID
      else s)

def sinkIDs : List String := C.dag.sinks.map (·.id)

def writeFull (runCtx : Ctx) (s : St) : St := writeDue C E runCtx .run C.batchSize (sinkIDs C) s

def flushAll (runCtx : Ctx) (s : St) : St := writeDue C E runCtx .flush 1 (sinkIDs C) s

/-! ## The routers -/

/-- One message of the sequential router. A panic in the route ends it. -/
def receive (runCtx : Ctx) (s : St) (msg : RecordMsg) : St :=
  match routeRecord C E s msg with
  | (s, .error _) => { s with failed := true, routerDone := true }
  | (s, .ok (ends, safe)) =>
    writeFull C E runCtx (enterResult (s.emit (.routed msg ends)) { msg, ends, checkpointSafe := safe })

/-- `applyResult` of the parallel router. -/
def applyResult (runCtx : Ctx) (s : St) (r : RouteResult) : St :=
  let s := enterResult s r
  if E.ctxErr s.log.length then s else writeFull C E runCtx s

def isNext (s : St) (sourceID : String) (r : RouteResult) : Bool :=
  r.msg.sourceID == sourceID && r.msg.seq == s.nextSeq sourceID

/-- `drainSource`: each turn removes one pending result, so `pending.length` turns are enough. -/
def drainSource (runCtx : Ctx) (sourceID : String) : Nat → St → St
  | 0, s => s
  | turns + 1, s =>
    match s.pending.find? (isNext s sourceID) with
    | none => s
    | some r =>
      drainSource runCtx sourceID turns
        (applyResult C E runCtx
          { s with
            pending := s.pending.filter (fun x => !isNext s sourceID x)
            nextSeq := update s.nextSeq sourceID (s.nextSeq sourceID + 1) } r)

def drainSources (runCtx : Ctx) : List String → St → St
  | [], s => s
  | sourceID :: rest, s =>
    drainSources runCtx rest (drainSource C E runCtx sourceID s.pending.length s)

def takeResult (runCtx : Ctx) (s : St) (r : RouteResult) : St :=
  let s := { s with pending := s.pending ++ [r] }
  drainSource C E runCtx r.msg.sourceID s.pending.length s

/-! ## Runs -/

inductive Step
  /-- a reader sends the next record of its source -/
  | deliver (sourceID : String) (rec : Record)
  /-- the sequential router takes a message -/
  | receive
  /-- one of the workers finishes; the workers hold the oldest messages in flight -/
  | work (i : Nat)
  /-- the parallel router takes a result -/
  | result
  | tick
  /-- the run's context has ended and the forwarder returns; only `k` messages reached the workers -/
  | forwarderStops (k : Nat)
  /-- the channel the router reads is closed and drained -/
  | closed
  /-- the sequential router sees the end of the run's context -/
  | ctxDone

def deliver (s : St) (sourceID : String) (rec : Record) : St :=
  if sourceID ∈ C.dag.sources.map (·.id) then
    { s with
      nextRead := update s.nextRead sourceID (s.nextRead sourceID + 1)
      inFlight :=
        if s.forwarding then s.inFlight ++ [⟨rec, sourceID, s.nextRead sourceID⟩] else s.inFlight }
  else s

def finish (runCtx : Ctx) (s : St) : St := { flushAll C E runCtx s with routerDone := true }

/-- A step of the sequential router (`workers <= 1`). -/
def stepSequential (runCtx : Ctx) (s : St) : Step → St
  | .receive =>
    match s.inFlight with
    | [] => s
    | msg :: rest => receive C E runCtx { s with inFlight := rest } msg
  | .tick => flushAll C E runCtx s
  | .closed => if s.inFlight = [] then finish C E runCtx s else s
  | .ctxDone => finish C E runCtx s
  | _ => s

/-- A step of the parallel router, its forwarder or its workers. -/
def stepParallel (runCtx : Ctx) (s : St) : Step → St
  | .work i =>
    match s.inFlight[i]? with
    | none => s
    | some msg =>
      if i < C.workers then
        let (s', r) := routeSafely C E { s with inFlight := s.inFlight.eraseIdx i } msg
        { s' with results := s'.results ++ [r] }
      else s
  | .result =>
    match s.results with
    | [] => s
    | r :: rest => takeResult C E runCtx { s with results := rest } r
  | .tick => flushAll C E runCtx s
  | .forwarderStops k => { s with inFlight := s.inFlight.take k, forwarding := false }
  | .closed =>
    if s.inFlight = [] ∧ s.results = [] then
      finish C E runCtx (drainSources C E runCtx (C.dag.sources.map (·.id)) s)
    else s
  | _ => s

def step (runCtx : Ctx) (s : St) (i : Step) : St :=
  if s.routerDone then s
  else
    let s := s.emit .call
    match i with
    | .deliver sourceID rec => deliver C s sourceID rec
    | i => if 1 < C.workers then stepParallel C E runCtx s i else stepSequential C E runCtx s i

/-- The state in which `Start` leaves the executor, with the breakers `buildRuntime` made. -/
def St.start : St where
  breakers id := if id ∈ sinkIDs C then some (newCircuitBreaker {}) else none

end

end OpenEtl.Orchestrator
