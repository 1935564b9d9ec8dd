import OpenEtl.Core.Sink
import OpenEtl.Core.Transform
import OpenEtl.Retry.Do
import OpenEtl.Pipeline.CircuitBreaker
import OpenEtl.Storage.Context

/-!
# The linear runner's batch commit (`pipeline/pipeline.go:1155-1840`)

Everything the runner asks of the outside (transforms, sink, DLQ, checkpoint store, source position,
clock, expiry of a context) is answered by an environment `Env` indexed by the number of events
logged so far, and every question is followed by an event. A theorem about every `Env` is therefore
about every choice of outcomes along every run.

Hooks, alerts, log lines and metrics are left out: nothing reads them back.
-/

namespace OpenEtl.Pipeline

open Retry

open Storage (Ctx)

inductive Fate
  | rejected
  | filtered
  | failed
  /-- output of the record transforms -/
  | output (r : Item)
  /-- it went through `ApplyBatch` with its batch; this is what came out, and what failed -/
  | batched (outs failures : List Item)
deriving DecidableEq, Repr

inductive Event
  /-- a call of `writeBatch` or `flushPendingCheckpoint` begins -/
  | call
  | routed (it : Item) (fate : Fate)
  | sinkWrite (its : List Item) (res : WriteResult)
  /-- the context ended before a slot of the write limiter was free -/
  | noSlot (err : CtxErr)
  | dlq (it : Item) (cause : Cause) (err : Option Err)
  /-- no DLQ writer is configured -/
  | noDLQ (it : Item) (cause : Cause)
  | breakerWait (expired : Bool)
  | save (ctx : Ctx) (processed : List Item) (err : Option Err)
  | ack (processed : List Item) (err : Option Err)
deriving DecidableEq, Repr

/-- Which of the two interfaces the reader implements. -/
inductive Checkpointer
  | batchRecord | record | neither
deriving DecidableEq, Repr

structure Cfg where
  retry : Config := defaultConfig
  /-- `ValidateSpec` rejects a retry section without attempts (spec.go:548) -/
  retry_pos : 0 < retry.maxAttempts := by first | exact OpenEtl.Retry.defaultConfig_pos | decide
  transforms : List Transform := []
  transformWorkers : Nat := 1
  hasDLQ : Bool := true
  /-- `reader` and `checkpointStore` are set -/
  hasStore : Bool := true
  checkpointer : Checkpointer := .record
  /-- the reader implements `CheckpointAcker` -/
  hasAcker : Bool := false
  hasLimiter : Bool := false
  /-- `MetadataIdentityRequired(spec)` -/
  identityRequired : Bool := false
  /-- `RecordIdentity(rec).Complete`, or the error for an incomplete identity -/
  identity : Record → Option Cause := fun _ => none
  checkpointInterval : Int := 0

structure Env where
  dlq : Nat → Item → Option Err := fun _ _ => none
  write : Nat → List Item → WriteResult := fun _ _ => {}
  limiter : Nat → Option CtxErr := fun _ => none
  /-- what ends a back-off wait of `retry.Do`: `some` for the context -/
  retryDone : Nat → Option CtxErr := fun _ => none
  checkpointFor : Nat → List Item → Option Err := fun _ _ => none
  /-- `StateSnapshotVersions`: an error, or whether there are any -/
  stateVersions : Nat → Except Err Bool := fun _ => .ok false
  /-- `BuildSinkCommitMetadata`: an error, or whether there is any -/
  sinkCommit : Nat → List Item → Except Err Bool := fun _ _ => .ok false
  envelope : Nat → Option Err := fun _ => none
  save : Nat → Option Err := fun _ => none
  ack : Nat → Option Err := fun _ => none
  now : Nat → Int := fun _ => 0
  /-- the commit context ends before the cooldown of an open breaker does -/
  waitExpires : Nat → Bool := fun _ => false

/-- The fields of `Runner` that one execution changes, and the log. -/
structure St where
  log : List Event := []
  checkpointBlocked : Bool := false
  checkpointBlockReason : String := ""
  pendingCheckpointProcessed : List Item := []
  pendingCheckpointCommitted : List Item := []
  uncheckpointedBatches : Nat := 0
  lastCheckpointSave : Int := 0
  circuitBreaker : Option CircuitBreaker := none
  recordsWritten : Nat := 0
  recordsFailed : Nat := 0
  recordsDLQ : Nat := 0
  /-- `StatusFailed` was set and the run cancelled -/
  failed : Bool := false
  /-- how many source records have been handed to `writeBatch` -/
  handed : Nat := 0
deriving DecidableEq, Repr

def St.emit (s : St) (e : Event) : St := { s with log := s.log ++ [e] }

section

variable (C : Cfg) (E : Env)

/-! ## Failures -/

def recordFailure (s : St) : St :=
  { s with circuitBreaker := s.circuitBreaker.map (·.recordFailure (E.now s.log.length)) }

/-- `blockCheckpoint`: the first reason is kept. -/
def blockCheckpoint (s : St) (reason : String) : St :=
  { s with
    checkpointBlocked := true
    checkpointBlockReason := if s.checkpointBlockReason = "" then reason else s.checkpointBlockReason }

/-- `handleFailedRecord`: whether the record is durable in the DLQ. -/
def handleFailedRecord (s : St) (it : Item) (cause : Cause) : St × Bool :=
  let s := { s with recordsFailed := s.recordsFailed + 1 }
  if C.hasDLQ then
    match E.dlq s.log.length it with
    | some dlqErr =>
      let s := recordFailure E (s.emit (.dlq it cause (some dlqErr)))
      (blockCheckpoint s ("DLQ persistence failed: " ++ dlqErr.msg), false)
    | none => ({ s.emit (.dlq it cause none) with recordsDLQ := s.recordsDLQ + 1 }, true)
  else
    (blockCheckpoint (s.emit (.noDLQ it cause)) "record failure occurred without a configured DLQ writer",
      false)

/-- `handleFailedRecord` over a list; the flag says that all were durable. -/
def handleFailedRecords : St → List (Item × Cause) → St × Bool
  | s, [] => (s, true)
  | s, (it, cause) :: rest =>
    let (s, ok) := handleFailedRecord C E s it cause
    let (s, oks) := handleFailedRecords s rest
    (s, ok && oks)

/-- `sourceRecordRejectionError` (identity_contract.go:83). -/
def sourceRecordRejectionError (r : RecordRejection) : Cause :=
  let message := if r.message = "" then "source record rejected" else r.message
  { msg := if r.code = "" then message else r.code ++ ": " ++ message
    classified := some (r.cls.getD .data) }

/-- The first loop of `writeBatch` (:1211): rejected records go to the DLQ. -/
def rejectRecords : St → List Item → St × Bool
  | s, [] => (s, true)
  | s, it :: rest =>
    match it.record.rejection with
    | none => rejectRecords s rest
    | some rej =>
      let (s, ok) := handleFailedRecord C E (s.emit (.routed it .rejected)) it (sourceRecordRejectionError rej)
      let (s, oks) := rejectRecords s rest
      (s, ok && oks)

/-! ## Transforms -/

/-- What the transform stage hands on (the locals of `writeBatch`). -/
structure Stage where
  transformed : List Item := []
  filteredCount : Nat := 0
  transformFailureCount : Nat := 0
  batchTransformZeroOutput : Bool := false
  checkpointBoundarySafe : Bool := true

def hasBatchTransform : Bool := C.transforms.any (·.applyBatch.isSome)

def canParallelizeRecordTransforms : Bool :=
  decide (1 < C.transformWorkers) && !C.transforms.isEmpty &&
    C.transforms.all (fun t => t.applyBatch.isNone && !t.stateful)

/-- The result of one record transform, entered into the stage (:1479-1493, 1527-1543). -/
def applyResult (s : St) (it : Item) (res : Except TransformErr Record) : St × Stage :=
  match res with
  | .error .filtered => (s.emit (.routed it .filtered), { filteredCount := 1 })
  | .error (.failed e) =>
    let (s, ok) := handleFailedRecord C E (s.emit (.routed it .failed)) it e
    (s, { transformFailureCount := 1, checkpointBoundarySafe := ok })
  | .ok r =>
    let out := { it with record := r }
    (s.emit (.routed it (.output out)), { transformed := [out] })

def Stage.append (a b : Stage) : Stage where
  transformed := a.transformed ++ b.transformed
  filteredCount := a.filteredCount + b.filteredCount
  transformFailureCount := a.transformFailureCount + b.transformFailureCount
  batchTransformZeroOutput := a.batchTransformZeroOutput || b.batchTransformZeroOutput
  checkpointBoundarySafe := a.checkpointBoundarySafe && b.checkpointBoundarySafe

/-- `applyRecordTransformsSerial`: each record is transformed when its turn comes. -/
def applyRecordTransformsSerial : St → Nat → List Item → St × Stage
  | s, _, [] => (s, {})
  | s, i, it :: rest =>
    let (s, a) := applyResult C E s it (chainApply C.transforms s.log.length i it.record)
    let (s, b) := applyRecordTransformsSerial s (i + 1) rest
    (s, a.append b)

/-- The second half of `applyRecordTransformsParallel`: results are entered in batch order. -/
def enterResults : St → List (Item × Except TransformErr Record) → St × Stage
  | s, [] => (s, {})
  | s, (it, res) :: rest =>
    let (s, a) := applyResult C E s it res
    let (s, b) := enterResults s rest
    (s, a.append b)

/-- `applyRecordTransformsParallel`: the workers transform all records first. -/
def applyRecordTransformsParallel (s : St) (batch : List Item) : St × Stage :=
  let t := s.log.length
  enterResults C E s (batch.mapIdx fun i it => (it, chainApply C.transforms t i it.record))

def applyRecordTransforms (s : St) (batch : List Item) : St × Stage :=
  if canParallelizeRecordTransforms C && decide (1 < batch.length) then
    applyRecordTransformsParallel C E s batch
  else applyRecordTransformsSerial C E s 0 batch

/-- The log entries for a batch that went through `ApplyBatch`. -/
def routeAll (s : St) (batch : List Item) (fate : Fate) : St :=
  { s with log := s.log ++ batch.map (Event.routed · fate) }

/-- The transform stage of `writeBatch` (:1226-1257); `none` is the early return after an
error that is not partial. -/
def transformBatch (s : St) (batch : List Item) (safe : Bool) : St × Option Stage :=
  if batch = [] then (s, some { checkpointBoundarySafe := safe })
  else if hasBatchTransform C then
    match chainApplyBatch C.transforms s.log.length batch with
    | .failed e =>
      ((handleFailedRecords C E (routeAll s batch .failed) (batch.map (·, e))).1, none)
    | .ok out failures =>
      let s := routeAll s batch (.batched out (failures.map Prod.fst))
      let (s, ok) := handleFailedRecords C E s failures
      (s, some
        { transformed := out
          transformFailureCount := failures.length
          batchTransformZeroOutput := out.isEmpty
          checkpointBoundarySafe := safe && ok })
  else
    -- the flag of the rejected records is overwritten here, as in the source
    let (s, st) := applyRecordTransforms C E s batch
    (s, some st)

/-- The identity gate (:1263-1281): what passes, how many did not, and the flag. -/
def identityGate : St → List Item → St × (List Item × Nat × Bool)
  | s, [] => (s, ([], 0, true))
  | s, it :: rest =>
    match C.identity it.record with
    | none =>
      let (s, (valid, n, ok)) := identityGate s rest
      (s, (it :: valid, n, ok))
    | some cause =>
      let (s, ok₁) := handleFailedRecord C E s it cause
      let (s, (valid, n, ok)) := identityGate s rest
      (s, (valid, n + 1, ok₁ && ok))

/-! ## The sink write -/

def writeSink (s : St) (its : List Item) : St × Option Err :=
  match if C.hasLimiter then E.limiter s.log.length else none with
  | some e => (s.emit (.noSlot e), some e.toErr)
  | none =>
    let res := E.write s.log.length its
    (s.emit (.sinkWrite its res), res.err)

/-- `retry.Do` around `writeSink`. -/
def retryWrite (s : St) (its : List Item) : St × Option Err :=
  Do isRetryableError (fun s => (E.retryDone s.log.length).map CtxErr.toErr)
    (fun s => writeSink C E s its) C.retry s

/-- `records[idx]` when the index is in range. -/
def recordAt (records : List Item) (idx : Int) : Option Item :=
  if idx < 0 then none else records[idx.toNat]?

/-- The loop of `partialBatchFailures`: an index out of range discards the listing. -/
def partialFailuresLoop (err : Err) (p : PartialBatch) (records : List Item) :
    List Int → List Int → Option (List (Item × Cause))
  | [], _ => some []
  | idx :: rest, seen =>
    match recordAt records idx with
    | none => none
    | some it =>
      if idx ∈ seen then partialFailuresLoop err p records rest seen
      else (partialFailuresLoop err p records rest (idx :: seen)).map
        ((it, (p.errorForRecord idx).getD err.toCause) :: ·)

def partialBatchFailures (err : Err) (records : List Item) : Option (List (Item × Cause)) :=
  match err.partialBatch with
  | none => none
  | some p =>
    if p.failedRecordIndices = [] then none
    else partialFailuresLoop err p records p.failedRecordIndices []

/-- `writeRecordsIndividually`: the number written and the failures. -/
def writeRecordsIndividually : St → List Item → St × (Nat × List (Item × Cause))
  | s, [] => (s, (0, []))
  | s, it :: rest =>
    let (s, r) := retryWrite C E s [it]
    let (s, (good, failures)) := writeRecordsIndividually s rest
    match r with
    | none => (s, (good + 1, failures))
    | some e => (s, (good, (it, e.toCause) :: failures))

def addRecordsWritten (s : St) (delta : Nat) : St := { s with recordsWritten := s.recordsWritten + delta }

/-- `writeBatch` after a failed write (:1335-1390). -/
def writeFailed (s : St) (transformed : List Item) (err : Err) : St :=
  let s := recordFailure E s
  let (s, (good, failures)) :=
    match partialBatchFailures err transformed with
    | some failures => (s, (transformed.length - failures.length, failures))
    | none => writeRecordsIndividually C E s transformed
  (handleFailedRecords C E (addRecordsWritten s good) failures).1

/-- The breaker check (:1316-1323): whether the write goes ahead. -/
def breakerGate (s : St) : St × Bool :=
  match s.circuitBreaker with
  | none => (s, true)
  | some cb =>
    let (cb, allowed) := cb.allow (E.now s.log.length)
    let s := { s with circuitBreaker := some cb }
    if allowed then (s, true)
    else
      let expired := E.waitExpires s.log.length
      (s.emit (.breakerWait expired), !expired)

/-! ## Checkpoints -/

/-- Everything of `saveCommittedCheckpoint` between the source position and `Save` that can fail:
state versions, sink commit metadata and the envelope around them. -/
def buildEnvelope (s : St) (committed : List Item) : Option String :=
  match E.stateVersions s.log.length with
  | .error e => some ("state snapshot version collection failed: " ++ e.msg)
  | .ok hasVersions =>
    match if committed = [] then .ok false else E.sinkCommit s.log.length committed with
    | .error e => some ("sink commit metadata collection failed: " ++ e.msg)
    | .ok hasCommit =>
      if hasVersions || hasCommit then
        (E.envelope s.log.length).map fun e => "checkpoint envelope build failed: " ++ e.msg
      else none

/-- `checkpointStore.Save` and what follows it (:1752-1803). -/
def persistCheckpoint (ctx : Ctx) (s : St) (processed : List Item) : St × Bool :=
  match E.save s.log.length with
  | some e =>
    let s := s.emit (.save ctx processed (some e))
    (recordFailure E (blockCheckpoint s ("checkpoint save failed: " ++ e.msg)), false)
  | none =>
    let s := s.emit (.save ctx processed none)
    if C.hasAcker then
      match E.ack s.log.length with
      | some e =>
        let s := s.emit (.ack processed (some e))
        let s := blockCheckpoint s ("external checkpoint acknowledgement failed: " ++ e.msg)
        (recordFailure E { s with failed := true }, false)
      | none =>
        let s := s.emit (.ack processed none)
        ({ s with lastCheckpointSave := E.now s.log.length, uncheckpointedBatches := 0 }, true)
    else ({ s with lastCheckpointSave := E.now s.log.length, uncheckpointedBatches := 0 }, true)

/-- `saveCommittedCheckpoint`: whether a checkpoint was saved and acknowledged. -/
def saveCommittedCheckpoint (ctx : Ctx) (s : St) (processed committed : List Item) : St × Bool :=
  if !C.hasStore || processed.isEmpty then (s, false)
  else if s.checkpointBlocked then (recordFailure E s, false)
  else if C.checkpointer = .neither then (s, false)
  else
    match E.checkpointFor s.log.length processed with
    | some e =>
      let s := blockCheckpoint s ("source checkpoint generation failed: " ++ e.msg)
      (recordFailure E { s with failed := true }, false)
    | none =>
      match buildEnvelope E s committed with
      | some _ => (recordFailure E s, false)
      | none => persistCheckpoint C E ctx s processed

/-- `time.Since(r.lastCheckpointSave) >= r.checkpointInterval || r.uncheckpointedBatches >= 10` -/
def saveDue (s : St) : Bool :=
  decide (E.now s.log.length - s.lastCheckpointSave ≥ C.checkpointInterval) ||
    decide (10 ≤ s.uncheckpointedBatches)

def flushPendingCheckpoint (ctx : Ctx) (force : Bool) (s : St) : St :=
  if s.pendingCheckpointProcessed.isEmpty then s
  else if !force && !saveDue C E s then s
  else
    let (s, ok) := saveCommittedCheckpoint C E ctx s s.pendingCheckpointProcessed
      s.pendingCheckpointCommitted
    if ok then { s with pendingCheckpointProcessed := [], pendingCheckpointCommitted := [] } else s

/-! ## `writeBatch` -/

def recordSuccess (s : St) : St := { s with circuitBreaker := s.circuitBreaker.map (·.recordSuccess) }

/-- A written batch joins the boundary to be checkpointed. -/
def appendPending (s : St) (processed transformed : List Item) : St :=
  { s with
    uncheckpointedBatches := s.uncheckpointedBatches + 1
    pendingCheckpointProcessed := s.pendingCheckpointProcessed ++ processed
    pendingCheckpointCommitted := s.pendingCheckpointCommitted ++ transformed }

/-- `writeBatch` after a successful write (:1393-1428). -/
def writeSucceeded (ctx : Ctx) (s : St) (processed transformed : List Item) (safe : Bool) : St :=
  let s := recordSuccess (addRecordsWritten s transformed.length)
  if safe then
    let s := appendPending s processed transformed
    if saveDue C E s then flushPendingCheckpoint C E ctx true s else s
  else recordFailure E s

/-- The sink half of `writeBatch`: breaker, write, and what follows. -/
def commitBatch (ctx : Ctx) (s : St) (processed transformed : List Item) (safe : Bool) : St :=
  let (s, proceed) := breakerGate E s
  if !proceed then s
  else
    let (s, r) := retryWrite C E s transformed
    match r with
    | some err => writeFailed C E s transformed err
    | none => writeSucceeded C E ctx s processed transformed safe

/-- What `writeBatch` knows when it reaches the sink: the stage after the identity gate, the number of
rejected records and the number that failed the gate. -/
structure Prepared extends Stage where
  sourceFailureCount : Nat
  identityFailureCount : Nat

/-- The identity gate over the transformed records, when the sink takes its key from metadata. -/
def gateTransformed (s : St) (st : Stage) (sourceFailures : Nat) : St × Prepared :=
  if C.identityRequired then
    let (s, (valid, identityFailures, ok)) := identityGate C E s st.transformed
    (s,
      { st with
        transformed := valid
        checkpointBoundarySafe := st.checkpointBoundarySafe && ok
        sourceFailureCount := sourceFailures
        identityFailureCount := identityFailures })
  else (s, { st with sourceFailureCount := sourceFailures, identityFailureCount := 0 })

/-- `writeBatch` up to the identity gate (:1193-1281); `none` is its early return. -/
def prepareBatch (s : St) (batch : List Item) : St × Option Prepared :=
  let (s, safe) := rejectRecords C E s batch
  let accepted := batch.filter (·.record.rejection.isNone)
  match transformBatch C E s accepted safe with
  | (s, none) => (s, none)
  | (s, some st) =>
    let (s, p) := gateTransformed C E s st (batch.length - accepted.length)
    (s, some p)

/-- When a batch without survivors is checkpointed (:1289-1297). -/
def zeroSurvivorSaves (processed : Nat) (p : Prepared) : Bool :=
  ((decide (0 < p.sourceFailureCount) || decide (0 < p.identityFailureCount)) &&
      decide (p.transformFailureCount = 0) && p.checkpointBoundarySafe &&
      !p.batchTransformZeroOutput) ||
    (!hasBatchTransform C && decide (p.filteredCount = processed) &&
      decide (p.transformFailureCount = 0))

/-- `writeBatch`. Everything durable runs under a context derived from `context.Background()`; the
caller's context only bounds it, and bounds the single-row writes. -/
def writeBatch (_runCtx : Ctx) (s : St) (batch : List Item) : St :=
  let ctx := Ctx.background
  match prepareBatch C E s batch with
  | (s, none) => s
  | (s, some p) =>
    if p.transformed = [] then
      if zeroSurvivorSaves C batch.length p then (saveCommittedCheckpoint C E ctx s batch []).1 else s
    else commitBatch C E ctx s batch p.transformed p.checkpointBoundarySafe

/-! ## Runs -/

inductive Call
  /-- a full batch, or the batch of a tick, under the run's context -/
  | batch (recs : List Record)
  /-- the last batch, at EOF or shutdown: the throttle is lifted and the context is a fresh one -/
  | lastBatch (recs : List Record)
  /-- records that `FlushChain` drained from the transforms at EOF; they name no source position -/
  | flushed (recs : List Record)
  /-- the tick's `flushPendingCheckpoint(ctx, false)` -/
  | tick
  /-- `flushPendingCheckpoint(flushCtx, true)` at EOF or shutdown -/
  | final

/-- Records in the order they were read, numbered after the `n` read before them. -/
def number (n : Nat) (recs : List Record) : List Item := recs.mapIdx fun i r => ⟨n + i + 1, r⟩

/-- The state and the batch with which a call is entered. -/
def enter (s : St) : Call → St × List Item
  | .batch recs => ({ s.emit .call with handed := s.handed + recs.length }, number s.handed recs)
  | .lastBatch recs =>
    ({ s.emit .call with handed := s.handed + recs.length, uncheckpointedBatches := 10 },
      number s.handed recs)
  | .flushed recs => ({ s.emit .call with uncheckpointedBatches := 10 }, recs.map (⟨0, ·⟩))
  | .tick | .final => (s.emit .call, [])

def step (runCtx : Ctx) (s : St) (c : Call) : St :=
  let (s, batch) := enter s c
  match c with
  | .batch _ => writeBatch C E runCtx s batch
  | .lastBatch _ | .flushed _ => writeBatch C E .background s batch
  | .tick => flushPendingCheckpoint C E runCtx false s
  | .final => flushPendingCheckpoint C E .background true s

end

end OpenEtl.Pipeline
