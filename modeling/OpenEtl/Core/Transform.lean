import OpenEtl.Core.Errors

/-!
# Transform chains (`core/core.go:287-412`)

What a transform does is not modelled: it may be a user script, keep state, or call out. A
`Transform` is therefore a function of the moment `t` of the call (the caller's event count) and,
for record transforms, of the index `i` of the record in its batch, so that a theorem about every
`Transform` is about every sequence of outcomes.

| here | there |
| --- | --- |
| `Item` | a `core.Record` and the place in source order its metadata names |
| `chainApply` | `TransformChain.Apply` (:329) |
| `chainApplyBatch` | `TransformChain.ApplyBatch` (:360) |
-/

namespace OpenEtl

/-- A record on its way through a pipeline. `seq` is its place in source order: the `n`-th record read
has `seq = n`, so its position covers `n` records; a record that carries no source position (a window
aggregate) has `seq = 0`. -/
structure Item where
  seq : Nat
  record : Record
deriving DecidableEq, Repr, Inhabited

/-- Error of a record transform: `ErrRecordFiltered` or another. -/
inductive TransformErr
  | filtered
  | failed (e : Cause)
deriving DecidableEq, Repr

/-- Error of `BatchTransform.ApplyBatch`: with or without a `PartialTransformError` in its chain. -/
inductive BatchErr
  | partialFailure (failed : List (Item × Cause))
  | other (e : Cause)

structure Transform where
  apply : Nat → Nat → Record → Except TransformErr Record
  /-- present when the transform implements `BatchTransform` -/
  applyBatch : Option (Nat → List Item → List Item × Option BatchErr) := none
  /-- it implements `Flusher`, `StateSnapshotter` or `StateMetricsProvider` -/
  stateful : Bool := false

/-- `TransformChain.Apply`: the first error ends the chain. -/
def chainApply (tc : List Transform) (t i : Nat) (rec : Record) : Except TransformErr Record :=
  tc.foldlM (fun r tr => tr.apply t i r) rec

/-- What `TransformChain.ApplyBatch` returns: an error that is not partial, or the records and the
failures collected on the way (a `PartialTransformError` when there are any). -/
inductive BatchResult
  | failed (e : Cause)
  | ok (out : List Item) (failures : List (Item × Cause))

/-- One record transform over a batch (:377-390): filtered records are dropped, other errors
are failures of the record as it entered this transform. -/
def applyEach (tr : Transform) (t : Nat) : Nat → List Item → List Item × List (Item × Cause)
  | _, [] => ([], [])
  | i, it :: its =>
    let (out, fs) := applyEach tr t (i + 1) its
    match tr.apply t i it.record with
    | .ok r => ({ it with record := r } :: out, fs)
    | .error .filtered => (out, fs)
    | .error (.failed e) => (out, (it, e) :: fs)

/-- The loop of `TransformChain.ApplyBatch` with the failures so far. A batch transform without
output ends it. -/
def chainApplyBatchLoop (t : Nat) : List Transform → List Item → List (Item × Cause) → BatchResult
  | [], recs, fs => .ok recs fs
  | tr :: tc, recs, fs =>
    match tr.applyBatch with
    | some applyBatch =>
      match applyBatch t recs with
      | (_, some (.other e)) => .failed e
      | (out, some (.partialFailure fs')) =>
        if out = [] then .ok [] (fs ++ fs') else chainApplyBatchLoop t tc out (fs ++ fs')
      | (out, none) => if out = [] then .ok [] fs else chainApplyBatchLoop t tc out fs
    | none =>
      let (out, fs') := applyEach tr t 0 recs
      chainApplyBatchLoop t tc out (fs ++ fs')

/-- `TransformChain.ApplyBatch`. -/
def chainApplyBatch (tc : List Transform) (t : Nat) (recs : List Item) : BatchResult :=
  chainApplyBatchLoop t tc recs []

end OpenEtl
