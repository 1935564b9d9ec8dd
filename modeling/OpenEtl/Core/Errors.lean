import OpenEtl.Core.Record

/-!
# Errors (`core/errors.go`)

An error value is represented by what the code asks of it: its text, what `errors.As` finds in its
chain (a `ClassifiedError`, a temporary `net.Error`, a `PartialBatchError`) and whether `errors.Is`
finds `ErrCheckpointFenced`.
-/

namespace OpenEtl

structure Cause where
  msg : String
  /-- the class of the `ClassifiedError` in the chain -/
  classified : Option ErrorClass := none
  /-- a `net.Error` in the chain is a timeout or temporary -/
  netTemporary : Bool := false
deriving DecidableEq, Repr, Inhabited

/-- `PartialBatchError`: `FailedRecordIndices` and `ErrorForRecord`. -/
structure PartialBatch where
  failedRecordIndices : List Int
  causes : List (Int × Cause) := []
deriving DecidableEq, Repr

def PartialBatch.errorForRecord (p : PartialBatch) (idx : Int) : Option Cause := p.causes.lookup idx

structure Err extends Cause where
  partialBatch : Option PartialBatch := none
  fenced : Bool := false
deriving DecidableEq, Repr, Inhabited

/-- `ctx.Err()`. `context.DeadlineExceeded` is a `net.Error` that is a timeout. -/
inductive CtxErr
  | canceled | deadlineExceeded
deriving DecidableEq, Repr

def CtxErr.toErr : CtxErr → Err
  | .canceled => { msg := "context canceled" }
  | .deadlineExceeded => { msg := "context deadline exceeded", netTemporary := true }

@[simp] theorem CtxErr.toErr_partialBatch (e : CtxErr) : e.toErr.partialBatch = none := by
  cases e <;> rfl

def containsAny (input : String) (needles : List String) : Bool := needles.any (containsStr input)

/-- `ClassifyError` of an error that is not nil. -/
def classifyError (e : Cause) : ErrorClass :=
  match e.classified with
  | some c => c
  | none =>
    if e.netTemporary then .transient
    else
      let msg := toLower e.msg
      if containsAny msg ["connection refused", "connection reset", "i/o timeout", "timeout",
        "temporarily", "too many connections", "deadlock", "try again", "broken pipe",
        "no scannode backend available", "not alive", "in black list"] then .transient
      else if containsAny msg ["access denied", "permission denied", "unauthorized", "forbidden",
        "authentication", "invalid credentials"] then .auth
      else if containsAny msg ["unknown column", "missing column", "no such column", "doesn't exist",
        "does not exist", "unknown table", "schema", "type mismatch", "cannot convert",
        "unsupported conversion"] then .schema
      else if containsAny msg ["invalid config", "is required", "unsupported", "unknown source",
        "unknown sink", "unknown transform"] then .config
      else if containsAny msg ["duplicate", "constraint", "invalid input", "parse", "decode",
        "malformed", "truncated", "out of range", "data too long", "incorrect datetime value",
        "incorrect date value", "incorrect integer value"] then .data
      else if containsAny msg ["panic", "nil pointer", "index out of range"] then .programming
      else .unknown

/-- `IsRetryableError`. -/
def isRetryableError (e : Err) : Bool :=
  match classifyError e.toCause with
  | .transient | .unknown => true
  | _ => false

end OpenEtl
