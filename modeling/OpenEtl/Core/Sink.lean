import OpenEtl.Core.Errors

/-!
# The write contract of a sink (`core/core.go`, `core/errors.go:84-93`)

`Sink.Write` returns an error or nil. Beside it a `WriteResult` keeps what the caller cannot see:
which records of the batch the target really took.
-/

namespace OpenEtl

structure WriteResult where
  err : Option Err := none
  /-- positions in the batch of the records the target took -/
  accepted : List Nat := []
deriving DecidableEq, Repr

/-- Nil means that the target took all `n` records. -/
def WriteResult.NilSound (n : Nat) (w : WriteResult) : Prop := w.err = none → ∀ i < n, i ∈ w.accepted

/-- A `PartialBatchError` lists positions of the batch, and the target took every record it does not
list. -/
def WriteResult.PartialSound (n : Nat) (w : WriteResult) : Prop :=
  ∀ e p, w.err = some e → e.partialBatch = some p →
    (∀ idx ∈ p.failedRecordIndices, 0 ≤ idx ∧ idx < n) ∧
      ∀ i < n, (i : Int) ∉ p.failedRecordIndices → i ∈ w.accepted

end OpenEtl
