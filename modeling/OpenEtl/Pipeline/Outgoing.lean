import OpenEtl.Pipeline.Commit

/-!
# Where the runner sends records

A write to the DLQ is of a record in `D`, a write to the sink of records in `W`. `writeBatch_goes`: it is enough that the
transform stage gives up records in `D` and hands on records in `W`.
-/

namespace OpenEtl.Pipeline

open Storage (Ctx)
open Trace (Grew)

section

variable (C : Cfg) (E : Env) {D W : Item → Prop}

/-- **Where the records of a batch go.** To the DLQ: what was rejected, what the transform stage gave up, and what it
handed on; to the sink: what it handed on. -/
theorem writeBatch_goes (hWD : ∀ it, W it → D it) (runCtx : Ctx) (s : St) {batch : List Item}
    (hrej : ∀ it ∈ batch, it.record.rejection ≠ none → D it)
    (hstage : StageIn C D W (batch.filter (·.record.rejection.isNone))) :
    Grew (Event.Goes D W) s.log (writeBatch C E runCtx s batch).log := by
  obtain ⟨hprep, hsurv⟩ := prepareBatch_sent C E hWD s batch hstage
  have hbefore := (rejectRecords_spec C E batch s hrej).1.trans hprep
  exact (hbefore.does.trans (writeBatch_does C E hWD runCtx s batch hsurv)).log.mono fun _ he => he.2

end

end OpenEtl.Pipeline
