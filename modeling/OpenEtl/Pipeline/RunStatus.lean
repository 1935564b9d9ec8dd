import OpenEtl.Lib.Trace

/-!
# The status of a runner (`pipeline/pipeline.go`)

| here | there |
| --- | --- |
| `Act.start`, `Act.openFails`, `Act.startFailed` | `Runner.Start` (:550), `markStartFailed` (:590) |
| `Act.stop`, `Act.pause` | `Runner.Stop` (:751), `Runner.Pause` (:789) |
| `Act.eof`, `Act.emptyBatch`, `Act.exhausted` | `handleReadError` (:1005), `readLoop` (:966), `markSourceExhausted` (:1039) |
| `Act.saveFails`, `Act.blocks`, `Act.fails` | `saveCommittedCheckpoint` (:1694) |
| `Act.closeRun`, `Act.endRun` | the deferred function of `runLoop` (:849) |

One act is one section under `r.mu`, or one call between two of them.
-/

namespace OpenEtl.Pipeline

open Trace

inductive Status
  | running
  | paused
  | stopped
  | failed
  | completed
deriving DecidableEq, Repr

namespace RunStatus

inductive ReadLoop
  | reading
  /-- on the way to `markSourceExhausted` -/
  | exhausting
  | ended
deriving DecidableEq, Repr

inductive WriteLoop
  | writing
  /-- checkpoints are blocked, `setStatus(StatusFailed)` comes next -/
  | failing
  /-- the status is set, `r.cancel()` comes next -/
  | cancelling
  | ended
deriving DecidableEq, Repr

inductive Phase
  | idle
  /-- `Start` opens sink and source -/
  | opening
  /-- `Start` has failed, `markStartFailed` comes next -/
  | closing
  | looping
  /-- both loops have ended and the components are closed -/
  | ending
deriving DecidableEq, Repr

structure Run where
  status : Status := .stopped
  runActive : Bool := false
  phase : Phase := .idle
  /-- `ctx.Err() != nil` -/
  cancelled : Bool := false
  reader : ReadLoop := .ended
  writer : WriteLoop := .ended
  checkpointBlocked : Bool := false
  /-- the last batch was given up: it is neither written nor recorded anywhere -/
  abandoned : Bool := false
deriving DecidableEq, Repr

inductive Act
  /-- `rebuildFails`: `buildRuntime` of a managed runner fails -/
  | start (rebuildFails : Bool)
  | openFails
  | startFailed
  | opened
  | stop
  | pause
  | parentCancel
  /-- the reader returns `io.EOF` -/
  | eof
  /-- `ReadBatch` returns no record -/
  | emptyBatch
  | exhausted
  | readEnds
  | readPanic
  | batch (abandoned : Bool)
  | saveFails
  /-- the source has no checkpoint for the records, or does not accept the one saved -/
  | blocks
  | fails
  | cancels
  | writePanic
  | writeEnds
  | loopPanic
  | closeRun
  | endRun
deriving DecidableEq, Repr

/-- `Start` gets past its two checks. -/
def Run.startable (s : Run) : Bool := s.status != .running && !s.runActive

def step (s : Run) : Act → Run
  | .start rebuildFails =>
    if s.startable then
      if rebuildFails then { s with status := .failed }
      else { status := .running, runActive := true, phase := .opening }
    else s
  | .openFails => if s.phase = .opening then { s with status := .failed, phase := .closing } else s
  | .startFailed => if s.phase = .closing then { s with runActive := false, cancelled := true, phase := .idle } else s
  | .opened => if s.phase = .opening then { s with phase := .looping, reader := .reading, writer := .writing } else s
  | .stop => if s.status = .running then { s with status := .stopped, cancelled := true } else s
  | .pause => if s.status = .running then { s with status := .paused, cancelled := true } else s
  | .parentCancel => { s with cancelled := true }
  -- the error is looked at only while the context is live
  | .eof => if s.reader = .reading ∧ s.cancelled = false then { s with reader := .exhausting } else s
  | .emptyBatch => if s.reader = .reading then { s with reader := .exhausting } else s
  | .exhausted => if s.reader = .exhausting then { s with status := .completed, reader := .ended } else s
  | .readEnds => if s.reader = .reading ∧ s.cancelled = true then { s with reader := .ended } else s
  | .readPanic => if s.reader = .ended then s else { s with status := .failed, reader := .ended }
  | .batch abandoned => if s.writer = .writing then { s with abandoned } else s
  | .saveFails => if s.writer = .writing then { s with checkpointBlocked := true } else s
  | .blocks => if s.writer = .writing then { s with checkpointBlocked := true, writer := .failing } else s
  | .fails => if s.writer = .failing then { s with status := .failed, writer := .cancelling } else s
  | .cancels => if s.writer = .cancelling then { s with cancelled := true, writer := .writing } else s
  | .writePanic => if s.writer = .ended then s else { s with status := .failed, writer := .ended }
  | .writeEnds =>
    if s.writer = .writing ∧ (s.reader = .ended ∨ s.cancelled = true) then { s with writer := .ended } else s
  | .loopPanic => if s.phase = .looping then { s with status := .failed } else s
  | .closeRun =>
    if s.phase = .looping ∧ s.reader = .ended ∧ s.writer = .ended then
      { s with status := if s.status = .running then .stopped else s.status, phase := .ending }
    else s
  | .endRun => if s.phase = .ending then { s with runActive := false, cancelled := true, phase := .idle } else s

/-! ## Failed stays failed -/

/-- A failed run is not shown completed, stopped or running by anything but a `Start`. -/
def Absorbs (s : Run) (act : Act) : Prop :=
  s.status = .failed → (∀ rebuildFails, act ≠ .start rebuildFails) →
    (step s act).status ≠ .completed ∧ (step s act).status ≠ .stopped ∧ (step s act).status ≠ .running

/-- The end of the source is not recorded in a failed run. -/
def EofInTime (s : Run) (act : Act) : Prop := act = .exhausted → s.reader = .exhausting → s.status ≠ .failed

variable {s : Run}

theorem step_failed {act : Act} (hs : s.status = .failed) (hstart : ∀ b, act ≠ .start b) (hact : act ≠ .exhausted) :
    (step s act).status = .failed := by
  cases act with
  | start b => exact absurd rfl (hstart b)
  | exhausted => exact absurd rfl hact
  -- both look for a running pipeline
  | stop | pause => simp [step, hs]
  | parentCancel => exact hs
  | _ =>
    simp only [step]
    split <;> simp [hs]

theorem absorbs_iff (s : Run) (act : Act) : Absorbs s act ↔ EofInTime s act := by
  constructor
  · rintro h rfl hr hs
    have hne := (h hs nofun).1
    simp [step, hr] at hne
  · intro h hs hstart
    have hfailed : (step s act).status = .failed := by
      by_cases hact : act = .exhausted
      · subst hact
        have hr : s.reader ≠ .exhausting := fun hr => h rfl hr hs
        simp [step, hr, hs]
      · exact step_failed hs hstart hact
    simp [hfailed]

/-! ## What a completed run has done -/

/-- A run that ends as completed has saved its checkpoints and given up no last batch. -/
def EndsClean (s : Run) (act : Act) : Prop :=
  act = .endRun → s.phase = .ending → s.status = .completed → s.checkpointBlocked = false ∧ s.abandoned = false

/-- The end of the source comes when nothing has gone wrong, and afterwards no save fails and no batch is given up. -/
def Orderly (s : Run) : Act → Prop
  | .exhausted => s.reader = .exhausting → s.checkpointBlocked = false ∧ s.abandoned = false
  | .saveFails => s.writer = .writing → s.status ≠ .completed
  | .batch abandoned => s.writer = .writing → s.status = .completed → abandoned = false
  | _ => True

structure Inv (s : Run) : Prop where
  /-- a blocked run is completed only until the write loop has set the status -/
  blocked : s.status = .completed → s.checkpointBlocked = true → s.writer = .failing
  kept : s.status = .completed → s.abandoned = false
  ended : s.phase = .ending → s.writer = .ended
  opening : s.phase = .opening → s.writer = .ended

theorem Inv.step {act : Act} (hok : Orderly s act) (h : Inv s) : Inv (RunStatus.step s act) := by
  obtain ⟨hb, hk, he, ho⟩ := h
  cases act <;> simp only [RunStatus.step] <;> (repeat' split) <;> constructor <;> simp_all [Orderly]

theorem Inv.ends (h : Inv s) (act : Act) : EndsClean s act := by
  rintro - hphase hs
  refine ⟨?_, h.kept hs⟩
  by_contra hb
  have hfailing := h.blocked hs (by simpa using hb)
  rw [h.ended hphase] at hfailing
  cases hfailing

/-- **A failed run stays failed** exactly if the end of the source is not recorded after the failure; and a run whose
saves and batches succeed once the source has ended is completed only without blocked checkpoints or a lost batch. -/
theorem failed_run_absorbs_iff (acts : List Act) :
    (∀ s, Steps Absorbs step s acts ↔ Steps EofInTime step s acts) ∧
      (Steps Orderly step {} acts → Steps EndsClean step {} acts) :=
  ⟨fun _ => steps_congr (fun _ => True) (fun s act _ => ⟨trivial, absorbs_iff s act⟩) acts trivial,
    steps_of_invariant Inv (fun _ act hok h => ⟨h.step hok, h.ends act⟩) ⟨nofun, nofun, nofun, nofun⟩⟩

/-- The acknowledgement of a checkpoint fails while the reader returns `io.EOF`: the run is failed, then completed. In
the second run the save of the last batch fails, and the run ends as completed all the same; in the third the last batch
is given up. -/
theorem eof_completes_failed_run :
    let s := run step {} [.start false, .opened, .batch false, .eof, .blocks, .fails]
    let t := run step {} [.start false, .opened, .eof, .exhausted, .batch false, .saveFails, .writeEnds, .closeRun]
    let u := run step {} [.start false, .opened, .eof, .exhausted, .batch true, .writeEnds, .closeRun]
    (s.status = .failed ∧ (step s .exhausted).status = .completed) ∧
      (t.phase = .ending ∧ t.status = .completed ∧ t.checkpointBlocked = true) ∧
      u.phase = .ending ∧ u.status = .completed ∧ u.abandoned = true := by
  decide

end RunStatus

end OpenEtl.Pipeline
