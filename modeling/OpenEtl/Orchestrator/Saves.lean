import OpenEtl.Orchestrator.Commit
import OpenEtl.Orchestrator.Invariant
import OpenEtl.Storage.Fence

/-!
# The contexts under which the DAG executor saves checkpoints

Full batches are written under the run's context, and so are their checkpoints; `flushAll` makes a
context of its own out of `context.Background()` (executor.go:657, 744), which carries no fence.
-/

namespace OpenEtl.Orchestrator

open Storage (Ctx)
open Trace (Grew)

section

variable (C : Cfg) (E : Env)

/-- `P` allows what the routers log when they write batches out, under a context. -/
def WritingAll (P : Event → Prop) (ctx : Ctx) : Prop := ∀ batch, Writing P ctx batch

variable {P : Event → Prop}

theorem writeDue_logs (runCtx : Ctx) (u : Under) (hP : WritingAll P (u.ctx runCtx)) (len : Nat) :
    ∀ (sinkIDs : List String) (s : St), Grew P s.log (writeDue C E runCtx u len sinkIDs s).log
  | [], s => Grew.refl _ _
  | sinkID :: rest, s => by
    refine Grew.trans ?_ (writeDue_logs runCtx u hP len rest _)
    split
    · exact (writeToSink_adds C E (hP _) s sinkID _).events
    · exact Grew.refl _ _

theorem enterResult_log (s : St) (r : RouteResult) : (enterResult s r).log = s.log := by
  unfold enterResult blockSourceCheckpoint
  split
  · rfl
  split <;> rfl

/-! ## The routers -/

variable {runCtx : Ctx}

theorem receive_logs (hP : WritingAll P runCtx) (hroute : Routes P) (s : St) (msg : RecordMsg) :
    Grew P s.log (receive C E runCtx s msg).log := by
  have hrouted := (routeRecord_adds C E hroute s msg).events
  unfold receive
  rcases hr : routeRecord C E s msg with ⟨s1, text | ⟨ends, safe⟩⟩ <;> rw [hr] at hrouted
  · exact hrouted
  · have hemit := (Adds.emit s1 (hroute.routed msg ends)).events
    have hfull := writeDue_logs C E runCtx .run hP C.batchSize (sinkIDs C)
      (enterResult (s1.emit (.routed msg ends)) { msg, ends, checkpointSafe := safe })
    rw [enterResult_log] at hfull
    exact (hrouted.trans hemit).trans hfull

/-- Taking results logs what writing batches out does. -/
theorem logs_drained (hP : WritingAll P runCtx) (s : St) : Drained C E runCtx fun s' => Grew P s.log s'.log where
  full s' h := h.trans (writeDue_logs C E runCtx .run hP C.batchSize (sinkIDs C) s')
  next _ s' sourceID r _ h := by
    rw [enterResult_log]
    exact h

theorem logs_kept (hP : WritingAll P runCtx) (hroute : Routes P) (hcall : P .call) (s : St) :
    Kept C E runCtx fun s' => Grew P s.log s'.log where
  toDrained := logs_drained C E hP s
  call s' h := h.trans (Grew.snoc s'.log hcall)
  done _ h := h
  receive _ s' msg rest _ _ h := h.trans (receive_logs C E hP hroute { s' with inFlight := rest } msg)
  work _ s' i msg _ h := h.trans (routeSafely_adds C E hroute { s' with inFlight := s'.inFlight.eraseIdx i } msg).events
  result _ _ _ _ _ h := h
  stops _ _ _ h := h

/-! ## Steps -/

theorem routes_savesUnder (ctx : Ctx) : Routes (Event.SavesUnder ctx) where
  dlq _ _ _ _ := trivial
  noDLQ _ _ _ := trivial
  visit _ := trivial
  routed _ _ := trivial

theorem deliver_log (s : St) (sourceID : String) (rec : Record) : (deliver C s sourceID rec).log = s.log := by
  unfold deliver
  split <;> rfl

theorem step_under (runCtx : Ctx) (s : St) (i : Step) (hi : i.fenced = true) :
    Grew (Event.SavesUnder runCtx) s.log (step C E runCtx s i).log := by
  refine (logs_kept C E (Writing.savesUnder runCtx) (routes_savesUnder runCtx) trivial s).step ?_ ?_ (Grew.refl _ _)
  · intro sourceID rec _ s' h
    rw [deliver_log]
    exact h
  · intro hflush
    simp [hi] at hflush

theorem step_grows (runCtx : Ctx) (s : St) (i : Step) : s.log <+: (step C E runCtx s i).log := by
  have hany (ctx : Ctx) : WritingAll (fun _ => True) ctx := fun _ => ⟨⟨by simp, by simp⟩, by simp, by simp, by simp, by simp⟩
  have hkept := logs_kept C E (hany runCtx) ⟨⟨by simp, by simp⟩, by simp, by simp⟩ trivial s
  refine (hkept.step ?_ ?_ (Grew.refl _ _)).grows
  · intro sourceID rec _ s' h
    rw [deliver_log]
    exact h
  · exact fun _ s' h => h.trans (writeDue_logs C E runCtx .flush (hany _) 1 (sinkIDs C) s')

/-- The call of `Save` behind an event; the checkpoints of a source have a job of their own
(executor.go:976). -/
def saveCall (name : String) : Event → Option Storage.SaveCall
  | .save ctx sourceID _ err => some { ctx, jobName := name ++ "-" ++ sourceID, err }
  | _ => none

/-- The executor, as the checkpoint store sees it. -/
def engine (name : String) : Storage.Engine where
  State := St
  Step := Step
  Event := Event
  step := step C E
  log := St.log
  save := saveCall name
  fenced := Step.fenced
  grows := step_grows C E
  under := by
    intro ctx s i hi e he c hc
    have hu := (step_under C E ctx s i hi).added e he
    cases e <;> simp only [saveCall, Option.some.injEq, reduceCtorEq] at hc
    rw [← hc]
    exact hu

end

end OpenEtl.Orchestrator
