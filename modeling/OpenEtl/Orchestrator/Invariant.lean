import OpenEtl.Orchestrator.Executor

/-!
# Invariants of the DAG executor

A step is put together from few actions: a message is routed, a result is entered, batches are written out. A property
that each of them keeps (`Kept`) is kept by the step (`Kept.step`).
-/

namespace OpenEtl.Orchestrator

open Storage (Ctx)

/-- The steps that save under the run's context: all but those that call `flushAll`. -/
def Step.fenced : Step → Bool
  | .tick | .closed | .ctxDone => false
  | _ => true

section

variable (C : Cfg) (E : Env) (runCtx : Ctx)

/-- Taking the results of the workers in their order keeps `I`. -/
structure Drained (I : St → Prop) : Prop where
  full : ∀ s, I s → I (writeFull C E runCtx s)
  /-- a result comes to its turn -/
  next : 1 < C.workers → ∀ s sourceID r, s.pending.find? (isNext s sourceID) = some r → I s →
    I (enterResult
      { s with
        pending := s.pending.filter (fun x => !isNext s sourceID x)
        nextSeq := Function.update s.nextSeq sourceID (s.nextSeq sourceID + 1) } r)

/-- So do the other actions of the routers, the forwarder and the workers, except for `flushAll`. -/
structure Kept (I : St → Prop) : Prop extends Drained C E runCtx I where
  call : ∀ s, I s → I (s.emit .call)
  done : ∀ s, I s → I { s with routerDone := true }
  receive : ¬1 < C.workers → ∀ s msg rest, s.routerDone = false → s.inFlight = msg :: rest → I s →
    I (receive C E runCtx { s with inFlight := rest } msg)
  work : 1 < C.workers → ∀ s i msg, s.inFlight[i]? = some msg → I s →
    I { (routeSafely C E { s with inFlight := s.inFlight.eraseIdx i } msg).1 with
      results := (routeSafely C E { s with inFlight := s.inFlight.eraseIdx i } msg).1.results ++
        [(routeSafely C E { s with inFlight := s.inFlight.eraseIdx i } msg).2] }
  result : 1 < C.workers → ∀ s r rest, s.results = r :: rest → I s →
    I { s with results := rest, pending := s.pending ++ [r] }
  stops : 1 < C.workers → ∀ s k, I s → I { s with inFlight := s.inFlight.take k, forwarding := false }

variable {C E runCtx} {I : St → Prop}

theorem Drained.drainSource (h : Drained C E runCtx I) (hpar : 1 < C.workers) (sourceID : String) :
    ∀ (turns : Nat) {s : St}, I s → I (drainSource C E runCtx sourceID turns s)
  | 0, _, hs => hs
  | turns + 1, s, hs => by
    unfold Orchestrator.drainSource
    split
    · exact hs
    · rename_i r hfind
      refine h.drainSource hpar sourceID turns ?_
      have hent := h.next hpar s sourceID r hfind hs
      unfold applyResult
      simp only
      split
      · exact hent
      · exact h.full _ hent

theorem Drained.drainSources (h : Drained C E runCtx I) (hpar : 1 < C.workers) :
    ∀ (sources : List String) {s : St}, I s → I (drainSources C E runCtx sources s)
  | [], _, hs => hs
  | sourceID :: rest, _, hs => h.drainSources hpar rest (h.drainSource hpar sourceID _ hs)

/-- **What the actions keep, a step keeps.** -/
theorem Kept.step (h : Kept C E runCtx I) {s : St} {i : Step}
    (hdeliver : ∀ sourceID rec, i = .deliver sourceID rec → ∀ s, I s → I (deliver C s sourceID rec))
    (hflush : i.fenced = false → ∀ s, I s → I (flushAll C E runCtx s)) (hs : I s) : I (step C E runCtx s i) := by
  unfold Orchestrator.step
  split
  · exact hs
  rename_i hrun
  have hcall := h.call s hs
  have hfinish : i.fenced = false → ∀ s, I s → I (finish C E runCtx s) := fun hi s hs => h.done _ (hflush hi s hs)
  have hrun : (s.emit .call).routerDone = false := by simpa [St.emit] using hrun
  by_cases hpar : 1 < C.workers
  · simp only [if_pos hpar]
    cases i with
    | deliver sourceID rec => exact hdeliver sourceID rec rfl _ hcall
    | work i =>
      simp only [stepParallel]
      split
      · exact hcall
      split
      · rename_i msg hmsg _
        exact h.work hpar _ i msg hmsg hcall
      · exact hcall
    | result =>
      simp only [stepParallel]
      split
      · exact hcall
      · rename_i r rest hres
        exact h.drainSource hpar _ _ (h.result hpar (s.emit .call) r rest hres hcall)
    | tick => exact hflush rfl _ hcall
    | forwarderStops k => exact h.stops hpar _ k hcall
    | closed =>
      simp only [stepParallel]
      split
      · exact hfinish rfl _ (h.drainSources hpar _ hcall)
      · exact hcall
    | receive | ctxDone => exact hcall
  · simp only [if_neg hpar]
    cases i with
    | deliver sourceID rec => exact hdeliver sourceID rec rfl _ hcall
    | receive =>
      simp only [stepSequential]
      split
      · exact hcall
      · rename_i msg rest hin
        exact h.receive hpar _ msg rest hrun hin hcall
    | tick => exact hflush rfl _ hcall
    | closed =>
      simp only [stepSequential]
      split
      · exact hfinish rfl _ hcall
      · exact hcall
    | ctxDone => exact hfinish rfl _ hcall
    | work | result | forwarderStops => exact hcall

end

end OpenEtl.Orchestrator
