import OpenEtl.Orchestrator.Commit
import OpenEtl.Orchestrator.Invariant

/-!
# Zero loss of the DAG executor with one sink

A checkpoint saved for a source covers only records that are settled. Beside `Safe`, the invariant of a run says that
the messages of one source are entered in the order of their numbers (`Queued`): by the channel in the sequential
router, by `pending` and `nextSeq` in the parallel one. That part is the same for anything the batches may keep
(`Commits`).
-/

namespace OpenEtl.Orchestrator

open Storage (Ctx)
open List Function Trace

/-! ## The order of the messages -/

/-- The messages of each source in the channel are the ones after those entered, in order. -/
def Sequenced (inFlight : List RecordMsg) (applied nextRead : String → Nat) : Prop :=
  ∀ S, ∃ k, (inFlight.filter (·.sourceID = S)).map (·.seq) = List.range' (applied S) k ∧
    applied S + k = nextRead S

variable {applied nextRead : String → Nat}

theorem Sequenced.deliver {inFlight : List RecordMsg}
    (h : Sequenced inFlight applied nextRead) (sourceID : String) (rec : Record) :
    Sequenced (inFlight ++ [⟨rec, sourceID, nextRead sourceID⟩]) applied
      (update nextRead sourceID (nextRead sourceID + 1)) := by
  intro S
  obtain ⟨k, hl, hk⟩ := h S
  by_cases hS : sourceID = S
  · subst hS
    refine ⟨k + 1, ?_, by simp [← hk]; omega⟩
    rw [filter_append, map_append, hl, range'_concat]
    simp [hk]
  · refine ⟨k, ?_, by simp [Ne.symm hS, hk]⟩
    rw [filter_append, map_append, hl]
    simp [hS]

/-- The message at the head of the channel is the next one of its source. -/
theorem Sequenced.receive {msg : RecordMsg} {rest : List RecordMsg}
    (h : Sequenced (msg :: rest) applied nextRead) :
    msg.seq = applied msg.sourceID ∧
      Sequenced rest (update applied msg.sourceID (applied msg.sourceID + 1)) nextRead := by
  have hhead : ∃ k, msg.seq = applied msg.sourceID ∧
      (rest.filter (·.sourceID = msg.sourceID)).map (·.seq) = range' (applied msg.sourceID + 1) k ∧
      applied msg.sourceID + (k + 1) = nextRead msg.sourceID := by
    obtain ⟨k, hl, hk⟩ := h msg.sourceID
    cases k with
    | zero => simp at hl
    | succ k =>
      rw [range'_succ] at hl
      simp at hl
      exact ⟨k, hl.1, by simpa using hl.2, hk⟩
  obtain ⟨k, hseq, hl, hk⟩ := hhead
  refine ⟨hseq, fun S => ?_⟩
  by_cases hS : msg.sourceID = S
  · subst hS
    refine ⟨k, by simpa using hl, by simp; omega⟩
  · obtain ⟨k', hl', hk'⟩ := h S
    refine ⟨k', ?_, by simpa [Ne.symm hS] using hk'⟩
    rw [update_of_ne (Ne.symm hS), ← hl']
    simp [hS]

/-- What is known of the messages of a run, and of where their routes end. -/
structure Traffic (C : Cfg) (E : Env) where
  msg : RecordMsg → Prop
  ends : RecordMsg → List Branch → Prop
  route : ∀ {s m}, msg m → ∀ {es safe}, (routeRecord C E s m).2 = .ok (es, safe) → ends m es
  panic : ∀ {m}, msg m → ends m [.failed "" m.record]

/-- Nothing. -/
def Traffic.any (C : Cfg) (E : Env) : Traffic C E where
  msg _ := True
  ends _ _ := True
  route _ _ _ _ := trivial
  panic _ := trivial

section

variable {C : Cfg} {E : Env}

structure Queued (F : Traffic C E) (s : St) : Prop where
  known : ∀ msg ∈ s.inFlight, msg.sourceID ∈ C.dag.nodeIDs ∧ F.msg msg
  routed : ∀ r ∈ s.results ++ s.pending, .routed r.msg r.ends ∈ s.log ∧
    RouteOk C s.log r.msg r.ends r.checkpointSafe ∧ F.ends r.msg r.ends
  parallel : 1 < C.workers → s.nextSeq = s.applied
  sequential : ¬ 1 < C.workers → s.routerDone = false →
    s.forwarding = true ∧ Sequenced s.inFlight s.applied s.nextRead

variable {F : Traffic C E} {s : St} {s' : St}

theorem Queued.frame (h : Queued F s) (hf : Frame s s') : Queued F s' := by
  obtain ⟨q', log', blocks', b', w', f', d', fl'⟩ := s'
  obtain rfl : q' = s.toQueues := hf.queues
  refine ⟨h.known, fun r hr => ?_, h.parallel, h.sequential⟩
  obtain ⟨hm, hok, hF⟩ := h.routed r hr
  exact ⟨hf.log hm, hok.mono hf.log id, hF⟩

/-- Batches that are written out leave the queues alone. -/
theorem Queued.writeDue (runCtx : Ctx) (u : Under) (len : Nat) : ∀ (ids : List String) {s : St}, Queued F s →
    Queued F (writeDue C E runCtx u len ids s)
  | [], _, h => h
  | sinkID :: rest, s, h => by
    refine Queued.writeDue runCtx u len rest ?_
    split
    · have hq := h.frame (writeToSink_adds C E (Writing.savesUnder (u.ctx runCtx) (s.batchBySink sinkID)) s sinkID
        (s.recordsBySinkSource sinkID)).toFrame
      exact ⟨hq.known, hq.routed, hq.parallel, hq.sequential⟩
    · exact h

/-- `I` is about the log, the blocked sources and the batches, and the router keeps it when a result is entered and when
batches are written out. -/
structure Commits (F : Traffic C E) (runCtx : Ctx) (I : St → Prop) : Prop where
  routing : ∀ {s s' : St}, I s → Adds (fun e => e.isRouting = true) s s' → I s'
  batches : ∀ {s s' : St}, I s → s'.log = s.log → s'.checkpointBlocks = s.checkpointBlocks →
    s'.batchBySink = s.batchBySink → s'.recordsBySinkSource = s.recordsBySinkSource → s'.applied = s.applied → I s'
  enterResult : ∀ {s : St} {r : RouteResult}, I s → .routed r.msg r.ends ∈ s.log →
    RouteOk C s.log r.msg r.ends r.checkpointSafe → F.ends r.msg r.ends → r.msg.seq = s.applied r.msg.sourceID →
    I (enterResult s r)
  writeDue : ∀ (u : Under) (len : Nat) {s : St}, I s → I (writeDue C E runCtx u len (sinkIDs C) s)
  start : I (St.start C)

structure Inv (F : Traffic C E) (I : St → Prop) (s : St) : Prop where
  base : I s
  queued : Queued F s

variable {runCtx : Ctx} {I : St → Prop} (hI : Commits F runCtx I)

include hI

theorem Inv.routing (h : Inv F I s) (he : Adds (fun e => e.isRouting = true) s s') : Inv F I s' :=
  ⟨hI.routing h.base he, h.queued.frame he.toFrame⟩

theorem Inv.writeDue (u : Under) (len : Nat) (h : Inv F I s) : Inv F I (writeDue C E runCtx u len (sinkIDs C) s) :=
  ⟨hI.writeDue u len h.base, h.queued.writeDue runCtx u len _⟩

/-- The next message of a source enters the batches; `hq` is what its new count asks of the queues. -/
theorem Inv.enterResult {s : St} {r : RouteResult} (h : I s) (hr : .routed r.msg r.ends ∈ s.log)
    (hok : RouteOk C s.log r.msg r.ends r.checkpointSafe) (hF : F.ends r.msg r.ends)
    (hseq : r.msg.seq = s.applied r.msg.sourceID)
    (hq : Queued F { s with
      applied := update s.applied r.msg.sourceID (s.applied r.msg.sourceID + 1) }) :
    Inv F I (enterResult s r) := by
  refine ⟨hI.enterResult h hr hok hF hseq, ?_⟩
  obtain ⟨s1, hs1, he, hlog, -⟩ := enterResult_cases s r
  rw [hs1]
  obtain ⟨q1, log1, blocks1, b1, w1, f1, d1, fl1⟩ := s1
  obtain rfl : q1 = s.toQueues := he.queues
  obtain rfl : log1 = s.log := hlog
  exact ⟨hq.known, hq.routed, hq.parallel, hq.sequential⟩

omit hI in
theorem Traffic.routeSafely (F : Traffic C E) {msg : RecordMsg} (h : F.msg msg) :
    F.ends (routeSafely C E s msg).2.msg (routeSafely C E s msg).2.ends := by
  have hroute := @Traffic.route C E F s msg h
  unfold Orchestrator.routeSafely
  rcases hr : routeRecord C E s msg with ⟨s1, text | ⟨ends, safe⟩⟩ <;> rw [hr] at hroute
  · exact F.panic h
  · exact hroute rfl

/-! ## The sequential router -/

theorem Inv.receive {msg : RecordMsg} {rest : List RecordMsg} (hseq : ¬ 1 < C.workers)
    (hdone : s.routerDone = false) (hin : s.inFlight = msg :: rest) (h : Inv F I s) :
    Inv F I (receive C E runCtx { s with inFlight := rest } msg) := by
  obtain ⟨hfwd, hsq⟩ := h.queued.sequential hseq hdone
  rw [hin] at hsq
  obtain ⟨hnext, hsq'⟩ := hsq.receive
  have hbase : I { s with inFlight := rest } := hI.batches h.base rfl rfl rfl rfl rfl
  have hknown : ∀ m ∈ rest, m.sourceID ∈ C.dag.nodeIDs ∧ F.msg m := fun m hm => h.queued.known m (by simp [hin, hm])
  obtain ⟨hmem, hmsg⟩ := h.queued.known msg (by simp [hin])
  have he := routeRecord_adds C E Routes.routing { s with inFlight := rest } msg
  obtain ⟨-, hok⟩ := routeRecord_spec C E { s with inFlight := rest } msg hmem
  have hends := @Traffic.route C E F { s with inFlight := rest } msg hmsg
  unfold Orchestrator.receive
  cases hr : routeRecord C E { s with inFlight := rest } msg with
  | mk s1 r =>
    rw [hr] at he hok hends
    have h1 := hI.routing hbase he
    obtain ⟨q1, log1, blocks1, b1, w1, f1, d1, fl1⟩ := s1
    obtain rfl : q1 = { s.toQueues with inFlight := rest } := he.queues
    have hrouted : ∀ r ∈ s.results ++ s.pending, .routed r.msg r.ends ∈ log1 ∧
        RouteOk C log1 r.msg r.ends r.checkpointSafe ∧ F.ends r.msg r.ends := by
      intro r hr
      obtain ⟨hm, hok, hF⟩ := h.queued.routed r hr
      exact ⟨he.log hm, hok.mono he.log id, hF⟩
    cases r with
    | error text =>
      -- the message is lost with the router, and no step follows
      exact ⟨hI.batches h1 rfl rfl rfl rfl rfl,
        ⟨hknown, hrouted, fun hp => absurd hp hseq, fun _ hd => absurd hd (by simp)⟩⟩
    | ok r =>
      obtain ⟨ends, safe⟩ := r
      refine Inv.writeDue hI .run C.batchSize (Inv.enterResult hI ?_ ?_ ?_ (hends rfl) hnext ?_)
      · exact hI.routing h1 (Adds.emit _ rfl)
      · simp [St.emit]
      · exact (hok ends safe rfl).mono (subset_append_left _ _) id
      · refine ⟨hknown, fun r hr => ?_, fun hp => absurd hp hseq, fun _ _ => ⟨hfwd, hsq'⟩⟩
        obtain ⟨hm, hok', hF⟩ := hrouted r hr
        exact ⟨mem_append_left _ hm, hok'.mono (subset_append_left _ _) id, hF⟩

/-! ## The parallel router -/

/-- A worker hands its result over. -/
theorem Inv.work (hpar : 1 < C.workers) {i : Nat} {msg : RecordMsg} (hmsg : s.inFlight[i]? = some msg)
    (h : Inv F I s) :
    Inv F I { (routeSafely C E { s with inFlight := s.inFlight.eraseIdx i } msg).1 with
      results := (routeSafely C E { s with inFlight := s.inFlight.eraseIdx i } msg).1.results ++
        [(routeSafely C E { s with inFlight := s.inFlight.eraseIdx i } msg).2] } := by
  have h0 : Inv F I { s with inFlight := s.inFlight.eraseIdx i } :=
    ⟨hI.batches h.base rfl rfl rfl rfl rfl,
      ⟨fun m hm => h.queued.known m (mem_of_mem_eraseIdx hm), h.queued.routed, h.queued.parallel, absurd hpar⟩⟩
  have he := routeSafely_adds C E Routes.routing { s with inFlight := s.inFlight.eraseIdx i } msg
  obtain ⟨hmem, hF⟩ := h.queued.known msg (mem_of_getElem? hmsg)
  obtain ⟨hr, hok⟩ := routeSafely_spec C E { s with inFlight := s.inFlight.eraseIdx i } msg hmem
  have h1 := h0.routing hI he
  refine ⟨hI.batches h1.base rfl rfl rfl rfl rfl,
    ⟨h1.queued.known, fun r hr' => ?_, h1.queued.parallel, absurd hpar⟩⟩
  rcases mem_append.mp hr' with hr' | hr'
  · rcases mem_append.mp hr' with hr' | hr'
    · exact h1.queued.routed r (mem_append_left _ hr')
    · obtain rfl := mem_singleton.mp hr'
      exact ⟨hr, hok, F.routeSafely hF⟩
  · exact h1.queued.routed r (mem_append_right _ hr')

/-- A result comes to its turn: its number is the count of messages entered. -/
theorem Inv.next (hpar : 1 < C.workers) {sourceID : String} {r : RouteResult}
    (hfind : s.pending.find? (isNext s sourceID) = some r) (h : Inv F I s) :
    Inv F I (Orchestrator.enterResult
      { s with
        pending := s.pending.filter (fun x => !isNext s sourceID x)
        nextSeq := update s.nextSeq sourceID (s.nextSeq sourceID + 1) } r) := by
  have hmem : r ∈ s.results ++ s.pending := mem_append_right _ (mem_of_find?_eq_some hfind)
  obtain ⟨hsrc, hseq⟩ : r.msg.sourceID = sourceID ∧ r.msg.seq = s.nextSeq sourceID := by
    simpa [isNext] using find?_some hfind
  have heq := h.queued.parallel hpar
  subst hsrc
  rw [heq] at hseq
  obtain ⟨hr, hok, hF⟩ := h.queued.routed r hmem
  refine Inv.enterResult hI (hI.batches h.base rfl rfl rfl rfl rfl) hr hok hF hseq
    ⟨h.queued.known, fun r' hr' => h.queued.routed r' ?_, fun _ => ?_, absurd hpar⟩
  · rcases mem_append.mp hr' with hr' | hr'
    · exact mem_append_left _ hr'
    · exact mem_append_right _ (mem_filter.mp hr').1
  · simp only [heq]

/-! ## Runs -/

theorem Inv.deliver {s : St} (h : Inv F I s) {sourceID : String} {rec : Record}
    (hF : sourceID ∈ C.dag.sources.map (·.id) → F.msg ⟨rec, sourceID, s.nextRead sourceID⟩) :
    Inv F I (deliver C s sourceID rec) := by
  unfold Orchestrator.deliver
  split
  · rename_i hsrc
    obtain ⟨n, hn, hid⟩ := mem_map.mp hsrc
    have hknown : sourceID ∈ C.dag.nodeIDs := mem_map.mpr ⟨n, (mem_filter.mp hn).1, hid⟩
    refine ⟨hI.batches h.base rfl rfl rfl rfl rfl, ⟨fun m hm => ?_, h.queued.routed, h.queued.parallel,
      fun hseq hdone => ?_⟩⟩
    · change m ∈ (if s.forwarding = true then _ else _) at hm
      split at hm
      · rcases mem_append.mp hm with hm | hm
        · exact h.queued.known m hm
        · obtain rfl := mem_singleton.mp hm
          exact ⟨hknown, hF hsrc⟩
      · exact h.queued.known m hm
    · obtain ⟨hfwd, hsq⟩ := h.queued.sequential hseq hdone
      refine ⟨hfwd, ?_⟩
      simp only [hfwd, if_true]
      exact hsq.deliver sourceID rec
  · exact h

theorem Inv.kept : Kept C E runCtx (Inv F I) where
  full s h := h.writeDue hI .run C.batchSize
  next hpar s sourceID r hfind h := h.next hI hpar hfind
  call s h := h.routing hI (Adds.emit s rfl)
  done s h := ⟨hI.batches h.base rfl rfl rfl rfl rfl,
    ⟨h.queued.known, h.queued.routed, h.queued.parallel, fun _ hd => absurd hd (by simp)⟩⟩
  receive hseq s msg rest hdone hin h := h.receive hI hseq hdone hin
  work hpar s i msg hmsg h := h.work hI hpar hmsg
  result hpar s r rest hres h := by
    refine ⟨hI.batches h.base rfl rfl rfl rfl rfl,
      ⟨h.queued.known, fun r' hr' => h.queued.routed r' ?_, h.queued.parallel, h.queued.sequential⟩⟩
    rw [hres]
    simp only [mem_append, mem_cons] at hr' ⊢
    tauto
  stops hpar s k h := ⟨hI.batches h.base rfl rfl rfl rfl rfl,
    ⟨fun m hm => h.queued.known m (mem_of_mem_take hm), h.queued.routed, h.queued.parallel, absurd hpar⟩⟩

/-- The message a step puts on its way is known. -/
def Step.Known (F : Traffic C E) (s : St) : Step → Prop
  | .deliver sourceID rec => s.routerDone = false → sourceID ∈ C.dag.sources.map (·.id) →
      F.msg ⟨rec, sourceID, s.nextRead sourceID⟩
  | _ => True

theorem Inv.step (h : Inv F I s) {i : Step} (hi : i.Known F s) : Inv F I (step C E runCtx s i) := by
  cases i with
  | deliver sourceID rec =>
    unfold Orchestrator.step
    split
    · exact h
    · rename_i hdone
      exact (h.routing hI (Adds.emit s rfl)).deliver hI (hi (by simpa using hdone))
  | _ => exact (Inv.kept hI).step (fun _ _ h => by cases h) (fun _ _ h => h.writeDue hI .flush 1) h

/-- **What the router keeps, a run keeps.** -/
theorem Commits.run {steps : List Step}
    (hsteps : Steps (fun s i => i.Known F s) (Orchestrator.step C E runCtx) (St.start C) steps) :
    I (Trace.run (Orchestrator.step C E runCtx) (St.start C) steps) := by
  have hqueued : Queued F (St.start C) :=
    { known := fun msg hm => by simp [St.start] at hm
      routed := fun r hr => by simp [St.start] at hr
      parallel := fun _ => rfl
      sequential := fun _ _ => ⟨rfl, fun S => ⟨0, by simp [St.start]⟩⟩ }
  exact (run_invariant_of (Inv F I) (fun s i hi h => h.step hI hi) ⟨hI.start, hqueued⟩ hsteps).base

omit hI

theorem steps_any : ∀ (s : St) (steps : List Step),
    Steps (fun s i => i.Known (Traffic.any C E) s) (step C E runCtx) s steps
  | _, [] => trivial
  | _, i :: steps => by
    refine ⟨?_, steps_any _ steps⟩
    cases i with
    | deliver => exact fun _ _ => trivial
    | _ => trivial

/-- With one sink, attempts to write, and no context that has ended at an open breaker, the batches are safe. -/
theorem Safe.commits (runCtx : Ctx) {k : String} (hone : sinkIDs C = [k]) (hpos : 0 < C.retry.maxAttempts)
    (hended : ∀ u n, E.ended u n = false) : Commits (Traffic.any C E) runCtx (Safe C) where
  routing h he := h.ext (he.mono fun e h => by cases e <;> first | rfl | cases h)
  batches {s s'} h hlog hblocks hbatch hrecords happlied := by
    obtain ⟨⟨_, _, _, _, _, _, _, _, _, _⟩, _, _, _, _, _, _, _⟩ := s'
    subst hlog hblocks hbatch hrecords happlied
    exact ⟨h.saves, h.covered, h.contributors, h.boundary, h.held⟩
  enterResult h hr hok _ hseq := h.enterResult hr hok hseq
  writeDue u len {s} h := by
    rw [hone]
    simp only [Orchestrator.writeDue]
    split
    · exact h.writeAndClear C E runCtx u hone hpos hended
    · exact h
  start := by
    refine ⟨always_nil _, fun S _ n hn => absurd hn (by simp [St.start]), ?_, ?_, ?_⟩
    · intro k msg hm
      simp [St.start] at hm
    · intro k p hp
      simp [St.start] at hp
    · intro k hne
      simp [St.start] at hne

end

/-- **Zero loss with one sink.** If at least one write attempt is allowed and no context has ended when a
batch meets an open breaker, every checkpoint saved in a run covers settled records only, with one
worker and with many. -/
theorem dag_zero_loss (C : Cfg) (E : Env) (runCtx : Ctx) (steps : List Step) (hone : C.dag.sinks.length = 1)
    (hpos : 0 < C.retry.maxAttempts) (hended : ∀ u n, E.ended u n = false) :
    ZeroLoss (run (step C E runCtx) (St.start C) steps).log := by
  obtain ⟨node, hnode⟩ := length_eq_one_iff.mp hone
  have hk : sinkIDs C = [node.id] := by simp [sinkIDs, hnode]
  exact ((Safe.commits runCtx hk hpos hended).run (steps_any _ steps)).saves

def pairDag : DAG where
  nodes := [⟨"src", .source, "demo"⟩, ⟨"out", .sink, "demo"⟩]
  edges := [{ source := "src", target := "out" }]

def pairCfg (workers batchSize : Nat) (hb : 0 < batchSize) : Cfg where
  dag := pairDag
  workers := workers
  batchSize := batchSize
  batchSize_pos := hb

/-- Two workers finish in the other order; the checkpoint comes after both records. -/
theorem dag_zero_loss_two_workers :
    let s := run (step (pairCfg 2 2 (by decide)) {} .background) (St.start (pairCfg 2 2 (by decide)))
      [.deliver "src" {}, .deliver "src" {}, .work 1, .work 0, .result, .result, .closed]
    s.log.any Event.isSave = true ∧ ZeroLoss s.log :=
  ⟨by decide, dag_zero_loss _ {} .background _ (by decide) (by decide) fun _ _ => rfl⟩

/-! ### Counterexample: a batch given up behind an open breaker

Five batches of two records fail and go to the DLQ, which trips the breaker. The run is stopped while
records 10 and 11 are on their way: they fill a batch, the breaker is open, the context has ended, and
the batch is given up. Record 12 still reaches the router; the last flush does not wait for the run's
context, writes it, and saves a checkpoint past all of them. -/

def stopEnv : Env where
  write _ _ batch := if batch.all (·.seq < 10) then some { msg := "rejected", classified := some .data } else none
  ended u _ := u == .run

def stopRun : List Event :=
  (run (step (pairCfg 1 2 (by decide)) stopEnv .background) (St.start (pairCfg 1 2 (by decide)))
    ((List.replicate 13 [.deliver "src" {}, .receive]).flatten ++ [.ctxDone])).log

/-- The event leaves record `n`, bound for the sink, where it is. -/
def Event.leaves (n : Nat) : Event → Bool
  | .routed msg ends => msg.seq != n || ends == [.sink "out" msg.record]
  | .sinkWrite _ batch none => batch.all (·.seq != n)
  | .dlq _ msg _ none => msg.seq != n
  | _ => true

theorem not_settled_of_leaves {log : List Event} {n : Nat} (h : log.all (Event.leaves n) = true) (S : String) :
    ¬ Settled log S n := by
  rw [all_eq_true] at h
  rintro ⟨msg, -, hn, ends, hr, hends⟩
  have hsink : ends = [.sink "out" msg.record] := by simpa [Event.leaves, hn] using h _ hr
  rcases hends (.sink "out" msg.record) (by simp [hsink]) with hheld | ⟨batch, hw, hm⟩ | ⟨cause, hd⟩
  · simp at hheld
  · have hb : ∀ m ∈ batch, m.seq ≠ n := by simpa [Event.leaves] using h _ hw
    exact hb _ hm hn
  · exact absurd hn (by simpa [Event.leaves] using h _ hd)

theorem stopped_batch_is_skipped : ¬ ZeroLoss stopRun := by
  have hlog : stopRun = stopRun.dropLast ++ [.save .background "src" [⟨{}, "src", 12⟩] none] := by
    decide +kernel
  intro h
  rw [hlog] at h
  have hset := (always_snoc.mp h).2 ⟨{}, "src", 12⟩ (by simp) 10 (by simp)
  exact not_settled_of_leaves (by decide +kernel) "src" hset

end OpenEtl.Orchestrator
