import OpenEtl.Lib.Trace
import OpenEtl.Orchestrator.Executor

/-!
# What routing a record does

What a stage logs is said once, for any property of events that its own have (`Adds`). A route leaves the
batches alone and saves no checkpoint (`Ext`), and every path of the record ends in
one of the ways `Branch.Ended` allows: filtered, unmatched, on its way to a sink, or in the DLQ.
`route_fuel` justifies the depth bound of the model: on a validated graph no route is cut off.
-/

namespace OpenEtl.Orchestrator

open List Trace

/-! ## Delivery, read off the log -/

/-- Written to the sink, or durable in the DLQ under the sink's name. -/
def Delivered (log : List Event) (sinkID : String) (msg : RecordMsg) : Prop :=
  (∃ batch, .sinkWrite sinkID batch none ∈ log ∧ msg ∈ batch) ∨ ∃ cause, .dlq sinkID msg cause none ∈ log

/-- One path of `msg` came to its end, except for records still held in a sink's batch. -/
def Branch.Ended (log : List Event) (held : String → List RecordMsg) (msg : RecordMsg) : Branch → Prop
  | .unknown _ => False
  | .filtered _ | .unmatched _ => True
  | .failed nodeID rec => ∃ cause, .dlq nodeID { msg with record := rec } cause none ∈ log
  | .sink sinkID rec =>
    { msg with record := rec } ∈ held sinkID ∨ Delivered log sinkID { msg with record := rec }

def Covered (log : List Event) (held : String → List RecordMsg) (msg : RecordMsg) : Prop :=
  ∃ ends, .routed msg ends ∈ log ∧ ∀ b ∈ ends, b.Ended log held msg

/-- Record `n` of the source was routed, and each of its paths ended: filtered by a transform, with no
edge to take, written to the sink, or durable in the DLQ. -/
def Settled (log : List Event) (sourceID : String) (n : Nat) : Prop :=
  ∃ msg : RecordMsg, msg.sourceID = sourceID ∧ msg.seq = n ∧ Covered log (fun _ => []) msg

variable {log' : List Event} {msg : RecordMsg}

theorem Delivered.mono {log : List Event} {sinkID : String} (hsub : log ⊆ log') :
    Delivered log sinkID msg → Delivered log' sinkID msg := by
  rintro (⟨batch, hm, hb⟩ | ⟨cause, hm⟩)
  · exact .inl ⟨batch, hsub hm, hb⟩
  · exact .inr ⟨cause, hsub hm⟩

theorem Branch.Ended.mono {log : List Event} {held held' : String → List RecordMsg} {b : Branch} (hsub : log ⊆ log')
    (hheld : ∀ k rec, { msg with record := rec } ∈ held k →
      { msg with record := rec } ∈ held' k ∨ Delivered log' k { msg with record := rec }) :
    b.Ended log held msg → b.Ended log' held' msg := by
  cases b with
  | unknown => exact id
  | filtered => exact id
  | unmatched => exact id
  | failed => rintro ⟨cause, hm⟩; exact ⟨cause, hsub hm⟩
  | sink k rec =>
    rintro (hm | hd)
    · exact hheld k rec hm
    · exact .inr (hd.mono hsub)

theorem Covered.mono {log : List Event} {held held' : String → List RecordMsg} (hsub : log ⊆ log')
    (hheld : ∀ k rec, { msg with record := rec } ∈ held k →
      { msg with record := rec } ∈ held' k ∨ Delivered log' k { msg with record := rec }) :
    Covered log held msg → Covered log' held' msg := by
  rintro ⟨ends, hr, he⟩
  exact ⟨ends, hsub hr, fun b hb => (he b hb).mono hsub hheld⟩

theorem Settled.mono {log : List Event} {sourceID : String} {n : Nat} (hsub : log ⊆ log') :
    Settled log sourceID n → Settled log' sourceID n := by
  rintro ⟨msg, hS, hn, hc⟩
  exact ⟨msg, hS, hn, hc.mono hsub (by simp)⟩

/-! ## Frames -/

/-- `s'` comes after `s` with the same queues and batches. -/
structure Frame (s s' : St) : Prop where
  grows : s.log <+: s'.log
  blocked : ∀ S, s.blocked S = true → s'.blocked S = true
  queues : s'.toQueues = s.toQueues

variable {s s' : St}

theorem Frame.log (h : Frame s s') : s.log ⊆ s'.log := h.grows.subset

theorem Frame.refl (s : St) : Frame s s := ⟨prefix_refl _, fun _ => id, rfl⟩

theorem Frame.trans {s'' : St} (h : Frame s s') (h' : Frame s' s'') : Frame s s'' :=
  ⟨h.grows.trans h'.grows, fun S => h'.blocked S ∘ h.blocked S, h'.queues.trans h.queues⟩

theorem Frame.unblocked (h : Frame s s') {S : String} (hb : s'.blocked S = false) : s.blocked S = false := by
  cases hs : s.blocked S with
  | false => rfl
  | true => rw [h.blocked S hs] at hb; exact hb

def Event.isSave : Event → Bool
  | .save .. => true
  | _ => false

/-- A frame whose events meet `P`. -/
structure Adds (P : Event → Prop) (s s' : St) : Prop extends Frame s s' where
  events : Grew P s.log s'.log

/-- A frame without a checkpoint save. -/
abbrev Ext : St → St → Prop := Adds fun e => e.isSave = false

section

variable {P : Event → Prop}

theorem Adds.of_log {s s' : St} (evs : List Event) (hl : s'.log = s.log ++ evs) (hP : ∀ e ∈ evs, P e)
    (hb : ∀ S, s.blocked S = true → s'.blocked S = true) (h : s'.toQueues = s.toQueues) : Adds P s s' :=
  ⟨⟨⟨evs, hl.symm⟩, hb, h⟩, evs, hl, hP⟩

theorem Adds.refl (s : St) : Adds P s s := ⟨Frame.refl s, Grew.refl _ _⟩

theorem Adds.trans {s s' s'' : St} (h : Adds P s s') (h' : Adds P s' s'') : Adds P s s'' :=
  ⟨h.toFrame.trans h'.toFrame, h.events.trans h'.events⟩

theorem Adds.mono {Q : Event → Prop} {s s' : St} (h : Adds P s s') (hPQ : ∀ e, P e → Q e) : Adds Q s s' :=
  ⟨h.toFrame, h.events.mono hPQ⟩

theorem Adds.emit (s : St) {e : Event} (he : P e) : Adds P s (s.emit e) :=
  Adds.of_log [e] rfl (by simpa using he) (fun _ => id) rfl

theorem blocked_blockSourceCheckpoint (s : St) (sourceID reason S : String) :
    (blockSourceCheckpoint s sourceID reason).blocked S = (s.blocked S || S == sourceID) := by
  unfold blockSourceCheckpoint
  split
  · rename_i hb
    by_cases hS : S = sourceID
    · simp [hS, hb]
    · simp [hS]
  · simp [St.blocked, Bool.beq_comm]

theorem blockSourceCheckpoint_adds (s : St) (sourceID reason : String) :
    Adds P s (blockSourceCheckpoint s sourceID reason) := by
  refine Adds.of_log [] ?_ (by simp) ?_ ?_
  · unfold blockSourceCheckpoint; split <;> simp
  · intro S hS
    rw [blocked_blockSourceCheckpoint, hS, Bool.true_or]
  · unfold blockSourceCheckpoint; split <;> rfl

theorem recordFailure_adds (E : Env) (s : St) (nodeID : String) : Adds P s (recordFailure E s nodeID) :=
  Adds.of_log [] (by simp [recordFailure]) (by simp) (fun _ => id) rfl

theorem setFailed_adds (s : St) : Adds P s { s with failed := true } :=
  Adds.of_log [] (by simp) (by simp) (fun _ => id) rfl

structure Failures (P : Event → Prop) : Prop where
  dlq : ∀ nodeID msg cause err, P (.dlq nodeID msg cause err)
  noDLQ : ∀ nodeID msg cause, P (.noDLQ nodeID msg cause)

structure Routes (P : Event → Prop) : Prop extends Failures P where
  visit : ∀ nodeID, P (.visit nodeID)
  routed : ∀ msg ends, P (.routed msg ends)

theorem Routes.noSave : Routes fun e => e.isSave = false where
  dlq _ _ _ _ := rfl
  noDLQ _ _ _ := rfl
  visit _ := rfl
  routed _ _ := rfl

/-- The events of a route, and the one a step begins with. -/
def Event.isRouting : Event → Bool
  | .call | .visit _ | .dlq .. | .noDLQ .. | .routed .. => true
  | _ => false

theorem Routes.routing : Routes fun e => e.isRouting = true where
  dlq _ _ _ _ := rfl
  noDLQ _ _ _ := rfl
  visit _ := rfl
  routed _ _ := rfl

end

section

variable (C : Cfg) (E : Env) {P : Event → Prop}

theorem handleFailed_adds (hP : Failures P) (s : St) (msg : RecordMsg) (cause : Cause) (nodeID : String) :
    Adds P s (handleFailed C E s msg cause nodeID).1 := by
  have hcount : Adds P s { s with recordsFailed := s.recordsFailed + 1 } :=
    Adds.of_log [] (by simp) (by simp) (fun _ => id) rfl
  unfold handleFailed
  simp only
  split
  · split
    · split
      · exact hcount.trans (.emit _ (hP.dlq ..))
      · exact (hcount.trans (.emit _ (hP.dlq ..))).trans (recordFailure_adds E _ nodeID)
    · exact Adds.of_log [_] rfl (by simpa using hP.dlq ..) (fun _ => id) rfl
  · exact hcount.trans (.emit _ (hP.noDLQ ..))

/-- When `handleFailed` says so, the record is in the DLQ. -/
theorem handleFailed_durable (s : St) (msg : RecordMsg) (cause : Cause) (nodeID : String)
    (h : (handleFailed C E s msg cause nodeID).2 = true) :
    .dlq nodeID msg cause none ∈ (handleFailed C E s msg cause nodeID).1.log := by
  unfold handleFailed at h ⊢
  simp only at h ⊢
  split at h
  · rename_i hd
    rw [if_pos hd]
    split at h
    · simp at h
    · simp [St.emit]
  · simp at h

/-! ## Routes -/

/-- What a route may return for `msg`: known ends, sinks of the graph, and, if it calls itself safe, no
failure that is not in the DLQ. -/
def RouteOk (log : List Event) (msg : RecordMsg) (ends : List Branch) (safe : Bool) : Prop :=
  ∀ b ∈ ends,
    match b with
    | .unknown _ => False
    | .filtered _ | .unmatched _ => True
    | .failed nodeID rec => safe = true → ∃ cause, .dlq nodeID { msg with record := rec } cause none ∈ log
    | .sink sinkID _ => sinkID ∈ sinkIDs C

variable {C} {ends : List Branch} {msg : RecordMsg} {safe : Bool}

theorem RouteOk.mono {log log' : List Event} {safe' : Bool} (hsub : log ⊆ log') (hsafe : safe' = true → safe = true)
    (h : RouteOk C log msg ends safe) : RouteOk C log' msg ends safe' := by
  intro b hb
  have hb' := h b hb
  cases b with
  | failed nodeID rec =>
    intro hs
    obtain ⟨cause, hm⟩ := hb' (hsafe hs)
    exact ⟨cause, hsub hm⟩
  | unknown => exact hb'
  | filtered => exact hb'
  | unmatched => exact hb'
  | sink => exact hb'

theorem RouteOk.append {log : List Event} {ends' : List Branch} (h : RouteOk C log msg ends safe)
    (h' : RouteOk C log msg ends' safe) : RouteOk C log msg (ends ++ ends') safe := by
  intro b hb
  rcases mem_append.mp hb with hb | hb
  · exact h b hb
  · exact h' b hb

/-- The record of the message is immaterial: the ends carry their own. -/
theorem RouteOk.record {log : List Event} {rec : Record} (h : RouteOk C log { msg with record := rec } ends safe) :
    RouteOk C log msg ends safe := h

variable (C)

theorem Cfg.dag_valid : C.dag.Valid := by
  have h := C.valid
  unfold DAG.validateProduction at h
  cases hv : C.dag.validate with
  | error e => rw [hv] at h; cases h
  | ok u => exact DAG.valid_of_validate hv

variable {nodeID : String}

theorem mem_takenEdges {rec : Record} {e : Edge} (h : e ∈ takenEdges C nodeID rec) :
    e ∈ C.dag.edges ∧ e.source = nodeID := by
  have := mem_filter.mp h
  simp at this
  exact ⟨this.1, this.2.1⟩

theorem getNode_of_mem (h : nodeID ∈ C.dag.nodeIDs) : ∃ node, C.dag.getNode nodeID = some node := by
  obtain ⟨n, hn, rfl⟩ := mem_map.mp h
  have : (C.dag.getNode n.id).isSome := by
    unfold DAG.getNode
    rw [find?_isSome]
    exact ⟨n, hn, by simp⟩
  exact Option.isSome_iff_exists.mp this

theorem sink_mem_sinkIDs {node : Node} (hg : C.dag.getNode nodeID = some node) (hk : node.kind = .sink) :
    nodeID ∈ sinkIDs C := by
  obtain ⟨hm, hid⟩ := DAG.getNode_some hg
  refine mem_map.mpr ⟨node, ?_, hid⟩
  simp [DAG.sinks, hm, hk]

/-! ## What a route logs -/

variable {next : String → RecordMsg → St → St × Routed}

/-- What holds of a route to each target, of no route and of one route after another holds of `routeEdges`. -/
theorem routeEdges_rule {Q : St → St × Routed → Prop} {msg : RecordMsg} (hnil : ∀ s, Q s (s, .ok ([], true)))
    (hcons : ∀ {s s1 ends ok r}, Q s (s1, .ok (ends, ok)) → Q s1 r →
      Q s (r.1, r.2.map fun p => (ends ++ p.1, ok && p.2))) :
    ∀ (es : List Edge) (s : St), (∀ e ∈ es, ∀ s, Q s (next e.target msg s)) → Q s (routeEdges next msg es s)
  | [], s, _ => hnil s
  | e :: es, s, hnext => by
    have he := hnext e (by simp) s
    rcases hn : next e.target msg s with ⟨s1, text | ⟨ends, ok⟩⟩ <;> rw [hn] at he
    · simpa only [routeEdges, hn] using he
    · have h := hcons he (routeEdges_rule hnil hcons es s1 fun e' he' => hnext e' (by simp [he']))
      rcases hr : routeEdges next msg es s1 with ⟨s2, text | ⟨ends', ok'⟩⟩ <;> rw [hr] at h <;>
        simpa only [routeEdges, hn, hr, Except.map] using h

theorem route_adds (hP : Routes P) : ∀ (fuel : Nat) (nodeID : String) (msg : RecordMsg) (s : St),
    Adds P s (route C E fuel nodeID msg s).1
  | 0, _, _, s => Adds.refl s
  | fuel + 1, nodeID, msg, s => by
    have hvisit : Adds P s (s.emit (.visit nodeID)) := Adds.emit s (hP.visit nodeID)
    rw [route]
    split
    · exact hvisit
    split
    · exact hvisit
    split
    · exact hvisit
    · exact hvisit.trans (handleFailed_adds C E hP.toFailures _ msg _ nodeID)
    · split
      · exact hvisit
      split
      · exact hvisit
      · exact hvisit.trans (routeEdges_rule (Q := fun s r => Adds P s r.1) Adds.refl Adds.trans _ _
          fun e _ s' => route_adds hP fuel e.target _ s')

theorem routeRecord_adds (hP : Routes P) (s : St) (msg : RecordMsg) : Adds P s (routeRecord C E s msg).1 :=
  route_adds C E hP C.dag.nodes.length msg.sourceID msg s

theorem routeSafely_adds (hP : Routes P) (s : St) (msg : RecordMsg) : Adds P s (routeSafely C E s msg).1 := by
  have hadds := routeRecord_adds C E hP s msg
  unfold routeSafely
  rcases hr : routeRecord C E s msg with ⟨s1, text | ⟨ends, safe⟩⟩ <;> rw [hr] at hadds
  · exact ((hadds.trans (setFailed_adds s1)).trans (handleFailed_adds C E hP.toFailures _ msg _ "")).trans
      (Adds.emit _ (hP.routed ..))
  · exact hadds.trans (Adds.emit s1 (hP.routed ..))

/-! ## Where a route ends -/

/-- **Route.** From a node of the graph a route has only the ends `RouteOk` allows. -/
theorem route_spec : ∀ (fuel : Nat) (nodeID : String) (msg : RecordMsg) (s : St), nodeID ∈ C.dag.nodeIDs →
    ∀ ends safe, (route C E fuel nodeID msg s).2 = .ok (ends, safe) →
      RouteOk C (route C E fuel nodeID msg s).1.log msg ends safe
  | 0, nodeID, msg, s, _, ends, safe, h => by simp [route] at h
  | fuel + 1, nodeID, msg, s, hmem, ends, safe, h => by
    obtain ⟨node, hg⟩ := getNode_of_mem C hmem
    rw [route] at h ⊢
    simp only [hg] at h ⊢
    split at h
    · simp at h
    split at h
    · obtain ⟨rfl, -⟩ : [Branch.filtered nodeID] = ends ∧ true = safe := by simpa using h
      intro b hb
      obtain rfl : b = .filtered nodeID := by simpa using hb
      trivial
    · rename_i cause _
      obtain ⟨rfl, hsafe⟩ : [Branch.failed nodeID msg.record] = ends ∧
          (handleFailed C E (s.emit (.visit nodeID)) msg cause nodeID).2 = safe := by simpa using h
      intro b hb
      obtain rfl : b = .failed nodeID msg.record := by simpa using hb
      exact fun hs => ⟨cause, handleFailed_durable C E _ msg cause nodeID (hsafe.trans hs)⟩
    · rename_i rec _
      split at h
      · rename_i hk
        obtain ⟨rfl, -⟩ : [Branch.sink nodeID rec] = ends ∧ true = safe := by simpa using h
        intro b hb
        obtain rfl : b = .sink nodeID rec := by simpa using hb
        exact sink_mem_sinkIDs C hg hk
      · rename_i hk
        rw [if_neg hk]
        split at h
        · obtain ⟨rfl, -⟩ : [Branch.unmatched nodeID] = ends ∧ true = safe := by simpa using h
          intro b hb
          obtain rfl : b = .unmatched nodeID := by simpa using hb
          trivial
        · rename_i htaken
          rw [if_neg htaken]
          have htargets : ∀ e ∈ takenEdges C nodeID rec, e.target ∈ C.dag.nodeIDs := fun e he =>
            (C.dag_valid.edges e (mem_takenEdges C he).1).2
          refine RouteOk.record ((routeEdges_rule (Q := fun s r => Ext s r.1 ∧ ∀ ends safe, r.2 = .ok (ends, safe) →
            RouteOk C r.1.log { msg with record := rec } ends safe) (fun s => ?_) ?_ _ _ fun e he s' =>
              ⟨route_adds C E Routes.noSave fuel e.target _ s', route_spec fuel e.target _ s' (htargets e he)⟩).2 ends safe h)
          · refine ⟨Adds.refl s, fun ends safe h b hb => ?_⟩
            obtain ⟨rfl, -⟩ : [] = ends ∧ true = safe := by simpa using h
            simp at hb
          · rintro s s1 ends1 ok1 ⟨s2, text | ⟨ends2, ok2⟩⟩ ⟨hext, hok⟩ ⟨hext', hok'⟩
            · exact ⟨hext.trans hext', fun _ _ h => by cases h⟩
            · refine ⟨hext.trans hext', fun ends safe h => ?_⟩
              obtain ⟨rfl, rfl⟩ : ends1 ++ ends2 = ends ∧ (ok1 && ok2) = safe := by simpa [Except.map] using h
              refine RouteOk.append ?_ ?_
              · exact (hok ends1 ok1 rfl).mono hext'.log fun h => (Bool.and_eq_true _ _ ▸ h).1
              · exact (hok' ends2 ok2 rfl).mono (List.Subset.refl _) fun h => (Bool.and_eq_true _ _ ▸ h).2

theorem routeRecord_spec (s : St) (msg : RecordMsg) (hmem : msg.sourceID ∈ C.dag.nodeIDs) :
    Ext s (routeRecord C E s msg).1 ∧ ∀ ends safe, (routeRecord C E s msg).2 = .ok (ends, safe) →
      RouteOk C (routeRecord C E s msg).1.log msg ends safe :=
  ⟨routeRecord_adds C E Routes.noSave s msg, route_spec C E C.dag.nodes.length msg.sourceID msg s hmem⟩

/-- A worker's result says what became of its message, after a panic too. -/
theorem routeSafely_spec (s : St) (msg : RecordMsg) (hmem : msg.sourceID ∈ C.dag.nodeIDs) :
    .routed (routeSafely C E s msg).2.msg (routeSafely C E s msg).2.ends ∈ (routeSafely C E s msg).1.log ∧
      RouteOk C (routeSafely C E s msg).1.log (routeSafely C E s msg).2.msg (routeSafely C E s msg).2.ends
        (routeSafely C E s msg).2.checkpointSafe := by
  obtain ⟨-, hok⟩ := routeRecord_spec C E s msg hmem
  unfold routeSafely
  rcases hr : routeRecord C E s msg with ⟨s1, text | ⟨ends, safe⟩⟩ <;> rw [hr] at hok
  · let cause : Cause := { msg := "DAG route panic: " ++ text }
    refine ⟨by simp [St.emit], fun b hb => ?_⟩
    obtain rfl : b = .failed "" msg.record := by simpa using hb
    intro hs
    exact ⟨cause, mem_append_left _ (handleFailed_durable C E _ msg cause "" hs)⟩
  · exact ⟨by simp [St.emit], (hok ends safe rfl).mono (subset_append_left _ _) id⟩

/-! ## The depth bound -/

theorem routeEdges_congr {next' : String → RecordMsg → St → St × Routed} (msg : RecordMsg) :
    ∀ (es : List Edge) (s : St), (∀ e ∈ es, ∀ s, next e.target msg s = next' e.target msg s) →
      routeEdges next msg es s = routeEdges next' msg es s
  | [], _, _ => rfl
  | e :: es, s, h => by
    have hrest : ∀ s, routeEdges next msg es s = routeEdges next' msg es s := fun s =>
      routeEdges_congr msg es s fun e' he' => h e' (by simp [he'])
    simp only [routeEdges, h e (by simp) s, hrest]

/-- **Depth.** More depth than there are nodes does not change a route. -/
theorem route_fuel (fuel : Nat) (hfuel : C.dag.nodes.length ≤ fuel) (s : St) (msg : RecordMsg)
    (hmem : nodeID ∈ C.dag.nodeIDs) : route C E fuel nodeID msg s = route C E C.dag.nodes.length nodeID msg s := by
  have heq := C.dag_valid.depth_irrelevant (f := route C E) (fun fuel fuel' nodeID h => ?_) hmem hfuel (Nat.le_refl _)
  · rw [heq]
  · have hrec : ∀ (msg : RecordMsg) (rec : Record) (s : St),
        routeEdges (route C E fuel) { msg with record := rec } (takenEdges C nodeID rec) s =
          routeEdges (route C E fuel') { msg with record := rec } (takenEdges C nodeID rec) s := by
      intro msg rec s
      refine routeEdges_congr _ _ s fun e he s => ?_
      obtain ⟨hedge, hsrc⟩ := mem_takenEdges C he
      rw [h e hedge hsrc]
    simp only [route, hrec]

/-- A route that may go as deep as there are nodes is not cut off: what stops it is a panic. -/
theorem route_error {depth : Nat} (hmem : nodeID ∈ C.dag.nodeIDs) (hdepth : C.dag.nodes.length ≤ depth) (msg : RecordMsg)
    (s : St) (text : String) : (route C E depth nodeID msg s).2 = .error text → ∃ k, E.panics k = some text := by
  refine C.dag_valid.depth_rule (P := fun depth id => ∀ msg s text, (route C E depth id msg s).2 = .error text →
    ∃ k, E.panics k = some text) (fun depth id hrec msg s text h => ?_) hmem hdepth msg s text
  rw [route] at h
  split at h
  · rename_i hpanic
    exact ⟨_, hpanic.trans (congrArg some (Except.error.inj h))⟩
  split at h
  · cases h
  split at h
  · cases h
  · cases h
  split at h
  · cases h
  split at h
  · cases h
  refine routeEdges_rule (Q := fun _ r => ∀ text, r.2 = .error text → ∃ k, E.panics k = some text) (by simp) ?_ _ _
    (fun e he s => ?_) text h
  · rintro _ _ _ _ ⟨s2, text' | p⟩ _ h text heq
    · exact h text heq
    · cases heq
  · obtain ⟨hedge, hsrc⟩ := mem_takenEdges C he
    exact hrec e hedge hsrc _ s

/-- **Validation is exact and bounds the routes.** Whatever the order of the first queue, a graph is accepted just if
it is well formed; then `topoSort` has every node once and every edge forward, and no route, of any record from any
node, is deeper than there are nodes: it is not cut off there, and no depth beyond changes it. -/
theorem validate_exact (d : DAG) :
    (∀ queue : List String, queue.Perm (d.nodeIDs.filter (Kahn.inDegree d.arcs · = 0)) →
      (d.validateFrom queue = .ok () ↔ d.WellFormed)) ∧
    (d.validate = .ok () →
      (∃ order, d.topoSort = .ok order ∧ order.Perm d.nodeIDs ∧
        ∀ e ∈ d.edges, order.idxOf e.source < order.idxOf e.target) ∧
      ∀ (C : Cfg) (E : Env), C.dag = d → ∀ nodeID ∈ d.nodeIDs, ∀ (msg : RecordMsg) (s : St),
        (∀ text, (route C E d.nodes.length nodeID msg s).2 = .error text → ∃ k, E.panics k = some text) ∧
        ∀ depth, d.nodes.length ≤ depth → route C E depth nodeID msg s = route C E d.nodes.length nodeID msg s) := by
  refine ⟨fun queue hq => DAG.validateFrom_iff hq, fun h => ⟨⟨_, (DAG.valid_of_validate h).topoSort⟩, ?_⟩⟩
  rintro C E rfl nodeID hmem msg s
  exact ⟨route_error C E hmem (Nat.le_refl _) msg s, fun depth hdepth => route_fuel C E depth hdepth s msg hmem⟩

/-- A sink that stands before its source and has two edges from it. -/
def twice : DAG := ⟨[⟨"k", .sink, "doris"⟩, ⟨"s", .source, "kafka"⟩], [⟨"s", "k", none⟩, ⟨"s", "k", none⟩]⟩

theorem twice_sorted : ∃ order, twice.topoSort = .ok order ∧ order.Perm twice.nodeIDs ∧
    ∀ e ∈ twice.edges, order.idxOf e.source < order.idxOf e.target :=
  ((validate_exact twice).2 (by decide)).1

end

end OpenEtl.Orchestrator
