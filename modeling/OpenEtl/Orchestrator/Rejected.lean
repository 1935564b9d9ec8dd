import OpenEtl.Orchestrator.ZeroLoss

/-!
# Rejected records in the DAG executor (`orchestrator/executor.go:832-1022`)

Nothing in `route` or `writeToSink` asks for `Rejection`: a rejected record goes where its edges lead. It is kept from
the sinks, and is in the DLQ before a checkpoint covers it, where every edge that takes it leads to a transform that
fails for rejected records (`Diverted`).
-/

namespace OpenEtl.Orchestrator

open Storage (Ctx)
open List Trace

/-- The sinks are given records in `S`. -/
def Event.Writes (S : Record → Prop) : Event → Prop
  | .sinkWrite _ batch _ => ∀ m ∈ batch, S m.record
  | _ => True

section

variable {S : Record → Prop}

theorem Writing.writes (ctx : Ctx) {batch : List RecordMsg} (h : ∀ m ∈ batch, S m.record) :
    Writing (Event.Writes S) ctx batch where
  dlq _ _ _ _ := trivial
  noDLQ _ _ _ := trivial
  wait _ _ := trivial
  write _ _ := h
  save _ _ _ := trivial
  ack _ _ _ := trivial

variable (C : Cfg) (E : Env)

/-! ## Routes -/

/-- The records of a route for the sinks. -/
def EndsIn (S : Record → Prop) (ends : List Branch) : Prop := ∀ k rec, .sink k rec ∈ ends → S rec

/-- The transforms keep `S`. -/
def Keeps (S : Record → Prop) (E : Env) : Prop := ∀ n id r r', E.apply n id r = .ok r' → S r → S r'

variable {s : St}

theorem applyNode_keeps {E : Env} (hE : Keeps S E) {node : Node} {rec rec' : Record}
    (h : applyNode E s node rec = .ok rec') (hrec : S rec) : S rec' := by
  unfold applyNode at h
  split at h
  · exact hE _ _ _ _ h hrec
  · cases h
    exact hrec

theorem route_endsIn {E : Env} (hE : Keeps S E) : ∀ (fuel : Nat) (nodeID : String) (msg : RecordMsg), S msg.record →
    ∀ (s : St) (ends : List Branch) (safe : Bool), (route C E fuel nodeID msg s).2 = .ok (ends, safe) → EndsIn S ends
  | 0, _, _, _, s => by simp [route]
  | fuel + 1, nodeID, msg, hmsg, s => by
    -- a route that ends at this node has one end
    have hone : ∀ (b : Branch) (ok : Bool), (∀ k rec, b = .sink k rec → S rec) → ∀ ends safe,
        (Except.ok ([b], ok) : Routed) = .ok (ends, safe) → EndsIn S ends := by
      intro b ok hb ends safe h k rec hmem
      obtain ⟨rfl, -⟩ : [b] = ends ∧ ok = safe := by simpa using h
      exact hb k rec (mem_singleton.mp hmem).symm
    rw [route]
    split
    · simp
    split
    · exact hone _ _ (by simp)
    split
    · exact hone _ _ (by simp)
    · exact hone _ _ (by simp)
    · rename_i rec hrec
      have hS : S rec := applyNode_keeps hE hrec hmsg
      split
      · refine hone _ _ fun k rec' heq => ?_
        obtain ⟨-, rfl⟩ := Branch.sink.inj heq
        exact hS
      split
      · exact hone _ _ (by simp)
      · refine routeEdges_rule (Q := fun _ r => ∀ ends safe, r.2 = .ok (ends, safe) → EndsIn S ends) (fun s => ?_) ?_ _ _
          fun e _ s' => route_endsIn hE fuel e.target { msg with record := rec } hS s'
        · intro ends safe h k rec hmem
          obtain ⟨rfl, -⟩ : [] = ends ∧ true = safe := by simpa using h
          simp at hmem
        · rintro _ _ ends1 ok1 ⟨s2, text | ⟨ends2, ok2⟩⟩ h1 h2 ends safe h k rec hmem
          · cases h
          obtain ⟨rfl, rfl⟩ : ends1 ++ ends2 = ends ∧ (ok1 && ok2) = safe := by simpa [Except.map] using h
          rcases mem_append.mp hmem with hmem | hmem
          · exact h1 ends1 ok1 rfl k rec hmem
          · exact h2 ends2 ok2 rfl k rec hmem

/-! ## Rejected records -/

/-- The node fails for rejected records. -/
def Refuses (E : Env) (nodeID : String) : Prop :=
  ∀ n r, r.rejection ≠ none → ∃ cause, E.apply n nodeID r = .error (.failed cause)

/-- Some edge takes the record, and all that do lead to transforms that fail for it. -/
def Diverted (sourceID : String) (rec : Record) : Prop :=
  takenEdges C sourceID rec ≠ [] ∧ ∀ e ∈ takenEdges C sourceID rec, ∃ node,
    C.dag.getNode e.target = some node ∧ node.kind = .transform ∧ Refuses E e.target

variable {C} {E}

/-- A route to such a transform ends there. -/
theorem route_refused {fuel : Nat} {nodeID : String} {node : Node} {msg : RecordMsg} {ends : List Branch} {safe : Bool}
    (hnode : C.dag.getNode nodeID = some node) (hkind : node.kind = .transform) (hrefuses : Refuses E nodeID)
    (hrej : msg.record.rejection ≠ none) (h : (route C E fuel nodeID msg s).2 = .ok (ends, safe)) :
    ends = [.failed nodeID msg.record] := by
  cases fuel with
  | zero => simp [route] at h
  | succ fuel =>
    have happly : ∃ cause, applyNode E (s.emit (.visit nodeID)) node msg.record = .error (.failed cause) := by
      unfold applyNode
      rw [if_pos hkind, (DAG.getNode_some hnode).2]
      exact hrefuses _ _ hrej
    obtain ⟨cause, hcause⟩ := happly
    rw [route] at h
    simp only [hnode, hcause] at h
    split at h
    · cases h
    · simp only [Except.ok.injEq, Prod.mk.injEq] at h
      exact h.1.symm

theorem routeEdges_refused {next : String → RecordMsg → St → St × Routed} {msg : RecordMsg} :
    ∀ {es : List Edge} {s : St} {ends : List Branch} {safe : Bool},
      (∀ e ∈ es, ∀ s ends safe, (next e.target msg s).2 = .ok (ends, safe) → ends = [.failed e.target msg.record]) →
        (routeEdges next msg es s).2 = .ok (ends, safe) → ends = es.map fun e => .failed e.target msg.record
  | [], s, ends, safe, _, h => by
    obtain ⟨rfl, -⟩ : [] = ends ∧ true = safe := by simpa [routeEdges] using h
    rfl
  | e :: es, s, ends, safe, hnext, h => by
    have he := hnext e mem_cons_self s
    unfold routeEdges at h
    rcases hn : next e.target msg s with ⟨s1, text | ⟨ends1, safe1⟩⟩ <;> rw [hn] at h he
    · cases h
    · dsimp only at h
      have hrest := fun ends safe => @routeEdges_refused next msg es s1 ends safe fun e' he' =>
        hnext e' (mem_cons_of_mem _ he')
      rcases hr : routeEdges next msg es s1 with ⟨s2, text | ⟨ends2, safe2⟩⟩ <;> rw [hr] at h hrest
      · cases h
      · obtain ⟨rfl, -⟩ : ends1 ++ ends2 = ends ∧ (safe1 && safe2) = safe := by simpa using h
        rw [he ends1 safe1 rfl, hrest ends2 safe2 rfl]
        rfl

theorem getNode_source {sourceID : String} (h : sourceID ∈ C.dag.sources.map (·.id)) :
    ∃ node, C.dag.getNode sourceID = some node ∧ node.kind = .source := by
  obtain ⟨source, hsource, rfl⟩ := mem_map.mp h
  obtain ⟨hmem, hkind⟩ := mem_filter.mp hsource
  obtain ⟨node, hnode⟩ := getNode_of_mem C (mem_map_of_mem (f := Node.id) hmem)
  obtain ⟨hmem', hid⟩ := DAG.getNode_some hnode
  obtain rfl : node = source := inj_on_of_nodup_map C.dag_valid.nodup hmem' hmem hid
  exact ⟨node, hnode, by simpa using hkind⟩

/-- All ends of a diverted record are failures with the record as it was read, and there is one. -/
theorem route_diverted {fuel : Nat} {msg : RecordMsg} (hsource : msg.sourceID ∈ C.dag.sources.map (·.id))
    (hrej : msg.record.rejection ≠ none) (hdiv : Diverted C E msg.sourceID msg.record) {ends : List Branch} {safe : Bool}
    (h : (route C E fuel msg.sourceID msg s).2 = .ok (ends, safe)) :
    EndsIn S ends ∧ ∃ nodeID, .failed nodeID msg.record ∈ ends := by
  obtain ⟨hsome, htaken⟩ := hdiv
  cases fuel with
  | zero => simp [route] at h
  | succ fuel =>
    obtain ⟨node, hnode, hkind⟩ := getNode_source hsource
    have happly : applyNode E (s.emit (.visit msg.sourceID)) node msg.record = .ok msg.record := by
      unfold applyNode
      rw [if_neg (by rw [hkind]; decide)]
    rw [route] at h
    simp only [hnode, happly, hkind, hsome, if_false, reduceCtorEq] at h
    split at h
    · cases h
    · obtain rfl := routeEdges_refused (fun e he s ends safe h => by
        obtain ⟨node, hnode, hkind, hrefuses⟩ := htaken e he
        exact route_refused hnode hkind hrefuses hrej h) h
      constructor
      · intro k rec hmem
        obtain ⟨e, -, he⟩ := mem_map.mp hmem
        cases he
      · obtain ⟨e, he⟩ := exists_mem_of_ne_nil _ hsome
        exact ⟨e.target, mem_map_of_mem (f := fun e : Edge => Branch.failed e.target msg.record) he⟩

/-! ## The numbers of the messages -/

/-- The records of a source of the graph, in the order they are read. -/
def readFrom (sourceID : String) (steps : List Step) : List Record :=
  steps.filterMap fun
    | .deliver id rec => if id = sourceID then some rec else none
    | _ => none

theorem writeDue_nextRead (runCtx : Ctx) (u : Under) (len : Nat) : ∀ (ids : List String) (s : St),
    (writeDue C E runCtx u len ids s).nextRead = s.nextRead
  | [], _ => rfl
  | sinkID :: rest, s => by
    rw [writeDue, writeDue_nextRead runCtx u len rest]
    split
    · have hq := congrArg Queues.nextRead (writeToSink_adds C E
        (Writing.savesUnder (u.ctx runCtx) (s.batchBySink sinkID)) s sinkID (s.recordsBySinkSource sinkID)).queues
      exact hq
    · rfl

theorem enterResult_nextRead (s : St) (r : RouteResult) : (enterResult s r).nextRead = s.nextRead := by
  obtain ⟨s1, hs1, he, -⟩ := enterResult_cases s r
  have hq := congrArg Queues.nextRead he.queues
  rw [hs1]
  exact hq

/-- Only a reader counts what it has read. -/
theorem nextRead_kept (runCtx : Ctx) (c : String → Nat) : Kept C E runCtx fun s => s.nextRead = c where
  full s h := (writeDue_nextRead runCtx .run _ _ s).trans h
  next _ s sourceID r _ h := (enterResult_nextRead _ r).trans h
  call _ h := h
  done _ h := h
  receive _ s msg rest _ _ h := by
    have hq := (routeRecord_adds C E Routes.routing { s with inFlight := rest } msg).queues
    unfold receive
    rcases hr : routeRecord C E { s with inFlight := rest } msg with ⟨s1, text | ⟨ends, safe⟩⟩ <;> rw [hr] at hq
    · exact (congrArg Queues.nextRead hq).trans h
    · dsimp only
      rw [writeFull, writeDue_nextRead, enterResult_nextRead]
      exact (congrArg Queues.nextRead hq).trans h
  work _ s i msg _ h := by
    have hq := (routeSafely_adds C E Routes.routing { s with inFlight := s.inFlight.eraseIdx i } msg).queues
    exact (congrArg Queues.nextRead hq).trans h
  result _ _ _ _ _ h := h
  stops _ _ _ h := h

theorem deliver_nextRead (s : St) {S : String} (hS : S ∈ C.dag.sources.map (·.id)) (sourceID : String) (rec : Record) :
    (deliver C s sourceID rec).nextRead S = s.nextRead S + if sourceID = S then 1 else 0 := by
  unfold deliver
  by_cases heq : sourceID = S
  · subst heq
    rw [if_pos hS, if_pos rfl]
    exact Function.update_self ..
  · rw [if_neg heq]
    split
    · exact Function.update_of_ne (Ne.symm heq) ..
    · rfl

/-- How many records of a source of the graph a step reads, while the router runs. -/
theorem step_nextRead (runCtx : Ctx) {S : String} (hS : S ∈ C.dag.sources.map (·.id)) {s : St}
    (hrun : s.routerDone = false) (i : Step) :
    (step C E runCtx s i).nextRead S = s.nextRead S + (readFrom S [i]).length := by
  have hother : (∀ sourceID rec, i ≠ .deliver sourceID rec) → (step C E runCtx s i).nextRead = s.nextRead := fun hi =>
    (nextRead_kept runCtx s.nextRead).step (fun sourceID rec h => absurd h (hi sourceID rec))
      (fun _ s' h => (writeDue_nextRead runCtx .flush _ _ s').trans h) rfl
  cases i with
  | deliver sourceID rec =>
    unfold step
    rw [if_neg (by simp [hrun])]
    refine (deliver_nextRead (s.emit .call) hS sourceID rec).trans ?_
    by_cases heq : sourceID = S <;> simp [readFrom, heq, St.emit]
  | _ =>
    rw [hother (by simp)]
    rfl

/-- A message carries the record that its source read under its number. -/
def Numbered (C : Cfg) (steps : List Step) (m : RecordMsg) : Prop :=
  m.sourceID ∈ C.dag.sources.map (·.id) ∧ (readFrom m.sourceID steps)[m.seq]? = some m.record

theorem steps_numbered (runCtx : Ctx) {P : Step → St → Prop} {all : List Step}
    (hP : ∀ s i, (∀ sourceID rec, i = .deliver sourceID rec → s.routerDone = false →
      sourceID ∈ C.dag.sources.map (·.id) → Numbered C all ⟨rec, sourceID, s.nextRead sourceID⟩) → P i s) :
    ∀ (done steps : List Step) (s : St), all = done ++ steps →
      (s.routerDone = false → ∀ S ∈ C.dag.sources.map (·.id), s.nextRead S = (readFrom S done).length) →
        Steps (fun s i => P i s) (step C E runCtx) s steps
  | _, [], _, _, _ => trivial
  | done, i :: steps, s, hall, hread => by
    refine ⟨hP s i ?_, steps_numbered runCtx hP (done ++ [i]) steps _ (by rw [hall, append_assoc]; rfl) ?_⟩
    · rintro sourceID rec rfl hrun hS
      refine ⟨hS, ?_⟩
      rw [hall, readFrom, filterMap_append, hread hrun sourceID hS]
      simp [readFrom]
    · intro hrun S hS
      have hbefore : s.routerDone = false := by
        by_contra hdone
        rw [step, if_pos (by simpa using hdone)] at hrun
        exact hdone hrun
      rw [step_nextRead runCtx hS hbefore, hread hbefore S hS]
      simp only [readFrom, filterMap_append, length_append]

/-! ## Runs -/

/-- Record `n` of the source is in the DLQ if it is rejected. -/
def InDLQ (steps : List Step) (log : List Event) (sourceID : String) (n : Nat) : Prop :=
  ∀ r, (readFrom sourceID steps)[n]? = some r → r.rejection ≠ none →
    ∃ nodeID cause, .dlq nodeID ⟨r, sourceID, n⟩ cause none ∈ log

theorem inDLQ_lasting (steps : List Step) : Lasting (InDLQ steps) := by
  intro l l' S n hsub h r hr hrej
  obtain ⟨nodeID, cause, hmem⟩ := h r hr hrej
  exact ⟨nodeID, cause, hsub hmem⟩

/-- What the routes of such a run are like: nothing for the sinks is rejected, and a rejected record fails. -/
def divertedTraffic (C : Cfg) (E : Env) (hE : Keeps (·.rejection = none) E) (steps : List Step)
    (hdiv : ∀ sourceID rec, .deliver sourceID rec ∈ steps → rec.rejection ≠ none → Diverted C E sourceID rec) :
    Traffic C E where
  msg := Numbered C steps
  ends m es := Numbered C steps m ∧ EndsIn (·.rejection = none) es ∧
    (m.record.rejection ≠ none → ∃ nodeID, .failed nodeID m.record ∈ es)
  route {s m} hm {es safe} h := by
    have hmem : .deliver m.sourceID m.record ∈ steps := by
      obtain ⟨i, hi, heq⟩ := mem_filterMap.mp (mem_of_getElem? hm.2)
      cases i with
      | deliver id rec =>
        simp only at heq
        split at heq
        · rename_i hid
          cases heq
          exact hid ▸ hi
        · cases heq
      | _ => cases heq
    by_cases hrej : m.record.rejection = none
    · exact ⟨hm, route_endsIn C hE _ _ m hrej s es safe h, fun h => absurd hrej h⟩
    · obtain ⟨hends, hfailed⟩ := route_diverted hm.1 hrej (hdiv _ _ hmem hrej) h
      exact ⟨hm, hends, fun _ => hfailed⟩
  panic {m} hm := ⟨hm, fun k rec h => by simp at h, fun _ => ⟨"", mem_singleton_self _⟩⟩

/-- What was written is not rejected, nor is what still can be; what was entered and is rejected is in the DLQ. -/
structure Clean (steps : List Step) (s : St) : Prop where
  writes : ∀ e ∈ s.log, e.Writes (·.rejection = none)
  batches : ∀ k, ∀ m ∈ s.batchBySink k, m.record.rejection = none
  saves : Always (SavesCover (InDLQ steps)) s.log
  entered : ∀ S, s.blocked S = false → ∀ n < s.applied S, InDLQ steps s.log S n
  boundary : ∀ k, ∀ p ∈ s.recordsBySinkSource k, ∀ msg ∈ p.2, msg.seq < s.applied p.1

variable {steps : List Step}

theorem Clean.frame {s' : St} (h : Clean steps s) (hs : Adds (Event.Writes (·.rejection = none)) s s')
    (hsaves : Always (SavesCover (InDLQ steps)) s'.log) : Clean steps s' := by
  obtain ⟨evs, hl, hevs⟩ := hs.events
  obtain ⟨q', log', blocks', b', w', f', d', fl'⟩ := s'
  obtain rfl : q' = s.toQueues := hs.queues
  refine ⟨fun e he => ?_, h.batches, hsaves, fun S hb n hn => ?_, h.boundary⟩
  · simp only at hl he
    rw [hl] at he
    rcases mem_append.mp he with he | he
    · exact h.writes e he
    · exact hevs e he
  · exact inDLQ_lasting steps _ _ _ _ hs.log (h.entered S (hs.unblocked hb) n hn)

theorem Clean.enterResult (h : Clean steps s) {r : RouteResult} (hok : RouteOk C s.log r.msg r.ends r.checkpointSafe)
    (hnum : Numbered C steps r.msg) (hends : EndsIn (·.rejection = none) r.ends)
    (hfailed : r.msg.record.rejection ≠ none → ∃ nodeID, .failed nodeID r.msg.record ∈ r.ends)
    (hseq : r.msg.seq = s.applied r.msg.sourceID) : Clean steps (enterResult s r) := by
  obtain ⟨s1, hs1, he, hlog, hblock⟩ := enterResult_cases s r
  have hgrows : ∀ S, s.applied S ≤ Function.update s.applied r.msg.sourceID (s.applied r.msg.sourceID + 1) S := by
    intro S
    by_cases hS : S = r.msg.sourceID
    · subst hS
      simp
    · simp [hS]
  rw [hs1]
  refine ⟨by simpa only [hlog] using h.writes, fun k m hm => ?_, by simpa only [hlog] using h.saves,
    fun S hb n hn => ?_, fun k p hp msg hm => ?_⟩
  · rcases mem_append.mp hm with hm | hm
    · exact h.batches k m hm
    · obtain ⟨rec, hend, rfl⟩ := mem_sinkRecords.mp hm
      exact hends k rec hend
  · simp only [hlog]
    by_cases hlt : n < s.applied S
    · exact h.entered S (he.unblocked hb) n hlt
    · -- the message that enters now
      have hS : r.msg.sourceID = S := by
        by_contra hne
        exact hlt (by simpa [Ne.symm hne] using hn)
      subst hS
      have hn' : n = r.msg.seq := by
        have : n < s.applied r.msg.sourceID + 1 := by simpa using hn
        omega
      subst hn'
      intro rec hrec hrej
      obtain rfl : r.msg.record = rec := Option.some.inj (hnum.2.symm.trans hrec)
      have hsafe : r.checkpointSafe = true := by
        by_contra hne
        have hbl := hblock (by simpa using hne)
        rw [show s1.blocked r.msg.sourceID = false from hb] at hbl
        cases hbl
      obtain ⟨nodeID, hend⟩ := hfailed hrej
      obtain ⟨cause, hdlq⟩ := hok _ hend hsafe
      exact ⟨nodeID, cause, hdlq⟩
  · change p ∈ (if r.sinkRecords k = [] then _ else _) at hp
    show msg.seq < Function.update s.applied _ _ p.1
    split at hp
    · exact (h.boundary k p hp msg hm).trans_le (hgrows p.1)
    · rcases mem_addSourceRecord.mp ⟨p, hp, rfl, hm⟩ with ⟨q, hq, hqp, hmq⟩ | ⟨rfl, hS⟩
      · rw [← hqp]
        exact (h.boundary k q hq msg hmq).trans_le (hgrows q.1)
      · rw [hS, Function.update_self]
        omega

theorem Clean.writeAndClear (runCtx : Ctx) (u : Under) (h : Clean steps s) (k : String) :
    Clean steps (clearBatch (writeToSink C E runCtx u s k (s.batchBySink k) (s.recordsBySinkSource k)) k) := by
  have hadds := writeToSink_adds C E (Writing.writes (S := (·.rejection = none)) (u.ctx runCtx) (h.batches k)) s k
    (s.recordsBySinkSource k)
  have hsaves := writeToSink_saves C E (inDLQ_lasting steps) runCtx u k (s.batchBySink k)
    (l := s.recordsBySinkSource k) h.saves fun hf p hp hb msg hm n hn =>
      inDLQ_lasting steps _ _ _ _ hf.log
        (h.entered p.1 (hf.unblocked hb) n (hn.trans_lt (h.boundary k p hp msg hm)))
  have h1 := h.frame hadds hsaves
  refine ⟨h1.writes, fun k' m hm => ?_, h1.saves, h1.entered, fun k' p hp => ?_⟩
  · by_cases hk : k' = k
    · subst hk
      simp [clearBatch] at hm
    · simp only [clearBatch, Function.update_of_ne hk] at hm
      exact h1.batches k' m hm
  · by_cases hk : k' = k
    · subst hk
      simp [clearBatch] at hp
    · simp only [clearBatch, Function.update_of_ne hk] at hp
      exact h1.boundary k' p hp

theorem Clean.writeDue (runCtx : Ctx) (u : Under) (len : Nat) : ∀ (ids : List String) {s : St}, Clean steps s →
    Clean steps (writeDue C E runCtx u len ids s)
  | [], _, h => h
  | sinkID :: rest, s, h => by
    refine Clean.writeDue runCtx u len rest ?_
    split
    · exact h.writeAndClear runCtx u sinkID
    · exact h

theorem Clean.commits (hE : Keeps (·.rejection = none) E)
    (hdiv : ∀ sourceID rec, .deliver sourceID rec ∈ steps → rec.rejection ≠ none → Diverted C E sourceID rec)
    (runCtx : Ctx) : Commits (divertedTraffic C E hE steps hdiv) runCtx (Clean steps) where
  routing h he := h.frame (he.mono fun e h => by cases e <;> trivial)
    (savesCover_ext h.saves (he.mono fun e h => by cases e <;> first | rfl | cases h))
  batches {s s'} h hlog hblocks hbatch hrecords happlied := by
    obtain ⟨⟨_, _, _, _, _, _, _, _, _, _⟩, _, _, _, _, _, _, _⟩ := s'
    subst hlog hblocks hbatch hrecords happlied
    exact ⟨h.writes, h.batches, h.saves, h.entered, h.boundary⟩
  enterResult h _ hok hF hseq := h.enterResult hok hF.1 hF.2.1 hF.2.2 hseq
  writeDue u len {s} h := h.writeDue runCtx u len _
  start := by
    refine ⟨by simp [St.start], by simp [St.start], always_nil _, fun S _ n hn => ?_, by simp [St.start]⟩
    simp [St.start] at hn

/-- **Diverted records.** If every rejected record that is delivered is diverted, no sink is given one, and no checkpoint
covers one that is not in the DLQ. -/
theorem run_clean (hE : Keeps (·.rejection = none) E)
    (hdiv : ∀ sourceID rec, .deliver sourceID rec ∈ steps → rec.rejection ≠ none → Diverted C E sourceID rec)
    (runCtx : Ctx) : Clean steps (run (step C E runCtx) (St.start C) steps) := by
  refine (Clean.commits hE hdiv runCtx).run (steps_numbered runCtx (fun s i h => ?_) [] steps _ rfl fun _ S _ => rfl)
  cases i with
  | deliver sourceID rec => exact fun hrun hS => h sourceID rec rfl hrun hS
  | _ => trivial

end

end OpenEtl.Orchestrator
