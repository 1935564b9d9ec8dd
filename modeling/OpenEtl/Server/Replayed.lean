import OpenEtl.Server.DlqReplay

/-!
# When a replay deletes a dead letter

Every deletion in a replay request has a reason (`DeleteFor`): the row was acknowledged by an earlier request, or a
write of it returned nil in this one. A DAG replay has one more: a row whose route reaches no sink, because a
transform filters it or no edge takes it, is deleted without a write.
-/

namespace OpenEtl.Server

open List Orchestrator Trace

/-- Some write of row `i` returned nil. -/
def Written (log : Log) (i : Nat) : Prop := ∃ sinkID records, .write i sinkID records none ∈ log

/-- Row `i` was acknowledged by an earlier request. -/
def AckedBefore (items : List DeadLetter) (i : Nat) : Prop :=
  ∃ item, items[i]? = some item ∧ item.replayState = .sinkAcked

/-- A row is deleted only with the reason `J` for it. -/
def DeleteFor (J : Log → Nat → Prop) (pre : Log) : Event → Prop
  | .delete i _ => J pre i
  | _ => True

def Event.isDelete : Event → Bool
  | .delete .. => true
  | _ => false

/-- `log'` goes on from `log` without a deletion. -/
def Quiet (log log' : Log) : Prop := ∃ evs, log' = log ++ evs ∧ ∀ e ∈ evs, e.isDelete = false

theorem Quiet.refl (log : Log) : Quiet log log := Grew.refl _ log

variable {l1 l2 : Log}

theorem Quiet.trans {l3 : Log} (h : Quiet l1 l2) (h' : Quiet l2 l3) : Quiet l1 l3 := Grew.trans h h'

theorem Quiet.snoc (log : Log) {e : Event} (he : e.isDelete = false) : Quiet log (log ++ [e]) := Grew.snoc log he

theorem Quiet.subset (h : Quiet l1 l2) : l1 ⊆ l2 := (Grew.grows h).subset

theorem Quiet.always {J : Log → Nat → Prop} (h : Always (DeleteFor J) l1) :
    Quiet l1 l2 → Always (DeleteFor J) l2 := by
  rintro ⟨a, rfl, ha⟩
  refine Always.append h fun pre e he => ?_
  cases e with
  | delete i err => exact absurd (ha _ he) (by simp [Event.isDelete])
  | _ => trivial

section

variable (E : Env)

theorem retryWrite_nil {retry : Retry.Config} (hpos : 0 < retry.maxAttempts) (i : Nat) (sinkID : String)
    (records : List Record) (log : Log) :
    Quiet log (retryWrite E retry i sinkID records log).1 ∧
      ((retryWrite E retry i sinkID records log).2 = none →
        Written (retryWrite E retry i sinkID records log).1 i) := by
  refine Retry.Do_induction
    (Q := fun log' r => Quiet log log' ∧ (r = none → Written log' i)) hpos ?_ ?_ ?_ (Quiet.refl log)
  · intro l1 l2 hq hf
    simp only [Prod.mk.injEq] at hf
    obtain ⟨rfl, herr⟩ := hf
    exact ⟨hq.trans (Quiet.snoc l1 rfl), fun _ => ⟨sinkID, records, by simp [herr]⟩⟩
  · intro l1 l2 e hq hf
    simp only [Prod.mk.injEq] at hf
    obtain ⟨rfl, -⟩ := hf
    have h := hq.trans (Quiet.snoc l1 (e := .write i sinkID records (E.write l1.length sinkID records)) rfl)
    exact ⟨h, h, by simp⟩
  · exact fun l1 e hq _ => ⟨hq, by simp⟩

/-- `log'` goes on from `log` with updates of row `i`. -/
def Noted (i : Nat) (log log' : Log) : Prop := Grew (fun e => ∃ item err, e = .update i item err) log log'

theorem Noted.one (i : Nat) (item : DeadLetter) (err : Option Err) (log : Log) :
    Noted i log (log ++ [.update i item err]) := Grew.snoc log ⟨item, err, rfl⟩

theorem Noted.quiet {i : Nat} (h : Noted i l1 l2) : Quiet l1 l2 :=
  Grew.mono h fun e he => by
    obtain ⟨item, err, rfl⟩ := he
    rfl

def Event.isWrite : Event → Bool
  | .write .. => true
  | _ => false

def Unwritten (log log' : Log) : Prop := Grew (fun e => e.isWrite = false) log log'

theorem Noted.unwritten {i : Nat} (h : Noted i l1 l2) : Unwritten l1 l2 :=
  Grew.mono h fun e he => by
    obtain ⟨item, err, rfl⟩ := he
    rfl

section

variable (i : Nat) (item : DeadLetter) (err : Err) (log : Log)

theorem markDLQReplayFailure_notes : Noted i log (markDLQReplayFailure E i item err log) := by
  unfold markDLQReplayFailure
  split
  · exact Grew.refl _ log
  · exact .one i _ _ log

theorem markDLQReplayFailure_quiet :
    Quiet log (markDLQReplayFailure E i item err log) := (markDLQReplayFailure_notes E i item err log).quiet

theorem checkpointDLQReplay_notes : Noted i log (checkpointDLQReplay E i item log).1 := by
  unfold checkpointDLQReplay
  split
  · exact Grew.refl _ log
  · exact .one i _ _ log

theorem markDLQReplayFailure_unwritten :
    Unwritten log (markDLQReplayFailure E i item err log) := (markDLQReplayFailure_notes E i item err log).unwritten

theorem deleteReplayedDLQItem_unwritten : Unwritten log (deleteReplayedDLQItem E i item log).1 := Grew.snoc log rfl

end

/-- The gate hands on what its verdict lets pass. -/
theorem prepareLinearDLQReplay_notes (G : Gate) (i : Nat) (item : DeadLetter) (log : Log) :
    Noted i log (prepareLinearDLQReplay E G i item log).1 ∧
      ∀ p, (prepareLinearDLQReplay E G i item log).2 = .ok p → ∃ what, G.verdict item = .pass p what := by
  unfold prepareLinearDLQReplay
  cases G.verdict item with
  | block state reason => exact ⟨.one i _ _ log, by simp⟩
  | pass prepared what =>
    cases what with
    | none =>
      refine ⟨Grew.refl _ log, fun p h => ⟨none, ?_⟩⟩
      rw [Except.ok.inj h]
    | some what =>
      refine ⟨.one i _ _ log, fun p h => ⟨some what, ?_⟩⟩
      simp only at h
      split at h
      · cases h
      · rw [Except.ok.inj h]

theorem validateLinearReplayIdentity_notes (G : Gate) (i : Nat) (item : DeadLetter) (rec : Record) (log : Log) :
    Noted i log (validateLinearReplayIdentity E G i item rec log).1 ∧
      ((validateLinearReplayIdentity E G i item rec log).2 = none → G.admits rec = true) := by
  unfold validateLinearReplayIdentity
  split
  · rename_i h
    exact ⟨Grew.refl _ log, fun _ => h⟩
  · exact ⟨.one i _ _ log, by simp⟩

variable {J : Log → Nat → Prop} (hJ : ∀ l1 l2 i, l1 ⊆ l2 → J l1 i → J l2 i) {i : Nat}

/-- A row is deleted for the reason its caller has. -/
theorem deleteReplayedDLQItem_for (item : DeadLetter) {log : Log} (hlog : Always (DeleteFor J) log)
    (hi : J log i) : Always (DeleteFor J) (deleteReplayedDLQItem E i item log).1 :=
  always_snoc.mpr ⟨hlog, hi⟩

include hJ in
theorem completeRow_for {i : Nat} (item : DeadLetter) {log : Log} (hlog : Always (DeleteFor J) log)
    (hi : J log i) : Always (DeleteFor J) (completeRow E i item log).1 := by
  have hq := (checkpointDLQReplay_notes E i item log).quiet
  unfold completeRow
  rcases hc : checkpointDLQReplay E i item log with ⟨log1, r⟩
  rw [hc] at hq
  cases r with
  | error e => exact (hq.trans (markDLQReplayFailure_quiet E i item e log1)).always hlog
  | ok item' =>
    have hd := deleteReplayedDLQItem_for E item' (hq.always hlog) (hJ _ _ _ hq.subset hi)
    simp only
    rcases hdel : deleteReplayedDLQItem E i item' log1 with ⟨log2, r2⟩
    rw [hdel] at hd
    cases r2 with
    | some e => exact (markDLQReplayFailure_quiet E i item' e log2).always hd
    | none => exact hd

theorem cleanAcked_for : ∀ (items : List DeadLetter) (i : Nat) (log : Log),
    (∀ k item, items[k]? = some item → item.replayState = .sinkAcked → ∀ log, J log (i + k)) →
      Always (DeleteFor J) log → Always (DeleteFor J) (cleanAcked E i items log).1
  | [], _, _, _, h => h
  | item :: rest, i, log, hacked, h => by
    have hrest : ∀ k it, rest[k]? = some it → it.replayState = .sinkAcked → ∀ log, J log (i + 1 + k) := by
      intro k it hk hit log
      have := hacked (k + 1) it (by simpa using hk) hit log
      rwa [show i + (k + 1) = i + 1 + k by omega] at this
    unfold cleanAcked
    split
    · rename_i hst
      have hd := deleteReplayedDLQItem_for E item h (hacked 0 item rfl hst log)
      rw [Nat.add_zero] at hd
      rcases hdel : deleteReplayedDLQItem E i item log with ⟨log1, r⟩
      rw [hdel] at hd
      cases r with
      | some e => exact (markDLQReplayFailure_quiet E i item e log1).always hd
      | none => exact cleanAcked_for rest (i + 1) log1 hrest hd
    · have hr := cleanAcked_for rest (i + 1) log hrest h
      rcases hc : cleanAcked E (i + 1) rest log with ⟨log1, r⟩
      rw [hc] at hr
      cases r <;> exact hr

/-- The rows that are not acknowledged yet, with their places. -/
def unacked : Nat → List DeadLetter → List (Nat × DeadLetter)
  | _, [] => []
  | i, item :: rest => if item.acked then unacked (i + 1) rest else (i, item) :: unacked (i + 1) rest

/-- The rows that are left to write keep their place in the listing. -/
theorem mem_unacked {p : Nat × DeadLetter} : ∀ {items : List DeadLetter} {i : Nat}, p ∈ unacked i items →
    ¬p.2.acked ∧ ∃ k, p.1 = i + k ∧ items[k]? = some p.2
  | [], _, h => absurd h not_mem_nil
  | item :: rest, i, h => by
    have hlater : p ∈ unacked (i + 1) rest → ¬p.2.acked ∧ ∃ k, p.1 = i + k ∧ (item :: rest)[k]? = some p.2 := by
      intro h
      obtain ⟨hun, k, hk, hget⟩ := mem_unacked h
      exact ⟨hun, k + 1, by omega, by simpa using hget⟩
    unfold unacked at h
    split at h
    · exact hlater h
    · rename_i hun
      rcases mem_cons.mp h with rfl | h
      · exact ⟨hun, 0, rfl, rfl⟩
      · exact hlater h

theorem cleanAcked_pending : ∀ (items : List DeadLetter) (i : Nat) (log : Log),
    Unwritten log (cleanAcked E i items log).1 ∧
      ∀ pending, (cleanAcked E i items log).2 = .ok pending → pending = unacked i items
  | [], i, log => ⟨Grew.refl _ _, fun pending h => (Except.ok.inj h).symm⟩
  | item :: rest, i, log => by
    unfold cleanAcked unacked DeadLetter.acked
    split
    · have hdel := deleteReplayedDLQItem_unwritten E i item log
      rcases hd : deleteReplayedDLQItem E i item log with ⟨log1, _ | e⟩ <;> rw [hd] at hdel
      · obtain ⟨hun, hpending⟩ := cleanAcked_pending rest (i + 1) log1
        exact ⟨hdel.trans hun, hpending⟩
      · exact ⟨hdel.trans (markDLQReplayFailure_unwritten E i item e log1), by simp⟩
    · obtain ⟨hun, hpending⟩ := cleanAcked_pending rest (i + 1) log
      rcases hc : cleanAcked E (i + 1) rest log with ⟨log1, e | pending⟩ <;> rw [hc] at hun hpending
      · exact ⟨hun, by simp⟩
      · refine ⟨hun, fun pending' h => ?_⟩
        rw [← Except.ok.inj h, ← hpending pending rfl]

variable {row : Nat → DeadLetter → Log → Log × Option Err}

theorem replayRows_rule {I : Log → Prop} : ∀ (l : List (Nat × DeadLetter)) (log : Log),
    (∀ p ∈ l, ∀ log, I log → I (row p.1 p.2 log).1) → I log → I (replayRows row l log).1
  | [], _, _, h => h
  | (i, item) :: rest, log, hrow, h => by
    have h' := hrow (i, item) mem_cons_self log h
    unfold replayRows
    rcases hr : row i item log with ⟨log1, _ | e⟩ <;> rw [hr] at h'
    · exact replayRows_rule rest log1 (fun p hp => hrow p (mem_cons_of_mem _ hp)) h'
    · exact h'

theorem replayWith_for (items : List DeadLetter)
    (hacked : ∀ i, AckedBefore items i → ∀ log, J log i)
    (hrow : ∀ i item log, items[i]? = some item → Always (DeleteFor J) log →
      Always (DeleteFor J) (row i item log).1) :
    Always (DeleteFor J) (replayWith E row items).1 := by
  have h := cleanAcked_for E items 0 []
    (fun k item hk hst log => by simpa using hacked k ⟨item, hk, hst⟩ log) (always_nil _)
  have hpending := (cleanAcked_pending E items 0 []).2
  unfold replayWith
  rcases hc : cleanAcked E 0 items [] with ⟨log1, e | pending⟩ <;> rw [hc] at h hpending
  · exact h
  · obtain rfl := hpending pending rfl
    refine replayRows_rule _ log1 (fun p hp log => ?_) h
    obtain ⟨-, k, hk, hget⟩ := mem_unacked hp
    exact hrow p.1 p.2 log (by rw [hk, Nat.zero_add, hget])

/-! ### Linear replay -/

/-- The row was acknowledged before, or written now. -/
def Replayed (items : List DeadLetter) (log : Log) (i : Nat) : Prop := AckedBefore items i ∨ Written log i

variable {l1 l2 : Log}

theorem Written.mono (hsub : l1 ⊆ l2) : Written l1 i → Written l2 i := by
  rintro ⟨sinkID, records, hm⟩
  exact ⟨sinkID, records, hsub hm⟩

variable {items : List DeadLetter}

theorem Replayed.mono (hsub : l1 ⊆ l2) :
    Replayed items l1 i → Replayed items l2 i := Or.imp_right (Written.mono hsub)

theorem replayDLQItems_sound {spec : LinearSpec} (hpos : 0 < spec.retry.maxAttempts) (items : List DeadLetter) :
    Always (DeleteFor (Replayed items)) (replayDLQItems E spec items).1 := by
  refine replayWith_for E items (fun i hi _ => .inl hi) fun i item log _ h => ?_
  have hprep := (prepareLinearDLQReplay_notes E spec.gate i item log).1.quiet
  unfold replayRow
  rcases hp : prepareLinearDLQReplay E spec.gate i item log with ⟨log0, e | prepared⟩ <;> rw [hp] at hprep
  · exact hprep.always h
  simp only
  split
  · exact (hprep.trans (markDLQReplayFailure_quiet E i prepared _ log0)).always h
  · exact (hprep.trans (markDLQReplayFailure_quiet E i prepared _ log0)).always h
  rename_i rec _
  have hvalid := hprep.trans (validateLinearReplayIdentity_notes E spec.gate i prepared rec log0).1.quiet
  rcases hv : validateLinearReplayIdentity E spec.gate i prepared rec log0 with ⟨log1, _ | e⟩ <;> rw [hv] at hvalid
  · obtain ⟨hq, hnil⟩ := retryWrite_nil E hpos i "sink" [rec] log1
    simp only [writeRow]
    rcases hr : retryWrite E spec.retry i "sink" [rec] log1 with ⟨log2, r⟩
    rw [hr] at hq hnil
    cases r with
    | some e => exact ((hvalid.trans hq).trans (markDLQReplayFailure_quiet E i prepared e log2)).always h
    | none =>
      exact completeRow_for E (J := Replayed items) (fun _ _ _ => Replayed.mono) prepared
        ((hvalid.trans hq).always h) (.inr (hnil rfl))
  · exact hvalid.always h

/-! ### DAG replay -/

variable {next : String → Record → Log → Log × Except Err (List (String × Record))}

theorem routeEdges_congr {next' : String → Record → Log → Log × Except Err (List (String × Record))}
    (rec : Record) : ∀ (es : List Edge) (log : Log),
      (∀ e ∈ es, ∀ log, next e.target rec log = next' e.target rec log) →
        routeEdges next rec es log = routeEdges next' rec es log
  | [], _, _ => rfl
  | e :: es, log, h => by
    have hrest : ∀ log, routeEdges next rec es log = routeEdges next' rec es log := fun log =>
      routeEdges_congr rec es log fun e' he' => h e' (by simp [he'])
    simp only [routeEdges, h e (by simp) log, hrest]

/-- **The route of a replay ends**: more depth than there are nodes changes nothing. -/
theorem replay_route_ends (spec : DagSpec) (i k : Nat) (node : { id // id ∈ spec.dag.nodeIDs }) (rec : Record) (log : Log) :
    route E spec i (spec.dag.nodes.length + k) node rec log = route E spec i spec.dag.nodes.length node rec log := by
  have hvalid := DAG.valid_of_validate spec.valid
  have heq := hvalid.depth_irrelevant (f := route E spec i) (fun fuel fuel' nodeID h => ?_) node.2
    (Nat.le_add_right _ k) (Nat.le_refl _)
  · rw [heq]
  · have hrec : ∀ rec log, routeEdges (route E spec i fuel) rec (takenEdges spec nodeID rec) log =
        routeEdges (route E spec i fuel') rec (takenEdges spec nodeID rec) log := by
      intro rec log
      refine routeEdges_congr rec _ log fun e he log => ?_
      obtain ⟨hedge, htaken⟩ := mem_filter.mp he
      have hsrc : e.source = nodeID := by
        simp at htaken
        exact htaken.1
      rw [h e hedge hsrc]
    simp only [route, hrec]

/-- … or the route of the row from its failed node has nothing for any sink. -/
def ReplayedDAG (spec : DagSpec) (items : List DeadLetter) (log : Log) (i : Nat) : Prop :=
  Replayed items log i ∨ .noSink i ∈ log ∧ ∃ item log₀, items[i]? = some item ∧
    (route E spec i spec.dag.nodes.length (trimSpace item.dagNode) item.record log₀).2 = .ok []

theorem ReplayedDAG.mono {spec : DagSpec} (hsub : l1 ⊆ l2) :
    ReplayedDAG E spec items l1 i → ReplayedDAG E spec items l2 i := Or.imp (Replayed.mono hsub) (.imp_left (hsub ·))

section

variable {P : Event → Prop} {S : Record → Prop} {rec : Record}

theorem routeEdges_grows (hnext : ∀ id log, Grew P log (next id rec log).1 ∧
      ∀ outs, (next id rec log).2 = .ok outs → ∀ o ∈ outs, S o.2) : ∀ (es : List Edge) (log : Log),
      Grew P log (routeEdges next rec es log).1 ∧
        ∀ outs, (routeEdges next rec es log).2 = .ok outs → ∀ o ∈ outs, S o.2
  | [], log => by
    refine ⟨Grew.refl _ _, fun outs h o ho => ?_⟩
    obtain rfl := Except.ok.inj h
    simp at ho
  | e :: es, log => by
    obtain ⟨hlog, houts⟩ := hnext e.target log
    unfold routeEdges
    rcases hn : next e.target rec log with ⟨log1, err | outs1⟩ <;> rw [hn] at hlog houts
    · exact ⟨hlog, by simp⟩
    · obtain ⟨hlog', houts'⟩ := routeEdges_grows hnext es log1
      simp only
      rcases hr : routeEdges next rec es log1 with ⟨log2, err | outs2⟩ <;> rw [hr] at hlog' houts'
      · exact ⟨hlog.trans hlog', by simp⟩
      · refine ⟨hlog.trans hlog', fun outs h o ho => ?_⟩
        obtain rfl := Except.ok.inj h
        rcases mem_append.mp ho with ho | ho
        · exact houts outs1 rfl o ho
        · exact houts' outs2 rfl o ho

/-- What a node hands on of the record is in `S`. -/
def HandsOn (spec : DagSpec) (S : Record → Prop) (nodeID : String) (rec : Record) : Prop :=
  ∀ node, spec.dag.getNode nodeID = some node → ∀ n rec',
    (if node.kind = .transform then E.applyNode n nodeID rec else .ok rec) = .ok rec' → S rec'

theorem HandsOn.of_mem {spec : DagSpec} (hnodes : ∀ n id r r', E.applyNode n id r = .ok r' → S r → S r')
    (hrec : S rec) (nodeID : String) : HandsOn E spec S nodeID rec := by
  intro node _ n rec' h
  split at h
  · exact hnodes _ _ _ _ h hrec
  · obtain rfl := Except.ok.inj h
    exact hrec

/-- A route logs its visits only, and what its first node hands on and its nodes keep of a record the records at its sinks
have. -/
theorem route_grows (spec : DagSpec) (i : Nat) (hP : ∀ id, P (.visit i id))
    (hnodes : ∀ n id r r', E.applyNode n id r = .ok r' → S r → S r') :
    ∀ (fuel : Nat) (nodeID : String) (rec : Record), HandsOn E spec S nodeID rec → ∀ log : Log,
      Grew P log (route E spec i fuel nodeID rec log).1 ∧
        ∀ outs, (route E spec i fuel nodeID rec log).2 = .ok outs → ∀ o ∈ outs, S o.2
  | 0, _, _, _, log => ⟨Grew.refl _ _, by simp [route]⟩
  | fuel + 1, nodeID, rec, hrec, log => by
    have hvisit : Grew P log (log ++ [.visit i nodeID]) := Grew.snoc log (hP nodeID)
    unfold route
    simp only
    split
    · exact ⟨hvisit, by simp⟩
    rename_i node hnode
    split
    · refine ⟨hvisit, fun outs h o ho => ?_⟩
      obtain rfl := Except.ok.inj h
      simp at ho
    · exact ⟨hvisit, by simp⟩
    · rename_i rec' hrec'
      have hS := hrec node hnode _ rec' hrec'
      split
      · refine ⟨hvisit, fun outs h o ho => ?_⟩
        obtain rfl := Except.ok.inj h
        obtain rfl := mem_singleton.mp ho
        exact hS
      · obtain ⟨hlog, houts⟩ := routeEdges_grows
          (fun id log' => route_grows spec i hP hnodes fuel id rec' (.of_mem E hnodes hS id) log')
          (takenEdges spec nodeID rec') (log ++ [.visit i nodeID])
        exact ⟨hvisit.trans hlog, houts⟩

end

variable {spec : DagSpec}

theorem writeSinks_spec (hpos : 0 < spec.retry.maxAttempts) (i : Nat) :
    ∀ (l : List (String × List Record)) (log : Log),
      Quiet log (writeSinks E spec i l log).1 ∧
        (l ≠ [] → (writeSinks E spec i l log).2 = none → Written (writeSinks E spec i l log).1 i)
  | [], log => ⟨Quiet.refl log, by simp⟩
  | (sinkID, records) :: rest, log => by
    obtain ⟨hq, hnil⟩ := retryWrite_nil E hpos i sinkID records log
    unfold writeSinks
    split
    · exact ⟨Quiet.refl log, by simp⟩
    rcases hr : retryWrite E spec.retry i sinkID records log with ⟨log1, r⟩
    rw [hr] at hq hnil
    cases r with
    | some e => exact ⟨hq, by simp⟩
    | none =>
      obtain ⟨hq', -⟩ := writeSinks_spec hpos i rest log1
      exact ⟨hq.trans hq', fun _ _ => (hnil rfl).mono hq'.subset⟩

theorem addSinkRecord_ne_nil (sinkID : String) (rec : Record) (l : List (String × List Record)) :
    addSinkRecord sinkID rec l ≠ [] := by
  cases l with
  | nil => simp [addSinkRecord]
  | cons p rest =>
    unfold addSinkRecord
    split <;> simp

theorem batchBySink_ne_nil {outs : List (String × Record)} (h : outs ≠ []) : batchBySink outs ≠ [] := by
  unfold batchBySink
  rcases eq_nil_or_concat outs with rfl | ⟨init, o, rfl⟩
  · exact absurd rfl h
  · rw [concat_eq_append, foldl_append]
    exact addSinkRecord_ne_nil _ _ _

/-- A replay that reports success wrote the record to a sink, or had no sink to write it to. -/
theorem replay_spec (hpos : 0 < spec.retry.maxAttempts) (i : Nat) (nodeID : String) (rec : Record) (log : Log) :
    Quiet log (replay E spec i nodeID rec log).1 ∧
      ((replay E spec i nodeID rec log).2 = none →
        Written (replay E spec i nodeID rec log).1 i ∨ .noSink i ∈ (replay E spec i nodeID rec log).1 ∧
          (route E spec i spec.dag.nodes.length nodeID rec log).2 = .ok []) := by
  have hroute : Quiet log _ := (route_grows (S := fun _ => True) E spec i (fun _ => rfl) (fun _ _ _ _ _ => id)
    spec.dag.nodes.length nodeID rec (fun _ _ _ _ _ => trivial) log).1
  unfold replay
  split
  · exact ⟨Quiet.refl log, by simp⟩
  split
  · exact ⟨Quiet.refl log, by simp⟩
  rcases hr : route E spec i spec.dag.nodes.length nodeID rec log with ⟨log1, r⟩
  rw [hr] at hroute
  cases r with
  | error e => exact ⟨hroute, by simp⟩
  | ok outs =>
    cases outs with
    | nil => exact ⟨hroute.trans (Quiet.snoc log1 rfl), fun _ => .inr ⟨by simp, rfl⟩⟩
    | cons o outs =>
      have hne : E.sinkOrder log1.length (batchBySink (o :: outs)) ≠ [] := by
        intro h
        have hperm := E.sinkOrder_perm log1.length (batchBySink (o :: outs))
        rw [h] at hperm
        exact batchBySink_ne_nil (by simp) hperm.nil_eq.symm
      obtain ⟨hq, hw⟩ := writeSinks_spec E hpos i (E.sinkOrder log1.length (batchBySink (o :: outs))) log1
      exact ⟨hroute.trans hq, fun h => .inl (hw hne h)⟩

theorem replayDAGDLQItems_sound (hpos : 0 < spec.retry.maxAttempts) (items : List DeadLetter) :
    Always (DeleteFor (ReplayedDAG E spec items)) (replayDAGDLQItems E spec items).1 := by
  refine replayWith_for E items (fun i hi _ => .inl (.inl hi)) fun i item log hitem h => ?_
  unfold replayDAGRow
  simp only
  split
  · exact h
  obtain ⟨hq, hnil⟩ := replay_spec E hpos i (trimSpace item.dagNode) item.record log
  rcases hr : replay E spec i (trimSpace item.dagNode) item.record log with ⟨log1, r⟩
  rw [hr] at hq hnil
  cases r with
  | some e => exact (hq.trans (markDLQReplayFailure_quiet E i item _ log1)).always h
  | none =>
    refine completeRow_for E (J := ReplayedDAG E spec items) (fun _ _ _ => .mono E) item (hq.always h) ?_
    exact (hnil rfl).imp .inr fun hno => ⟨hno.1, item, log, hitem, hno.2⟩

end

end OpenEtl.Server
