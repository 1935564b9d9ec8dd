import OpenEtl.Orchestrator.Rejected
import OpenEtl.Pipeline.Rejected
import OpenEtl.Server.ReplayOrder

/-!
# Rejected records on the three delivery paths (`core/core.go:96-100`)

"The runner persists it to DLQ before checkpointing that position; sinks must never receive records carrying
Rejection."
-/

namespace OpenEtl.Server

open Orchestrator (Edge Node)
open Storage (Ctx)
open List Trace

/-! ## Replays -/

/-- The sinks are given records in `S`. -/
def Event.Writes (S : Record → Prop) : Event → Prop
  | .write _ _ records _ => ∀ r ∈ records, S r
  | _ => True

section

variable {S : Record → Prop} (E : Env)

theorem Unwritten.writes {log log' : Log} (h : Unwritten log log') : Grew (Event.Writes S) log log' :=
  h.mono fun e he => by
    cases e with
    | write => simp [Event.isWrite] at he
    | _ => trivial

theorem retryWrite_within (retry : Retry.Config) (i : Nat) (sinkID : String) {records : List Record} (h : ∀ r ∈ records, S r)
    (log : Log) : Grew (Event.Writes S) log (retryWrite E retry i sinkID records log).1 := by
  obtain ⟨evs, hlog, hevs, -⟩ := retryWrite_writes E retry i sinkID records log
  refine ⟨evs, hlog, fun e he => ?_⟩
  obtain ⟨err, rfl⟩ := hevs e he
  exact h

variable {item : DeadLetter}

/-- No rejected record leaves the transform. -/
def Clears (tr : Transform) : Prop := ∀ t i r r', tr.apply t i r = .ok r' → r'.rejection = none

theorem chainApply_clears {tc : List Transform} (h : ∀ tr ∈ tc, Pipeline.AddsNoRejection tr)
    (hclears : ∃ tr ∈ tc, Clears tr) (t i : Nat) :
    ∀ {r r' : Record}, chainApply tc t i r = .ok r' → r'.rejection = none := by
  induction tc with
  | nil =>
    obtain ⟨tr, hmem, -⟩ := hclears
    exact absurd hmem not_mem_nil
  | cons tr tc ih =>
    intro r r' heq
    have hrest : ∀ tr' ∈ tc, Pipeline.AddsNoRejection tr' := fun tr' htr' => h tr' (mem_cons_of_mem _ htr')
    rw [chainApply, foldlM_cons] at heq
    cases hfirst : tr.apply t i r with
    | error e =>
      rw [hfirst] at heq
      cases heq
    | ok r1 =>
      rw [hfirst] at heq
      obtain ⟨tr', hmem, hclear⟩ := hclears
      rcases mem_cons.mp hmem with rfl | hmem
      · exact Pipeline.chainApply_accepted hrest t i (hclear t i r r1 hfirst) heq
      · exact ih hrest ⟨tr', hmem, hclear⟩ heq

/-- A row that puts no rejected record before the sink: it was rejected and the gate rebuilds or blocks it, or a transform
lets no rejected record through. -/
def LinearSpec.Keeps (spec : LinearSpec) (item : DeadLetter) : Prop :=
  item.record.rejection ≠ none →
    (spec.gate.required = true ∧ (recordIdentity item.record).complete = false) ∨ ∃ tr ∈ spec.transforms, Clears tr

theorem sends_accepted {spec : LinearSpec} (hspec : ∀ tr ∈ spec.transforms, Pipeline.AddsNoRejection tr) {i : Nat}
    (hkeeps : spec.Keeps item) {rec : Record} (h : spec.sends i item = some rec) : rec.rejection = none := by
  unfold LinearSpec.sends at h
  split at h
  · cases h
  rename_i prepared what hv
  have hgate := spec.gate.verdict_rejection hv
  obtain ⟨hchain, -⟩ := Option.filter_eq_some_iff.mp h
  have hok : chainApply spec.transforms i 0 prepared.record = .ok rec := by
    cases hc : chainApply spec.transforms i 0 prepared.record with
    | error e => simp [hc, Except.toOption] at hchain
    | ok r => simpa [hc, Except.toOption] using hchain
  by_cases hrej : prepared.record.rejection = none
  · exact Pipeline.chainApply_accepted hspec i 0 hrej hok
  · -- the rejection was there and the gate has not cleared it
    split at hgate
    · exact absurd hgate hrej
    · rename_i hopen
      rcases hkeeps (hgate ▸ hrej) with h | h
      · exact absurd h hopen
      · exact chainApply_clears hspec h i 0 hok

theorem replayRow_within (spec : LinearSpec) (i : Nat) (hsends : ∀ rec, spec.sends i item = some rec → S rec)
    (log : Log) : Grew (Event.Writes S) log (replayRow E spec i item log).1 := by
  obtain ⟨log', ws, hnotes, hmore, hw, -, -⟩ := replayRow_logs E i item spec log
  refine (hnotes.unwritten.writes.trans ⟨ws, rfl, fun e he => ?_⟩).trans (Unwritten.writes hmore)
  obtain ⟨rec, err, hrec, rfl⟩ := hw e he
  exact fun r hr => mem_singleton.mp hr ▸ hsends rec hrec

variable {rec : Record}

theorem mem_addSinkRecord {sinkID : String} {r : Record} {l : List (String × List Record)} :
    (∃ p ∈ addSinkRecord sinkID rec l, r ∈ p.2) ↔ r = rec ∨ ∃ p ∈ l, r ∈ p.2 := by
  induction l with
  | nil => simp [addSinkRecord]
  | cons p rest ih =>
    unfold addSinkRecord
    split
    · simp [or_assoc, or_left_comm]
    · simp only [mem_cons, exists_eq_or_imp, ih, or_left_comm]

/-- Every record of a batch for a sink came out of the route. -/
theorem batchBySink_mem {outs : List (String × Record)} (h : ∀ o ∈ outs, S o.2) :
    ∀ p ∈ batchBySink outs, ∀ r ∈ p.2, S r := by
  unfold batchBySink
  suffices hfold : ∀ (l : List (String × List Record)), (∀ p ∈ l, ∀ r ∈ p.2, S r) →
      ∀ p ∈ outs.foldl (fun batches o => addSinkRecord o.1 o.2 batches) l, ∀ r ∈ p.2, S r from hfold [] (by simp)
  induction outs with
  | nil => exact fun l hl => hl
  | cons o outs ih =>
    intro l hl
    refine ih (fun x hx => h x (mem_cons_of_mem _ hx)) _ fun p hp r hr => ?_
    rcases mem_addSinkRecord.mp ⟨p, hp, hr⟩ with rfl | ⟨q, hq, hmem⟩
    · exact h o mem_cons_self
    · exact hl q hq r hmem

theorem writeSinks_within (spec : DagSpec) (i : Nat) : ∀ (batches : List (String × List Record)) (log : Log),
    (∀ p ∈ batches, ∀ r ∈ p.2, S r) → Grew (Event.Writes S) log (writeSinks E spec i batches log).1
  | [], _, _ => Grew.refl _ _
  | (sinkID, records) :: rest, log, h => by
    have hw := retryWrite_within E spec.retry i sinkID (h _ mem_cons_self) log
    unfold writeSinks
    split
    · exact Grew.refl _ _
    · rcases hr : retryWrite E spec.retry i sinkID records log with ⟨log', _ | e⟩ <;> rw [hr] at hw
      · exact hw.trans (writeSinks_within spec i rest log' fun p hp => h p (mem_cons_of_mem _ hp))
      · exact hw

theorem replayDAGRow_within (spec : DagSpec) (i : Nat) (hitem : HandsOn E spec S (trimSpace item.dagNode) item.record)
    (hnodes : ∀ n id r r', E.applyNode n id r = .ok r' → S r → S r') (log : Log) :
    Grew (Event.Writes S) log (replayDAGRow E spec i item log).1 := by
  have hreplay : Grew (Event.Writes S) log (replay E spec i (trimSpace item.dagNode) item.record log).1 := by
    obtain ⟨hlog, houts⟩ := route_grows (P := Event.Writes S) E spec i (fun _ => trivial) hnodes
      spec.dag.nodes.length (trimSpace item.dagNode) item.record hitem log
    unfold replay
    split
    · exact Grew.refl _ _
    split
    · exact Grew.refl _ _
    · rcases hr : route E spec i spec.dag.nodes.length (trimSpace item.dagNode) item.record log with ⟨log', e | outs⟩ <;>
        rw [hr] at hlog houts
      · exact hlog
      · have hS := batchBySink_mem (houts outs rfl)
        cases outs with
        | nil => exact hlog.trans (Grew.snoc (ε := Event) log' trivial)
        | cons o outs =>
          refine hlog.trans (writeSinks_within E spec i _ log' fun p hp => hS p ?_)
          exact (E.sinkOrder_perm log'.length _).mem_iff.mp hp
  unfold replayDAGRow
  simp only
  split
  · exact Grew.refl _ _
  · rcases hr : replay E spec i (trimSpace item.dagNode) item.record log with ⟨log', _ | e⟩ <;> rw [hr] at hreplay
    · exact hreplay.trans (completeRow_unwritten E i item log').writes
    · exact hreplay.trans (markDLQReplayFailure_unwritten E i item _ log').writes

/-- A replay whose rows write records in `S` writes records in `S`. -/
theorem replayWith_within {row : Nat → DeadLetter → Log → Log × Option Err} {items : List DeadLetter}
    (hrow : ∀ i, ∀ item ∈ items, ¬item.acked → ∀ log, Grew (Event.Writes S) log (row i item log).1) :
    ∀ e ∈ (replayWith E row items).1, e.Writes S := by
  obtain ⟨hclean, hpending⟩ := cleanAcked_pending E items 0 []
  have hgrew : Grew (Event.Writes S) [] (replayWith E row items).1 := by
    unfold replayWith
    rcases hc : cleanAcked E 0 items [] with ⟨log, e | pending⟩ <;> rw [hc] at hclean hpending
    · exact Unwritten.writes hclean
    · obtain rfl := hpending pending rfl
      refine replayRows_rule (I := Grew (Event.Writes S) []) _ log (fun p hp log' h => ?_) (Unwritten.writes hclean)
      obtain ⟨hun, k, -, hget⟩ := mem_unacked hp
      exact h.trans (hrow p.1 p.2 (mem_of_getElem? hget) hun log')
  obtain ⟨evs, hlog, hevs⟩ := hgrew
  rw [hlog, nil_append]
  exact hevs

end

/-! ## The paths -/

/-- Records on their way to a sink, on one of the paths. Transforms set no rejection. -/
inductive Delivery
  | linear (C : Pipeline.Cfg) (E : Pipeline.Env) (runCtx : Ctx) (cb : Option Pipeline.CircuitBreaker)
      (calls : List Pipeline.Call) (transforms : ∀ tr ∈ C.transforms, Pipeline.AddsNoRejection tr)
  | dag (C : Orchestrator.Cfg) (E : Orchestrator.Env) (runCtx : Ctx) (steps : List Orchestrator.Step)
      (transforms : Orchestrator.Keeps (·.rejection = none) E)
  | replay (E : Env) (spec : LinearSpec) (items : List DeadLetter)
      (transforms : ∀ tr ∈ spec.transforms, Pipeline.AddsNoRejection tr)
  | replayDag (E : Env) (spec : DagSpec) (items : List DeadLetter)
      (transforms : ∀ n id r r', E.applyNode n id r = .ok r' → r.rejection = none → r'.rejection = none)

def linearLog (C : Pipeline.Cfg) (E : Pipeline.Env) (runCtx : Ctx) (cb : Option Pipeline.CircuitBreaker)
    (calls : List Pipeline.Call) : List Pipeline.Event :=
  (run (Pipeline.step C E runCtx) (Pipeline.St.start cb) calls).log

def dagLog (C : Orchestrator.Cfg) (E : Orchestrator.Env) (runCtx : Ctx) (steps : List Orchestrator.Step) :
    List Orchestrator.Event :=
  (run (Orchestrator.step C E runCtx) (Orchestrator.St.start C) steps).log

/-- No slice that is passed to `Sink.Write` has a rejected record. -/
def Delivery.SinksClean : Delivery → Prop
  | .linear C E runCtx cb calls _ => ∀ its res, .sinkWrite its res ∈ linearLog C E runCtx cb calls →
      ∀ it ∈ its, it.record.rejection = none
  | .dag C E runCtx steps _ => ∀ sinkID batch err, .sinkWrite sinkID batch err ∈ dagLog C E runCtx steps →
      ∀ m ∈ batch, m.record.rejection = none
  | .replay E spec items _ => ∀ i sinkID records err, .write i sinkID records err ∈ (replayDLQItems E spec items).1 →
      ∀ r ∈ records, r.rejection = none
  | .replayDag E spec items _ => ∀ i sinkID records err,
      .write i sinkID records err ∈ (replayDAGDLQItems E spec items).1 → ∀ r ∈ records, r.rejection = none

/-- Rejected records are in the DLQ before a checkpoint covers them; a replay saves none. -/
def Delivery.RejectedFirst : Delivery → Prop
  | .linear C E runCtx cb calls _ =>
    Always (Pipeline.SavesUpTo (Pipeline.RejectedInDLQ (Pipeline.readBy calls))) (linearLog C E runCtx cb calls)
  | .dag C E runCtx steps _ => Always (Orchestrator.SavesCover (Orchestrator.InDLQ steps)) (dagLog C E runCtx steps)
  | .replay .. | .replayDag .. => True

/-- The linear runner takes any record. The DAG executor and the replays have nothing of their own against rejected
records: a transform has to keep each of them from the sinks, or, in a linear replay, the identity gate. -/
def Delivery.Accepted : Delivery → Prop
  | .linear .. => True
  | .dag C E _ steps _ => ∀ sourceID rec, .deliver sourceID rec ∈ steps → rec.rejection ≠ none →
      Orchestrator.Diverted C E sourceID rec
  | .replay _ spec items _ => ∀ d ∈ items, ¬d.acked → spec.Keeps d
  | .replayDag E spec items _ => ∀ d ∈ items, ¬d.acked → d.record.rejection ≠ none →
      HandsOn E spec (·.rejection = none) (trimSpace d.dagNode) d.record

theorem linear_sinksClean (C : Pipeline.Cfg) (E : Pipeline.Env) (runCtx : Ctx) (cb : Option Pipeline.CircuitBreaker)
    (calls : List Pipeline.Call) (h : ∀ tr ∈ C.transforms, Pipeline.AddsNoRejection tr) :
    (Delivery.linear C E runCtx cb calls h).SinksClean := by
  intro its res hmem
  obtain ⟨evs, hlog, hevs⟩ := Pipeline.run_writesAccepted C E h runCtx (Pipeline.St.start cb) calls
  unfold linearLog at hmem
  rw [hlog] at hmem
  exact hevs _ hmem

/-- **Rejected records never reach a sink** and are in the DLQ before a checkpoint covers them: on the linear path
always, on the others if each rejected record is kept from the sinks. -/
theorem rejected_never_written (d : Delivery) (h : d.Accepted) : d.SinksClean ∧ d.RejectedFirst := by
  cases d with
  | linear C E runCtx cb calls hC =>
    exact ⟨linear_sinksClean C E runCtx cb calls hC,
      Pipeline.run_rejectedInDLQ C E runCtx calls (Pipeline.St.start cb) rfl (Pipeline.SafeUpTo.start cb)⟩
  | dag C E runCtx steps hE =>
    have hclean := Orchestrator.run_clean hE h runCtx
    exact ⟨fun sinkID batch err hmem => hclean.writes _ hmem, hclean.saves⟩
  | replay E spec items hspec =>
    refine ⟨fun i sinkID records err hmem => ?_, trivial⟩
    have hrow : ∀ i, ∀ item ∈ items, ¬item.acked → ∀ log,
        Grew (Event.Writes (·.rejection = none)) log (replayRow E spec i item log).1 :=
      fun i item hitem hun log => replayRow_within E spec i (fun _ => sends_accepted hspec (h item hitem hun)) log
    exact replayWith_within E hrow _ hmem
  | replayDag E spec items hE =>
    refine ⟨fun i sinkID records err hmem => ?_, trivial⟩
    have hrow : ∀ i, ∀ item ∈ items, ¬item.acked → ∀ log,
        Grew (Event.Writes (·.rejection = none)) log (replayDAGRow E spec i item log).1 := by
      intro i item hitem hun log
      refine replayDAGRow_within E spec i ?_ hE log
      by_cases hrej : item.record.rejection = none
      · exact .of_mem E hE hrej _
      · exact h item hitem hun hrej
    exact replayWith_within E hrow _ hmem

/-- A record a source could not parse. -/
def malformed : Record :=
  { data := [("value", .str "not json")], rejection := some { code := "kafka_message_parse_failed", cls := some .data } }

theorem noTransforms (tr : Transform) (h : tr ∈ ([] : List Transform)) : Pipeline.AddsNoRejection tr :=
  absurd h (not_mem_nil)

/-- The linear runner, given a rejected record and a good one. -/
def mixedRun : Delivery := .linear {} {} .background none [.batch [malformed, {}], .final] noTransforms

/-- A transform between the source and the sink that fails for rejected records. -/
def checkedDag : Orchestrator.DAG where
  nodes := [⟨"src", .source, "demo"⟩, ⟨"check", .transform, "demo"⟩, ⟨"out", .sink, "demo"⟩]
  edges := [{ source := "src", target := "check" }, { source := "check", target := "out" }]

def checkedCfg : Orchestrator.Cfg where
  dag := checkedDag

def checkedEnv : Orchestrator.Env where
  apply _ _ r := if r.rejection = none then .ok r else .error (.failed { msg := "rejected" })

theorem checkedEnv_keeps : Orchestrator.Keeps (·.rejection = none) checkedEnv := by
  intro n id r r' h hr
  change (if r.rejection = none then _ else _) = _ at h
  rw [if_pos hr] at h
  exact Except.ok.inj h ▸ hr

theorem checkedEnv_diverts (rec : Record) : Orchestrator.Diverted checkedCfg checkedEnv "src" rec := by
  have htaken : Orchestrator.takenEdges checkedCfg "src" rec = [{ source := "src", target := "check" }] := rfl
  refine ⟨by simp [htaken], fun e he => ?_⟩
  rw [htaken, mem_singleton] at he
  subst he
  exact ⟨⟨"check", .transform, "demo"⟩, rfl, rfl, fun n r hrej => ⟨_, if_neg hrej⟩⟩

/-- A rejected record and a good one, one after the other. -/
def divertedRun : Delivery :=
  .dag checkedCfg checkedEnv .background [.deliver "src" malformed, .deliver "src" {}, .receive, .receive, .closed]
    checkedEnv_keeps

/-- A rejected dead letter with all that its key takes. -/
def withoutKey : DeadLetter :=
  { id := 1
    record := { malformed with data := [("id", .str "a")] }
    primaryKeyColumns := ["id"]
    formatContractID := formatContractOpenETLEnvelopeV1 }

theorem plain_order (_ : Nat) (l : List (String × List Record)) : l.Perm l := .refl l

/-- Everything goes well. -/
def plainEnv : Env where
  sinkOrder_perm := plain_order

def rebuiltRun : Delivery := .replay plainEnv { gate := { required := true } } [withoutKey] noTransforms

/-- The linear runner, a graph whose transform fails for rejected records, and a replay that rebuilds the identity. -/
theorem rejected_never_written_mixed :
    (mixedRun.SinksClean ∧ mixedRun.RejectedFirst) ∧ (divertedRun.SinksClean ∧ divertedRun.RejectedFirst) ∧
      rebuiltRun.SinksClean ∧ rebuiltRun.RejectedFirst := by
  refine ⟨rejected_never_written mixedRun trivial, rejected_never_written divertedRun ?_,
    rejected_never_written rebuiltRun ?_⟩
  · intro sourceID rec hmem _
    obtain rfl : sourceID = "src" := by
      simp at hmem
      rcases hmem with ⟨rfl, -⟩ | ⟨rfl, -⟩ <;> rfl
    exact checkedEnv_diverts rec
  · intro d hd _ _
    obtain rfl := mem_singleton.mp hd
    exact .inl ⟨rfl, by decide⟩

theorem keeps_rejection : Orchestrator.Keeps (·.rejection = none) {} := by
  intro n id r r' h hr
  obtain rfl := Except.ok.inj h
  exact hr

/-- A source wired to a sink, with one rejected record. -/
def routedRun : Delivery :=
  .dag (Orchestrator.pairCfg 1 1 Nat.one_pos) {} .background [.deliver "src" malformed, .receive, .closed] keeps_rejection

/-- A replay of the dead letter the linear runner stored for the record. -/
def replayedRun : Delivery := .replay plainEnv {} [{ id := 1, record := malformed }] noTransforms

/-- The DAG executor writes the rejected record to the sink, sends it to no DLQ and saves a checkpoint past it; the
replay of a rejected dead letter writes it too. -/
theorem rejected_written : ¬routedRun.SinksClean ∧ ¬routedRun.RejectedFirst ∧ ¬replayedRun.SinksClean := by
  refine ⟨fun h => ?_, fun h => ?_, fun h => ?_⟩
  · have hmem : .sinkWrite "out" [⟨malformed, "src", 0⟩] none ∈ dagLog (Orchestrator.pairCfg 1 1 Nat.one_pos) {} .background
        [.deliver "src" malformed, .receive, .closed] := by decide
    exact absurd (h _ _ _ hmem _ mem_cons_self) nofun
  · have hlog : dagLog (Orchestrator.pairCfg 1 1 Nat.one_pos) {} .background
        [.deliver "src" malformed, .receive, .closed] =
      [.call, .call, .visit "src", .visit "out", .routed ⟨malformed, "src", 0⟩ [.sink "out" malformed],
        .sinkWrite "out" [⟨malformed, "src", 0⟩] none] ++ [.save .background "src" [⟨malformed, "src", 0⟩] none] ++
          [.call] := by decide
    have hsave : Always (Orchestrator.SavesCover (Orchestrator.InDLQ [.deliver "src" malformed, .receive, .closed]))
      (dagLog _ {} .background _) := h
    rw [hlog] at hsave
    have hpast := (always_snoc.mp (always_append.mp hsave).1).2
    obtain ⟨nodeID, cause, hdlq⟩ := hpast ⟨malformed, "src", 0⟩ mem_cons_self 0 le_rfl malformed rfl nofun
    simp at hdlq
  · have hmem : .write 0 "sink" [malformed] none ∈ (replayDLQItems plainEnv {} [{ id := 1, record := malformed }]).1 := by decide
    exact absurd (h _ _ _ _ hmem _ mem_cons_self) nofun

end OpenEtl.Server
