import Mathlib.Data.List.Dedup
import OpenEtl.Server.DlqReplay

/-!
# Replay requests side by side (`server/server.go:4830-4992`, `server/dlq_replay_identity.go`)

A request reads its rows once and then works on its copies. What it does to the outside, one call after the other, is
a `Proc`; the calls of several requests may come in any order, any of them may fail, with or without effect, and a
request may end between any two.

| here | there |
| --- | --- |
| `prepare`, `block` | `prepareLinearDLQReplay`, `blockDLQReplay` (dlq_replay_identity.go:29, 118) |
| `mark`, `checkpoint` | `markDLQReplayFailure`, `checkpointDLQReplay` (:128, 143) |
| `linearRow`, `dagRow` | the loops of `replayDLQItems`, `replayDAGDLQItems` (server.go:4888, 4951) |
| `Proc.act` of an update | `Store.UpdateDeadLetter` (store.go:1203): the whole row is written, and there must be one |
-/

namespace OpenEtl.Server.Race

open List Retry Trace

/-! ## Programs -/

/-- What a request does next, and what it does with the answer. -/
inductive Proc
  | ret (err : Option Err)
  | transform (rec : Record) (k : Except TransformErr Record → Proc)
  /-- `DAGReplayer.route` and the batches for the sinks -/
  | route (nodeID : String) (rec : Record) (k : Except Err (List (String × List Record)) → Proc)
  | openSink (sinkID : String) (k : Option Err → Proc)
  | write (item : DeadLetter) (sinkID : String) (records : List Record) (k : Option Err → Proc)
  /-- the back-off between two attempts -/
  | wait (k : Option CtxErr → Proc)
  | update (item : DeadLetter) (k : Option Err → Proc)
  | delete (item : DeadLetter) (k : Option Err → Proc)

/-- A failing update is ignored. -/
def mark (item : DeadLetter) (err : Err) (k : Proc) : Proc :=
  if item.id = 0 then k
  else .update { item with replayAttempt := item.replayAttempt + 1, replayError := err.msg } fun _ => k

def checkpoint (item : DeadLetter) (k : Except Err DeadLetter → Proc) : Proc :=
  if item.id = 0 then k (.ok item)
  else
    let candidate :=
      { item with replayState := .sinkAcked, replayAttempt := item.replayAttempt + 1, replayError := "" }
    .update candidate fun
      | some e => k (.error { e with msg := "persist dlq replay checkpoint after sink acknowledgement: " ++ e.msg })
      | none => k (.ok candidate)

def deleteItem (item : DeadLetter) (k : Option Err → Proc) : Proc :=
  .delete item fun err =>
    k (err.map fun e => { e with msg := "delete replayed dlq " ++ dlqItemRef item ++ ": " ++ e.msg })

def complete (item : DeadLetter) (next : Proc) : Proc :=
  checkpoint item fun
    | .error e => mark item e (.ret (some e))
    | .ok item => deleteItem item fun
      | some e => mark item e (.ret (some e))
      | none => next

/-- `retry.Do` around `sink.Write`, with `n` attempts left. -/
def writeLoop (item : DeadLetter) (sinkID : String) (records : List Record) (k : Option Err → Proc) :
    Nat → Option Err → Proc
  | 0, last => k last
  | n + 1, _ => .write item sinkID records fun
    | none => k none
    | some err =>
      if isRetryableError err = false then k (some err)
      else if n = 0 then k (some err)
      else .wait fun
        | some c => k (some c.toErr)
        | none => writeLoop item sinkID records k n (some err)

def retryWrite (retry : Config) (item : DeadLetter) (sinkID : String) (records : List Record)
    (k : Option Err → Proc) : Proc :=
  writeLoop item sinkID records k retry.maxAttempts.toNat none

/-! ## The identity gate of a linear pipeline -/

def block (item : DeadLetter) (state : ReplayState) (reason : String) : Proc :=
  let item := blocked item state reason
  .update item fun err => .ret (some (blockError item state reason err))

def prepare (G : Gate) (item : DeadLetter) (k : DeadLetter → Proc) : Proc :=
  match G.verdict item with
  | .block state reason => block item state reason
  | .pass prepared none => k prepared
  | .pass prepared (some what) => .update prepared fun
    | some e => .ret (some { e with msg := what ++ e.msg })
    | none => k prepared

/-! ## Requests -/

def linearRow (G : Gate) (retry : Config) (item : DeadLetter) (next : Proc) : Proc :=
  prepare G item fun prepared => .transform prepared.record fun
    | .error .filtered =>
      let e : Err := { msg := "transform dlq record: record filtered" }
      mark prepared e (.ret (some e))
    | .error (.failed c) =>
      let e : Err := { c with msg := "transform dlq record: " ++ c.msg }
      mark prepared e (.ret (some e))
    | .ok rec =>
      if G.admits rec = false then block prepared .quarantined (violation rec)
      else retryWrite retry prepared "sink" [rec] fun
        | some e => mark prepared e (.ret (some e))
        | none => complete prepared next

/-- The sink loop of `DAGReplayer.Replay`. -/
def writeSinks (retry : Config) (item : DeadLetter) (k : Option Err → Proc) : List (String × List Record) → Proc
  | [] => k none
  | (sinkID, records) :: rest => .openSink sinkID fun
    | some e => k (some { e with msg := "open sink " ++ sinkID ++ ": " ++ e.msg })
    | none => retryWrite retry item sinkID records fun
      | some e => k (some { e with msg := "write sink " ++ sinkID ++ ": " ++ e.msg })
      | none => writeSinks retry item k rest

def dagRow (retry : Config) (item : DeadLetter) (next : Proc) : Proc :=
  let nodeID := trimSpace item.dagNode
  if nodeID = "" then .ret (some { msg := "dag dlq record " ++ dlqItemRef item ++
    " has no dag_node; replay requires node context" })
  else
    let failed (e : Err) : Proc :=
      let e := { e with msg := "replay dag dlq record " ++ dlqItemRef item ++ " from node " ++ nodeID ++
        ": " ++ e.msg }
      mark item e (.ret (some e))
    .route nodeID item.record fun
      | .error e => failed e
      | .ok batches => writeSinks retry item (fun
        | some e => failed e
        | none => complete item next) batches

inductive Request
  | linear (G : Gate) (retry : Config)
  | dag (retry : Config)

def Request.retry : Request → Config
  | .linear _ retry | .dag retry => retry

def Request.row : Request → DeadLetter → Proc → Proc
  | .linear G retry => linearRow G retry
  | .dag retry => dagRow retry

def rows (row : DeadLetter → Proc → Proc) : List DeadLetter → Proc
  | [] => .ret none
  | item :: rest => row item (rows row rest)

/-- The first loop: acknowledged rows are deleted, the others are kept. -/
def clean : List DeadLetter → (List DeadLetter → Proc) → Proc
  | [], k => k []
  | item :: rest, k =>
    if item.acked then deleteItem item fun
      | some e => mark item e (.ret (some e))
      | none => clean rest k
    else clean rest fun pending => k (item :: pending)

def Request.program (r : Request) (items : List DeadLetter) : Proc := clean items (rows r.row)

/-! ## The store and the requests at work -/

inductive Ev
  | write (id : Int) (sinkID : String) (records : List Record) (err : Option Err)
  /-- `applied`: the row has been changed -/
  | update (item : DeadLetter) (applied : Bool) (err : Option Err)
  | delete (id : Int) (applied : Bool) (err : Option Err)
deriving DecidableEq, Repr

def Ev.id : Ev → Int
  | .write id _ _ _ | .delete id _ _ => id
  | .update item _ _ => item.id

structure Thread where
  ids : List Int
  proc : Proc

structure Sys where
  rows : Int → Option DeadLetter
  threads : List Thread := []
  log : List Ev := []

/-- What the outside answers to a call; a call that returns an error may have had its effect. -/
structure Outcome where
  err : Option Err := none
  applied : Bool := false
  transformed : Except TransformErr Record := .ok {}
  routed : Except Err (List (String × List Record)) := .ok [("sink", [{}])]
  ctx : Option CtxErr := none

inductive Input
  | start (r : Request) (ids : List Int)
  | move (t : Nat) (o : Outcome)
  | crash (t : Nat)

def errNotFound (item : DeadLetter) : Err := { msg := "dlq record " ++ toString item.id ++ " not found" }

def Outcome.effect (o : Outcome) : Bool := o.err.isNone || o.applied

def Proc.act (stored : Int → Option DeadLetter) (o : Outcome) : Proc → (Int → Option DeadLetter) × List Ev × Proc
  | .ret err => (stored, [], .ret err)
  | .transform _ k => (stored, [], k o.transformed)
  | .route _ _ k => (stored, [], k o.routed)
  | .openSink _ k => (stored, [], k o.err)
  | .write item sinkID records k => (stored, [.write item.id sinkID records o.err], k o.err)
  | .wait k => (stored, [], k o.ctx)
  | .update item k =>
    if (stored item.id).isNone then
      (stored, [.update item false (some (errNotFound item))], k (some (errNotFound item)))
    else
      (if o.effect then Function.update stored item.id (some item) else stored, [.update item o.effect o.err], k o.err)
  | .delete item k =>
    (if o.effect then Function.update stored item.id none else stored, [.delete item.id o.effect o.err], k o.err)

def Sys.step (s : Sys) : Input → Sys
  | .start r ids =>
    { s with threads := s.threads ++ [{ ids, proc := r.program (ids.dedup.filterMap s.rows) }] }
  | .move t o =>
    match s.threads[t]? with
    | none => s
    | some th =>
      let (stored, evs, proc) := th.proc.act s.rows o
      { rows := stored, threads := s.threads.set t { th with proc }, log := s.log ++ evs }
  | .crash t =>
    match s.threads[t]? with
    | none => s
    | some th => { s with threads := s.threads.set t { th with proc := .ret none } }

open Sys (step)

/-! ## What a request does with one row -/

/-- How far a request has come with a row: the row is not its own, or not written, or written by it, or marked. -/
inductive Phase
  | foreign | fresh | written | acked
deriving DecidableEq, Repr

/-- The calls for row `id` follow the phases: it is written, marked, deleted. With `strict`, it is not marked before it has
been written. -/
def Proc.Follows (strict : Bool) (id : Int) : Proc → Phase → Prop
  | .ret _, _ => True
  | .transform _ k, ph => ∀ r, (k r).Follows strict id ph
  | .route _ _ k, ph => ∀ r, (strict = true → r ≠ .ok []) → (k r).Follows strict id ph
  | .openSink _ k, ph => ∀ r, (k r).Follows strict id ph
  | .write item _ _ k, ph =>
    if item.id = id then
      (ph = .fresh ∨ ph = .written) ∧ (k none).Follows strict id .written ∧ ∀ e, (k (some e)).Follows strict id ph
    else ∀ r, (k r).Follows strict id ph
  | .wait k, ph => ∀ r, (k r).Follows strict id ph
  | .update item k, ph =>
    if item.id = id then
      if item.acked then
        (strict = true → ph ≠ .fresh) ∧ ph ≠ .foreign ∧ (k none).Follows strict id .acked ∧
          ∀ e, (k (some e)).Follows strict id ph
      else (ph = .fresh ∨ ph = .written) ∧ ∀ r, (k r).Follows strict id ph
    else ∀ r, (k r).Follows strict id ph
  | .delete item k, ph =>
    if item.id = id then ph = .acked ∧ ∀ r, (k r).Follows strict id ph else ∀ r, (k r).Follows strict id ph

open Proc (Follows act update)

section

variable {strict : Bool} {id : Int}

/-- The phase is one of an unmarked row, if the row is its own. -/
def Early (item : DeadLetter) (id : Int) (ph : Phase) : Prop := item.id = id → ph = .fresh ∨ ph = .written

/-- A copy of the row fits the phase. -/
def Fits (id : Int) (item : DeadLetter) (ph : Phase) : Prop :=
  item.id = id → if item.acked then ph = .acked else ph = .fresh ∨ ph = .written

variable {item : DeadLetter} {k : Option Err → Proc} {ph : Phase}

theorem Fits.of_unmarked (hun : ¬item.acked) (h : Early item id ph) : Fits id item ph := by
  intro hid
  rw [if_neg hun]
  exact h hid

theorem update_follows (hfits : Fits id item ph) (hk : ∀ r, (k r).Follows strict id ph) :
    (update item k).Follows strict id ph := by
  unfold Follows
  by_cases hid : item.id = id
  · have hfit := hfits hid
    rw [if_pos hid]
    by_cases hack : item.acked
    · rw [if_pos hack] at hfit ⊢
      subst hfit
      exact ⟨fun _ => by decide, by decide, hk none, fun e => hk (some e)⟩
    · rw [if_neg hack] at hfit ⊢
      exact ⟨hfit, hk⟩
  · rw [if_neg hid]
    exact hk

theorem mark_follows (hfits : Fits id item ph) (err : Err) {k : Proc} (hk : k.Follows strict id ph) :
    (mark item err k).Follows strict id ph := by
  unfold mark
  split
  · exact hk
  · exact update_follows hfits fun _ => hk

theorem block_follows (hfits : Early item id ph) {state : ReplayState} (hstate : state ≠ .sinkAcked) (reason : String) :
    (block item state reason).Follows strict id ph := by
  refine update_follows (fun hid => ?_) fun r => ?_
  · rw [if_neg (by exact hstate)]
    exact hfits hid
  · cases r <;> trivial

/-- The phase behind a successful write of `item`. -/
def Phase.wrote (ph : Phase) (item : DeadLetter) (id : Int) : Phase := if item.id = id then .written else ph

/-- The phase behind the mark of `item`. -/
def Phase.marked (ph : Phase) (item : DeadLetter) (id : Int) : Phase := if item.id = id then .acked else ph

theorem Phase.wrote_marked (ph : Phase) (item : DeadLetter) (id : Int) :
    (ph.wrote item id).marked item id = ph.marked item id := by
  unfold Phase.marked Phase.wrote
  split <;> rfl

variable {records : List Record} {sinkID : String}

theorem writeLoop_follows (hph : Early item id ph) (hok : (k none).Follows strict id (ph.wrote item id))
    (herr : ∀ e, (k (some e)).Follows strict id ph) :
    ∀ (n : Nat) (last : Option Err), 0 < n → (writeLoop item sinkID records k n last).Follows strict id ph
  | n + 1, last, _ => by
    have hfail : ∀ err : Err, (if isRetryableError err = false then k (some err) else if n = 0 then k (some err)
        else Proc.wait fun
          | some c => k (some c.toErr)
          | none => writeLoop item sinkID records k n (some err)).Follows strict id ph := by
      intro err
      split
      · exact herr err
      · split
        · exact herr err
        · intro c
          cases c with
          | some c => exact herr c.toErr
          | none => exact writeLoop_follows hph hok herr n (some err) (by omega)
    unfold writeLoop Follows
    unfold Phase.wrote at hok
    by_cases hid : item.id = id
    · rw [if_pos hid] at hok ⊢
      exact ⟨hph hid, hok, hfail⟩
    · rw [if_neg hid] at hok ⊢
      exact Option.forall.mpr ⟨hok, hfail⟩

variable {retry : Config}

/-- Without attempts nothing is written and nil is returned. -/
theorem retryWrite_follows (hpos : strict = true → 0 < retry.maxAttempts) (hph : Early item id ph)
    (hok : (k none).Follows strict id (ph.wrote item id))
    (hnone : strict = false → (k none).Follows strict id ph) (herr : ∀ e, (k (some e)).Follows strict id ph) :
    (retryWrite retry item sinkID records k).Follows strict id ph := by
  unfold retryWrite
  by_cases hn : 0 < retry.maxAttempts
  · exact writeLoop_follows hph hok herr _ none (by omega)
  · have hzero : retry.maxAttempts.toNat = 0 := by omega
    rw [hzero]
    cases strict with
    | true => exact absurd (hpos rfl) hn
    | false => exact hnone rfl

/-- A row in this phase can be marked. -/
def Markable (strict : Bool) (item : DeadLetter) (id : Int) (ph : Phase) : Prop :=
  item.id = id → ph = .written ∨ strict = false ∧ ph = .fresh

theorem Markable.unmarked (h : Markable strict item id ph) : Early item id ph := by
  intro hid
  rcases h hid with h | ⟨-, h⟩
  · exact .inr h
  · exact .inl h

variable {next : Proc}

/-- The marked copy of a row is stored. -/
theorem ack_follows {candidate : DeadLetter} (hcid : candidate.id = item.id) (hack : candidate.acked)
    (hph : Markable strict item id ph) (hok : (k none).Follows strict id (ph.marked item id))
    (herr : ∀ e, (k (some e)).Follows strict id ph) : (update candidate k).Follows strict id ph := by
  unfold Follows
  unfold Phase.marked at hok
  rw [hcid]
  by_cases hid : item.id = id
  · rw [if_pos hid] at hok ⊢
    rw [if_pos hack]
    refine ⟨fun hs => ?_, ?_, hok, herr⟩
    · rcases hph hid with h | ⟨h, -⟩
      · rw [h]
        decide
      · rw [h] at hs
        cases hs
    · rcases hph.unmarked hid with h | h <;> rw [h] <;> decide
  · rw [if_neg hid] at hok ⊢
    exact Option.forall.mpr ⟨hok, herr⟩

theorem deleteItem_follows (hack : item.acked) (hfits : Fits id item ph) (hok : (k none).Follows strict id ph)
    (herr : ∀ e, (k (some e)).Follows strict id ph) : (deleteItem item k).Follows strict id ph := by
  have hk : ∀ r, (k r).Follows strict id ph := Option.forall.mpr ⟨hok, herr⟩
  unfold deleteItem Follows
  split
  · rename_i hid
    have hacked := hfits hid
    rw [if_pos hack] at hacked
    exact ⟨hacked, fun r => hk _⟩
  · exact fun r => hk _

/-- The gate leaves the row unmarked, whatever it writes into its context. -/
theorem prepare_follows (G : Gate) {k : DeadLetter → Proc} (hun : ¬item.acked)
    (hph : Early item id ph) (hk : ∀ item', item'.id = item.id → ¬item'.acked → (k item').Follows strict id ph) :
    (prepare G item k).Follows strict id ph := by
  have hkeeps := G.verdict_keeps hun
  unfold prepare
  cases hv : G.verdict item with
  | block state reason => exact block_follows hph (hkeeps.block _ _ hv) _
  | pass prepared what =>
    obtain ⟨hid, -, hack⟩ := hkeeps.pass _ _ hv
    cases what with
    | none => exact hk prepared hid hack
    | some what =>
      refine update_follows (.of_unmarked hack fun h => hph (hid ▸ h)) (Option.forall.mpr ⟨?_, fun e => trivial⟩)
      exact hk prepared hid hack

/-- Behind the loop over the sinks the row has been written, unless there is no sink. -/
theorem writeSinks_follows (hpos : strict = true → 0 < retry.maxAttempts) :
    ∀ {ph : Phase} (batches : List (String × List Record)),
      Early item id ph → (∀ ph', Early item id ph' → ∀ e, (k (some e)).Follows strict id ph') →
      (k none).Follows strict id (ph.wrote item id) →
      (strict = false ∨ batches = [] → (k none).Follows strict id ph) →
        (writeSinks retry item k batches).Follows strict id ph
  | ph, [], _, _, _, hnone => hnone (.inr rfl)
  | ph, (sinkID, records) :: rest, hph, herr, hok, hnone => by
    have hwrote : Early item id (ph.wrote item id) := fun h => .inr (if_pos h)
    have htwice : (ph.wrote item id).wrote item id = ph.wrote item id := by
      unfold Phase.wrote
      split <;> rfl
    intro r
    cases r with
    | some e => exact herr ph hph _
    | none =>
      refine retryWrite_follows hpos hph ?_ ?_ fun e => herr ph hph _
      · exact writeSinks_follows hpos rest hwrote herr (by rw [htwice]; exact hok) fun _ => hok
      · intro hs
        exact writeSinks_follows hpos rest hph herr hok fun _ => hnone (.inl hs)

section

variable (hzero : item.id ≠ 0) (hun : ¬item.acked) (hnext : next.Follows strict id (ph.marked item id))

include hzero hun hnext

theorem complete_follows (hph : Markable strict item id ph) : (complete item next).Follows strict id ph := by
  have hfits : Fits id item ph := .of_unmarked hun hph.unmarked
  unfold complete checkpoint
  rw [if_neg hzero]
  refine ack_follows rfl rfl hph ?_ fun e => mark_follows hfits _ trivial
  -- the marked copy is deleted, and written back marked if that fails
  have hcfits : Fits id { item with
      replayState := .sinkAcked, replayAttempt := item.replayAttempt + 1, replayError := "" } (ph.marked item id) := by
    intro hid
    exact if_pos hid
  exact deleteItem_follows rfl hcfits hnext fun e => mark_follows hcfits _ trivial

variable (hph : item.id = id → ph = .fresh)

include hph

theorem linearRow_follows (G : Gate) (hpos : strict = true → 0 < retry.maxAttempts) :
    (linearRow G retry item next).Follows strict id ph := by
  refine prepare_follows G hun (fun h => .inl (hph h)) fun prepared hid hack => ?_
  have hfresh : Early prepared id ph := fun h => .inl (hph (hid ▸ h))
  have hfits : Fits id prepared ph := .of_unmarked hack hfresh
  have hmarked : ph.marked prepared id = ph.marked item id := by
    rw [Phase.marked, Phase.marked, hid]
  intro r
  rcases r with (_ | c) | rec
  · exact mark_follows hfits _ trivial
  · exact mark_follows hfits _ trivial
  · simp only
    split
    · exact block_follows hfresh (by decide) _
    · refine retryWrite_follows hpos hfresh ?_ ?_ fun e => mark_follows hfits e trivial
      · refine complete_follows (hid ▸ hzero) hack ?_ fun h => .inl (if_pos h)
        rw [Phase.wrote_marked, hmarked]
        exact hnext
      · intro hs
        refine complete_follows (hid ▸ hzero) hack ?_ fun h => .inr ⟨hs, hph (hid ▸ h)⟩
        rw [hmarked]
        exact hnext

theorem dagRow_follows (hpos : strict = true → 0 < retry.maxAttempts) :
    (dagRow retry item next).Follows strict id ph := by
  have hfresh : Early item id ph := fun h => .inl (hph h)
  have hcomplete : (complete item next).Follows strict id (ph.wrote item id) := by
    refine complete_follows hzero hun ?_ fun h => .inl (if_pos h)
    rw [Phase.wrote_marked]
    exact hnext
  unfold dagRow
  rcases Decidable.em (trimSpace item.dagNode = "") with hnode | hnode
  · simp only [hnode]
    trivial
  · simp only [hnode]
    intro r hr
    cases r with
    | error e => exact mark_follows (.of_unmarked hun hfresh) _ trivial
    | ok batches =>
      refine writeSinks_follows hpos batches hfresh (fun ph' h e => mark_follows (.of_unmarked hun h) _ trivial)
        hcomplete ?_
      intro hnone
      have hs : strict = false := by
        cases strict with
        | false => rfl
        | true =>
          rcases hnone with h | rfl
          · exact h
          · exact absurd rfl (hr rfl)
      exact complete_follows hzero hun hnext fun h => .inr ⟨hs, hph h⟩

theorem row_follows (r : Request) (hpos : strict = true → 0 < r.retry.maxAttempts) :
    (r.row item next).Follows strict id ph := by
  cases r with
  | linear G retry => exact linearRow_follows hzero hun hnext hph G hpos
  | dag retry =>
    rw [Request.row]
    exact dagRow_follows hzero hun hnext hph hpos

end

/-- The rows of a request, each once. -/
theorem rows_follows (r : Request) (hpos : strict = true → 0 < r.retry.maxAttempts) : ∀ (pending : List DeadLetter) (ph : Phase),
    (pending.map (·.id)).Nodup → (∀ d ∈ pending, d.id ≠ 0 ∧ ¬d.acked) → (∀ d ∈ pending, d.id = id → ph = .fresh) →
      (rows r.row pending).Follows strict id ph
  | [], _, _, _, _ => trivial
  | item :: rest, ph, hnodup, hall, hph => by
    obtain ⟨hzero, hun⟩ := hall item mem_cons_self
    rw [map_cons, nodup_cons] at hnodup
    refine row_follows hzero hun ?_ (hph item mem_cons_self) r hpos
    refine rows_follows r hpos rest _ hnodup.2 (fun d hd => hall d (mem_cons_of_mem _ hd)) fun d hd hid => ?_
    have hne : item.id ≠ id := by
      rintro rfl
      exact hnodup.1 (hid ▸ mem_map_of_mem hd)
    rw [Phase.marked, if_neg hne]
    exact hph d (mem_cons_of_mem _ hd) hid

/-- The phase in which a request begins with its copy. -/
def Phase.ofRow (d : DeadLetter) : Phase := if d.acked then .acked else .fresh

theorem clean_follows {k : List DeadLetter → Proc} : ∀ (items : List DeadLetter),
    (items.map (·.id)).Nodup → (∀ d ∈ items, d.id = id → ph = Phase.ofRow d) →
      (∀ pending, pending.Sublist items → (∀ d ∈ pending, ¬d.acked) → (k pending).Follows strict id ph) →
        (clean items k).Follows strict id ph
  | [], _, _, hk => hk [] (.refl _) (by simp)
  | item :: rest, hnodup, hph, hk => by
    rw [map_cons, nodup_cons] at hnodup
    unfold clean
    split
    · rename_i hack
      have hfits : Fits id item ph := by
        intro hid
        rw [if_pos hack, hph item mem_cons_self hid, Phase.ofRow, if_pos hack]
      have hrest : (clean rest k).Follows strict id ph :=
        clean_follows rest hnodup.2 (fun d hd => hph d (mem_cons_of_mem _ hd))
          fun pending hsub hun => hk pending (hsub.cons _) hun
      exact deleteItem_follows hack hfits hrest fun e => mark_follows hfits _ trivial
    · rename_i hun
      refine clean_follows rest hnodup.2 (fun d hd => hph d (mem_cons_of_mem _ hd)) fun pending hsub hall => ?_
      refine hk (item :: pending) (hsub.cons_cons _) fun d hd => ?_
      rcases mem_cons.mp hd with rfl | hd
      · exact hun
      · exact hall d hd

/-- **A request follows the phases** of each of its rows, from that of its copy on. -/
theorem program_follows (r : Request) (hpos : strict = true → 0 < r.retry.maxAttempts) {items : List DeadLetter}
    (hnodup : (items.map (·.id)).Nodup) (hzero : ∀ d ∈ items, d.id ≠ 0) (hph : ∀ d ∈ items, d.id = id → ph = Phase.ofRow d) :
    (r.program items).Follows strict id ph := by
  refine clean_follows items hnodup hph fun pending hsub hun => ?_
  refine rows_follows r hpos pending ph (hnodup.sublist (hsub.map _)) (fun d hd => ⟨hzero d (hsub.subset hd), hun d hd⟩) ?_
  intro d hd hid
  rw [hph d (hsub.subset hd) hid, Phase.ofRow, if_neg (hun d hd)]

/-! ## One call -/

/-- What a call in phase `ph` does to row `id`: the stored row behind it, the events and the phase. -/
inductive Does (strict : Bool) (id : Int) (o : Outcome) (stored : Option DeadLetter) (ph : Phase) :
    Option DeadLetter → List Ev → Phase → Prop
  | other {evs : List Ev} (h : ∀ e ∈ evs, e.id ≠ id) : Does strict id o stored ph stored evs ph
  | write (sinkID : String) (records : List Record) (hph : ph = .fresh ∨ ph = .written) :
      Does strict id o stored ph stored [.write id sinkID records o.err] (if o.err = none then .written else ph)
  | context {item : DeadLetter} {applied : Bool} {err : Option Err} (hid : item.id = id) (hun : ¬item.acked)
      (hph : ph = .fresh ∨ ph = .written) :
      Does strict id o stored ph (if applied then some item else stored) [.update item applied err] ph
  | mark {item : DeadLetter} {applied : Bool} {err : Option Err} (hid : item.id = id) (hack : item.acked)
      (hs : strict = true → ph ≠ .fresh) (hph : ph ≠ .foreign)
      (happ : applied = true → o.effect = true ∧ err = o.err) (herr : err = none → applied = true) :
      Does strict id o stored ph (if applied then some item else stored) [.update item applied err]
        (if err = none then .acked else ph)
  | delete {applied : Bool} {err : Option Err} (hph : ph = .acked) :
      Does strict id o stored ph (if applied then none else stored) [.delete id applied err] ph

variable {o : Outcome}

theorem effect_of_none (h : o.err = none) : o.effect = true := by
  rw [Outcome.effect, h]
  rfl

variable {stored : Int → Option DeadLetter} {id' : Int}

/-- A call for another row. -/
theorem update_other (hne : id' ≠ id) (b : Bool) (x : Option DeadLetter) :
    (if b then Function.update stored id' x else stored) id = stored id := by
  cases b with
  | false => rfl
  | true =>
    exact Function.update_of_ne hne.symm x stored

theorem update_self (heq : id' = id) (b : Bool) (x : Option DeadLetter) :
    (if b then Function.update stored id' x else stored) id = if b then x else stored id := by
  subst heq
  cases b with
  | false => rfl
  | true => exact Function.update_self ..

variable {p : Proc}

/-- **What one call can do.** -/
theorem act_does (stored : Int → Option DeadLetter) (o : Outcome) (hroute : strict = true → o.routed ≠ .ok [])
    (hf : p.Follows strict id ph) :
    ∃ ph', Does strict id o (stored id) ph ((p.act stored o).1 id) (p.act stored o).2.1 ph' ∧
      (p.act stored o).2.2.Follows strict id ph' := by
  have hquiet : Does strict id o (stored id) ph (stored id) [] ph := .other (by simp)
  cases p with
  | ret err => exact ⟨ph, hquiet, trivial⟩
  | transform rec k => exact ⟨ph, hquiet, hf _⟩
  | route nodeID rec k => exact ⟨ph, hquiet, hf _ hroute⟩
  | openSink sinkID k => exact ⟨ph, hquiet, hf _⟩
  | wait k => exact ⟨ph, hquiet, hf _⟩
  | write item sinkID records k =>
    unfold Follows at hf
    simp only [act]
    by_cases hid : item.id = id
    · rw [if_pos hid] at hf
      obtain ⟨hph, hok, herr⟩ := hf
      refine ⟨if o.err = none then .written else ph, ?_, ?_⟩
      · rw [hid]
        exact .write sinkID records hph
      · cases he : o.err with
        | none => exact hok
        | some e => exact herr e
    · rw [if_neg hid] at hf
      exact ⟨ph, .other (forall_mem_singleton.mpr hid), hf _⟩
  | update item k =>
    -- a row that is gone is not changed, and that is an error
    obtain ⟨applied, err, hact, happ, hnone⟩ : ∃ applied err, (update item k).act stored o =
        (if applied then Function.update stored item.id (some item) else stored, [.update item applied err], k err) ∧
          (applied = true → o.effect = true ∧ err = o.err) ∧ (err = none → applied = true) := by
      by_cases hmiss : (stored item.id).isNone = true
      · exact ⟨false, some (errNotFound item), by simp [act, hmiss], by simp, by simp⟩
      · exact ⟨o.effect, o.err, by simp [act, hmiss], fun h => ⟨h, rfl⟩, effect_of_none⟩
    rw [hact]
    unfold Follows at hf
    by_cases hid : item.id = id
    · simp only [update_self hid]
      rw [if_pos hid] at hf
      by_cases hack : item.acked
      · rw [if_pos hack] at hf
        obtain ⟨hs, hfor, hok, herr⟩ := hf
        refine ⟨_, .mark hid hack hs hfor happ hnone, ?_⟩
        cases err with
        | none => exact hok
        | some e => exact herr e
      · rw [if_neg hack] at hf
        exact ⟨ph, .context hid hack hf.1, hf.2 _⟩
    · rw [if_neg hid] at hf
      simp only [update_other hid]
      exact ⟨ph, .other (forall_mem_singleton.mpr hid), hf _⟩
  | delete item k =>
    unfold Follows at hf
    simp only [act]
    by_cases hid : item.id = id
    · rw [if_pos hid] at hf
      simp only [update_self hid]
      rw [hid]
      exact ⟨ph, .delete hf.1, hf.2 _⟩
    · rw [if_neg hid] at hf
      simp only [update_other hid]
      exact ⟨ph, .other (forall_mem_singleton.mpr hid), hf _⟩

/-! ## Runs -/

/-- The rows are stored under their ids. -/
def Keyed (stored : Int → Option DeadLetter) : Prop := ∀ id d, stored id = some d → d.id = id ∧ id ≠ 0

theorem Keyed.update (h : Keyed stored) {id0 : Int} (b : Bool) {x : Option DeadLetter}
    (hx : ∀ d, x = some d → d.id = id0 ∧ id0 ≠ 0) : Keyed (if b then Function.update stored id0 x else stored) := by
  intro id' d hd
  by_cases hid : id0 = id'
  · rw [update_self hid] at hd
    cases b with
    | false => exact h id' d hd
    | true => exact hid ▸ hx d hd
  · rw [update_other hid] at hd
    exact h id' d hd

theorem act_keyed (h : Keyed stored) (o : Outcome) (p : Proc) : Keyed (p.act stored o).1 := by
  cases p with
  | update item k =>
    simp only [act]
    split
    · exact h
    · rename_i hsome
      obtain ⟨d, hd⟩ : ∃ d, stored item.id = some d := Option.ne_none_iff_exists'.mp (by simpa using hsome)
      exact h.update o.effect fun d' hd' => ⟨congrArg (·.id) (Option.some.inj hd').symm, (h _ d hd).2⟩
  | delete item k => exact h.update o.effect (by simp)
  | _ => exact h

/-- A listing has each row once, under its id. -/
theorem listing_sublist (h : Keyed stored) : ∀ ids : List Int,
    ((ids.filterMap stored).map (·.id)).Sublist ids
  | [] => .slnil
  | i :: ids => by
    have ih := listing_sublist h ids
    cases hi : stored i with
    | none =>
      rw [filterMap_cons_none hi]
      exact ih.cons i
    | some d =>
      rw [filterMap_cons_some hi, map_cons, (h i d hi).1]
      exact ih.cons_cons i

theorem started_follows (h : Keyed stored) (r : Request) (hpos : strict = true → 0 < r.retry.maxAttempts)
    (ids : List Int) (hph : id ∈ ids → ∀ d, stored id = some d → ph = Phase.ofRow d) :
    (r.program (ids.dedup.filterMap stored)).Follows strict id ph := by
  refine program_follows r hpos ((nodup_dedup ids).sublist (listing_sublist h _)) ?_ ?_
  · intro d hd
    obtain ⟨i, -, hi⟩ := mem_filterMap.mp hd
    rw [(h i d hi).1]
    exact (h i d hi).2
  · intro d hd hid
    obtain ⟨i, hmem, hi⟩ := mem_filterMap.mp hd
    have heq : i = id := (h i d hi).1.symm.trans hid
    exact hph (heq ▸ mem_dedup.mp hmem) d (heq ▸ hi)

/-! ### Deleted only behind a write -/

def Written (log : List Ev) (id : Int) : Prop := ∃ sinkID records, .write id sinkID records none ∈ log

/-- A deletion of row `id` comes behind a write of it that returned nil. -/
def DeletedBehindWrite (id : Int) (pre : List Ev) (e : Ev) : Prop :=
  ∀ applied err, e = .delete id applied err → Written pre id

variable {log : List Ev}

theorem Written.append (h : Written log id) (evs : List Ev) : Written (log ++ evs) id := by
  obtain ⟨sinkID, records, hmem⟩ := h
  exact ⟨sinkID, records, mem_append_left _ hmem⟩

/-- Who works on the row or finds it marked comes behind a write of it. -/
structure Backed (id : Int) (s : Sys) : Prop where
  keyed : Keyed s.rows
  threads : ∀ th ∈ s.threads, ∃ ph, th.proc.Follows true id ph ∧ (ph = .written ∨ ph = .acked → Written s.log id)
  row : ∀ d, s.rows id = some d → d.acked → Written s.log id
  deleted : Always (DeletedBehindWrite id) s.log

variable {evs : List Ev} {ph' : Phase} {stored' : Option DeadLetter}

theorem Does.backed {stored : Option DeadLetter} (h : Does true id o stored ph stored' evs ph')
    (hph : ph = .written ∨ ph = .acked → Written log id) (hrow : ∀ d, stored = some d → d.acked → Written log id)
    (hdel : Always (DeletedBehindWrite id) log) :
    (ph' = .written ∨ ph' = .acked → Written (log ++ evs) id) ∧
      (∀ d, stored' = some d → d.acked → Written (log ++ evs) id) ∧
      Always (DeletedBehindWrite id) (log ++ evs) := by
  cases h with
  | other hev =>
    refine ⟨fun h => (hph h).append evs, fun d hd hack => (hrow d hd hack).append evs, hdel.append ?_⟩
    rintro pre e he applied err rfl
    exact absurd rfl (hev _ he)
  | write sinkID records hfresh =>
    refine ⟨fun h => ?_, fun d hd hack => (hrow d hd hack).append _, always_snoc.mpr ⟨hdel, nofun⟩⟩
    by_cases he : o.err = none
    · rw [he]
      exact ⟨sinkID, records, by simp⟩
    · rw [if_neg he] at h
      exact (hph h).append _
  | @context item applied err hid hun hfresh =>
    refine ⟨fun h => (hph h).append _, fun d hd hack => ?_, always_snoc.mpr ⟨hdel, nofun⟩⟩
    cases applied with
    | false => exact (hrow d hd hack).append _
    | true =>
      cases hd
      exact absurd hack hun
  | @mark item applied err hid hack hs hfor happ herr =>
    have hw : Written log id := by
      refine hph ?_
      cases ph with
      | foreign => exact absurd rfl hfor
      | fresh => exact absurd rfl (hs rfl)
      | written => exact .inl rfl
      | acked => exact .inr rfl
    exact ⟨fun _ => hw.append _, fun _ _ _ => hw.append _, always_snoc.mpr ⟨hdel, nofun⟩⟩
  | @delete applied err hacked =>
    have hw := hph (.inr hacked)
    exact ⟨fun _ => hw.append _, fun _ _ _ => hw.append _, always_snoc.mpr ⟨hdel, fun _ _ _ => hw⟩⟩

/-- The sink may be tried at least once, and the route of a row leads to a sink. -/
def Input.Writes : Input → Prop
  | .start r _ => 0 < r.retry.maxAttempts
  | .move _ o => o.routed ≠ .ok []
  | .crash _ => True

variable {s : Sys} {i : Input}

theorem Backed.step (hi : i.Writes) (h : Backed id s) : Backed id (s.step i) := by
  cases i with
  | start r ids =>
    refine ⟨h.keyed, fun th hth => ?_, h.row, h.deleted⟩
    rcases mem_append.mp hth with hth | hth
    · exact h.threads th hth
    · obtain rfl := mem_singleton.mp hth
      cases hd : s.rows id with
      | none =>
        exact ⟨.fresh, started_follows h.keyed r (fun _ => hi) ids (by simp [hd]), by simp⟩
      | some d =>
        refine ⟨Phase.ofRow d, started_follows h.keyed r (fun _ => hi) ids ?_, fun hph => h.row d hd ?_⟩
        · intro _ d' hd'
          rw [hd] at hd'
          rw [Option.some.inj hd']
        · unfold Phase.ofRow at hph
          split at hph
          · assumption
          · simp at hph
  | move t o =>
    simp only [step]
    cases ht : s.threads[t]? with
    | none => exact h
    | some th =>
      obtain ⟨ph, hfol, hph⟩ := h.threads th (mem_of_getElem? ht)
      obtain ⟨ph', hdoes, hfol'⟩ := act_does s.rows o (fun _ => hi) hfol
      obtain ⟨hph', hrow', hdel'⟩ := hdoes.backed hph h.row h.deleted
      refine ⟨act_keyed h.keyed o th.proc, fun th' hth' => ?_, hrow', hdel'⟩
      rcases mem_or_eq_of_mem_set hth' with hth' | rfl
      · obtain ⟨ph0, hfol0, hph0⟩ := h.threads th' hth'
        exact ⟨ph0, hfol0, fun hw => (hph0 hw).append _⟩
      · exact ⟨ph', hfol', hph'⟩
  | crash t =>
    simp only [step]
    cases ht : s.threads[t]? with
    | none => exact h
    | some th =>
      refine ⟨h.keyed, fun th' hth' => ?_, h.row, h.deleted⟩
      rcases mem_or_eq_of_mem_set hth' with hth' | rfl
      · exact h.threads th' hth'
      · exact ⟨.fresh, trivial, by simp⟩

/-! ### Marked until deleted -/

/-- The mark of row `id` has been stored. -/
def Acked (log : List Ev) (id : Int) : Prop := ∃ item err, .update item true err ∈ log ∧ item.id = id ∧ item.acked

/-- Behind the mark the row is not written to the sink and no update of it has an effect but to keep the mark. -/
def StaysAcked (id : Int) (pre : List Ev) (e : Ev) : Prop :=
  Acked pre id → (∀ sinkID records err, e ≠ .write id sinkID records err) ∧
    ∀ item err, e = .update item true err → item.id = id → item.acked

def Proc.running : Proc → Bool
  | .ret _ => false
  | _ => true

/-- A request lists a row only when no other request that listed it is at work, and a call that fails has no effect. -/
def Alone (s : Sys) : Input → Prop
  | .start _ ids => ∀ th ∈ s.threads, th.proc.running = true → ∀ id ∈ ids, id ∉ th.ids
  | .move _ o => o.err ≠ none → o.applied = false
  | .crash _ => True

instance (s : Sys) : (i : Input) → Decidable (Alone s i)
  | .start _ ids =>
    inferInstanceAs (Decidable (∀ th ∈ s.threads, th.proc.running = true → ∀ id ∈ ids, id ∉ th.ids))
  | .move _ o => inferInstanceAs (Decidable (o.err ≠ none → o.applied = false))
  | .crash _ => inferInstanceAs (Decidable True)

/-- At most one request works on the row, the `t`-th, and the phase it is in agrees with the row. -/
structure Single (id : Int) (s : Sys) : Prop where
  keyed : Keyed s.rows
  foreign : ∀ th ∈ s.threads, id ∉ th.ids → th.proc.Follows false id .foreign
  current : ∃ (t : Nat) (ph : Phase),
    (∀ (t' : Nat) (th : Thread), s.threads[t']? = some th →
      th.proc.Follows false id (if t' = t then ph else .foreign)) ∧
    (Acked s.log id → ph = .acked ∨ ph = .foreign)
  row : ∀ d, s.rows id = some d → (d.acked ↔ Acked s.log id)
  stays : Always (StaysAcked id) s.log

/-- Events without a mark of the row. -/
theorem acked_append (h : ∀ item err, .update item true err ∈ evs → item.id = id → ¬item.acked) :
    Acked (log ++ evs) id ↔ Acked log id := by
  constructor
  · rintro ⟨item, err, hmem, hid, hack⟩
    rcases mem_append.mp hmem with hmem | hmem
    · exact ⟨item, err, hmem, hid, hack⟩
    · exact absurd hack (h item err hmem hid)
  · rintro ⟨item, err, hmem, hid⟩
    exact ⟨item, err, mem_append_left _ hmem, hid⟩

/-- A call that marks the row. -/
theorem StaysAcked.of_mark (id : Int) (hack : item.acked) (applied : Bool) (err : Option Err) (log : List Ev) :
    StaysAcked id log (.update item applied err) := by
  intro _
  refine ⟨nofun, fun item' err' heq _ => ?_⟩
  rw [Ev.update.injEq] at heq
  exact heq.1 ▸ hack

/-- One call, in a phase that agrees with the row. -/
theorem Does.single (ho : o.err ≠ none → o.applied = false) {stored : Option DeadLetter}
    (h : Does false id o stored ph stored' evs ph') (hph : Acked log id → ph = .acked ∨ ph = .foreign)
    (hrow : ∀ d, stored = some d → (d.acked ↔ Acked log id)) (hstays : Always (StaysAcked id) log) :
    (Acked (log ++ evs) id → ph' = .acked ∨ ph' = .foreign) ∧
      (∀ d, stored' = some d → (d.acked ↔ Acked (log ++ evs) id)) ∧
      Always (StaysAcked id) (log ++ evs) := by
  -- a call for a row that is not marked yet comes before the mark
  have hbefore : ph = .fresh ∨ ph = .written → ¬Acked log id := by
    rintro hfresh hacked
    rcases hfresh with rfl | rfl <;> rcases hph hacked with h | h <;> cases h
  cases h with
  | other hev =>
    rw [acked_append fun item err hmem hid => absurd hid (hev _ hmem)]
    refine ⟨hph, hrow, hstays.append ?_⟩
    intro pre e he _
    refine ⟨?_, ?_⟩
    · rintro sinkID records err rfl
      exact hev _ he rfl
    · rintro item err rfl hid
      exact absurd hid (hev _ he)
  | write sinkID records hfresh =>
    have hnot := hbefore hfresh
    rw [acked_append fun item err hmem => by simp at hmem]
    exact ⟨fun h => absurd h hnot, hrow, always_snoc.mpr ⟨hstays, fun h => absurd h hnot⟩⟩
  | @context item applied err hid hun hfresh =>
    have hnot := hbefore hfresh
    rw [acked_append fun item' err' hmem _ => by
      rw [(Ev.update.inj (mem_singleton.mp hmem)).1]
      exact hun]
    refine ⟨fun h => absurd h hnot, fun d hd => ?_, always_snoc.mpr ⟨hstays, fun h => absurd h hnot⟩⟩
    cases applied with
    | false => exact hrow d hd
    | true =>
      obtain rfl := Option.some.inj hd
      exact ⟨fun h => absurd h hun, fun h => absurd h hnot⟩
  | @mark item applied err hid hack hs hfor happ herr =>
    have hstep := StaysAcked.of_mark id hack applied err log
    cases applied with
    | false =>
      have herr' : err ≠ none := fun h => by simpa using herr h
      rw [acked_append (fun item' err' hmem => by simp at hmem), if_neg herr']
      exact ⟨hph, hrow, always_snoc.mpr ⟨hstays, hstep⟩⟩
    | true =>
      have hnow : Acked (log ++ [.update item true err]) id := ⟨item, err, by simp, hid, hack⟩
      -- a call with an effect has returned nil
      have hnil : err = none := by
        obtain ⟨heff, rfl⟩ := happ rfl
        by_contra hne
        have := ho hne
        rw [Outcome.effect, this, Bool.or_false, Option.isNone_iff_eq_none] at heff
        exact hne heff
      refine ⟨fun _ => .inl (if_pos hnil), fun d hd => ?_, always_snoc.mpr ⟨hstays, hstep⟩⟩
      obtain rfl := Option.some.inj hd
      exact ⟨fun _ => hnow, fun _ => hack⟩
  | @delete applied err hacked =>
    rw [acked_append fun item' err' hmem => by simp at hmem]
    have hstep : StaysAcked id log (.delete id applied err) := fun _ => ⟨by simp, by simp⟩
    refine ⟨hph, fun d hd => ?_, always_snoc.mpr ⟨hstays, hstep⟩⟩
    cases applied with
    | false => exact hrow d hd
    | true => exact absurd hd (by simp)

/-- A request that has nothing to do with the row leaves it alone. -/
theorem Does.foreign {stored : Option DeadLetter} (h : Does strict id o stored .foreign stored' evs ph') :
    ph' = .foreign ∧ ∀ e ∈ evs, e.id ≠ id := by
  cases h with
  | other hev => exact ⟨rfl, hev⟩
  | write _ _ hph => rcases hph with h | h <;> cases h
  | context _ _ hph => rcases hph with h | h <;> cases h
  | mark _ _ _ hph => exact absurd rfl hph
  | delete hph => cases hph

theorem follows_of_done (h : ¬p.running = true) (ph : Phase) : p.Follows strict id ph := by
  cases p with
  | ret => trivial
  | _ => exact absurd rfl h

variable {t : Nat} {th : Thread}

theorem getElem?_set_eq {l : List Thread} (ht : l[t]? = some th) (x : Thread) (t' : Nat) :
    (l.set t x)[t']? = if t = t' then some x else l[t']? := by
  rw [getElem?_set]
  split
  · rename_i heq
    rw [if_pos (List.getElem?_eq_some_iff.mp ht).1]
  · rfl

theorem Single.start (h : Single id s) (r : Request) (ids : List Int) (hi : Alone s (.start r ids)) :
    Single id (s.step (.start r ids)) := by
  obtain ⟨t0, ph0, hcur, hph0⟩ := h.current
  have hnew : ∀ ph, (id ∈ ids → ∀ d, s.rows id = some d → ph = Phase.ofRow d) →
      (r.program (ids.dedup.filterMap s.rows)).Follows false id ph :=
    fun ph hph => started_follows h.keyed r (by simp) ids hph
  have hthread : ∀ (t' : Nat) (th : Thread), (s.step (.start r ids)).threads[t']? = some th →
      s.threads[t']? = some th ∨
        t' = s.threads.length ∧ th = ⟨ids, r.program (ids.dedup.filterMap s.rows)⟩ := by
    intro t' th hth
    rw [step] at hth
    rcases Nat.lt_trichotomy t' s.threads.length with hlt | heq | hgt
    · rw [getElem?_append_left hlt] at hth
      exact .inl hth
    · rw [heq, getElem?_concat_length] at hth
      exact .inr ⟨heq, (Option.some.inj hth).symm⟩
    · rw [getElem?_eq_none (by simp; omega)] at hth
      cases hth
  have hforeign : ∀ th ∈ (s.step (.start r ids)).threads, id ∉ th.ids → th.proc.Follows false id .foreign := by
    intro th hth hid
    rcases mem_append.mp hth with hth | hth
    · exact h.foreign th hth hid
    · obtain rfl := mem_singleton.mp hth
      exact hnew _ fun hmem => absurd hmem hid
  by_cases hid : id ∈ ids
  · -- the new request is the one that works on the row
    have hnone : ∀ th ∈ s.threads, th.proc.Follows false id .foreign := by
      intro th hth
      by_cases hrun : th.proc.running = true
      · exact h.foreign th hth (hi th hth hrun id hid)
      · exact follows_of_done hrun _
    obtain ⟨ph, hph, hagree⟩ : ∃ ph : Phase, (∀ d, s.rows id = some d → ph = Phase.ofRow d) ∧
        (Acked s.log id → ph = .acked ∨ ph = .foreign) := by
      cases hd : s.rows id with
      | none => exact ⟨.foreign, by simp, fun _ => .inr rfl⟩
      | some d =>
        refine ⟨Phase.ofRow d, fun d' hd' => by rw [Option.some.inj hd'], fun hacked => .inl ?_⟩
        rw [Phase.ofRow, if_pos ((h.row d hd).mpr hacked)]
    refine ⟨h.keyed, hforeign, ⟨s.threads.length, ph, fun t' th hth => ?_, hagree⟩, h.row, h.stays⟩
    rcases hthread t' th hth with hth | ⟨rfl, rfl⟩
    · rw [if_neg (Nat.ne_of_lt (List.getElem?_eq_some_iff.mp hth).1)]
      exact hnone th (mem_of_getElem? hth)
    · rw [if_pos rfl]
      exact hnew ph fun _ => hph
  · refine ⟨h.keyed, hforeign, ⟨t0, ph0, fun t' th hth => ?_, hph0⟩, h.row, h.stays⟩
    rcases hthread t' th hth with hth | ⟨-, rfl⟩
    · exact hcur t' th hth
    · exact hnew _ fun hmem => absurd hmem hid

/-- A call of the `t`-th request. -/
theorem Single.move (h : Single id s) (ht : s.threads[t]? = some th) (ho : o.err ≠ none → o.applied = false) :
    Single id
      { rows := (th.proc.act s.rows o).1
        threads := s.threads.set t { th with proc := (th.proc.act s.rows o).2.2 }
        log := s.log ++ (th.proc.act s.rows o).2.1 } := by
  obtain ⟨t0, ph0, hcur, hph0⟩ := h.current
  have hforeign : ∀ th' ∈ s.threads.set t { th with proc := (th.proc.act s.rows o).2.2 }, id ∉ th'.ids →
      th'.proc.Follows false id .foreign := by
    intro th' hth' hid
    rcases mem_or_eq_of_mem_set hth' with hth' | rfl
    · exact h.foreign th' hth' hid
    · have hfol := h.foreign th (mem_of_getElem? ht) hid
      obtain ⟨ph', hdoes, hfol'⟩ := act_does s.rows o (by simp) hfol
      rw [hdoes.foreign.1] at hfol'
      exact hfol'
  have hph : Acked s.log id → (if t = t0 then ph0 else .foreign) = .acked ∨ (if t = t0 then ph0 else .foreign) = .foreign := by
    intro hacked
    split
    · exact hph0 hacked
    · exact .inr rfl
  obtain ⟨ph', hdoes, hfol'⟩ := act_does s.rows o (by simp) (hcur t th ht)
  obtain ⟨hph', hrow', hstays'⟩ := hdoes.single ho hph h.row h.stays
  by_cases htt : t = t0
  · subst htt
    refine ⟨act_keyed h.keyed o th.proc, hforeign, ⟨t, ph', fun t' th' hth' => ?_, hph'⟩, hrow', hstays'⟩
    rw [getElem?_set_eq ht] at hth'
    by_cases heq : t = t'
    · subst heq
      rw [if_pos rfl] at hth' ⊢
      obtain rfl := Option.some.inj hth'
      exact hfol'
    · rw [if_neg heq] at hth'
      have := hcur t' th' hth'
      rw [if_neg (Ne.symm heq)] at this ⊢
      exact this
  · rw [if_neg htt] at hdoes
    obtain ⟨rfl, hev⟩ := hdoes.foreign
    refine ⟨act_keyed h.keyed o th.proc, hforeign, ⟨t0, ph0, fun t' th' hth' => ?_, fun hacked => hph0 ?_⟩, hrow',
      hstays'⟩
    · rw [getElem?_set_eq ht] at hth'
      by_cases heq : t = t'
      · subst heq
        rw [if_pos rfl] at hth'
        rw [if_neg htt]
        obtain rfl := Option.some.inj hth'
        exact hfol'
      · rw [if_neg heq] at hth'
        exact hcur t' th' hth'
    · exact (acked_append fun item err hmem hid => absurd hid (hev _ hmem)).mp hacked

theorem Single.crash (h : Single id s) (ht : s.threads[t]? = some th) :
    Single id { s with threads := s.threads.set t { th with proc := .ret none } } := by
  obtain ⟨t0, ph0, hcur, hph0⟩ := h.current
  refine ⟨h.keyed, fun th' hth' hid => ?_, ⟨t0, ph0, fun t' th' hth' => ?_, hph0⟩, h.row, h.stays⟩
  · rcases mem_or_eq_of_mem_set hth' with hth' | rfl
    · exact h.foreign th' hth' hid
    · trivial
  · rw [getElem?_set_eq ht] at hth'
    split at hth'
    · obtain rfl := Option.some.inj hth'
      trivial
    · exact hcur t' th' hth'

theorem Single.step (hi : Alone s i) (h : Single id s) : Single id (s.step i) := by
  cases i with
  | start r ids => exact h.start r ids hi
  | move t o =>
    simp only [step]
    cases ht : s.threads[t]? with
    | none => exact h
    | some th => exact h.move ht hi
  | crash t =>
    simp only [step]
    cases ht : s.threads[t]? with
    | none => exact h
    | some th => exact h.crash ht

/-- The stored rows before the first request: none is marked. -/
structure Stored where
  rows : Int → Option DeadLetter
  keyed : Keyed rows
  unmarked : ∀ id d, rows id = some d → ¬d.acked

def Stored.sys (S : Stored) : Sys := { rows := S.rows }

theorem Stored.backed (S : Stored) (id : Int) : Backed id S.sys where
  keyed := S.keyed
  threads := by simp [Stored.sys]
  row := fun d hd hack => absurd hack (S.unmarked id d hd)
  deleted := always_nil _

theorem not_acked_nil (id : Int) : ¬Acked [] id := by
  rintro ⟨_, _, h, -⟩
  cases h

theorem Stored.single (S : Stored) (id : Int) : Single id S.sys where
  keyed := S.keyed
  foreign := by simp [Stored.sys]
  current := ⟨0, .foreign, by simp [Stored.sys], fun h => absurd h (not_acked_nil id)⟩
  row := fun d hd => ⟨fun hack => absurd hack (S.unmarked id d hd), fun h => absurd h (not_acked_nil id)⟩
  stays := always_nil _

end

/-- **Replay requests side by side.** In every run, whatever fails and however the requests interleave, a row is deleted only
behind a write of it that returned nil, if every request may try the sink at least once and every route leads to one. And
the mark of a row stays, without another write, until the row is deleted, in every run in which a row is listed only when no
other request is at work on it and calls that fail have no effect. -/
theorem replay_states (S : Stored) (inputs : List Input) (id : Int) :
    (Steps (fun _ i => i.Writes) step S.sys inputs →
      Always (DeletedBehindWrite id) (run step S.sys inputs).log) ∧
    (Steps Alone step S.sys inputs →
      Always (StaysAcked id) (run step S.sys inputs).log ∧
        ∀ d, (run step S.sys inputs).rows id = some d →
          Acked (run step S.sys inputs).log id → d.acked) := by
  constructor
  · intro hsteps
    exact (run_invariant_of (Backed id) (fun _ _ hi h => h.step hi) (S.backed id) hsteps).deleted
  · intro hsteps
    have h := run_invariant_of (Single id) (fun _ _ hi h => h.step hi) (S.single id) hsteps
    exact ⟨h.stays, fun d hd => (h.row d hd).mpr⟩

/-! ## Runs -/

def row7 : DeadLetter := { id := 7, record := {} }

def marked7 : DeadLetter := { row7 with replayState := .sinkAcked, replayAttempt := 1 }

def oneRow (id : Int) : Option DeadLetter := if id = 7 then some row7 else none

theorem oneRow_some {id : Int} {d : DeadLetter} (h : oneRow id = some d) : id = 7 ∧ d = row7 := by
  unfold oneRow at h
  split at h
  · rename_i hid
    exact ⟨hid, (Option.some.inj h).symm⟩
  · cases h

theorem oneRow_keyed : Keyed oneRow := by
  intro id d h
  obtain ⟨rfl, rfl⟩ := oneRow_some h
  decide

theorem oneRow_unmarked (id : Int) (d : DeadLetter) (h : oneRow id = some d) : ¬d.acked := by
  obtain ⟨-, rfl⟩ := oneRow_some h
  decide

def one : Stored := ⟨oneRow, oneRow_keyed, oneRow_unmarked⟩

def linear : Request := .linear {} defaultConfig

def refused : Option Err := some { msg := "refused", classified := some .data }

/-- A request that ends behind its mark, and one that finds the row marked and deletes it. -/
def resumed : List Input :=
  [.start linear [7], .move 0 {}, .move 0 {}, .move 0 {}, .crash 0, .start linear [7], .move 1 {}]

theorem replay_states_resumed :
    (run step one.sys resumed).log =
        [.write 7 "sink" [{}] none, .update marked7 true none, .delete 7 true none] ∧
      Always (DeletedBehindWrite 7) (run step one.sys resumed).log ∧
      Always (StaysAcked 7) (run step one.sys resumed).log := by
  refine ⟨by decide, (replay_states one resumed 7).1 ?_, ((replay_states one resumed 7).2 ?_).1⟩
  · simp [resumed, Steps, Input.Writes, linear, Request.retry, defaultConfig]
  · exact ⟨by decide, by decide, by decide, by decide, by decide, by decide, by decide, trivial⟩

/-- Two requests list the row. The first writes and marks it; then the second is refused by the sink and writes its copy
back. -/
def overtaken : List Input :=
  [.start linear [7], .start linear [7], .move 0 {}, .move 0 {}, .move 0 {}, .move 1 {}, .move 1 { err := refused },
    .move 1 {}]

/-- The mark is stored, but the answer is lost. -/
def answerLost : List Input :=
  [.start linear [7], .move 0 {}, .move 0 {}, .move 0 { err := refused, applied := true }, .move 0 {}]

def unattempted : List Input :=
  [.start (.linear {} { defaultConfig with maxAttempts := 0 }) [7], .move 0 {}, .move 0 {}, .move 0 {}]

theorem overtaken_loses_mark : ¬Always (StaysAcked 7) (run step one.sys overtaken).log := by
  intro h
  have hstays := h [.write 7 "sink" [{}] none, .update marked7 true none]
    (.write 7 "sink" [{}] refused) _ rfl ⟨marked7, none, by simp, rfl, rfl⟩
  exact hstays.1 _ _ _ rfl

theorem unattempted_deletes : ¬Always (DeletedBehindWrite 7) (run step one.sys unattempted).log := by
  intro h
  obtain ⟨sinkID, records, hmem⟩ := h [.update marked7 true none] (.delete 7 true none) [] rfl true none rfl
  simp at hmem

/-- The row is written again behind its mark and loses it, to another request or to the request's own error path; and
without attempts it is deleted without a write. -/
theorem replay_loses_mark :
    (¬Always (StaysAcked 7) (run step one.sys overtaken).log ∧
      (run step one.sys overtaken).rows 7 = some { row7 with replayAttempt := 1, replayError := "refused" }) ∧
    ((run step one.sys answerLost).log.map Ev.id = [7, 7, 7] ∧
      (run step one.sys answerLost).rows 7 = some { row7 with
        replayAttempt := 1
        replayError := "persist dlq replay checkpoint after sink acknowledgement: refused" }) ∧
    ¬Always (DeletedBehindWrite 7) (run step one.sys unattempted).log :=
  ⟨⟨overtaken_loses_mark, by decide⟩, ⟨by decide, by decide⟩, unattempted_deletes⟩

end OpenEtl.Server.Race
