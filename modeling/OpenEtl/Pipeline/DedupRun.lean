import OpenEtl.Pipeline.ZeroLoss
import OpenEtl.Transform.Deduplicate

/-!
# The linear runner with a deduplicator in its chain

The chain is the transforms before the deduplicator, the deduplicator, and the transforms behind it, all of them
record transforms; the deduplicator has state metrics, so the records of a batch go through it one after another
(pipeline.go:1459). A process may end between two calls of the runner or inside one; then the next starts with an
empty memory and the same state store.

| here | there |
| --- | --- |
| `chain`, `chains` | `TransformChain.Apply` over the records of a batch |
| `Life` | what one process did: its log, and what came to the deduplicator |
| `Sys.step` | a call, a crash inside a call, a restart, entries that expire |
-/

namespace OpenEtl.Pipeline.Dedup

open Deduplicate (State Fault Namespace)
open Storage (Ctx)
open List
open Deduplicate (Remembers apply applyKey applyKey_spec keyOf)

/-! ## The chain -/

/-- What the transforms around the deduplicator do with the `i`-th record of a call, and what its store answers. -/
structure Around where
  before : Nat → Record → Except TransformErr Record := fun _ r => .ok r
  behind : Nat → Record → Except TransformErr Record := fun _ r => .ok r
  fault : Nat → Fault := fun _ => {}

section

variable (cfg : Deduplicate.Cfg) (o : Around)

def chain (d : State) (i : Nat) (rec : Record) : State × Except TransformErr Record :=
  match o.before i rec with
  | .error e => (d, .error e)
  | .ok r =>
    match Deduplicate.apply cfg (o.fault i) d r with
    | (d, .error e) => (d, .error e)
    | (d, .ok r) => (d, o.behind i r)

/-- The records of a batch, one after another. -/
def chains : State → Nat → List Item → State × List (Except TransformErr Record)
  | d, _, [] => (d, [])
  | d, i, it :: items =>
    let (d, res) := chain cfg o d i it.record
    let (d, results) := chains d (i + 1) items
    (d, res :: results)

/-- The key under which a record comes to the deduplicator, if it does and has one. -/
def keyed (i : Nat) (rec : Record) : Option String :=
  match o.before i rec with
  | .error _ => none
  | .ok r => Deduplicate.keyOf cfg r

/-- The record that is to be acknowledged or dead-lettered: the chain's output, or the record that failed. -/
def outcome (it : Item) : Except TransformErr Record → Option Item
  | .ok r => some { it with record := r }
  | .error .filtered => none
  | .error (.failed _) => some it

/-- A record that came to the deduplicator. -/
structure Arrival where
  seq : Nat
  key : String
  /-- the deduplicator let it through -/
  passed : Bool
  outcome : Option Item
deriving DecidableEq, Repr

def arrival (d : State) (i : Nat) (it : Item) (key : String) : Arrival :=
  { seq := it.seq
    key
    passed := (Deduplicate.applyKey cfg (o.fault i) d key).2.isNone
    outcome := outcome it (chain cfg o d i it.record).2 }

def arrivals : State → Nat → List Item → List Arrival
  | _, _, [] => []
  | d, i, it :: items =>
    ((keyed cfg o i it.record).map (arrival cfg o d i it)).toList ++
      arrivals (chain cfg o d i it.record).1 (i + 1) items

end

/-! ## Processes -/

structure Setup where
  runner : Cfg
  dedup : Deduplicate.Cfg
  runCtx : Ctx := .background
  /-- the circuit breaker a process starts with -/
  breaker : Option CircuitBreaker := none

structure Life where
  log : List Event
  arrivals : List Arrival
deriving DecidableEq, Repr

structure Sys where
  past : List Life := []
  runner : St
  arrivals : List Arrival := []
  dedup : State := {}
deriving DecidableEq, Repr

inductive Input
  | call (E : Env) (o : Around) (c : Call)
  /-- the process ends inside a call, when the first `j` records of the batch have been through the chain and the
  first `m` events of the call have happened -/
  | crash (E : Env) (o : Around) (c : Call) (j m : Nat)
  /-- the process ends between two calls -/
  | restart
  /-- entries of the state store whose TTL has passed -/
  | expire (gone : List (Namespace × String))

/-- The runner's configuration for one call: the chain's results are known. The deduplicator has state metrics. -/
def callCfg (C : Cfg) (results : List (Except TransformErr Record)) : Cfg :=
  { C with transforms := [{ apply := fun _ i _ => results.getD i (.error .filtered), stateful := true }] }

section

variable (P : Setup)

def accepted (s : Sys) (c : Call) : List Item := (enter s.runner c).2.filter (·.record.rejection.isNone)

def arrived (s : Sys) (o : Around) (c : Call) : List Arrival := arrivals P.dedup o s.dedup 0 (accepted s c)

def called (s : Sys) (E : Env) (o : Around) (c : Call) : St :=
  Pipeline.step (callCfg P.runner (chains P.dedup o s.dedup 0 (accepted s c)).2) E P.runCtx s.runner c

/-- The log of a process that ends after `m` events of a call. -/
def cutLog (s : Sys) (E : Env) (o : Around) (c : Call) (m : Nat) : List Event :=
  s.runner.log ++ (Trace.added s.runner.log (called P s E o c).log).take m

/-- The process ends and the next one starts, with the entries that are in the store. -/
def Sys.next (s : Sys) (life : Life) (store : List (Namespace × String)) : Sys :=
  { past := s.past ++ [life], runner := St.start P.breaker, arrivals := [], dedup := { store } }

def Sys.step (s : Sys) : Input → Sys
  | .call E o c =>
    { s with
      runner := called P s E o c
      arrivals := s.arrivals ++ arrived P s o c
      dedup := (chains P.dedup o s.dedup 0 (accepted s c)).1 }
  | .crash E o c j m =>
    -- the records behind the first `j` did not arrive; no event names them
    s.next P { log := cutLog P s E o c m, arrivals := s.arrivals ++ arrived P s o c }
      (chains P.dedup o s.dedup 0 ((accepted s c).take j)).1.store
  | .restart => s.next P { log := s.runner.log, arrivals := s.arrivals } s.dedup.store
  | .expire gone => { s with dedup := { s.dedup with store := s.dedup.store.filter fun e => gone.all (· ≠ e) } }

def Sys.start : Sys := { runner := St.start P.breaker }

end

def Sys.lives (s : Sys) : List Life := s.past ++ [{ log := s.runner.log, arrivals := s.arrivals }]

/-! ## What must hold -/

/-- A record that came to the deduplicator under the key was acknowledged by the sink or is in the DLQ. -/
def DeliveredKey (lives : List Life) (k : String) : Prop :=
  ∃ l ∈ lives, ∃ a ∈ l.arrivals, a.key = k ∧ ∃ it, a.outcome = some it ∧ Delivered l.log it

/-- A checkpoint was saved that covers source record `n` of the process. -/
def CoveredBySave (log : List Event) (n : Nat) : Prop :=
  ∃ ctx processed err, .save ctx processed err ∈ log ∧ ∃ it ∈ processed, n ≤ it.seq

/-- **Deduplication loses no key**: what a checkpoint covers is not read again, so a record of its key is delivered. -/
def KeysKept (s : Sys) : Prop :=
  ∀ l ∈ s.lives, ∀ a ∈ l.arrivals, 1 ≤ a.seq → CoveredBySave l.log a.seq → DeliveredKey s.lives a.key

/-- The steps that keep the keys. Without a state store: no batch is given up behind an open breaker, and no
transform behind the deduplicator filters. With one, the process moreover does not end between the storing of a key
and the delivery of its record, and the DLQ takes the records that fail. -/
def Orderly (P : Setup) (s : Sys) : Input → Prop
  | .call E o _ =>
    (∀ n, E.waitExpires n = false) ∧ (∀ i r, o.behind i r ≠ .error .filtered) ∧
      (P.dedup.store ≠ none → P.runner.hasDLQ = true ∧ ∀ n it, E.dlq n it = none)
  | .crash E o c j m =>
    (∀ n, E.waitExpires n = false) ∧ (∀ i r, o.behind i r ≠ .error .filtered) ∧
      (P.dedup.store ≠ none → ∀ a ∈ arrivals P.dedup o s.dedup 0 ((accepted s c).take j),
        ∀ it, a.outcome = some it → Delivered (cutLog P s E o c m) it)
  | .restart | .expire _ => True

/-! ## The chain, record by record -/

section

variable {cfg : Deduplicate.Cfg} {o : Around} {i : Nat} {rec : Record}

/-- A record without a key at the deduplicator leaves no trace there. -/
theorem chain_unkeyed (d : State) (h : keyed cfg o i rec = none) : (chain cfg o d i rec).1 = d := by
  unfold keyed at h
  unfold chain
  cases hb : o.before i rec with
  | error e => rfl
  | ok r =>
    simp only [hb] at h ⊢
    unfold apply
    rw [h]

variable {d : State} {k : String} {d' : State} {r : Record}

theorem chain_passed (hb : o.before i rec = .ok r) (hk : keyOf cfg r = some k)
    (happ : applyKey cfg (o.fault i) d k = (d', none)) : chain cfg o d i rec = (d', o.behind i r) := by
  simp only [chain, hb, apply, hk, happ]

theorem chain_refused {e : TransformErr} (hb : o.before i rec = .ok r)
    (hk : keyOf cfg r = some k) (happ : applyKey cfg (o.fault i) d k = (d', some e)) :
    chain cfg o d i rec = (d', .error e) := by
  simp only [chain, hb, apply, hk, happ]

theorem keyed_eq_some (h : keyed cfg o i rec = some k) :
    ∃ r, o.before i rec = .ok r ∧ keyOf cfg r = some k := by
  unfold keyed at h
  cases hb : o.before i rec with
  | error e => simp [hb] at h
  | ok r => exact ⟨r, rfl, by simpa only [hb] using h⟩

variable {it : Item}

/-- What the deduplicator remembers of a record with a key, and which records it filters. -/
theorem chain_keyed (hbehind : ∀ i r, o.behind i r ≠ .error .filtered) (d : State)
    (h : keyed cfg o i it.record = some k) :
    Remembers cfg k d (chain cfg o d i it.record).1 ∧
      (outcome it (chain cfg o d i it.record).2 = none →
        (chain cfg o d i it.record).1.store = d.store ∧
          (k ∈ d.memory.cacheMap ∨ ∃ ns, cfg.store = some ns ∧ (ns, k) ∈ d.store)) := by
  obtain ⟨r, hb, hk⟩ := keyed_eq_some h
  obtain ⟨hrem, hfil, -⟩ := applyKey_spec cfg (o.fault i) d k
  rcases happ : applyKey cfg (o.fault i) d k with ⟨d', _ | e⟩
  · rw [happ] at hrem
    rw [chain_passed hb hk happ]
    refine ⟨hrem, fun hout => ?_⟩
    -- a record that was let through is filtered behind the deduplicator or not at all
    rcases hres : o.behind i r with e | r'
    · cases e with
      | filtered => exact absurd hres (hbehind i r)
      | failed c => simp [hres, outcome] at hout
    · simp [hres, outcome] at hout
  · rw [happ] at hrem hfil
    rw [chain_refused hb hk happ]
    refine ⟨hrem, fun hout => ?_⟩
    cases e with
    | filtered => exact hfil rfl
    | failed c => simp [outcome] at hout

theorem mem_arrivals_cons {items : List Item} {a : Arrival} :
    a ∈ arrivals cfg o d i (it :: items) ↔
      (∃ k, keyed cfg o i it.record = some k ∧ a = arrival cfg o d i it k) ∨
      a ∈ arrivals cfg o (chain cfg o d i it.record).1 (i + 1) items := by
  rw [arrivals, mem_append, Option.mem_toList, Option.map_eq_some_iff]
  simp only [eq_comm]

/-- The arrivals of a batch are answers to its records. -/
theorem mem_arrivals : ∀ {items : List Item} {d : State} {i : Nat} {a : Arrival},
    a ∈ arrivals cfg o d i items → ∃ (n : Nat) (it : Item) (res : Except TransformErr Record), items[n]? = some it ∧
      (chains cfg o d i items).2[n]? = some res ∧ a.seq = it.seq ∧ a.outcome = outcome it res
  | [], _, _, _, h => by simp [arrivals] at h
  | it :: items, d, i, a, h => by
    rcases mem_arrivals_cons.mp h with ⟨k, -, rfl⟩ | h
    · exact ⟨0, it, _, rfl, rfl, rfl, rfl⟩
    · obtain ⟨n, it', res, hn, hres, hseq, hout⟩ := mem_arrivals h
      exact ⟨n + 1, it', res, hn, hres, hseq, hout⟩

/-- The first records of a batch do not depend on the others. -/
theorem arrivals_take : ∀ {items : List Item} {d : State} {i : Nat} (j : Nat),
    arrivals cfg o d i (items.take j) ⊆ arrivals cfg o d i items
  | [], _, _, _ => by simp
  | it :: items, d, i, 0 => by simp [arrivals]
  | it :: items, d, i, j + 1 => by
    intro a ha
    rw [take_succ_cons, mem_arrivals_cons] at ha
    rw [mem_arrivals_cons]
    exact ha.imp_right fun h => arrivals_take j h

/-- What holds of every record, and of two batches one after the other, holds of a batch. -/
theorem chains_rule {R : State → List Arrival → State → Prop} (hnil : ∀ d, R d [] d)
    (hone : ∀ d i it k, keyed cfg o i it.record = some k → R d [arrival cfg o d i it k] (chain cfg o d i it.record).1)
    (htrans : ∀ {d as d₁ bs d₂}, R d as d₁ → R d₁ bs d₂ → R d (as ++ bs) d₂) :
    ∀ (items : List Item) (d : State) (i : Nat), R d (arrivals cfg o d i items) (chains cfg o d i items).1
  | [], d, _ => hnil d
  | it :: items, d, i => by
    refine htrans ?_ (chains_rule hnil hone htrans items _ _)
    cases hkey : keyed cfg o i it.record with
    | none =>
      rw [chain_unkeyed d hkey]
      exact hnil d
    | some k => exact hone d i it k hkey

/-- The key is remembered, or another record of the batch has it, which goes on. -/
def Known (cfg : Deduplicate.Cfg) (d : State) (as : List Arrival) (k : String) : Prop :=
  k ∈ d.memory.cacheMap ∨ (∃ ns, cfg.store = some ns ∧ (ns, k) ∈ d.store) ∨ ∃ a ∈ as, a.key = k ∧ a.outcome.isSome

/-- **What a batch leaves with the deduplicator**: it remembers keys of the batch, and stores those of records that are
then delivered or fail; and a record it filters has a key that was known. -/
structure Left (cfg : Deduplicate.Cfg) (d : State) (as : List Arrival) (d' : State) : Prop where
  memory : ∀ k ∈ d'.memory.cacheMap, k ∈ d.memory.cacheMap ∨ ∃ a ∈ as, a.key = k
  store : ∀ e ∈ d'.store, e ∈ d.store ∨ ∃ a ∈ as, a.key = e.2 ∧ a.outcome.isSome
  known : ∀ a ∈ as, Known cfg d as a.key

theorem Left.trans {as bs : List Arrival} {d₂ : State} (h : Left cfg d as d') (h₂ : Left cfg d' bs d₂) :
    Left cfg d (as ++ bs) d₂ := by
  have hknown : ∀ a ∈ as, Known cfg d (as ++ bs) a.key := fun a ha =>
    (h.known a ha).imp_right (Or.imp_right fun ⟨a', ha', h⟩ => ⟨a', mem_append_left _ ha', h⟩)
  refine ⟨fun k hk => ?_, fun e he => ?_, fun a ha => ?_⟩
  · rcases h₂.memory k hk with hk | ⟨a, ha, hak⟩
    · exact (h.memory k hk).imp_right fun ⟨a, ha, hak⟩ => ⟨a, mem_append_left _ ha, hak⟩
    · exact .inr ⟨a, mem_append_right _ ha, hak⟩
  · rcases h₂.store e he with he | ⟨a, ha, hak⟩
    · exact (h.store e he).imp_right fun ⟨a, ha, hak⟩ => ⟨a, mem_append_left _ ha, hak⟩
    · exact .inr ⟨a, mem_append_right _ ha, hak⟩
  · rcases mem_append.mp ha with ha | ha
    · exact hknown a ha
    · rcases h₂.known a ha with hk | ⟨ns, hns, hk⟩ | ⟨a', ha', hk⟩
      · rcases h.memory _ hk with hk | ⟨a', ha', hak⟩
        · exact .inl hk
        · exact hak ▸ hknown a' ha'
      · rcases h.store _ hk with hk | ⟨a', ha', hak⟩
        · exact .inr (.inl ⟨ns, hns, hk⟩)
        · exact .inr (.inr ⟨a', mem_append_left _ ha', hak⟩)
      · exact .inr (.inr ⟨a', mem_append_right _ ha', hk⟩)

theorem chains_left (hbehind : ∀ i r, o.behind i r ≠ .error .filtered) :
    ∀ (items : List Item) (d : State) (i : Nat), Left cfg d (arrivals cfg o d i items) (chains cfg o d i items).1 := by
  refine chains_rule (fun d => ⟨fun _ h => .inl h, fun _ h => .inl h, by simp⟩) (fun d i it k hkey => ?_) Left.trans
  obtain ⟨hrem, hout⟩ := chain_keyed hbehind d hkey
  refine ⟨fun k' hk' => ?_, fun e he => ?_, fun a ha => ?_⟩
  · rcases hrem.memory k' hk' with rfl | h
    · exact .inr ⟨_, mem_singleton_self _, rfl⟩
    · exact .inl h
  · cases hres : outcome it (chain cfg o d i it.record).2 with
    | none =>
      rw [(hout hres).1] at he
      exact .inl he
    | some x =>
      exact (hrem.store e he).imp_right fun h => ⟨_, mem_singleton_self _, h.1.symm, by rw [arrival, hres]; rfl⟩
  · obtain rfl := mem_singleton.mp ha
    cases hres : outcome it (chain cfg o d i it.record).2 with
    | none => exact (hout hres).2.imp_right .inl
    | some x => exact .inr (.inr ⟨_, mem_singleton_self _, rfl, by rw [arrival, hres]; rfl⟩)

/-- The store is only added to, under the deduplicator's namespace, and has every key that was let through. -/
theorem chains_store : ∀ (items : List Item) (d : State) (i : Nat),
    (∀ e ∈ d.store, e ∈ (chains cfg o d i items).1.store) ∧
      (∀ e ∈ (chains cfg o d i items).1.store, e ∈ d.store ∨ cfg.store = some e.1) ∧
      ∀ a ∈ arrivals cfg o d i items, a.passed = true → ∀ ns, cfg.store = some ns →
        (ns, a.key) ∈ (chains cfg o d i items).1.store := by
  refine @chains_rule cfg o (fun d as d' => (∀ e ∈ d.store, e ∈ d'.store) ∧
    (∀ e ∈ d'.store, e ∈ d.store ∨ cfg.store = some e.1) ∧
    ∀ a ∈ as, a.passed = true → ∀ ns, cfg.store = some ns → (ns, a.key) ∈ d'.store)
    (fun d => ⟨fun _ h => h, fun _ h => .inl h, by simp⟩) (fun d i it k hkey => ?_) ?_
  · obtain ⟨r, hb, hk⟩ := keyed_eq_some hkey
    obtain ⟨hrem, -, hlet⟩ := applyKey_spec cfg (o.fault i) d k
    have hfst : (chain cfg o d i it.record).1 = (applyKey cfg (o.fault i) d k).1 := by
      rcases happ : applyKey cfg (o.fault i) d k with ⟨d', _ | e⟩
      · rw [chain_passed hb hk happ]
      · rw [chain_refused hb hk happ]
    rw [← hfst] at hrem hlet
    refine ⟨hrem.kept, fun e he => (hrem.store e he).imp_right And.right, fun a ha hpass ns hstore => ?_⟩
    obtain rfl := mem_singleton.mp ha
    exact hlet (Option.isNone_iff_eq_none.mp hpass) ns hstore
  · rintro d as d₁ bs d₂ ⟨hkept, hns, hpass⟩ ⟨hkept₂, hns₂, hpass₂⟩
    refine ⟨fun e he => hkept₂ e (hkept e he), fun e he => (hns₂ e he).elim (hns e) .inr, fun a ha hp ns hstore => ?_⟩
    rcases mem_append.mp ha with ha | ha
    · exact hkept₂ _ (hpass a ha hp ns hstore)
    · exact hpass₂ a ha hp ns hstore

end

/-! ## A call of the runner -/

section

variable (C : Cfg) (E : Env) {it it' : Item} {res : Except TransformErr Record}

theorem applyResult_outcome {s : St}
    (hout : outcome it res = some it') (hd : Durable C E (applyResult C E s it res).1) :
    it' ∈ (applyResult C E s it res).2.transformed ∨ Delivered (applyResult C E s it res).1.log it' := by
  rcases res with (_ | e) | r
  · simp [outcome] at hout
  · cases hout
    exact .inr (handleFailedRecord_delivered C E _ it e hd)
  · cases hout
    exact .inl mem_cons_self

variable (rs : List (Except TransformErr Record))

theorem chainApply_callCfg (t i : Nat) (rec : Record) :
    chainApply (callCfg C rs).transforms t i rec = rs.getD i (.error .filtered) := by
  simp only [chainApply, callCfg, foldlM_cons, foldlM_nil, bind_pure]

/-- Every record goes on as its result says, or is in the DLQ. -/
theorem transformBatch_callCfg (s : St) {batch : List Item} (safe : Bool) (hne : batch ≠ []) :
    ∃ r : St × Stage, transformBatch (callCfg C rs) E s batch safe = (r.1, some r.2) ∧ (Durable C E r.1 →
      ∀ (n : Nat) (it it' : Item) (res : Except TransformErr Record), batch[n]? = some it → rs[n]? = some res →
        outcome it res = some it' → it' ∈ r.2.transformed ∨ Delivered r.1.log it') := by
  have hbatch : hasBatchTransform (callCfg C rs) = false := rfl
  obtain ⟨t, ht⟩ := applyRecordTransforms_eq (callCfg C rs) E s batch
  simp only [chainApply_callCfg] at ht
  refine ⟨applyRecordTransforms (callCfg C rs) E s batch, by simp [transformBatch, hne, hbatch],
    fun hd n it it' res hn hres hout => ?_⟩
  rw [ht] at hd ⊢
  refine enterResults_rule (callCfg C rs) E (Q := fun p log out => ∀ it', outcome p.1 p.2 = some it' →
    it' ∈ out ∨ Delivered log it') (fun hsub hsub' h it' hout => (h it' hout).imp (@hsub' it') (Delivered.mono hsub))
    (fun s it res hd it' hout => applyResult_outcome (callCfg C rs) E hout hd) _ s hd (it, res) ?_ it' hout
  refine mem_iff_getElem?.mpr ⟨n, ?_⟩
  simp [hn, hres]

/-- Up to the sink write the same: a record is a survivor, or in the DLQ. -/
theorem prepare_outcomes (s : St) (batch : List Item) (hd : Durable C E (prepareBatch (callCfg C rs) E s batch).1)
    {n : Nat}
    (hn : (batch.filter (·.record.rejection.isNone))[n]? = some it) (hres : rs[n]? = some res)
    (hout : outcome it res = some it') :
    it' ∈ survivors (callCfg C rs) E s batch ∨ Delivered (prepareBatch (callCfg C rs) E s batch).1.log it' := by
  have hne : batch.filter (·.record.rejection.isNone) ≠ [] := by
    intro hnil
    simp [hnil] at hn
  unfold survivors
  unfold prepareBatch at hd ⊢
  obtain ⟨r, hr, hends⟩ := transformBatch_callCfg C E rs (rejectRecords (callCfg C rs) E s batch).1
    (rejectRecords (callCfg C rs) E s batch).2 hne
  simp only [hr] at hd ⊢
  have hg := gateTransformed_ext (callCfg C rs) E r.1 r.2
    (batch.length - (batch.filter (·.record.rejection.isNone)).length)
  rcases hends (hg.durable _ E hd) n it it' res hn hres hout with h | h
  · exact gateTransformed_delivered (callCfg C rs) E _ _ _ hd it' h
  · exact .inr (h.mono hg.subset)

end

/-! ### Where a call may save -/

/-- From `s₁` on, a call at most saves, under an open fence and up to a record it was handed. -/
structure Ends (s₁ s' : St) : Prop where
  log : s'.log = s₁.log ∨ s₁.checkpointBlocked = false ∧ ∃ ctx processed err evs,
    s'.log = s₁.log ++ .save ctx processed err :: evs ∧ (∀ e ∈ evs, ∃ r, e = .ack processed r) ∧
      ∀ it ∈ processed, it.seq ≤ s₁.handed
  unblocked : s'.checkpointBlocked = false → s₁.checkpointBlocked = false
  handed : s'.handed = s₁.handed
  pending : ∀ it ∈ s'.pendingCheckpointProcessed, it.seq ≤ s₁.handed

/-- The batches of which a checkpoint is pending were handed over. -/
def Handed (s : St) : Prop := ∀ it ∈ s.pendingCheckpointProcessed, it.seq ≤ s.handed

variable {s : St}

theorem Ends.refl (hpend : Handed s) : Ends s s :=
  ⟨.inl rfl, id, rfl, hpend⟩

variable {s' : St} {ctx : Ctx} {processed : List Item}

theorem Ends.saved {ok : Bool} (h : Saved ctx processed s s' ok)
    (hle : ∀ it ∈ processed, it.seq ≤ s.handed) (hpend : Handed s) :
    Ends s s' := by
  obtain ⟨err, evs, hlog, hacks⟩ := h.log
  refine ⟨.inr ⟨h.unblocked, ctx, processed, err, evs, hlog, hacks, hle⟩, fun _ => h.unblocked, h.handed, ?_⟩
  rw [h.processed]
  exact hpend

theorem Ext.pending (h : Ext s s') (hpend : Handed s) : Handed s' := by
  rw [Handed, h.processed, h.handed]
  exact hpend

/-- The saves of a call, and those before it, are up to a record that was handed over. -/
theorem Ends.saves {s1 : St} (h : Ends s1 s') (hgrew : Trace.Grew (fun e => e.isCheckpoint = false) s.log s1.log)
    (hold : ∀ ctx processed err, .save ctx processed err ∈ s.log → ∀ it ∈ processed, it.seq ≤ s.handed)
    (hle : s.handed ≤ s1.handed) {err : Option Err}
    (hsave : .save ctx processed err ∈ s'.log) : ∀ it ∈ processed, it.seq ≤ s'.handed := by
  intro it hit
  rw [h.handed]
  have hbefore : .save ctx processed err ∈ s1.log → it.seq ≤ s1.handed := by
    intro hmem
    obtain ⟨evs, hevs, hno⟩ := hgrew
    rw [hevs] at hmem
    rcases mem_append.mp hmem with hmem | hmem
    · exact (hold ctx processed err hmem it hit).trans hle
    · exact absurd (hno _ hmem) (by simp [Event.isCheckpoint])
  rcases h.log with hlog | ⟨-, ctx', processed', err', evs, hlog, hacks, hnew⟩
  · rw [hlog] at hsave
    exact hbefore hsave
  · rw [hlog] at hsave
    rcases mem_append.mp hsave with hmem | hmem
    · exact hbefore hmem
    · rcases mem_cons.mp hmem with heq | hmem
      · obtain ⟨-, rfl, -⟩ := Event.save.inj heq
        exact hnew it hit
      · obtain ⟨r, hr⟩ := hacks _ hmem
        cases hr

section

variable (C : Cfg) (E : Env)

theorem flush_ends (ctx : Ctx) (force : Bool) (s : St)
    (hpend : Handed s) :
    ∃ s1, Ext s s1 ∧ Ends s1 (flushPendingCheckpoint C E ctx force s) := by
  rcases flushPendingCheckpoint_cases C E ctx force s with hext | ⟨s1, ok, hs, heq⟩
  · exact ⟨_, hext, .refl (Ext.pending hext hpend)⟩
  · have hends := Ends.saved hs hpend hpend
    refine ⟨s, .refl s, ?_⟩
    rw [heq]
    split
    · exact ⟨hends.log, hends.unblocked, hends.handed, by simp⟩
    · exact hends

theorem writeBatch_ends (runCtx : Ctx) (s : St) (batch : List Item)
    (hpend : Handed s) (hle : ∀ it ∈ batch, it.seq ≤ s.handed) :
    ∃ s1, Ext (prepareBatch C E s batch).1 s1 ∧
      ((∀ n, E.waitExpires n = false) → Durable C E s1 → ∀ it ∈ survivors C E s batch, Delivered s1.log it) ∧
      Ends s1 (writeBatch C E runCtx s batch) := by
  obtain ⟨s1, hext, hdel, hcases⟩ := writeBatch_spec C E (fun _ => id) runCtx s batch fun _ _ => trivial
  have hall : Ext s s1 := (prepareBatch_ext C E s batch).trans hext
  have hpend1 := Ext.pending hall hpend
  have hle1 : ∀ it ∈ batch, it.seq ≤ s1.handed := by
    rw [hall.handed]
    exact hle
  -- events after `s1` other than a save move the point behind them
  have hlater : ∀ {s2}, Ext s1 s2 → (∀ n, E.waitExpires n = false) → Durable C E s2 →
      ∀ it ∈ survivors C E s batch, Delivered s2.log it :=
    fun h hw hd it hit => (hdel hw (h.durable C E hd) it hit).mono h.subset
  rcases hcases with heq | ⟨-, heq⟩ | ⟨-, transformed, heq⟩
  · rw [heq]
    exact ⟨s1, hext, hdel, .refl hpend1⟩
  · rw [heq]
    rcases saveCommittedCheckpoint_cases C E .background s1 batch [] with ⟨h, -⟩ | h
    · exact ⟨_, hext.trans h, hlater h, .refl (Ext.pending h hpend1)⟩
    · exact ⟨s1, hext, hdel, .saved h hle1 hpend1⟩
  · have happend : Handed (appendPending s1 batch transformed) := by
      intro it hit
      rcases mem_append.mp hit with hit | hit
      · exact hpend1 it hit
      · exact hle1 it hit
    rcases heq with heq | heq
    · refine ⟨s1, hext, hdel, ?_⟩
      rw [heq]
      exact ⟨.inl rfl, id, rfl, happend⟩
    · obtain ⟨s2, h, hends⟩ := flush_ends C E .background true (appendPending s1 batch transformed) happend
      have h' : Ext s1 { s2 with
          pendingCheckpointProcessed := s1.pendingCheckpointProcessed
          pendingCheckpointCommitted := s1.pendingCheckpointCommitted } :=
        ⟨h.log, h.blocked, rfl, rfl, h.handed⟩
      refine ⟨_, hext.trans h', hlater h', ?_⟩
      rw [heq]
      exact ⟨hends.log, hends.unblocked, hends.handed, hends.pending⟩

end

section

variable (P : Setup) (s : Sys) (c : Call)

theorem enter_log : (enter s.runner c).1.log = s.runner.log ++ [.call] := by
  cases c <;> rfl

theorem enter_blocked : (enter s.runner c).1.checkpointBlocked = s.runner.checkpointBlocked := by
  cases c <;> rfl

theorem enter_pending :
    (enter s.runner c).1.pendingCheckpointProcessed = s.runner.pendingCheckpointProcessed := by
  cases c <;> rfl

theorem handed_le_enter : s.runner.handed ≤ (enter s.runner c).1.handed := by
  cases c <;> simp [enter, St.emit]

/-- The records of a call that have a place in the source are new. -/
theorem enter_seq {it : Item} (h : it ∈ (enter s.runner c).2) :
    it.seq ≤ (enter s.runner c).1.handed ∧ (1 ≤ it.seq → s.runner.handed < it.seq) := by
  cases c with
  | batch recs | lastBatch recs =>
    obtain ⟨hlt, hle⟩ := mem_number h
    exact ⟨hle, fun _ => hlt⟩
  | flushed recs =>
    obtain ⟨r, -, rfl⟩ := mem_map.mp h
    exact ⟨Nat.zero_le _, fun h => absurd h (by simp)⟩
  | tick => simp [enter] at h
  | final => simp [enter] at h

theorem arrived_seq (o : Around) (c : Call) {a : Arrival} (h : a ∈ arrived P s o c) :
    1 ≤ a.seq → s.runner.handed < a.seq := by
  obtain ⟨n, it, res, hn, -, hseq, -⟩ := mem_arrivals h
  rw [hseq]
  exact (enter_seq s c (mem_filter.mp (mem_of_getElem? hn)).1).2

/-- A call up to the point where it may save. -/
structure Reached (E : Env) (o : Around) (c : Call) (s₁ : St) : Prop where
  grew : Trace.Grew (fun e => e.isCheckpoint = false) s.runner.log s₁.log
  blocked : s.runner.checkpointBlocked = true → s₁.checkpointBlocked = true
  handed : s.runner.handed ≤ s₁.handed
  delivered : (∀ n, E.waitExpires n = false) → Durable P.runner E s₁ →
    ∀ a ∈ arrived P s o c, ∀ it, a.outcome = some it → Delivered s₁.log it

theorem Reached.of_ext {E : Env} {o : Around} {c : Call} {s1 : St} (h : Ext (enter s.runner c).1 s1)
    (hdel : (∀ n, E.waitExpires n = false) → Durable P.runner E s1 →
      ∀ a ∈ arrived P s o c, ∀ it, a.outcome = some it → Delivered s1.log it) : Reached P s E o c s1 := by
  refine ⟨?_, fun hb => h.blocked (by rw [enter_blocked]; exact hb), ?_, hdel⟩
  · refine Trace.Grew.trans ?_ h.quiet
    rw [enter_log]
    exact Trace.Grew.snoc _ rfl
  · rw [h.handed]
    exact handed_le_enter s c

/-- **What a call does**: it delivers what came through the chain, and then at most saves. -/
theorem called_spec (E : Env) (o : Around) (c : Call)
    (hpend : Handed s.runner) :
    ∃ s1, Reached P s E o c s1 ∧ Ends s1 (called P s E o c) := by
  have hpend0 : Handed (enter s.runner c).1 := by
    rw [Handed, enter_pending]
    exact fun it hit => (hpend it hit).trans (handed_le_enter s c)
  -- the two calls without a batch
  have hflush : ∀ ctx force, arrived P s o c = [] → ∃ s1, Reached P s E o c s1 ∧ Ends s1 (flushPendingCheckpoint
      (callCfg P.runner (chains P.dedup o s.dedup 0 (accepted s c)).2) E ctx force (enter s.runner c).1) := by
    intro ctx force hnil
    obtain ⟨s1, hext, hends⟩ := flush_ends _ E ctx force _ hpend0
    exact ⟨s1, .of_ext P s hext (by simp [hnil]), hends⟩
  have hwrite : ∀ ctx, ∃ s1, Reached P s E o c s1 ∧ Ends s1 (writeBatch
      (callCfg P.runner (chains P.dedup o s.dedup 0 (accepted s c)).2) E ctx (enter s.runner c).1
        (enter s.runner c).2) := by
    intro ctx
    obtain ⟨s1, hext, hdel, hends⟩ := writeBatch_ends _ E ctx _ _ hpend0 fun it hit => (enter_seq s c hit).1
    refine ⟨s1, .of_ext P s ((prepareBatch_ext _ E _ _).trans hext) fun hw hd a ha it hout => ?_, hends⟩
    obtain ⟨n, x, res, hn, hres, -, hx⟩ := mem_arrivals ha
    rcases prepare_outcomes P.runner E _ _ _ (hext.durable _ E hd) hn hres (hx.symm.trans hout) with h | h
    · exact hdel hw hd it h
    · exact h.mono hext.subset
  cases c with
  | batch recs => exact hwrite P.runCtx
  | lastBatch recs => exact hwrite .background
  | flushed recs => exact hwrite .background
  | tick => exact hflush P.runCtx false rfl
  | final => exact hflush .background true rfl

end

/-! ## Runs -/

variable {k : String}

theorem DeliveredKey.mono {lives lives' : List Life}
    (h : ∀ l ∈ lives, ∃ l' ∈ lives', l.log ⊆ l'.log ∧ l.arrivals ⊆ l'.arrivals) :
    DeliveredKey lives k → DeliveredKey lives' k := by
  rintro ⟨l, hl, a, ha, hk, it, hout, hdel⟩
  obtain ⟨l', hl', hlog, harr⟩ := h l hl
  exact ⟨l', hl', a, harr ha, hk, it, hout, hdel.mono hlog⟩

/-- The process that is running goes on, or has ended, with more in its log. -/
theorem DeliveredKey.grow {s : Sys} {log : List Event} {as : List Arrival} {more : List Life}
    (hlog : s.runner.log ⊆ log) (has : s.arrivals ⊆ as) (h : DeliveredKey s.lives k) :
    DeliveredKey (s.past ++ { log, arrivals := as } :: more) k := by
  refine h.mono fun l hl => ?_
  rcases mem_append.mp hl with hl | hl
  · exact ⟨l, mem_append_left _ hl, List.Subset.refl _, List.Subset.refl _⟩
  · obtain rfl := mem_singleton.mp hl
    exact ⟨_, mem_append_right _ mem_cons_self, hlog, has⟩

structure Kept (P : Setup) (s : Sys) : Prop where
  saves : ∀ ctx processed err, .save ctx processed err ∈ s.runner.log → ∀ it ∈ processed, it.seq ≤ s.runner.handed
  pending : ∀ it ∈ s.runner.pendingCheckpointProcessed, it.seq ≤ s.runner.handed
  delivered : s.runner.checkpointBlocked = false → ∀ a ∈ s.arrivals, DeliveredKey s.lives a.key
  memory : ∀ k ∈ s.dedup.memory.cacheMap, ∃ a ∈ s.arrivals, a.key = k
  store : P.dedup.store ≠ none → ∀ e ∈ s.dedup.store, DeliveredKey s.lives e.2
  kept : KeysKept s

section

variable {P : Setup} {s : Sys} {E : Env} {o : Around} {c : Call} {s1 : St} {log : List Event}

/-- **At the point where a call may save, the keys of all records so far are delivered.** -/
theorem Kept.all_delivered (h : Kept P s) (hr : Reached P s E o c s1) (hw : ∀ n, E.waitExpires n = false)
    (hbehind : ∀ i r, o.behind i r ≠ .error .filtered) (hb : s1.checkpointBlocked = false) (hlog : s1.log ⊆ log)
    (more : List Life) :
    ∀ a ∈ s.arrivals ++ arrived P s o c,
      DeliveredKey (s.past ++ { log, arrivals := s.arrivals ++ arrived P s o c } :: more) a.key := by
  have hsub : s.runner.log ⊆ log := List.Subset.trans hr.grew.grows.subset hlog
  have hopen : s.runner.checkpointBlocked = false := by
    cases hs : s.runner.checkpointBlocked with
    | false => rfl
    | true => rw [hr.blocked hs] at hb; exact hb
  have hold : ∀ a ∈ s.arrivals,
      DeliveredKey (s.past ++ { log, arrivals := s.arrivals ++ arrived P s o c } :: more) a.key :=
    fun a ha => (h.delivered hopen a ha).grow hsub (subset_append_left _ _)
  have hnew : ∀ a ∈ arrived P s o c, a.outcome.isSome →
      DeliveredKey (s.past ++ { log, arrivals := s.arrivals ++ arrived P s o c } :: more) a.key := by
    intro a ha hsome
    obtain ⟨it, hit⟩ := Option.isSome_iff_exists.mp hsome
    exact ⟨_, mem_append_right _ mem_cons_self, a, mem_append_right _ ha, rfl, it, hit,
      (hr.delivered hw (.inl hb) a ha it hit).mono hlog⟩
  intro a ha
  rcases mem_append.mp ha with ha | ha
  · exact hold a ha
  · rcases (chains_left hbehind _ _ _).known a ha with hmem | ⟨ns, hns, hin⟩ | ⟨a', ha', hkey, hsome⟩
    · obtain ⟨a', ha', hkey⟩ := h.memory _ hmem
      rw [← hkey]
      exact hold a' ha'
    · have hstore := h.store (by simp [hns]) _ hin
      exact hstore.grow hsub (subset_append_left _ _)
    · rw [← hkey]
      exact hnew a' ha' hsome

/-- **What a checkpoint covers after a call, or after a part of it**, is delivered. -/
theorem Kept.covered (h : Kept P s) (hr : Reached P s E o c s1) (hends : Ends s1 (called P s E o c))
    (hw : ∀ n, E.waitExpires n = false) (hbehind : ∀ i r, o.behind i r ≠ .error .filtered)
    (hgrows : s.runner.log <+: log) (hcut : log <+: (called P s E o c).log) (more : List Life) {a : Arrival}
    (ha : a ∈ s.arrivals ++ arrived P s o c) (hpos : 1 ≤ a.seq) (hcov : CoveredBySave log a.seq) :
    DeliveredKey (s.past ++ { log, arrivals := s.arrivals ++ arrived P s o c } :: more) a.key := by
  obtain ⟨ctx, processed, err, hsave, it, hit, hle⟩ := hcov
  by_cases hold : .save ctx processed err ∈ s.runner.log
  · -- an earlier checkpoint covers earlier records only
    rcases mem_append.mp ha with ha | ha
    · have hkept := h.kept _ (mem_append_right _ (mem_singleton.mpr rfl)) a ha hpos
        ⟨ctx, processed, err, hold, it, hit, hle⟩
      exact hkept.grow hgrows.subset (subset_append_left _ _)
    · have hlt := arrived_seq P s o c ha hpos
      have hle' := h.saves ctx processed err hold it hit
      omega
  · -- a new one is behind the point where everything is delivered
    have hnot : .save ctx processed err ∉ s1.log := by
      obtain ⟨evs, hevs, hno⟩ := hr.grew
      rw [hevs, mem_append, not_or]
      exact ⟨hold, fun hmem => absurd (hno _ hmem) (by simp [Event.isCheckpoint])⟩
    rcases hends.log with hsame | ⟨hopen, _, _, _, _, hlog, -⟩
    · rw [hsame] at hcut
      exact absurd (hcut.subset hsave) hnot
    · have hpre : s1.log <+: (called P s E o c).log := by
        rw [hlog]
        exact prefix_append _ _
      rcases prefix_or_prefix_of_prefix hpre hcut with hlater | hearlier
      · exact h.all_delivered hr hw hbehind hopen hlater.subset more a ha
      · exact absurd (hearlier.subset hsave) hnot

theorem Ends.log_grows {s' : St} (h : Ends s1 s') : s1.log <+: s'.log := by
  rcases h.log with hlog | ⟨-, _, _, _, _, hlog, -⟩
  · rw [hlog]
  · rw [hlog]
    exact prefix_append _ _

variable {j : Nat}

/-- What is in the state store after some records of a call, if those that came through are delivered. -/
theorem Kept.stored (h : Kept P s) (hbehind : ∀ i r, o.behind i r ≠ .error .filtered)
    (hlog : s.runner.log ⊆ log) (more : List Life) (hstore : P.dedup.store ≠ none)
    (hdel : ∀ a ∈ arrivals P.dedup o s.dedup 0 ((accepted s c).take j), ∀ it, a.outcome = some it → Delivered log it) :
    ∀ e ∈ (chains P.dedup o s.dedup 0 ((accepted s c).take j)).1.store,
      DeliveredKey (s.past ++ { log, arrivals := s.arrivals ++ arrived P s o c } :: more) e.2 := by
  intro e he
  rcases (chains_left hbehind _ _ _).store e he with he | ⟨a, ha, hkey, hsome⟩
  · exact (h.store hstore e he).grow hlog (subset_append_left _ _)
  · obtain ⟨it, hit⟩ := Option.isSome_iff_exists.mp hsome
    exact ⟨_, mem_append_right _ mem_cons_self, a, mem_append_right _ (arrivals_take j ha), hkey, it, hit,
      hdel a ha it hit⟩

/-- The lives before the running one keep their keys. -/
theorem Kept.past (h : Kept P s) {as : List Arrival} {more : List Life} (hlog : s.runner.log ⊆ log)
    (has : s.arrivals ⊆ as) :
    ∀ l ∈ s.past, ∀ a ∈ l.arrivals, 1 ≤ a.seq → CoveredBySave l.log a.seq →
      DeliveredKey (s.past ++ { log, arrivals := as } :: more) a.key :=
  fun l hl a ha hpos hcov => (h.kept l (mem_append_left _ hl) a ha hpos hcov).grow hlog has

theorem Kept.call (h : Kept P s) (hok : Orderly P s (.call E o c)) : Kept P (s.step P (.call E o c)) := by
  obtain ⟨hw, hbehind, hdlq⟩ := hok
  obtain ⟨s1, hr, hends⟩ := called_spec P s E o c h.pending
  have hgrows : s.runner.log <+: (called P s E o c).log := hr.grew.grows.trans hends.log_grows
  refine ⟨fun ctx processed err hsave it hit => ?_, fun it hit => ?_, fun hb a ha => ?_, fun k hk => ?_,
    fun hstore e he => ?_, fun l hl a ha hpos hcov => ?_⟩
  · exact hends.saves hr.grew h.saves hr.handed hsave it hit
  · rw [Sys.step, hends.handed]
    exact hends.pending it hit
  · exact h.all_delivered hr hw hbehind (hends.unblocked hb) hends.log_grows.subset [] a ha
  · rcases (chains_left hbehind _ _ _).memory k hk with hk | ⟨a, ha, hkey⟩
    · obtain ⟨a, ha, hkey⟩ := h.memory k hk
      exact ⟨a, mem_append_left _ ha, hkey⟩
    · exact ⟨a, mem_append_right _ ha, hkey⟩
  · refine h.stored hbehind hgrows.subset [] hstore (j := (accepted s c).length) ?_ e ?_
    · rw [take_length]
      exact fun a ha it hit => (hr.delivered hw (.inr (hdlq hstore)) a ha it hit).mono hends.log_grows.subset
    · rw [take_length]
      exact he
  · rcases mem_append.mp hl with hl | hl
    · exact h.past hgrows.subset (subset_append_left _ _) l hl a ha hpos hcov
    · obtain rfl := mem_singleton.mp hl
      exact h.covered hr hends hw hbehind hgrows (prefix_refl _) [] ha hpos hcov

/-- A process that starts has nothing in its memory and in its log. -/
theorem kept_next {life : Life} {store : List (Namespace × String)}
    (hstore : P.dedup.store ≠ none → ∀ e ∈ store, DeliveredKey (s.next P life store).lives e.2)
    (hkept : ∀ l ∈ s.past ++ [life], ∀ a ∈ l.arrivals, 1 ≤ a.seq → CoveredBySave l.log a.seq →
      DeliveredKey (s.next P life store).lives a.key) :
    Kept P (s.next P life store) := by
  refine ⟨by simp [Sys.next, St.start], by simp [Sys.next, St.start], fun _ a ha => absurd ha not_mem_nil,
    fun k hk => absurd hk not_mem_nil, hstore, fun l hl a ha => ?_⟩
  rcases mem_append.mp hl with hl | hl
  · exact hkept l hl a ha
  · obtain rfl := mem_singleton.mp hl
    cases ha

theorem next_lives (life : Life) (store : List (Namespace × String)) :
    (s.next P life store).lives = s.past ++ life :: [{ log := [], arrivals := [] }] := by
  simp [Sys.next, Sys.lives, St.start]

theorem Kept.crash {m : Nat} (h : Kept P s) (hok : Orderly P s (.crash E o c j m)) :
    Kept P (s.step P (.crash E o c j m)) := by
  obtain ⟨hw, hbehind, hcut⟩ := hok
  obtain ⟨s1, hr, hends⟩ := called_spec P s E o c h.pending
  have hgrows : s.runner.log <+: cutLog P s E o c m := prefix_append _ _
  have hwhole : cutLog P s E o c m <+: (called P s E o c).log := by
    obtain ⟨evs, hevs⟩ := hr.grew.grows.trans hends.log_grows
    rw [cutLog, ← hevs, Trace.added, drop_left, prefix_append_right_inj]
    exact take_prefix _ _
  refine kept_next (fun hstore e he => ?_) fun l hl a ha hpos hcov => ?_
  · rw [next_lives]
    exact h.stored hbehind hgrows.subset _ hstore (hcut hstore) e he
  · rw [next_lives]
    rcases mem_append.mp hl with hl | hl
    · exact h.past hgrows.subset (subset_append_left _ _) l hl a ha hpos hcov
    · obtain rfl := mem_singleton.mp hl
      exact h.covered hr hends hw hbehind hgrows hwhole _ ha hpos hcov

theorem Kept.restart (h : Kept P s) : Kept P (s.step P .restart) := by
  refine kept_next (fun hstore e he => ?_) fun l hl a ha hpos hcov => ?_
  · rw [next_lives]
    exact (h.store hstore e he).grow (List.Subset.refl _) (List.Subset.refl _)
  · rw [next_lives]
    exact (h.kept l hl a ha hpos hcov).grow (List.Subset.refl _) (List.Subset.refl _)

/-- What expires cannot filter a record any more. -/
theorem Kept.expire (h : Kept P s) (gone : List (Namespace × String)) : Kept P (s.step P (.expire gone)) :=
  ⟨h.saves, h.pending, h.delivered, h.memory, fun hstore e he => h.store hstore e (mem_filter.mp he).1, h.kept⟩

theorem Kept.step {i : Input} (h : Kept P s) (hok : Orderly P s i) : Kept P (s.step P i) := by
  cases i with
  | call E o c => exact h.call hok
  | crash E o c j m => exact h.crash hok
  | restart => exact h.restart
  | expire gone => exact h.expire gone

/-- **In every run whose steps are orderly, deduplication loses no key.** -/
theorem keysKept_of_orderly (P : Setup) (inputs : List Input)
    (hok : Trace.Steps (Orderly P) (Sys.step P) (Sys.start P) inputs) :
    KeysKept (Trace.run (Sys.step P) (Sys.start P) inputs) := by
  have hstart : Kept P (Sys.start P) := by
    refine ⟨by simp [Sys.start, St.start], by simp [Sys.start, St.start], fun _ a ha => absurd ha not_mem_nil,
      fun k hk => absurd hk not_mem_nil, fun _ e he => absurd he not_mem_nil, fun l hl a ha => ?_⟩
    obtain rfl := mem_singleton.mp hl
    cases ha
  exact (Trace.run_invariant_of (Kept P) (fun s i hok h => h.step hok) hstart hok).kept

end

end OpenEtl.Pipeline.Dedup
