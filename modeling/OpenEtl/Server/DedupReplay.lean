import OpenEtl.Pipeline.DedupRun
import OpenEtl.Server.DlqReplay

/-!
# Dead letters of a pipeline with a deduplicator (`server/server.go:4864-4917`)

A replay builds the transforms again, with an empty memory and the same state store. The runner names the entries of a
transform after the pipeline and the transform (pipeline.go:309); a replay builds the transform from the options as
they stand in the spec (:4865), so its entries are under the same names only if the options give them.
-/

namespace OpenEtl.Server.Dedup

open Pipeline (Call)
open Pipeline.Dedup (Input KeysKept Orderly accepted arrived chain chain_refused keyed_eq_some)
open Pipeline.Dedup (Around Arrival Sys Setup)
open List Deduplicate Trace

/-- The `deduplicate` transform at place `index` of pipeline `name`, as the runner builds it. -/
def running (name : String) (index : Nat) (c : Config) : Except String Cfg :=
  newDeduplicatorTransform
    (injectStateDefaults name (transformStateNodeID index "deduplicate") c)

/-- The same transform as a replay builds it. -/
def replaying (c : Config) : Except String Cfg := newDeduplicatorTransform c

def runningNamespace (name : String) (index : Nat) (c : Config) : Namespace :=
  namespaceOf (injectStateDefaults name (transformStateNodeID index "deduplicate") c)

variable {cfg : Cfg}

theorem build_store {c : Config} (h : newDeduplicatorTransform c = .ok cfg) :
    cfg.store = if c.stateBackend ≠ "" then some (namespaceOf c) else none := by
  unfold newDeduplicatorTransform at h
  split at h
  · cases h
  · split at h
    · cases h
    · cases h
      rfl

theorem inject_backend (name node : String) (c : Config) :
    (injectStateDefaults name node c).stateBackend = c.stateBackend := by
  unfold injectStateDefaults
  split <;> rfl

/-- The chain of a replay: the transforms were just built. -/
def replaySpec (cfg : Cfg) (o : Around) (store : List (Namespace × String)) (retry : Retry.Config) :
    LinearSpec :=
  { transforms := [{ apply := fun _ _ r => (chain cfg o { store } 0 r).2, stateful := true }], retry }

/-- The deduplicator of a replay takes the record for a duplicate. -/
def TakenForDuplicate (cfg : Cfg) (o : Around) (store : List (Namespace × String)) (rec : Record) : Prop :=
  ∃ k, Pipeline.Dedup.keyed cfg o 0 rec = some k ∧
    (applyKey cfg (o.fault 0) { store } k).2 = some .filtered

instance (cfg : Cfg) (o : Around) (store : List (Namespace × String)) (rec : Record) :
    Decidable (TakenForDuplicate cfg o store rec) :=
  match h : Pipeline.Dedup.keyed cfg o 0 rec with
  | none => .isFalse fun ⟨_, hk, _⟩ => by simp [h] at hk
  | some k =>
    if hd : (applyKey cfg (o.fault 0) { store } k).2 = some .filtered then .isTrue ⟨k, h, hd⟩
    else .isFalse fun ⟨k', hk', hd'⟩ => hd (Option.some.inj (h.symm.trans hk') ▸ hd')

/-- **The replay of a duplicate fails** with the row where it is. -/
theorem replayRow_taken {E : Env} {o : Around} {store : List (Namespace × String)} {retry : Retry.Config} {i : Nat}
    {item prepared : DeadLetter} {log log' : Log} (hprep : prepareLinearDLQReplay E {} i item log = (log', .ok prepared))
    (h : TakenForDuplicate cfg o store prepared.record) :
    replayRow E (replaySpec cfg o store retry) i item log =
      (markDLQReplayFailure E i prepared { msg := "transform dlq record: record filtered" } log',
        some { msg := "transform dlq record: record filtered" }) := by
  obtain ⟨k, hkey, hdup⟩ := h
  obtain ⟨r, hb, hk⟩ := keyed_eq_some hkey
  rcases happ : applyKey cfg (o.fault 0) { store } k with ⟨d, e⟩
  rw [happ] at hdup
  subst hdup
  have hchain := chain_refused hb hk happ
  unfold replayRow
  simp only [replaySpec, hprep, chainApply, foldlM_cons, hchain]
  rfl

/-- After a delivery that the deduplicator let through, a replay of the record under the same key is taken for a
duplicate exactly if its entries are where the runner's are, or an earlier replay left one. -/
theorem taken_iff {name : String} {index : Nat} {c : Config} {P : Setup} (hrun : running name index c = .ok P.dedup)
    (hreplay : replaying c = .ok cfg) {s : Sys} {E : Pipeline.Env} {o o' : Around} {call : Call} {a : Arrival}
    {rec : Record} (ha : a ∈ arrived P s o call) (hpassed : a.passed = true)
    (hkey : Pipeline.Dedup.keyed cfg o' 0 rec = some a.key) (hfault : o'.fault 0 = {}) :
    TakenForDuplicate cfg o' (s.step P (.call E o call)).dedup.store rec ↔
      c.stateBackend ≠ "" ∧ (namespaceOf c = runningNamespace name index c ∨
        (namespaceOf c, a.key) ∈ s.dedup.store) := by
  have hstore := build_store hreplay
  have hstoreP := build_store hrun
  rw [inject_backend] at hstoreP
  have htaken : TakenForDuplicate cfg o' (s.step P (.call E o call)).dedup.store rec ↔
      ∃ ns, cfg.store = some ns ∧ (ns, a.key) ∈ (s.step P (.call E o call)).dedup.store := by
    rw [← applyKey_fresh, ← hfault]
    constructor
    · rintro ⟨k, hk, hdup⟩
      cases hk.symm.trans hkey
      exact hdup
    · exact fun hdup => ⟨a.key, hkey, hdup⟩
  rw [htaken, hstore]
  by_cases hback : c.stateBackend ≠ ""
  · rw [if_pos hback] at hstoreP ⊢
    obtain ⟨hkept, hns, hlet⟩ := @Pipeline.Dedup.chains_store P.dedup o (accepted s call) s.dedup 0
    simp only [Option.some.injEq, exists_eq_left', ne_eq, hback, not_false_eq_true, true_and]
    constructor
    · intro hin
      rcases hns _ hin with hin | hin
      · exact .inr hin
      · rw [hstoreP] at hin
        exact .inl (Option.some.inj hin).symm
    · rintro (heq | hin)
      · rw [heq]
        exact hlet a ha hpassed _ hstoreP
      · exact hkept _ hin
  · simp [not_not.mp hback]

/-- **Deduplication loses no key in an orderly run. A record that failed behind the deduplicator can be replayed
exactly if there is no state store**, or the replay keeps its entries elsewhere and has none for the key yet. -/
theorem dedup_keeps_keys (name : String) (index : Nat) (c : Config) (P : Setup) (cfg : Cfg)
    (hrun : running name index c = .ok P.dedup) (hreplay : replaying c = .ok cfg) :
    (∀ inputs, Steps (Orderly P) (Sys.step P) (Sys.start P) inputs →
        KeysKept (run (Sys.step P) (Sys.start P) inputs)) ∧
      ∀ (s : Sys) (E : Pipeline.Env) (o o' : Around) (call : Call) (a : Arrival) (rec : Record),
        a ∈ arrived P s o call → a.passed = true →
        Pipeline.Dedup.keyed cfg o' 0 rec = some a.key → o'.fault 0 = {} →
          (¬TakenForDuplicate cfg o' (s.step P (.call E o call)).dedup.store rec ↔
            c.stateBackend = "" ∨ namespaceOf c ≠ runningNamespace name index c ∧
              (namespaceOf c, a.key) ∉ s.dedup.store) := by
  refine ⟨Pipeline.Dedup.keysKept_of_orderly P, ?_⟩
  intro s E o o' call a rec ha hpassed hkey hfault
  rw [taken_iff hrun hreplay ha hpassed hkey hfault, not_and_or, not_not, not_or]

/-! ## A key that outlives its record -/

def row (n : Int) : Record := { data := [("id", .int64 n)] }

/-- A deduplicator with a store, and names of its own or not. -/
def stored (pipeline node : String) : Config :=
  { keys := ["id"], stateBackend := "redis", statePipeline := pipeline, stateNode := node }

theorem id_ne : ["id"] ≠ [] := cons_ne_nil _ _

def storedSetup (ns : Namespace) : Setup :=
  { runner := {}, dedup := { keys := ["id"], keys_ne := id_ne, store := some ns } }

/-- The process ends when the key is stored and the sink has not been called. -/
def endsBeforeWrite : List Input :=
  [.crash {} {} (.batch [row 1]) 1 2, .call {} {} (.batch [row 1])]

/-- The sink refuses every record. -/
def refusing : Pipeline.Env := { write := fun _ _ => { err := some Pipeline.badRow } }

/-- Without a store the second process delivers the record. -/
def memorySetup : Setup := { runner := {}, dedup := { keys := ["id"], keys_ne := id_ne } }

theorem dedup_keeps_keys_in_memory :
    KeysKept (run (Sys.step memorySetup) (Sys.start memorySetup) endsBeforeWrite) ∧
      ¬TakenForDuplicate memorySetup.dedup {}
        ((Sys.start memorySetup).step memorySetup (.call refusing {} (.batch [row 1]))).dedup.store (row 1) := by
  obtain ⟨hkept, hreplay⟩ := dedup_keeps_keys "orders" 0 { keys := ["id"] } memorySetup memorySetup.dedup rfl rfl
  refine ⟨hkept _ ⟨⟨fun _ => rfl, fun _ _ => nofun, absurd rfl⟩,
    ⟨fun _ => rfl, fun _ _ => nofun, absurd rfl⟩, trivial⟩, ?_⟩
  exact (hreplay _ refusing {} {} (.batch [row 1]) _ (row 1) mem_cons_self rfl rfl rfl).mpr (.inl rfl)

theorem endsBeforeWrite_lives :
    (run (Sys.step (storedSetup ("orders", "deduplicate-0")))
        (Sys.start (storedSetup ("orders", "deduplicate-0"))) endsBeforeWrite).lives =
      [{ log := [.call, .routed ⟨1, row 1⟩ (.output ⟨1, row 1⟩)]
         arrivals := [{ seq := 1, key := "1", passed := true, outcome := some ⟨1, row 1⟩ }] },
        { log := [.call, .routed ⟨1, row 1⟩ .filtered, .save .background [⟨1, row 1⟩] none]
          arrivals := [{ seq := 1, key := "1", passed := false, outcome := none }] }] := by
  decide

/-- The record that is read again is a duplicate of itself: it is covered by a checkpoint and nowhere. -/
theorem endsBeforeWrite_loses : ¬KeysKept
    (run (Sys.step (storedSetup ("orders", "deduplicate-0")))
      (Sys.start (storedSetup ("orders", "deduplicate-0"))) endsBeforeWrite) := by
  intro h
  unfold KeysKept at h
  rw [endsBeforeWrite_lives] at h
  obtain ⟨l, hl, a, ha, -, it, hout, hdel⟩ := h _ (mem_cons_of_mem _ mem_cons_self) _ mem_cons_self
    le_rfl ⟨.background, [⟨1, row 1⟩], none, by simp, ⟨1, row 1⟩, mem_cons_self, le_rfl⟩
  simp only [mem_cons, not_mem_nil, or_false] at hl
  rcases hl with rfl | rfl
  · simp [Pipeline.Delivered] at hdel
  · simp only [mem_singleton] at ha
    simp [ha] at hout

/-- A key is stored before its record is written, so the record is filtered when it comes again: from the source after
a crash, and from the DLQ. -/
theorem redelivery_is_filtered :
    running "orders" 0 (stored "" "") = .ok (storedSetup ("orders", "deduplicate-0")).dedup ∧
      ¬KeysKept (run (Sys.step (storedSetup ("orders", "deduplicate-0")))
        (Sys.start (storedSetup ("orders", "deduplicate-0"))) endsBeforeWrite) ∧
      running "orders" 0 (stored "p" "n") = .ok (storedSetup ("p", "n")).dedup ∧
      replaying (stored "p" "n") = .ok (storedSetup ("p", "n")).dedup ∧
      .dlq ⟨1, row 1⟩ Pipeline.badRow.toCause none ∈
        ((Sys.start (storedSetup ("p", "n"))).step (storedSetup ("p", "n"))
          (.call refusing {} (.batch [row 1]))).runner.log ∧
      TakenForDuplicate (storedSetup ("p", "n")).dedup {}
        ((Sys.start (storedSetup ("p", "n"))).step (storedSetup ("p", "n"))
          (.call refusing {} (.batch [row 1]))).dedup.store (row 1) ∧
      (replayRow {} (replaySpec (storedSetup ("p", "n")).dedup {}
          ((Sys.start (storedSetup ("p", "n"))).step (storedSetup ("p", "n"))
            (.call refusing {} (.batch [row 1]))).dedup.store Retry.defaultConfig) 0 { id := 1, record := row 1 } []).2 =
        some { msg := "transform dlq record: record filtered" } := by
  refine ⟨rfl, endsBeforeWrite_loses, rfl, rfl, by decide, by decide, ?_⟩
  rw [replayRow_taken rfl (by decide)]

end OpenEtl.Server.Dedup
