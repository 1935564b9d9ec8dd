import OpenEtl.Core.Transform

/-!
# The deduplicator (`transform/router.go:140-345`, `pipeline/state_defaults.go`)

| here | there |
| --- | --- |
| `compositeKey` | the key built in `DeduplicatorTransform.Apply` (router.go:275-279) |

A key is remembered when its record is let through: in memory, and in the state store if there is one. The
memory is the process's, the store outlives it. The store is the list of its entries, each under the namespace of
a pipeline and a node; an entry whose TTL has passed is no longer in it.
-/

namespace OpenEtl.Deduplicate

open List

/-! ## Configuration -/

/-- The options of a `deduplicate` transform; an option that is not given is empty. -/
structure Config where
  keys : List String
  /-- `window_size`, if it is a number -/
  windowSize : Option Int := none
  stateBackend : String := ""
  statePipeline : String := ""
  stateNode : String := ""
deriving DecidableEq, Repr

/-- Where a transform keeps its entries: pipeline and node. -/
abbrev Namespace := String × String

structure Cfg where
  keys : List String
  keys_ne : keys ≠ []
  windowSize : Nat := 10000
  window_pos : 0 < windowSize := by decide
  /-- the namespace in the state store, when there is one -/
  store : Option Namespace := none
  /-- whether a map without entries is nil -/
  nilMap : Record → Bool := fun _ => true

def windowOf (n : Option Int) : Nat :=
  match n with
  | some n => if 0 < n then n.toNat else 10000
  | none => 10000

theorem windowOf_pos (n : Option Int) : 0 < windowOf n := by
  unfold windowOf
  split
  · split
    · omega
    · decide
  · decide

/-- `state_pipeline` and `state_node`, or the names the transform starts with. -/
def namespaceOf (c : Config) : Namespace :=
  (if c.statePipeline ≠ "" then c.statePipeline else "default",
    if c.stateNode ≠ "" then c.stateNode else "deduplicate")

/-- `NewDeduplicatorTransform`; opening the store is not modelled. -/
def newDeduplicatorTransform (c : Config) : Except String Cfg :=
  if c.stateBackend ≠ "" ∧ toLower c.stateBackend ≠ "redis" then
    .error ("deduplicate: unsupported state_backend \"" ++ c.stateBackend ++ "\"")
  else if h : c.keys = [] then .error "deduplicate: keys is required"
  else
    .ok
      { keys := c.keys
        keys_ne := h
        windowSize := windowOf c.windowSize
        window_pos := windowOf_pos _
        store := if c.stateBackend ≠ "" then some (namespaceOf c) else none }

/-- `InjectStateDefaults`: the runner's names for a transform that has a store and does not name its own. -/
def injectStateDefaults (pipelineName nodeID : String) (c : Config) : Config :=
  if trimSpace c.stateBackend = "" then c
  else
    { c with
      statePipeline :=
        if trimSpace c.statePipeline = "" ∧ trimSpace pipelineName ≠ "" then pipelineName else c.statePipeline
      stateNode := if trimSpace c.stateNode = "" ∧ trimSpace nodeID ≠ "" then nodeID else c.stateNode }

/-- `TransformStateNodeID`. -/
def transformStateNodeID (index : Nat) (typ : String) : String :=
  (if trimSpace typ = "" then "transform" else trimSpace typ) ++ "-" ++ toString index

/-! ## `Apply` -/

/-- `cacheMap`, and the ring `cache` with its position `pos`. -/
structure Memory where
  cacheMap : List String := []
  cache : List String := []
  pos : Nat := 0
deriving DecidableEq, Repr

structure State where
  memory : Memory := {}
  store : List (Namespace × String) := []
deriving DecidableEq, Repr

/-- What the store answers to one `Apply`: an error of `Get`, or an error of `Set`, which may have stored the
entry before it failed (redis.go:132). -/
structure Fault where
  get : Option Cause := none
  set : Option (Cause × Bool) := none

section

variable (cfg : Cfg)

/-- The values of the key fields as they are printed, a missing one as `<nil>`, with the unit separator. -/
def compositeKey (rec : Record) : String := joinStr "\x1f" (cfg.keys.map fun k => fmtV ((rec.data.get? k).getD .null))

/-- `rec.Data != nil`: records without data are let through unseen. -/
def keyOf (rec : Record) : Option String :=
  if rec.data = [] ∧ cfg.nilMap rec then none else some (compositeKey cfg rec)

/-- `addKeyLocked`: when the ring is full, the oldest key is forgotten. -/
def addKeyLocked (m : Memory) (k : String) : Memory :=
  if m.cache.length < cfg.windowSize then
    { m with cacheMap := k :: m.cacheMap, cache := m.cache ++ [k] }
  else
    { cacheMap := (k :: m.cacheMap).filter (· ≠ m.cache.getD m.pos "")
      cache := m.cache.set m.pos k
      pos := (m.pos + 1) % cfg.windowSize }

def State.add (st : State) (k : String) : State := { st with memory := addKeyLocked cfg st.memory k }

/-- The part of `Apply` behind the memory, with a state store. -/
def applyStore (f : Fault) (ns : Namespace) (st : State) (k : String) : State × Option TransformErr :=
  match f.get with
  | some e => (st, some (.failed { e with msg := "deduplicate: get state: " ++ e.msg }))
  | none =>
    if (ns, k) ∈ st.store then (st.add cfg k, some .filtered)
    else
      match f.set with
      | some (e, stored) =>
        ({ st with store := if stored then (ns, k) :: st.store else st.store },
          some (.failed { e with msg := "deduplicate: set state: " ++ e.msg }))
      | none => (State.add cfg { st with store := (ns, k) :: st.store } k, none)

/-- `Apply` for a record with key `k`; `none` lets the record through. -/
def applyKey (f : Fault) (st : State) (k : String) : State × Option TransformErr :=
  if k ∈ st.memory.cacheMap then (st, some .filtered)
  else
    match cfg.store with
    | none => (st.add cfg k, none)
    | some ns => applyStore cfg f ns st k

def apply (f : Fault) (st : State) (rec : Record) : State × Except TransformErr Record :=
  match keyOf cfg rec with
  | none => (st, .ok rec)
  | some k =>
    match applyKey cfg f st k with
    | (st, none) => (st, .ok rec)
    | (st, some e) => (st, .error e)

end

section

variable {cfg : Cfg}

theorem mem_addKeyLocked {m : Memory} {k k' : String} (h : k' ∈ (addKeyLocked cfg m k).cacheMap) :
    k' = k ∨ k' ∈ m.cacheMap := by
  unfold addKeyLocked at h
  split at h
  · exact mem_cons.mp h
  · exact mem_cons.mp (mem_filter.mp h).1

/-- The store keeps its entries of the key's namespace, and may have got one for the key. -/
structure Remembers (cfg : Cfg) (k : String) (st st' : State) : Prop where
  memory : ∀ k' ∈ st'.memory.cacheMap, k' = k ∨ k' ∈ st.memory.cacheMap
  store : ∀ e ∈ st'.store, e ∈ st.store ∨ e.2 = k ∧ cfg.store = some e.1
  kept : ∀ e ∈ st.store, e ∈ st'.store

theorem Remembers.refl (k : String) (st : State) : Remembers cfg k st st :=
  ⟨fun _ h => .inr h, fun _ h => .inl h, fun _ h => h⟩

theorem Remembers.add (k : String) (st : State) : Remembers cfg k st (st.add cfg k) :=
  ⟨fun _ h => mem_addKeyLocked h, fun _ h => .inl h, fun _ h => h⟩

theorem Remembers.insert {ns : Namespace} (hns : cfg.store = some ns) (k : String) (st : State) :
    Remembers cfg k st { st with store := (ns, k) :: st.store } := by
  refine ⟨fun _ h => .inr h, fun e he => ?_, fun _ h => mem_cons_of_mem _ h⟩
  rcases mem_cons.mp he with rfl | he
  · exact .inr ⟨rfl, hns⟩
  · exact .inl he

theorem Remembers.trans {k : String} {st st' st'' : State} (h : Remembers cfg k st st')
    (h' : Remembers cfg k st' st'') : Remembers cfg k st st'' := by
  refine ⟨fun k' hk' => ?_, fun e he => ?_, fun e he => h'.kept e (h.kept e he)⟩
  · rcases h'.memory k' hk' with rfl | hk'
    · exact .inl rfl
    · exact h.memory k' hk'
  · rcases h'.store e he with he | he
    · exact h.store e he
    · exact .inr he

/-- **What one `Apply` does**: it remembers at most the key of its record; it filters only a key that was
remembered, and then stores nothing; and a key it lets through is in the store from then on. -/
theorem applyKey_spec (cfg : Cfg) (f : Fault) (st : State) (k : String) :
    Remembers cfg k st (applyKey cfg f st k).1 ∧
      ((applyKey cfg f st k).2 = some .filtered →
        (applyKey cfg f st k).1.store = st.store ∧
          (k ∈ st.memory.cacheMap ∨ ∃ ns, cfg.store = some ns ∧ (ns, k) ∈ st.store)) ∧
      ((applyKey cfg f st k).2 = none → ∀ ns, cfg.store = some ns → (ns, k) ∈ (applyKey cfg f st k).1.store) := by
  unfold applyKey
  by_cases hmem : k ∈ st.memory.cacheMap
  · rw [if_pos hmem]
    exact ⟨.refl k st, fun _ => ⟨rfl, .inl hmem⟩, nofun⟩
  · rw [if_neg hmem]
    cases hstore : cfg.store with
    | none => exact ⟨.add k st, nofun, fun _ _ => nofun⟩
    | some ns =>
      simp only
      unfold applyStore
      cases f.get with
      | some e => exact ⟨.refl k st, nofun, nofun⟩
      | none =>
        by_cases hin : (ns, k) ∈ st.store
        · rw [if_pos hin]
          exact ⟨.add k st, fun _ => ⟨rfl, .inr ⟨ns, rfl, hin⟩⟩, nofun⟩
        · rw [if_neg hin]
          cases f.set with
          | none =>
            refine ⟨(Remembers.insert hstore k st).trans (.add k _), nofun, fun _ ns' hns' => ?_⟩
            cases hns'
            exact mem_cons_self
          | some p =>
            obtain ⟨e, _ | _⟩ := p
            · exact ⟨.refl k st, nofun, nofun⟩
            · exact ⟨.insert hstore k st, nofun, nofun⟩

/-- A transform that was just built filters what is in the store, and nothing else. -/
theorem applyKey_fresh (store : List (Namespace × String)) (k : String) :
    (applyKey cfg {} { store } k).2 = some .filtered ↔ ∃ ns, cfg.store = some ns ∧ (ns, k) ∈ store := by
  unfold applyKey
  cases cfg.store with
  | none => simp
  | some ns =>
    simp only [applyStore]
    by_cases hin : (ns, k) ∈ store
    · simp [hin]
    · simp [hin]

end

end OpenEtl.Deduplicate
