import OpenEtl.Core.Record
import OpenEtl.Lib.Kahn

/-!
# The pipeline graph (`orchestrator/dag.go`)

A node's connection, configuration and place on the canvas are left out: the graph functions do not
read them. `Validate` collects its first queue from a Go map: `validate` has it in node order, `validateFrom` in any.
Only the number of nodes visited is used.
-/

namespace OpenEtl.Orchestrator

open List Kahn

inductive NodeKind
  | source | transform | sink | fanout | router | tap | rateLimiter | enricher | lookup
  /-- any other text -/
  | other (text : String)
deriving DecidableEq, Repr

structure Node where
  id : String
  kind : NodeKind
  plugin : String
deriving DecidableEq, Repr

/-- What the node loop of `Validate` asks of a node by itself. -/
def Node.Declared (n : Node) : Prop := n.id ≠ "" ∧ n.plugin ≠ "" ∧ ∀ text, n.kind ≠ .other text

inductive ConditionOp
  | eq | ne | gt | lt | ge | le | contains | regex
  | other (text : String)
deriving DecidableEq, Repr

structure Condition where
  field : String
  operator : ConditionOp
  value : Value
deriving DecidableEq, Repr

structure Edge where
  source : String
  target : String
  condition : Option Condition := none
deriving DecidableEq, Repr

structure DAG where
  nodes : List Node
  edges : List Edge
deriving DecidableEq, Repr

namespace DAG

variable (d : DAG)

def nodeIDs : List String := d.nodes.map (·.id)

def getNode (id : String) : Option Node := d.nodes.find? (·.id == id)

def sources : List Node := d.nodes.filter (·.kind == .source)

def sinks : List Node := d.nodes.filter (·.kind == .sink)

/-- The node loop of `Validate`; the result is `seen`. -/
def checkNodes : List Node → List String → Except String (List String)
  | [], seen => .ok seen
  | n :: ns, seen =>
    if n.id = "" then .error "node missing ID"
    else if n.id ∈ seen then .error ("duplicate node ID: " ++ n.id)
    else if n.plugin = "" then .error ("node " ++ n.id ++ " missing plugin")
    else
      match n.kind with
      -- `%q`, for a text without escapes
      | .other text => .error ("node " ++ n.id ++ " has invalid kind \"" ++ text ++ "\"")
      | _ => checkNodes ns (seen ++ [n.id])

/-- The edge loop of `Validate`. -/
def checkEdges (seen : List String) : List Edge → Except String Unit
  | [] => .ok ()
  | e :: es =>
    if e.source ∉ seen then .error ("edge from unknown node " ++ e.source)
    else if e.target ∉ seen then .error ("edge to unknown node " ++ e.target)
    else checkEdges seen es

abbrev arcs : List (String × String) := d.edges.map fun e => (e.source, e.target)

def visitOrder : List String := order d.nodeIDs (d.edges.map fun e => (e.source, e.target))

def detectCycleFrom (queue : List String) : Except String Unit :=
  let visited := (orderFrom d.nodeIDs d.arcs queue).length
  if visited ≠ d.nodes.length then
    .error ("dag contains a cycle (" ++ toString visited ++ " of " ++ toString d.nodes.length ++
      " nodes reachable from sources)")
  else .ok ()

def validateFrom (queue : List String) : Except String Unit :=
  if d.nodes = [] then .error "dag has no nodes"
  else do
    let seen ← checkNodes d.nodes []
    checkEdges seen d.edges
    if d.sources = [] then .error "dag has no source nodes"
    else if d.sinks = [] then .error "dag has no sink nodes"
    else d.detectCycleFrom queue

def detectCycle : Except String Unit := d.detectCycleFrom (d.nodeIDs.filter (inDegree d.arcs · = 0))

def validate : Except String Unit := d.validateFrom (d.nodeIDs.filter (inDegree d.arcs · = 0))

def topoSort : Except String (List String) := do
  d.detectCycle
  return d.visitOrder

def validateProduction (allowUnsafe : Bool) : Except String Unit := do
  d.validate
  if !allowUnsafe && decide (1 < d.sinks.length) then
    .error ("dag has " ++ toString d.sinks.length ++ " sink nodes: cross-sink fanout is not atomic " ++
      "under at-least-once delivery; set allow_unsafe: true only after accepting partial multi-sink " ++
      "write on crash/replay, or use a single sink")
  else .ok ()

/-! ## What an accepted graph satisfies -/

theorem checkNodes_cons {n : Node} {ns : List Node} {seen out : List String} : checkNodes (n :: ns) seen = .ok out ↔
    n.Declared ∧ n.id ∉ seen ∧ checkNodes ns (seen ++ [n.id]) = .ok out := by
  rw [checkNodes, Node.Declared]
  split_ifs <;> cases hk : n.kind <;> simp [*]

theorem checkNodes_ok : ∀ {ns : List Node} {seen out : List String}, seen.Nodup →
    (checkNodes ns seen = .ok out ↔ out = seen ++ ns.map (·.id) ∧ out.Nodup ∧ ∀ n ∈ ns, n.Declared)
  | [], seen, out, hs => by
    simp only [checkNodes, Except.ok.injEq, map_nil, append_nil, not_mem_nil, false_imp_iff, implies_true, and_true]
    exact ⟨fun h => ⟨h.symm, h ▸ hs⟩, fun h => h.1.symm⟩
  | n :: ns, seen, out, hs => by
    have hs' : n.id ∉ seen → (seen ++ [n.id]).Nodup := fun hn => nodup_append'.mpr ⟨hs, by simp, by simpa using hn⟩
    rw [checkNodes_cons, map_cons, forall_mem_cons]
    constructor
    · rintro ⟨hd, hn, h⟩
      obtain ⟨rfl, hnd, hall⟩ := (checkNodes_ok (hs' hn)).mp h
      exact ⟨by simp, hnd, hd, hall⟩
    · rintro ⟨rfl, hnd, hd, hall⟩
      have hn : n.id ∉ seen := fun hm => (nodup_append'.mp hnd).2.2 hm mem_cons_self
      exact ⟨hd, hn, (checkNodes_ok (hs' hn)).mpr ⟨by simp, hnd, hall⟩⟩

theorem checkEdges_ok {seen : List String} (es : List Edge) :
    checkEdges seen es = .ok () ↔ ∀ e ∈ es, e.source ∈ seen ∧ e.target ∈ seen := by
  induction es with
  | nil => simp [checkEdges]
  | cons e es ih =>
    rw [checkEdges, forall_mem_cons]
    split_ifs <;> simp_all

/-- An accepted graph: ids are unique, edges join nodes, and the visit reached every node. -/
structure Valid : Prop where
  nodup : d.nodeIDs.Nodup
  edges : ∀ e ∈ d.edges, e.source ∈ d.nodeIDs ∧ e.target ∈ d.nodeIDs
  visited : d.visitOrder.length = d.nodeIDs.length

variable {d}

theorem validateFrom_ok {queue : List String} : d.validateFrom queue = .ok () ↔ (∀ n ∈ d.nodes, n.Declared) ∧
    d.nodeIDs.Nodup ∧ (∀ e ∈ d.edges, e.source ∈ d.nodeIDs ∧ e.target ∈ d.nodeIDs) ∧ d.sources ≠ [] ∧ d.sinks ≠ [] ∧
    (orderFrom d.nodeIDs d.arcs queue).length = d.nodeIDs.length := by
  have hok := @checkNodes_ok d.nodes [] d.nodeIDs nodup_nil
  unfold validateFrom
  by_cases hnil : d.nodes = []
  · simp [hnil, sources]
  rw [if_neg hnil]
  cases hn : checkNodes d.nodes [] with
  | error e =>
    rw [hn] at hok
    have hbad : ¬(d.nodeIDs.Nodup ∧ ∀ n ∈ d.nodes, n.Declared) := by simpa [nodeIDs] using hok
    exact ⟨nofun, fun h => absurd ⟨h.2.1, h.1⟩ hbad⟩
  | ok seen =>
    obtain ⟨hseen, hnd, hall⟩ := (checkNodes_ok nodup_nil).mp hn
    obtain rfl : seen = d.nodeIDs := by simpa [nodeIDs] using hseen
    have hlen : d.nodeIDs.length = d.nodes.length := length_map ..
    rw [← checkEdges_ok, hlen]
    simp only [bind, Except.bind]
    cases he : checkEdges d.nodeIDs d.edges with
    | error e => simp
    | ok u =>
      rw [detectCycleFrom]
      split_ifs <;> simp_all

theorem valid_of_validate (h : d.validate = .ok ()) : d.Valid := by
  obtain ⟨-, hnd, hedges, -, -, hlen⟩ := validateFrom_ok.mp h
  exact ⟨hnd, hedges, hlen⟩

/-- What a graph has to be to be accepted. -/
structure WellFormed (d : DAG) : Prop where
  declared : ∀ n ∈ d.nodes, n.Declared
  unique : d.nodeIDs.Nodup
  edges : ∀ e ∈ d.edges, e.source ∈ d.nodeIDs ∧ e.target ∈ d.nodeIDs
  source : ∃ n ∈ d.nodes, n.kind = .source
  sink : ∃ n ∈ d.nodes, n.kind = .sink
  acyclic : Acyclic d.arcs

theorem validateFrom_iff {queue : List String} (hq : queue.Perm (d.nodeIDs.filter (inDegree d.arcs · = 0))) :
    d.validateFrom queue = .ok () ↔ d.WellFormed := by
  have hall : d.nodeIDs.Nodup → (∀ e ∈ d.edges, e.source ∈ d.nodeIDs ∧ e.target ∈ d.nodeIDs) →
      ((orderFrom d.nodeIDs d.arcs queue).length = d.nodeIDs.length ↔ Acyclic d.arcs) := by
    intro hnd hedges
    exact visits_all_iff hnd (forall_mem_map.mpr fun e he => (hedges e he).2) hq
      (forall_mem_map.mpr fun e he => (hedges e he).1)
  rw [validateFrom_ok]
  constructor
  · rintro ⟨hd, hnd, hedges, hsrc, hsink, hlen⟩
    exact ⟨hd, hnd, hedges, by simpa [sources] using hsrc, by simpa [sinks] using hsink, (hall hnd hedges).mp hlen⟩
  · rintro ⟨hd, hnd, hedges, hsrc, hsink, hac⟩
    exact ⟨hd, hnd, hedges, by simpa [sources] using hsrc, by simpa [sinks] using hsink, (hall hnd hedges).mpr hac⟩

theorem Valid.topoSort (h : d.Valid) : d.topoSort = .ok d.visitOrder ∧ d.visitOrder.Perm d.nodeIDs ∧
    ∀ e ∈ d.edges, d.visitOrder.idxOf e.source < d.visitOrder.idxOf e.target := by
  obtain ⟨hperm, hup⟩ := topological h.nodup (forall_mem_map.mpr fun e he => (h.edges e he).2) (.refl _) h.visited
  refine ⟨?_, hperm, fun e he => hup _ (mem_map_of_mem he)⟩
  have hlen : d.visitOrder.length = d.nodes.length := by simpa [nodeIDs] using h.visited
  have hcycle : d.detectCycle = .ok () := if_neg (not_not.mpr hlen)
  rw [DAG.topoSort, hcycle]
  rfl

/-- Every edge of an accepted graph goes up in rank, so a path has at most as many nodes as the
graph. -/
theorem Valid.exists_rank (h : d.Valid) : ∃ rank : String → Nat,
    (∀ id ∈ d.nodeIDs, rank id < d.nodes.length) ∧ ∀ e ∈ d.edges, rank e.source < rank e.target := by
  obtain ⟨-, hperm, hup⟩ := h.topoSort
  refine ⟨d.visitOrder.idxOf, fun id hid => ?_, hup⟩
  have := idxOf_lt_length_iff.mpr (hperm.mem_iff.mpr hid)
  rwa [hperm.length_eq, nodeIDs, length_map] at this

/-- A recursion along the edges does not go deeper than there are nodes. -/
theorem Valid.depth_rule (h : d.Valid) {P : Nat → String → Prop}
    (hstep : ∀ depth id, (∀ e ∈ d.edges, e.source = id → P depth e.target) → P (depth + 1) id) {depth : Nat} {id : String}
    (hid : id ∈ d.nodeIDs) (hdepth : d.nodes.length ≤ depth) : P depth id := by
  obtain ⟨rank, hlt, hup⟩ := h.exists_rank
  -- a node of rank `r` needs a depth of `nodes.length - r`
  have key : ∀ (depth : Nat) (id : String), id ∈ d.nodeIDs → d.nodes.length - rank id ≤ depth → P depth id := by
    intro depth
    induction depth with
    | zero =>
      intro id hid hz
      have := hlt id hid
      omega
    | succ depth ih =>
      intro id hid hs
      refine hstep depth id fun e he hsrc => ih e.target (h.edges e he).2 ?_
      have hr := hup e he
      rw [hsrc] at hr
      omega
  exact key depth id hid (by omega)

/-- Any two depths that suffice give the same. -/
theorem Valid.depth_irrelevant (h : d.Valid) {β : Type} {f : Nat → String → β}
    (hstep : ∀ fuel fuel' id, (∀ e ∈ d.edges, e.source = id → f fuel e.target = f fuel' e.target) →
      f (fuel + 1) id = f (fuel' + 1) id) {fuel fuel' : Nat} {id : String} (hid : id ∈ d.nodeIDs)
    (hfuel : d.nodes.length ≤ fuel) (hfuel' : d.nodes.length ≤ fuel') : f fuel id = f fuel' id := by
  have hmore : ∀ more, f (d.nodes.length + more) id = f d.nodes.length id :=
    h.depth_rule (P := fun depth id => ∀ more, f (depth + more) id = f depth id) (fun depth id hrec more => by
      rw [Nat.add_right_comm]
      exact hstep _ _ id fun e he hsrc => hrec e he hsrc more) hid (Nat.le_refl _)
  obtain ⟨k, rfl⟩ := Nat.exists_eq_add_of_le hfuel
  obtain ⟨k', rfl⟩ := Nat.exists_eq_add_of_le hfuel'
  rw [hmore, hmore]

theorem getNode_some {id : String} {n : Node} (h : d.getNode id = some n) : n ∈ d.nodes ∧ n.id = id :=
  ⟨mem_of_find?_eq_some h, by simpa using find?_some h⟩

end DAG

end OpenEtl.Orchestrator
