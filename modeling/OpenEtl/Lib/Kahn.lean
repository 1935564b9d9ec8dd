import Mathlib.Data.List.Count
import Mathlib.Data.List.Nodup
import Mathlib.Data.List.Perm.Subperm
import Mathlib.Data.Set.Finite.List
import Mathlib.Order.WellFoundedSet
import Mathlib.Tactic.Linarith

/-!
# Kahn's algorithm

The queue-and-in-degree loop over a finite graph given by its nodes and its edges (parallel edges
and self-loops allowed). `order` is the list of the nodes in the order the loop takes them from the
queue. When it has all nodes it is a topological order (`topological`), and it has unless there is a cycle
(`visits_all_iff`).
-/

namespace OpenEtl.Kahn

open List Function

variable {α : Type*} [DecidableEq α]

def inDegree (edges : List (α × α)) (v : α) : Int := (edges.countP (·.2 = v) : Nat)

/-- `adj[u]`: the targets of the edges out of `u`, in edge order. -/
def adj (edges : List (α × α)) (u : α) : List α := (edges.filter (·.1 = u)).map Prod.snd

/-- The inner loop: the in-degrees of the targets go down by one each, and a target that reaches zero
joins the queue. -/
def relax : List α → (α → Int) × List α → (α → Int) × List α
  | [], dq => dq
  | v :: vs, (d, queue) =>
    let d' := update d v (d v - 1)
    relax vs (d', if d' v = 0 then queue ++ [v] else queue)

/-- The outer loop, for at most `fuel` nodes. -/
def loop (edges : List (α × α)) : Nat → (α → Int) × List α → List α → List α
  | 0, _, visited => visited
  | _ + 1, (_, []), visited => visited
  | fuel + 1, (d, v :: queue), visited =>
    loop edges fuel (relax (adj edges v) (d, queue)) (visited ++ [v])

/-- The nodes in the order the loop visits them. No node is visited twice (`Inv.nodup`), so one turn
for each node is enough. -/
def order (nodes : List α) (edges : List (α × α)) : List α :=
  let d := inDegree edges
  loop edges nodes.length (d, nodes.filter (d · = 0)) []

/-- The same with the first queue in another order. -/
def orderFrom (nodes : List α) (edges : List (α × α)) (queue : List α) : List α :=
  loop edges nodes.length (inDegree edges, queue) []

/-! ## The inner loop -/

theorem relax_fst (vs : List α) : ∀ (d : α → Int) (queue : List α) (w : α),
    (relax vs (d, queue)).1 w = d w - (vs.count w : Nat) := by
  induction vs with
  | nil => simp [relax]
  | cons v vs ih =>
    intro d queue w
    rw [relax, ih]
    by_cases hw : w = v
    · subst hw
      simp
      omega
    · simp [hw, count_cons_of_ne (Ne.symm hw)]

/-- What joins the queue: each target once, at the moment its in-degree reaches zero. -/
theorem relax_snd (vs : List α) : ∀ (d : α → Int) (queue : List α), (∀ w, (vs.count w : Int) ≤ d w) →
    ∃ new, (relax vs (d, queue)).2 = queue ++ new ∧ new.Nodup ∧
      ∀ w, w ∈ new ↔ w ∈ vs ∧ d w = (vs.count w : Nat) := by
  induction vs with
  | nil => intro d queue _; exact ⟨[], by simp [relax]⟩
  | cons v vs ih =>
    intro d queue hle
    have hv := hle v
    rw [count_cons_self] at hv
    have hle' : ∀ w, (vs.count w : Int) ≤ update d v (d v - 1) w := by
      intro w
      by_cases hw : w = v
      · subst hw
        simp
        omega
      · have := hle w
        rw [count_cons_of_ne (Ne.symm hw)] at this
        simpa [hw] using this
    obtain ⟨new, hq, hnd, hnew⟩ := ih (update d v (d v - 1))
      (if update d v (d v - 1) v = 0 then queue ++ [v] else queue) hle'
    -- a node that joins later has its own remaining edges to account for it
    have hjoins : ∀ w, w ∈ v :: vs ∧ d w = ((v :: vs).count w : Nat) ↔ w = v ∧ d v - 1 = 0 ∨ w ∈ new := by
      intro w
      rw [hnew]
      by_cases hw : w = v
      · subst hw
        have hpos : 0 < vs.count w ↔ w ∈ vs := count_pos_iff
        simp only [mem_cons_self, count_cons_self, update_self, true_and]
        rw [← hpos]
        omega
      · simp [hw, count_cons_of_ne (Ne.symm hw)]
    simp only [hjoins]
    rw [relax]
    simp only [update_self] at hq ⊢
    by_cases h0 : d v - 1 = 0
    · rw [if_pos h0] at hq ⊢
      refine ⟨v :: new, by simpa using hq, nodup_cons.mpr ⟨fun hmem => ?_, hnd⟩, by simp [h0]⟩
      exact absurd (count_pos_iff.mpr ((hnew v).mp hmem).1) (by omega)
    · rw [if_neg h0] at hq ⊢
      exact ⟨new, hq, hnd, by simp [h0]⟩

/-! ## The outer loop -/

/-- What the loop keeps: the in-degree of a node counts its edges from nodes not visited yet, the
nodes that were queued have none left, and each was queued once. -/
structure Inv (nodes : List α) (edges : List (α × α)) (d : α → Int) (queue visited : List α) : Prop where
  degree : ∀ v, d v = (edges.countP (fun e => e.2 = v ∧ e.1 ∉ visited) : Nat)
  zero : ∀ v ∈ visited ++ queue, d v = 0
  nodup : (visited ++ queue).Nodup
  mem : ∀ v ∈ visited ++ queue, v ∈ nodes
  forward : ∀ l₁ v l₂, visited = l₁ ++ v :: l₂ → ∀ e ∈ edges, e.2 = v → e.1 ∈ l₁

/-- Every node that has no edge left was queued. -/
def Queued (nodes : List α) (d : α → Int) (queue visited : List α) : Prop :=
  ∀ v ∈ nodes, d v = 0 → v ∈ visited ++ queue

section

variable {nodes : List α} {edges : List (α × α)} {d : α → Int} {queue visited : List α}

theorem Inv.start (hn : nodes.Nodup) (hq : queue.Perm (nodes.filter (inDegree edges · = 0))) :
    Inv nodes edges (inDegree edges) queue [] ∧ Queued nodes (inDegree edges) queue [] := by
  have hmem : ∀ v, v ∈ [] ++ queue ↔ v ∈ nodes ∧ inDegree edges v = 0 := by simp [hq.mem_iff]
  exact ⟨⟨by simp [inDegree], fun v hv => ((hmem v).mp hv).2, hq.nodup_iff.mpr (hn.filter _),
    fun v hv => ((hmem v).mp hv).1, by simp⟩, fun v hv h0 => (hmem v).mpr ⟨hv, h0⟩⟩

theorem count_adj (u w : α) : (adj edges u).count w = edges.countP (fun e => e.2 = w ∧ e.1 = u) := by
  rw [adj, List.count, countP_map, countP_filter]
  refine countP_congr fun e _ => ?_
  simp

/-- Visiting `u` takes its edges out of the in-degrees. -/
theorem countP_visit (edges : List (α × α)) {u : α} (hu : u ∉ visited) (w : α) :
    (edges.countP (fun e => e.2 = w ∧ e.1 ∉ visited) : Int) =
      (edges.countP (fun e => e.2 = w ∧ e.1 ∉ visited ++ [u]) : Nat) + ((adj edges u).count w : Nat) := by
  rw [count_adj]
  induction edges with
  | nil => simp
  | cons e es ih =>
    simp only [countP_cons]
    by_cases hw : e.2 = w
    · by_cases he : e.1 = u
      · subst he
        simp [hw, hu] at ih ⊢
        omega
      · simp [hw, he] at ih ⊢
        split <;> omega
    · simp [hw] at ih ⊢
      omega

theorem Inv.step (hv : ∀ e ∈ edges, e.2 ∈ nodes) {u : α} (h : Inv nodes edges d (u :: queue) visited) :
    Inv nodes edges (relax (adj edges u) (d, queue)).1 (relax (adj edges u) (d, queue)).2 (visited ++ [u]) ∧
      (Queued nodes d (u :: queue) visited →
        Queued nodes (relax (adj edges u) (d, queue)).1 (relax (adj edges u) (d, queue)).2 (visited ++ [u])) := by
  have hnd := h.nodup
  rw [nodup_append'] at hnd
  obtain ⟨hndv, hndq, hdisj⟩ := hnd
  have hu : u ∉ visited := fun hm => hdisj hm (by simp)
  have hle : ∀ w, ((adj edges u).count w : Int) ≤ d w := by
    intro w
    have := countP_visit edges hu w
    rw [h.degree w]
    omega
  obtain ⟨new, hq, hnewnd, hnew⟩ := relax_snd (adj edges u) d queue hle
  -- a node that joins now has an edge from `u`, so it was not queued before
  have hfresh : ∀ w ∈ new, w ∉ visited ++ u :: queue := by
    intro w hw hmem
    have hpos := count_pos_iff.mpr ((hnew w).mp hw).1
    have := ((hnew w).mp hw).2
    rw [h.zero w hmem] at this
    omega
  have hdeg : ∀ w, (relax (adj edges u) (d, queue)).1 w =
      (edges.countP (fun e => e.2 = w ∧ e.1 ∉ visited ++ [u]) : Nat) := by
    intro w
    rw [relax_fst, h.degree w, countP_visit edges hu w]
    omega
  have hsplit : visited ++ [u] ++ (queue ++ new) = (visited ++ u :: queue) ++ new := by simp
  refine ⟨⟨hdeg, ?_, ?_, ?_, ?_⟩, fun hqueued w hw h0 => ?_⟩
  · intro w hw
    rw [hq, hsplit] at hw
    rw [relax_fst]
    rcases mem_append.mp hw with hw | hw
    · have h0 := h.zero w hw
      have := hle w
      omega
    · have := ((hnew w).mp hw).2
      omega
  · rw [hq, hsplit, nodup_append']
    exact ⟨h.nodup, hnewnd, fun w hw hw' => hfresh w hw' hw⟩
  · intro w hw
    rw [hq, hsplit] at hw
    rcases mem_append.mp hw with hw | hw
    · exact h.mem w hw
    · obtain ⟨e, he, rfl⟩ := mem_map.mp ((hnew w).mp hw).1
      exact hv e (mem_filter.mp he).1
  · intro l1 v l2 heq e he hev
    rcases eq_nil_or_concat l2 with rfl | ⟨l2', y, rfl⟩
    · obtain ⟨rfl, hx⟩ := append_inj' heq rfl
      obtain rfl : u = v := by simpa using hx
      -- `u` left the queue, so no edge into it comes from outside `visited`
      have h0 := h.zero u (by simp)
      rw [h.degree u] at h0
      by_contra hne
      have : edges.countP (fun e => e.2 = u ∧ e.1 ∉ visited) = 0 := by omega
      exact countP_eq_zero.mp this e he (by simp [hev, hne])
    · have heq' : visited ++ [u] = (l1 ++ v :: l2') ++ [y] := by simpa using heq
      exact h.forward l1 v l2' (append_inj' heq' rfl).1 e he hev
  · rw [hq, hsplit, mem_append, hnew]
    rw [relax_fst] at h0
    by_cases hd : d w = 0
    · exact .inl (hqueued w hw hd)
    · exact .inr ⟨count_pos_iff.mp (by omega), by omega⟩

/-- The loop ends with an empty queue, or after its last turn. -/
theorem loop_inv (hv : ∀ e ∈ edges, e.2 ∈ nodes) : ∀ (fuel : Nat) (d : α → Int) (queue visited : List α),
    Inv nodes edges d queue visited → Queued nodes d queue visited →
      ∃ d' queue', Inv nodes edges d' queue' (loop edges fuel (d, queue) visited) ∧
        Queued nodes d' queue' (loop edges fuel (d, queue) visited) ∧
        (queue' = [] ∨ (loop edges fuel (d, queue) visited).length = visited.length + fuel)
  | 0, d, queue, _, h, hq => ⟨d, queue, h, hq, .inr rfl⟩
  | _ + 1, d, [], _, h, hq => ⟨d, [], h, hq, .inl rfl⟩
  | fuel + 1, _, u :: _, visited, h, hq => by
    obtain ⟨d', queue', hi, hq', hend⟩ := loop_inv hv fuel _ _ (visited ++ [u]) (h.step hv).1 ((h.step hv).2 hq)
    refine ⟨d', queue', hi, hq', hend.imp_right fun hlen => ?_⟩
    rw [loop, hlen, length_append, length_singleton]
    omega

end

theorem idxOf_lt {l1 l2 : List α} {u v : α} (hv : v ∉ l1) (hu : u ∈ l1) :
    (l1 ++ v :: l2).idxOf u < (l1 ++ v :: l2).idxOf v := by
  rw [idxOf_append_of_mem hu, idxOf_append_of_notMem hv]
  exact Nat.lt_of_lt_of_le (idxOf_lt_length_iff.mpr hu) (Nat.le_add_right _ _)

/-- There is a path, of at least one edge. -/
abbrev Reaches (edges : List (α × α)) : α → α → Prop := Relation.TransGen fun a b => (a, b) ∈ edges

def Acyclic (edges : List (α × α)) : Prop := ∀ v, ¬Reaches edges v v

section

variable {nodes : List α} {edges : List (α × α)} {queue : List α} (hn : nodes.Nodup) (hv : ∀ e ∈ edges, e.2 ∈ nodes)
  (hq : queue.Perm (nodes.filter (inDegree edges · = 0)))

include hn hv hq

theorem orderFrom_inv : ∃ d rest, Inv nodes edges d rest (orderFrom nodes edges queue) ∧
    Queued nodes d rest (orderFrom nodes edges queue) ∧
    (rest = [] ∨ (orderFrom nodes edges queue).length = nodes.length) := by
  obtain ⟨h, hqueued⟩ := Inv.start hn hq
  simpa [orderFrom] using loop_inv hv nodes.length _ _ [] h hqueued

/-- If the loop visits every node, it does so in a topological order, whatever the order of the first queue. -/
theorem topological (hall : (orderFrom nodes edges queue).length = nodes.length) :
    (orderFrom nodes edges queue).Perm nodes ∧
      ∀ e ∈ edges, (orderFrom nodes edges queue).idxOf e.1 < (orderFrom nodes edges queue).idxOf e.2 := by
  obtain ⟨d, rest, h, -⟩ := orderFrom_inv hn hv hq
  have hnd := (nodup_append'.mp h.nodup).1
  have hperm := (hnd.subperm fun v hm => h.mem v (mem_append_left _ hm)).perm_of_length_le hall.ge
  refine ⟨hperm, fun e he => ?_⟩
  obtain ⟨l1, l2, heq⟩ := append_of_mem (hperm.mem_iff.mpr (hv e he))
  have hpred := h.forward l1 e.2 l2 heq e he rfl
  rw [heq] at hnd ⊢
  exact idxOf_lt (fun hm => (nodup_append'.mp hnd).2.2 hm (by simp)) hpred

/-- **The loop visits every node just if there is no cycle.** -/
theorem visits_all_iff (hsrc : ∀ e ∈ edges, e.1 ∈ nodes) :
    (orderFrom nodes edges queue).length = nodes.length ↔ Acyclic edges := by
  constructor
  · intro hall v hcycle
    have hup : ∀ {a b}, Reaches edges a b →
        (orderFrom nodes edges queue).idxOf a < (orderFrom nodes edges queue).idxOf b := by
      intro a b h
      induction h with
      | single he => exact (topological hn hv hq hall).2 _ he
      | tail _ he ih => exact ih.trans ((topological hn hv hq hall).2 _ he)
    exact Nat.lt_irrefl _ (hup hcycle)
  · intro hac
    obtain ⟨d, rest, h, hqueued, rfl | hlen⟩ := orderFrom_inv hn hv hq
    · -- a node is visited once those that reach it are: nothing is left that could hold it back
      have : IsStrictOrder α (Reaches edges) := { irrefl := hac, trans := fun _ _ _ => Relation.TransGen.trans }
      have hall : nodes ⊆ orderFrom nodes edges queue := by
        intro v hmem
        refine (nodes.finite_toSet.wellFoundedOn (r := Reaches edges)).induction hmem fun v hmem ih => ?_
        have hdeg : d v = 0 := by
          rw [h.degree, countP_eq_zero.mpr]
          · rfl
          · rintro ⟨u, w⟩ he hcount
            obtain ⟨rfl, hu⟩ : w = v ∧ u ∉ _ := by simpa using hcount
            exact hu (ih u (hsrc _ he) (.single he))
        simpa using hqueued v hmem hdeg
      have hnd := (nodup_append'.mp h.nodup).1
      exact ((hn.subperm hall).antisymm (hnd.subperm fun v hm => h.mem v (mem_append_left _ hm))).length_eq.symm
    · exact hlen

end

end OpenEtl.Kahn
