import OpenEtl.Source.SnapshotCheckpoint
import OpenEtl.Transform.InPlace

/-!
# The maps of the source batch (`core/core.go:329-396`, `pipeline/pipeline.go:1193-1246`)

| here | there |
| --- | --- |
| `applyRecord` | `TransformChain.Apply` (core.go:329), which copies the map first |
| `applyBatch` | `TransformChain.ApplyBatch` (core.go:360), which does not |
| `processed` | the copy of the batch the checkpoint is computed from (pipeline.go:1194): its records share the maps |

A record of the batch keeps the map the source made for it until a transform returns another, and what a transform
writes to it in the meantime is logged, with what the map held before.
-/

namespace OpenEtl.InPlace

open Source.SnapshotCdc (checkpointFromRecords checkpointFromRecords_congr)
open List Function

/-! ## The chain -/

/-- A record in the chain, with its number in the batch while its map is the one the source made. -/
structure Live where
  source : Option Nat
  now : Record

structure Write where
  record : Nat
  rule : Rule
  before : Data

def Write.after (w : Write) : Data := w.rule.run w.before

/-- What everything around the transforms does for one batch: `k` is a transform and `i` a record it is given. -/
structure Outside where
  V : Conversions
  answer : Nat → Nat → Answer
  /-- the context ends before the record's turn comes -/
  expired : Nat → Nat → Option CtxErr := fun _ _ => none
  /-- `sort` is given more than it may hold, or `window` or `dbt` fails -/
  whole : Nat → Option Cause := fun _ => none
  /-- the order `sort` finds -/
  arrange : Nat → { f : List Live → List Live // ∀ l, (f l).Perm l } := fun _ => ⟨id, List.Perm.refl⟩
  /-- what comes out of `window` and `dbt` -/
  made : Nat → List Record := fun _ => []
  /-- the Data of the `n`-th record of the batch is not nil -/
  hasMap : Nat → Bool := fun _ => true

def runRules : List Rule → Live → List Write × Live
  | [], x => ([], x)
  | r :: rs, x =>
    let (ws, y) := runRules rs { x with now := { x.now with data := r.run x.now.data } }
    match x.source with
    | some n => ({ record := n, rule := r, before := x.now.data } :: ws, y)
    | none => (ws, y)

/-- What a record has become, given how the call left it. -/
def Call.outcome (call : Call) (x : Live) : Except TransformErr Live :=
  match call.result with
  | .same r => .ok { x with now := { r with data := x.now.data } }
  | .fresh r => .ok { source := none, now := r }
  | .filtered => .error .filtered
  | .failed e => .error (.failed e)

structure Pass where
  writes : List Write := []
  out : List Live := []
  failed : List (Live × Cause) := []

def visit (call : Call) (x : Live) : Pass :=
  let (ws, y) := runRules call.rules x
  match call.outcome y with
  | .ok z => { writes := ws, out := [z] }
  | .error .filtered => { writes := ws }
  | .error (.failed e) => { writes := ws, failed := [(y, e)] }

def visitAll (f : Nat → Live → Pass) : Nat → List Live → Pass
  | _, [] => {}
  | i, x :: xs =>
    let p := f i x
    let q := visitAll f (i + 1) xs
    { writes := p.writes ++ q.writes, out := p.out ++ q.out, failed := p.failed ++ q.failed }

section

variable (O : Outside)

/-- `EnricherTransform.ApplyBatch` for one record: one that fails is among the results all the same. -/
def enrichOne (targetField : String) (k i : Nat) (x : Live) : Pass :=
  match O.expired k i with
  | some e => { out := [x], failed := [(x, e.toErr.toCause)] }
  | none =>
    let p := visit (enricherCall targetField (O.answer k i) x.now) x
    { p with out := p.out ++ p.failed.map Prod.fst }

def lookupOne (cfg : LookupConfig) (k i : Nat) (x : Live) : Pass :=
  match O.expired k i with
  | some e => { failed := [(x, e.toErr.toCause)] }
  | none => visit (lookupCall cfg (O.answer k i) x.now) x

def scriptOne (onError : ScriptError) (k i : Nat) (x : Live) : Pass :=
  match (O.answer k i).produced x.now with
  | .ok recs => { out := recs.map fun r => { source := none, now := r } }
  | .error e => if onError = .drop then {} else { failed := [(x, e)] }

/-- The error with which a transform gives up on the batch. -/
def Shipped.wholeError (k : Nat) (xs : List Live) : Shipped → Option Cause
  | .sort | .window | .dbt => O.whole k
  | .script .error => (visitAll (scriptOne O .error k) 0 xs).failed.head?.map Prod.snd
  | _ => none

def Shipped.pass (k : Nat) (xs : List Live) : Shipped → Pass
  | .record t => visitAll (fun i x => visit (t.call O.V (O.answer k i) x.now) x) 0 xs
  | .enricher targetField => visitAll (enrichOne O targetField k) 0 xs
  | .lookup cfg => visitAll (lookupOne O cfg k) 0 xs
  | .script onError => visitAll (scriptOne O onError k) 0 xs
  | .sort => { out := (O.arrange k).1 xs }
  | .window | .dbt => { out := (O.made k).map fun r => { source := none, now := r } }

/-- What `ApplyBatch` has written to maps of the batch, and what it returns: records and failures, or the error for the
whole batch. -/
structure Outcome where
  writes : List Write
  result : Except Cause (List Live × List (Live × Cause))

/-- `TransformChain.ApplyBatch` from transform `k` on. A batch transform without output ends the loop. -/
def applyBatch : Nat → List Shipped → List Live → Outcome
  | _, [], live => { writes := [], result := .ok (live, []) }
  | k, t :: ts, live =>
    match t.wholeError O k live with
    | some e => { writes := [], result := .error e }
    | none =>
      let p := t.pass O k live
      if t.isBatch && p.out.isEmpty then { writes := p.writes, result := .ok ([], p.failed) }
      else
        let rest := applyBatch (k + 1) ts p.out
        { writes := p.writes ++ rest.writes
          result := rest.result.map fun r => (r.1, p.failed ++ r.2) }

/-- `TransformChain.Apply` for the `i`-th record, from transform `k` on. -/
def applyRecord (i : Nat) : Nat → List Shipped → Live → List Write × Except TransformErr Live
  | _, [], x => ([], .ok x)
  | k, .record t :: ts, x =>
    let call := t.call O.V (O.answer k i) x.now
    let (ws, y) := runRules call.rules x
    match call.outcome y with
    | .ok z =>
      let (ws', r) := applyRecord i (k + 1) ts z
      (ws ++ ws', r)
    | .error e => (ws, .error e)
  -- a chain with a batch transform does not come here
  | k, _ :: ts, x => applyRecord i (k + 1) ts x

/-! ## A batch -/

variable (chain : List Shipped) (batch : List Record)

/-- The records that were not rejected, with their places in the batch. -/
def accepted : List (Record × Nat) := batch.zipIdx.filter (·.1.rejection.isNone)

def hasBatch : Bool := chain.any Shipped.isBatch

def inBatch (a : Record × Nat) : Live := { source := if O.hasMap a.2 then some a.2 else none, now := a.1 }

/-- The copy `TransformChain.Apply` works on. -/
def copied (a : Record × Nat) : Live := { source := none, now := a.1 }

def batchOutcome : Outcome := applyBatch O 0 chain ((accepted batch).map (inBatch O))

/-- Everything the transforms write to maps of the batch. -/
def writes : List Write :=
  if hasBatch chain then (batchOutcome O chain batch).writes
  else (accepted batch).zipIdx.flatMap fun a => (applyRecord O a.2 0 chain (copied a.1)).1

def mapsAfter (m : Nat → Data) (ws : List Write) : Nat → Data :=
  ws.foldl (fun m w => update m w.record w.after) m

def asRead (n : Nat) : Data := (batch[n]?.map Record.data).getD []

def mapsNow : Nat → Data := mapsAfter (asRead batch) (writes O chain batch)

/-- The records the checkpoint is computed from. -/
def processed : List Record := batch.mapIdx fun n r => { r with data := mapsNow O chain batch n }

/-- `handleFailedRecord` is given the `n`-th record of the batch, with its map, by the loop over the rejected records or
after the transforms. -/
inductive StoredOriginal : Nat → Record → Prop
  | rejected {n : Nat} {r : Record} (h : batch[n]? = some r) (hr : r.rejection ≠ none) : StoredOriginal n r
  | record {n i : Nat} {r : Record} {e : Cause} (hchain : hasBatch chain = false)
      (h : (accepted batch)[i]? = some (r, n))
      (hf : (applyRecord O i 0 chain (copied (r, n))).2 = .error (.failed e)) :
      StoredOriginal n { r with data := mapsNow O chain batch n }
  | whole {n : Nat} {r : Record} {e : Cause} (hchain : hasBatch chain = true) (h : (r, n) ∈ accepted batch)
      (hw : (batchOutcome O chain batch).result = .error e) :
      StoredOriginal n { r with data := mapsNow O chain batch n }
  | failed {n : Nat} {x : Live} {e : Cause} {out : List Live} {fs : List (Live × Cause)} (hchain : hasBatch chain = true)
      (hok : (batchOutcome O chain batch).result = .ok (out, fs)) (hf : (x, e) ∈ fs) (hx : x.source = some n) :
      StoredOriginal n { x.now with data := mapsNow O chain batch n }

/-- The batch stays as it was read: its maps at every moment, the records a checkpoint is computed from and with them the
checkpoint, and the originals in the DLQ. -/
structure Unaltered : Prop where
  maps : ∀ k n, (mapsAfter (asRead batch) ((writes O chain batch).take k) n).Same (asRead batch n)
  processed : List.Forall₂ (fun a b => a.data.Same b.data ∧ a.metadata = b.metadata) (processed O chain batch) batch
  checkpoint : ∀ conv floatID reader,
    checkpointFromRecords conv floatID reader (InPlace.processed O chain batch) =
      checkpointFromRecords conv floatID reader batch
  originals : ∀ n r, StoredOriginal O chain batch n r → r.data.Same (asRead batch n)

end

/-! ## The log -/

/-- Every write found its map as the writes before have left it. -/
def Replays : (Nat → Data) → List Write → Prop
  | _, [] => True
  | m, w :: ws => w.before = m w.record ∧ Replays (update m w.record w.after) ws

variable {m : Nat → Data} {ws : List Write} {ws' : List Write}

theorem Replays.append (h : Replays m ws) (h' : Replays (mapsAfter m ws) ws') :
    Replays m (ws ++ ws') := by
  induction ws generalizing m with
  | nil => exact h'
  | cons w ws ih => exact ⟨h.1, ih h.2 h'⟩

/-- **Maps stay as they were** as long as every write finds there what it writes. -/
theorem Replays.same_iff {b : Nat → Data} (h : Replays m ws) (hm : ∀ n, (m n).Same (b n)) :
    (∀ k n, (mapsAfter m (ws.take k) n).Same (b n)) ↔ ∀ w ∈ ws, w.rule.Idle w.before := by
  induction ws generalizing m with
  | nil => simpa [mapsAfter] using hm
  | cons w ws ih =>
    have hbefore : ∀ c, w.before.get? c = (b w.record).get? c := by
      rw [h.1]
      exact hm w.record
    have hafter : w.after.Same (b w.record) ↔ w.rule.Idle w.before := by
      rw [← Rule.run_same_iff]
      exact forall_congr' fun c => by rw [Write.after, hbefore]
    have hnext : (∀ n, (update m w.record w.after n).Same (b n)) ↔ w.rule.Idle w.before := by
      rw [← hafter]
      refine ⟨fun hn => by simpa using hn w.record, fun hw n => ?_⟩
      by_cases hn : n = w.record
      · subst hn
        rwa [update_self]
      · rw [update_of_ne hn]
        exact hm n
    rw [forall_mem_cons]
    constructor
    · intro hall
      have hidle := hnext.mp (hall 1)
      exact ⟨hidle, (ih h.2 (hnext.mpr hidle)).mp fun k => hall (k + 1)⟩
    · rintro ⟨hidle, hrest⟩ k
      cases k with
      | zero => exact hm
      | succ k => exact (ih h.2 (hnext.mpr hidle)).mpr hrest k

/-! ## Which map a record has -/

/-- Records with a map of the batch have different ones, and hold what is in them. -/
structure Tracks (m : Nat → Data) (xs : List Live) : Prop where
  nodup : (xs.filterMap Live.source).Nodup
  holds : ∀ x ∈ xs, ∀ n, x.source = some n → x.now.data = m n

variable {xs ys : List Live}

theorem Tracks.perm (h : Tracks m xs) (hp : xs.Perm ys) : Tracks m ys :=
  ⟨(hp.filterMap _).nodup_iff.mp h.nodup, fun y hy => h.holds y (hp.mem_iff.mpr hy)⟩

theorem Tracks.sublist (h : Tracks m xs) (hs : ys.Sublist xs) : Tracks m ys :=
  ⟨h.nodup.sublist (hs.filterMap _), fun y hy => h.holds y (hs.mem hy)⟩

/-- Records with maps of their own. -/
theorem Tracks.fresh (h : Tracks m xs) (recs : List Record) :
    Tracks m (recs.map (fun r => { source := none, now := r }) ++ xs) := by
  constructor
  · rw [filterMap_append, filterMap_eq_nil_iff.mpr (by simp)]
    exact h.nodup
  · intro x hx n hn
    rcases mem_append.mp hx with hx | hx
    · obtain ⟨r, -, rfl⟩ := mem_map.mp hx
      simp at hn
    · exact h.holds x hx n hn

variable {x : Live}

/-- The other fields of a record do not matter. -/
theorem Tracks.setRecord (h : Tracks m (x :: xs)) (r : Record) :
    Tracks m ({ x with now := { r with data := x.now.data } } :: xs) := by
  constructor
  · simpa [filterMap_cons] using h.nodup
  · intro y hy n hn
    rcases mem_cons.mp hy with rfl | hy
    · exact h.holds x mem_cons_self n hn
    · exact h.holds y (mem_cons_of_mem _ hy) n hn

theorem Tracks.write {n : Nat} (h : Tracks m (x :: xs)) (hn : x.source = some n) (d : Data) :
    Tracks (update m n d) ({ x with now := { x.now with data := d } } :: xs) := by
  have hcons : (x :: xs).filterMap Live.source = n :: xs.filterMap Live.source := filterMap_cons_some hn
  have hnodup := h.nodup
  rw [hcons, nodup_cons] at hnodup
  constructor
  · simpa [filterMap_cons, hn] using hnodup
  · intro y hy k hk
    rcases mem_cons.mp hy with rfl | hy
    · obtain rfl : n = k := Option.some.inj (hn.symm.trans hk)
      rw [update_self]
    · have hne : k ≠ n := by
        rintro rfl
        exact hnodup.1 (mem_filterMap.mpr ⟨y, hy, hk⟩)
      rw [update_of_ne hne]
      exact h.holds y (mem_cons_of_mem _ hy) k hk

/-- The writes go on from the maps as they are, and the records that come out hold what they leave. -/
def Proceeds (m : Nat → Data) (ws : List Write) (ys : List Live) : Prop := Replays m ws ∧ Tracks (mapsAfter m ws) ys

theorem Proceeds.trans {zs : List Live} (h : Proceeds m ws ys)
    (h' : Proceeds (mapsAfter m ws) ws' zs) : Proceeds m (ws ++ ws') zs :=
  ⟨h.1.append h'.1, by rw [mapsAfter, foldl_append]; exact h'.2⟩

theorem runRules_proceeds (rules : List Rule) : ∀ {m : Nat → Data} {x : Live} {xs : List Live}, Tracks m (x :: xs) →
    Proceeds m (runRules rules x).1 ((runRules rules x).2 :: xs) := by
  induction rules with
  | nil => exact fun h => ⟨trivial, h⟩
  | cons r rules ih =>
    intro m x xs h
    obtain ⟨source, now⟩ := x
    cases source with
    | none =>
      have hxs := h.sublist (sublist_cons_self _ _)
      exact ih (hxs.fresh [{ now with data := r.run now.data }])
    | some n =>
      have hdata := h.holds _ mem_cons_self n rfl
      obtain ⟨hreplays, htracks⟩ := ih (h.write rfl (r.run now.data))
      exact ⟨⟨hdata, hreplays⟩, htracks⟩

theorem outcome_proceeds {call : Call} {z : Live} (h : Tracks m (x :: xs)) (hz : call.outcome x = .ok z) :
    Tracks m (z :: xs) := by
  unfold Call.outcome at hz
  split at hz
  · cases hz
    exact h.setRecord _
  · cases hz
    exact (h.sublist (sublist_cons_self x xs)).fresh [_]
  · cases hz
  · cases hz

/-- A step for one record of a batch keeps track. -/
def Keeps (f : Nat → Live → Pass) : Prop :=
  ∀ i {m : Nat → Data} {x : Live} {xs : List Live}, Tracks m (x :: xs) → Proceeds m (f i x).writes ((f i x).out ++ xs)

theorem visit_proceeds (call : Call) (h : Tracks m (x :: xs)) :
    Proceeds m (visit call x).writes ((visit call x).out ++ (visit call x).failed.map Prod.fst ++ xs) := by
  have hrules := runRules_proceeds call.rules h
  simp only [visit]
  split
  · rename_i z hz
    exact ⟨hrules.1, outcome_proceeds hrules.2 hz⟩
  · exact ⟨hrules.1, hrules.2.sublist (sublist_cons_self _ _)⟩
  · exact hrules

theorem visit_keeps {f : Nat → Live → Call} : Keeps fun i x => visit (f i x) x := by
  intro i m x xs h
  obtain ⟨hreplays, htracks⟩ := visit_proceeds (f i x) h
  refine ⟨hreplays, htracks.sublist ?_⟩
  rw [append_assoc]
  exact (Sublist.refl _).append (sublist_append_right _ _)

theorem visitAll_proceeds {f : Nat → Live → Pass} (hf : Keeps f) : ∀ {xs : List Live} (i : Nat) {m : Nat → Data}
    {rest : List Live}, Tracks m (xs ++ rest) → Proceeds m (visitAll f i xs).writes ((visitAll f i xs).out ++ rest)
  | [], _, _, _, h => ⟨trivial, h⟩
  | x :: xs, i, m, rest, h => by
    have hfirst := hf i h
    have hmoved : ((f i x).out ++ (xs ++ rest)).Perm (xs ++ ((f i x).out ++ rest)) := by
      rw [← append_assoc, ← append_assoc]
      exact perm_append_comm.append_right rest
    have hrest := visitAll_proceeds hf (i + 1) (hfirst.2.perm hmoved)
    have hback : ((visitAll f (i + 1) xs).out ++ ((f i x).out ++ rest)).Perm
        ((f i x).out ++ (visitAll f (i + 1) xs).out ++ rest) := by
      rw [← append_assoc]
      exact perm_append_comm.append_right rest
    exact hfirst.trans ⟨hrest.1, hrest.2.perm hback⟩

section

variable {O : Outside}

theorem enrichOne_keeps (targetField : String) (k : Nat) : Keeps (enrichOne O targetField k) := by
  intro i m x xs h
  unfold enrichOne
  split
  · exact ⟨trivial, h⟩
  · exact visit_proceeds _ h

theorem lookupOne_keeps (cfg : LookupConfig) (k : Nat) : Keeps (lookupOne O cfg k) := by
  intro i m x xs h
  unfold lookupOne
  split
  · exact ⟨trivial, h.sublist (sublist_cons_self x xs)⟩
  · exact visit_keeps (f := fun i x => lookupCall cfg (O.answer k i) x.now) i h

theorem scriptOne_keeps (onError : ScriptError) (k : Nat) : Keeps (scriptOne O onError k) := by
  intro i m x xs h
  have hxs := h.sublist (sublist_cons_self x xs)
  unfold scriptOne
  split
  · exact ⟨trivial, hxs.fresh _⟩
  · split
    · exact ⟨trivial, hxs⟩
    · exact ⟨trivial, hxs⟩

/-- **A transform** goes on from the maps as it finds them. -/
theorem pass_proceeds (t : Shipped) (k : Nat) {m : Nat → Data} {xs : List Live} (h : Tracks m xs) :
    Proceeds m (t.pass O k xs).writes (t.pass O k xs).out := by
  have hxs : Tracks m (xs ++ []) := by rwa [append_nil]
  have hall {f : Nat → Live → Pass} (hf : Keeps f) : Proceeds m (visitAll f 0 xs).writes (visitAll f 0 xs).out := by
    simpa using visitAll_proceeds hf 0 hxs
  have hmade : Proceeds m [] ((O.made k).map fun r => { source := none, now := r }) := by
    have hnil : Tracks m [] := h.sublist (nil_sublist xs)
    have hfresh := hnil.fresh (O.made k)
    rw [append_nil] at hfresh
    exact ⟨trivial, hfresh⟩
  cases t with
  | record t => exact hall visit_keeps
  | enricher targetField => exact hall (enrichOne_keeps targetField k)
  | lookup cfg => exact hall (lookupOne_keeps cfg k)
  | script onError => exact hall (scriptOne_keeps onError k)
  | sort => exact ⟨trivial, h.perm ((O.arrange k).2 xs).symm⟩
  | window => exact hmade
  | dbt => exact hmade

theorem applyBatch_replays : ∀ (ts : List Shipped) (k : Nat) {m : Nat → Data} {xs : List Live}, Tracks m xs →
    Replays m (applyBatch O k ts xs).writes
  | [], _, _, _, _ => trivial
  | t :: ts, k, m, xs, h => by
    have hpass := pass_proceeds (O := O) t k h
    unfold applyBatch
    split
    · trivial
    · simp only
      split
      · exact hpass.1
      · exact hpass.1.append (applyBatch_replays ts (k + 1) hpass.2)

/-! ## Copies -/

theorem runRules_copy (rules : List Rule) : ∀ {x : Live}, x.source = none →
    (runRules rules x).1 = [] ∧ (runRules rules x).2.source = none := by
  induction rules with
  | nil => exact fun h => ⟨rfl, h⟩
  | cons r rules ih =>
    intro x h
    unfold runRules
    simp only [h]
    exact ih rfl

theorem applyRecord_copy (i : Nat) : ∀ (ts : List Shipped) (k : Nat) {x : Live}, x.source = none →
    (applyRecord O i k ts x).1 = []
  | [], _, _, _ => rfl
  | .record t :: ts, k, x, h => by
    obtain ⟨hnil, hsource⟩ := runRules_copy (t.call O.V (O.answer k i) x.now).rules h
    unfold applyRecord
    simp only
    split
    · rename_i z hz
      have hz' : z.source = none := by
        unfold Call.outcome at hz
        split at hz
        · cases hz
          exact hsource
        · cases hz
          rfl
        · cases hz
        · cases hz
      rw [hnil, applyRecord_copy i ts (k + 1) hz']
      rfl
    · exact hnil
  | .enricher _ :: ts, k, _, h | .lookup _ :: ts, k, _, h | .script _ :: ts, k, _, h | .sort :: ts, k, _, h
  | .window :: ts, k, _, h | .dbt :: ts, k, _, h => applyRecord_copy i ts (k + 1) h

/-- A chain without a batch transform writes to no map of the batch. -/
theorem writes_eq_nil {chain : List Shipped} {batch : List Record} (h : hasBatch chain = false) :
    writes O chain batch = [] := by
  rw [writes, h, if_neg (by simp), flatMap_eq_nil_iff]
  intro a _
  exact applyRecord_copy a.2 chain 0 rfl

/-! ## A batch -/

variable {chain : List Shipped} {batch : List Record}

theorem mem_accepted {a : Record × Nat} (h : a ∈ accepted batch) : batch[a.2]? = some a.1 :=
  mem_zipIdx_iff_getElem?.mp (mem_filter.mp h).1

theorem tracks_accepted : Tracks (asRead batch) ((accepted batch).map (inBatch O)) := by
  have hplaces : ((accepted batch).map Prod.snd).Nodup := by
    refine Nodup.sublist (filter_sublist.map Prod.snd) ?_
    rw [zipIdx_map_snd]
    exact nodup_range'
  constructor
  · rw [filterMap_map]
    refine (hplaces.filterMap (f := fun n => if O.hasMap n then some n else none) ?_).sublist ?_
    · intro n n' k hn hn'
      simp only [Option.mem_def, Option.ite_none_right_eq_some, Option.some.injEq] at hn hn'
      rw [hn.2, hn'.2]
    · rw [filterMap_map]
      exact Sublist.refl _
  · intro x hx n hn
    obtain ⟨a, ha, rfl⟩ := mem_map.mp hx
    obtain ⟨-, rfl⟩ : O.hasMap a.2 = true ∧ a.2 = n := by simpa [inBatch] using hn
    rw [asRead, mem_accepted ha]
    rfl

theorem writes_replays : Replays (asRead batch) (writes O chain batch) := by
  cases h : hasBatch chain with
  | false =>
    rw [writes_eq_nil h]
    trivial
  | true =>
    rw [writes, if_pos h]
    exact applyBatch_replays chain 0 tracks_accepted

theorem unaltered_of_maps
    (h : ∀ k n, (mapsAfter (asRead batch) ((writes O chain batch).take k) n).Same (asRead batch n)) :
    Unaltered O chain batch := by
  have hnow : ∀ n, (mapsNow O chain batch n).Same (asRead batch n) := by
    intro n
    have hall := h (writes O chain batch).length n
    rwa [take_length] at hall
  have hprocessed : Forall₂ (fun a b => a.data.Same b.data ∧ a.metadata = b.metadata)
      (processed O chain batch) batch := by
    refine forall₂_iff_get.mpr ⟨by simp [processed], fun n hn hn' => ?_⟩
    simp only [processed, get_eq_getElem, getElem_mapIdx, and_true]
    refine fun c => (hnow n c).trans ?_
    rw [asRead, getElem?_eq_getElem hn']
    rfl
  refine ⟨h, hprocessed, fun _ _ _ => checkpointFromRecords_congr hprocessed, fun n r hr => ?_⟩
  cases hr with
  | rejected h _ =>
    rw [asRead, h]
    exact fun _ => rfl
  | record => exact hnow n
  | whole => exact hnow n
  | failed => exact hnow n

/-- **The batch stays as the source read it** exactly if the chain has no batch transform, or every rule that is run on a
map of the batch finds nothing to change. -/
theorem source_batch_unaltered_iff (O : Outside) (chain : List Shipped) (batch : List Record) :
    Unaltered O chain batch ↔ hasBatch chain = false ∨ ∀ w ∈ writes O chain batch, w.rule.Idle w.before := by
  have hreplays : Replays (asRead batch) (writes O chain batch) := writes_replays
  have hlog := hreplays.same_iff fun _ _ => rfl
  constructor
  · exact fun h => .inr (hlog.mp h.maps)
  · rintro (h | h)
    · refine unaltered_of_maps (hlog.mpr ?_)
      rw [writes_eq_nil h]
      simp
    · exact unaltered_of_maps (hlog.mpr h)

/-! ## A cursor column that is dropped -/

def noConversions : Conversions where
  convertType _ _ := none
  castValue v _ := .ok v
  findSubmatch _ _ _ := none
  execute _ _ := none

def quietOutside : Outside where
  V := noConversions
  answer _ _ := {}

/-- A row of the snapshot of `orders`. -/
def orderRow : Record :=
  { data := [("id", .int64 7), ("total", .int64 30)]
    metadata := { table := "orders", snapshotHandoffFile := "binlog.000003", snapshotHandoffPos := 4 } }

def ordersReader : Source.SnapshotCdc.Reader where
  table := "orders"
  resolvedPKs _ := { column := "id", kind := .numeric }
  durable := { file := "binlog.000003", pos := 4 }

def plainConv : Source.Conv where
  trunc _ := 0
  wallClock t := t

/-- Behind `drop_field` for the key and `sort`, the record the checkpoint is computed from has lost its key. -/
theorem cursor_column_dropped :
    let chain : List Shipped := [.record (.dropField ["id"]), .sort]
    (processed quietOutside chain [orderRow]).map Record.data = [[("total", .int64 30)]] ∧
      (checkpointFromRecords plainConv (fun _ => none) ordersReader [orderRow]).isOk = true ∧
      checkpointFromRecords plainConv (fun _ => none) ordersReader (processed quietOutside chain [orderRow]) =
        .error { msg := "mysql_snapshot_cdc snapshot record for orders is missing cursor column id" } := by
  decide

end

end OpenEtl.InPlace
