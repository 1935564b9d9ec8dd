import OpenEtl.Pipeline.Commit

/-!
# What a dead letter holds (`pipeline/pipeline.go:1193-1390`, `core/core.go:329-396`)

| here | there |
| --- | --- |
| `Stage` | a transform of the chain |
| `recordChain` | `TransformChain.Apply` (core.go:329), which copies the Data map first |
| `applyBatch` | `TransformChain.ApplyBatch` (core.go:360), which does not |
| `DeadLettered` | the calls of `handleFailedRecord` in `writeBatch` |

A transform may write to the Data map it is given, and most of those built in do. A chain without a batch transform
works on a copy of the source record. In `ApplyBatch` the first transform is given the map of the source record and,
as long as each returns the map it was given, so are the next.
-/

namespace OpenEtl.Pipeline.Stored

open List

/-! ## The chain -/

/-- A transform that depends on its record only. -/
structure Stage where
  apply : Record → Except TransformErr Record
  /-- what the map it was given holds afterwards -/
  left : Record → Data := fun r => r.data
  /-- it returns the map it was given -/
  same : Bool := false
  same_left : same = true → ∀ r r', apply r = .ok r' → r'.data = left r := by intro h; cases h
  /-- it implements `BatchTransform`, does to each record of a batch what `Apply` does to it, and returns those that did
  not fail (the enricher, which returns the others too, is not one of these) -/
  batch : Bool := false

def chainOf (stages : List Stage) (rec : Record) : Except TransformErr Record := stages.foldlM (fun r t => t.apply r) rec

/-- What the outside does to one batch: `fail k i` is an error of transform `k` for the `i`-th record it is given, and
`whole k` one for all of them, with what the transform had written to the maps. -/
structure Faults where
  fail : Nat → Nat → Option (Cause × (Record → Data)) := fun _ _ => none
  whole : Nat → Option (Cause × (Record → Data)) := fun _ => none

/-- `TransformChain.Apply` for the `i`-th record, from transform `k` on. -/
def recordChain (F : Faults) (i : Nat) : Nat → List Stage → Record → Except TransformErr Record
  | _, [], rec => .ok rec
  | k, t :: ts, rec =>
    match F.fail k i with
    | some (e, _) => .error (.failed e)
    | none =>
      match t.apply rec with
      | .ok r => recordChain F i (k + 1) ts r
      | .error e => .error e

/-- A record of a batch on its way: as the source read it, as it is now, what the map of the source record holds, and
whether that is still its map. -/
structure Cell where
  source : Record
  cur : Record
  mine : Data
  shared : Bool

def Cell.start (rec : Record) : Cell := { source := rec, cur := rec, mine := rec.data, shared := true }

/-- A transform has written to the record's map. -/
def Cell.touch (c : Cell) (d : Data) : Cell := { c with mine := if c.shared then d else c.mine }

inductive Passage
  | on (c : Cell)
  | filtered (c : Cell)
  | failed (c : Cell) (stored : Record) (e : Cause)

def pass (t : Stage) (fault : Option (Cause × (Record → Data))) (c : Cell) : Passage :=
  match fault with
  | some (e, d) => .failed (c.touch (d c.cur)) { c.cur with data := d c.cur } e
  | none =>
    match t.apply c.cur with
    | .ok r => .on { c.touch (t.left c.cur) with cur := r, shared := c.shared && t.same }
    | .error .filtered => .filtered (c.touch (t.left c.cur))
    | .error (.failed e) => .failed (c.touch (t.left c.cur)) { c.cur with data := t.left c.cur } e

def Passage.out : Passage → Option Cell
  | .on c => some c
  | _ => none

def Passage.gone : Passage → Option Cell
  | .on _ => none
  | .filtered c | .failed c _ _ => some c

/-- A record that failed at one transform, and what `FailedRecords` has of it. -/
structure Failure where
  stage : Nat
  source : Record
  stored : Record
  cause : Cause

def Passage.failure (k : Nat) : Passage → Option Failure
  | .failed c stored cause => some { stage := k, source := c.source, stored, cause }
  | _ => none

/-- `TransformChain.ApplyBatch` from transform `k` on: the records that are left and the failures, or the error for the
whole batch with all its records. A batch transform without output ends the loop. -/
def applyBatch (F : Faults) : Nat → List Stage → List Cell → List Cell → List Failure →
    Except (Cause × List Cell) (List Cell × List Failure)
  | _, [], live, _, fs => .ok (live, fs)
  | k, t :: ts, live, gone, fs =>
    match if t.batch then F.whole k else none with
    | some (e, d) => .error (e, live.map (fun c => c.touch (d c.cur)) ++ gone)
    | none =>
      let passages := live.mapIdx fun i c => pass t (F.fail k i) c
      let out := passages.filterMap Passage.out
      let fs := fs ++ passages.filterMap (Passage.failure k)
      if t.batch && out.isEmpty then .ok ([], fs)
      else applyBatch F (k + 1) ts out (gone ++ passages.filterMap Passage.gone) fs

/-! ## Dead letters -/

inductive Point
  | rejection
  | recordTransform
  /-- in a chain with a batch transform, at transform `k` -/
  | batchTransform (k : Nat)
  | wholeBatch
  /-- at the identity gate, or at the sink -/
  | behind
deriving DecidableEq, Repr

section

variable (stages : List Stage) (F : Faults) (batch : List Record)

def accepted : List Record := batch.filter (·.rejection.isNone)

def hasBatch : Bool := stages.any (·.batch)

def transformed : Except (Cause × List Cell) (List Cell × List Failure) :=
  applyBatch F 0 stages ((accepted batch).map Cell.start) [] []

/-- `writeBatch` gives `stored` to `handleFailedRecord` for the record that was read as `source`. -/
inductive DeadLettered : Point → (source stored : Record) → Prop
  | rejected {r : Record} (h : r ∈ batch) (hr : r.rejection ≠ none) : DeadLettered .rejection r r
  | recordTransform {i : Nat} {r : Record} {e : Cause} (hchain : hasBatch stages = false)
      (h : (accepted batch)[i]? = some r) (hf : recordChain F i 0 stages r = .error (.failed e)) :
      DeadLettered .recordTransform r r
  | batchTransform {out : List Cell} {fs : List Failure} {f : Failure} (hchain : hasBatch stages = true)
      (h : transformed stages F batch = .ok (out, fs)) (hf : f ∈ fs) :
      DeadLettered (.batchTransform f.stage) f.source f.stored
  | wholeBatch {e : Cause} {cells : List Cell} {c : Cell} (hchain : hasBatch stages = true)
      (h : transformed stages F batch = .error (e, cells)) (hc : c ∈ cells) :
      DeadLettered .wholeBatch c.source { c.source with data := c.mine }
  | recordOutput {i : Nat} {r out : Record} (hchain : hasBatch stages = false)
      (h : (accepted batch)[i]? = some r) (hok : recordChain F i 0 stages r = .ok out) : DeadLettered .behind r out
  | batchOutput {out : List Cell} {fs : List Failure} {c : Cell} (hchain : hasBatch stages = true)
      (h : transformed stages F batch = .ok (out, fs)) (hc : c ∈ out) : DeadLettered .behind c.source c.cur

end

/-! ## How far a record has come -/

theorem chainOf_append (ts ts' : List Stage) (rec : Record) :
    chainOf (ts ++ ts') rec = chainOf ts rec >>= chainOf ts' := by
  rw [chainOf, foldlM_append]
  rfl

variable {F : Faults}

/-- A record that comes out of the chain is what the chain makes of it. -/
theorem recordChain_ok {i : Nat} : ∀ {ts : List Stage} {k : Nat} {rec out : Record},
    recordChain F i k ts rec = .ok out → chainOf ts rec = .ok out
  | [], _, _, _, h => h
  | t :: ts, k, rec, out, h => by
    unfold recordChain at h
    cases hf : F.fail k i with
    | some p => simp [hf] at h
    | none =>
      simp only [hf] at h
      cases ha : t.apply rec with
      | error e => simp [ha] at h
      | ok r =>
        simp only [ha] at h
        have hrest := recordChain_ok h
        simp only [chainOf, foldlM_cons, ha]
        exact hrest

/-- The record has been through these transforms. -/
def Cell.Through (ts : List Stage) (c : Cell) : Prop := chainOf ts c.source = .ok c.cur

/-- A failure is of a record that had come to its transform; its map may have been written to. -/
def Failure.At (ts : List Stage) (f : Failure) : Prop :=
  ∃ r, chainOf (ts.take f.stage) f.source = .ok r ∧ ∃ d, f.stored = { r with data := d }

variable {c c' : Cell} {fault : Option (Cause × (Record → Data))} {t : Stage} {ts : List Stage}

theorem pass_spec (hc : c.Through ts) (rest : List Stage) :
    (∀ c', (pass t fault c).out = some c' → c'.Through (ts ++ [t])) ∧
      ∀ f, (pass t fault c).failure ts.length = some f → f.At (ts ++ rest) := by
  have hat : ∀ d e, Failure.At (ts ++ rest)
      { stage := ts.length, source := c.source, stored := { c.cur with data := d }, cause := e } := by
    refine fun d e => ⟨c.cur, ?_, d, rfl⟩
    rw [take_left' rfl]
    exact hc
  unfold pass
  split
  · exact ⟨by simp [Passage.out], fun f h => Option.some.inj h ▸ hat _ _⟩
  split
  · rename_i r hr
    refine ⟨fun c' h => ?_, by simp [Passage.failure]⟩
    cases h
    unfold Cell.Through at hc ⊢
    rw [chainOf_append, Cell.touch, hc]
    change chainOf [t] c.cur = .ok r
    rw [chainOf, foldlM_cons, hr]
    rfl
  · exact ⟨by simp [Passage.out], by simp [Passage.failure]⟩
  · exact ⟨by simp [Passage.out], fun f h => Option.some.inj h ▸ hat _ _⟩

theorem pass_source (t : Stage) (fault : Option (Cause × (Record → Data))) (c : Cell)
    (h : (pass t fault c).out = some c' ∨ (pass t fault c).gone = some c') : c'.source = c.source := by
  unfold pass at h
  split at h
  · simp only [Passage.out, Passage.gone, Option.some.injEq, reduceCtorEq, false_or] at h
    rw [← h]
    rfl
  · split at h <;> simp only [Passage.out, Passage.gone, Option.some.injEq, reduceCtorEq, false_or, or_false] at h <;>
      rw [← h] <;> rfl

/-- **What `ApplyBatch` returns**: records that have been through the whole chain, and failures where they happened; or,
for the whole batch, its source records. -/
theorem applyBatch_spec (F : Faults) : ∀ (ts done : List Stage) (live gone : List Cell) (fs : List Failure),
    (∀ c ∈ live, c.Through done) → (∀ f ∈ fs, f.At (done ++ ts)) →
      ∀ out fs', applyBatch F done.length ts live gone fs = .ok (out, fs') →
        (∀ c ∈ out, c.Through (done ++ ts)) ∧ ∀ f ∈ fs', f.At (done ++ ts)
  | [], done, live, gone, fs, hlive, hfs, out, fs', h => by
    cases Except.ok.inj h
    rw [append_nil] at hfs ⊢
    exact ⟨hlive, hfs⟩
  | t :: ts, done, live, gone, fs, hlive, hfs, out, fs', h => by
    unfold applyBatch at h
    split at h
    · cases h
    · have hout : ∀ c ∈ (live.mapIdx fun i c => pass t (F.fail done.length i) c).filterMap Passage.out,
          c.Through (done ++ [t]) := by
        intro c hc
        obtain ⟨p, hp, hpc⟩ := mem_filterMap.mp hc
        obtain ⟨i, hi, rfl⟩ := mem_mapIdx.mp hp
        exact (pass_spec (hlive _ (getElem_mem hi)) []).1 c hpc
      have hfail : ∀ f ∈ fs ++ (live.mapIdx fun i c => pass t (F.fail done.length i) c).filterMap
          (Passage.failure done.length), f.At (done ++ t :: ts) := by
        intro f hf
        rcases mem_append.mp hf with hf | hf
        · exact hfs f hf
        · obtain ⟨p, hp, hpf⟩ := mem_filterMap.mp hf
          obtain ⟨i, hi, rfl⟩ := mem_mapIdx.mp hp
          exact (pass_spec (hlive _ (getElem_mem hi)) (t :: ts)).2 f hpf
      simp only at h
      split at h
      · cases Except.ok.inj h
        exact ⟨by simp, hfail⟩
      · have hassoc : done ++ t :: ts = done ++ [t] ++ ts := by simp
        have hlen : done.length + 1 = (done ++ [t]).length := by simp
        rw [hassoc] at hfail ⊢
        rw [hlen] at h
        exact applyBatch_spec F ts (done ++ [t]) _ _ _ hout hfail out fs' h

/-- What a record is stored as, at each point. -/
def StoredAt (stages : List Stage) (x y : Record) : Point → Prop
  | .rejection | .recordTransform => y = x
  | .batchTransform k => ∃ r, chainOf (stages.take k) x = .ok r ∧ ∃ d, y = { r with data := d }
  | .wholeBatch => ∃ d, y = { x with data := d }
  | .behind => chainOf stages x = .ok y

theorem DeadLettered.stored {stages : List Stage} {batch : List Record} {p : Point} {x y : Record}
    (h : DeadLettered stages F batch p x y) : StoredAt stages x y p := by
  have hstart : ∀ c ∈ (accepted batch).map Cell.start, c.Through [] := by
    intro c hc
    obtain ⟨r, -, rfl⟩ := mem_map.mp hc
    rfl
  have hspec := fun out fs h => applyBatch_spec F stages [] _ [] [] hstart (by simp) out fs h
  cases h with
  | rejected => rfl
  | recordTransform => rfl
  | batchTransform hchain h hf => exact (hspec _ _ h).2 _ hf
  | wholeBatch => exact ⟨_, rfl⟩
  | recordOutput hchain h hok => exact recordChain_ok hok
  | batchOutput hchain h hc => exact (hspec _ _ h).1 _ hc

end OpenEtl.Pipeline.Stored
