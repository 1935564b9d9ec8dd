import OpenEtl.Pipeline.Outgoing
import OpenEtl.Pipeline.StoredRecord

/-!
# The dead letters of the runner

A write to the DLQ is of a record that was rejected, failed in the chain or came out of it (`writeBatch_goes`). For a
chain of stages these are the records of `DeadLettered` (`writeBatch_deadLettered`), where the transforms leave the maps
they are given alone, which the runner's records do not show.
-/

namespace OpenEtl.Pipeline

open Storage (Ctx)
open List

/-! ## Chains of stages -/

namespace Stored

/-- `Apply` of transform `k` for the `i`-th record it is given. -/
def applyOne (F : Faults) (k : Nat) (t : Stage) (i : Nat) (rec : Record) : Except TransformErr Record :=
  match F.fail k i with
  | some (e, _) => .error (.failed e)
  | none => t.apply rec

/-- The records of a batch one by one, from the `i`-th on. -/
def applyStage (F : Faults) (k : Nat) (t : Stage) (time i : Nat) : List Item → List Item × List (Item × Cause) :=
  applyEach { apply := fun _ => applyOne F k t } time i

/-- `ApplyBatch` of a batch transform. -/
def applyAll (F : Faults) (k : Nat) (t : Stage) (time : Nat) (recs : List Item) : List Item × Option BatchErr :=
  match F.whole k with
  | some (e, _) => (recs, some (.other e))
  | none =>
    let (out, fs) := applyStage F k t time 0 recs
    (out, if fs.isEmpty then none else some (.partialFailure fs))

/-- The chain from transform `k` on, with the faults of one batch. -/
def transformsFrom (F : Faults) : Nat → List Stage → List Transform
  | _, [] => []
  | k, t :: ts =>
    { apply := fun _ => applyOne F k t, applyBatch := if t.batch then some (applyAll F k t) else none } ::
      transformsFrom F (k + 1) ts

theorem chainApply_transformsFrom (F : Faults) (time i : Nat) : ∀ (ts : List Stage) (k : Nat) (rec : Record),
    chainApply (transformsFrom F k ts) time i rec = recordChain F i k ts rec
  | [], _, _ => rfl
  | t :: ts, k, rec => by
    have ih := chainApply_transformsFrom F time i ts (k + 1)
    unfold chainApply at ih ⊢
    simp only [transformsFrom, foldlM_cons, recordChain, applyOne]
    cases F.fail k i with
    | some p => rfl
    | none =>
      cases t.apply rec with
      | error e => rfl
      | ok r => exact ih r

theorem any_transformsFrom (F : Faults) : ∀ (ts : List Stage) (k : Nat),
    (transformsFrom F k ts).any (·.applyBatch.isSome) = hasBatch ts
  | [], _ => rfl
  | t :: ts, k => by
    have ih := any_transformsFrom F ts (k + 1)
    unfold hasBatch at ih ⊢
    rw [transformsFrom, any_cons, any_cons, ih]
    cases t.batch <;> rfl

/-- No transform writes to the map it is given. -/
structure Alone (stages : List Stage) (F : Faults) : Prop where
  left : ∀ t ∈ stages, ∀ r, t.left r = r.data
  fail : ∀ k i e d, F.fail k i = some (e, d) → ∀ r : Record, d r = r.data
  whole : ∀ k e d, F.whole k = some (e, d) → ∀ r : Record, d r = r.data

/-- The map of the source record is as it was read. -/
structure Cell.Clean (c : Cell) : Prop where
  mine : c.mine = c.source.data
  shared : c.shared = true → c.cur.data = c.source.data

theorem Cell.Clean.touch {c : Cell} (h : c.Clean) : (c.touch c.cur.data).mine = c.source.data := by
  unfold Cell.touch
  cases hs : c.shared with
  | true => exact h.shared hs
  | false => exact h.mine

/-- The passage of a record is what `Apply` says, and a failure stores the record as it came. -/
def Follows (c : Cell) (p : Passage) : Except TransformErr Record → Prop
  | .ok r => ∃ c', p = .on c' ∧ c'.cur = r
  | .error .filtered => ∃ c', p = .filtered c'
  | .error (.failed e) => ∃ c', p = .failed c' c.cur e

/-- What becomes of the records of a batch at transform `k`, from the `i`-th on. -/
def passages (F : Faults) (k : Nat) (t : Stage) (i : Nat) (live : List Cell) : List Passage :=
  live.mapIdx fun j c => pass t (F.fail k (i + j)) c

variable {F : Faults} {k : Nat} {t : Stage}

section

variable (hleft : ∀ r, t.left r = r.data)
  (hfail : ∀ k i e d, F.fail k i = some (e, d) → ∀ r : Record, d r = r.data)

include hleft hfail

theorem pass_clean {i : Nat} {c : Cell} (hc : c.Clean) :
    (∀ c', (pass t (F.fail k i) c).out = some c' → c'.Clean) ∧
      (∀ c', (pass t (F.fail k i) c).gone = some c' → c'.mine = c'.source.data) ∧
      Follows c (pass t (F.fail k i) c) (applyOne F k t i c.cur) := by
  have htouch := hc.touch
  unfold pass applyOne
  cases hf : F.fail k i with
  | some p =>
    obtain ⟨e, d⟩ := p
    have hd := hfail k i e d hf c.cur
    refine ⟨by simp [Passage.out], ?_, ?_⟩
    · intro c' hc'
      cases hc'
      rw [hd]
      exact htouch
    · simp only [hd]
      exact ⟨_, rfl⟩
  | none =>
    simp only [hleft]
    rcases ha : t.apply c.cur with e | r
    · cases e <;>
      · refine ⟨by simp [Passage.out], ?_, _, rfl⟩
        intro c' hc'
        cases hc'
        exact htouch
    · refine ⟨?_, by simp [Passage.gone], _, rfl, rfl⟩
      intro c' hc'
      cases hc'
      refine ⟨htouch, fun hs => ?_⟩
      simp only [Bool.and_eq_true] at hs
      rw [t.same_left hs.2 c.cur r ha, hleft]
      exact hc.shared hs.1

/-- A transform over a batch, beside the passages of its cells. -/
theorem applyStage_passages (time : Nat) :
    ∀ (live : List Cell) (its : List Item) (i : Nat), (∀ c ∈ live, c.Clean) →
      its.map (·.record) = live.map (·.cur) →
        (applyStage F k t time i its).1.map (·.record) = ((passages F k t i live).filterMap Passage.out).map (·.cur) ∧
        (applyStage F k t time i its).2.map (·.1.record) =
          ((passages F k t i live).filterMap (Passage.failure k)).map (·.stored)
  | [], its, i, _, hits => by
    obtain rfl : its = [] := map_eq_nil_iff.mp hits
    exact ⟨rfl, rfl⟩
  | c :: live, [], i, _, hits => by simp at hits
  | c :: live, it :: its, i, hclean, hits => by
    obtain ⟨hrec, hrest⟩ := List.cons.inj hits
    obtain ⟨hout, hfs⟩ := applyStage_passages time live its (i + 1)
      (fun c' hc' => hclean c' (mem_cons_of_mem _ hc')) hrest
    obtain ⟨-, -, hfollows⟩ := pass_clean hleft hfail (hclean c mem_cons_self)
    have hcons : passages F k t i (c :: live) = pass t (F.fail k i) c :: passages F k t (i + 1) live := by
      simp only [passages, mapIdx_cons, Nat.add_zero, Nat.add_assoc, Nat.add_comm 1]
    have hrec' : it.record = c.cur := hrec
    unfold applyStage applyEach
    simp only [hcons, hrec']
    rcases hres : applyOne F k t i c.cur with (_ | e) | r
    · rw [hres] at hfollows
      obtain ⟨c', hp⟩ := hfollows
      simp only [hp]
      exact ⟨hout, hfs⟩
    · rw [hres] at hfollows
      obtain ⟨c', hp⟩ := hfollows
      simp only [hp, filterMap_cons, Passage.failure, map_cons, hrec']
      exact ⟨hout, congrArg _ hfs⟩
    · rw [hres] at hfollows
      obtain ⟨c', hp, hcur⟩ := hfollows
      simp only [hp, filterMap_cons, Passage.out, map_cons, hcur]
      exact ⟨congrArg _ hout, hfs⟩

/-- The records of a batch are on their way or gone, with their maps as they were read. -/
structure Kept (all live gone : List Cell) : Prop where
  clean : ∀ c ∈ live, c.Clean
  mine : ∀ c ∈ gone, c.mine = c.source.data
  there : ∀ c ∈ all, ∃ c' ∈ live ++ gone, c'.source = c.source

theorem Kept.pass {all live gone : List Cell} (h : Kept all live gone) :
    Kept all ((passages F k t 0 live).filterMap Passage.out)
      (gone ++ (passages F k t 0 live).filterMap Passage.gone) := by
  refine ⟨fun c hc => ?_, fun c hc => ?_, fun c hc => ?_⟩
  · obtain ⟨p, hp, hpc⟩ := mem_filterMap.mp hc
    obtain ⟨i, hi, rfl⟩ := mem_mapIdx.mp hp
    exact (pass_clean hleft hfail (h.clean _ (getElem_mem hi))).1 c hpc
  · rcases mem_append.mp hc with hc | hc
    · exact h.mine c hc
    · obtain ⟨p, hp, hpc⟩ := mem_filterMap.mp hc
      obtain ⟨i, hi, rfl⟩ := mem_mapIdx.mp hp
      exact (pass_clean hleft hfail (h.clean _ (getElem_mem hi))).2.1 c hpc
  · obtain ⟨c', hc', hsource⟩ := h.there c hc
    rw [← hsource]
    rcases mem_append.mp hc' with hc' | hc'
    · obtain ⟨i, hi, rfl⟩ := getElem_of_mem hc'
      have hp : Stored.pass t (F.fail k (0 + i)) live[i] ∈ passages F k t 0 live := mem_mapIdx.mpr ⟨i, hi, rfl⟩
      have hof := fun c' => @pass_source c' t (F.fail k (0 + i)) live[i]
      generalize Stored.pass t (F.fail k (0 + i)) live[i] = p at hp hof
      cases p with
      | on c' => exact ⟨c', mem_append_left _ (mem_filterMap.mpr ⟨_, hp, rfl⟩), hof c' (.inl rfl)⟩
      | filtered c' | failed c' _ _ =>
        exact ⟨c', mem_append_right _ (mem_append_right _ (mem_filterMap.mpr ⟨_, hp, rfl⟩)), hof c' (.inr rfl)⟩
    · exact ⟨c', mem_append_right _ (mem_append_left _ hc'), rfl⟩

end

/-- The two models of `ApplyBatch` agree: on the records that are left and on the failures, or on the error, with every
record of the batch among the cells. -/
def Agrees (all : List Cell) (r : Except (Cause × List Cell) (List Cell × List Failure)) : BatchResult → Prop
  | .failed e => ∃ cells, r = .error (e, cells) ∧
      ∀ c ∈ all, ∃ c' ∈ cells, c'.source = c.source ∧ c'.mine = c.source.data
  | .ok out fs => ∃ cells fs', r = .ok (cells, fs') ∧ out.map (·.record) = cells.map (·.cur) ∧
      fs.map (·.1.record) = fs'.map (·.stored)

/-- A batch transform that does not fail as a whole does what a record transform does, and ends the loop when nothing
is left. -/
theorem loop_batch (hb : t.batch = true) (hw : F.whole k = none) (time : Nat) (ts : List Stage) (its : List Item)
    (fs0 : List (Item × Cause)) :
    chainApplyBatchLoop time (transformsFrom F k (t :: ts)) its fs0 =
      if (applyStage F k t time 0 its).1 = [] then
        .ok [] (fs0 ++ (applyStage F k t time 0 its).2)
      else chainApplyBatchLoop time (transformsFrom F (k + 1) ts)
        (applyStage F k t time 0 its).1
        (fs0 ++ (applyStage F k t time 0 its).2) := by
  rw [transformsFrom, chainApplyBatchLoop]
  simp only [hb, if_true, applyAll, hw]
  rcases applyStage F k t time 0 its with ⟨out, _ | ⟨p, fs⟩⟩
  · simp only [isEmpty_nil, if_true, append_nil]
  · rfl

theorem applyBatch_agrees (time : Nat) {all : List Cell} : ∀ (ts : List Stage) (k : Nat) (live gone : List Cell)
    (fs : List Failure) (its : List Item) (fs0 : List (Item × Cause)), Alone ts F → Kept all live gone →
      its.map (·.record) = live.map (·.cur) → fs0.map (·.1.record) = fs.map (·.stored) →
        Agrees all (applyBatch F k ts live gone fs) (chainApplyBatchLoop time (transformsFrom F k ts) its fs0)
  | [], k, live, gone, fs, its, fs0, _, _, hits, hfs => ⟨live, fs, rfl, hits, hfs⟩
  | t :: ts, k, live, gone, fs, its, fs0, hal, hkept, hits, hfs => by
    have hleft := hal.left t mem_cons_self
    obtain ⟨hout, hfail⟩ := applyStage_passages hleft hal.fail time live its 0 hkept.clean hits
    have hfs' : (fs0 ++ (applyStage F k t time 0 its).2).map (·.1.record) =
        (fs ++ (passages F k t 0 live).filterMap (Passage.failure k)).map (·.stored) := by
      rw [map_append, map_append, hfs, hfail]
    -- the rest of the chain, over the records that come out of this transform
    have hrest := applyBatch_agrees time ts (k + 1) _ _ _ _ _
      ⟨fun t' ht' => hal.left t' (mem_cons_of_mem _ ht'), hal.fail, hal.whole⟩ (hkept.pass hleft hal.fail) hout hfs'
    have hzero : (live.mapIdx fun i c => pass t (F.fail k i) c) = passages F k t 0 live := by simp [passages]
    simp only [applyBatch, hzero]
    cases hb : t.batch with
    | false =>
      rw [transformsFrom, hb]
      exact hrest
    | true =>
      cases hw : F.whole k with
      | some p =>
        obtain ⟨e, d⟩ := p
        have hloop : chainApplyBatchLoop time (transformsFrom F k (t :: ts)) its fs0 = .failed e := by
          rw [transformsFrom, chainApplyBatchLoop]
          simp only [hb, if_true, applyAll, hw]
        rw [hloop]
        refine ⟨_, rfl, fun c hc => ?_⟩
        obtain ⟨c', hc', hsource⟩ := hkept.there c hc
        rw [← hsource]
        rcases mem_append.mp hc' with hc' | hc'
        · refine ⟨_, mem_append_left _ (mem_map.mpr ⟨c', hc', rfl⟩), rfl, ?_⟩
          rw [hal.whole k e d hw]
          exact (hkept.clean c' hc').touch
        · exact ⟨c', mem_append_right _ hc', rfl, hkept.mine c' hc'⟩
      | none =>
        rw [loop_batch hb hw]
        simp only [Bool.true_and]
        -- both loops end when the transform has no output
        have hnil : (applyStage F k t time 0 its).1 = [] ↔
            ((passages F k t 0 live).filterMap Passage.out).isEmpty = true := by
          rw [List.isEmpty_iff, ← map_eq_nil_iff, hout, map_eq_nil_iff]
        by_cases hcells : ((passages F k t 0 live).filterMap Passage.out).isEmpty = true
        · rw [if_pos (hnil.mpr hcells), if_pos hcells]
          exact ⟨[], _, rfl, rfl, hfs'⟩
        · rw [if_neg (mt hnil.mp hcells), if_neg hcells]
          exact hrest

/-- **The runner's dead letters are those of the chain**, where the maps of the records are left alone. -/
theorem writeBatch_deadLettered {C : Cfg} {stages : List Stage} (E : Env) (runCtx : Ctx) (s : St) {batch : List Item}
    (htransforms : C.transforms = transformsFrom F 0 stages) (hal : hasBatch stages = true → Alone stages F)
    {it : Item} {cause : Cause} {err : Option Err}
    (h : .dlq it cause err ∈ Trace.added s.log (writeBatch C E runCtx s batch).log) :
    ∃ p x, DeadLettered stages F (batch.map (·.record)) p x it.record := by
  generalize hrecs : batch.map (·.record) = recs
  have hacc : accepted recs = (batch.filter (·.record.rejection.isNone)).map (·.record) := by
    rw [← hrecs, accepted, filter_map]
    rfl
  have hchain : hasBatchTransform C = hasBatch stages := by
    rw [hasBatchTransform, htransforms, any_transformsFrom]
  have hkept : Kept ((accepted recs).map Cell.start) ((accepted recs).map Cell.start) [] := by
    refine ⟨fun c hc => ?_, by simp, fun c hc => ⟨c, by simpa using hc, rfl⟩⟩
    obtain ⟨r, -, rfl⟩ := mem_map.mp hc
    exact ⟨rfl, fun _ => rfl⟩
  have hagrees : hasBatch stages = true → ∀ t, Agrees ((accepted recs).map Cell.start) (transformed stages F recs)
      (chainApplyBatch C.transforms t (batch.filter (·.record.rejection.isNone))) := by
    intro hb t
    rw [htransforms]
    exact applyBatch_agrees t stages 0 _ [] [] _ [] (hal hb) hkept (by rw [hacc, map_map, map_map]; rfl) rfl
  have hdead := writeBatch_goes C E (D := fun it => ∃ p x, DeadLettered stages F recs p x it.record) (fun _ => id) runCtx s
    (fun it hit hrej => ⟨_, _, .rejected (hrecs ▸ mem_map.mpr ⟨it, hit, rfl⟩) hrej⟩)
    ⟨fun hb n x hx t => ?_, fun hb t e hfail x hx => ?_, fun hb t out fs hok => ⟨fun x hx => ?_, fun q hq => ?_⟩⟩
  · exact hdead.added _ h
  · have hn : (accepted recs)[n]? = some x.record := by
      rw [hacc, getElem?_map, hx]
      rfl
    rw [hchain] at hb
    rw [htransforms, chainApply_transformsFrom]
    rcases hres : recordChain F n 0 stages x.record with (_ | e) | r
    · trivial
    · exact ⟨_, _, .recordTransform hb hn hres⟩
    · exact ⟨_, _, .recordOutput hb hn hres⟩
  · rw [hchain] at hb
    have hag := hagrees hb t
    rw [hfail] at hag
    obtain ⟨cells, hres, hall⟩ := hag
    obtain ⟨c, hc, hsource, hmine⟩ := hall (Cell.start x.record) (by
      rw [hacc]
      exact mem_map.mpr ⟨_, mem_map.mpr ⟨x, hx, rfl⟩, rfl⟩)
    have hstored : x.record = { c.source with data := c.mine } := by
      rw [hsource, hmine]
      rfl
    rw [hstored]
    exact ⟨_, _, .wholeBatch hb hres hc⟩
  · rw [hchain] at hb
    have hag := hagrees hb t
    rw [hok] at hag
    obtain ⟨cells, fs', hres, hcur, -⟩ := hag
    obtain ⟨c, hc, heq⟩ := mem_map.mp (hcur ▸ mem_map.mpr ⟨x, hx, rfl⟩)
    rw [← heq]
    exact ⟨_, _, .batchOutput hb hres hc⟩
  · rw [hchain] at hb
    have hag := hagrees hb t
    rw [hok] at hag
    obtain ⟨cells, fs', hres, -, hfs⟩ := hag
    obtain ⟨f, hf, heq⟩ := mem_map.mp (hfs ▸ mem_map.mpr ⟨q, hq, rfl⟩)
    rw [← heq]
    exact ⟨_, _, .batchTransform hb hres hf⟩

/-- A batch transform that fails for every record. -/
def failing : Stage := { apply := fun _ => .error (.failed { msg := "lookup" }), batch := true }

theorem failing_deadLettered : ∃ p x, DeadLettered [failing] {} [{}] p x {} :=
  writeBatch_deadLettered (C := { transforms := transformsFrom {} 0 [failing] }) {} .background {} rfl
    (fun _ => ⟨by simp [failing], by simp, by simp⟩)
    (show .dlq ⟨0, {}⟩ { msg := "lookup" } none ∈ Trace.added _ (writeBatch _ _ _ _ [⟨0, {}⟩]).log by decide)

end Stored

end OpenEtl.Pipeline
