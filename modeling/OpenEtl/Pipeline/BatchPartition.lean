import Mathlib.Data.List.Perm.Subperm
import OpenEtl.Pipeline.Outgoing

/-!
# What becomes of the records of a batch transform (`transform/enricher.go`, `transform/sort.go`, `transform/window.go`)

The functions `ApplyBatch` are those of enricher.go:319 and 979, sort.go:140 and window.go:247, the last up to what it
emits.

`distinct`, like every transform that is not a batch transform, is given the records of a batch one by one by the
chain (`Stage.record`). What `Apply` returns for a record is arbitrary, so any pattern of failures is.
-/

namespace OpenEtl.Pipeline.Partition

open List

/-! ## Batch transforms -/

/-- How a transform with a semaphore goes about a batch: the context may end before a record's turn, and failures are
listed as they come in. -/
structure Workers where
  /-- `t.sem` is set, and the lookup is in query mode -/
  concurrent : Bool := false
  expired : Nat → Nat → Option CtxErr := fun _ _ => none
  completion : Nat → { f : List (Item × Cause) → List (Item × Cause) // ∀ l, (f l).Perm l } :=
    fun _ => ⟨id, List.Perm.refl⟩

/-- What is collected for the `i`-th of `n` records. -/
def Workers.resultOf (W : Workers) (apply : Nat → Nat → Record → Except TransformErr Record) (t n i : Nat) (it : Item) :
    Except TransformErr Record :=
  match if W.concurrent && decide (1 < n) then W.expired t i else none with
  | some e => .error (.failed e.toErr.toCause)
  | none => apply t i it.record

def Workers.results (W : Workers) (apply : Nat → Nat → Record → Except TransformErr Record) (t : Nat)
    (recs : List Item) : List (Item × Except TransformErr Record) :=
  recs.mapIdx fun i it => (it, W.resultOf apply t recs.length i it)

def succeeded (p : Item × Except TransformErr Record) : Option Item :=
  match p.2 with
  | .ok r => some { p.1 with record := r }
  | .error _ => none

def failure (p : Item × Except TransformErr Record) : Option (Item × Cause) :=
  match p.2 with
  | .error (.failed e) => some (p.1, e)
  | _ => none

/-- `NewPartialTransformError`. -/
def partialTransformError (failures : List (Item × Cause)) : Option BatchErr :=
  if failures = [] then none else some (.partialFailure failures)

/-- `out[i] = rec`, in both branches of `collect`. -/
def enriched (p : Item × Except TransformErr Record) : Item := (succeeded p).getD p.1

def orFailed (apply : Nat → Nat → Record → Except Cause Record) (t i : Nat) (r : Record) : Except TransformErr Record :=
  (apply t i r).mapError .failed

def enricherApplyBatch (apply : Nat → Nat → Record → Except Cause Record) (W : Workers) (t : Nat) (recs : List Item) :
    List Item × Option BatchErr :=
  let results := W.results (orFailed apply) t recs
  (results.map enriched, partialTransformError ((W.completion t).1 (results.filterMap failure)))

/-- `compactSuccessfulLookupResults` keeps the order of the records. -/
def lookupApplyBatch (apply : Nat → Nat → Record → Except TransformErr Record) (W : Workers) (t : Nat)
    (recs : List Item) : List Item × Option BatchErr :=
  let results := W.results apply t recs
  (results.filterMap succeeded, partialTransformError ((W.completion t).1 (results.filterMap failure)))

/-- The comparison is not a strict weak order on values of different types, so the result is some permutation. -/
def sortApplyBatch (maxBuffer : Nat) (arrange : Nat → { f : List Item → List Item // ∀ l, (f l).Perm l }) (t : Nat)
    (recs : List Item) : List Item × Option BatchErr :=
  if maxBuffer < recs.length then
    ([], some (.other { msg := "sort: batch size " ++ toString recs.length ++ " exceeds max_buffer " ++ toString maxBuffer }))
  else ((arrange t).1 recs, none)

/-- Aggregates carry no source position. -/
def windowApplyBatch (emitted : Nat → List Item → Except Cause (List Record)) (t : Nat) (recs : List Item) :
    List Item × Option BatchErr :=
  if recs = [] then ([], none)
  else
    match emitted t recs with
    | .ok aggregates => (aggregates.map fun r => { seq := 0, record := r }, none)
    | .error e => ([], some (.other e))

inductive Stage
  | record (apply : Nat → Nat → Record → Except TransformErr Record)
  | enricher (apply : Nat → Nat → Record → Except Cause Record) (W : Workers)
  | lookup (apply : Nat → Nat → Record → Except TransformErr Record) (W : Workers)
  | sort (maxBuffer : Nat) (arrange : Nat → { f : List Item → List Item // ∀ l, (f l).Perm l })
  | window (emitted : Nat → List Item → Except Cause (List Record))

def Stage.toTransform : Stage → Transform
  | .record apply => { apply }
  | .enricher apply W => { apply := orFailed apply, applyBatch := some (enricherApplyBatch apply W) }
  | .lookup apply W => { apply, applyBatch := some (lookupApplyBatch apply W) }
  | .sort maxBuffer arrange => { apply := fun _ _ r => .ok r, applyBatch := some (sortApplyBatch maxBuffer arrange) }
  | .window emitted =>
    { apply := fun _ _ _ => .error .filtered, applyBatch := some (windowApplyBatch emitted), stateful := true }

/-- What the chain makes of a batch with one transform. -/
def Stage.run (s : Stage) (t : Nat) (recs : List Item) : List Item × Option BatchErr :=
  match s.toTransform.applyBatch with
  | some applyBatch => applyBatch t recs
  | none =>
    let (out, failures) := applyEach s.toTransform t 0 recs
    (out, partialTransformError failures)

/-- The record was filtered, or went into an aggregate. -/
def Stage.Consumes (t : Nat) (recs : List Item) (it : Item) : Stage → Prop
  | .record apply | .lookup apply _ => ∃ i : Nat, recs[i]? = some it ∧ apply t i it.record = .error .filtered
  | .window _ => True
  | .enricher _ _ | .sort _ _ => False

/-- Every record is in the output or listed once as failed, and not both. -/
structure Partitioned (s : Stage) (t : Nat) (recs out : List Item) (failures : List (Item × Cause)) : Prop where
  once : (failures.map (·.1.seq)).Nodup
  apart : ∀ it ∈ recs, it.seq ∈ failures.map (·.1.seq) → it.seq ∉ out.map Item.seq
  covered : ∀ it ∈ recs, it.seq ∈ out.map Item.seq ∨ it.seq ∈ failures.map (·.1.seq) ∨ s.Consumes t recs it

def Stage.Partitions (s : Stage) (t : Nat) (recs : List Item) : Prop :=
  ∀ out failures, s.run t recs = (out, some (.partialFailure failures)) → Partitioned s t recs out failures

/-- No record fails in the enricher. -/
def Stage.Clean (t : Nat) (recs : List Item) : Stage → Prop
  | .enricher apply W => (W.results (orFailed apply) t recs).filterMap failure = []
  | _ => True

/-- The transforms a batch comes to, with what they are given. -/
def visited (t : Nat) : List Stage → List Item → List (Stage × List Item)
  | [], _ => []
  | s :: rest, recs =>
    (s, recs) ::
      match s.run t recs with
      | (_, some (.other _)) => []
      | (out, _) => if s.toTransform.applyBatch.isSome ∧ out = [] then [] else visited t rest out

/-! ## One transform -/

theorem applyEach_eq (tr : Transform) (t : Nat) : ∀ (recs : List Item) (i : Nat),
    applyEach tr t i recs =
      ((recs.mapIdx fun j it => (it, tr.apply t (i + j) it.record)).filterMap succeeded,
        (recs.mapIdx fun j it => (it, tr.apply t (i + j) it.record)).filterMap failure)
  | [], _ => rfl
  | it :: recs, i => by
    have hshift : (recs.mapIdx fun j it => (it, tr.apply t (i + (j + 1)) it.record)) =
        recs.mapIdx fun j it => (it, tr.apply t (i + 1 + j) it.record) := by
      simp only [Nat.add_assoc, Nat.add_comm 1]
    rw [applyEach, applyEach_eq tr t recs (i + 1), mapIdx_cons, hshift]
    cases h : tr.apply t i it.record with
    | ok r => simp [filterMap_cons, succeeded, failure]
    | error e => cases e <;> simp [filterMap_cons, succeeded, failure]

def seqs (its : List Item) : List Nat := its.map Item.seq

def failedSeqs (fs : List (Item × Cause)) : List Nat := fs.map (·.1.seq)

/-- A record succeeds or fails, or neither. -/
theorem results_subperm : ∀ l : List (Item × Except TransformErr Record),
    (seqs (l.filterMap succeeded) ++ failedSeqs (l.filterMap failure)).Subperm (l.map (·.1.seq))
  | [] => Subperm.refl _
  | (it, res) :: l => by
    have ih := results_subperm l
    rcases res with (_ | e) | r
    · exact ih.cons_right it.seq
    · have hmid : (seqs (l.filterMap succeeded) ++ it.seq :: failedSeqs (l.filterMap failure)).Perm
          (it.seq :: (seqs (l.filterMap succeeded) ++ failedSeqs (l.filterMap failure))) := perm_middle
      exact hmid.subperm.trans ((subperm_cons it.seq).mpr ih)
    · exact (subperm_cons it.seq).mpr ih

variable {recs : List Item} {t : Nat}
  {W : Workers} {apply : Nat → Nat → Record → Except TransformErr Record} {i : Nat}

theorem results_seqs : (W.results apply t recs).map (·.1.seq) = seqs recs := by
  refine ext_getElem (by simp [Workers.results, seqs]) fun i hi hi' => ?_
  simp [Workers.results, seqs]

variable {it : Item}

theorem resultOf_filtered {n : Nat}
    (h : W.resultOf apply t n i it = .error .filtered) : apply t i it.record = .error .filtered := by
  unfold Workers.resultOf at h
  split at h
  · cases h
  · exact h

theorem seq_enriched (p : Item × Except TransformErr Record) : (enriched p).seq = p.1.seq := by
  rcases p with ⟨it, e | r⟩ <;> rfl

theorem seqs_enriched (l : List (Item × Except TransformErr Record)) : seqs (l.map enriched) = l.map (·.1.seq) := by
  rw [seqs, map_map]
  exact map_congr_left fun p _ => seq_enriched p

def listed : Option BatchErr → List (Item × Cause)
  | some (.partialFailure failures) => failures
  | _ => []

theorem listed_partialTransformError (fs : List (Item × Cause)) : listed (partialTransformError fs) = fs := by
  unfold partialTransformError
  split
  · rename_i h
    rw [h]
    rfl
  · rfl

theorem lookup_subperm :
    (seqs (lookupApplyBatch apply W t recs).1 ++ failedSeqs (listed (lookupApplyBatch apply W t recs).2)).Subperm
      (seqs recs) := by
  have hperm := (W.completion t).2 ((W.results apply t recs).filterMap failure)
  have hsub := results_subperm (W.results apply t recs)
  rw [results_seqs] at hsub
  rw [lookupApplyBatch, listed_partialTransformError]
  exact ((hperm.map _).append_left _).subperm.trans hsub

theorem record_subperm :
    (seqs ((Stage.record apply).run t recs).1 ++ failedSeqs (listed ((Stage.record apply).run t recs).2)).Subperm
      (seqs recs) := by
  have hsub := results_subperm (recs.mapIdx fun j it => (it, apply t (0 + j) it.record))
  have hseqs : (recs.mapIdx fun j it => (it, apply t (0 + j) it.record)).map (·.1.seq) = seqs recs := by
    refine ext_getElem (by simp [seqs]) fun i hi hi' => ?_
    simp [seqs]
  rw [hseqs] at hsub
  simp only [Stage.run, Stage.toTransform, applyEach_eq, listed_partialTransformError]
  exact hsub

/-! ## Where each record is -/

variable {failures : List (Item × Cause)} {out : List Item} {s : Stage}

theorem partitioned_of_subperm (hnodup : (seqs recs).Nodup)
    (hsub : (seqs out ++ failedSeqs failures).Subperm (seqs recs))
    (hcovered : ∀ it ∈ recs, it.seq ∈ seqs out ∨ it.seq ∈ failedSeqs failures ∨ s.Consumes t recs it) :
    Partitioned s t recs out failures := by
  obtain ⟨l, hperm, hl⟩ := hsub
  have hall : (seqs out ++ failedSeqs failures).Nodup := hperm.nodup_iff.mp (hnodup.sublist hl)
  obtain ⟨-, honce, hapart⟩ := nodup_append.mp hall
  exact ⟨honce, fun it _ hf ho => hapart _ ho _ hf rfl, hcovered⟩

/-- What the results of a batch say about one record. -/
theorem covered_of_result {l : List (Item × Except TransformErr Record)}
    {res : Except TransformErr Record} (h : (it, res) ∈ l) :
    it.seq ∈ seqs (l.filterMap succeeded) ∨ it.seq ∈ failedSeqs (l.filterMap failure) ∨ res = .error .filtered := by
  rcases res with (_ | e) | r
  · exact .inr (.inr rfl)
  · exact .inr (.inl (mem_map.mpr ⟨(it, e), mem_filterMap.mpr ⟨_, h, rfl⟩, rfl⟩))
  · exact .inl (mem_map.mpr ⟨{ it with record := r }, mem_filterMap.mpr ⟨_, h, rfl⟩, rfl⟩)

theorem record_partitions (hnodup : (seqs recs).Nodup) : (Stage.record apply).Partitions t recs := by
  intro out failures h
  have hsub := @record_subperm recs t apply
  rw [h] at hsub
  refine partitioned_of_subperm hnodup hsub fun it hit => ?_
  obtain ⟨i, hi, rfl⟩ := getElem_of_mem hit
  simp only [Stage.run, applyEach_eq] at h
  obtain ⟨rfl, herr⟩ := Prod.mk.inj h
  obtain rfl := (congrArg listed herr).symm.trans (listed_partialTransformError _)
  have hmem : (recs[i], apply t (0 + i) recs[i].record) ∈ recs.mapIdx fun j it => (it, apply t (0 + j) it.record) :=
    mem_mapIdx.mpr ⟨i, hi, rfl⟩
  refine (covered_of_result hmem).imp_right fun hrest => hrest.imp_right fun hf => ?_
  exact ⟨i, getElem?_eq_getElem hi, by rwa [Nat.zero_add] at hf⟩

theorem lookup_partitions (hnodup : (seqs recs).Nodup) : (Stage.lookup apply W).Partitions t recs := by
  intro out failures h
  have hsub := @lookup_subperm recs t W apply
  have hrun : lookupApplyBatch apply W t recs = (out, some (.partialFailure failures)) := h
  rw [hrun] at hsub
  refine partitioned_of_subperm hnodup hsub fun it hit => ?_
  obtain ⟨i, hi, rfl⟩ := getElem_of_mem hit
  obtain ⟨rfl, herr⟩ := Prod.mk.inj hrun
  obtain rfl := (congrArg listed herr).symm.trans (listed_partialTransformError _)
  have hperm := (W.completion t).2 ((W.results apply t recs).filterMap failure)
  refine (covered_of_result (mem_mapIdx.mpr ⟨i, hi, rfl⟩)).imp_right fun hrest => ?_
  exact hrest.imp (fun hf => (hperm.map _).mem_iff.mpr hf) fun hf => ⟨i, getElem?_eq_getElem hi, resultOf_filtered hf⟩

variable {enrich : Nat → Nat → Record → Except Cause Record}

theorem completion_of_clean (hclean : (Stage.enricher enrich W).Clean t recs) :
    (W.completion t).1 ((W.results (orFailed enrich) t recs).filterMap failure) = [] := by
  have hempty : (W.results (orFailed enrich) t recs).filterMap failure = [] := hclean
  have hperm := (W.completion t).2 ((W.results (orFailed enrich) t recs).filterMap failure)
  rw [hempty] at hperm ⊢
  exact Perm.eq_nil hperm

/-- The enricher returns what it lists as failed. -/
theorem enricher_partitions_iff :
    (Stage.enricher enrich W).Partitions t recs ↔ (Stage.enricher enrich W).Clean t recs := by
  have hperm := (W.completion t).2 ((W.results (orFailed enrich) t recs).filterMap failure)
  constructor
  · intro h
    by_contra hne
    have hlisted : (W.completion t).1 ((W.results (orFailed enrich) t recs).filterMap failure) ≠ [] :=
      fun hnil => hne (Perm.nil_eq (hnil ▸ hperm)).symm
    have hrun : (Stage.enricher enrich W).run t recs = ((W.results (orFailed enrich) t recs).map enriched,
        some (.partialFailure ((W.completion t).1 ((W.results (orFailed enrich) t recs).filterMap failure)))) := by
      simp only [Stage.run, Stage.toTransform, enricherApplyBatch, partialTransformError, if_neg hlisted]
    obtain ⟨f, hf⟩ := exists_mem_of_ne_nil _ hne
    obtain ⟨p, hp, hpf⟩ := mem_filterMap.mp hf
    have hitem : f.1 = p.1 := by
      rcases p with ⟨it, (_ | e) | r⟩ <;> simp [failure] at hpf
      rw [← hpf]
    have hin : p.1 ∈ recs := by
      obtain ⟨i, hi, rfl⟩ := mem_mapIdx.mp hp
      exact getElem_mem hi
    refine (h _ _ hrun).apart p.1 hin ?_ ?_
    · rw [← hitem]
      exact mem_map.mpr ⟨f, hperm.mem_iff.mpr hf, rfl⟩
    · exact mem_map.mpr ⟨enriched p, mem_map.mpr ⟨p, hp, rfl⟩, seq_enriched p⟩
  · intro hclean out failures h
    have herr := congrArg Prod.snd h
    simp [Stage.run, Stage.toTransform, enricherApplyBatch, partialTransformError, completion_of_clean hclean] at herr

theorem window_not_partial {emitted : Nat → List Item → Except Cause (List Record)} :
    windowApplyBatch emitted t recs ≠ (out, some (.partialFailure failures)) := by
  unfold windowApplyBatch
  split
  · simp
  · split <;> simp

/-- **One transform**: all but the enricher partition every batch, the enricher those in which no record fails. -/
theorem partitions_iff (s : Stage) (t : Nat) (hnodup : (seqs recs).Nodup) : s.Partitions t recs ↔ s.Clean t recs := by
  cases s with
  | record apply => exact iff_of_true (record_partitions hnodup) trivial
  | enricher apply W => exact enricher_partitions_iff
  | lookup apply W => exact iff_of_true (lookup_partitions hnodup) trivial
  | sort maxBuffer arrange =>
    refine iff_of_true (fun _ _ h => ?_) trivial
    simp only [Stage.run, Stage.toTransform, sortApplyBatch] at h
    split at h <;> simp at h
  | window emitted => exact iff_of_true (fun _ _ h => absurd h window_not_partial) trivial

/-! ## The chain -/

/-- The records that have a place in source order. -/
def sources (ns : List Nat) : List Nat := ns.filter (0 < ·)

/-- Among the records with a place in source order, none is twice in the output and the failures. -/
theorem run_subperm (s : Stage) (t : Nat) (hclean : s.Clean t recs) :
    (sources (seqs (s.run t recs).1 ++ failedSeqs (listed (s.run t recs).2))).Subperm (sources (seqs recs)) := by
  cases s with
  | record apply => exact record_subperm.filter _
  | enricher apply W =>
    simp only [Stage.run, Stage.toTransform, enricherApplyBatch, listed_partialTransformError,
      completion_of_clean hclean, seqs_enriched, results_seqs, failedSeqs, map_nil, append_nil]
    exact Subperm.refl _
  | lookup apply W => exact lookup_subperm.filter _
  | sort maxBuffer arrange =>
    simp only [Stage.run, Stage.toTransform, sortApplyBatch]
    split
    · exact nil_subperm
    · simp only [listed, failedSeqs, map_nil, append_nil]
      exact ((((arrange t).2 recs).map _).filter _).subperm
  | window emitted =>
    have hzero : ∀ aggregates : List Record, sources (seqs (aggregates.map fun r => { seq := 0, record := r })) = [] := by
      intro aggregates
      rw [sources]
      simp [seqs]
    simp only [Stage.run, Stage.toTransform, windowApplyBatch]
    split
    · exact nil_subperm
    · split
      · simp only [listed, failedSeqs, map_nil, append_nil, hzero]
        exact nil_subperm
      · exact nil_subperm

/-- The loop ends at this transform, with no more records. -/
def Stage.Ends (s : Stage) (out : List Item) : Prop := s.toTransform.applyBatch.isSome ∧ out = []

instance (s : Stage) (out : List Item) : Decidable (s.Ends out) := inferInstanceAs (Decidable (_ ∧ _))

/-- The loop of `ApplyBatch`, transform by transform. -/
theorem chainLoop_cons (s : Stage) (tc : List Transform) (t : Nat) (recs : List Item) (fs : List (Item × Cause)) :
    (∃ e, chainApplyBatchLoop t (s.toTransform :: tc) recs fs = .failed e) ∨
      ((∀ e, (s.run t recs).2 ≠ some (.other e)) ∧
        chainApplyBatchLoop t (s.toTransform :: tc) recs fs =
          if s.Ends (s.run t recs).1 then .ok [] (fs ++ listed (s.run t recs).2)
          else chainApplyBatchLoop t tc (s.run t recs).1 (fs ++ listed (s.run t recs).2)) := by
  cases hab : s.toTransform.applyBatch with
  | none =>
    right
    have hends : ¬s.Ends (applyEach s.toTransform t 0 recs).1 := by simp [Stage.Ends, hab]
    refine ⟨fun e => ?_, ?_⟩
    · simp only [Stage.run, hab, partialTransformError]
      split <;> simp
    · simp only [chainApplyBatchLoop, hab, Stage.run, if_neg hends, listed_partialTransformError]
  | some applyBatch =>
    have hrun : s.run t recs = applyBatch t recs := by simp only [Stage.run, hab]
    rw [hrun]
    simp only [chainApplyBatchLoop, hab, Stage.Ends, Option.isSome_some, true_and]
    rcases hout : applyBatch t recs with ⟨out, _ | (fs' | e)⟩
    · exact .inr ⟨by simp, by simp only [listed, append_nil]⟩
    · exact .inr ⟨by simp, rfl⟩
    · exact .inl ⟨e, rfl⟩

theorem visited_cons {rest : List Stage} (hother : ∀ e, (s.run t recs).2 ≠ some (.other e)) :
    visited t (s :: rest) recs =
      (s, recs) :: if s.Ends (s.run t recs).1 then [] else visited t rest (s.run t recs).1 := by
  rw [visited]
  rcases h : s.run t recs with ⟨out, _ | (fs | e)⟩
  · rfl
  · rfl
  · rw [h] at hother
    exact absurd rfl (hother e)

theorem sources_append (a b : List Nat) : sources (a ++ b) = sources a ++ sources b := filter_append ..

/-- **The whole chain**: with an enricher in which nothing fails, the records that come out and those that have failed
are different records of the batch. -/
theorem chainLoop_subperm : ∀ {chain : List Stage} {recs out : List Item} {fs fs' : List (Item × Cause)},
    (∀ v ∈ visited t chain recs, v.1.Clean t v.2) →
      chainApplyBatchLoop t (chain.map Stage.toTransform) recs fs = .ok out fs' →
        (sources (seqs out ++ failedSeqs fs')).Subperm (sources (seqs recs ++ failedSeqs fs))
  | [], recs, out, fs, fs', _, h => by
    cases h
    exact Subperm.refl _
  | s :: rest, recs, out, fs, fs', hclean, h => by
    rcases chainLoop_cons s (rest.map Stage.toTransform) t recs fs with ⟨e, hfailed⟩ | ⟨hother, hloop⟩
    · rw [map_cons, hfailed] at h
      cases h
    · rw [map_cons, hloop] at h
      rw [visited_cons hother] at hclean
      have hs : s.Clean t recs := hclean (s, recs) mem_cons_self
      have hstep := run_subperm s t hs
      have hsplit : (sources (seqs (s.run t recs).1 ++ failedSeqs (fs ++ listed (s.run t recs).2))).Subperm
          (sources (seqs recs ++ failedSeqs fs)) := by
        have hmoved : (seqs (s.run t recs).1 ++ failedSeqs (fs ++ listed (s.run t recs).2)).Perm
            (seqs (s.run t recs).1 ++ failedSeqs (listed (s.run t recs).2) ++ failedSeqs fs) := by
          rw [failedSeqs, map_append, append_assoc]
          exact perm_append_comm.append_left _
        have hgrown := (hmoved.filter (0 < ·)).subperm
        refine hgrown.trans ?_
        rw [filter_append, sources_append]
        exact (subperm_append_right _).mpr hstep
      split at h
      · rename_i hends
        cases h
        rw [hends.2] at hsplit
        exact hsplit
      · rename_i hends
        rw [if_neg hends] at hclean
        exact (chainLoop_subperm (fun v hv => hclean v (mem_cons_of_mem _ hv)) h).trans hsplit

/-! ## The runner -/

def Event.deadLetter : Event → Option Nat
  | .dlq it _ _ => some it.seq
  | _ => none

theorem handleFailedRecord_deadLetters (C : Cfg) (E : Env) (s : St) (it : Item) (cause : Cause) :
    ∃ evs, (handleFailedRecord C E s it cause).1.log = s.log ++ evs ∧
      (evs.filterMap Event.deadLetter).Sublist [it.seq] := by
  unfold handleFailedRecord
  simp only
  split
  · split
    · exact ⟨[_], rfl, Sublist.refl _⟩
    · exact ⟨[_], rfl, Sublist.refl _⟩
  · exact ⟨[_], rfl, nil_sublist _⟩

theorem handleFailedRecords_deadLetters (C : Cfg) (E : Env) : ∀ (l : List (Item × Cause)) (s : St),
    ∃ evs, (handleFailedRecords C E s l).1.log = s.log ++ evs ∧
      (evs.filterMap Event.deadLetter).Sublist (failedSeqs l)
  | [], s => ⟨[], by simp [handleFailedRecords], nil_sublist _⟩
  | (it, cause) :: rest, s => by
    obtain ⟨evs, hlog, hsub⟩ := handleFailedRecord_deadLetters C E s it cause
    obtain ⟨evs', hlog', hsub'⟩ := handleFailedRecords_deadLetters C E rest (handleFailedRecord C E s it cause).1
    refine ⟨evs ++ evs', ?_, ?_⟩
    · simp only [handleFailedRecords]
      rw [hlog', hlog, append_assoc]
    · rw [filterMap_append]
      exact hsub.append hsub'

def withChain (C : Cfg) (chain : List Stage) : Cfg := { C with transforms := chain.map Stage.toTransform }

/-- No record of the batch is both handed on to the sink and written to the DLQ, or written there twice, by the
transform stage. -/
def StageApart (C : Cfg) (E : Env) (s : St) (batch : List Item) (safe : Bool) : Prop :=
  ∃ evs, (transformBatch C E s batch safe).1.log = s.log ++ evs ∧
    (sources (seqs (handedOn (transformBatch C E s batch safe)) ++ evs.filterMap Event.deadLetter)).Nodup

theorem routeAll_deadLetters (batch : List Item) (fate : Fate) :
    (batch.map (Event.routed · fate)).filterMap Event.deadLetter = [] := by
  rw [filterMap_map, filterMap_eq_nil_iff]
  exact fun _ _ => rfl

theorem stageApart {C : Cfg} {E : Env} {s : St} {chain : List Stage} {batch : List Item} (safe : Bool)
    (hbatch : hasBatchTransform (withChain C chain) = true) (hnodup : (seqs batch).Nodup)
    (hclean : ∀ v ∈ visited s.log.length chain batch, v.1.Clean s.log.length v.2) :
    StageApart (withChain C chain) E s batch safe := by
  unfold StageApart transformBatch
  by_cases hne : batch = []
  · rw [if_pos hne]
    exact ⟨[], by simp, by simp [handedOn, seqs, sources]⟩
  rw [if_neg hne, if_pos hbatch]
  cases hres : chainApplyBatch (withChain C chain).transforms s.log.length batch with
  | failed e =>
    obtain ⟨evs, hlog, hsub⟩ := handleFailedRecords_deadLetters (withChain C chain) E (batch.map (·, e))
      (routeAll s batch .failed)
    refine ⟨batch.map (Event.routed · .failed) ++ evs, ?_, ?_⟩
    · rw [← append_assoc]
      exact hlog
    · have hseqs : failedSeqs (batch.map (·, e)) = seqs batch := by simp [failedSeqs, seqs]
      rw [filterMap_append, routeAll_deadLetters]
      rw [hseqs] at hsub
      exact (hnodup.sublist hsub).filter _
  | ok out fs =>
    obtain ⟨evs, hlog, hsub⟩ := handleFailedRecords_deadLetters (withChain C chain) E fs
      (routeAll s batch (.batched out (fs.map Prod.fst)))
    refine ⟨batch.map (Event.routed · (.batched out (fs.map Prod.fst))) ++ evs, ?_, ?_⟩
    · rw [← append_assoc]
      exact hlog
    · have hloop := chainLoop_subperm hclean hres
      obtain ⟨l, hperm, hl⟩ := hloop
      have hall : (sources (seqs out ++ failedSeqs fs)).Nodup := by
        refine hperm.nodup_iff.mp (Nodup.sublist hl ?_)
        rw [failedSeqs, map_nil, append_nil]
        exact hnodup.filter _
      rw [filterMap_append, routeAll_deadLetters]
      exact hall.sublist (((Sublist.refl _).append hsub).filter _)

theorem seqs_number (n : Nat) (recs : List Record) : (seqs (number n recs)).Nodup := by
  have hrange : seqs (number n recs) = range' (n + 1) recs.length := by
    refine ext_getElem (by simp [seqs, number]) fun i hi hi' => ?_
    simp [seqs, number]
    omega
  rw [hrange]
  exact nodup_range'

/-- **Batch transforms and their failures.** Each transform partitions every batch, but for the enricher, which does so
exactly if no record fails in it. In a chain no enricher of which fails a record, the transform stage of `writeBatch`
gives no record both to the sink and to the DLQ, and none twice to the DLQ. -/
theorem batch_transforms_partition (t n : Nat) (recs : List Record) :
    (∀ s : Stage, s.Partitions t (number n recs) ↔ s.Clean t (number n recs)) ∧
      ∀ (C : Cfg) (E : Env) (s : St) (chain : List Stage) (safe : Bool), s.log.length = t →
        hasBatchTransform (withChain C chain) = true →
        let batch := (number n recs).filter (·.record.rejection.isNone)
        (∀ v ∈ visited t chain batch, v.1.Clean t v.2) → StageApart (withChain C chain) E s batch safe := by
  refine ⟨fun s => partitions_iff s t (seqs_number n recs), ?_⟩
  rintro C E s chain safe rfl hbatch batch hclean
  exact stageApart safe hbatch ((seqs_number n recs).sublist (filter_sublist.map _)) hclean

/-! ## An enrichment that fails -/

/-- The second record's enrichment fails. -/
def flakyEnricher : Stage :=
  .enricher (fun _ i r => if i = 1 then .error { msg := "enricher: lookup failed" } else .ok r) {}

def twoRows : List Record := [{ data := [("id", .int64 1)] }, { data := [("id", .int64 2)] }]

/-- A transform in which the second record fails, and an enricher for the other one. -/
def partialChain : List Stage :=
  [.record fun _ i r => if i = 1 then .error (.failed { msg := "cast" }) else .ok r, .enricher (fun _ _ r => .ok r) {}]

theorem partial_chain_apart : StageApart (withChain {} partialChain) {} {}
    ((number 0 twoRows).filter (·.record.rejection.isNone)) true := by
  refine (batch_transforms_partition 0 0 twoRows).2 {} {} {} partialChain true rfl rfl ?_
  exact forall_mem_cons.mpr ⟨trivial, forall_mem_cons.mpr ⟨rfl, forall_mem_nil _⟩⟩

def plainCfg : Cfg := withChain {} [flakyEnricher]

/-- The record that fails is written to the DLQ and handed on to the sink. -/
theorem failed_record_delivered :
    seqs (flakyEnricher.run 0 (number 0 twoRows)).1 = [1, 2] ∧
      failedSeqs (listed (flakyEnricher.run 0 (number 0 twoRows)).2) = [2] ∧
      seqs (handedOn (transformBatch plainCfg {} {} (number 0 twoRows) true)) = [1, 2] ∧
      (transformBatch plainCfg {} {} (number 0 twoRows) true).1.log.filterMap Event.deadLetter = [2] := by
  decide

end OpenEtl.Pipeline.Partition
