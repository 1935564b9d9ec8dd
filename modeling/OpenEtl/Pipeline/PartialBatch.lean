import OpenEtl.Pipeline.Commit
import OpenEtl.Sink.Elasticsearch
import OpenEtl.Sink.MaxCompute

/-!
# Partial batch errors, from the sink to the DLQ

`Runner.writeBatch` sends to the DLQ only the records a `PartialBatchError` lists (pipeline.go:1347-1382). If the
sink's errors are sound, every record it was given is then either taken by the target or handed to the DLQ.
-/

namespace OpenEtl.Pipeline

open Storage (Ctx)
open Sink (PartialOnlyLast)
open List

/-- The target took the record in some write. -/
def Taken (log : List Event) (it : Item) : Prop :=
  ∃ (its : List Item) (res : WriteResult) (i : Nat), .sinkWrite its res ∈ log ∧ i ∈ res.accepted ∧ its[i]? = some it

def HandedToDLQ (log : List Event) (it : Item) : Prop := ∃ cause err, .dlq it cause err ∈ log

variable {it : Item} {log log' : List Event}

theorem HandedToDLQ.mono (hsub : log ⊆ log') :
    HandedToDLQ log it → HandedToDLQ log' it := by
  rintro ⟨cause, err, hm⟩
  exact ⟨cause, err, hsub hm⟩

/-- Every write of the run is sound, whatever it is given. -/
def SoundSink (E : Env) : Prop :=
  ∀ n its, (E.write n its).NilSound its.length ∧ (E.write n its).PartialSound its.length

section

variable (C : Cfg) (E : Env)

theorem handleFailedRecord_handed (hdlq : C.hasDLQ = true) (s : St) (it : Item) (cause : Cause) :
    HandedToDLQ (handleFailedRecord C E s it cause).1.log it := by
  unfold handleFailedRecord
  simp only [hdlq, if_true]
  split
  · rename_i dlqErr _
    exact ⟨cause, some dlqErr, by simp [blockCheckpoint, recordFailure, St.emit]⟩
  · exact ⟨cause, none, by simp [St.emit]⟩

theorem handleFailedRecords_handed (hdlq : C.hasDLQ = true) : ∀ (l : List (Item × Cause)) (s : St),
    ∀ p ∈ l, HandedToDLQ (handleFailedRecords C E s l).1.log p.1
  | [], _, _, hp => by simp at hp
  | (it, cause) :: rest, s, p, hp => by
    rcases mem_cons.mp hp with rfl | hp
    · exact (handleFailedRecord_handed C E hdlq s it cause).mono (handleFailedRecords_ext C E rest _).subset
    · exact handleFailedRecords_handed hdlq rest _ p hp

variable {its : List Item} {log : List Event}

/-- What a sound sink acknowledges it took. -/
theorem taken_of_acked (hsound : SoundSink E) {it : Item} {n : Nat} (hmem : .sinkWrite its (E.write n its) ∈ log)
    (ha : Acked its (E.write n its) it) : Taken log it := by
  cases hn : (E.write n its).err with
  | none =>
    simp only [Acked, hn] at ha
    obtain ⟨i, hi⟩ := mem_iff_getElem?.mp ha
    exact ⟨its, _, i, hmem, (hsound n its).1 hn i (List.getElem?_eq_some_iff.mp hi).1, hi⟩
  | some err =>
    simp only [Acked, hn] at ha
    obtain ⟨p, hp, -, -, i, hi, hnot⟩ := ha
    have hlt := (List.getElem?_eq_some_iff.mp hi).1
    exact ⟨its, _, i, hmem, ((hsound n its).2 err p hn hp).2 i hlt hnot, hi⟩

/-- After a failed write to a sound sink every record is taken or handed to the DLQ. -/
theorem writeFailed_taken_or_handed (hdlq : C.hasDLQ = true) (hsound : SoundSink E) (s : St)
    (transformed : List Item) (err : Err) (hlog : Answered E s.log transformed (some err)) :
    ∀ it ∈ transformed, Taken (writeFailed C E s transformed err).log it ∨
      HandedToDLQ (writeFailed C E s transformed err).log it := by
  intro it hit
  obtain ⟨s1, fs, heq, hfates⟩ := writeFailed_fates C E s transformed err hlog
  rw [heq]
  rcases hfates it hit with hf | ⟨its, n, hmem, ha⟩
  · obtain ⟨q, hq, rfl⟩ := mem_map.mp hf
    exact .inr (handleFailedRecords_handed C E hdlq fs s1 q hq)
  · exact .inl (taken_of_acked E hsound ((handleFailedRecords_ext C E fs s1).subset hmem) ha)

/-- **After `writeBatch`** to a sound sink every record that reached the write is taken by the target
or handed to the DLQ (unless the breaker's wait was cut short, which is not the sink's doing). -/
theorem writeBatch_taken_or_handed (hdlq : C.hasDLQ = true) (hsound : SoundSink E)
    (hwait : ∀ n, E.waitExpires n = false) (runCtx : Ctx) (s : St) (batch : List Item) :
    ∀ it ∈ survivors C E s batch, Taken (writeBatch C E runCtx s batch).log it ∨
      HandedToDLQ (writeBatch C E runCtx s batch).log it := by
  intro it hit
  unfold survivors at hit
  unfold writeBatch
  rcases hprep : prepareBatch C E s batch with ⟨s0, _ | p⟩
  · simp [hprep] at hit
  · simp only [hprep] at hit ⊢
    rw [if_neg (ne_nil_of_mem hit)]
    unfold commitBatch
    simp only [breakerGate_proceeds E s0 hwait]
    obtain ⟨-, hans⟩ := retryWrite_spec C E (breakerGate E s0).1 p.transformed
    cases hr : (retryWrite C E (breakerGate E s0).1 p.transformed).2 with
    | some err =>
      rw [hr] at hans
      exact writeFailed_taken_or_handed C E hdlq hsound _ p.transformed err hans it hit
    | none =>
      rw [hr] at hans
      obtain ⟨n, hn, hmem⟩ := hans
      exact .inl (taken_of_acked E hsound ((writeSucceeded_log_grows C E _ _ _ _ _).subset hmem) (by simpa [Acked, hn]))

end

/-- The write is one of a sink whose chunks before the last do not fail partially first. -/
inductive WellChunked (its : List Item) (w : WriteResult) : Prop
  | elasticsearch (S : Sink.Elasticsearch.ElasticsearchSink) (X : Sink.Elasticsearch.Server)
      (h : w = Sink.Elasticsearch.write S X (its.map Item.record))
      (hlast : PartialOnlyLast S.chunkSize its.length
        (Sink.Elasticsearch.writeChunk S X (its.map Item.record)) 0)
  | maxCompute (S : Sink.MaxCompute.MaxComputeSink) (X : Sink.MaxCompute.Client)
      (h : w = Sink.MaxCompute.write S X (its.map Item.record))
      (hlast : PartialOnlyLast S.batchSize its.length
        (Sink.MaxCompute.writeChunk S X (its.map Item.record)) 0)

theorem soundSink_of_wellChunked {E : Env} (h : ∀ n its, WellChunked its (E.write n its)) : SoundSink E := by
  intro n its
  rw [show its.length = (its.map Item.record).length by simp]
  cases h n its with
  | elasticsearch S X heq hlast =>
    rw [heq]
    exact ⟨Sink.Elasticsearch.write_nilSound S X _,
      (Sink.Elasticsearch.write_partialSound_iff S X _).mpr (by simpa using hlast)⟩
  | maxCompute S X heq hlast =>
    rw [heq]
    exact ⟨Sink.MaxCompute.write_nilSound S X _,
      (Sink.MaxCompute.write_partialSound_iff S X _).mpr (by simpa using hlast)⟩

/-- **Partial batch errors.** The error of either sink is sound exactly when no chunk before the last
is the first to fail and fails partially; and while that holds of every write, `writeBatch` loses
nothing it was given to write. -/
theorem partial_batch_errors (es : Sink.Elasticsearch.ElasticsearchSink) (server : Sink.Elasticsearch.Server)
    (mc : Sink.MaxCompute.MaxComputeSink) (client : Sink.MaxCompute.Client) (records : List Record) (C : Cfg)
    (E : Env) (runCtx : Ctx) (s : St) (batch : List Item) :
    ((Sink.Elasticsearch.write es server records).PartialSound records.length ↔
      PartialOnlyLast es.chunkSize records.length (Sink.Elasticsearch.writeChunk es server records) 0) ∧
    ((Sink.MaxCompute.write mc client records).PartialSound records.length ↔
      PartialOnlyLast mc.batchSize records.length (Sink.MaxCompute.writeChunk mc client records) 0) ∧
    (C.hasDLQ = true → (∀ n, E.waitExpires n = false) → (∀ n its, WellChunked its (E.write n its)) →
      ∀ it ∈ survivors C E s batch, Taken (writeBatch C E runCtx s batch).log it ∨
        HandedToDLQ (writeBatch C E runCtx s batch).log it) :=
  ⟨Sink.Elasticsearch.write_partialSound_iff es server records,
    Sink.MaxCompute.write_partialSound_iff mc client records, fun hdlq hwait hwell =>
      writeBatch_taken_or_handed C E hdlq (soundSink_of_wellChunked hwell) hwait runCtx s batch⟩

/-! ### Counterexample: the first of two chunks fails partially

Elasticsearch: two records in chunks of one; the server rejects the first. MaxCompute: three records in
chunks of two; in the first chunk one of two partitions fails. The last record is never sent and the
error does not list it. -/

def oneByOne : Sink.Elasticsearch.ElasticsearchSink := { chunkSize := 1, maxRetries := 0 }

def rejectsAll : Sink.Elasticsearch.Server where
  exchange := fun _ _ n =>
    { reply := .parsed (some true) (List.replicate n { status := 400, error := some ("bad", "row") }) ""
      accepted := []
      bounded := by simp
      honest := by
        refine ⟨by simp, fun i it hi hf => ?_⟩
        have := List.mem_of_getElem? hi
        rw [List.mem_replicate] at this
        rw [this.2] at hf
        simp [Sink.Elasticsearch.BulkItem.failed] at hf }

def byPartition : Sink.MaxCompute.MaxComputeSink := { batchSize := 2, batchSize_pos := Nat.two_pos, partitionFields := ["p"] }

def failsPartitionB : Sink.MaxCompute.Client where
  exchange := fun _ partition _ n =>
    if partition = "p='b'" then
      { err := some { msg := "bad", classified := some .data }, accepted := [], bounded := by simp, honest := by simp }
    else { err := none, accepted := List.range n, bounded := by simp, honest := by simp }

def inPartition (p : String) : Record := { data := [("p", .str p)] }

theorem unsent_chunk_is_not_listed :
    ¬ (Sink.Elasticsearch.write oneByOne rejectsAll [{}, {}]).PartialSound 2 ∧
    ¬ (Sink.MaxCompute.write byPartition failsPartitionB
        [inPartition "a", inPartition "b", inPartition "a"]).PartialSound 3 := by
  constructor
  · intro h
    have hlast := (h _ _ rfl rfl).2 1 (by decide) (by decide)
    cases hlast
  · intro h
    have hlast := (h _ _ rfl rfl).2 2 (by decide) (by decide)
    exact absurd hlast (by decide)

end OpenEtl.Pipeline
