import OpenEtl.Core.Sink
import Mathlib.Tactic.Ring

/-!
# Writing a batch in chunks

`ElasticsearchSink.Write` and `MaxComputeSink.Write` share their outer loop: the batch is cut into chunks of a fixed
size, chunks are written in order, and the first chunk that fails ends the call with its error. `chunkLoop` is that
loop over an arbitrary chunk writer, with positions counted in the whole batch.
-/

namespace OpenEtl.Sink

open List

/-- `for offset := 0; offset < n; offset += size`, with a bound on the number of rounds. -/
def chunkLoop (size n : Nat) (chunk : Nat → WriteResult) : Nat → Nat → WriteResult
  | 0, _ => {}
  | k + 1, offset =>
    if offset < n then
      match (chunk offset).err with
      | some _ => chunk offset
      | none =>
        let rest := chunkLoop size n chunk k (offset + size)
        { rest with accepted := (chunk offset).accepted ++ rest.accepted }
    else {}

/-- `i` is a position of the chunk that starts at `offset`. -/
def InChunk (size n offset i : Nat) : Prop := offset ≤ i ∧ i < offset + size ∧ i < n

structure ChunkSound (size n offset : Nat) (w : WriteResult) : Prop where
  accepted : ∀ i ∈ w.accepted, InChunk size n offset i
  nil : w.err = none → ∀ i, InChunk size n offset i → i ∈ w.accepted
  listed : ∀ e p, w.err = some e → e.partialBatch = some p →
    ∀ idx ∈ p.failedRecordIndices, ∃ i : Nat, idx = i ∧ InChunk size n offset i
  unlisted : ∀ e p, w.err = some e → e.partialBatch = some p →
    ∀ i, InChunk size n offset i → (i : Int) ∉ p.failedRecordIndices → i ∈ w.accepted

/-- An error without a listing promises nothing. -/
theorem ChunkSound.plain {size n offset : Nat} {w : WriteResult} {e : Err} (he : w.err = some e)
    (hp : e.partialBatch = none) (hacc : ∀ i ∈ w.accepted, InChunk size n offset i) :
    ChunkSound size n offset w := by
  have hno : ∀ e' p, w.err = some e' → e'.partialBatch ≠ some p := by
    intro e' p he'
    rw [he] at he'
    cases he'
    simp [hp]
  exact ⟨hacc, by simp [he], fun e' p he' hp' => absurd hp' (hno e' p he'),
    fun e' p he' hp' => absurd hp' (hno e' p he')⟩

/-- The chunk writer failed with a `PartialBatchError`. -/
def FailsPartially (w : WriteResult) : Prop := ∃ e, w.err = some e ∧ e.partialBatch ≠ none

/-- From `offset` on, the first chunk to fail does so partially only if it is the last one. -/
def PartialOnlyLast (size n : Nat) (chunk : Nat → WriteResult) (offset : Nat) : Prop :=
  ∀ k, offset + (k + 1) * size < n → (∀ j < k, (chunk (offset + j * size)).err = none) →
    ¬ FailsPartially (chunk (offset + k * size))

variable {size n : Nat} {chunk : Nat → WriteResult}

/-- If the loop returns nil, every record from its start on was accepted. -/
theorem chunkLoop_nil (hsize : 0 < size) (hc : ∀ o, ChunkSound size n o (chunk o)) :
    ∀ (k offset : Nat), n ≤ offset + k → (chunkLoop size n chunk k offset).err = none →
      ∀ i, offset ≤ i → i < n → i ∈ (chunkLoop size n chunk k offset).accepted
  | 0, offset, hk, _, i, hi, hn => by omega
  | k + 1, offset, hk, herr, i, hi, hn => by
    have hlt : offset < n := by omega
    unfold chunkLoop at herr ⊢
    rw [if_pos hlt] at herr ⊢
    cases hce : (chunk offset).err with
    | some e => simp [hce] at herr
    | none =>
      simp only [hce] at herr ⊢
      by_cases hin : i < offset + size
      · exact mem_append_left _ ((hc offset).nil hce i ⟨hi, hin, hn⟩)
      · exact mem_append_right _ (chunkLoop_nil hsize hc k (offset + size) (by omega) herr i (by omega) hn)

theorem partialOnlyLast_succ {offset : Nat} (hok : (chunk offset).err = none) :
    PartialOnlyLast size n chunk offset ↔ PartialOnlyLast size n chunk (offset + size) := by
  have shift : ∀ j, offset + size + j * size = offset + (j + 1) * size := fun j => by ring
  constructor
  · intro h k hk hj
    have hlt : offset + (k + 1 + 1) * size < n := by rw [← shift]; exact hk
    have := h (k + 1) hlt fun j hjk => ?_
    · rwa [← shift] at this
    · cases j with
      | zero => simpa using hok
      | succ j => rw [← shift]; exact hj j (by omega)
  · intro h k hk hj
    cases k with
    | zero =>
      rintro ⟨e, he, -⟩
      simp [hok] at he
    | succ k =>
      rw [← shift]
      refine h k (by rw [shift]; exact hk) fun j hjk => ?_
      rw [shift]
      exact hj (j + 1) (by omega)

/-- **Soundness of the loop**: the batch's `PartialBatchError` is sound exactly when no chunk before
the last one is the first to fail and fails partially. -/
theorem chunkLoop_partialSound_iff (hsize : 0 < size) (hc : ∀ o, ChunkSound size n o (chunk o)) :
    ∀ (k offset : Nat), n ≤ offset + k →
      ((∀ e p, (chunkLoop size n chunk k offset).err = some e → e.partialBatch = some p →
        (∀ idx ∈ p.failedRecordIndices, 0 ≤ idx ∧ idx < n) ∧
          ∀ i, offset ≤ i → i < n → (i : Int) ∉ p.failedRecordIndices →
            i ∈ (chunkLoop size n chunk k offset).accepted) ↔
        PartialOnlyLast size n chunk offset)
  | 0, offset, hk => by
    refine ⟨fun _ k' hk' => by omega, fun _ e p herr => by simp [chunkLoop] at herr⟩
  | k + 1, offset, hk => by
    by_cases hlt : offset < n
    swap
    · have hnil : chunkLoop size n chunk (k + 1) offset = {} := by simp [chunkLoop, hlt]
      rw [hnil]
      refine ⟨fun _ k' hk' => by omega, fun _ e p herr => by simp at herr⟩
    cases hce : (chunk offset).err with
    | none =>
      have hloop : chunkLoop size n chunk (k + 1) offset =
          { chunkLoop size n chunk k (offset + size) with
            accepted := (chunk offset).accepted ++ (chunkLoop size n chunk k (offset + size)).accepted } := by
        simp [chunkLoop, hlt, hce]
      rw [partialOnlyLast_succ hce, ← chunkLoop_partialSound_iff hsize hc k (offset + size) (by omega), hloop]
      refine forall_congr' fun e => forall_congr' fun p => forall_congr' fun he => forall_congr' fun hp => ?_
      refine and_congr_right fun _ => ⟨fun h i hi hn hnot => ?_, fun h i hi hn hnot => ?_⟩
      · rcases mem_append.mp (h i (by omega) hn hnot) with hm | hm
        · have := ((hc offset).accepted i hm).2.1
          omega
        · exact hm
      · by_cases hin : i < offset + size
        · exact mem_append_left _ ((hc offset).nil hce i ⟨hi, hin, hn⟩)
        · exact mem_append_right _ (h i (by omega) hn hnot)
    | some e0 =>
      have hloop : chunkLoop size n chunk (k + 1) offset = chunk offset := by
        simp [chunkLoop, hlt, hce]
      rw [hloop]
      constructor
      · -- a record of the next chunk is neither listed nor accepted
        intro h k' hk' hj hpart
        have hk0 : k' = 0 := by
          rcases Nat.eq_zero_or_pos k' with h0 | hpos
          · exact h0
          · have := hj 0 hpos
            simp [hce] at this
        subst hk0
        simp only [Nat.zero_mul, Nat.zero_add, Nat.one_mul] at hk' hpart
        obtain ⟨e, he, hpne⟩ := hpart
        obtain ⟨p, hp⟩ := Option.ne_none_iff_exists'.mp hpne
        obtain ⟨-, hacc⟩ := h e p he hp
        have hnot : ((offset + size : Nat) : Int) ∉ p.failedRecordIndices := by
          intro hmem
          obtain ⟨i, hi, hin⟩ := (hc offset).listed e p he hp _ hmem
          have := hin.2.1
          omega
        have := ((hc offset).accepted _ (hacc _ (by omega) hk' hnot)).2.1
        omega
      · intro h e p he hp
        refine ⟨fun idx hidx => ?_, fun i hi hn hnot => ?_⟩
        · obtain ⟨i, rfl, hin⟩ := (hc offset).listed e p he hp idx hidx
          exact ⟨by omega, by have := hin.2.2; omega⟩
        · have hlast : ¬ offset + size < n := by
            intro hmore
            exact h 0 (by simpa using hmore) (by simp) (by simpa using ⟨e, he, by simp [hp]⟩)
          exact (hc offset).unlisted e p he hp i ⟨hi, by omega, hn⟩ hnot

end OpenEtl.Sink
