import OpenEtl.Pipeline.ZeroLoss

/-!
# Do checkpoints move forward?

Two paths save: a batch without survivors is checkpointed at once (pipeline.go:1289-1297), a written
batch joins the pending boundary and is checkpointed when the throttle allows (pipeline.go:1404-1428).
The first does not look at the pending boundary, so a boundary that was pending when it saved is
flushed afterwards, at an older position. Records drained by `FlushChain` carry no position at all.
Without these two (`Orderly`), no save covers less than an earlier one. A batch without survivors that is
not checkpointed, and drained records that are not written, do no harm.
-/

namespace OpenEtl.Pipeline

open Storage (Ctx)
open List Trace

/-- How many source records the checkpoint of `processed` covers: its position is that of the last
record. -/
def cover (processed : List Item) : Nat := (processed.getLast?.map Item.seq).getD 0

/-- No checkpoint that was saved before covers more. -/
def Covers (pre : List Event) (processed : List Item) : Prop :=
  ∀ ctx earlier, .save ctx earlier none ∈ pre → cover earlier ≤ cover processed

/-- What `Save` and `AckCheckpoint` need of the events before them. -/
def Forward (pre : List Event) : Event → Prop
  | .save _ processed _ | .ack processed _ => Covers pre processed
  | _ => True

def CheckpointsMonotone (log : List Event) : Prop := Always Forward log

section

variable (C : Cfg) (E : Env)

/-- The batch leaves no survivors and is checkpointed at once. -/
def SavesAtOnce (s : St) (batch : List Item) : Prop :=
  ∃ p, (prepareBatch C E s batch).2 = some p ∧ p.transformed = [] ∧ zeroSurvivorSaves C batch.length p = true

/-- The survivors of the batch are written, and the records that are not among them are safe. -/
def Written (s : St) (batch : List Item) : Prop :=
  ∃ p, (prepareBatch C E s batch).2 = some p ∧ p.transformed ≠ [] ∧ p.checkpointBoundarySafe = true ∧
    (breakerGate E (prepareBatch C E s batch).1).2 = true ∧
      (retryWrite C E (breakerGate E (prepareBatch C E s batch).1).1 p.transformed).2 = none

/-- The condition on a call in the state it is made in: a batch is checkpointed at once only while nothing
is pending, and after the first checkpoint drained records are neither checkpointed nor written. -/
def Orderly (s : St) (c : Call) : Prop :=
  match c with
  | .batch _ | .lastBatch _ => SavesAtOnce C E (enter s c).1 (enter s c).2 → s.pendingCheckpointProcessed = []
  | .flushed _ =>
    (SavesAtOnce C E (enter s c).1 (enter s c).2 → s.pendingCheckpointProcessed = []) ∧
      (SavesAtOnce C E (enter s c).1 (enter s c).2 ∨ Written C E (enter s c).1 (enter s c).2 →
        ∀ ctx p, .save ctx p none ∉ s.log)
  | .tick | .final => True

/-- The invariant: checkpoints so far moved forward, and while more may follow none of them covers
more than was handed over, or more than the pending boundary. -/
structure Ordered (s : St) : Prop where
  forward : CheckpointsMonotone s.log
  handed : s.checkpointBlocked = false → ∀ ctx p, .save ctx p none ∈ s.log → cover p ≤ s.handed
  pending : s.checkpointBlocked = false → s.pendingCheckpointProcessed ≠ [] →
    Covers s.log s.pendingCheckpointProcessed
  bounded : cover s.pendingCheckpointProcessed ≤ s.handed

variable {ctx : Ctx} {s s' : St} {p : List Item}

theorem mem_log_of_ext (he : Ext s s') {err : Option Err} (h : .save ctx p err ∈ s'.log) :
    .save ctx p err ∈ s.log := by
  obtain ⟨evs, hl, hns⟩ := he.quiet
  rw [hl] at h
  rcases mem_append.mp h with h | h
  · exact h
  · exact absurd (hns _ h) (by simp [Event.isCheckpoint])

theorem Ordered.ext (h : Ordered s) (he : Ext s s') : Ordered s' := by
  obtain ⟨evs, hl, hns⟩ := he.quiet
  refine ⟨?_, fun hb ctx p hp => ?_, fun hb hne ctx p hp => ?_, ?_⟩
  · rw [hl]
    refine Always.append h.forward fun pre e hmem => ?_
    have he' := hns e hmem
    cases e <;> trivial
  · rw [he.handed]
    exact h.handed (he.unblocked hb) ctx p (mem_log_of_ext he hp)
  · rw [he.processed] at hne ⊢
    exact h.pending (he.unblocked hb) hne ctx p (mem_log_of_ext he hp)
  · rw [he.processed, he.handed]
    exact h.bounded

variable {ok : Bool} {processed : List Item}

/-- Saves in the log after a save: the earlier ones, and this one if it succeeded. -/
theorem mem_log_of_saved {ctx' : Ctx} (hs : Saved ctx processed s s' ok)
    (h : .save ctx' p none ∈ s'.log) : .save ctx' p none ∈ s.log ∨ p = processed := by
  obtain ⟨err, evs, hl, hacks⟩ := hs.log
  rw [hl] at h
  rcases mem_append.mp h with h | h
  · exact .inl h
  · rcases mem_cons.mp h with h | h
    · cases h
      exact .inr rfl
    · obtain ⟨r, hr⟩ := hacks _ h
      cases hr

/-- A save that covers everything saved before it keeps the log in order; its acknowledgement covers
the same. -/
theorem CheckpointsMonotone.saved (h : CheckpointsMonotone s.log) (hs : Saved ctx processed s s' ok)
    (hc : Covers s.log processed) : CheckpointsMonotone s'.log := by
  obtain ⟨err, evs, hl, hacks⟩ := hs.log
  have hl' : s'.log = (s.log ++ [.save ctx processed err]) ++ evs := by simp [hl]
  rw [hl']
  refine always_append.mpr ⟨always_snoc.mpr ⟨h, hc⟩, fun pre e post heq => ?_⟩
  obtain ⟨r, rfl⟩ := hacks e (by simp [heq])
  intro ctx' p hp
  rcases mem_append.mp hp with hp | hp
  · rcases mem_append.mp hp with hp | hp
    · exact hc ctx' p hp
    · cases mem_singleton.mp hp
      exact le_rfl
  · obtain ⟨r', hr'⟩ := hacks (.save ctx' p none) (by simp [heq, hp])
    cases hr'

/-- A successful save keeps the order if it covers what came before and no more than was handed over,
and nothing older is left pending. -/
theorem Ordered.saved (h : Ordered s) (hs : Saved ctx processed s s' ok) (hc : Covers s.log processed)
    (hle : cover processed ≤ s.handed)
    (hp : s.pendingCheckpointProcessed ≠ [] → cover processed ≤ cover s.pendingCheckpointProcessed) : Ordered s' := by
  refine ⟨h.forward.saved hs hc, fun _ ctx' p hmem => ?_, fun _ hne ctx' p hmem => ?_, ?_⟩
  · rw [hs.handed]
    rcases mem_log_of_saved hs hmem with hmem | rfl
    · exact h.handed hs.unblocked ctx' p hmem
    · exact hle
  · rw [hs.processed] at hne ⊢
    rcases mem_log_of_saved hs hmem with hmem | rfl
    · exact h.pending hs.unblocked hne ctx' p hmem
    · exact hp hne
  · rw [hs.processed, hs.handed]
    exact h.bounded

theorem cover_append_of_ne_nil {a b : List Item} (hb : b ≠ []) : cover (a ++ b) = cover b := by
  simp [cover, getLast?_append_of_ne_nil _ hb]

theorem Ordered.flush (ctx : Ctx) (force : Bool) (h : Ordered s) :
    Ordered (flushPendingCheckpoint C E ctx force s) := by
  rcases flushPendingCheckpoint_cases C E ctx force s with he | ⟨s1, ok, hs, heq⟩
  · exact h.ext he
  · have h1 := h.saved hs (h.pending hs.unblocked hs.nonempty) h.bounded fun _ => le_rfl
    rw [heq]
    split
    · exact ⟨h1.forward, h1.handed, by simp, by simp [cover]⟩
    · exact h1

variable {batch : List Item}

theorem Ordered.appendPending (transformed : List Item) (h : Ordered s)
    (hc : s.checkpointBlocked = false → batch ≠ [] → Covers s.log batch) (hle : cover batch ≤ s.handed) :
    Ordered (appendPending s batch transformed) := by
  by_cases hnil : batch = []
  · subst hnil
    refine ⟨h.forward, h.handed, ?_, ?_⟩
    · simpa only [Pipeline.appendPending, append_nil] using h.pending
    · simpa only [Pipeline.appendPending, append_nil] using h.bounded
  · refine ⟨h.forward, h.handed, fun hb _ ctx p hp => ?_, ?_⟩
    · simp only [Pipeline.appendPending, cover_append_of_ne_nil hnil]
      exact hc hb hnil ctx p hp
    · simp only [Pipeline.appendPending, cover_append_of_ne_nil hnil]
      exact hle

/-- A batch that is neither written nor checkpointed at once leaves the boundary as it is. -/
theorem writeBatch_idle (runCtx : Ctx) (hsaves : ¬SavesAtOnce C E s batch) (hwritten : ¬Written C E s batch) :
    Ext s (writeBatch C E runCtx s batch) := by
  have hprep := prepareBatch_ext C E s batch
  unfold SavesAtOnce at hsaves
  unfold Written at hwritten
  unfold writeBatch
  rcases h : prepareBatch C E s batch with ⟨s0, _ | p⟩ <;> rw [h] at hprep hsaves hwritten
  · exact hprep
  simp only at hprep hsaves hwritten ⊢
  by_cases hnil : p.transformed = []
  · rw [if_pos hnil, if_neg fun hz => hsaves ⟨p, rfl, hnil, hz⟩]
    exact hprep
  rw [if_neg hnil]
  unfold commitBatch
  have hgate : Ext s0 (breakerGate E s0).1 := breakerGate_sent E s0
  cases hp : (breakerGate E s0).2 with
  | false =>
    simp only [hp]
    exact hprep.trans hgate
  | true =>
    have hretry : Ext (breakerGate E s0).1 (retryWrite C E (breakerGate E s0).1 p.transformed).1 :=
      (retryWrite_sent C E (breakerGate E s0).1 p.transformed fun _ _ => trivial).1
    simp only [hp]
    cases hr : (retryWrite C E (breakerGate E s0).1 p.transformed).2 with
    | some err => exact ((hprep.trans hgate).trans hretry).trans (writeFailed_ext C E _ _ err)
    | none =>
      have hsafe : p.checkpointBoundarySafe = false := by
        by_contra hsafe
        exact hwritten ⟨p, rfl, hnil, by simpa using hsafe, hp, hr⟩
      simp only [writeSucceeded, hsafe]
      exact (((hprep.trans hgate).trans hretry).trans (addRecordsWritten_sent _ _)).trans
        ((recordSuccess_sent _).trans (recordFailure_sent E _))

theorem not_written_of_no_survivors (h : survivors C E s batch = []) : ¬Written C E s batch := by
  rintro ⟨p, hp, hne, -⟩
  exact hne (by simpa [survivors, hp] using h)

/-- `writeBatch` keeps the order for a batch that covers what was saved before, unless it checkpoints
a batch without survivors in front of a pending boundary. -/
theorem Ordered.writeBatch (runCtx : Ctx) (h : Ordered s)
    (hc : s.checkpointBlocked = false → batch ≠ [] → Covers s.log batch) (hle : cover batch ≤ s.handed)
    (hord : SavesAtOnce C E s batch → s.pendingCheckpointProcessed = []) :
    Ordered (writeBatch C E runCtx s batch) := by
  by_cases hidle : SavesAtOnce C E s batch ∨ Written C E s batch
  swap
  · rw [not_or] at hidle
    exact h.ext (writeBatch_idle C E runCtx hidle.1 hidle.2)
  obtain ⟨s1, he, -, hcases⟩ := writeBatch_cases C E runCtx s batch
  have h1 := h.ext he
  have hc1 : s1.checkpointBlocked = false → batch ≠ [] → Covers s1.log batch :=
    fun hb hne ctx p hp => hc (he.unblocked hb) hne ctx p (mem_log_of_ext he hp)
  have hle1 : cover batch ≤ s1.handed := by rw [he.handed]; exact hle
  rcases hcases with heq | ⟨hnone, heq⟩ | ⟨-, transformed, heq | heq⟩
  · rwa [heq]
  · rw [heq]
    rcases saveCommittedCheckpoint_cases C E .background s1 batch [] with ⟨he', -⟩ | hs
    · exact h1.ext he'
    · refine h1.saved hs (hc1 hs.unblocked hs.nonempty) hle1 fun hne => ?_
      rw [he.processed] at hne
      exact absurd (hord (hidle.resolve_right (not_written_of_no_survivors C E hnone))) hne
  · rw [heq]
    exact h1.appendPending transformed hc1 hle1
  · rw [heq]
    exact (h1.appendPending transformed hc1 hle1).flush C E .background true

/-! ## Runs -/

theorem cover_number (n : Nat) {recs : List Record} (h : recs ≠ []) : cover (number n recs) = n + recs.length := by
  rcases eq_nil_or_concat recs with rfl | ⟨front, r, rfl⟩
  · exact absurd rfl h
  · have hsplit : number n (front ++ [r]) = number n front ++ [⟨n + front.length + 1, r⟩] := by
      simp [number]
    rw [concat_eq_append, hsplit]
    simp [cover]
    omega

theorem cover_number_le (n : Nat) (recs : List Record) : cover (number n recs) ≤ n + recs.length := by
  by_cases h : recs = []
  · subst h
    simp [number, cover]
  · exact (cover_number n h).le

theorem Ordered.step (runCtx : Ctx) (s : St) (c : Call) (hok : Orderly C E s c) (h : Ordered s) :
    Ordered (step C E runCtx s c) := by
  have hcall : Ordered (s.emit .call) := h.ext (call_ext s)
  -- handing over more records, or lifting the throttle, keeps the order
  have hset : ∀ n b, s.handed ≤ n →
      Ordered { s.emit .call with handed := n, uncheckpointedBatches := b } :=
    fun n b hn => ⟨hcall.forward, fun hb ctx p hp => (hcall.handed hb ctx p hp).trans hn, hcall.pending,
      hcall.bounded.trans hn⟩
  -- source records come after everything handed over before
  have hnum : ∀ recs, s.checkpointBlocked = false → number s.handed recs ≠ [] →
      Covers (s.emit .call).log (number s.handed recs) := by
    intro recs hb hne ctx p hp
    have hrecs : recs ≠ [] := by
      rintro rfl
      exact hne rfl
    rw [cover_number s.handed hrecs]
    exact (hcall.handed hb ctx p hp).trans (Nat.le_add_right _ _)
  cases c with
  | batch recs =>
    exact (hset _ s.uncheckpointedBatches (Nat.le_add_right _ _)).writeBatch C E runCtx (hnum recs)
      (cover_number_le _ _) hok
  | lastBatch recs =>
    exact (hset _ 10 (Nat.le_add_right _ _)).writeBatch C E .background (hnum recs) (cover_number_le _ _) hok
  | flushed recs =>
    by_cases hidle : SavesAtOnce C E (enter s (.flushed recs)).1 (enter s (.flushed recs)).2 ∨
        Written C E (enter s (.flushed recs)).1 (enter s (.flushed recs)).2
    · refine (hset s.handed 10 le_rfl).writeBatch C E .background (fun _ _ ctx p hp => ?_) ?_ hok.1
      · exact absurd (mem_log_of_ext (call_ext s) hp) (hok.2 hidle ctx p)
      · simp only [cover, getLast?_map, Option.map_map]
        cases recs.getLast? <;> simp
    · rw [not_or] at hidle
      exact (hset s.handed 10 le_rfl).ext (writeBatch_idle C E .background hidle.1 hidle.2)
  | tick => exact hcall.flush C E runCtx false
  | final => exact hcall.flush C E .background true

/-- **Checkpoints move forward** in every run in which a batch without survivors is checkpointed only
while nothing is pending, and drained records are committed only before the first checkpoint. -/
theorem checkpoints_monotone (runCtx : Ctx) (cb : Option CircuitBreaker) (calls : List Call)
    (hok : Steps (Orderly C E) (step C E runCtx) (St.start cb) calls) :
    CheckpointsMonotone (run (step C E runCtx) (St.start cb) calls).log := by
  have hstart : Ordered (St.start cb) := ⟨always_nil _, by simp [St.start], by simp [St.start], by simp [St.start, cover]⟩
  exact (run_invariant_of Ordered (Ordered.step C E runCtx) hstart hok).forward

end

/-! ### Counterexample: an all-filtered batch overtakes the pending boundary

Record 1 is written and checkpointed. Record 2 is written within the checkpoint interval and stays
pending. Record 3 is filtered and checkpointed at once. The flush at shutdown then saves record 2. -/

def dropThree : Transform where
  apply := fun _ _ r => if r.data.get? "id" = some (.int64 3) then .error .filtered else .ok r

def overtakeCfg : Cfg := { transforms := [dropThree], checkpointInterval := 10 * second }

def overtakeEnv : Env := { now := fun _ => 100 * second }

def overtakeRun : St :=
  run (step overtakeCfg overtakeEnv .background) (St.start none)
    [.batch [row 1], .batch [row 2], .batch [row 3], .final]

theorem filtered_batch_overtakes : ¬ CheckpointsMonotone overtakeRun.log := by
  intro h
  have hlog : overtakeRun.log = overtakeRun.log.dropLast ++ [.save .background [⟨2, row 2⟩] none] := by
    decide
  have hmem : Event.save .background [⟨3, row 3⟩] none ∈ overtakeRun.log.dropLast := by decide
  have hback : cover [⟨3, row 3⟩] ≤ cover [⟨2, row 2⟩] := (h _ _ [] hlog) .background [⟨3, row 3⟩] hmem
  exact absurd hback (by decide)

/-- The same batches in another order: nothing is pending when the filtered one is committed. -/
theorem checkpoints_monotone_filtered_first :
    let s := run (step overtakeCfg overtakeEnv .background) (St.start none)
      [.batch [row 1], .batch [row 3], .batch [row 2], .final]
    (s.log.filter Event.isCheckpoint).length = 3 ∧ CheckpointsMonotone s.log :=
  ⟨by decide, checkpoints_monotone overtakeCfg overtakeEnv .background none _
    ⟨fun _ => rfl, fun _ => rfl, fun _ => rfl, trivial, trivial⟩⟩

end OpenEtl.Pipeline
