import OpenEtl.Pipeline.Commit

/-!
# Zero loss of the linear runner

A checkpoint that is saved covers only source records that are settled: acknowledged by the sink, in the DLQ,
filtered, or consumed by a batch transform. The invariant of a run (`SafeUpTo`) is that this holds of every save so
far and that, as long as the fence is down, everything handed over is settled.
-/

namespace OpenEtl.Pipeline

open Storage (Ctx)
open List

/-- What a save needs of the events before it. -/
def SaveSafe (pre : List Event) : Event → Prop
  | .save _ processed _ => ∀ it ∈ processed, ∀ n, 1 ≤ n → n ≤ it.seq → Settled pre n
  | _ => True

def ZeroLoss (log : List Event) : Prop := Trace.Always SaveSafe log

/-- What is required of every source record up to those a save names. -/
def SavesUpTo (G : List Event → Nat → Prop) (pre : List Event) : Event → Prop
  | .save _ processed _ => ∀ it ∈ processed, ∀ n, 1 ≤ n → n ≤ it.seq → G pre n
  | _ => True

section

variable {G : List Event → Nat → Prop}

theorem savesUpTo_of_not_checkpoint {e : Event} (he : e.isCheckpoint = false) (pre : List Event) : SavesUpTo G pre e := by
  cases e with
  | save => simp [Event.isCheckpoint] at he
  | _ => trivial

/-- The runner's invariant, with source records up to `m` handed over: `G` holds of them, unless the fence is up. -/
structure SafeUpTo (G : List Event → Nat → Prop) (m : Nat) (s : St) : Prop where
  saves : Trace.Always (SavesUpTo G) s.log
  settled : s.checkpointBlocked = false → ∀ n, 1 ≤ n → n ≤ m → G s.log n
  pending : ∀ it ∈ s.pendingCheckpointProcessed, it.seq ≤ m

/-- `G` is about what has happened. -/
def Lasting (G : List Event → Nat → Prop) : Prop := ∀ log log' n, log ⊆ log' → G log n → G log' n

variable {m : Nat} {s : St}

theorem SafeUpTo.ext {s' : St} (hG : Lasting G) (h : SafeUpTo G m s) (he : Ext s s') : SafeUpTo G m s' := by
  obtain ⟨evs, hl, hns⟩ := he.quiet
  refine ⟨?_, fun hb n h1 hn => hG _ _ n he.subset (h.settled (he.unblocked hb) n h1 hn), ?_⟩
  · rw [hl]
    exact Trace.Always.append h.saves fun pre e hmem => savesUpTo_of_not_checkpoint (hns e hmem) pre
  · rw [he.processed]
    exact h.pending

theorem SafeUpTo.saved {s' : St} {ctx : Ctx} {processed : List Item} {ok : Bool} (hG : Lasting G) (h : SafeUpTo G m s)
    (hs : Saved ctx processed s s' ok) (hp : ∀ it ∈ processed, it.seq ≤ m) : SafeUpTo G m s' := by
  obtain ⟨err, evs, hl, hns⟩ := hs.log
  have hsub : s.log ⊆ s'.log := by rw [hl]; exact subset_append_left _ _
  refine ⟨?_, fun _ n h1 hn => hG _ _ n hsub (h.settled hs.unblocked n h1 hn), ?_⟩
  · have hl' : s'.log = (s.log ++ [.save ctx processed err]) ++ evs := by simp [hl]
    rw [hl']
    refine Trace.Always.append (Trace.always_snoc.mpr ⟨h.saves, ?_⟩) fun pre e hmem => ?_
    · intro it hit n h1 hn
      exact h.settled hs.unblocked n h1 (hn.trans (hp it hit))
    · obtain ⟨r, rfl⟩ := hns e hmem
      trivial
  · rw [hs.processed]
    exact h.pending

variable (C : Cfg) (E : Env)

theorem SafeUpTo.flush (hG : Lasting G) (ctx : Ctx) (force : Bool) (h : SafeUpTo G m s) :
    SafeUpTo G m (flushPendingCheckpoint C E ctx force s) := by
  rcases flushPendingCheckpoint_cases C E ctx force s with he | ⟨s1, ok, hs, heq⟩
  · exact h.ext hG he
  · have h1 := h.saved hG hs h.pending
    rw [heq]
    split
    · exact ⟨h1.saves, h1.settled, by simp⟩
    · exact h1

/-- The point up to which a call of `writeBatch` saves nothing: the batch is prepared and its survivors delivered. -/
structure Reached (s : St) (batch : List Item) (s₁ : St) : Prop where
  prepared : Ext (prepareBatch C E s batch).1 s₁
  delivered : (∀ n, E.waitExpires n = false) → Durable C E s₁ → ∀ it ∈ survivors C E s batch, Delivered s₁.log it

/-- `writeBatch` extends the invariant over the records it is given. -/
theorem SafeUpTo.writeBatch {m' : Nat} {batch : List Item} (hG : Lasting G) (runCtx : Ctx) (h : SafeUpTo G m s)
    (hmm : m ≤ m') (hle : ∀ it ∈ batch, it.seq ≤ m')
    (hend : ∀ s1, Reached C E s batch s1 → s1.checkpointBlocked = false → ∀ n, m < n → n ≤ m' → G s1.log n) :
    SafeUpTo G m' (writeBatch C E runCtx s batch) := by
  obtain ⟨s1, hext, hdel, hcases⟩ := writeBatch_spec C E (fun _ => id) runCtx s batch fun _ _ => trivial
  have h₁ : SafeUpTo G m' s1 := by
    have h0 := h.ext hG ((prepareBatch_ext C E s batch).trans hext)
    refine ⟨h0.saves, fun hb n h1 hn => ?_, fun it hit => (h0.pending it hit).trans hmm⟩
    by_cases hnm : n ≤ m
    · exact h0.settled hb n h1 hnm
    · exact hend s1 ⟨hext, hdel⟩ hb n (by omega) hn
  have happ : ∀ transformed, SafeUpTo G m' (appendPending s1 batch transformed) := by
    intro transformed
    refine ⟨h₁.saves, h₁.settled, fun it hit => ?_⟩
    rcases mem_append.mp hit with hit | hit
    · exact h₁.pending it hit
    · exact hle it hit
  rcases hcases with heq | ⟨-, heq⟩ | ⟨-, transformed, heq | heq⟩
  · rwa [heq]
  · rw [heq]
    rcases saveCommittedCheckpoint_cases C E .background s1 batch [] with ⟨he', -⟩ | hs
    · exact h₁.ext hG he'
    · exact h₁.saved hG hs hle
  · rw [heq]
    exact happ transformed
  · rw [heq]
    exact (happ transformed).flush C E hG .background true

/-! ## Runs -/

theorem mem_number {n : Nat} {recs : List Record} {it : Item} (h : it ∈ number n recs) :
    n < it.seq ∧ it.seq ≤ n + recs.length := by
  obtain ⟨i, hi, rfl⟩ := mem_mapIdx.mp h
  simp only
  omega

theorem number_covers (n : Nat) (recs : List Record) (k : Nat) (h1 : n < k) (h2 : k ≤ n + recs.length) :
    ∃ it ∈ number n recs, it.seq = k := by
  have hi : k - n - 1 < recs.length := by omega
  refine ⟨⟨n + (k - n - 1) + 1, recs[k - n - 1]⟩, mem_mapIdx.mpr ⟨k - n - 1, hi, rfl⟩, ?_⟩
  simp only
  omega

/-- The state in which `Start` leaves the runner; the breaker may have a history. -/
def St.start (cb : Option CircuitBreaker) : St := { circuitBreaker := cb }

theorem handed_flush (ctx : Ctx) (force : Bool) (s : St) :
    (flushPendingCheckpoint C E ctx force s).handed = s.handed :=
  (flushPendingCheckpoint_does (D := fun _ => True) (W := fun _ => True) C E ctx force s).handed

theorem handed_writeBatch (runCtx : Ctx) (s : St) (batch : List Item) :
    (writeBatch C E runCtx s batch).handed = s.handed :=
  (writeBatch_done C E runCtx s batch).handed

def Call.read : Call → List Record
  | .batch recs | .lastBatch recs => recs
  | .flushed _ | .tick | .final => []

/-- A step extends the invariant over the records it hands over, if `G` holds of those at the point its batch reaches. -/
theorem SafeUpTo.step (hG : Lasting G) (runCtx : Ctx) (s : St) (c : Call)
    (hend : ∀ s0 s1, Reached C E s0 (number s.handed c.read) s1 → s1.checkpointBlocked = false →
      ∀ it ∈ number s.handed c.read, G s1.log it.seq)
    (h : SafeUpTo G s.handed s) :
    SafeUpTo G (step C E runCtx s c).handed (step C E runCtx s c) := by
  have hcall : SafeUpTo G s.handed (s.emit .call) := h.ext hG (call_ext s)
  -- a counter that is set before the batch is written is not part of the invariant
  have hset : ∀ n b, SafeUpTo G s.handed { s.emit .call with handed := n, uncheckpointedBatches := b } :=
    fun _ _ => ⟨hcall.saves, hcall.settled, hcall.pending⟩
  have hnext : ∀ s0 s1, Reached C E s0 (number s.handed c.read) s1 → s1.checkpointBlocked = false →
      ∀ n, s.handed < n → n ≤ s.handed + c.read.length → G s1.log n := by
    intro s0 s1 hr hb n hlt hle
    obtain ⟨it, hit, rfl⟩ := number_covers s.handed c.read n hlt hle
    exact hend s0 s1 hr hb it hit
  cases c with
  | batch recs =>
    simp only [Pipeline.step, enter, handed_writeBatch]
    exact (hset _ s.uncheckpointedBatches).writeBatch C E hG runCtx (by omega)
      (fun it hit => (mem_number hit).2) fun s1 => hnext _ s1
  | lastBatch recs =>
    simp only [Pipeline.step, enter, handed_writeBatch]
    exact (hset _ 10).writeBatch C E hG .background (by omega) (fun it hit => (mem_number hit).2) fun s1 => hnext _ s1
  | flushed recs =>
    simp only [Pipeline.step, enter, handed_writeBatch]
    have hno : ∀ n, s.handed < n → ¬n ≤ s.handed := by omega
    refine (hset s.handed 10).writeBatch C E hG .background le_rfl (fun it hit => ?_) fun _ _ _ n hlt hle =>
      absurd hle (hno n hlt)
    obtain ⟨r, -, rfl⟩ := mem_map.mp hit
    exact Nat.zero_le _
  | tick =>
    simp only [Pipeline.step, enter, handed_flush]
    exact hcall.flush C E hG runCtx false
  | final =>
    simp only [Pipeline.step, enter, handed_flush]
    exact hcall.flush C E hG .background true

theorem SafeUpTo.start (cb : Option CircuitBreaker) : SafeUpTo G (St.start cb).handed (St.start cb) :=
  ⟨Trace.always_nil _, fun _ n h1 hn => absurd hn (by simp [St.start]; omega), by simp [St.start]⟩

theorem lasting_settled : Lasting Settled := fun _ _ _ hsub => Settled.mono hsub

/-- **Zero loss.** If no wait for an open breaker is cut short by the end of the commit context, every
checkpoint saved in a run of the linear runner covers settled records only. -/
theorem zero_loss (runCtx : Ctx) (cb : Option CircuitBreaker) (calls : List Call)
    (hwait : ∀ n, E.waitExpires n = false) :
    ZeroLoss (Trace.run (step C E runCtx) (St.start cb) calls).log := by
  have hstep : ∀ s c, SafeUpTo Settled s.handed s →
      SafeUpTo Settled (step C E runCtx s c).handed (step C E runCtx s c) := fun s c =>
    SafeUpTo.step C E lasting_settled runCtx s c fun s₀ s₁ hr hb it hit =>
      ⟨it, rfl, (prepareBatch_covered C E s₀ _ (hr.prepared.unblocked hb) it hit).mono hr.prepared.subset
        fun r hr' => .inr (hr.delivered hwait (.inl hb) r hr')⟩
  have hsaves : Trace.Always (SavesUpTo Settled) (Trace.run (step C E runCtx) (St.start cb) calls).log :=
    (Trace.run_invariant (fun s => SafeUpTo Settled s.handed s) hstep (SafeUpTo.start cb)).saves
  have heq : SavesUpTo Settled = SaveSafe := funext fun pre => funext fun e => by cases e <;> rfl
  rwa [heq] at hsaves

end

theorem zero_loss_two_batches :
    let s := Trace.run (step {} {} .background) (St.start none) [.batch [{}], .batch [{}, {}], .final]
    s.log.any Event.isCheckpoint = true ∧ ZeroLoss s.log :=
  ⟨by decide, zero_loss {} {} .background none _ fun _ => rfl⟩

/-! ### Counterexample: a batch given up behind an open breaker

The breaker trips on the first batch (its record goes to the DLQ). The second batch waits for the
cooldown, the commit context ends first and the batch is dropped. The third batch is written and its
checkpoint covers record 2, which is nowhere. -/

def row (n : Int) : Record := { data := [("id", .int64 n)] }

def badRow : Err := { msg := "bad row", classified := some .data }

def abandonEnv : Env where
  write := fun _ its => { err := if its.any (fun it => it.seq == 1) then some badRow else none }
  now := fun n => if n < 8 then 0 else 100 * second
  waitExpires := fun _ => true

def abandonRun : St :=
  Trace.run (step {} abandonEnv .background)
    (St.start (some (newCircuitBreaker { maxFailures := 1 })))
    [.batch [row 1], .batch [row 2], .batch [row 3]]

theorem abandonRun_log : abandonRun.log =
    [.call, .routed ⟨1, row 1⟩ (.output ⟨1, row 1⟩), .sinkWrite [⟨1, row 1⟩] { err := some badRow },
      .sinkWrite [⟨1, row 1⟩] { err := some badRow }, .dlq ⟨1, row 1⟩ badRow.toCause none,
      .call, .routed ⟨2, row 2⟩ (.output ⟨2, row 2⟩), .breakerWait true,
      .call, .routed ⟨3, row 3⟩ (.output ⟨3, row 3⟩), .sinkWrite [⟨3, row 3⟩] {}]
      ++ [.save .background [⟨3, row 3⟩] none] := by
  rfl

theorem abandoned_batch_is_skipped : ¬ ZeroLoss abandonRun.log := by
  intro h
  rw [abandonRun_log] at h
  obtain ⟨it, hseq, fate, hmem, hfate⟩ := (Trace.always_snoc.mp h).2 ⟨3, row 3⟩ (by simp) 2 (by simp) (by simp)
  simp only [mem_cons, reduceCtorEq, false_or, or_false, not_mem_nil] at hmem
  rcases hmem with ⟨rfl, rfl⟩ | ⟨rfl, rfl⟩ | ⟨rfl, rfl⟩
  · simp at hseq
  · rcases hfate with hfate | ⟨its, res, hw, hack⟩ | ⟨cause, hd⟩
    · simp at hfate
    · simp only [mem_cons, Event.sinkWrite.injEq, reduceCtorEq, false_or, or_false, not_mem_nil,
        or_self_left] at hw
      rcases hw with ⟨rfl, rfl⟩ | ⟨rfl, rfl⟩
      · simp [Acked, badRow] at hack
      · simp [Acked] at hack
    · simp at hd
  · simp at hseq

end OpenEtl.Pipeline
