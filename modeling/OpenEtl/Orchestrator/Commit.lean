import OpenEtl.Orchestrator.Routing

/-!
# Entering and writing the batches of the DAG executor

`Safe` is what the router keeps between two calls of `writeToSink`: as long as a source is not blocked,
every message entered so far is settled except for what the sink's batch still holds. Entering the next
message keeps it (`Safe.enterResult`), and so does writing a batch out and forgetting it
(`Safe.writeAndClear`), provided that `writeToSink` does not give the batch up.
-/

namespace OpenEtl.Orchestrator

open Storage (Ctx)
open List Function Trace

/-- A save covers only messages of its source that `Q` holds of, by the events before it. -/
def SavesCover (Q : List Event → String → Nat → Prop) (pre : List Event) : Event → Prop
  | .save _ sourceID records _ => ∀ msg ∈ records, ∀ n ≤ msg.seq, Q pre sourceID n
  | _ => True

def ZeroLoss (log : List Event) : Prop := Always (SavesCover Settled) log

/-- What `Q` says stays true. -/
def Lasting (Q : List Event → String → Nat → Prop) : Prop := ∀ l l' S n, l ⊆ l' → Q l S n → Q l' S n

theorem settled_lasting : Lasting Settled := fun _ _ _ _ hsub h => h.mono hsub

variable {Q : List Event → String → Nat → Prop}

theorem savesCover_ext {s s' : St} (h : Always (SavesCover Q) s.log) (he : Ext s s') : Always (SavesCover Q) s'.log := by
  obtain ⟨evs, hl, hq⟩ := he.events
  rw [hl]
  refine Always.append h fun pre e hmem => ?_
  cases e with
  | save ctx sourceID records err => exact absurd (hq _ hmem) (by simp [Event.isSave])
  | _ => trivial

def Event.SavesUnder (ctx : Ctx) : Event → Prop
  | .save c _ _ _ => c = ctx
  | _ => True

/-- `P` allows the events of `writeToSink` for a batch, under a context. -/
structure Writing (P : Event → Prop) (ctx : Ctx) (batch : List RecordMsg) : Prop extends Failures P where
  wait : ∀ sinkID ended, P (.breakerWait sinkID ended)
  write : ∀ sinkID err, P (.sinkWrite sinkID batch err)
  save : ∀ sourceID records err, P (.save ctx sourceID records err)
  ack : ∀ sourceID records err, P (.ack sourceID records err)

theorem Writing.savesUnder (ctx : Ctx) (batch : List RecordMsg) : Writing (Event.SavesUnder ctx) ctx batch where
  dlq _ _ _ _ := trivial
  noDLQ _ _ _ := trivial
  wait _ _ := trivial
  write _ _ := trivial
  save _ _ _ := rfl
  ack _ _ _ := trivial

section

variable (C : Cfg) (E : Env) {P : Event → Prop}

/-! ## The checkpoints of a batch -/

variable {ctx : Ctx} {s : St} {records : List RecordMsg} {sourceID : String}

theorem emit_frame (s : St) (e : Event) : Frame s (s.emit e) := ⟨⟨[e], rfl⟩, fun _ => id, rfl⟩

/-- `saveSource` calls `Save` at most once. -/
theorem saveSource_cases (hack : ∀ sourceID records err, P (.ack sourceID records err)) (ctx : Ctx) (s : St)
    (sinkID sourceID : String) (records : List RecordMsg) (wrapped : Bool) :
    Adds P s (saveSource C E ctx s sinkID sourceID records wrapped).1 ∨
      ∃ err, Adds P (s.emit (.save ctx sourceID records err))
        (saveSource C E ctx s sinkID sourceID records wrapped).1 := by
  unfold saveSource
  split
  · exact .inl (((blockSourceCheckpoint_adds s _ _).trans (setFailed_adds _)).trans (recordFailure_adds E _ _))
  split
  · exact .inl (recordFailure_adds E s sinkID)
  split
  · exact .inr ⟨_, ((blockSourceCheckpoint_adds _ _ _).trans (recordFailure_adds E _ _)).trans (setFailed_adds _)⟩
  simp only
  split
  · split
    · exact .inr ⟨_, (((Adds.emit _ (hack ..)).trans (blockSourceCheckpoint_adds _ _ _)).trans (setFailed_adds _)).trans
        (recordFailure_adds E _ _)⟩
    · exact .inr ⟨_, Adds.emit _ (hack ..)⟩
  · exact .inr ⟨_, Adds.refl _⟩

variable {batch : List RecordMsg}

theorem saveSource_adds (hP : Writing P ctx batch) (s : St) (sinkID sourceID : String) (records : List RecordMsg)
    (wrapped : Bool) : Adds P s (saveSource C E ctx s sinkID sourceID records wrapped).1 := by
  rcases saveSource_cases C E hP.ack ctx s sinkID sourceID records wrapped with h | ⟨err, h⟩
  · exact h
  · exact (Adds.emit s (hP.save sourceID records err)).trans h

theorem saveSource_safe (ctx : Ctx) (sinkID : String) (wrapped : Bool) (hz : Always (SavesCover Q) s.log)
    (hset : ∀ msg ∈ records, ∀ n ≤ msg.seq, Q s.log sourceID n) :
    Always (SavesCover Q) (saveSource C E ctx s sinkID sourceID records wrapped).1.log := by
  rcases saveSource_cases (P := fun e => e.isSave = false) C E (fun _ _ _ => rfl) ctx s sinkID sourceID records wrapped with he | ⟨err, he⟩
  · exact savesCover_ext hz he
  · have hsave : Always (SavesCover Q) (s.emit (.save ctx sourceID records err)).log := always_snoc.mpr ⟨hz, hset⟩
    exact savesCover_ext hsave he

theorem saveSources_adds (hP : Writing P ctx batch) (sinkID : String) (wrapped : Bool) :
    ∀ (l : List (String × List RecordMsg)) (s : St),
      Adds P s (saveSources C E ctx sinkID wrapped s l)
  | [], s => Adds.refl s
  | (sourceID, records) :: rest, s => by
    have hsave := saveSource_adds C E hP s sinkID sourceID records wrapped
    unfold saveSources
    split
    · exact saveSources_adds hP sinkID wrapped rest s
    split
    · exact (recordFailure_adds E s sinkID).trans (saveSources_adds hP sinkID wrapped rest _)
    split
    · rename_i s1 heq
      rw [heq] at hsave
      exact hsave.trans (saveSources_adds hP sinkID wrapped rest s1)
    · rename_i s1 heq
      rwa [heq] at hsave

theorem saveSources_safe (hQ : Lasting Q) (ctx : Ctx)
    (sinkID : String) (wrapped : Bool) :
    ∀ (l : List (String × List RecordMsg)) (s : St), Always (SavesCover Q) s.log →
      (∀ p ∈ l, s.blocked p.1 = false → ∀ msg ∈ p.2, ∀ n ≤ msg.seq, Q s.log p.1 n) →
      Always (SavesCover Q) (saveSources C E ctx sinkID wrapped s l).log
  | [], s, hz, _ => hz
  | (sourceID, records) :: rest, s, hz, hset => by
    -- what the other sources need holds in any later state
    have hrest : ∀ {s'}, Frame s s' → ∀ p ∈ rest, s'.blocked p.1 = false →
        ∀ msg ∈ p.2, ∀ n ≤ msg.seq, Q s'.log p.1 n := fun hf p hp hb msg hm n hn =>
      hQ _ _ _ _ hf.log (hset p (by simp [hp]) (hf.unblocked hb) msg hm n hn)
    have hf := (saveSource_adds C E (Writing.savesUnder ctx []) s sinkID sourceID records wrapped).toFrame
    unfold saveSources
    split
    · exact saveSources_safe hQ ctx sinkID wrapped rest s hz (hrest (Frame.refl s))
    split
    · have he : Ext s _ := recordFailure_adds E s sinkID
      exact saveSources_safe hQ ctx sinkID wrapped rest _ (savesCover_ext hz he) (hrest he.toFrame)
    · rename_i hb
      have hz1 := saveSource_safe C E ctx sinkID wrapped hz (hset (sourceID, records) (by simp) (by simpa using hb))
      split
      · rename_i s1 heq
        rw [heq] at hz1 hf
        exact saveSources_safe hQ ctx sinkID wrapped rest s1 hz1 (hrest hf)
      · rename_i s1 heq
        rwa [heq] at hz1

theorem blockSources_adds (reason : String) : ∀ (l : List (String × List RecordMsg)) (s : St),
    Adds P s (blockSources s reason l)
  | [], s => Adds.refl s
  | (sourceID, _) :: rest, s =>
    (blockSourceCheckpoint_adds s sourceID reason).trans (blockSources_adds reason rest _)

theorem blockSources_blocked (reason : String) : ∀ (l : List (String × List RecordMsg)) (s : St),
    ∀ p ∈ l, (blockSources s reason l).blocked p.1 = true
  | (sourceID, _) :: rest, s, p, hp => by
    rcases mem_cons.mp hp with rfl | hp
    · refine (blockSources_adds (P := fun _ => True) reason rest _).blocked _ ?_
      simp [blocked_blockSourceCheckpoint]
    · exact blockSources_blocked reason rest _ p hp

/-! ## The write -/

theorem failBatch_adds (hP : Failures P) (sinkID : String) (cause : Cause) : ∀ (batch : List RecordMsg) (s : St),
    Adds P s (failBatch C E sinkID cause s batch).1
  | [], s => Adds.refl s
  | msg :: rest, s => (handleFailed_adds C E hP s msg cause sinkID).trans (failBatch_adds hP sinkID cause rest _)

theorem failBatch_durable (sinkID : String) (cause : Cause) : ∀ (batch : List RecordMsg) (s : St),
    (failBatch C E sinkID cause s batch).2 = true →
      ∀ msg ∈ batch, .dlq sinkID msg cause none ∈ (failBatch C E sinkID cause s batch).1.log
  | [], _, _, _, hm => by simp at hm
  | x :: rest, s, h, msg, hm => by
    obtain ⟨hx, hrest⟩ : (handleFailed C E s x cause sinkID).2 = true ∧
        (failBatch C E sinkID cause (handleFailed C E s x cause sinkID).1 rest).2 = true := by
      simpa [failBatch] using h
    rcases mem_cons.mp hm with rfl | hm
    · exact (failBatch_adds C E Routes.noSave.toFailures sinkID cause rest _).log (handleFailed_durable C E s msg cause sinkID hx)
    · exact failBatch_durable sinkID cause rest _ hrest msg hm

theorem writeFailed_adds (hP : Failures P) (s : St) (sinkID : String) (batch : List RecordMsg)
    (recordsBySource : List (String × List RecordMsg)) (err : Err) :
    Adds P s (writeFailed C E s sinkID batch recordsBySource err) := by
  have hfail := (recordFailure_adds E s sinkID).trans
    (failBatch_adds C E hP sinkID err.toCause batch (recordFailure E s sinkID))
  unfold writeFailed
  simp only
  split
  · exact hfail
  · exact hfail.trans (blockSources_adds _ _ _)

/-- After a failed write every record of the batch is in the DLQ, or its source is blocked. -/
theorem writeFailed_spec (s : St) (sinkID : String) (batch : List RecordMsg)
    (recordsBySource : List (String × List RecordMsg)) (err : Err)
    (hcontrib : ∀ msg ∈ batch, ∃ records, (msg.sourceID, records) ∈ recordsBySource) :
    ∀ msg ∈ batch, Delivered (writeFailed C E s sinkID batch recordsBySource err).log sinkID msg ∨
      (writeFailed C E s sinkID batch recordsBySource err).blocked msg.sourceID = true := by
  intro msg hm
  unfold writeFailed
  simp only
  split
  · rename_i hd
    exact .inl (.inr ⟨_, failBatch_durable C E sinkID _ batch _ hd msg hm⟩)
  · obtain ⟨records, hp⟩ := hcontrib msg hm
    exact .inr (blockSources_blocked _ _ _ (msg.sourceID, records) hp)

theorem retryWrite_adds (hP : ∀ sinkID err, P (.sinkWrite sinkID batch err)) (s : St) (sinkID : String) :
    Adds P s (retryWrite C E s sinkID batch).1 :=
  Retry.Do_invariant (fun _ h => h.trans (Adds.emit _ (hP ..))) (Adds.refl s)

/-- A successful `retry.Do` has written the batch, provided that at least one attempt is allowed. -/
theorem retryWrite_spec (hpos : 0 < C.retry.maxAttempts) (s : St) (sinkID : String) (batch : List RecordMsg) :
    (retryWrite C E s sinkID batch).2 = none →
      .sinkWrite sinkID batch none ∈ added s.log (retryWrite C E s sinkID batch).1.log := by
  refine Retry.Do_induction (P := Ext s)
    (Q := fun (s' : St) r => r = none → .sinkWrite sinkID batch none ∈ added s.log s'.log)
    hpos ?_ ?_ ?_ (Adds.refl s)
  · intro s1 s2 he hw _
    simp only [writeSink, Prod.mk.injEq] at hw
    obtain ⟨rfl, herr⟩ := hw
    rw [herr]
    refine mem_added he.grows (emit_frame s1 _).grows (prefix_refl _) ?_
    simp [St.emit]
  · intro s1 s2 e he hw
    simp only [writeSink, Prod.mk.injEq] at hw
    obtain ⟨rfl, -⟩ := hw
    exact ⟨he.trans (Adds.emit s1 rfl), by simp⟩
  · simp

theorem breakerGate_adds (hP : ∀ sinkID ended, P (.breakerWait sinkID ended)) (u : Under) (s : St) (sinkID : String) :
    Adds P s (breakerGate E u s sinkID).1 := by
  unfold breakerGate
  split
  · exact Adds.refl s
  simp only
  split
  · exact Adds.of_log [] (by simp) (by simp) (fun _ => id) rfl
  · exact Adds.of_log [_] rfl (by simpa using hP ..) (fun _ => id) rfl

theorem breakerGate_proceeds (u : Under) (s : St) (sinkID : String) (h : ∀ n, E.ended u n = false) :
    (breakerGate E u s sinkID).2 = true := by
  unfold breakerGate
  split
  · rfl
  simp only
  split
  · rfl
  · simp [h]

/-! ## The invariant of the batches -/

structure Safe (s : St) : Prop where
  saves : ZeroLoss s.log
  /-- the messages entered so far are settled, except for what the batches hold -/
  covered : ∀ S, s.blocked S = false → ∀ n < s.applied S,
    ∃ msg : RecordMsg, msg.sourceID = S ∧ msg.seq = n ∧ Covered s.log s.batchBySink msg
  /-- every record of a batch has its source among the contributors -/
  contributors : ∀ k, ∀ msg ∈ s.batchBySink k, ∃ records, (msg.sourceID, records) ∈ s.recordsBySinkSource k
  /-- the contributions are messages entered before -/
  boundary : ∀ k, ∀ p ∈ s.recordsBySinkSource k, ∀ msg ∈ p.2, msg.seq < s.applied p.1
  held : ∀ k, s.batchBySink k ≠ [] → k ∈ sinkIDs C

variable {C E} {s' : St}

theorem Safe.frame (h : Safe C s) (hf : Frame s s') (hz : ZeroLoss s'.log) : Safe C s' := by
  obtain ⟨q', log', blocks', b', w', f', d', fl'⟩ := s'
  obtain rfl : q' = s.toQueues := hf.queues
  refine ⟨hz, fun S hb n hn => ?_, h.contributors, h.boundary, h.held⟩
  obtain ⟨msg, hS, hseq, hc⟩ := h.covered S (hf.unblocked hb) n hn
  exact ⟨msg, hS, hseq, hc.mono hf.log fun k rec hm => .inl hm⟩

theorem Safe.ext (h : Safe C s) (he : Ext s s') : Safe C s' := h.frame he.toFrame (savesCover_ext h.saves he)

variable {msg : RecordMsg}

variable {S : String} {l : List (String × List RecordMsg)}

theorem mem_addSourceRecord_key : (∃ records, (S, records) ∈ addSourceRecord msg l) ↔
    S = msg.sourceID ∨ ∃ records, (S, records) ∈ l := by
  induction l with
  | nil => simp [addSourceRecord]
  | cons p rest ih =>
    obtain ⟨S', msgs⟩ := p
    unfold addSourceRecord
    split
    · simp_all [exists_or]
    · simp only [mem_cons, exists_or, ih, or_left_comm]

theorem mem_addSourceRecord {m : RecordMsg} : (∃ p ∈ addSourceRecord msg l, p.1 = S ∧ m ∈ p.2) ↔
    (∃ p ∈ l, p.1 = S ∧ m ∈ p.2) ∨ m = msg ∧ S = msg.sourceID := by
  induction l with
  | nil => simp [addSourceRecord, and_comm, eq_comm]
  | cons p rest ih =>
    unfold addSourceRecord
    split
    · rename_i hS
      simp only [mem_cons, exists_eq_or_imp, hS]
      grind
    · simp only [mem_cons, exists_eq_or_imp, ih, or_assoc]

variable {k : String} {r : RouteResult}

theorem mem_sinkRecords :
    msg ∈ r.sinkRecords k ↔ ∃ rec, .sink k rec ∈ r.ends ∧ msg = { r.msg with record := rec } := by
  unfold RouteResult.sinkRecords
  rw [mem_filterMap]
  constructor
  · rintro ⟨b, hb, heq⟩
    cases b with
    | sink id rec =>
      by_cases hid : id = k
      · subst hid
        exact ⟨rec, hb, by simpa using heq.symm⟩
      · simp [hid] at heq
    | _ => simp at heq
  · rintro ⟨rec, hb, rfl⟩
    exact ⟨.sink k rec, hb, by simp⟩

/-- Entering a result, with the block that an unsafe one causes split off. -/
theorem enterResult_cases (s : St) (r : RouteResult) : ∃ s1, enterResult s r =
      { s1 with
        batchBySink := fun k => s.batchBySink k ++ r.sinkRecords k
        recordsBySinkSource := fun k =>
          if r.sinkRecords k = [] then s.recordsBySinkSource k
          else addSourceRecord r.msg (s.recordsBySinkSource k)
        applied := update s.applied r.msg.sourceID (s.applied r.msg.sourceID + 1) } ∧
      Ext s s1 ∧ s1.log = s.log ∧ (r.checkpointSafe = false → s1.blocked r.msg.sourceID = true) := by
  unfold enterResult
  cases hsafe : r.checkpointSafe with
  | true => exact ⟨s, rfl, Adds.refl s, rfl, by simp⟩
  | false =>
    have he : Ext s _ := blockSourceCheckpoint_adds s r.msg.sourceID "record failure could not be persisted to DLQ"
    refine ⟨_, ?_, he, ?_, fun _ => by simp [blocked_blockSourceCheckpoint]⟩
    · simp only [he.queues, Bool.false_eq_true, if_false]
    · unfold blockSourceCheckpoint; split <;> rfl

/-- The next message of a source enters the batches. -/
theorem Safe.enterResult (h : Safe C s) (hr : .routed r.msg r.ends ∈ s.log)
    (hok : RouteOk C s.log r.msg r.ends r.checkpointSafe) (hseq : r.msg.seq = s.applied r.msg.sourceID) :
    Safe C (enterResult s r) := by
  obtain ⟨s1, hs1, he, -, hblock⟩ := enterResult_cases s r
  have happlied : ∀ S, s.applied S ≤
      update s.applied r.msg.sourceID (s.applied r.msg.sourceID + 1) S := by
    intro S
    by_cases hS : S = r.msg.sourceID
    · subst hS; simp
    · simp [hS]
  rw [hs1]
  refine ⟨show ZeroLoss s1.log from savesCover_ext h.saves he, ?_, ?_, ?_, ?_⟩
  · intro S hb n hn
    by_cases hlt : n < s.applied S
    · obtain ⟨msg, hS, hmsg, hc⟩ := h.covered S (he.unblocked hb) n hlt
      exact ⟨msg, hS, hmsg, hc.mono he.log fun k rec hm => .inl (mem_append_left _ hm)⟩
    · -- the message that enters now
      have hS : r.msg.sourceID = S := by
        by_contra hne
        exact hlt (by simpa [Ne.symm hne] using hn)
      subst hS
      have hn' : n = s.applied r.msg.sourceID := by
        have : n < s.applied r.msg.sourceID + 1 := by simpa using hn
        omega
      refine ⟨r.msg, rfl, by omega, r.ends, he.log hr, fun b hbm => ?_⟩
      have hsafe : r.checkpointSafe = true := by
        by_contra hne
        have hbl := hblock (by simpa using hne)
        rw [show s1.blocked r.msg.sourceID = false from hb] at hbl
        exact absurd hbl (by simp)
      have hend := hok b hbm
      cases b with
      | unknown => exact hend
      | filtered => trivial
      | unmatched => trivial
      | failed nodeID rec =>
        obtain ⟨cause, hm⟩ := hend hsafe
        exact ⟨cause, he.log hm⟩
      | sink k rec => exact .inl (mem_append_right _ (mem_sinkRecords.mpr ⟨rec, hbm, rfl⟩))
  · intro k msg hm
    show ∃ records, _ ∈ (if r.sinkRecords k = [] then _ else _)
    rcases mem_append.mp hm with hm | hm
    · split
      · exact h.contributors k msg hm
      · exact mem_addSourceRecord_key.mpr (.inr (h.contributors k msg hm))
    · rw [if_neg (ne_nil_of_mem hm)]
      obtain ⟨rec, -, rfl⟩ := mem_sinkRecords.mp hm
      exact mem_addSourceRecord_key.mpr (.inl rfl)
  · intro k p hp msg hm
    show msg.seq < update s.applied _ _ p.1
    change p ∈ (if r.sinkRecords k = [] then _ else _) at hp
    split at hp
    · exact (h.boundary k p hp msg hm).trans_le (happlied p.1)
    · rcases mem_addSourceRecord.mp ⟨p, hp, rfl, hm⟩ with ⟨q, hq, hqp, hmq⟩ | ⟨rfl, hS⟩
      · rw [← hqp]
        exact (h.boundary k q hq msg hmq).trans_le (happlied q.1)
      · rw [hS, update_self]
        omega
  · intro k hne
    by_cases hold : s.batchBySink k = []
    · have hnew : r.sinkRecords k ≠ [] := by simpa [hold] using hne
      obtain ⟨msg, hm⟩ := exists_mem_of_ne_nil _ hnew
      obtain ⟨rec, hb, -⟩ := mem_sinkRecords.mp hm
      exact hok _ hb
    · exact h.held k hold

/-! ## Writing a batch -/

/-- With a single sink, a source that is not blocked is settled up to its contribution once the batch
has been delivered. -/
theorem Safe.settled (h : Safe C s) (hone : sinkIDs C = [k]) (hf : Frame s s')
    (hd : ∀ msg ∈ s.batchBySink k, Delivered s'.log k msg) :
    ∀ p ∈ s.recordsBySinkSource k, s'.blocked p.1 = false →
      ∀ msg ∈ p.2, ∀ n ≤ msg.seq, Settled s'.log p.1 n := by
  intro p hp hb msg hm n hn
  have hlt : n < s.applied p.1 := hn.trans_lt (h.boundary k p hp msg hm)
  obtain ⟨m, hS, hseq, hc⟩ := h.covered p.1 (hf.unblocked hb) n hlt
  refine ⟨m, hS, hseq, hc.mono hf.log fun k' rec hheld => .inr ?_⟩
  have hk' : k' = k := by simpa [hone] using h.held k' (ne_nil_of_mem hheld)
  subst hk'
  exact hd _ hheld

variable (C E)

/-- The batch is counted as written; the checkpoints follow. -/
theorem countWritten_adds (s : St) (k : String) (n : Nat) : Adds P s { recordSuccess s k with recordsWritten := n } :=
  Adds.of_log [] (by simp [recordSuccess]) (by simp) (fun _ => id) rfl

theorem writeSucceeded_adds (hP : Writing P ctx batch) (s : St) (k : String) (l : List (String × List RecordMsg)) :
    Adds P s (writeSucceeded C E ctx s k batch l) := by
  have hcount := countWritten_adds (P := P) s k (s.recordsWritten + batch.length)
  unfold writeSucceeded
  simp only
  split
  · exact hcount
  split
  · exact hcount.trans (recordFailure_adds E _ k)
  split
  · exact (hcount.trans (blockSources_adds _ _ _)).trans (recordFailure_adds E _ k)
  · exact hcount.trans (saveSources_adds C E hP k _ _ _)

theorem writeToSink_adds {runCtx : Ctx} {u : Under} (hP : Writing P (u.ctx runCtx) batch) (s : St) (sinkID : String)
    (recordsBySource : List (String × List RecordMsg)) :
    Adds P s (writeToSink C E runCtx u s sinkID batch recordsBySource) := by
  have hgate := breakerGate_adds E hP.wait u s sinkID
  have hwrite := retryWrite_adds C E hP.write (breakerGate E u s sinkID).1 sinkID
  unfold writeToSink
  split
  · exact Adds.refl s
  split
  · exact Adds.refl s
  simp only
  split
  · unfold writeBatch
    rcases hr : retryWrite C E (breakerGate E u s sinkID).1 sinkID batch with ⟨s1, _ | err⟩ <;> rw [hr] at hwrite
    · exact (hgate.trans hwrite).trans (writeSucceeded_adds C E hP s1 sinkID recordsBySource)
    · exact (hgate.trans hwrite).trans (writeFailed_adds C E hP.toFailures s1 sinkID batch recordsBySource err)
  · exact hgate

/-- A written batch saves for the sources that are not blocked. -/
theorem writeSucceeded_saves (hQ : Lasting Q) (ctx : Ctx) (k : String)
    (batch : List RecordMsg) {l : List (String × List RecordMsg)} (hz : Always (SavesCover Q) s.log)
    (hset : ∀ {s'}, Frame s s' → ∀ p ∈ l, s'.blocked p.1 = false → ∀ msg ∈ p.2, ∀ n ≤ msg.seq, Q s'.log p.1 n) :
    Always (SavesCover Q) (writeSucceeded C E ctx s k batch l).log := by
  have hcount : Ext s _ := countWritten_adds s k (s.recordsWritten + batch.length)
  have hz1 := savesCover_ext hz hcount
  unfold writeSucceeded
  simp only
  split
  · exact hz1
  split
  · exact savesCover_ext hz1 (recordFailure_adds E _ k)
  split
  · exact savesCover_ext hz1 ((blockSources_adds _ _ _).trans (recordFailure_adds E _ k))
  · refine saveSources_safe C E hQ ctx k _ _ _ hz1 fun p hp => ?_
    exact hset hcount.toFrame p ((E.sourceOrder_perm _ _).mem_iff.mp hp)

/-- So does `writeToSink` as a whole. -/
theorem writeToSink_saves (hQ : Lasting Q) (runCtx : Ctx) (u : Under) (k : String) (batch : List RecordMsg)
    {l : List (String × List RecordMsg)} (hz : Always (SavesCover Q) s.log)
    (hset : ∀ {s'}, Frame s s' → ∀ p ∈ l, s'.blocked p.1 = false → ∀ msg ∈ p.2, ∀ n ≤ msg.seq, Q s'.log p.1 n) :
    Always (SavesCover Q) (writeToSink C E runCtx u s k batch l).log := by
  have hgate : Ext s _ := breakerGate_adds E (fun _ _ => rfl) u s k
  have hwrite : Ext _ (retryWrite C E (breakerGate E u s k).1 k batch).1 := retryWrite_adds C E (fun _ _ => rfl) _ k
  unfold writeToSink
  split
  · exact hz
  split
  · exact hz
  simp only
  split
  · unfold writeBatch
    rcases hr : retryWrite C E (breakerGate E u s k).1 k batch with ⟨s1, _ | err⟩ <;> rw [hr] at hwrite
    · exact writeSucceeded_saves C E hQ _ k batch (savesCover_ext hz (hgate.trans hwrite)) fun hf =>
        hset ((hgate.trans hwrite).toFrame.trans hf)
    · exact savesCover_ext hz ((hgate.trans hwrite).trans (writeFailed_adds C E Routes.noSave.toFailures s1 k batch l err))
  · exact savesCover_ext hz hgate

theorem writeSucceeded_safe (ctx : Ctx) (h : Safe C s) (hone : sinkIDs C = [k]) (he : Ext s s')
    (hw : .sinkWrite k (s.batchBySink k) none ∈ s'.log) :
    ZeroLoss (writeSucceeded C E ctx s' k (s.batchBySink k) (s.recordsBySinkSource k)).log :=
  writeSucceeded_saves C E settled_lasting ctx k _ (savesCover_ext h.saves he) fun hf =>
    h.settled hone (he.toFrame.trans hf) fun _ hm => .inl ⟨s.batchBySink k, hf.log hw, hm⟩

theorem writeBatch_safe (ctx : Ctx) (h : Safe C s) (hone : sinkIDs C = [k]) (hpos : 0 < C.retry.maxAttempts)
    (he : Ext s s') :
    let s'' := writeBatch C E ctx s' k (s.batchBySink k) (s.recordsBySinkSource k)
    ZeroLoss s''.log ∧ Frame s s'' ∧
      ∀ msg ∈ s.batchBySink k, Delivered s''.log k msg ∨ s''.blocked msg.sourceID = true := by
  have he' : Ext s' (retryWrite C E s' k (s.batchBySink k)).1 := retryWrite_adds C E (fun _ _ => rfl) s' k
  have hwrote := fun hnil => mem_of_mem_drop (retryWrite_spec C E hpos s' k (s.batchBySink k) hnil)
  unfold writeBatch
  cases hr : retryWrite C E s' k (s.batchBySink k) with
  | mk s1 r =>
    rw [hr] at he' hwrote
    have he1 := he.trans he'
    cases r with
    | some err =>
      have he2 := writeFailed_adds C E Routes.noSave.toFailures s1 k (s.batchBySink k) (s.recordsBySinkSource k) err
      have hd := writeFailed_spec C E s1 k (s.batchBySink k) (s.recordsBySinkSource k) err (h.contributors k)
      exact ⟨savesCover_ext h.saves (he1.trans he2), (he1.trans he2).toFrame, hd⟩
    | none =>
      have hf := (writeSucceeded_adds C E (Writing.savesUnder ctx (s.batchBySink k)) s1 k
        (s.recordsBySinkSource k)).toFrame
      exact ⟨writeSucceeded_safe C E ctx h hone he1 (hwrote rfl), he1.toFrame.trans hf,
        fun msg hm => .inl (.inl ⟨_, hf.log (hwrote rfl), hm⟩)⟩

/-- **`writeToSink`**, when no context has ended at an open breaker: the log stays safe, and each record
of the batch is delivered or has its source blocked. -/
theorem writeToSink_safe (runCtx : Ctx) (u : Under) (h : Safe C s) (hone : sinkIDs C = [k])
    (hpos : 0 < C.retry.maxAttempts) (hended : ∀ u n, E.ended u n = false) :
    let s' := writeToSink C E runCtx u s k (s.batchBySink k) (s.recordsBySinkSource k)
    ZeroLoss s'.log ∧ Frame s s' ∧
      ∀ msg ∈ s.batchBySink k, Delivered s'.log k msg ∨ s'.blocked msg.sourceID = true := by
  have hk : k ∈ C.dag.sinks.map (·.id) := by
    have : k ∈ sinkIDs C := by simp [hone]
    exact this
  unfold writeToSink
  by_cases hb : s.batchBySink k = []
  · rw [if_pos hb]
    exact ⟨h.saves, Frame.refl s, by simp [hb]⟩
  · rw [if_neg hb, if_neg (not_not.mpr hk)]
    simp only [breakerGate_proceeds E u s k (hended u)]
    exact writeBatch_safe C E (u.ctx runCtx) h hone hpos (breakerGate_adds E (fun _ _ => rfl) u s k)

theorem Safe.writeAndClear (runCtx : Ctx) (u : Under) (h : Safe C s) (hone : sinkIDs C = [k])
    (hpos : 0 < C.retry.maxAttempts) (hended : ∀ u n, E.ended u n = false) :
    Safe C (clearBatch (writeToSink C E runCtx u s k (s.batchBySink k) (s.recordsBySinkSource k)) k) := by
  obtain ⟨hz, hf, hd⟩ := writeToSink_safe C E runCtx u h hone hpos hended
  generalize writeToSink C E runCtx u s k (s.batchBySink k) (s.recordsBySinkSource k) = s' at hz hf hd ⊢
  have h' := h.frame hf hz
  have hbatch : s'.batchBySink = s.batchBySink := congrArg Queues.batchBySink hf.queues
  refine ⟨hz, fun S hb n hn => ?_, fun k' msg hm => ?_, fun k' p hp => ?_, fun k' hne => ?_⟩
  · obtain ⟨msg, hS, hseq, hc⟩ := h'.covered S hb n hn
    refine ⟨msg, hS, hseq, hc.mono (List.Subset.refl _) fun k' rec hm => ?_⟩
    by_cases hk' : k' = k
    · subst hk'
      rw [hbatch] at hm
      rcases hd _ hm with hd | hbl
      · exact .inr hd
      · -- its source is blocked, but `S` is not
        rw [show s'.blocked msg.sourceID = false from hS ▸ hb] at hbl
        cases hbl
    · exact .inl (by simpa [clearBatch, hk'] using hm)
  · by_cases hk' : k' = k
    · subst hk'
      simp [clearBatch] at hm
    · simp only [clearBatch, update_of_ne hk'] at hm ⊢
      exact h'.contributors k' msg hm
  · by_cases hk' : k' = k
    · subst hk'
      simp [clearBatch] at hp
    · simp only [clearBatch, update_of_ne hk'] at hp
      exact h'.boundary k' p hp
  · by_cases hk' : k' = k
    · subst hk'
      simp [clearBatch] at hne
    · simp only [clearBatch, update_of_ne hk'] at hne
      exact h'.held k' hne

end

end OpenEtl.Orchestrator
