import OpenEtl.Pipeline.Outgoing
import OpenEtl.Pipeline.ZeroLoss

/-!
# Rejected records in the linear runner (`pipeline/pipeline.go:1203-1218`)

A source sets `Record.Rejection` on a position that did not become a record. `writeBatch` sends such records to the DLQ
before anything else, so whatever the transforms and the outside do none reaches the sink, and no checkpoint is saved
past one that is not in the DLQ.
-/

namespace OpenEtl.Pipeline

open Storage (Ctx)
open Trace (Grew)
open List

/-- The transform sets no rejection: what it makes of records without one, and what it gives up of them, has none. -/
structure AddsNoRejection (tr : Transform) : Prop where
  apply : ∀ t i r r', r.rejection = none → tr.apply t i r = .ok r' → r'.rejection = none
  applyBatch : ∀ f, tr.applyBatch = some f → ∀ t recs, (∀ it ∈ recs, it.record.rejection = none) →
    (∀ it ∈ (f t recs).1, it.record.rejection = none) ∧
      ∀ fs, (f t recs).2 = some (.partialFailure fs) → ∀ p ∈ fs, p.1.record.rejection = none

def Item.Accepted (it : Item) : Prop := it.record.rejection = none

theorem chainApply_accepted {tc : List Transform} (h : ∀ tr ∈ tc, AddsNoRejection tr) (t i : Nat) :
    ∀ {r r' : Record}, r.rejection = none → chainApply tc t i r = .ok r' → r'.rejection = none := by
  unfold chainApply
  induction tc with
  | nil =>
    intro r r' hr heq
    cases heq
    exact hr
  | cons tr tc ih =>
    intro r r' hr heq
    rw [foldlM_cons] at heq
    cases hfirst : tr.apply t i r with
    | error e =>
      rw [hfirst] at heq
      cases heq
    | ok r1 =>
      rw [hfirst] at heq
      exact ih (fun tr' htr' => h tr' (mem_cons_of_mem _ htr'))
        ((h tr mem_cons_self).apply t i r r1 hr hfirst) heq

theorem applyEach_accepted {tr : Transform} (h : AddsNoRejection tr) (t : Nat) : ∀ (i : Nat) (its : List Item),
    (∀ it ∈ its, Item.Accepted it) →
      (∀ it ∈ (applyEach tr t i its).1, Item.Accepted it) ∧ ∀ p ∈ (applyEach tr t i its).2, Item.Accepted p.1
  | _, [], _ => ⟨by simp [applyEach], by simp [applyEach]⟩
  | i, it :: its, hits => by
    obtain ⟨hout, hfs⟩ := applyEach_accepted h t (i + 1) its fun x hx => hits x (mem_cons_of_mem _ hx)
    have hit := hits it mem_cons_self
    unfold applyEach
    rcases hres : tr.apply t i it.record with (_ | e) | r
    · exact ⟨hout, hfs⟩
    · refine ⟨hout, fun p hp => ?_⟩
      rcases mem_cons.mp hp with rfl | hp
      · exact hit
      · exact hfs p hp
    · refine ⟨fun x hx => ?_, hfs⟩
      rcases mem_cons.mp hx with rfl | hx
      · exact h.apply t i it.record r hit hres
      · exact hout x hx

theorem chainApplyBatchLoop_accepted (t : Nat) : ∀ {tc : List Transform} {recs : List Item} {fs : List (Item × Cause)}
    {out : List Item} {fs' : List (Item × Cause)}, (∀ tr ∈ tc, AddsNoRejection tr) → (∀ it ∈ recs, Item.Accepted it) →
      (∀ p ∈ fs, Item.Accepted p.1) → chainApplyBatchLoop t tc recs fs = .ok out fs' →
        (∀ it ∈ out, Item.Accepted it) ∧ ∀ p ∈ fs', Item.Accepted p.1
  | [], recs, fs, out, fs', _, hrecs, hfs, h => by
    cases h
    exact ⟨hrecs, hfs⟩
  | tr :: tc, recs, fs, out, fs', htc, hrecs, hfs, h => by
    have htr := htc tr mem_cons_self
    have hrest : ∀ tr' ∈ tc, AddsNoRejection tr' := fun tr' htr' => htc tr' (mem_cons_of_mem _ htr')
    have happ : ∀ {more : List (Item × Cause)}, (∀ p ∈ more, Item.Accepted p.1) → ∀ p ∈ fs ++ more, Item.Accepted p.1 := by
      intro more hmore p hp
      rcases mem_append.mp hp with hp | hp
      · exact hfs p hp
      · exact hmore p hp
    unfold chainApplyBatchLoop at h
    cases hb : tr.applyBatch with
    | none =>
      obtain ⟨hout, hfs1⟩ := applyEach_accepted htr t 0 recs hrecs
      simp only [hb] at h
      exact chainApplyBatchLoop_accepted t hrest hout (happ hfs1) h
    | some f =>
      obtain ⟨hout, hpart⟩ := htr.applyBatch f hb t recs hrecs
      simp only [hb] at h
      rcases hres : f t recs with ⟨o, _ | (fs1 | e)⟩
      · rw [hres] at h hout
        simp only at h
        split at h
        · cases h
          exact ⟨by simp, hfs⟩
        · exact chainApplyBatchLoop_accepted t hrest hout hfs h
      · rw [hres] at h hout hpart
        have hfs1 := happ (hpart fs1 rfl)
        simp only at h
        split at h
        · cases h
          exact ⟨by simp, hfs1⟩
        · exact chainApplyBatchLoop_accepted t hrest hout hfs1 h
      · rw [hres] at h
        cases h

section

variable (C : Cfg) (E : Env)

theorem stageIn_accepted (h : ∀ tr ∈ C.transforms, AddsNoRejection tr) (batch : List Item) :
    StageIn C (fun _ => True) Item.Accepted (batch.filter (·.record.rejection.isNone)) where
  record _ n it hn t := by
    have hit : it.record.rejection = none := by simpa using (mem_filter.mp (mem_of_getElem? hn)).2
    rcases hres : chainApply C.transforms t n it.record with (_ | e) | r
    · trivial
    · trivial
    · exact chainApply_accepted h t n hit hres
  failed _ _ _ _ _ _ := trivial
  ok _ t out fs hok := by
    have hin : ∀ it ∈ batch.filter (·.record.rejection.isNone), Item.Accepted it := fun it hit => by
      simpa [Item.Accepted] using (mem_filter.mp hit).2
    exact ⟨(chainApplyBatchLoop_accepted t h hin (by simp) hok).1, fun _ _ => trivial⟩

def Event.WritesAccepted : Event → Prop
  | .sinkWrite its _ => ∀ it ∈ its, it.record.rejection = none
  | _ => True

theorem goes_writesAccepted {log log' : List Event} (h : Grew (Event.Goes (fun _ => True) Item.Accepted) log log') :
    Grew Event.WritesAccepted log log' :=
  h.mono fun e he => by cases e <;> exact he

theorem step_writesAccepted (h : ∀ tr ∈ C.transforms, AddsNoRejection tr) (runCtx : Ctx) (s : St) (c : Call) :
    Grew Event.WritesAccepted s.log (step C E runCtx s c).log := by
  have hcall : Grew Event.WritesAccepted s.log (s.emit .call).log := Grew.snoc s.log trivial
  have hbatch : ∀ (ctx : Ctx) (s' : St) (batch : List Item),
      Grew Event.WritesAccepted s'.log (writeBatch C E ctx s' batch).log := fun ctx s' batch =>
    goes_writesAccepted (writeBatch_goes C E (fun _ _ => trivial) ctx s' (fun _ _ _ => trivial) (stageIn_accepted C h batch))
  have hflush : ∀ (ctx : Ctx) (force : Bool) (s' : St),
      Grew Event.WritesAccepted s'.log (flushPendingCheckpoint C E ctx force s').log := fun ctx force s' =>
    goes_writesAccepted ((flushPendingCheckpoint_does C E ctx force s').log.mono fun _ he => he.2)
  cases c with
  | batch recs => exact hcall.trans (hbatch runCtx _ _)
  | lastBatch recs | flushed recs => exact hcall.trans (hbatch .background _ _)
  | tick => exact hcall.trans (hflush runCtx false _)
  | final => exact hcall.trans (hflush .background true _)

theorem run_writesAccepted (h : ∀ tr ∈ C.transforms, AddsNoRejection tr) (runCtx : Ctx) (s : St) :
    ∀ calls : List Call, Grew Event.WritesAccepted s.log (Trace.run (step C E runCtx) s calls).log := by
  intro calls
  refine Trace.run_invariant (fun s' : St => Grew Event.WritesAccepted s.log s'.log) (fun s' c hs' => ?_) (Grew.refl _ _)
  exact hs'.trans (step_writesAccepted C E h runCtx s' c)

/-! ## Rejected records before the checkpoint -/

/-- Record number `n` of `recs`, if it is rejected, is durable in the DLQ. -/
def RejectedInDLQ (recs : List Record) (log : List Event) (n : Nat) : Prop :=
  ∀ r, recs[n - 1]? = some r → r.rejection ≠ none → ∃ cause, .dlq ⟨n, r⟩ cause none ∈ log

theorem lasting_rejectedInDLQ (recs : List Record) : Lasting (RejectedInDLQ recs) := by
  intro log log' n hsub h r hr hrej
  obtain ⟨cause, hmem⟩ := h r hr hrej
  exact ⟨cause, hsub hmem⟩

/-- The source records a list of calls hands over. -/
def readBy (calls : List Call) : List Record := calls.flatMap Call.read

theorem handed_step (runCtx : Ctx) (s : St) (c : Call) : (step C E runCtx s c).handed = s.handed + c.read.length := by
  cases c <;> simp [step, enter, Call.read, handed_writeBatch, handed_flush, St.emit]

/-- Every save of a run is past rejected records of the source only when those are in the DLQ. -/
theorem run_rejectedInDLQ (runCtx : Ctx) {recs : List Record} : ∀ (calls : List Call) (s : St),
    recs.drop s.handed = readBy calls → SafeUpTo (RejectedInDLQ recs) s.handed s →
      Trace.Always (SavesUpTo (RejectedInDLQ recs)) (Trace.run (step C E runCtx) s calls).log
  | [], _, _, h => h.saves
  | c :: calls, s, hread, h => by
    rw [readBy, flatMap_cons] at hread
    have hstep : SafeUpTo (RejectedInDLQ recs) (step C E runCtx s c).handed (step C E runCtx s c) := by
      refine SafeUpTo.step C E (lasting_rejectedInDLQ recs) runCtx s c (fun s0 s1 hr hb it hit r hget hrej => ?_) h
      obtain ⟨i, hi, rfl⟩ := mem_mapIdx.mp hit
      -- record `i` of the batch is record `handed + i + 1` of the source
      have hrec : recs[s.handed + i]? = some c.read[i] := by
        rw [← getElem?_drop, hread, getElem?_append_left hi, getElem?_eq_getElem hi]
      obtain rfl : c.read[i] = r := by
        rw [Nat.add_sub_cancel, hrec] at hget
        exact Option.some.inj hget
      obtain ⟨-, cause, hmem⟩ := rejectRecords_inDLQ C E (number s.handed c.read) s0
        ((prepareBatch_extends C E s0 _).unblocked (hr.prepared.unblocked hb)) _ hit hrej
      exact ⟨cause, hr.prepared.subset ((prepareBatch_extends C E s0 _).subset hmem)⟩
    refine run_rejectedInDLQ runCtx calls _ ?_ hstep
    rw [handed_step, ← drop_drop, hread, drop_left]
    rfl

end

end OpenEtl.Pipeline
