import OpenEtl.Lib.Trace
import OpenEtl.Transform.Window

/-!
# A window between source, sink and checkpoint (`pipeline/pipeline.go:1155-1410`, `transform/window.go`)

A pipeline with a window that has a state store. `ApplyBatch` persists the state without the windows it emits before
the runner writes their rows; a batch without rows is not checkpointed, and a checkpoint covers everything read before
it. After a crash the transform starts from what the store holds and the source from the checkpoint.

| here | there |
| --- | --- |
| `Act.apply` | `ApplyBatch` in `writeBatch` (pipeline.go:1226), after the transforms before the window |
| `Act.write` | the sink write (pipeline.go:1325), after the transforms behind the window |
| `Act.save` | the checkpoint of the pending boundary (pipeline.go:1405, 1413) |
| `Act.reject` | a batch of records the source has rejected, checkpointed at once (pipeline.go:1281) |
| `Act.expire` | the store drops an entry whose TTL has passed |
-/

namespace OpenEtl.Window

open List Trace

/-- A pipeline with its surroundings. Records are numbered as the source has them. -/
structure Sys (F : Type) where
  /-- how far this run has read -/
  read : Nat := 0
  checkpoint : Nat := 0
  /-- acknowledged by the sink and not checkpointed -/
  pending : Option Nat := none
  store : Option (State F) := none
  process : Process F := {}
  /-- rows that `ApplyBatch` returned and the sink has not been given -/
  inHand : List Row := []
  acked : List Row := []
  /-- the records that were given to the window, in this run or an earlier one -/
  taken : List Nat := []
  /-- those of them that were dropped as too late whenever they came -/
  late : List Nat := []
  /-- the time at which windows were last emitted -/
  clock : Int := 0

/-- What the transforms before the window make of a record, in one batch: it may go no further. -/
abbrev Handed := Nat → Option (Record × Option Int)

inductive Act (F : Type)
  | apply (n : Nat) (handed : Handed) (U : Around F)
  | write (ok : Bool)
  | save
  | reject (n : Nat)
  | expire
  | crash

def arrivals (handed : Handed) (read n : Nat) : List Arrival :=
  (List.range' (read + 1) n).filterMap fun k =>
    (handed k).map fun r => { seq := k, record := r.1, timestamp := r.2 }

section

variable {F : Type} (A : Arith F) (C : Config)

/-- The state the next batch is accumulated into. -/
def Sys.base (s : Sys F) : State F := if s.process.stateRestored then s.process.state else s.store.getD s.process.state

/-- `late` behind a batch of the records `seqs`, of which `lost` were dropped. -/
def Sys.lateAfter (s : Sys F) (seqs lost : List Nat) : List Nat :=
  s.late.filter (fun k => k ∈ seqs → k ∈ lost) ++ lost.filter (· ∉ s.taken)

/-- The batch in hand is finished before the next one is read; without rows there is nothing to finish. -/
def step (s : Sys F) : Act F → Sys F
  | .apply n handed U =>
    let xs := arrivals handed s.read n
    if s.inHand ≠ [] then s
    else if xs = [] then { s with read := s.read + n }
    else
      match applyBatch A C U s.store s.process xs with
      -- the batch goes to the DLQ
      | (store, process, .error _) =>
        { s with store, process, read := s.read + n, taken := s.taken ++ xs.map (·.seq) }
      | (store, process, .ok rows) =>
        { s with
          store
          process
          read := s.read + n
          inHand := rows
          taken := s.taken ++ xs.map (·.seq)
          late := s.lateAfter (xs.map (·.seq)) (dropped A C U.now 0 s.base xs)
          clock := U.now xs.length }
  | .write ok =>
    if s.inHand = [] then s
    else if ok then { s with acked := s.acked ++ s.inHand, inHand := [], pending := some s.read }
    -- the rows go to the DLQ
    else { s with inHand := [] }
  | .save =>
    match s.pending with
    | some n => { s with checkpoint := n, pending := none }
    | none => s
  | .reject n => if s.inHand ≠ [] then s else { s with read := s.read + n, checkpoint := s.read + n }
  | .expire => { s with store := none }
  | .crash => { s with read := s.checkpoint, pending := none, process := {}, inHand := [] }

def Sys.Acked (s : Sys F) (n : Nat) : Prop := ∃ row ∈ s.acked, n ∈ row.members

/-- Once a batch is finished, every record the window was given is in an acknowledged row, was dropped as too late
whenever it came, or is in a window that has not closed. -/
def Sys.Delivered (s : Sys F) : Prop :=
  s.inHand = [] → s.process.stateRestored = true → ∀ n ∈ s.taken,
    s.Acked n ∨ n ∈ s.late ∨ ∃ e ∈ s.process.state.buffer, n ∈ e.state.members ∧ windowStart C s.clock ≤ e.windowStart

/-- The store answers, and records are in time; the sink takes the rows, also before the process ends; the store only
drops what is in acknowledged rows. -/
def Orderly (s : Sys F) : Act F → Prop
  | .apply n handed U =>
    U.get = none ∧ U.set = none ∧ InTime A C s.Acked U.now 0 s.base (arrivals handed s.read n)
  | .write ok => ok = true
  | .save | .reject _ => True
  | .expire => ∀ w, s.store = some w → ∀ n, w.Holds n → s.Acked n
  | .crash => s.inHand = []

instance (s : Sys F) : Decidable (s.Delivered C) := by
  unfold Sys.Delivered Sys.Acked
  infer_instance

/-! ## The invariant -/

variable {A C}

/-- In an acknowledged row, or in one on its way to the sink. -/
def Sys.Done (s : Sys F) (n : Nat) : Prop := s.Acked n ∨ ∃ row ∈ s.inHand, n ∈ row.members

/-- The record needs no more of the transform's state. -/
def Sys.Reached (s : Sys F) (n : Nat) : Prop := s.Done n ∨ n ∈ s.late

def Sys.Stored (s : Sys F) (n : Nat) : Prop := ∃ w, s.store = some w ∧ w.Holds n

/-- A process that has restored its state. -/
structure Live (C : Config) (s : Sys F) : Prop where
  settled : s.process.state.Settled s.Done
  holds : ∀ n ∈ s.taken, s.process.state.Holds n ∨ s.Reached n
  opened : ∀ e ∈ s.process.state.buffer,
    windowStart C s.clock ≤ e.windowStart ∨ e.windowStart ≤ s.process.state.lastEmittedWindow

structure Inv (C : Config) (s : Sys F) : Prop where
  stored : ∀ n ∈ s.taken, s.Stored n ∨ s.Reached n
  settled : ∀ w, s.store = some w → w.Settled s.Done
  fresh : s.process.stateRestored = false → s.process = {} ∧ s.inHand = []
  live : s.process.stateRestored = true → Live C s

theorem inv_start : Inv C ({} : Sys F) where
  stored := by simp
  settled := by simp
  fresh _ := ⟨rfl, rfl⟩
  live := by simp

variable {s : Sys F} {n : Nat}

theorem done_of_nil (h : s.inHand = []) : s.Done n ↔ s.Acked n := by
  simp [Sys.Done, h]

/-- What the next batch is accumulated into holds everything that is needed. -/
theorem Inv.base (h : Inv C s) : s.base.Settled s.Done ∧ ∀ n ∈ s.taken, s.base.Holds n ∨ s.Reached n := by
  unfold Sys.base
  cases hr : s.process.stateRestored with
  | true =>
    exact ⟨(h.live hr).settled, (h.live hr).holds⟩
  | false =>
    rw [(h.fresh hr).1]
    cases hstore : s.store with
    | some w =>
      refine ⟨h.settled w hstore, fun n hn => (h.stored n hn).imp_left ?_⟩
      rintro ⟨w', hw', hholds⟩
      cases hstore.symm.trans hw'
      exact hholds
    | none =>
      refine ⟨fun e he => absurd he (by simp), fun n hn => (h.stored n hn).imp_left ?_⟩
      rintro ⟨w', hw', -⟩
      simp [hstore] at hw'

variable {U : Around F} {xs : List Arrival}

theorem applyBatch_orderly (hne : xs ≠ []) (hget : U.get = none) (hset : U.set = none) :
    let w := emitClosed A C U.order (U.now xs.length) (accumulateAll A C U.now 0 s.base xs)
    applyBatch A C U s.store s.process xs = (some w.2, { state := w.2, stateRestored := true }, .ok w.1) := by
  unfold applyBatch Sys.base
  rw [if_neg hne]
  cases hr : s.process.stateRestored <;> simp [restoreState, hr, hget, persistState, hset]

theorem mem_lateAfter {seqs lost : List Nat} {k : Nat} (h : k ∈ s.late ∨ k ∈ seqs ∧ k ∉ s.taken)
    (hlost : k ∈ seqs → k ∈ lost) : k ∈ s.lateAfter seqs lost := by
  rcases h with h | ⟨hmem, hnew⟩
  · exact mem_append_left _ (mem_filter.mpr ⟨h, by simpa [imp_iff_not_or] using hlost⟩)
  · exact mem_append_right _ (mem_filter.mpr ⟨hlost hmem, by simpa using hnew⟩)

theorem Inv.of_live {w : State F} (hstore : s.store = some w)
    (hprocess : s.process = { state := w, stateRestored := true }) (hlive : Live C s) : Inv C s := by
  have hstate : s.process.state = w := congrArg Process.state hprocess
  refine ⟨fun k hk => (hlive.holds k hk).imp_left fun hb => ⟨w, hstore, hstate ▸ hb⟩, fun w' hw' => ?_, ?_, fun _ => hlive⟩
  · cases hstore.symm.trans hw'
    exact hstate ▸ hlive.settled
  · simp [hprocess]

section

variable (h : Inv C s)

include h

theorem Inv.moved (read checkpoint : Nat) (pending : Option Nat) : Inv C { s with read, checkpoint, pending } :=
  ⟨h.stored, h.settled, h.fresh, fun hr => ⟨(h.live hr).settled, (h.live hr).holds, (h.live hr).opened⟩⟩

theorem Inv.apply {handed : Handed} (hok : Orderly A C s (.apply n handed U)) :
    Inv C (step A C s (.apply n handed U)) := by
  obtain ⟨hget, hset, htime⟩ := hok
  rw [step]
  set xs := arrivals handed s.read n with hxs
  by_cases hhand : s.inHand = []
  swap
  · rw [if_pos hhand]
    exact h
  rw [if_neg (not_not.mpr hhand)]
  by_cases hne : xs = []
  · rw [if_pos hne]
    exact h.moved _ _ _
  rw [if_neg hne, applyBatch_orderly hne hget hset]
  obtain ⟨hsettled, hholds⟩ := h.base
  set w := emitClosed A C U.order (U.now xs.length) (accumulateAll A C U.now 0 s.base xs) with hw
  have hacked : ∀ k, s.Done k ↔ s.Acked k := fun k => done_of_nil hhand
  have hsettled1 : (accumulateAll A C U.now 0 s.base xs).Settled s.Acked :=
    accumulateAll_settled (fun e he hle k hk => (hacked k).mp (hsettled e he hle k hk)) htime
  have hsettled2 : w.2.Settled s.Acked := emitClosed_settled hsettled1
  refine .of_live rfl rfl ⟨fun e he hle k hk => .inl (hsettled2 e he hle k hk), fun k hk => ?_, fun e he => ?_⟩
  · by_cases hin : s.base.Holds k ∨ k ∈ xs.map (·.seq) ∧ k ∉ dropped A C U.now 0 s.base xs
    · exact (emitClosed_holds (accumulateAll_holds hin)).imp_right fun hrow => .inl (.inr hrow)
    obtain ⟨hnot, hlost⟩ := not_or.mp hin
    have hbefore : s.Done k ∨ k ∈ s.late ∨ k ∈ xs.map (·.seq) ∧ k ∉ s.taken := by
      by_cases htaken : k ∈ s.taken
      · exact ((hholds k htaken).resolve_left hnot).imp_right .inl
      · exact .inr (.inr ⟨(mem_append.mp hk).resolve_left htaken, htaken⟩)
    rcases hbefore with hdone | hlate
    · exact .inr (.inl (.inl ((hacked k).mp hdone)))
    · exact .inr (.inr (mem_lateAfter hlate fun hmem => by_contra fun hno => hlost ⟨hmem, hno⟩))
  · refine (emitClosed_open (A := A) he).2.imp_right fun hle => hle.trans ?_
    exact (emitClosed_lastEmitted (A := A) U.order (U.now xs.length) _).1

/-- The sink has the rows in hand: they count as acknowledged. -/
theorem Inv.write {ok : Bool} (hok : Orderly A C s (.write ok)) : Inv C (step A C s (.write ok)) := by
  obtain rfl : ok = true := hok
  by_cases hhand : s.inHand = []
  · rw [step, if_pos hhand]
    exact h
  rw [step, if_neg hhand]
  set s' : Sys F := { s with acked := s.acked ++ s.inHand, inHand := [], pending := some s.read } with hs'
  have hdone : ∀ k, s.Done k → s'.Done k := by
    rintro k (⟨row, hrow, hk⟩ | ⟨row, hrow, hk⟩)
    · exact .inl ⟨row, mem_append_left _ hrow, hk⟩
    · exact .inl ⟨row, mem_append_right _ hrow, hk⟩
  have hreached : ∀ k, s.Reached k → s'.Reached k := fun k hk => hk.imp_left (hdone k)
  exact
    { stored := fun k hk => (h.stored k hk).imp_right (hreached k)
      settled := fun w hw e he hle k hk => hdone k (h.settled w hw e he hle k hk)
      fresh := fun hr => ⟨(h.fresh hr).1, rfl⟩
      live := fun hr =>
        { settled := fun e he hle k hk => hdone k ((h.live hr).settled e he hle k hk)
          holds := fun k hk => ((h.live hr).holds k hk).imp_right (hreached k)
          opened := (h.live hr).opened } }

theorem Inv.save : Inv C (step A C s .save) := by
  unfold step
  cases s.pending with
  | none => exact h
  | some m => exact h.moved _ _ _

theorem Inv.reject (m : Nat) : Inv C (step A C s (.reject m)) := by
  rw [step]
  split
  · exact h
  · exact h.moved _ _ _

theorem Inv.expire (hok : Orderly A C s .expire) : Inv C (step A C s .expire) where
  stored := by
    intro k hk
    rcases h.stored k hk with ⟨w, hw, hb⟩ | hr
    · exact .inr (.inl (.inl (hok w hw k hb)))
    · exact .inr hr
  settled := by simp [step]
  fresh := h.fresh
  live hr := ⟨(h.live hr).settled, (h.live hr).holds, (h.live hr).opened⟩

theorem Inv.crash (hok : Orderly A C s .crash) : Inv C (step A C s .crash) := by
  have hhand : s.inHand = [] := hok
  -- nothing was on its way to the sink, so what is done with is acknowledged
  have hdone : ∀ k, s.Done k → (step A C s .crash).Done k := fun k hk => .inl ((done_of_nil hhand).mp hk)
  exact
    { stored := fun k hk => (h.stored k hk).imp_right fun hr => hr.imp_left (hdone k)
      settled := fun w hw e he hle k hk => hdone k (h.settled w hw e he hle k hk)
      fresh := fun _ => ⟨rfl, rfl⟩
      live := by simp [step] }

theorem Inv.step : ∀ {act : Act F}, Orderly A C s act → Inv C (step A C s act)
  | .apply _ _ _, hok => h.apply hok
  | .write _, hok => h.write hok
  | .save, _ => h.save
  | .reject m, _ => h.reject m
  | .expire, hok => h.expire hok
  | .crash, hok => h.crash hok

/-- A window that has closed is not in the buffer any more, except with records that are done with. -/
theorem Inv.delivered : s.Delivered C := by
  intro hhand hrestored n hn
  have hlive := h.live hrestored
  rcases hlive.holds n hn with ⟨e, he, hmem⟩ | hdone | hlate
  · rcases hlive.opened e he with hopen | hle
    · exact .inr (.inr ⟨e, he, hmem, hopen⟩)
    · exact .inl ((done_of_nil hhand).mp (hlive.settled e he hle n hmem))
  · exact .inl ((done_of_nil hhand).mp hdone)
  · exact .inr (.inl hlate)

end

variable (A C)

end

/-! ## Runs -/

/-- A batch with the given seconds as its records' timestamps, `sec` seconds after 1970. -/
def batch (sec : Int) (first : Nat) (stamps : List Int) : Act Int :=
  .apply stamps.length (fun k => (stamps.drop (k - first)).head?.map fun t => ({}, some (unix t)))
    { now := fun _ => unix sec, order := asListed }

end OpenEtl.Window
