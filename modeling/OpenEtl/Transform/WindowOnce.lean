import OpenEtl.Lib.Trace
import OpenEtl.Transform.Window

/-!
# Windows that close once (`transform/window.go:254-330`)

Calls of a window without a state store. What is kept of a row is its entry.
-/

namespace OpenEtl.Window.Once

open List Trace

section

variable {F : Type}

def pair (e : Entry F) : Int × String := (e.windowStart, e.groupKey)

def members (es : List (Entry F)) : List Nat := es.flatMap (·.state.members)

structure Sys (F : Type) where
  window : State F := {}
  emitted : List (Entry F) := []
  accumulated : List Nat := []

inductive Call (F : Type)
  | applyBatch (now : Nat → Int) (order : Order F) (xs : List Arrival)
  | flush (now : Int) (order : Order F)

def Call.now : Call F → Nat → Int
  | .applyBatch now _ _ => now
  | .flush now _ => fun _ => now

def Call.records : Call F → List Arrival
  | .applyBatch _ _ xs => xs
  | .flush _ _ => []

variable (A : Arith F) (C : Config)

/-- The records of a batch that are accumulated, with their window and group. -/
def entered (now : Nat → Int) : Nat → State F → List Arrival → List ((Int × String) × Nat)
  | _, _, [] => []
  | i, w, x :: xs =>
    let rest := entered now (i + 1) (accumulate A C (now i) w x) xs
    if (watermark C w x).isNone then rest
    else ((windowStart C (x.timestamp.getD (now i)), makeGroupKey C x.record), x.seq) :: rest

/-- What a call emits; `ApplyBatch` returns at once if there are no records. -/
def emits (w : State F) : Call F → List (Entry F) × State F
  | .applyBatch now order xs =>
    if xs = [] then ([], w)
    else (closed C order (now xs.length) w, (emitClosed A C order (now xs.length) w).2)
  | .flush now order => (order.1 w.buffer, (flushAll A C order now w).2)

def step (s : Sys F) (c : Call F) : Sys F :=
  let w := accumulateAll A C c.now 0 s.window c.records
  { window := (emits A C w c).2
    emitted := s.emitted ++ (emits A C w c).1
    accumulated := s.accumulated ++ (entered A C c.now 0 s.window c.records).map Prod.snd }

/-- No record is for a window and group that were emitted before. -/
def Fresh (s : Sys F) (c : Call F) : Prop :=
  ∀ p ∈ entered A C c.now 0 s.window c.records, p.1 ∉ s.emitted.map pair

/-- No window and group are in two rows, and each accumulated record is in one row. -/
def ClosesOnce (s : Sys F) : Prop := (s.emitted.map pair).Nodup ∧ (members s.emitted).Perm s.accumulated

variable {A C} {ws : Int} {key : String} {x : Arrival} {es : List (Entry F)}

theorem pairs_addTo : (addTo A C ws key x es).map pair =
    if (ws, key) ∈ es.map pair then es.map pair else es.map pair ++ [(ws, key)] := by
  induction es with
  | nil => rfl
  | cons e es ih =>
    unfold addTo
    by_cases h : e.windowStart = ws ∧ e.groupKey = key
    · simp [h, pair]
    · have hne : (ws, key) ≠ pair e := fun heq => h (Prod.mk.inj heq.symm)
      simp only [if_neg h, map_cons, ih, mem_cons, hne, false_or]
      split <;> rfl

theorem members_addTo_perm : (members (addTo A C ws key x es)).Perm (members es ++ [x.seq]) := by
  induction es with
  | nil => simp [members, addTo, countRecord_members, newState]
  | cons e es ih =>
    unfold addTo
    split
    · simp only [members, flatMap_cons, countRecord_members, append_assoc]
      exact perm_append_comm.append_left _
    · rw [members, flatMap_cons, members, flatMap_cons, append_assoc]
      exact ih.append_left _

variable {now : Nat → Int} {done : List (Int × String)}

theorem nodup_addTo : (done ++ (addTo A C ws key x es).map pair).Nodup ↔
    (done ++ es.map pair).Nodup ∧ (ws, key) ∉ done := by
  rw [pairs_addTo]
  split
  · rename_i hmem
    exact (and_iff_left_of_imp fun h hdone => (nodup_append.mp h).2.2 _ hdone _ hmem rfl).symm
  · simp only [nodup_append, nodup_cons, mem_append, mem_singleton]
    grind

theorem nodup_accumulateAll : ∀ {xs : List Arrival} {i : Nat} {w : State F},
    (done ++ (accumulateAll A C now i w xs).buffer.map pair).Nodup ↔
      (done ++ w.buffer.map pair).Nodup ∧ ∀ p ∈ entered A C now i w xs, p.1 ∉ done
  | [], _, _ => by simp [accumulateAll, entered]
  | x :: xs, i, w => by
    rw [accumulateAll, nodup_accumulateAll, entered]
    cases hm : watermark C w x with
    | none => simp [accumulate, hm]
    | some m => simp [accumulate, hm, nodup_addTo, and_assoc]

theorem members_accumulateAll : ∀ {xs : List Arrival} {i : Nat} {w : State F},
    (members (accumulateAll A C now i w xs).buffer).Perm (members w.buffer ++ (entered A C now i w xs).map Prod.snd)
  | [], _, _ => by simp [accumulateAll, entered]
  | x :: xs, i, w => by
    rw [accumulateAll, entered]
    refine members_accumulateAll.trans ?_
    cases hm : watermark C w x with
    | none => simp [accumulate, hm]
    | some m => simpa [accumulate, hm] using members_addTo_perm.append_right _

/-! ## Calls -/

variable {s : Sys F}

/-- The entries that were emitted and those that will be. -/
def entries (s : Sys F) : List (Entry F) := s.emitted ++ s.window.buffer

/-- An entry is emitted or stays in the buffer. -/
theorem entries_step (c : Call F) : (entries (step A C s c)).Perm
    (s.emitted ++ (accumulateAll A C c.now 0 s.window c.records).buffer) := by
  rw [entries, step, append_assoc]
  refine Perm.append_left _ ?_
  cases c with
  | applyBatch now order xs =>
    simp only [emits]
    split
    · exact .refl _
    · exact (((mergeSort_perm _ _).trans (order.2 _)).append_right _).trans (filter_append_perm _ _)
  | flush t order => simpa [emits, flushAll] using order.2 _

theorem nodup_step (c : Call F) :
    ((entries (step A C s c)).map pair).Nodup ↔ ((entries s).map pair).Nodup ∧ Fresh A C s c := by
  rw [((entries_step c).map pair).nodup_iff, entries, map_append, map_append]
  exact nodup_accumulateAll

theorem nodup_run : ∀ (calls : List (Call F)) {s : Sys F}, ((entries (run (step A C) s calls)).map pair).Nodup ↔
    ((entries s).map pair).Nodup ∧ Steps (Fresh A C) (step A C) s calls
  | [], _ => (and_iff_left trivial).symm
  | c :: calls, s => by rw [run_cons, nodup_run calls, nodup_step, Steps, and_assoc]

theorem members_step (h : (members (entries s)).Perm s.accumulated) (c : Call F) :
    (members (entries (step A C s c))).Perm (step A C s c).accumulated := by
  refine ((entries_step c).flatMap_right _).trans ?_
  rw [flatMap_append]
  refine (members_accumulateAll.append_left _).trans ?_
  rw [← append_assoc, members, ← flatMap_append]
  exact h.append_right _

variable (A C)

/-- **Each window closes once** in any calls, and with a last `Flush` exactly, if no record comes for a window and group
that were emitted before. -/
theorem closesOnce_iff (calls : List (Call F)) (t : Int) (order : Order F) :
    (Steps (Fresh A C) (step A C) {} calls → ((run (step A C) {} calls).emitted.map pair).Nodup) ∧
      (ClosesOnce (run (step A C) {} (calls ++ [.flush t order])) ↔ Steps (Fresh A C) (step A C) {} calls) := by
  constructor
  · intro h
    have hnodup := (@nodup_run _ A C calls {}).mpr ⟨.nil, h⟩
    rw [entries, map_append] at hnodup
    exact (nodup_append.mp hnodup).1
  generalize hs : run (step A C) {} (calls ++ [.flush t order]) = s
  have hmembers : (members (entries s)).Perm s.accumulated :=
    hs ▸ run_invariant (fun s : Sys F => (members (entries s)).Perm s.accumulated) (fun _ c h => members_step h c) .nil
  have hnodup := @nodup_run _ A C (calls ++ [.flush t order]) {}
  have hbuffer : s.window.buffer = [] := by
    rw [← hs, run_append]
    rfl
  rw [hs] at hnodup
  rw [entries, hbuffer, append_nil] at hmembers hnodup
  rw [ClosesOnce, and_iff_left hmembers, hnodup, steps_append]
  simp [entries, Steps, Fresh, Call.records, entered]

end

/-- A record for a window that was emitted: the last `Flush` emits the window again. -/
theorem reopened_window_emitted_twice :
    let one (sec : Int) (seq : Nat) (stamp : Int) : Call Int :=
      .applyBatch (fun _ => unix sec) asListed [{ seq, record := {}, timestamp := some (unix stamp) }]
    ¬ ClosesOnce (run (step ints minutes) {} [one 130 1 65, one 140 2 66, .flush (unix 150) asListed]) := by
  unfold ClosesOnce
  decide +kernel

end OpenEtl.Window.Once
