import Mathlib.Algebra.Order.Ring.Int
import Mathlib.Data.List.Perm.Basic
import OpenEtl.Core.Transform

/-!
# The window transform (`transform/window.go`)

| here | there |
| --- | --- |
| `emitClosed` | the emission of `WindowTransform.ApplyBatch` (:264-292) |
| `flushAll` | `WindowTransform.Flush` (:300) up to persisting |
| `restoreState`, `persistState` | the functions of these names (:453, 500) |

The buffer is kept as the list of its entries, one for each window and group; the maps of the source never hold a window
without groups. An entry also knows the records that went into it, which nothing in the source reads. Times are
nanoseconds since the zero time, arithmetic on floats and texts of times are parameters, and the JSON of the persisted
state stands for the state.
-/

namespace OpenEtl.Window

open List

/-! ## Configuration -/

inductive AggFunc
  | count | sum | avg | min | max | first | last
  /-- a name `accumulate` does not know -/
  | other
deriving DecidableEq, Repr

structure AggDef where
  func : AggFunc
  field : String := ""
deriving DecidableEq, Repr

def defaultWindowSize : Nat := 60

theorem defaultWindowSize_pos : 0 < defaultWindowSize := by decide

structure Config where
  /-- in seconds -/
  windowSize : Nat := defaultWindowSize
  windowSize_pos : 0 < windowSize := by first | exact OpenEtl.Window.defaultWindowSize_pos | decide
  groupByFields : List String := []
  aggregators : List (String × AggDef) := []
  /-- in nanoseconds; 0 if there is none -/
  allowedLateness : Nat := 0

/-- What the code does with `float64`, and with times as texts. -/
structure Arith (F : Type) where
  zero : F
  ofInt : Int → F
  ofText : String → F
  add : F → F → F
  /-- `x / float64(n)` -/
  quot : F → Nat → F
  lt : F → F → Bool
  value : F → Value
  /-- `time.Unix(s, 0).UTC().Format(time.RFC3339)` -/
  rfc3339 : Int → String

/-! ## State -/

structure AggState (F : Type) where
  count : Nat := 0
  sum : F
  avgSum : F
  avgCnt : Nat := 0
  min : Option F := none
  max : Option F := none
  first : Value := .null
  last : Value := .null
  groupKV : Data := []
  /-- the records that were accumulated -/
  members : List Nat := []

structure Entry (F : Type) where
  windowStart : Int
  groupKey : String
  state : AggState F

structure State (F : Type) where
  buffer : List (Entry F) := []
  lastEmittedWindow : Int := 0
  maxEventTime : Option Int := none

/-- A record as it reaches the transform: its number in the source, and the timestamp of its metadata. -/
structure Arrival extends Item where
  timestamp : Option Int := none
deriving DecidableEq, Repr

/-- An aggregate, with the records that went into it. -/
structure Row where
  record : Record
  timestamp : Int
  members : List Nat
deriving DecidableEq, Repr

section

variable {F : Type} (A : Arith F) (C : Config)

/-! ## Accumulating -/

/-- The seconds between the zero time and 1970. -/
def unixToInternal : Int := 62135596800

/-- `t.Truncate(w.windowSize).Unix()` -/
def windowStart (t : Int) : Int := t / (C.windowSize * 1000000000) * C.windowSize - unixToInternal

def makeGroupKey (rec : Record) : String :=
  if C.groupByFields = [] then "_all"
  else C.groupByFields.foldl (fun key f => key ++ fmtV ((rec.data.get? f).getD .null) ++ "|") ""

def makeGroupKV (rec : Record) : Data :=
  C.groupByFields.foldl (fun kv f => kv.set f ((rec.data.get? f).getD .null)) []

def toFloatWin : Value → Option F
  | .int .int n | .int .int64 n => some (A.ofInt n)
  | .float t => some (A.ofText t)
  | _ => none

/-- One aggregate of the loop in `accumulate`; all aggregates of a kind share one accumulator. -/
def aggregate (rec : Record) (st : AggState F) (d : AggDef) : AggState F :=
  let raw := (rec.data.get? d.field).getD .null
  match d.func with
  | .count | .other => st
  | .sum =>
    match toFloatWin A raw with
    | some v => { st with sum := A.add st.sum v }
    | none => st
  | .avg =>
    match toFloatWin A raw with
    | some v => { st with avgSum := A.add st.avgSum v, avgCnt := st.avgCnt + 1 }
    | none => st
  | .min =>
    match toFloatWin A raw with
    | some v => { st with min := some (st.min.elim v fun m => if A.lt v m then v else m) }
    | none => st
  | .max =>
    match toFloatWin A raw with
    | some v => { st with max := some (st.max.elim v fun m => if A.lt m v then v else m) }
    | none => st
  | .first => if st.first = .null then { st with first := raw } else st
  | .last => { st with last := raw }

def newState (rec : Record) : AggState F := { sum := A.zero, avgSum := A.zero, groupKV := makeGroupKV C rec }

def countRecord (x : Arrival) (st : AggState F) : AggState F :=
  C.aggregators.foldl (fun st d => aggregate A x.record st d.2)
    { st with count := st.count + 1, members := st.members ++ [x.seq] }

/-- The entry of a window and group, changed, or a new one. -/
def addTo (ws : Int) (key : String) (x : Arrival) : List (Entry F) → List (Entry F)
  | [] => [{ windowStart := ws, groupKey := key, state := countRecord A C x (newState A C x.record) }]
  | e :: es =>
    if e.windowStart = ws ∧ e.groupKey = key then { e with state := countRecord A C x e.state } :: es
    else e :: addTo ws key x es

/-- The lateness check: the new maximum, or the record is dropped. -/
def watermark (w : State F) (x : Arrival) : Option (Option Int) :=
  match x.timestamp with
  | none => some w.maxEventTime
  | some ts =>
    if C.allowedLateness = 0 then some w.maxEventTime
    else
      match w.maxEventTime with
      | none => some (some ts)
      | some m => if m < ts then some (some ts) else if ts < m - C.allowedLateness then none else some (some m)

/-- `accumulate` at the time `now`. -/
def accumulate (now : Int) (w : State F) (x : Arrival) : State F :=
  match watermark C w x with
  | none => w
  | some maxEventTime =>
    { w with
      maxEventTime
      buffer := addTo A C (windowStart C (x.timestamp.getD now)) (makeGroupKey C x.record) x w.buffer }

def accumulateAll (now : Nat → Int) : Nat → State F → List Arrival → State F
  | _, w, [] => w
  | i, w, x :: xs => accumulateAll now (i + 1) (accumulate A C (now i) w x) xs

/-! ## Emitting -/

def aggValue (st : AggState F) : AggFunc → Option Value
  | .count => some (.int64 st.count)
  | .sum => some (A.value st.sum)
  | .avg => some (if 0 < st.avgCnt then A.value (A.quot st.avgSum st.avgCnt) else .int .int 0)
  | .min => some (A.value (st.min.getD A.zero))
  | .max => some (A.value (st.max.getD A.zero))
  | .first => some st.first
  | .last => some st.last
  | .other => none

def buildOutputRecord (e : Entry F) : Record :=
  let times : Data := [("window_start", .str (A.rfc3339 e.windowStart)),
    ("window_end", .str (A.rfc3339 (e.windowStart + C.windowSize)))]
  { operation := .insert
    data := C.aggregators.foldl
      (fun d a =>
        match aggValue A e.state a.2.func with
        | some v => d.set a.1 v
        | none => d)
      (times.merge e.state.groupKV)
    metadata := { source := "window", table := "window_aggregate" } }

def buildRow (now : Int) (e : Entry F) : Row :=
  { record := buildOutputRecord A C e, timestamp := now, members := e.state.members }

/-- The order in which a map of entries is iterated. -/
abbrev Order (F : Type) := { f : List (Entry F) → List (Entry F) // ∀ l, (f l).Perm l }

/-- The window has closed and was not emitted before. -/
def State.due (w : State F) (current : Int) (e : Entry F) : Bool :=
  decide (e.windowStart < current) && decide (w.lastEmittedWindow < e.windowStart)

/-- Closed windows in order of their start, the groups of each in some order, and the state without them. -/
def emitClosed (order : Order F) (now : Int) (w : State F) : List Row × State F :=
  let current := windowStart C now
  let closed := (order.1 (w.buffer.filter (w.due current))).mergeSort fun a b => a.windowStart ≤ b.windowStart
  (closed.map (buildRow A C now),
    { w with
      buffer := w.buffer.filter fun e => !w.due current e
      lastEmittedWindow := closed.foldl (fun last e => max last e.windowStart) w.lastEmittedWindow })

/-- All windows, in some order. -/
def flushAll (order : Order F) (now : Int) (w : State F) : List Row × State F :=
  let entries := order.1 w.buffer
  (entries.map (buildRow A C now),
    { w with
      buffer := []
      lastEmittedWindow := entries.foldl (fun last e => max last e.windowStart) w.lastEmittedWindow })

/-! ## With a state store -/

/-- The transform in a process: its state, and whether it has tried to restore it. -/
structure Process (F : Type) where
  state : State F := {}
  stateRestored : Bool := false

/-- What the outside does to one call: the clock at each record and then at the end, and the answers of the store. -/
structure Around (F : Type) where
  now : Nat → Int
  order : Order F
  get : Option Cause := none
  set : Option Cause := none

/-- `restoreStateLocked`. After an error of the store the next call does not try again. -/
def restoreState (store : Option (State F)) (get : Option Cause) (p : Process F) : Process F × Option Cause :=
  if p.stateRestored then (p, none)
  else
    match get with
    | some e => ({ p with stateRestored := true }, some { e with msg := "window: get state: " ++ e.msg })
    | none => ({ state := store.getD p.state, stateRestored := true }, none)

/-- `persistStateLocked`: what the store holds afterwards. -/
def persistState (store : Option (State F)) (set : Option Cause) (w : State F) : Option (State F) × Option Cause :=
  match set with
  | some e => (store, some { e with msg := "window: set state: " ++ e.msg })
  | none => (some w, none)

/-- `ApplyBatch` of a transform with a store: the store, the process, and the rows or the error. -/
def applyBatch (U : Around F) (store : Option (State F)) (p : Process F) (xs : List Arrival) :
    Option (State F) × Process F × Except Cause (List Row) :=
  if xs = [] then (store, p, .ok [])
  else
    match restoreState store U.get p with
    | (p, some e) => (store, p, .error e)
    | (p, none) =>
      let w := accumulateAll A C U.now 0 p.state xs
      let (rows, w) := emitClosed A C U.order (U.now xs.length) w
      match persistState store U.set w with
      | (store, some e) => (store, { p with state := w }, .error e)
      | (store, none) => (store, { p with state := w }, .ok rows)

/-! ## What becomes of a record -/

/-- The record is in the buffer. -/
def State.Holds (w : State F) (n : Nat) : Prop := ∃ e ∈ w.buffer, n ∈ e.state.members

variable {A C}

theorem aggregate_members (rec : Record) (st : AggState F) (d : AggDef) :
    (aggregate A rec st d).members = st.members := by
  unfold aggregate
  simp only
  split <;> first | rfl | (split <;> rfl)

theorem countRecord_members (x : Arrival) (st : AggState F) :
    (countRecord A C x st).members = st.members ++ [x.seq] := by
  unfold countRecord
  generalize hs : ({ st with count := st.count + 1, members := st.members ++ [x.seq] } : AggState F) = s
  have hmem : s.members = st.members ++ [x.seq] := by rw [← hs]
  clear hs
  induction C.aggregators generalizing s with
  | nil => exact hmem
  | cons d ds ih =>
    exact ih _ ((aggregate_members x.record s d.2).trans hmem)

variable {x : Arrival} {key : String} {ws : Int}

theorem mem_addTo {es : List (Entry F)} {e : Entry F} (h : e ∈ addTo A C ws key x es) :
    e.windowStart = ws ∨ e ∈ es := by
  induction es with
  | nil => simp_all [addTo]
  | cons e' es ih =>
    unfold addTo at h
    split at h <;> grind

/-- The record is in its window's entry, and the others are still where they were. -/
theorem members_addTo {es : List (Entry F)} {v : Int} {n : Nat} :
    (∃ e ∈ addTo A C ws key x es, e.windowStart = v ∧ n ∈ e.state.members) ↔
      v = ws ∧ n = x.seq ∨ ∃ e ∈ es, e.windowStart = v ∧ n ∈ e.state.members := by
  induction es with
  | nil => simp [addTo, countRecord_members, newState, eq_comm]
  | cons e es ih =>
    unfold addTo
    split
    · rename_i hkey
      simp only [mem_cons, exists_eq_or_imp, countRecord_members, hkey.1]
      grind
    · simp only [mem_cons, exists_eq_or_imp, ih, or_left_comm]

/-- The records of a batch that are dropped as too late. -/
def dropped (A : Arith F) (C : Config) (now : Nat → Int) : Nat → State F → List Arrival → List Nat
  | _, _, [] => []
  | i, w, x :: xs =>
    let rest := dropped A C now (i + 1) (accumulate A C (now i) w x) xs
    if (watermark C w x).isNone then x.seq :: rest else rest

/-- Entries of windows that count as emitted hold only records that are done with. -/
def State.Settled (w : State F) (Done : Nat → Prop) : Prop :=
  ∀ e ∈ w.buffer, e.windowStart ≤ w.lastEmittedWindow → ∀ n ∈ e.state.members, Done n

variable {n : Nat} {w : State F}

theorem accumulate_holds {now : Int} (h : w.Holds n ∨ (n = x.seq ∧ (watermark C w x).isNone = false)) :
    (accumulate A C now w x).Holds n := by
  unfold accumulate
  split
  · rename_i hnone
    rcases h with h | ⟨-, h⟩
    · exact h
    · simp [hnone] at h
  · rcases h with ⟨e, he, hn⟩ | ⟨rfl, -⟩
    · obtain ⟨e, he, -, hn⟩ := members_addTo.mpr (.inr ⟨e, he, rfl, hn⟩)
      exact ⟨e, he, hn⟩
    · obtain ⟨e, he, -, hn⟩ := members_addTo.mpr (.inl ⟨rfl, rfl⟩)
      exact ⟨e, he, hn⟩

variable {Done : Nat → Prop}

theorem accumulate_settled {now : Int} (h : w.Settled Done)
    (hx : (watermark C w x).isNone = true ∨ w.lastEmittedWindow < windowStart C (x.timestamp.getD now) ∨ Done x.seq) :
    (accumulate A C now w x).Settled Done := by
  unfold accumulate
  split
  · exact h
  · rename_i maxEventTime hmark
    intro e he hle n hn
    rcases members_addTo.mp ⟨e, he, rfl, hn⟩ with ⟨hws, rfl⟩ | ⟨e', he', hws', hn'⟩
    · rcases hx with hlate | hlt | hdone
      · simp [hmark] at hlate
      · exact absurd (hws ▸ hle) (not_le.mpr hlt)
      · exact hdone
    · exact h e' he' (hws'.trans_le hle) n hn'

/-- Every record of a batch is dropped as too late, or its window was not emitted yet, or it is done with. -/
def InTime (A : Arith F) (C : Config) (Done : Nat → Prop) (now : Nat → Int) : Nat → State F → List Arrival → Prop
  | _, _, [] => True
  | i, w, x :: xs =>
    ((watermark C w x).isNone = true ∨ w.lastEmittedWindow < windowStart C (x.timestamp.getD (now i)) ∨ Done x.seq) ∧
      InTime A C Done now (i + 1) (accumulate A C (now i) w x) xs

variable {now : Nat → Int}

/-- **Accumulating a batch** loses no record: what was in the buffer stays there, and of the batch what is not dropped
comes to it. -/
theorem accumulateAll_holds : ∀ {xs : List Arrival} {i : Nat} {w : State F},
    (w.Holds n ∨ n ∈ xs.map (·.seq) ∧ n ∉ dropped A C now i w xs) → (accumulateAll A C now i w xs).Holds n
  | [], _, _, h => h.resolve_right (by simp)
  | x :: xs, i, w, h => by
    change (accumulateAll A C now (i + 1) (accumulate A C (now i) w x) xs).Holds n
    refine accumulateAll_holds ?_
    rcases h with h | ⟨hmem, hnot⟩
    · exact .inl (accumulate_holds (.inl h))
    · unfold dropped at hnot
      rcases mem_cons.mp hmem with rfl | hmem
      · exact .inl (accumulate_holds (.inr ⟨rfl, by_contra fun hlate => hnot (by simp [hlate])⟩))
      · exact .inr ⟨hmem, fun hrest => hnot (by split <;> simp [hrest])⟩

theorem accumulateAll_settled : ∀ {xs : List Arrival} {i : Nat} {w : State F},
    w.Settled Done → InTime A C Done now i w xs → (accumulateAll A C now i w xs).Settled Done
  | [], _, _, h, _ => h
  | x :: xs, i, w, h, hx => by
    rw [accumulateAll]
    exact accumulateAll_settled (accumulate_settled h hx.1) hx.2

/-! ## What emission leaves -/

variable {e : Entry F}

theorem due_iff {current : Int} :
    w.due current e = true ↔ e.windowStart < current ∧ w.lastEmittedWindow < e.windowStart := by
  simp [State.due]

def closed (C : Config) (order : Order F) (now : Int) (w : State F) : List (Entry F) :=
  (order.1 (w.buffer.filter (w.due (windowStart C now)))).mergeSort fun a b => a.windowStart ≤ b.windowStart

variable {order : Order F}

theorem mem_closed {now : Int} : e ∈ closed C order now w ↔ e ∈ w.buffer ∧ w.due (windowStart C now) e = true := by
  rw [closed, mem_mergeSort, (order.2 _).mem_iff, mem_filter]

theorem foldl_max_le {es : List (Entry F)} {a b : Int} (ha : a ≤ b) (h : ∀ e ∈ es, e.windowStart ≤ b) :
    es.foldl (fun last e => max last e.windowStart) a ≤ b := by
  induction es generalizing a with
  | nil => exact ha
  | cons e es ih =>
    exact ih (max_le ha (h e mem_cons_self)) fun e' he' => h e' (mem_cons_of_mem _ he')

theorem le_foldl_max (es : List (Entry F)) (a : Int) : a ≤ es.foldl (fun last e => max last e.windowStart) a := by
  induction es generalizing a with
  | nil => exact le_refl a
  | cons e es ih =>
    exact (le_max_left a e.windowStart).trans (ih _)

/-- The marker is where it was, or before the current window. -/
theorem emitClosed_lastEmitted (order : Order F) (now : Int) (w : State F) :
    w.lastEmittedWindow ≤ (emitClosed A C order now w).2.lastEmittedWindow ∧
      ((emitClosed A C order now w).2.lastEmittedWindow = w.lastEmittedWindow ∨
        (emitClosed A C order now w).2.lastEmittedWindow < windowStart C now) := by
  refine ⟨le_foldl_max _ _, ?_⟩
  change (closed C order now w).foldl (fun last e => max last e.windowStart) w.lastEmittedWindow = _ ∨
    (closed C order now w).foldl (fun last e => max last e.windowStart) w.lastEmittedWindow < _
  by_cases hlt : w.lastEmittedWindow < windowStart C now
  · have hle : (closed C order now w).foldl (fun last e => max last e.windowStart) w.lastEmittedWindow ≤
        windowStart C now - 1 := by
      refine foldl_max_le (by omega) fun e he => ?_
      have hdue := due_iff.mp (mem_closed.mp he).2
      omega
    omega
  · left
    have hnil : closed C order now w = [] := by
      rw [eq_nil_iff_forall_not_mem]
      intro e he
      have hdue := due_iff.mp (mem_closed.mp he).2
      omega
    rw [hnil]
    rfl

/-- A record of the buffer is still there, or in a row. -/
theorem emitClosed_holds {now : Int} (h : w.Holds n) :
    (emitClosed A C order now w).2.Holds n ∨ ∃ row ∈ (emitClosed A C order now w).1, n ∈ row.members := by
  obtain ⟨e, he, hn⟩ := h
  cases hdue : w.due (windowStart C now) e with
  | false => exact .inl ⟨e, mem_filter.mpr ⟨he, by simp [hdue]⟩, hn⟩
  | true => exact .inr ⟨buildRow A C now e, mem_map.mpr ⟨e, mem_closed.mpr ⟨he, hdue⟩, rfl⟩, hn⟩

/-- What is left is in an open window, or in one that counts as emitted. -/
theorem emitClosed_open {now : Int} (he : e ∈ (emitClosed A C order now w).2.buffer) :
    e ∈ w.buffer ∧ (windowStart C now ≤ e.windowStart ∨ e.windowStart ≤ w.lastEmittedWindow) := by
  obtain ⟨hmem, hdue⟩ := mem_filter.mp he
  refine ⟨hmem, ?_⟩
  by_contra hnot
  rw [not_or, not_le, not_le] at hnot
  rw [due_iff.mpr hnot] at hdue
  cases hdue

theorem emitClosed_settled {now : Int} (h : w.Settled Done) : (emitClosed A C order now w).2.Settled Done := by
  intro e he hle n hn
  obtain ⟨hmem, hopen⟩ := emitClosed_open he
  refine h e hmem ?_ n hn
  rcases hopen with hopen | hold
  · rcases (emitClosed_lastEmitted order now w).2 with heq | hlt
    · exact heq ▸ hle
    · omega
  · exact hold

end

/-! ## An instance -/

def ints : Arith Int where
  zero := 0
  ofInt n := n
  ofText _ := 0
  add a b := a + b
  quot a n := a / n
  lt a b := a < b
  value n := .int64 n
  rfc3339 := toString

theorem id_perm (l : List (Entry Int)) : (id l).Perm l := Perm.refl l

def asListed : Order Int := ⟨id, id_perm⟩

def minutes : Config := { aggregators := [("events", { func := .count })] }

/-- A number of seconds after 1970. -/
def unix (sec : Int) : Int := (unixToInternal + sec) * 1000000000

end OpenEtl.Window
