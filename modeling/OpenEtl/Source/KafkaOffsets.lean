import OpenEtl.Core.Errors
import OpenEtl.Lib.Trace

/-!
# Offsets of the Kafka source (`source/kafka.go`)

| here | there |
| --- | --- |
| `Client` | the consumer group library, as it is documented |
| `Act.openReader` | `KafkaSource.Open` (:240) |
| `Act.setup`, `Act.cleanup` | `kafkaHandler.Setup` (:324), `Cleanup` (:341) |

Any number of readers share a consumer group. A partition that is assigned is read from the group's offset, or from
where `initial_offset` says (:181) if the group has none or the partition does not have that offset any more; `Setup`
overrides the group's offset with the offsets the reader was opened with, at every rebalance. `covered` is one past the
highest offset of a checkpoint that was saved, 0 if there is none.
-/

namespace OpenEtl.KafkaOffsets

open List Function Trace

/-- `map[int32]int64`: the last offset of each partition. -/
abbrev Offsets := List (Nat × Nat)

/-- `if current, ok := m[p]; !ok || off > current { m[p] = off }` -/
def advance (offs : Offsets) (p off : Nat) : Offsets :=
  match offs.lookup p with
  | some current => if current < off then offs.map fun e => if e.1 = p then (p, off) else e else offs
  | none => offs ++ [(p, off)]

/-- What a partition has: the offsets from the oldest to the newest, which the next message will get. -/
structure Log where
  oldest : Nat
  newest : Nat

def Log.Has (log : Log) (off : Nat) : Prop := log.oldest ≤ off ∧ off ≤ log.newest

/-- `Consumer.Offsets.Initial` (:181). -/
inductive InitialOffset
  | oldest | newest
deriving DecidableEq, Repr

def InitialOffset.of : InitialOffset → Log → Nat
  | .oldest, log => log.oldest
  | .newest, log => log.newest

/-- The session's methods on the offset of a claimed partition, and where the claim is read from. -/
structure Client where
  resetOffset : Option Nat → Nat → Option Nat
  markOffset : Option Nat → Nat → Option Nat
  startOffset : Option Nat → Log → InitialOffset → Nat
  /-- `MarkOffset` only allows incrementing the offset -/
  mark_none : ∀ off, markOffset none off = some off
  mark_some : ∀ c off, markOffset (some c) off = some (max c off)
  /-- `ResetOffset` allows a smaller value -/
  reset_smaller : ∀ c off, off ≤ c → resetOffset (some c) off = some off
  reset_cases : ∀ c off, resetOffset c off = c ∨ resetOffset c off = some off
  /-- the initial offset is used if none was committed -/
  start_none : ∀ log initial, startOffset none log initial = initial.of log
  start_has : ∀ c log initial, log.Has c → startOffset (some c) log initial = c
  /-- `Consumer.Group.ResetInvalidOffsets`, which is on by default -/
  start_invalid : ∀ c log initial, ¬log.Has c → startOffset (some c) log initial = initial.of log

structure Reader where
  initialOffset : InitialOffset := .newest
  startOffsets : Offsets := []
  committedOffsets : Offsets := []
  /-- the partitions for which there is a session -/
  sessions : List Nat := []
  /-- the offsets marked in the session -/
  marked : Nat → Option Nat := fun _ => none
  /-- saved, to be acknowledged -/
  saved : Option Offsets := none

def checkpointForRecord (rd : Reader) (p off : Nat) : Reader :=
  { rd with committedOffsets := advance rd.committedOffsets p off }

structure Sys where
  /-- the group's offsets at the broker -/
  committed : Nat → Option Nat := fun _ => none
  /-- the checkpoint of each reader -/
  stored : Nat → Option Offsets := fun _ => none
  readers : Nat → Option Reader := fun _ => none
  covered : Nat → Nat := fun _ => 0

def cover (covered : Nat → Nat) (offs : Offsets) (p : Nat) : Nat :=
  offs.foldl (fun m e => if e.1 = p then max m (e.2 + 1) else m) (covered p)

inductive Act
  | openReader (r : Nat) (initial : InitialOffset)
  | close (r : Nat)
  /-- `logs`: what the partitions have at that moment -/
  | setup (r : Nat) (claims : List Nat) (logs : Nat → Log)
  | cleanup (r : Nat)
  /-- the checkpoint for a record is made and saved -/
  | checkpoint (r p off : Nat) (saveFails : Bool)
  /-- so many offsets are marked before the session ends; `commits`: it is alive behind them, and commits -/
  | ack (r marks : Nat) (commits : Bool)

def Sys.set (s : Sys) (r : Nat) (rd : Option Reader) : Sys := { s with readers := update s.readers r rd }

section

variable (K : Client)

/-- The offset of a claimed partition after `Setup`. -/
def Reader.setup (rd : Reader) (committed : Nat → Option Nat) (p : Nat) : Option Nat :=
  match rd.startOffsets.lookup p with
  | some off => K.markOffset (K.resetOffset (committed p) (off + 1)) (off + 1)
  | none => committed p

def Reader.start (rd : Reader) (s : Sys) (logs : Nat → Log) (p : Nat) : Nat :=
  K.startOffset (rd.setup K s.committed p) (logs p) rd.initialOffset

/-- No offset is marked unless every partition has a session. -/
def ackCheckpoint (rd : Reader) (offs : Offsets) : Except Err Unit :=
  match offs.find? fun e => decide (e.1 ∉ rd.sessions) with
  | some e => .error { msg := "kafka consumer session unavailable for partition " ++ toString e.1 }
  | none => .ok ()

def markAll (marked : Nat → Option Nat) (offs : Offsets) : Nat → Option Nat :=
  offs.foldl (fun m e => update m e.1 (K.markOffset (m e.1) (e.2 + 1))) marked

def step (s : Sys) : Act → Sys
  | .openReader r initial =>
    -- `ValidateCheckpoint` refuses a checkpoint without offsets
    if s.stored r = some [] then s
    else s.set r (some { initialOffset := initial, startOffsets := (s.stored r).getD [] })
  | .close r => s.set r none
  | .setup r claims _ =>
    match s.readers r with
    | some rd =>
      s.set r (some
        { rd with
          sessions := claims ++ rd.sessions
          marked := fun p => if p ∈ claims then rd.setup K s.committed p else rd.marked p })
    | none => s
  | .cleanup r =>
    match s.readers r with
    | some rd => s.set r (some { rd with sessions := [] })
    | none => s
  | .checkpoint r p off saveFails =>
    match s.readers r with
    | some rd =>
      let rd := checkpointForRecord rd p off
      if saveFails then s.set r (some rd)
      else
        { s.set r (some { rd with saved := some rd.committedOffsets }) with
          stored := update s.stored r (some rd.committedOffsets)
          covered := cover s.covered rd.committedOffsets }
    | none => s
  | .ack r marks commits =>
    match s.readers r with
    | some rd =>
      match rd.saved with
      | some offs =>
        match ackCheckpoint rd offs with
        | .ok () =>
          let marked := markAll K rd.marked (offs.take marks)
          { s.set r (some { rd with marked, saved := none }) with
            committed := fun p =>
              if offs.length ≤ marks ∧ commits = true ∧ p ∈ rd.sessions then (marked p).or (s.committed p)
              else s.committed p }
        | .error _ => s.set r (some { rd with saved := none })
      | none => s
    | none => s

/-! ## What is asked of a run -/

/-- No offset of the group and no start of a partition is past what checkpoints cover. -/
def Covered (s : Sys) (act : Act) : Prop :=
  (∀ p c, (step K s act).committed p = some c → c ≤ (step K s act).covered p) ∧
    match act with
    | .setup r claims logs => ∀ rd, s.readers r = some rd → ∀ p ∈ claims, rd.start K s logs p ≤ s.covered p
    | _ => True

end

/-- The offset of the reader's checkpoint, or else of the group. -/
def Reader.resumes (rd : Reader) (committed : Nat → Option Nat) (p : Nat) : Option Nat :=
  ((rd.startOffsets.lookup p).map (· + 1)).or (committed p)

/-- A partition without such an offset, or which does not have it any more, is read from within what is covered. -/
def Orderly (s : Sys) : Act → Prop
  | .setup r claims logs =>
    ∀ rd, s.readers r = some rd → ∀ p ∈ claims, (∀ c, rd.resumes s.committed p = some c → ¬(logs p).Has c) →
      rd.initialOffset.of (logs p) ≤ s.covered p
  | _ => True

/-! ## Maps -/

variable {e : Nat × Nat} {off p : Nat} {offs : Offsets}

theorem mem_advance (h : e ∈ advance offs p off) : e = (p, off) ∨ e ∈ offs := by
  unfold advance at h
  split at h
  · split at h
    · obtain ⟨e', he', rfl⟩ := mem_map.mp h
      split
      · exact .inl rfl
      · exact .inr he'
    · exact .inr h
  · rcases mem_append.mp h with h | h
    · exact .inr h
    · exact .inl (mem_singleton.mp h)

/-- No partition is dropped. -/
theorem key_mem_advance (h : e ∈ offs) : ∃ e' ∈ advance offs p off, e'.1 = e.1 := by
  unfold advance
  split
  · split
    · refine ⟨_, mem_map_of_mem h, ?_⟩
      split
      · rename_i hp
        exact hp.symm
      · rfl
    · exact ⟨e, h, rfl⟩
  · exact ⟨e, mem_append_left _ h, rfl⟩

theorem le_cover (covered : Nat → Nat) (offs : Offsets) (p : Nat) : covered p ≤ cover covered offs p := by
  unfold cover
  generalize covered p = m
  induction offs generalizing m with
  | nil => exact le_refl m
  | cons e offs ih =>
    rw [foldl_cons]
    refine le_trans ?_ (ih _)
    split <;> omega

theorem mem_le_cover (covered : Nat → Nat) (h : e ∈ offs) : e.2 + 1 ≤ cover covered offs e.1 := by
  unfold cover
  generalize covered e.1 = m
  induction offs generalizing m with
  | nil => simp at h
  | cons e' offs ih =>
    rw [foldl_cons]
    rcases mem_cons.mp h with rfl | h
    · rw [if_pos rfl]
      exact le_trans (le_max_right m _) (le_cover (fun _ => max m (e.2 + 1)) offs e.1)
    · exact ih h _

variable {K : Client}

theorem setup_eq (rd : Reader) (committed : Nat → Option Nat) (p : Nat) :
    rd.setup K committed p = rd.resumes committed p := by
  unfold Reader.setup Reader.resumes
  cases rd.startOffsets.lookup p with
  | none => rfl
  | some off =>
    simp only [Option.map_some, Option.some_or]
    rcases K.reset_cases (committed p) (off + 1) with hreset | hreset
    · cases hc : committed p with
      | none => rw [← hc, hreset, hc, K.mark_none]
      | some c =>
        rw [hc] at hreset
        rw [hreset, K.mark_some]
        -- a greater offset would have been set back
        by_cases hle : off + 1 ≤ c
        · rw [K.reset_smaller c _ hle] at hreset
          rw [← Option.some.inj hreset, max_self]
        · rw [max_eq_right (by omega)]
    · rw [hreset, K.mark_some, max_self]

theorem start_eq (rd : Reader) (s : Sys) (logs : Nat → Log) (p : Nat) :
    (∃ c, rd.resumes s.committed p = some c ∧ (logs p).Has c ∧ rd.start K s logs p = c) ∨
      (∀ c, rd.resumes s.committed p = some c → ¬(logs p).Has c) ∧
        rd.start K s logs p = rd.initialOffset.of (logs p) := by
  unfold Reader.start
  rw [setup_eq]
  cases rd.resumes s.committed p with
  | none => exact .inr ⟨nofun, K.start_none _ _⟩
  | some c =>
    by_cases hhas : (logs p).Has c
    · exact .inl ⟨c, rfl, hhas, K.start_has _ _ _ hhas⟩
    · refine .inr ⟨fun c' hc' => ?_, K.start_invalid _ _ _ hhas⟩
      obtain rfl := Option.some.inj hc'
      exact hhas

/-! ## Everything stays within what is covered -/

def Offsets.Within (covered : Nat → Nat) (offs : Offsets) : Prop := ∀ e ∈ offs, e.2 + 1 ≤ covered e.1

def MarkedWithin (covered : Nat → Nat) (marked : Nat → Option Nat) : Prop := ∀ p c, marked p = some c → c ≤ covered p

variable {cov cov' : Nat → Nat}

theorem Offsets.Within.mono (h : offs.Within cov) (hle : ∀ p, cov p ≤ cov' p) : offs.Within cov' :=
  fun e he => (h e he).trans (hle e.1)

variable {marked : Nat → Option Nat}

theorem MarkedWithin.mono (h : MarkedWithin cov marked) (hle : ∀ p, cov p ≤ cov' p) :
    MarkedWithin cov' marked :=
  fun p c hc => (h p c hc).trans (hle p)

structure Reader.Within (covered : Nat → Nat) (rd : Reader) : Prop where
  start : rd.startOffsets.Within covered
  marked : MarkedWithin covered rd.marked
  saved : ∀ offs, rd.saved = some offs → offs.Within covered

variable {rd : Reader}

theorem Reader.Within.mono (h : rd.Within cov) (hle : ∀ p, cov p ≤ cov' p) : rd.Within cov' :=
  ⟨h.start.mono hle, h.marked.mono hle, fun offs ho => (h.saved offs ho).mono hle⟩

structure Inv (s : Sys) : Prop where
  committed : MarkedWithin s.covered s.committed
  stored : ∀ r offs, s.stored r = some offs → offs.Within s.covered
  readers : ∀ r rd, s.readers r = some rd → rd.Within s.covered

theorem lookup_within (h : offs.Within cov) (hl : offs.lookup p = some off) : off + 1 ≤ cov p := by
  induction offs with
  | nil => simp at hl
  | cons e offs ih =>
    rw [List.lookup_cons] at hl
    by_cases hp : p = e.1
    · subst hp
      simp only [beq_self_eq_true, Option.some.injEq] at hl
      exact hl ▸ h e (by simp)
    · have hb : (p == e.1) = false := by simpa using hp
      rw [hb] at hl
      exact ih (fun e' he' => h e' (by simp [he'])) hl

variable {s : Sys}

theorem resumes_within (h : Inv s) (hrd : rd.Within s.covered) {c : Nat} (hc : rd.resumes s.committed p = some c) :
    c ≤ s.covered p := by
  unfold Reader.resumes at hc
  cases hl : rd.startOffsets.lookup p with
  | some off =>
    rw [hl] at hc
    exact Option.some.inj hc ▸ lookup_within hrd.start hl
  | none =>
    rw [hl] at hc
    exact h.committed p c hc

/-- Marking offsets that are covered. -/
theorem marks_within (h : offs.Within cov) (hm : MarkedWithin cov marked) :
    MarkedWithin cov (markAll K marked offs) := by
  induction offs generalizing marked with
  | nil => exact hm
  | cons e offs ih =>
    rw [markAll, foldl_cons]
    refine ih (fun e' he' => h e' (by simp [he'])) fun p c hc => ?_
    by_cases hp : p = e.1
    · subst hp
      rw [update_self] at hc
      have he := h e (by simp)
      cases hold : marked e.1 with
      | none =>
        rw [hold, K.mark_none] at hc
        exact Option.some.inj hc ▸ he
      | some c' =>
        rw [hold, K.mark_some] at hc
        exact Option.some.inj hc ▸ max_le (hm e.1 c' hold) he
    · rw [update_of_ne hp] at hc
      exact hm p c hc

/-- Replacing one reader. -/
theorem Inv.set (h : Inv s) (r : Nat) {rd : Option Reader} (hrd : ∀ x, rd = some x → x.Within s.covered) :
    Inv (s.set r rd) := by
  refine ⟨h.committed, h.stored, fun r' x hx => ?_⟩
  by_cases hr : r' = r
  · subst hr
    simp only [Sys.set, update_self] at hx
    exact hrd x hx
  · simp only [Sys.set, update_of_ne hr] at hx
    exact h.readers r' x hx

theorem Inv.checkpoint (h : Inv s) {r : Nat} (hr : s.readers r = some rd) (p off : Nat) :
    Inv
      { s.set r (some { checkpointForRecord rd p off with saved := some (checkpointForRecord rd p off).committedOffsets })
        with
        stored := update s.stored r (some (checkpointForRecord rd p off).committedOffsets)
        covered := cover s.covered (checkpointForRecord rd p off).committedOffsets } := by
  have hle := le_cover s.covered (checkpointForRecord rd p off).committedOffsets
  have hnew : (checkpointForRecord rd p off).committedOffsets.Within
      (cover s.covered (checkpointForRecord rd p off).committedOffsets) := fun e he => mem_le_cover s.covered he
  refine ⟨h.committed.mono hle, fun r' offs ho => ?_, fun r' x hx => ?_⟩
  · by_cases hr' : r' = r
    · subst hr'
      simp only [update_self, Option.some.injEq] at ho
      exact ho ▸ hnew
    · simp only [update_of_ne hr'] at ho
      exact (h.stored r' offs ho).mono hle
  · by_cases hr' : r' = r
    · subst hr'
      simp only [Sys.set, update_self, Option.some.injEq] at hx
      subst hx
      have hold := (h.readers r' rd hr).mono hle
      exact ⟨hold.start, hold.marked, fun offs ho => Option.some.inj ho ▸ hnew⟩
    · simp only [Sys.set, update_of_ne hr'] at hx
      exact (h.readers r' x hx).mono hle

theorem Inv.openReader (h : Inv s) (r : Nat) (initial : InitialOffset) :
    Inv (s.set r (some { initialOffset := initial, startOffsets := (s.stored r).getD [] })) := by
  refine h.set r fun x hx => ?_
  cases hx
  refine ⟨fun e he => ?_, fun p c hc => (nomatch hc), fun offs ho => (nomatch ho)⟩
  cases hs : s.stored r with
  | none => simp [hs] at he
  | some offs => exact h.stored r offs hs e (by simpa [hs] using he)

theorem Inv.setup (h : Inv s) {r : Nat} (hr : s.readers r = some rd) (claims : List Nat) :
    Inv (s.set r (some
      { rd with
        sessions := claims ++ rd.sessions
        marked := fun p => if p ∈ claims then rd.setup K s.committed p else rd.marked p })) := by
  have hrd := h.readers r rd hr
  refine h.set r fun x hx => ?_
  cases hx
  refine ⟨hrd.start, fun p c hc => ?_, hrd.saved⟩
  dsimp only at hc
  split at hc
  · rw [setup_eq] at hc
    exact resumes_within h hrd hc
  · exact hrd.marked p c hc

theorem Inv.ack (h : Inv s) {r : Nat} (hr : s.readers r = some rd) (hsaved : rd.saved = some offs) (marks : Nat)
    (commits : Prop) [Decidable commits] :
    Inv
      { s.set r (some { rd with marked := markAll K rd.marked (offs.take marks), saved := none }) with
        committed := fun p =>
          if offs.length ≤ marks ∧ commits ∧ p ∈ rd.sessions then
            (markAll K rd.marked (offs.take marks) p).or (s.committed p)
          else s.committed p } := by
  have hrd := h.readers r rd hr
  have hmarked : MarkedWithin s.covered (markAll K rd.marked (offs.take marks)) :=
    marks_within (fun e he => hrd.saved offs hsaved e (mem_of_mem_take he)) hrd.marked
  have hset : Inv (s.set r (some { rd with marked := markAll K rd.marked (offs.take marks), saved := none })) :=
    h.set r fun x hx => by
      cases hx
      exact ⟨hrd.start, hmarked, fun offs ho => (nomatch ho)⟩
  refine ⟨fun p c hc => ?_, hset.stored, hset.readers⟩
  dsimp only at hc
  split at hc
  · rcases Option.or_eq_some_iff.mp hc with hm | ⟨-, hc⟩
    · exact hmarked p c hm
    · exact h.committed p c hc
  · exact h.committed p c hc

/-- The reader keeps its offsets. -/
theorem Inv.keeps (h : Inv s) {r : Nat} (hr : s.readers r = some rd) (x : Reader)
    (hstart : x.startOffsets = rd.startOffsets) (hmarked : x.marked = rd.marked)
    (hsaved : x.saved = rd.saved ∨ x.saved = none) : Inv (s.set r (some x)) := by
  have hrd := h.readers r rd hr
  refine h.set r fun y hy => ?_
  obtain rfl := Option.some.inj hy
  refine ⟨hstart ▸ hrd.start, hmarked ▸ hrd.marked, fun offs ho => ?_⟩
  rcases hsaved with hs | hs
  · exact hrd.saved offs (hs ▸ ho)
  · rw [hs] at ho
    cases ho

theorem Inv.step (h : Inv s) (act : Act) : Inv (KafkaOffsets.step K s act) := by
  cases act with
  | openReader r initial =>
    simp only [KafkaOffsets.step]
    split
    · exact h
    · exact h.openReader r initial
  | close r => exact h.set r fun x hx => nomatch hx
  | setup r claims logs =>
    simp only [KafkaOffsets.step]
    split
    · exact h.setup ‹_› claims
    · exact h
  | cleanup r =>
    simp only [KafkaOffsets.step]
    split
    · rename_i rd hr
      exact h.keeps hr _ rfl rfl (.inl rfl)
    · exact h
  | checkpoint r p off saveFails =>
    simp only [KafkaOffsets.step]
    split
    · rename_i rd hr
      split
      · exact h.keeps hr _ rfl rfl (.inl rfl)
      · exact h.checkpoint hr p off
    · exact h
  | ack r marks commits =>
    simp only [KafkaOffsets.step]
    split
    · rename_i rd hr
      split
      · split
        · exact h.ack hr ‹_› marks _
        · exact h.keeps hr _ rfl rfl (.inr rfl)
      · exact h
    · exact h

theorem covered_iff (h : Inv s) (act : Act) : Covered K s act ↔ Orderly s act := by
  have hcommitted := (h.step (K := K) act).committed
  cases act with
  | setup r claims logs =>
    refine ⟨fun hc rd hr p hp hnone => ?_, fun ho => ⟨hcommitted, fun rd hr p hp => ?_⟩⟩
    · have hstart := hc.2 rd hr p hp
      rcases start_eq (K := K) rd s logs p with ⟨c, hc, hhas, -⟩ | ⟨-, heq⟩
      · exact absurd hhas (hnone c hc)
      · rwa [heq] at hstart
    · rcases start_eq (K := K) rd s logs p with ⟨c, hc, -, heq⟩ | ⟨hnone, heq⟩
      · rw [heq]
        exact resumes_within h (h.readers r rd hr) hc
      · rw [heq]
        exact ho rd hr p hp hnone
  | _ => exact ⟨fun _ => trivial, fun _ => ⟨hcommitted, trivial⟩⟩

/-- A checkpoint is acknowledged if there is a session for each of its partitions. -/
theorem ackCheckpoint_ok_iff (rd : Reader) (offs : Offsets) :
    ackCheckpoint rd offs = .ok () ↔ ∀ e ∈ offs, e.1 ∈ rd.sessions := by
  unfold ackCheckpoint
  split
  · rename_i e he
    have hne : e.1 ∉ rd.sessions := by simpa using find?_some he
    exact iff_of_false (nomatch ·) fun h => hne (h e (mem_of_find?_eq_some he))
  · rename_i hnone
    refine iff_of_true rfl fun e he => ?_
    simpa using find?_eq_none.mp hnone e he

/-- **Offsets of the group**: in a run neither they nor the start of any partition pass what checkpoints cover, exactly
if every partition that has no offset to resume from starts within it. And the checkpoint of a record of an owned
partition can be acknowledged exactly if all partitions the reader has ever checkpointed are owned. -/
theorem kafka_offsets_covered_iff (K : Client) (acts : List Act) :
    (Steps (Covered K) (step K) {} acts ↔ Steps Orderly (step K) {} acts) ∧
    ∀ rd p off, p ∈ rd.sessions →
      (ackCheckpoint rd (checkpointForRecord rd p off).committedOffsets = .ok () ↔
        ∀ e ∈ rd.committedOffsets, e.1 ∈ rd.sessions) := by
  refine ⟨steps_congr Inv (fun _ act h => ⟨h.step act, covered_iff h act⟩) acts ⟨nofun, nofun, nofun⟩,
    fun rd p off hp => ?_⟩
  rw [ackCheckpoint_ok_iff]
  constructor
  · intro h e he
    obtain ⟨e', he', hkey⟩ := key_mem_advance he
    exact hkey ▸ h e' he'
  · intro h e he
    rcases mem_advance he with rfl | he
    · exact hp
    · exact h e he

/-! ### Example -/

instance (log : Log) (off : Nat) : Decidable (log.Has off) := inferInstanceAs (Decidable (_ ∧ _))

/-- A client that does what is documented: `ResetOffset` does nothing to an offset that is smaller. -/
def client : Client where
  resetOffset c off := c.map fun c => if off ≤ c then off else c
  markOffset c off := some (c.elim off fun c => max c off)
  startOffset c log initial := (c.filter fun c => decide (log.Has c)).getD (initial.of log)
  mark_none _ := rfl
  mark_some _ _ := rfl
  reset_smaller c off h := by simp [h]
  reset_cases c off := by cases c <;> simp; omega
  start_none _ _ := rfl
  start_has c log initial h := by rw [Option.filter_some_pos (by simpa using h), Option.getD_some]
  start_invalid c log initial h := by rw [Option.filter_some_neg (by simpa using h), Option.getD_none]

/-- Partition 0 is checkpointed up to offset 100. After a restart the next checkpoint is for partition 1 and does not name
partition 0; the reader is restarted once more before anything was acknowledged, and reads partition 0 from the newest
offset, 500. In the second run partition 0 is revoked, and the next checkpoint for partition 1 is not acknowledged. In
the third the messages up to 300 are gone when the reader resumes from 101, and it reads from 500. -/
theorem covered_offsets_passed :
    let empty : Nat → Log := fun _ => ⟨0, 0⟩
    let s := run (step client) {}
      [.openReader 0 .newest, .setup 0 [0, 1] empty, .checkpoint 0 0 100 false, .close 0, .openReader 0 .newest,
        .setup 0 [0, 1] fun _ => ⟨0, 200⟩, .checkpoint 0 1 7 false, .close 0, .openReader 0 .newest]
    let t := run (step client) {}
      [.openReader 0 .newest, .setup 0 [0, 1] empty, .checkpoint 0 0 10 false, .ack 0 1 true, .cleanup 0,
        .setup 0 [1] empty]
    let u := run (step client) {}
      [.openReader 0 .newest, .setup 0 [0] empty, .checkpoint 0 0 100 false, .close 0, .openReader 0 .newest]
    (s.covered 0 = 101 ∧ (s.readers 0).map (·.start client s (fun _ => ⟨0, 500⟩) 0) = some 500) ∧
      ((t.readers 0).map (·.sessions) = some [1] ∧
        (t.readers 0).map (fun rd =>
          (ackCheckpoint rd (checkpointForRecord rd 1 5).committedOffsets).toOption.isSome) = some false) ∧
      u.covered 0 = 101 ∧ (u.readers 0).map (·.start client u (fun _ => ⟨300, 500⟩) 0) = some 500 := by
  decide

end OpenEtl.KafkaOffsets
