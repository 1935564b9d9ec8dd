import OpenEtl.Core.Record
import OpenEtl.Lib.Trace

/-!
# Sharded reading (`core/sharding.go`)

| here | there |
| --- | --- |
| `readShardConfig` | `ReadShardConfig` (:20), on what `InjectShardConfig` writes (parallel.go:140) |
| `hashStr` | `hashStr` (:95), FNV-1a of 32 bits |
| `readLoop` | the loop of `ShardedReader.Read` (:121) |
| `Act.save` | `ShardedReader.CheckpointForRecord` (:153), saved under the shard's own key (parallel.go:469) |
| `Act.restart` | a new `ShardedReader` over an inner reader that resumes after the saved record |

The source is the list of its records, and a record is known by its place in it.
-/

namespace OpenEtl.Sharding

open List Trace

inductive Strategy
  | lineModulo
  | hashModulo
  | noop
  /-- a name that `NewRecordFilter` does not know -/
  | other (name : String)
deriving DecidableEq, Repr

structure ShardConfig where
  index : Nat := 0
  total : Nat := 1
  strategy : Strategy := .noop
  key : String := ""
deriving DecidableEq, Repr

def readShardConfig (index total : Nat) (strategy key : String) : ShardConfig where
  index := index
  total := total
  strategy :=
    if total ≤ 1 then .noop
    else if strategy = "" ∨ strategy = "round_robin" ∨ strategy = "line_modulo" then .lineModulo
    else if strategy = "hash_modulo" then .hashModulo
    -- the last three are left to the source
    else if strategy ∈ ["noop", "id_range", "partition", "table"] then .noop
    else .other strategy
  key := key

def hashStr (s : String) : UInt32 := s.toUTF8.toList.foldl (fun h b => (h ^^^ b.toUInt32) * 16777619) 2166136261

/-- What `hash_modulo` hashes. -/
def shardValue (key : String) (rec : Record) : String :=
  if key = "@key" then rec.metadata.key
  else if key = "" then ""
  else
    match rec.data.get? key with
    | some v => fmtV v
    | none => ""

def newRecordFilter (sc : ShardConfig) (rec : Record) (lineNum : Nat) : Bool :=
  match sc.strategy with
  | .lineModulo => lineNum % sc.total == sc.index
  | .hashModulo => (hashStr (shardValue sc.key rec)).toNat % sc.total == sc.index
  | .noop | .other _ => true

/-- `Read` over the records that are left: the place of the record returned, or `io.EOF`, and where the reader is then. -/
def readLoop (filter : Record → Nat → Bool) : List Record → Nat → Nat → Option Nat × Nat × Nat
  | [], pos, count => (none, pos, count)
  | rec :: rest, pos, count =>
    if filter rec (count + 1) then (some pos, pos + 1, count + 1) else readLoop filter rest (pos + 1) (count + 1)

/-- One shard: its reader, its checkpoint, and what its readers have returned. -/
structure Reader where
  pos : Nat := 0
  count : Nat := 0
  /-- where a reader begins that resumes after the record of the last checkpoint -/
  saved : Nat := 0
  /-- returned by this reader -/
  session : List Nat := []
  returned : List Nat := []
deriving DecidableEq, Repr

inductive Act
  | read
  /-- a checkpoint for the record at `k`, which this reader returned -/
  | save (k : Nat)
  | restart
deriving DecidableEq, Repr

def step (sc : ShardConfig) (src : List Record) (s : Reader) : Act → Reader
  | .read =>
    match readLoop (newRecordFilter sc) (src.drop s.pos) s.pos s.count with
    | (some k, pos, count) => { s with pos, count, session := s.session ++ [k], returned := s.returned ++ [k] }
    | (none, pos, count) => { s with pos, count }
  | .save k => if k ∈ s.session then { s with saved := k + 1 } else s
  | .restart => { s with pos := s.saved, count := 0, session := [] }

/-! ## Who owns a record -/

/-- The filter takes the record at place `k` if it is counted from the beginning of the source. -/
def Owns (sc : ShardConfig) (src : List Record) (k : Nat) : Prop :=
  ∃ rec, src[k]? = some rec ∧ newRecordFilter sc rec (k + 1) = true

variable {sc : ShardConfig}

theorem newRecordFilter_congr (rec : Record) {m n : Nat} (h : sc.strategy = .lineModulo → m % sc.total = n % sc.total) :
    newRecordFilter sc rec m = newRecordFilter sc rec n := by
  unfold newRecordFilter
  cases hs : sc.strategy with
  | lineModulo => simp only [h hs]
  | hashModulo | noop | other _ => rfl

/-- Of the shards `0, …, total - 1` exactly one takes a record. -/
theorem existsUnique_filter (htotal : 0 < sc.total) (hs : sc.strategy = .lineModulo ∨ sc.strategy = .hashModulo)
    (rec : Record) (n : Nat) : ∃! i, i < sc.total ∧ newRecordFilter { sc with index := i } rec n = true := by
  unfold newRecordFilter
  rcases hs with hs | hs <;> simp only [hs, beq_iff_eq]
  · exact ⟨_, ⟨Nat.mod_lt _ htotal, rfl⟩, fun i hi => hi.2.symm⟩
  · exact ⟨_, ⟨Nat.mod_lt _ htotal, rfl⟩, fun i hi => hi.2.symm⟩

/-! ## One read -/

/-- A read passes over `d` records, and returns the last of them if it is the first that the filter takes. -/
theorem readLoop_spec (filter : Record → Nat → Bool) (rest : List Record) (pos count : Nat) :
    ∃ d ≤ rest.length, (readLoop filter rest pos count).2 = (pos + d, count + d) ∧
      (∀ k, (readLoop filter rest pos count).1 = some k → pos ≤ k ∧ k < pos + d) ∧
      ∀ j < d, ∀ rec, rest[j]? = some rec →
        (filter rec (count + j + 1) = true ↔ (readLoop filter rest pos count).1 = some (pos + j)) := by
  induction rest generalizing pos count with
  | nil => exact ⟨0, by simp, by simp [readLoop], by simp [readLoop], by simp⟩
  | cons rec rest ih =>
    by_cases hf : filter rec (count + 1) = true
    · refine ⟨1, by simp, by simp [readLoop, hf], ?_, ?_⟩
      · intro k hk
        simp only [readLoop, hf, if_true, Option.some.injEq] at hk
        omega
      · intro j hj rec' hrec
        obtain rfl : j = 0 := by omega
        obtain rfl : rec = rec' := by simpa using hrec
        simp [readLoop, hf]
    · obtain ⟨d, hd, hpos, hret, htake⟩ := ih (pos + 1) (count + 1)
      have hloop : readLoop filter (rec :: rest) pos count = readLoop filter rest (pos + 1) (count + 1) := by
        rw [readLoop, if_neg hf]
      rw [hloop]
      refine ⟨d + 1, by simpa using hd, ?_, ?_, ?_⟩
      · rw [hpos]
        simp only [Prod.mk.injEq]
        omega
      · intro k hk
        have := hret k hk
        omega
      · intro j hj rec' hrec
        cases j with
        | zero =>
          obtain rfl : rec = rec' := by simpa using hrec
          refine ⟨fun h => absurd h hf, fun h => ?_⟩
          have := (hret _ h).1
          omega
        | succ j =>
          have htake' := htake j (by omega) rec' (by simpa using hrec)
          rw [show count + (j + 1) + 1 = count + 1 + j + 1 by omega, show pos + (j + 1) = pos + 1 + j by omega]
          exact htake'

/-! ## A shard across restarts -/

/-- A resumed reader begins where the count of lines agrees with the places in the source. -/
def Orderly (sc : ShardConfig) (s : Reader) : Act → Prop
  | .restart => sc.strategy = .lineModulo → s.saved % sc.total = 0
  | _ => True

instance (sc : ShardConfig) (s : Reader) : DecidablePred (Orderly sc s) := fun a => by
  cases a <;> unfold Orderly <;> infer_instance

structure Inv (sc : ShardConfig) (src : List Record) (s : Reader) : Prop where
  aligned : sc.strategy = .lineModulo → s.count % sc.total = s.pos % sc.total
  bound : s.pos ≤ src.length
  saved : s.saved ≤ s.pos
  session : ∀ k ∈ s.session, k < s.pos
  covered : ∀ k < s.pos, Owns sc src k → k ∈ s.returned
  owned : ∀ k ∈ s.returned, Owns sc src k

variable {src : List Record}

/-- On an aligned reader the filter takes what the shard owns. -/
theorem Inv.filter_iff {s : Reader} (h : Inv sc src s) {j : Nat} {rec : Record} (hrec : src[s.pos + j]? = some rec) :
    newRecordFilter sc rec (s.count + j + 1) = true ↔ Owns sc src (s.pos + j) := by
  have hsame : newRecordFilter sc rec (s.count + j + 1) = newRecordFilter sc rec (s.pos + j + 1) :=
    newRecordFilter_congr rec fun hline => by
      rw [Nat.add_assoc, Nat.add_assoc, Nat.add_mod, h.aligned hline, ← Nat.add_mod]
  rw [hsame]
  constructor
  · exact fun hf => ⟨rec, hrec, hf⟩
  · rintro ⟨rec', hrec', hf⟩
    obtain rfl : rec = rec' := Option.some.inj (hrec.symm.trans hrec')
    exact hf

theorem Inv.read {s : Reader} (h : Inv sc src s) : Inv sc src (step sc src s .read) := by
  obtain ⟨d, hd, hpos, hret, htake⟩ := readLoop_spec (newRecordFilter sc) (src.drop s.pos) s.pos s.count
  have hb := h.bound
  rw [length_drop] at hd
  have haligned : sc.strategy = .lineModulo → (s.count + d) % sc.total = (s.pos + d) % sc.total := fun hline => by
    rw [Nat.add_mod, h.aligned hline, ← Nat.add_mod]
  -- the records passed over are returned exactly if the shard owns them
  have hnew : ∀ j < d, (Owns sc src (s.pos + j) ↔
      (readLoop (newRecordFilter sc) (src.drop s.pos) s.pos s.count).1 = some (s.pos + j)) := fun j hj => by
    have hrec : src[s.pos + j]? = some (src.get ⟨s.pos + j, by omega⟩) := getElem?_eq_getElem _
    rw [← h.filter_iff hrec]
    exact htake j hj _ (by rw [getElem?_drop]; exact hrec)
  have hstep : step sc src s .read =
      let r := readLoop (newRecordFilter sc) (src.drop s.pos) s.pos s.count
      { s with
        pos := r.2.1, count := r.2.2, session := s.session ++ r.1.toList, returned := s.returned ++ r.1.toList } := by
    unfold step
    rcases readLoop (newRecordFilter sc) (src.drop s.pos) s.pos s.count with ⟨_ | k, pos, count⟩ <;> simp
  simp only [hstep, hpos]
  have hsaved := h.saved
  refine ⟨haligned, by simp only; omega, by simp only; omega, fun k hk => ?_, fun k hk ho => ?_, fun k hk => ?_⟩
  · rcases mem_append.mp hk with hk | hk
    · have := h.session k hk
      simp only
      omega
    · exact (hret k (Option.mem_toList.mp hk)).2
  · by_cases hlt : k < s.pos
    · exact mem_append_left _ (h.covered k hlt ho)
    · obtain ⟨j, rfl⟩ : ∃ j, k = s.pos + j := ⟨k - s.pos, by omega⟩
      exact mem_append_right _ (Option.mem_toList.mpr ((hnew j (by simp only at hk; omega)).mp ho))
  · rcases mem_append.mp hk with hk | hk
    · exact h.owned k hk
    · have hsome := Option.mem_toList.mp hk
      have hbound := hret k hsome
      obtain ⟨j, rfl⟩ : ∃ j, k = s.pos + j := ⟨k - s.pos, by omega⟩
      exact (hnew j (by omega)).mpr hsome

theorem Inv.step (s : Reader) (act : Act) (hok : Orderly sc s act) (h : Inv sc src s) :
    Inv sc src (Sharding.step sc src s act) := by
  cases act with
  | read => exact h.read
  | save k =>
    simp only [Sharding.step]
    split
    · rename_i hk
      exact { h with saved := h.session k hk }
    · exact h
  | restart =>
    have hs := h.saved
    refine ⟨fun hline => ?_, hs.trans h.bound, le_refl _, by simp [Sharding.step], fun k hk => ?_, h.owned⟩
    · simp [Sharding.step, hok hline]
    · exact h.covered k (lt_of_lt_of_le hk hs)

theorem inv_start (sc : ShardConfig) (src : List Record) : Inv sc src {} :=
  ⟨by simp, by simp, by simp, by simp, by simp, by simp⟩

/-- A shard whose readers have come to the end has returned what it owns, and nothing else. -/
theorem mem_returned_iff {acts : List Act} (hok : Steps (Orderly sc) (step sc src) {} acts)
    (hend : src.length ≤ (run (step sc src) {} acts).pos) (k : Nat) :
    k ∈ (run (step sc src) {} acts).returned ↔ Owns sc src k := by
  have h : Inv sc src (run (step sc src) {} acts) :=
    run_invariant_of (Inv sc src) Inv.step (inv_start sc src) hok
  refine ⟨h.owned k, fun ho => h.covered k ?_ ho⟩
  obtain ⟨rec, hrec, -⟩ := ho
  have := (List.getElem?_eq_some_iff.mp hrec).1
  omega

/-- **Sharded reading**: when the readers of all shards have come to the end, every record of the source was returned by
exactly one shard, if every reader resumes at a place where its line count agrees with the source. A run without restarts
is of that kind, and so is every run under `hash_modulo`. -/
theorem sharded_reading_covers (sc : ShardConfig) (htotal : 2 ≤ sc.total)
    (hs : sc.strategy = .lineModulo ∨ sc.strategy = .hashModulo) (src : List Record) (acts : Nat → List Act)
    (hok : ∀ i < sc.total, Steps (Orderly { sc with index := i }) (step { sc with index := i } src) {} (acts i))
    (hend : ∀ i < sc.total, src.length ≤ (run (step { sc with index := i } src) {} (acts i)).pos) :
    ∀ k < src.length,
      ∃! i, i < sc.total ∧ k ∈ (run (step { sc with index := i } src) {} (acts i)).returned := by
  intro k hk
  have hrec : src[k]? = some (src.get ⟨k, hk⟩) := getElem?_eq_getElem hk
  obtain ⟨i, ⟨hi, hf⟩, huniq⟩ := existsUnique_filter (by omega) hs (src.get ⟨k, hk⟩) (k + 1)
  refine ⟨i, ⟨hi, (mem_returned_iff (hok i hi) (hend i hi) k).mpr ⟨_, hrec, hf⟩⟩, ?_⟩
  rintro i' ⟨hi', hmem⟩
  obtain ⟨rec, hrec', hf'⟩ := (mem_returned_iff (hok i' hi') (hend i' hi') k).mp hmem
  obtain rfl : src.get ⟨k, hk⟩ = rec := Option.some.inj (hrec.symm.trans hrec')
  exact huniq i' ⟨hi', hf'⟩

def lines (n : Nat) : List Record := List.replicate n {}

/-- Shard 0 of two saves after the second line and is restarted there; shard 1 reads to the end. -/
def evenRestart : Nat → List Act
  | 0 => [.read, .save 1, .restart, .read]
  | _ => [.read, .read, .read]

theorem restarted_at_even_line :
    (run (step { index := 0, total := 2, strategy := .lineModulo } (lines 3)) {} (evenRestart 0)).saved = 2 ∧
      ∀ k < 3, ∃! i, i < 2 ∧
        k ∈ (run (step { index := i, total := 2, strategy := .lineModulo } (lines 3)) {} (evenRestart i)).returned :=
  ⟨by decide, sharded_reading_covers { total := 2, strategy := .lineModulo } (by decide) (by decide) (lines 3) evenRestart
    (by decide) (by decide)⟩

/-- Shard 1 of two saves after the first line and is restarted there. From then on it takes the lines of shard 0, and the
third line is read by nobody. -/
theorem third_line_lost :
    let s₀ := run (step { index := 0, total := 2, strategy := .lineModulo } (lines 4)) {} [.read, .read, .read]
    let s₁ := run (step { index := 1, total := 2, strategy := .lineModulo } (lines 4)) {}
      [.read, .save 0, .restart, .read, .read, .read]
    s₀.pos = 4 ∧ s₁.pos = 4 ∧ s₀.returned = [1, 3] ∧ s₁.returned = [0, 1, 3] := by
  decide

/-- **A strategy that the reader does not know filters nothing**: a shard that has come to the end, with whatever
restarts, has returned the whole source. -/
theorem unknown_strategy_reads_all (index total : Nat) {strategy : String} (key : String) (src : List Record)
    (acts : List Act) (hs : strategy ∉ ["", "round_robin", "line_modulo", "hash_modulo"])
    (hend : src.length ≤ (run (step (readShardConfig index total strategy key) src) {} acts).pos) (k : Nat) :
    k ∈ (run (step (readShardConfig index total strategy key) src) {} acts).returned ↔ k < src.length := by
  have hname : (readShardConfig index total strategy key).strategy ≠ .lineModulo ∧
      (readShardConfig index total strategy key).strategy ≠ .hashModulo := by
    simp only [readShardConfig]
    split_ifs <;> simp_all
  generalize readShardConfig index total strategy key = sc at hname hend ⊢
  have hall (rec : Record) (n : Nat) : newRecordFilter sc rec n = true := by
    unfold newRecordFilter
    cases hs : sc.strategy <;> simp_all
  have howns : Owns sc src k ↔ k < src.length := by
    simp [Owns, hall, ← Option.isSome_iff_exists]
  have hinv : Inv sc src (run (step sc src) {} acts) :=
    run_invariant _ (fun s a => Inv.step s a (by cases a <;> simp [Orderly, hname.1])) (inv_start sc src)
  exact ⟨fun hk => howns.mp (hinv.owned k hk), fun hk => hinv.covered k (hk.trans_le hend) (howns.mpr hk)⟩

/-- The second line is shard 0's. -/
theorem misspelt_strategy_reads_all : 1 ∈ (run (step (readShardConfig 1 2 "line_modulus" "") (lines 3)) {}
    [.read, .save 0, .restart, .read, .read]).returned :=
  (unknown_strategy_reads_all 1 2 "" (lines 3) _ (by decide) (by decide) 1).mpr (by decide)

end OpenEtl.Sharding
