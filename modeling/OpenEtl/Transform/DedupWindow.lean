import Mathlib.Data.List.Dedup
import Mathlib.Data.List.DropRight
import OpenEtl.Transform.Deduplicate

/-!
# The window of the deduplicator (`transform/router.go:267-329`)

Without a state store the deduplicator knows what is in its ring. A ring is cut at its position: behind it are the older
keys, before it the newer ones, and read in this order they are the keys that were let through last.
-/

namespace OpenEtl.Deduplicate

open List

variable (cfg : Cfg)

/-- `Apply` without a store. `none` is a record whose `Data` is nil; one whose map is empty has a key like any other. -/
def arrive (st : State) : Option Record → State × Option TransformErr
  | none => (st, none)
  | some rec => applyKey cfg {} st (compositeKey cfg rec)

/-- One record after the other, with the keys that were let through, the oldest first. -/
def pass (s : State × List String) (x : Option Record) : State × List String :=
  let (st, err) := arrive cfg s.1 x
  (st, if err = none then s.2 ++ (x.map (compositeKey cfg)).toList else s.2)

def runRecords (xs : List (Option Record)) : State × List String := xs.foldl (pass cfg) ({}, [])

/-- The last `w` distinct keys, each where it stands last. -/
def lastDistinct (w : Nat) (keys : List String) : List String := keys.dedup.rtake w

/-- The ring holds what was let through last; as long as there is room, this is everything. -/
structure Ring (m : Memory) (admitted : List String) : Prop where
  map : ∀ k, k ∈ m.cacheMap ↔ k ∈ m.cache
  nodup : m.cache.Nodup
  length_le : m.cache.length ≤ cfg.windowSize
  pos_lt : m.pos < cfg.windowSize
  parts : ∃ gone older newer, admitted = gone ++ (older ++ newer) ∧ m.cache = newer ++ older ∧ newer.length = m.pos ∧
    (m.cache.length < cfg.windowSize → gone = [] ∧ newer = [])

variable {cfg} {m : Memory} {admitted : List String}

theorem Ring.start : Ring cfg {} [] :=
  ⟨by simp, by simp, by simp, cfg.window_pos, [], [], [], by simp⟩

theorem Ring.lastDistinct_iff (h : Ring cfg m admitted) (k : String) :
    k ∈ lastDistinct cfg.windowSize admitted ↔ k ∈ m.cacheMap := by
  obtain ⟨gone, older, newer, rfl, hcache, -, hroom⟩ := h.parts
  have hnodup : (older ++ newer).Nodup := by
    have := h.nodup
    rw [hcache] at this
    exact perm_append_comm.nodup this
  have hsuffix : older ++ newer <:+ (gone ++ (older ++ newer)).dedup := by
    rw [dedup_append, dedup_eq_self.mpr hnodup]
    exact suffix_union_right _ _
  have hmem : k ∈ older ++ newer ↔ k ∈ m.cacheMap := by
    rw [h.map, hcache, mem_append, mem_append, or_comm]
  have hlen : (older ++ newer).length = m.cache.length := by
    rw [hcache, length_append, length_append, Nat.add_comm]
  unfold lastDistinct
  rcases h.length_le.lt_or_eq with hlt | hfull
  · obtain ⟨rfl, rfl⟩ := hroom hlt
    rw [nil_append, dedup_eq_self.mpr hnodup, rtake, Nat.sub_eq_zero_of_le (by omega), drop_zero, hmem]
  · rw [rtake, ← hfull, ← hlen, ← suffix_iff_eq_drop.mp hsuffix, hmem]

/-- A new key takes the place of the oldest. -/
theorem Ring.add (h : Ring cfg m admitted) {k : String} (hk : k ∉ m.cacheMap) :
    Ring cfg (addKeyLocked cfg m k) (admitted ++ [k]) := by
  have hnew : k ∉ m.cache := by rwa [← h.map]
  have hwindow := cfg.window_pos
  obtain ⟨gone, older, newer, rfl, hcache, hpos, hroom⟩ := h.parts
  unfold addKeyLocked
  split
  · rename_i hlt
    obtain ⟨rfl, rfl⟩ := hroom hlt
    refine ⟨?_, ?_, ?_, h.pos_lt, [], older ++ [k], [], by simp, by simp [hcache], hpos, by simp⟩
    · simp [h.map, or_comm]
    · simpa [nodup_append, h.nodup] using fun a ha => ne_of_mem_of_not_mem ha hnew
    · simp only [length_append, length_singleton]
      omega
  · rename_i hfull
    have hlen := h.length_le
    have hpos' := h.pos_lt
    have hnodup := h.nodup
    rw [hcache] at hnew hnodup hfull hlen
    obtain ⟨o, rest, rfl⟩ : ∃ o rest, older = o :: rest := by
      cases older with
      | nil =>
        simp only [append_nil] at hfull
        omega
      | cons o rest => exact ⟨o, rest, rfl⟩
    have hset : m.cache.set m.pos k = newer ++ k :: rest := by
      rw [hcache, ← hpos, set_append_right _ _ le_rfl, Nat.sub_self, set_cons_zero]
    have hold : m.cache.getD m.pos "" = o := by simp [hcache, ← hpos]
    simp only [mem_append, mem_cons, not_or] at hnew
    simp only [length_append, length_cons] at hlen hfull
    rw [hset, hold]
    refine ⟨fun x => ?_, ?_, ?_, Nat.mod_lt _ hwindow, ?_⟩
    · simp only [mem_filter, mem_cons, h.map, hcache, mem_append, decide_eq_true_eq]
      grind
    · grind
    · simp only [length_append, length_cons]
      omega
    · cases rest with
      | nil =>
        have hw : newer.length + 1 = cfg.windowSize := by
          simp only [length_nil] at hlen hfull
          omega
        exact ⟨gone ++ [o], newer ++ [k], [], by simp, by simp, by simp [← hpos, hw], by simp [hw]⟩
      | cons b rest =>
        simp only [length_cons] at hlen hfull
        refine ⟨gone ++ [o], b :: rest, newer ++ [k], by simp, by simp, ?_, ?_⟩
        · rw [Nat.mod_eq_of_lt (by omega), length_append, length_singleton, hpos]
        · simp only [length_append, length_cons]
          omega

variable {st : State}

theorem arrive_eq (hstore : cfg.store = none) (st : State) (rec : Record) :
    arrive cfg st (some rec) =
      if compositeKey cfg rec ∈ st.memory.cacheMap then (st, some .filtered)
      else (st.add cfg (compositeKey cfg rec), none) := by
  simp [arrive, applyKey, hstore]

theorem Ring.pass (hstore : cfg.store = none) {s : State × List String} (h : Ring cfg s.1.memory s.2)
    (x : Option Record) : Ring cfg (pass cfg s x).1.memory (pass cfg s x).2 := by
  cases x with
  | none => simpa [Deduplicate.pass, arrive] using h
  | some rec =>
    simp only [Deduplicate.pass, arrive_eq hstore]
    split
    · exact h
    · rename_i hnew
      exact h.add hnew

theorem Ring.run (hstore : cfg.store = none) (xs : List (Option Record)) {s : State × List String}
    (h : Ring cfg s.1.memory s.2) :
    Ring cfg (xs.foldl (Deduplicate.pass cfg) s).1.memory (xs.foldl (Deduplicate.pass cfg) s).2 := by
  induction xs generalizing s with
  | nil => exact h
  | cons x xs ih => exact ih (h.pass hstore x)

/-- **The window of the deduplicator**: behind any records, the next one is dropped just if its key is among the last
distinct keys that were let through, as many as the window holds; the ring has no more keys than that and none twice, and
the map has its keys. -/
theorem dropped_iff_among_last (hstore : cfg.store = none) (xs : List (Option Record)) :
    (∀ rec, (arrive cfg (runRecords cfg xs).1 (some rec)).2 =
      if compositeKey cfg rec ∈ lastDistinct cfg.windowSize (runRecords cfg xs).2 then some .filtered else none) ∧
    (runRecords cfg xs).1.memory.cache.length ≤ cfg.windowSize ∧ (runRecords cfg xs).1.memory.cache.Nodup ∧
    ∀ k, k ∈ (runRecords cfg xs).1.memory.cacheMap ↔ k ∈ (runRecords cfg xs).1.memory.cache := by
  have h : Ring cfg (runRecords cfg xs).1.memory (runRecords cfg xs).2 := Ring.start.run hstore xs
  refine ⟨fun rec => ?_, h.length_le, h.nodup, h.map⟩
  simp only [arrive_eq hstore, h.lastDistinct_iff]
  split <;> rfl

theorem ids_ne : ["id"] ≠ [] := by decide

/-- In a window of two, a key that two others have pushed out is let through again. -/
def byId : Cfg := { keys := ["id"], keys_ne := ids_ne, windowSize := 2, window_pos := Nat.two_pos }

def withId (n : Int) : Option Record := some { data := [("id", .int64 n)] }

theorem third_key_evicts_first : byId.store = none ∧
    (arrive byId (runRecords byId [withId 1, withId 2, withId 1, withId 3]).1 (some { data := [("id", .int64 1)] })).2 =
      none := by
  refine ⟨rfl, ?_⟩
  rw [(dropped_iff_among_last rfl _).1]
  decide +kernel

end OpenEtl.Deduplicate
