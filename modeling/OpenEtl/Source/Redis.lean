import OpenEtl.Sink.Relational

/-!
# The scan of the Redis source (`source/redis.go`)

| here | there |
| --- | --- |
| `fetchNextPage` | `redisReader.fetchNextPage` (:158), behind the reply |

A full scan is the list of its pages. SCAN answers with a cursor other than 0 until the last, and every key of a key space
that does not change is on one of them, with a value for `readKey`. A call behind the last page would start the next scan;
it is `none`.
-/

namespace OpenEtl.Source.Redis

open List
open OpenEtl.Sink.Sql (sortStrings)

structure Page where
  keys : List String
  cursor : Nat

structure Reader where
  cursor : Nat := 0
  /-- the keys of the page from `bufIdx` on -/
  buffer : List String := []
  processedCount : Nat := 0
  scanDone : Bool := false
  skipRemaining : Nat := 0

def fetchNextPage (r : Reader) (p : Page) : Reader :=
  let keys := sortStrings p.keys
  let skips := 0 < r.skipRemaining && !keys.isEmpty
  let buffer := if skips then keys.drop r.skipRemaining else keys
  { r with
    cursor := p.cursor
    buffer
    skipRemaining := if skips then r.skipRemaining - keys.length else r.skipRemaining
    scanDone := r.scanDone || (p.cursor = 0 && buffer.isEmpty) }

/-- A reader, and the pages of its scan that are still to come. -/
abbrev Scan := Reader × List Page

/-- The key of a record and its offset, or `errScanDone`. -/
def read (r : Reader) (pages : List Page) : Option (Scan × Option (String × Nat)) :=
  match r.buffer with
  | key :: rest =>
    let n := r.processedCount + 1
    some (({ r with buffer := rest, processedCount := n }, pages), some (key, n))
  | [] =>
    if r.scanDone then some ((r, pages), none)
    else
      match pages with
      | [] => none
      | p :: pages => read (fetchNextPage r p) pages

def readBatch : Nat → Scan → Option (Scan × List (String × Nat))
  | 0, s => some (s, [])
  | n + 1, s =>
    match read s.1 s.2 with
    | none => none
    | some (s, none) => some (s, [])
    | some (s, some rec) => (readBatch n s).map fun out => (out.1, rec :: out.2)

def readBatches : List Nat → Scan → Option (List (String × Nat))
  | [], _ => some []
  | n :: ns, s =>
    match readBatch n s with
    | none => none
    | some (s, recs) => (readBatches ns s).map (recs ++ ·)

def total (ns : List Nat) : Nat := ns.foldr (· + ·) 0

/-- The reader `Open` makes without a checkpoint reads the first page `p`. With enough reads, in batches of any sizes, every
key has been returned and the end of data reported, and no page was asked for behind the last. -/
def Complete (p : Page) (pages : List Page) (keys : List String) : Prop :=
  ∃ enough, ∀ ns : List Nat, enough ≤ total ns → ∃ recs, readBatches ns (fetchNextPage {} p, pages) = some recs ∧
    recs.length < total ns ∧ ∀ k ∈ keys, k ∈ recs.map Prod.fst

/-- The cursor of the last page, and of no other, is 0. -/
def Full (p : Page) : List Page → Prop
  | [] => p.cursor = 0
  | q :: pages => p.cursor ≠ 0 ∧ Full q pages

def lastPage (p : Page) : List Page → Page
  | [] => p
  | q :: pages => lastPage q pages

def left (s : Scan) : List String := s.1.buffer ++ s.2.flatMap (sortStrings ·.keys)

/-- `empty` says whether the last page has no keys: only then does the reader see the end. -/
def Runs (empty : Bool) (s : Scan) : Prop :=
  s.1.skipRemaining = 0 ∧
    match s.2 with
    | [] => s.1.scanDone = empty ∧ (empty = true → s.1.buffer = [])
    | p :: pages => s.1.scanDone = false ∧ Full p pages ∧ (empty = true ↔ (lastPage p pages).keys = [])

variable {empty : Bool} {r : Reader} {p : Page} {pages : List Page} {s : Scan}

@[simp] theorem sortStrings_eq_nil {l : List String} : sortStrings l = [] ↔ l = [] := by
  rw [← length_eq_zero_iff, sortStrings, length_insertionSort, length_eq_zero_iff]

theorem fetchNextPage_buffer (h : r.skipRemaining = 0) : (fetchNextPage r p).buffer = sortStrings p.keys := by
  simp [fetchNextPage, h]

theorem runs_fetch (hskip : r.skipRemaining = 0) (hdone : r.scanDone = false) (hfull : Full p pages)
    (hlast : empty = true ↔ (lastPage p pages).keys = []) : Runs empty (fetchNextPage r p, pages) := by
  refine ⟨by simp [fetchNextPage, hskip], ?_⟩
  cases pages with
  | nil =>
    have hzero : p.cursor = 0 := hfull
    have hkeys : empty = true ↔ p.keys = [] := hlast
    refine ⟨?_, by simp [fetchNextPage_buffer hskip, hkeys]⟩
    rw [Bool.eq_iff_iff, hkeys]
    simp [fetchNextPage, hskip, hdone, hzero]
  | cons q pages => exact ⟨by simp [fetchNextPage, hdone, hfull.1], hfull.2, hlast⟩

/-- With an empty buffer, `Read` takes the next page. -/
theorem read_fetch (hbuf : r.buffer = []) (hdone : r.scanDone = false) :
    read r (p :: pages) = read (fetchNextPage r p) pages := by
  rw [read.eq_def]
  simp [hbuf, hdone]

theorem left_fetch (hskip : r.skipRemaining = 0) (hbuf : r.buffer = []) :
    left (fetchNextPage r p, pages) = left (r, p :: pages) := by
  simp [left, fetchNextPage_buffer hskip, hbuf]

theorem read_buffer {key : String} {rest : List String} (h : Runs empty (r, pages)) (hbuf : r.buffer = key :: rest) :
    ∃ s n, read r pages = some (s, some (key, n)) ∧ Runs empty s ∧ left s = rest ++ left ({}, pages) := by
  refine ⟨_, _, by rw [read.eq_def, hbuf], ?_, rfl⟩
  cases pages with
  | nil => exact ⟨h.1, h.2.1, fun hempty => absurd (h.2.2 hempty) (by simp [hbuf])⟩
  | cons p pages => exact h

/-- `Read` returns the next key. -/
theorem read_key {key : String} {rest : List String} (h : Runs empty (r, pages)) (hleft : left (r, pages) = key :: rest) :
    ∃ s n, read r pages = some (s, some (key, n)) ∧ Runs empty s ∧ left s = rest := by
  induction pages generalizing r with
  | nil =>
    have hbuf : r.buffer = key :: rest := by simpa [left] using hleft
    simpa [left] using read_buffer h hbuf
  | cons p pages ih =>
    cases hbuf : r.buffer with
    | nil =>
      obtain ⟨hskip, hdone, hfull, hlast⟩ := h
      rw [read_fetch hbuf hdone]
      exact ih (runs_fetch hskip hdone hfull hlast) ((left_fetch hskip hbuf).trans hleft)
    | cons key' rest' =>
      simp only [left, hbuf, cons_append, cons.injEq] at hleft
      obtain ⟨rfl, rfl⟩ := hleft
      exact read_buffer h hbuf

/-- Behind the last key it returns the end of the data, or starts the scan again. -/
theorem read_end (h : Runs empty (r, pages)) (hleft : left (r, pages) = []) :
    if empty then ∃ s, read r pages = some (s, none) ∧ Runs empty s ∧ left s = [] else read r pages = none := by
  have hbuf : r.buffer = [] := (append_eq_nil_iff.mp hleft).1
  induction pages generalizing r with
  | nil =>
    rw [read.eq_def, hbuf, h.2.1]
    cases empty with
    | true => exact ⟨_, rfl, h, hleft⟩
    | false => rfl
  | cons p pages ih =>
    obtain ⟨hskip, hdone, hfull, hlast⟩ := h
    rw [← left_fetch hskip hbuf] at hleft
    rw [read_fetch hbuf hdone]
    exact ih (runs_fetch hskip hdone hfull hlast) hleft (append_eq_nil_iff.mp hleft).1

/-- When the last page is empty, a batch has the next keys, as far as there are any. -/
theorem readBatch_next (n : Nat) (h : Runs true s) :
    ∃ s' recs, readBatch n s = some (s', recs) ∧ recs.map Prod.fst = (left s).take n ∧ left s' = (left s).drop n ∧
      Runs true s' := by
  induction n generalizing s with
  | zero => exact ⟨s, [], rfl, by simp, by simp, h⟩
  | succ n ih =>
    cases hleft : left s with
    | nil =>
      obtain ⟨s', hread, hruns, hnil⟩ := read_end h hleft
      exact ⟨s', [], by simp [readBatch, hread], by simp, by simp [hnil], hruns⟩
    | cons k rest =>
      obtain ⟨s1, m, hread, hruns, hrest⟩ := read_key h hleft
      obtain ⟨s', recs, hbatch, hkeys, hdrop, hruns'⟩ := ih hruns
      exact ⟨s', (k, m) :: recs, by simp [readBatch, hread, hbatch], by simp [hkeys, hrest], by simp [hdrop, hrest], hruns'⟩

/-- When it is not, a read behind the last key starts the scan again. -/
theorem readBatch_restarts (n : Nat) (h : Runs false s) (hn : (left s).length < n) : readBatch n s = none := by
  induction n generalizing s with
  | zero => omega
  | succ n ih =>
    cases hleft : left s with
    | nil =>
      have hnone : read s.1 s.2 = none := read_end h hleft
      simp [readBatch, hnone]
    | cons k rest =>
      obtain ⟨s1, m, hread, hruns, hrest⟩ := read_key h hleft
      simp [readBatch, hread, ih hruns (by simp_all)]

theorem readBatches_next (ns : List Nat) (h : Runs true s) :
    ∃ recs, readBatches ns s = some recs ∧ recs.map Prod.fst = (left s).take (total ns) := by
  induction ns generalizing s with
  | nil => exact ⟨[], rfl, by simp [total]⟩
  | cons n ns ih =>
    obtain ⟨s', recs, hbatch, hkeys, hdrop, hruns⟩ := readBatch_next n h
    obtain ⟨recs', hrest, hkeys'⟩ := ih hruns
    refine ⟨recs ++ recs', by simp [readBatches, hbatch, hrest], ?_⟩
    rw [map_append, hkeys, hkeys', hdrop, ← take_add]
    rfl

/-- **The scan ends** just if its last page has no keys. -/
theorem scan_complete_iff (p : Page) (pages : List Page) (keys : List String) (hfull : Full p pages)
    (hkeys : ∀ k ∈ keys, ∃ q ∈ p :: pages, k ∈ q.keys) :
    Complete p pages keys ↔ (lastPage p pages).keys = [] := by
  have hruns (empty : Bool) := @runs_fetch empty {} p pages rfl rfl hfull
  constructor
  · rintro ⟨enough, h⟩
    by_contra hlast
    have hnone := readBatch_restarts (enough + (left (fetchNextPage {} p, pages)).length + 1)
      (hruns false (by simpa using hlast)) (by omega)
    obtain ⟨recs, hrecs, -⟩ := h [enough + (left (fetchNextPage {} p, pages)).length + 1] (by simp [total]; omega)
    simp [readBatches, hnone] at hrecs
  · intro hlast
    refine ⟨(left (fetchNextPage {} p, pages)).length + 1, fun ns hns => ?_⟩
    obtain ⟨recs, hrecs, hmap⟩ := readBatches_next ns (hruns true (by simpa using hlast))
    rw [take_of_length_le (by omega)] at hmap
    have hlen := congrArg length hmap
    rw [length_map] at hlen
    refine ⟨recs, hrecs, by omega, fun k hk => ?_⟩
    obtain ⟨q, hq, hmem⟩ := hkeys k hk
    have hleft : left (fetchNextPage {} p, pages) = (p :: pages).flatMap (sortStrings ·.keys) := by
      simp [left, fetchNextPage_buffer]
    rw [hmap, hleft]
    exact mem_flatMap.mpr ⟨q, hq, (perm_insertionSort _ _).mem_iff.mpr hmem⟩

theorem scan_complete_empty_last : Full ⟨["user:1"], 17⟩ [⟨[], 0⟩] ∧ Complete ⟨["user:1"], 17⟩ [⟨[], 0⟩] ["user:1"] := by
  have hfull : Full ⟨["user:1"], 17⟩ [⟨[], 0⟩] := ⟨by decide, rfl⟩
  exact ⟨hfull, (scan_complete_iff _ _ _ hfull (by simp)).mpr rfl⟩

/-- With keys on its last page, the scan starts again. -/
theorem scan_starts_again : Full ⟨["user:1"], 0⟩ [] ∧ ¬Complete ⟨["user:1"], 0⟩ [] ["user:1"] := by
  refine ⟨rfl, ?_⟩
  rintro ⟨enough, h⟩
  obtain ⟨recs, hrecs, -⟩ := h [enough + 2] (by simp [total])
  simp [readBatches, readBatch, read, fetchNextPage, sortStrings] at hrecs

end OpenEtl.Source.Redis
