import Mathlib.Data.Finset.Lattice.Fold
import Mathlib.Data.Int.ModEq
import Mathlib.Data.List.GetD
import Mathlib.Data.List.Range
import Mathlib.Data.Prod.Lex
import OpenEtl.Lib.Parts
import OpenEtl.Source.Paged

/-!
# The pages of the HTTP source (`source/http.go`)

| here | there |
| --- | --- |
| `HTTPSource.openReader` | `HTTPSource.Open` (:270) |
| `HTTPSource.fetchPage` | `httpReader.fetchPage` (:350) |
| `Job.turn` | a turn of `readLoop`, which retries after an error (pipeline.go:951-1037) |

The page counter is advanced before the page is fetched, and by the number of shards.
-/

namespace OpenEtl.Source.Http

open List Paged

/-- The part of the configuration that paging reads; zero `maxPages` means all pages. -/
structure HTTPSource where
  name : String := "http"
  pagination : String := ""
  pageSize : Nat := 100
  maxPages : Nat := 0
  shardIndex : Nat := 0
  shardTotal : Nat := 0
deriving DecidableEq, Repr

def HTTPSource.paged (src : HTTPSource) : Bool := src.pagination == "page" || src.pagination == ""

def HTTPSource.step (src : HTTPSource) : Nat := if 1 < src.shardTotal then src.shardTotal else 1

def HTTPSource.startPage (src : HTTPSource) : Nat := if 1 < src.shardTotal then src.shardIndex else 0

/-- `Open`, with the page of a checkpoint if there is one. -/
def HTTPSource.openReader (src : HTTPSource) (checkpoint : Option Nat) : Reader Nat :=
  match checkpoint with
  | some page => if 0 < page then ⟨page, page, [], false⟩ else ⟨src.startPage, 0, [], false⟩
  | none => ⟨src.startPage, 0, [], false⟩

def HTTPSource.records (src : HTTPSource) (items : List Paged.Item) : List Record := itemRecords src.name "http" items

/-- A page has come, or `fetchWithRetry` has given up. -/
def HTTPSource.received (src : HTTPSource) (page : Nat) : Except Err (List Paged.Item) → Fetched Nat
  | .error e => { pos := page, result := .error e, last := false }
  | .ok items =>
    { pos := page
      result := .ok (src.records items)
      last := items.isEmpty || decide (items.length < src.pageSize) }

/-- `get` is `fetchWithRetry`, for the URL with this page number or without one. -/
def HTTPSource.fetchPage (src : HTTPSource) (get : Option Nat → Except Err (List Paged.Item)) (page : Nat) : Fetched Nat :=
  if src.paged then
    let page := page + src.step
    if 0 < src.maxPages ∧ src.maxPages < page then { pos := page, result := .ok [], last := true }
    else src.received page (get (some page))
  else src.received page (get none)

/-! ## Reading an endpoint -/

/-- A paginated endpoint and the readers of its shards. -/
structure Job where
  /-- the configuration, up to the shard -/
  base : HTTPSource
  paged : base.paged = true
  shards : Nat
  shards_pos : 0 < shards
  /-- the pages 1, 2, … -/
  pages : List (List Paged.Item)

def Job.source (job : Job) (i : Nat) : HTTPSource := { job.base with shardIndex := i, shardTotal := job.shards }

/-- The items on page `p`; there are none behind the last page. -/
def Job.items (job : Job) (p : Nat) : List Paged.Item := if p = 0 then [] else job.pages.getD (p - 1) []

def Job.records (job : Job) (p : Nat) : List Record := job.base.records (job.items p)

def Job.lastPage (job : Job) : Nat :=
  if job.base.maxPages = 0 then job.pages.length else min job.pages.length job.base.maxPages

/-- A reader, the fetches that are going to fail, and what it has emitted. -/
structure Reading where
  reader : Reader Nat
  faults : List (Option Err)
  emitted : List Record := []
  ended : Bool := false
  /-- the pages that were fetched, for reference -/
  pages : List Nat := []

def Job.nextPage (job : Job) (i : Nat) (s : Reading) : Nat := s.reader.pos + (job.source i).step

/-- The next `Read` makes a request. -/
def Job.asks (job : Job) (i : Nat) (s : Reading) : Bool :=
  decide (s.ended = false ∧ s.reader.buffer = [] ∧ s.reader.done = false ∧
    ¬ (0 < job.base.maxPages ∧ job.base.maxPages < job.nextPage i s))

/-- The error of the next request, if it fails. -/
def Reading.fault (s : Reading) : Option Err := s.faults.head?.join

def Job.get (job : Job) (fault : Option Err) (page : Option Nat) : Except Err (List Paged.Item) :=
  match fault with
  | some e => .error e
  | none => .ok (job.items (page.getD 1))

def Job.turn (job : Job) (i : Nat) (s : Reading) : Reading :=
  if s.ended then s
  else
    let (r, out) := s.reader.read ((job.source i).fetchPage (job.get s.fault))
    { reader := r
      faults := if job.asks i s then s.faults.tail else s.faults
      emitted := s.emitted ++ out.records
      ended := out.isEof
      pages := if job.asks i s && s.fault.isNone then s.pages ++ [job.nextPage i s] else s.pages }

def Job.start (job : Job) (faults : Nat → List (Option Err)) (i : Nat) : Reading :=
  { reader := (job.source i).openReader none, faults := faults i }

/-- The reading of a shard after `n` turns. -/
def Job.after (job : Job) (faults : Nat → List (Option Err)) (n i : Nat) : Reading :=
  (job.turn i)^[n] (job.start faults i)

/-- After some turns all shards have ended, and the records of the pages were emitted exactly once. -/
def Job.Complete (job : Job) (faults : Nat → List (Option Err)) : Prop :=
  ∃ n, (∀ i < job.shards, (job.after faults n i).ended = true) ∧
    ((List.range job.shards).flatMap fun i => (job.after faults n i).emitted).Perm
      ((List.range' 1 job.lastPage).flatMap job.records)

/-! ## The condition -/

/-- There is nothing to be read on this page. -/
def Job.Blank (job : Job) (p : Nat) : Prop := p ≤ job.lastPage → job.records p = []

/-- With several shards the first to be read is the page whose number is that of shards. -/
def Job.NoneBefore (job : Job) : Prop := ∀ p, 0 < p → p < job.shards → job.Blank p

/-- A fetch that fails is that of a blank page; a page that comes has records and is full, or all later
pages of the shard are blank. -/
def Job.Harmless (job : Job) (i : Nat) (s : Reading) : Prop :=
  job.asks i s = true →
    if s.fault.isSome then job.Blank (job.nextPage i s)
    else (job.records (job.nextPage i s) ≠ [] ∧ job.base.pageSize ≤ (job.items (job.nextPage i s)).length) ∨
      ∀ k, 0 < k → job.Blank (job.nextPage i s + k * (job.source i).step)

/-! ## One turn -/

variable {job : Job} {i : Nat} {s s' : Reading} {faults : Nat → List (Option Err)}

inductive Job.Turned (job : Job) (i : Nat) (s : Reading) : Reading → Prop
  /-- nothing, once the reading has ended -/
  | still (ended : s.ended = true) : Job.Turned job i s s
  /-- a record is taken from the buffer -/
  | pops (record : Record) (rest : List Record) (ended : s.ended = false)
      (buffer : s.reader.buffer = record :: rest) :
      Job.Turned job i s { s with reader := s.reader.pop rest, emitted := s.emitted ++ [record] }
  /-- the reader is done -/
  | stops (ended : s.ended = false) (buffer : s.reader.buffer = []) (done : s.reader.done = true) :
      Job.Turned job i s { s with ended := true }
  /-- the next page is beyond `max_pages` -/
  | exceeds (ended : s.ended = false) (buffer : s.reader.buffer = []) (done : s.reader.done = false)
      (limit : 0 < job.base.maxPages) (beyond : job.base.maxPages < job.nextPage i s) :
      Job.Turned job i s
        { s with reader := { s.reader with pos := job.nextPage i s, done := true }, ended := true }
  /-- the fetch fails -/
  | fails (asks : job.asks i s = true) (fault : s.fault.isSome = true) :
      Job.Turned job i s
        { s with reader := { s.reader with pos := job.nextPage i s }, faults := s.faults.tail }
  /-- a page with records comes -/
  | reads (asks : job.asks i s = true) (fault : s.fault = none) (record : Record) (rest : List Record)
      (records : job.records (job.nextPage i s) = record :: rest) (r : Reader Nat)
      (pos : r.pos = job.nextPage i s) (buffer : r.buffer = rest)
      (done : r.done = decide ((job.items (job.nextPage i s)).length < job.base.pageSize)) :
      Job.Turned job i s
        { s with
          reader := r
          faults := s.faults.tail
          emitted := s.emitted ++ [record]
          pages := s.pages ++ [job.nextPage i s] }
  /-- a page without records comes, and ends the reading -/
  | gives (asks : job.asks i s = true) (fault : s.fault = none)
      (records : job.records (job.nextPage i s) = []) :
      Job.Turned job i s
        { s with
          reader := { s.reader with pos := job.nextPage i s, done := true }
          faults := s.faults.tail
          ended := true
          pages := s.pages ++ [job.nextPage i s] }

/-! ## The pages of a shard -/

theorem source_step (job : Job) (i : Nat) : (job.source i).step = job.shards := by
  have hpos := job.shards_pos
  by_cases h : 1 < job.shards
  · exact if_pos h
  · have hone : job.shards = 1 := by omega
    rw [hone]
    exact if_neg h

theorem startPage_eq (h : i < job.shards) : (job.source i).startPage = i := by
  by_cases hmore : 1 < job.shards
  · exact if_pos hmore
  · have hzero : i = 0 := by omega
    rw [hzero]
    exact if_neg hmore

theorem nextPage_eq (job : Job) (i : Nat) (s : Reading) : job.nextPage i s = s.reader.pos + job.shards := by
  rw [Job.nextPage, source_step]

variable {p : Nat}

theorem items_ne_nil (h : job.records p ≠ []) : job.items p ≠ [] := by
  intro hnil
  apply h
  rw [Job.records, hnil]
  rfl

/-- Only pages there are have records. -/
theorem le_length_of_records (h : job.records p ≠ []) : 0 < p ∧ p ≤ job.pages.length := by
  have hitems := items_ne_nil h
  by_cases hzero : p = 0
  · rw [Job.items, if_pos hzero] at hitems
    exact absurd rfl hitems
  by_cases hle : p ≤ job.pages.length
  · exact ⟨by omega, hle⟩
  · rw [Job.items, if_neg hzero, getD_eq_default _ _ (by omega)] at hitems
    exact absurd rfl hitems

theorem le_lastPage (h : job.records p ≠ []) (hmax : job.base.maxPages = 0 ∨ p ≤ job.base.maxPages) :
    p ≤ job.lastPage := by
  have hle := (le_length_of_records h).2
  rw [Job.lastPage]
  split
  · exact hle
  · exact le_min hle (by omega)

theorem blank_of_beyond (hlimit : 0 < job.base.maxPages) (h : job.base.maxPages < p) : job.Blank p := by
  intro hle
  rw [Job.lastPage, if_neg (by omega)] at hle
  omega

variable {q : Nat}

/-- Pages of one shard that differ are at least a whole round apart. -/
theorem add_shards_le (job : Job) (hmod : p % job.shards = q % job.shards) (hlt : p < q) : p + job.shards ≤ q := by
  have hdvd : job.shards ∣ q - p := (Nat.modEq_iff_dvd' hlt.le).mp hmod
  have hle := Nat.le_of_dvd (by omega) hdvd
  omega

theorem exists_later (job : Job) (hmod : p % job.shards = q % job.shards) (hlt : p < q) :
    ∃ k, 0 < k ∧ q = p + k * job.shards := by
  obtain ⟨k, hk⟩ : job.shards ∣ q - p := (Nat.modEq_iff_dvd' hlt.le).mp hmod
  refine ⟨k, ?_, by rw [Nat.mul_comm]; omega⟩
  by_contra hzero
  have hk0 : k = 0 := by omega
  rw [hk0] at hk
  omega

/-! ## What a turn does -/

theorem asks_iff : job.asks i s = true ↔ s.ended = false ∧ s.reader.buffer = [] ∧ s.reader.done = false ∧
    ¬ (0 < job.base.maxPages ∧ job.base.maxPages < job.nextPage i s) := by
  rw [Job.asks, decide_eq_true_eq]

theorem turn_eq (h : s.ended = false) {r : Reader Nat} {out : Outcome}
    (hread : s.reader.read ((job.source i).fetchPage (job.get s.fault)) = (r, out)) :
    job.turn i s =
      { reader := r
        faults := if job.asks i s then s.faults.tail else s.faults
        emitted := s.emitted ++ out.records
        ended := out.isEof
        pages := if job.asks i s && s.fault.isNone then s.pages ++ [job.nextPage i s] else s.pages } := by
  rw [Job.turn, if_neg (by simp [h]), hread]

/-- `Read` of a reader that asks. -/
theorem read_eq (h : job.asks i s = true) :
    (job.source i).fetchPage (job.get s.fault) s.reader.pos =
      (job.source i).received (job.nextPage i s) (job.get s.fault (some (job.nextPage i s))) := by
  obtain ⟨-, -, -, hmax⟩ := asks_iff.mp h
  have hpaged : (job.source i).paged = true := job.paged
  simp only [HTTPSource.fetchPage, hpaged]
  exact if_neg hmax

theorem Job.turned_of_asks (h : job.asks i s = true) : job.Turned i s (job.turn i s) := by
  obtain ⟨hended, hbuf, hdone, -⟩ := asks_iff.mp h
  have hfetch := read_eq h
  cases hfault : s.fault with
  | some e =>
    rw [hfault] at hfetch
    have hread := read_failed (f := (job.source i).fetchPage (job.get (some e))) hbuf hdone
      (by rw [hfetch]; rfl)
    rw [← hfault] at hread
    have hturn : job.turn i s =
        { s with reader := { s.reader with pos := job.nextPage i s }, faults := s.faults.tail } := by
      rw [turn_eq hended hread, hfault, hfetch]
      simp [h, hended, Outcome.records, Outcome.isEof, Reader.fetched, Job.get, HTTPSource.received]
    rw [hturn]
    exact .fails h (by simp [hfault])
  | none =>
    rw [hfault] at hfetch
    have hresult : ((job.source i).fetchPage (job.get none) s.reader.pos).result =
        .ok (job.records (job.nextPage i s)) := by
      rw [hfetch]
      rfl
    cases hrec : job.records (job.nextPage i s) with
    | nil =>
      rw [hrec] at hresult
      have hread := read_empty hbuf hdone hresult
      rw [← hfault] at hread
      have hturn : job.turn i s =
          { s with
            reader := { s.reader with pos := job.nextPage i s, done := true }
            faults := s.faults.tail
            ended := true
            pages := s.pages ++ [job.nextPage i s] } := by
        rw [turn_eq hended hread, hfault, hfetch]
        simp [h, Outcome.records, Outcome.isEof, Job.get, HTTPSource.received]
      rw [hturn]
      exact .gives h hfault hrec
    | cons record rest =>
      rw [hrec] at hresult
      have hread := read_page hbuf hdone hresult
      rw [← hfault] at hread
      have hturned := Job.Turned.reads h hfault record rest hrec
        ((s.reader.fetched ((job.source i).fetchPage (job.get none) s.reader.pos)).pop rest)
        (by rw [hfetch]; rfl) rfl ?_
      · rw [turn_eq hended hread, hfault]
        simpa [h, hended, Outcome.records, Outcome.isEof] using hturned
      · have hne : job.items (job.nextPage i s) ≠ [] := items_ne_nil (by rw [hrec]; exact cons_ne_nil _ _)
        rw [hfetch]
        have hempty : (job.items (job.nextPage i s)).isEmpty = false := by simpa using hne
        simp only [Reader.pop, Reader.fetched, HTTPSource.received, Job.get, hdone, Option.getD_some, hempty,
          Bool.false_or]
        rfl

theorem turn_cases (job : Job) (i : Nat) (s : Reading) : job.Turned i s (job.turn i s) := by
  by_cases hasks : job.asks i s = true
  · exact Job.turned_of_asks hasks
  have hasks : job.asks i s = false := by simpa using hasks
  by_cases hended : s.ended = true
  · have hturn : job.turn i s = s := by simp [Job.turn, hended]
    rw [hturn]
    exact .still hended
  have hended : s.ended = false := by simpa using hended
  cases hbuf : s.reader.buffer with
  | cons record rest =>
    rw [turn_eq hended (read_buffered hbuf), hasks]
    have hturned : job.Turned i s { s with reader := s.reader.pop rest, emitted := s.emitted ++ [record] } :=
      .pops record rest hended hbuf
    rwa [hended] at hturned
  | nil =>
    by_cases hdone : s.reader.done = true
    · have hturn : job.turn i s = { s with ended := true } := by
        rw [turn_eq hended (read_done hbuf hdone)]
        simp [hasks, Outcome.records, Outcome.isEof]
      rw [hturn]
      exact .stops hended hbuf hdone
    have hdone : s.reader.done = false := by simpa using hdone
    obtain ⟨hlimit, hbeyond⟩ : 0 < job.base.maxPages ∧ job.base.maxPages < job.nextPage i s := by
      by_contra hmax
      rw [asks_iff.mpr ⟨hended, hbuf, hdone, hmax⟩] at hasks
      exact Bool.noConfusion hasks
    have hpaged : (job.source i).paged = true := job.paged
    have hfetch : (job.source i).fetchPage (job.get s.fault) s.reader.pos =
        { pos := job.nextPage i s, result := .ok [], last := true } := by
      simp only [HTTPSource.fetchPage, hpaged, if_true]
      exact if_pos ⟨hlimit, hbeyond⟩
    have hturn : job.turn i s =
        { s with reader := { s.reader with pos := job.nextPage i s, done := true }, ended := true } := by
      rw [turn_eq hended (read_empty hbuf hdone (by rw [hfetch])), hfetch]
      simp [hasks, Outcome.records, Outcome.isEof]
    rw [hturn]
    exact .exceeds hended hbuf hdone hlimit hbeyond

/-! ## What a reading keeps -/

/-- What was emitted, and what is in the buffer, are the records of the pages that were read. -/
structure Inv (job : Job) (i : Nat) (s : Reading) : Prop where
  content : s.emitted ++ s.reader.buffer = s.pages.flatMap job.records
  pos : s.reader.pos % job.shards = i
  sorted : s.pages.Pairwise (· < ·)
  passed : ∀ p ∈ s.pages, p ≤ s.reader.pos
  own : ∀ p ∈ s.pages, p % job.shards = i ∧ job.shards ≤ p
  limited : ∀ p ∈ s.pages, job.base.maxPages = 0 ∨ p ≤ job.base.maxPages
  ended : s.ended = true → s.reader.buffer = [] ∧ s.reader.done = true

section

variable (h : Inv job i s)

include h

theorem Inv.next_mod : job.nextPage i s % job.shards = i := by
  rw [nextPage_eq, Nat.add_mod_right, h.pos]

theorem Inv.passed_next : ∀ p ∈ s.pages, p < job.nextPage i s := by
  intro p hp
  have hle := h.passed p hp
  have hpos := job.shards_pos
  rw [nextPage_eq]
  omega

theorem Inv.passed_append : ∀ p ∈ s.pages ++ [job.nextPage i s], p ≤ job.nextPage i s := by
  intro p hp
  rcases mem_append.mp hp with hp | hp
  · exact (h.passed_next p hp).le
  · exact (mem_singleton.mp hp).le

theorem Inv.came (hasks : job.asks i s = true) (hpages : s'.pages = s.pages ++ [job.nextPage i s])
    (hpos : s'.reader.pos = job.nextPage i s)
    (hcontent : s'.emitted ++ s'.reader.buffer = s.emitted ++ job.records (job.nextPage i s))
    (hended : s'.ended = true → s'.reader.buffer = [] ∧ s'.reader.done = true) : Inv job i s' := by
  obtain ⟨-, hempty, -, hmax⟩ := asks_iff.mp hasks
  have hread := h.content
  rw [hempty, append_nil] at hread
  refine ⟨by rw [hcontent, hread, hpages]; simp, hpos ▸ h.next_mod, ?_, hpages ▸ hpos ▸ h.passed_append, ?_, ?_, hended⟩ <;>
    rw [hpages]
  · refine pairwise_append.mpr ⟨h.sorted, pairwise_singleton _ _, fun p hp q hq => ?_⟩
    rw [mem_singleton.mp hq]
    exact h.passed_next p hp
  · refine forall_mem_append.mpr ⟨h.own, forall_mem_singleton.mpr ⟨h.next_mod, ?_⟩⟩
    rw [nextPage_eq]
    omega
  · exact forall_mem_append.mpr ⟨h.limited, forall_mem_singleton.mpr (by omega)⟩

theorem Inv.turned (ht : job.Turned i s s') : Inv job i s' := by
  have hcontent := h.content
  cases ht with
  | still _ => exact h
  | pops record rest hended hbuf =>
    refine { h with content := ?_, ended := ?_ }
    · rw [hbuf] at hcontent
      rw [append_assoc]
      exact hcontent
    · intro hend
      rw [hended] at hend
      exact absurd hend Bool.false_ne_true
  | stops hended hbuf hdone => exact { h with ended := fun _ => ⟨hbuf, hdone⟩ }
  | exceeds hended hbuf hdone hlimit hbeyond =>
    exact { h with
      pos := h.next_mod
      passed := fun p hp => (h.passed_next p hp).le
      ended := fun _ => ⟨hbuf, rfl⟩ }
  | fails hasks hfault =>
    exact { h with
      pos := h.next_mod
      passed := fun p hp => (h.passed_next p hp).le
      ended := fun hend => by
        rw [(asks_iff.mp hasks).1] at hend
        exact absurd hend Bool.false_ne_true }
  | reads hasks hfault record rest hrec r hpos hbuf hdone =>
    refine h.came hasks rfl hpos (by simp [hbuf, hrec]) fun hend => ?_
    rw [(asks_iff.mp hasks).1] at hend
    exact absurd hend Bool.false_ne_true
  | gives hasks hfault hrec =>
    have hempty := (asks_iff.mp hasks).2.1
    exact h.came hasks rfl rfl (by simp [hempty, hrec]) fun _ => ⟨hempty, rfl⟩

end

theorem Inv.start (hi : i < job.shards) : Inv job i (job.start faults i) where
  content := rfl
  pos := by
    have hstart : (job.start faults i).reader.pos = i := startPage_eq hi
    rw [hstart, Nat.mod_eq_of_lt hi]
  sorted := List.Pairwise.nil
  passed := fun p hp => absurd hp not_mem_nil
  own := fun p hp => absurd hp not_mem_nil
  limited := fun p hp => absurd hp not_mem_nil
  ended := fun h => absurd h Bool.false_ne_true

theorem after_succ (job : Job) (faults : Nat → List (Option Err)) (n i : Nat) :
    job.after faults (n + 1) i = job.turn i (job.after faults n i) :=
  Function.iterate_succ_apply' _ _ _

theorem inv_after (faults : Nat → List (Option Err)) (hi : i < job.shards) (n : Nat) : Inv job i (job.after faults n i) := by
  induction n with
  | zero => exact Inv.start hi
  | succ n ih =>
    rw [after_succ]
    exact ih.turned (turn_cases job i _)

theorem turn_ended (h : s.ended = true) : job.turn i s = s := by
  simp [Job.turn, h]

variable {m n : Nat}

theorem after_of_ended (h : (job.after faults n i).ended = true) (hle : n ≤ m) :
    job.after faults m i = job.after faults n i := by
  induction m, hle using Nat.le_induction with
  | base => rfl
  | succ m hle ih =>
    rw [after_succ, ih]
    exact turn_ended h

/-! ## Lost pages -/

/-- The counter has passed the page, or the reader is done, and the page was not read. -/
def Lost (s : Reading) (q : Nat) : Prop := q ∉ s.pages ∧ (q ≤ s.reader.pos ∨ s.reader.done = true)

theorem Lost.turned (h : Lost s q) (ht : job.Turned i s s') : Lost s' q := by
  obtain ⟨hout, hpast⟩ := h
  have hpos := job.shards_pos
  have hnext := nextPage_eq job i s
  -- a page comes only if the reader is not done, and its number is greater than the counter
  have hnew : job.asks i s = true → q ∉ s.pages ++ [job.nextPage i s] ∧ q ≤ s.reader.pos := by
    intro hasks
    obtain ⟨-, -, hdone, -⟩ := asks_iff.mp hasks
    have hle : q ≤ s.reader.pos := by
      rcases hpast with hle | hend
      · exact hle
      · rw [hdone] at hend
        exact absurd hend Bool.false_ne_true
    refine ⟨?_, hle⟩
    intro hq
    rcases mem_append.mp hq with hq | hq
    · exact hout hq
    · have heq := mem_singleton.mp hq
      omega
  cases ht with
  | still _ => exact ⟨hout, hpast⟩
  | pops record rest hended hbuf => exact ⟨hout, hpast⟩
  | stops hended hbuf hdone => exact ⟨hout, hpast⟩
  | exceeds hended hbuf hdone hlimit hbeyond => exact ⟨hout, .inr rfl⟩
  | fails hasks hfault =>
    have hle := (hnew hasks).2
    exact ⟨hout, .inl (by show q ≤ job.nextPage i s; omega)⟩
  | reads hasks hfault record rest hrec r hpos' hbuf hdone =>
    obtain ⟨hout, hle⟩ := hnew hasks
    exact ⟨hout, .inl (by show q ≤ r.pos; omega)⟩
  | gives hasks hfault hrec => exact ⟨(hnew hasks).1, .inr rfl⟩

theorem lost_after (h : Lost (job.after faults n i) q) (hle : n ≤ m) : Lost (job.after faults m i) q := by
  induction m, hle using Nat.le_induction with
  | base => exact h
  | succ m hle ih =>
    rw [after_succ]
    exact ih.turned (turn_cases job i _)

/-- A page whose fetch fails is lost; a page that is short or has no records is the last the reader fetches. -/
theorem lost_of_asks (h : Inv job i s) (ht : job.Turned i s s') (hasks : job.asks i s = true) :
    (s.fault.isSome = true → Lost s' (job.nextPage i s)) ∧
      (s.fault.isSome = false →
        ¬ (job.records (job.nextPage i s) ≠ [] ∧ job.base.pageSize ≤ (job.items (job.nextPage i s)).length) →
          ∀ q, job.nextPage i s < q → Lost s' q) := by
  have hout : ∀ q, job.nextPage i s < q → q ∉ s.pages ++ [job.nextPage i s] := fun q hq hmem =>
    absurd (h.passed_append q hmem) (by omega)
  obtain ⟨hended, hbuf, hdone, hmax⟩ := asks_iff.mp hasks
  cases ht with
  | still hend => simp [hended] at hend
  | pops record rest _ hcons => simp [hbuf] at hcons
  | stops _ _ hend => simp [hdone] at hend
  | exceeds _ _ _ hlimit hbeyond => exact absurd ⟨hlimit, hbeyond⟩ hmax
  | fails _ hsome =>
    exact ⟨fun _ => ⟨fun hmem => absurd (h.passed_next _ hmem) (lt_irrefl _), .inl le_rfl⟩, by simp [hsome]⟩
  | reads _ hnone record rest hrec r _ _ hdone' =>
    refine ⟨by simp [hnone], fun _ hlast q hq => ⟨hout q hq, .inr ?_⟩⟩
    show r.done = true
    rw [hdone', decide_eq_true_eq]
    by_contra hfull
    exact hlast ⟨by rw [hrec]; exact cons_ne_nil _ _, by omega⟩
  | gives _ hnone => exact ⟨by simp [hnone], fun _ _ q hq => ⟨hout q hq, .inr rfl⟩⟩

/-! ## Covered pages -/

/-- Nothing was lost: each page of the shard that the counter has passed, or that is left when the reader
is done, was read or is blank. -/
def Covered (job : Job) (i : Nat) (s : Reading) : Prop :=
  ∀ q, q % job.shards = i → job.shards ≤ q → (q ≤ s.reader.pos ∨ s.reader.done = true) →
    q ∈ s.pages ∨ job.Blank q

/-- A page of the shard up to the next one was passed before, or is the next. -/
theorem Inv.le_next (h : Inv job i s) (hmod : q % job.shards = i) (hq : q ≤ job.nextPage i s) :
    q ≤ s.reader.pos ∨ q = job.nextPage i s := by
  by_cases hle : q ≤ s.reader.pos
  · exact .inl hle
  · have hfar := add_shards_le job (h.pos.trans hmod.symm) (by omega)
    rw [nextPage_eq] at hq ⊢
    exact .inr (by omega)

/-- With the next page read, what is left to look at are the later pages of the shard. -/
theorem Covered.fetched (hcov : Covered job i s) (h : Inv job i s) (hmod : q % job.shards = i) (hq : job.shards ≤ q)
    (hlater : job.nextPage i s < q → ∀ k, 0 < k → q = job.nextPage i s + k * job.shards → job.Blank q) :
    q ∈ s.pages ++ [job.nextPage i s] ∨ job.Blank q := by
  by_cases hle : q ≤ job.nextPage i s
  · rcases h.le_next hmod hle with hle | rfl
    · exact (hcov q hmod hq (.inl hle)).imp_left (mem_append_left _)
    · exact .inl (mem_append_right _ (mem_singleton_self _))
  · have hlt : job.nextPage i s < q := by omega
    obtain ⟨k, hk, hqk⟩ := exists_later job (h.next_mod.trans hmod.symm) hlt
    exact .inr (hlater hlt k hk hqk)

theorem Covered.turned (hcov : Covered job i s) (h : Inv job i s) (hharm : job.Harmless i s)
    (ht : job.Turned i s s') : Covered job i s' := by
  have hmore := source_step job i
  cases ht with
  | still _ => exact hcov
  | pops record rest hended hbuf => exact hcov
  | stops hended hbuf hdone => exact hcov
  | exceeds hended hbuf hdone hlimit hbeyond =>
    intro q hmod hq _
    by_cases hle : q ≤ s.reader.pos
    · exact hcov q hmod hq (.inl hle)
    · have hfar := add_shards_le job (h.pos.trans hmod.symm) (by omega)
      rw [nextPage_eq] at hbeyond
      exact .inr (blank_of_beyond hlimit (by omega))
  | fails hasks hfault =>
    obtain ⟨-, -, hdone, -⟩ := asks_iff.mp hasks
    have hblank := hharm hasks
    rw [if_pos hfault] at hblank
    intro q hmod hq hpast
    have hle : q ≤ job.nextPage i s := by
      rcases hpast with hle | hend
      · exact hle
      · exact absurd (hdone.symm.trans hend) Bool.false_ne_true
    rcases h.le_next hmod hle with hle | rfl
    · exact hcov q hmod hq (.inl hle)
    · exact .inr hblank
  | reads hasks hfault record rest hrec r hpos hbuf hdone =>
    have hlater := hharm hasks
    rw [if_neg (by simp [hfault])] at hlater
    intro q hmod hq hpast
    refine hcov.fetched h hmod hq fun hlt k hk hqk => ?_
    have hshort : r.done = true := by
      rcases hpast with hle | hend
      · exact absurd (hpos ▸ hle) (by omega)
      · exact hend
    rw [hdone, decide_eq_true_eq] at hshort
    rcases hlater with ⟨-, hfull⟩ | hlater
    · omega
    · rw [hqk, ← hmore]
      exact hlater k hk
  | gives hasks hfault hrec =>
    have hlater := hharm hasks
    rw [if_neg (by simp [hfault])] at hlater
    intro q hmod hq _
    refine hcov.fetched h hmod hq fun _ k hk hqk => ?_
    rcases hlater with ⟨hrec', -⟩ | hlater
    · exact absurd hrec hrec'
    · rw [hqk, ← hmore]
      exact hlater k hk

theorem covered_after (hi : i < job.shards) (h : ∀ n, job.Harmless i (job.after faults n i)) (n : Nat) :
    Covered job i (job.after faults n i) := by
  induction n with
  | zero =>
    -- no page of the shard is at or before its start
    intro q hmod hq hpast
    have hle : q ≤ i := by
      rcases hpast with hle | hend
      · exact hle.trans_eq (startPage_eq hi)
      · exact absurd hend Bool.false_ne_true
    omega
  | succ n ih =>
    rw [after_succ]
    exact ih.turned (inv_after faults hi n) (h n) (turn_cases job i _)

/-! ## The end of a reading -/

/-- Fetches that may fail and pages to come, then records in the buffer. -/
def Job.left (job : Job) (s : Reading) : Lex (Nat × Nat) :=
  toLex (s.faults.length + (job.pages.length - s.reader.pos), s.reader.buffer.length)

theorem left_lt (ht : job.Turned i s s') (h : s'.ended = false) : job.left s' < job.left s := by
  have hpos := job.shards_pos
  have hnext := nextPage_eq job i s
  have hlex {a b c d : Nat} (hlt : a < b ∨ a = b ∧ c < d) : toLex (a, c) < toLex (b, d) :=
    Prod.Lex.toLex_lt_toLex.mpr hlt
  cases ht with
  | still hend => exact absurd (h.symm.trans hend) Bool.false_ne_true
  | pops record rest hended hbuf =>
    refine hlex (.inr ⟨rfl, ?_⟩)
    rw [hbuf]
    exact Nat.lt_succ_self _
  | stops hended hbuf hdone => exact absurd h.symm Bool.false_ne_true
  | exceeds hended hbuf hdone hlimit hbeyond => exact absurd h.symm Bool.false_ne_true
  | fails hasks hfault =>
    refine hlex (.inl ?_)
    have hfaults : s.faults ≠ [] := by
      intro hnil
      simp [Reading.fault, hnil] at hfault
    have hlen := length_pos_of_ne_nil hfaults
    show s.faults.tail.length + (job.pages.length - job.nextPage i s) < _
    rw [length_tail]
    omega
  | reads hasks hfault record rest hrec r hpos' hbuf hdone =>
    refine hlex (.inl ?_)
    have hle : job.nextPage i s ≤ job.pages.length :=
      (le_length_of_records (by rw [hrec]; exact cons_ne_nil _ _)).2
    show s.faults.tail.length + (job.pages.length - r.pos) < _
    rw [length_tail]
    omega
  | gives hasks hfault hrec => exact absurd h.symm Bool.false_ne_true

theorem exists_ended (job : Job) (i : Nat) (s : Reading) : ∃ n, ((job.turn i)^[n] s).ended = true := by
  induction hl : job.left s using WellFoundedLT.induction generalizing s with
  | ind l ih =>
    by_cases hend : (job.turn i s).ended = true
    · exact ⟨1, hend⟩
    · obtain ⟨n, hn⟩ := ih _ (hl ▸ left_lt (turn_cases job i s) (by simpa using hend)) (job.turn i s) rfl
      exact ⟨n + 1, hn⟩

theorem exists_all_ended (job : Job) (faults : Nat → List (Option Err)) :
    ∃ n, ∀ i < job.shards, (job.after faults n i).ended = true := by
  choose count hcount using fun i => exists_ended job i (job.start faults i)
  refine ⟨(Finset.range job.shards).sup count, ?_⟩
  intro i hi
  have hle : count i ≤ (Finset.range job.shards).sup count := Finset.le_sup (Finset.mem_range.mpr hi)
  rw [after_of_ended (hcount i) hle]
  exact hcount i

/-! ## All shards together -/

def Job.pagesRead (job : Job) (faults : Nat → List (Option Err)) (n : Nat) : List Nat :=
  (List.range job.shards).flatMap fun i => (job.after faults n i).pages

theorem mem_pagesRead : p ∈ job.pagesRead faults n ↔ p ∈ (job.after faults n (p % job.shards)).pages := by
  have hlt := Nat.mod_lt p job.shards_pos
  rw [Job.pagesRead, mem_flatMap]
  constructor
  · rintro ⟨i, hi, hp⟩
    rw [((inv_after faults (mem_range.mp hi) n).own p hp).1]
    exact hp
  · intro hp
    exact ⟨_, mem_range.mpr hlt, hp⟩

theorem nodup_pagesRead (n : Nat) : (job.pagesRead faults n).Nodup := by
  refine nodup_flatMap.mpr ⟨fun i hi => ?_, ?_⟩
  · exact (inv_after faults (mem_range.mp hi) n).sorted.imp fun hlt => hlt.ne
  · refine nodup_range.imp_of_mem ?_
    intro i j hi hj hne p hpi hpj
    apply hne
    rw [← ((inv_after faults (mem_range.mp hi) n).own p hpi).1,
      ← ((inv_after faults (mem_range.mp hj) n).own p hpj).1]

/-- What the shards have emitted in the end. -/
theorem emitted_eq (h : ∀ i < job.shards, (job.after faults n i).ended = true) :
    ((range job.shards).flatMap fun i => (job.after faults n i).emitted) =
      (job.pagesRead faults n).flatMap job.records := by
  rw [Job.pagesRead, flatMap_assoc]
  refine flatMap_congr fun i hi => ?_
  have hi := mem_range.mp hi
  have hinv := inv_after faults hi n
  rw [← hinv.content, (hinv.ended (h i hi)).1, append_nil]

theorem perm_iff (h : ∀ i < job.shards, (job.after faults n i).ended = true) :
    ((range job.shards).flatMap fun i => (job.after faults n i).emitted).Perm
        ((range' 1 job.lastPage).flatMap job.records) ↔
      ∀ p, 0 < p → ¬ job.Blank p → p ∈ job.pagesRead faults n := by
  have hread : ∀ p ∈ job.pagesRead faults n, job.records p ≠ [] → p ∈ range' 1 job.lastPage := by
    intro p hp hne
    have hinv := inv_after faults (Nat.mod_lt p job.shards_pos) n
    have hle := le_lastPage hne (hinv.limited p (mem_pagesRead.mp hp))
    have hpos := (le_length_of_records hne).1
    exact mem_range'_1.mpr ⟨hpos, by omega⟩
  rw [emitted_eq h, Parts.flatMap_perm_iff (nodup_pagesRead n) nodup_range' hread]
  constructor
  · intro hall p hpos hblank
    obtain ⟨hle, hne⟩ := Classical.not_imp.mp hblank
    exact hall p (mem_range'_1.mpr ⟨hpos, by omega⟩) hne
  · intro hall p hp hne
    have hrange := mem_range'_1.mp hp
    exact hall p hrange.1 fun hblank => hne (hblank (by omega))

theorem complete_of_harmless (hnone : job.NoneBefore)
    (h : ∀ i < job.shards, ∀ n, job.Harmless i (job.after faults n i)) : job.Complete faults := by
  obtain ⟨n, hn⟩ := exists_all_ended job faults
  refine ⟨n, hn, (perm_iff hn).mpr ?_⟩
  intro p hpos hblank
  have hi := Nat.mod_lt p job.shards_pos
  have hshards : job.shards ≤ p := by
    by_contra hlt
    exact hblank (hnone p hpos (by omega))
  have hdone := ((inv_after faults hi n).ended (hn _ hi)).2
  rcases covered_after hi (h _ hi) n p rfl hshards (.inr hdone) with hp | hp
  · exact mem_pagesRead.mpr hp
  · exact absurd hp hblank

/-- A page that is lost at some time is not blank only if the reading is incomplete. -/
theorem blank_of_lost (hn : ∀ i < job.shards, (job.after faults n i).ended = true)
    (hall : ∀ p, 0 < p → ¬ job.Blank p → p ∈ job.pagesRead faults n) (hi : i < job.shards) (hpos : 0 < q)
    (hmod : q % job.shards = i) (hlost : Lost (job.after faults m i) q) : job.Blank q := by
  by_contra hblank
  have hmem := mem_pagesRead.mp (hall q hpos hblank)
  rw [hmod] at hmem
  rcases Nat.le_total m n with hle | hle
  · exact (lost_after hlost hle).1 hmem
  · rw [after_of_ended (hn i hi) hle] at hlost
    exact hlost.1 hmem

theorem harmless_of_complete (h : job.Complete faults) :
    job.NoneBefore ∧ ∀ i < job.shards, ∀ n, job.Harmless i (job.after faults n i) := by
  obtain ⟨n, hn, hperm⟩ := h
  have hall := (perm_iff hn).mp hperm
  refine ⟨?_, ?_⟩
  · intro p hpos hlt
    by_contra hblank
    have hmem := mem_pagesRead.mp (hall p hpos hblank)
    have hown := ((inv_after faults (Nat.mod_lt p job.shards_pos) n).own p hmem).2
    omega
  · intro i hi m hasks
    have hinv := inv_after faults hi m
    have hpos : 0 < job.nextPage i (job.after faults m i) := by
      rw [nextPage_eq]
      omega
    split
    · rename_i hfault
      refine blank_of_lost (m := m + 1) hn hall hi hpos hinv.next_mod ?_
      rw [after_succ]
      exact (lost_of_asks hinv (turn_cases job i _) hasks).1 hfault
    · rename_i hfault
      by_cases hlast : job.records (job.nextPage i (job.after faults m i)) ≠ [] ∧
          job.base.pageSize ≤ (job.items (job.nextPage i (job.after faults m i))).length
      · exact .inl hlast
      · refine .inr fun k hk => ?_
        rw [source_step]
        have hstep : 0 < k * job.shards := Nat.mul_pos hk job.shards_pos
        refine blank_of_lost (m := m + 1) hn hall hi (by omega) ?_ ?_
        · rw [Nat.add_mul_mod_self_right]
          exact hinv.next_mod
        · rw [after_succ]
          exact (lost_of_asks hinv (turn_cases job i _) hasks).2 (by simpa using hfault) hlast _ (by omega)

/-- The records of the pages are emitted exactly once exactly if nothing is on the pages before the first
that is read, no fetch of a page with records fails, and no page that ends the reading is followed by one
with records. -/
theorem pages_once_iff (job : Job) (faults : Nat → List (Option Err)) :
    job.Complete faults ↔
      job.NoneBefore ∧ ∀ i < job.shards, ∀ n, job.Harmless i (job.after faults n i) :=
  ⟨harmless_of_complete, fun ⟨hnone, h⟩ => complete_of_harmless hnone h⟩

def jobOf (shards : Nat) (shards_pos : 0 < shards) (pages : List (List Paged.Item)) : Job where
  base := { pageSize := 1 }
  paged := by decide
  shards
  shards_pos
  pages

def unavailable : Err := { msg := "http fetch failed after 3 retries: http status 503: " }

/-- Two shards begin with the pages 2 and 3; a failed fetch of page 1 is followed by that of page 2; a page
with an item that is no object ends the reading. -/
theorem pages_are_lost :
    ¬ (jobOf 2 (by decide) [[.object []], [.object []]]).Complete (fun _ => []) ∧
      ¬ (jobOf 1 (by decide) [[.object []]]).Complete (fun _ => [some unavailable]) ∧
        ¬ (jobOf 1 (by decide) [[.other], [.object []]]).Complete (fun _ => []) := by
  refine ⟨fun h => ?_, fun h => ?_, fun h => ?_⟩
  · have hblank := (harmless_of_complete h).1 1 (by decide) (by decide)
    cases hblank (by decide)
  · have hharm := (harmless_of_complete h).2 0 (by decide) 0 (by decide)
    cases hharm (by decide)
  · have hharm := (harmless_of_complete h).2 0 (by decide) 0 (by decide)
    rcases hharm with ⟨hrec, -⟩ | hlater
    · exact absurd hrec (by decide)
    · cases hlater 1 (by decide) (by decide)

end OpenEtl.Source.Http
