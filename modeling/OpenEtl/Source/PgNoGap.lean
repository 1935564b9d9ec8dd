import OpenEtl.Source.PgHandoff

/-!
# No gap between the snapshot and the stream

A reader in its CDC phase has read every table, what it read is in the sink or among its records, and every later
change is in the sink or will be sent by the slot (`NoGap`). The code does not see to that: the slot is created after
the tables were read, and a row that cannot be scanned is left out (`handoff_loses_rows`). A checkpoint of a snapshot
record may have the phase `cdc`, which is that of the reader; it has no LSN then and `Open` refuses it.
-/

namespace OpenEtl.Source.PgSnapshot

open Pg (PostgresCDCSource)
open List Trace
open Handoff

variable {κ ρ : Type} (src : PostgresCDCSource)

/-! ## Gaps -/

def Handoff.savedLSN (s : Handoff κ ρ) : Nat := (s.saved.bind PgPosition.lsn).getD 0

/-- What the environment has to see to: no commit to a table that was read until there is a slot, unless the reader
is down and no position of a change is saved; rows that can be scanned; a snapshot of named tables; and the slot
stays. -/
def Orderly (s : Handoff κ ρ) : Event κ ρ → Prop
  | .commit c =>
    s.slot.isSome ∨ (s.life = none ∧ ∀ pos, s.saved = some pos → pos.lsn = none) ∨
      ∀ ch ∈ c.changes, ∀ p ∈ s.read, p.1 ≠ ch.table
  | .openReader => src.enableSnapshot = true ∧ src.tables ≠ []
  | .row scanned => scanned = true
  | .close dropped => src.dropSlotOnClose = false ∨ dropped = false
  | _ => True

/-! ## What was read, and what came later -/

section

variable (history : List (Commit κ ρ)) (read : List (String × Nat))

/-- A change of a table that was committed after the table was read. -/
def Later (i j : Nat) : Prop := ∃ n c, (c.table, n) ∈ read ∧ n ≤ i ∧ change? history i j = some c

def Before (i j i' j' : Nat) : Prop := i < i' ∨ i = i' ∧ j < j'

/-- The rows that were read are among these records. -/
def RowsIn [DecidableEq κ] (items : List (Item κ ρ)) : Prop :=
  ∀ t n, (t, n) ∈ read → ∀ p ∈ tableRows (history.take n) t, .snapshot t p.1 p.2 ∈ items

/-- The later changes before this one are among these records. -/
def ChangesIn (i j : Nat) (items : List (Item κ ρ)) : Prop :=
  ∀ i' j', Later history read i' j' → Before i' j' i j → .cdc i' j' ∈ items

def AllRead : Prop := ∀ t, captured src t = true → ∃ n, (t, n) ∈ read

end

variable {history : List (Commit κ ρ)} {items : List (Item κ ρ)} {read : List (String × Nat)}
  {items' : List (Item κ ρ)}

theorem RowsIn.mono [DecidableEq κ] (h : RowsIn history read items) (hsub : items ⊆ items') :
    RowsIn history read items' :=
  fun t n hr p hp => hsub (h t n hr p hp)

variable {i j : Nat}

theorem ChangesIn.mono (h : ChangesIn history read i j items) (hsub : items ⊆ items') :
    ChangesIn history read i j items' :=
  fun i' j' hl hb => hsub (h i' j' hl hb)

theorem change?_append {c : Commit κ ρ} (h : i < history.length) :
    change? (history ++ [c]) i j = change? history i j := by
  rw [change?, getElem?_append_left h, change?]

variable {c : RowChange κ ρ}

theorem lt_length_of_change? (h : change? history i j = some c) : i < history.length := by
  rw [change?, Option.bind_eq_some_iff] at h
  obtain ⟨x, hx, -⟩ := h
  exact (List.getElem?_eq_some_iff.mp hx).1

theorem rowsIn_append [DecidableEq κ] (c : Commit κ ρ) (hread : ∀ p ∈ read, p.2 ≤ history.length)
    (h : RowsIn history read items) : RowsIn (history ++ [c]) read items := by
  intro t n hr p hp
  rw [take_append_of_le_length (hread _ hr)] at hp
  exact h t n hr p hp

/-- A place in the stream: a change that is there, or the next transaction. -/
def Place (history : List (Commit κ ρ)) (i j : Nat) : Prop := i < history.length ∨ i = history.length ∧ j = 0

theorem later_of_append {c : Commit κ ρ} (h : Later (history ++ [c]) read i j) (hi : i < history.length) :
    Later history read i j := by
  obtain ⟨n, ch, hr, hn, hc⟩ := h
  exact ⟨n, ch, hr, hn, by rwa [change?_append hi] at hc⟩

theorem changesIn_append (c : Commit κ ρ) (hplace : Place history i j) (h : ChangesIn history read i j items) :
    ChangesIn (history ++ [c]) read i j items := by
  intro i' j' hl hb
  have hi : i' < history.length := by
    rcases hplace with hp | ⟨hp, hj⟩ <;> rcases hb with hb | ⟨rfl, hb⟩ <;> omega
  exact h i' j' (later_of_append hl hi) hb

/-! ## The LSNs of the transactions -/

theorem commitLSN_eq (hi : i < history.length) : commitLSN history i = history[i].lsn := by
  rw [commitLSN, getElem?_eq_getElem hi]
  rfl

theorem commitLSN_le_walEnd (hsorted : history.Pairwise fun a b => a.lsn < b.lsn) (hi : i < history.length) :
    commitLSN history i ≤ walEnd history := by
  rw [commitLSN_eq hi, walEnd]
  cases hlast : history.getLast? with
  | none =>
    rw [getLast?_eq_none_iff.mp hlast] at hi
    simp at hi
  | some last =>
    simp only [Option.map_some, Option.getD_some]
    rcases le_getLast_of_pairwise hsorted (getElem_mem hi) hlast with heq | hlt
    · rw [heq]
    · omega

theorem lt_of_commitLSN_lt (hsorted : history.Pairwise fun a b => a.lsn < b.lsn) {i' : Nat} (hi : i < history.length)
    (hi' : i' < history.length) (h : commitLSN history i' < commitLSN history i) : i' < i := by
  rw [commitLSN_eq hi, commitLSN_eq hi'] at h
  by_contra hle
  rcases Nat.lt_or_eq_of_le (Nat.not_lt.mp hle) with hlt | rfl
  · have := pairwise_iff_getElem.mp hsorted i i' hi hi' hlt
    omega
  · omega

theorem lsn_lt_commitLSN (h : change? history i j = some c) : c.lsn < commitLSN history i := by
  rw [change?, Option.bind_eq_some_iff] at h
  obtain ⟨x, hx, hc⟩ := h
  rw [commitLSN, hx]
  exact x.lt_lsn c (mem_of_getElem? hc)

theorem firstFrom_le (history : List (Commit κ ρ)) (lsn : Nat) : firstFrom history lsn ≤ history.length :=
  ( takeWhile_prefix _).length_le

theorem commitLSN_lt_of_lt_firstFrom {lsn : Nat} (h : i < firstFrom history lsn) : commitLSN history i < lsn := by
  have hget := ( takeWhile_prefix (l := history) fun c => c.lsn < lsn).getElem h
  have hi : i < history.length := Nat.lt_of_lt_of_le h (firstFrom_le history lsn)
  have := mem_takeWhile_imp (getElem_mem h)
  rw [commitLSN_eq hi, ← hget]
  simpa using this

theorem walEnd_append (history : List (Commit κ ρ)) (c : Commit κ ρ) : walEnd (history ++ [c]) = c.lsn := by
  simp [walEnd]

theorem commitLSN_append (c : Commit κ ρ) (hi : i < history.length) :
    commitLSN (history ++ [c]) i = commitLSN history i := by
  rw [commitLSN, getElem?_append_left hi, commitLSN]

/-! ## The invariant -/

/-- A position up to which every transaction has been dealt with. -/
def Handoff.bound (s : Handoff κ ρ) : Nat :=
  max (s.slot.getD 0) (max s.savedLSN ((s.life.bind Life.committedLsn).getD 0))

/-- What was read will not be read again. -/
def Handoff.Settled (s : Handoff κ ρ) : Prop := s.life.isSome ∨ ∃ pos, s.saved = some pos ∧ pos.lsn.isSome

def Stage.rows : Stage κ ρ → List (Item κ ρ)
  | .snapshot _ t rows => rows.map fun p => .snapshot t p.1 p.2
  | _ => []

section

variable [DecidableEq κ]

structure LifeInv (history : List (Commit κ ρ)) (read : List (String × Nat)) (sink : List (Item κ ρ))
    (life : Life κ ρ) : Prop where
  written_le : life.written ≤ life.emitted.length
  written_sub : life.emitted.take life.written ⊆ sink
  snapshotting : ∀ left t rows, life.stage = .snapshot left t rows →
    life.phase = .snapshot ∧ life.snapshotDone = false ∧
      RowsIn history read (sink ++ life.emitted ++ life.stage.rows) ∧
        (∀ t ∈ left, captured src t = true) ∧ ∀ t, captured src t = true → t ∈ left ∨ ∃ n, (t, n) ∈ read
  done : life.snapshotDone = true →
    life.phase = .cdc ∧ AllRead src read ∧ RowsIn history read (sink ++ life.emitted)
  opened : life.phase = .cdc → life.closed = false → life.snapshotDone = true
  phase : life.stage = .setup ∨ life.stage = .ready → life.phase = .cdc
  streaming : ∀ i j, life.stage = .streaming i j →
    life.snapshotDone = true ∧ Place history i j ∧ ChangesIn history read i j (sink ++ life.emitted)
  emitted : ∀ k i j, life.emitted[k]? = some (.cdc i j) →
    life.snapshotDone = true ∧ (change? history i j).isSome ∧
      RowsIn history read (sink ++ life.emitted.take k) ∧ ChangesIn history read i j (sink ++ life.emitted.take k)
  committed : life.committedLsn.isSome → life.snapshotDone = true ∧ RowsIn history read sink

structure Inv (s : Handoff κ ρ) : Prop where
  sorted : s.history.Pairwise fun a b => a.lsn < b.lsn
  bound_le : s.bound ≤ walEnd s.history + 1
  none_skipped : s.skipped = []
  read_le : ∀ p ∈ s.read, captured src p.1 = true ∧ p.2 ≤ s.history.length
  covered : s.Settled → ∀ i j, Later s.history s.read i j →
    s.slot.isSome ∧ (.cdc i j ∈ s.sink ∨ s.bound ≤ commitLSN s.history i)
  saved : ∀ pos, s.saved = some pos → pos.lsn.isSome →
    pos.phase = .cdc ∧ AllRead src s.read ∧ RowsIn s.history s.read s.sink ∧
      ∀ life, s.life = some life → life.snapshotDone = true
  life : ∀ life, s.life = some life → LifeInv src s.history s.read s.sink life

/-- What a checkpoint has to guarantee: with an LSN, transactions before it and the rows of the snapshot are in the
sink. -/
structure SafePosition (s : Handoff κ ρ) (pos : PgPosition) : Prop where
  lsn_le : pos.lsn.getD 0 ≤ walEnd s.history + 1
  covered : ∀ i j, Later s.history s.read i j → .cdc i j ∈ s.sink ∨ pos.lsn.getD 0 ≤ commitLSN s.history i
  rows : pos.lsn.isSome → pos.phase = .cdc ∧ AllRead src s.read ∧ RowsIn s.history s.read s.sink

variable {src}

variable {history : List (Commit κ ρ)} {read : List (String × Nat)} {sink : List (Item κ ρ)} {life life' : Life κ ρ}
  {s : Handoff κ ρ} {i j k : Nat} {left : List String} {rows : List (κ × ρ)} {t : String} {item : Item κ ρ}

section

variable (h : LifeInv src history read sink life)

include h

/-- The reader gets to a stage in which it emits nothing. -/
theorem LifeInv.of_stage
    (hsame : life'.emitted = life.emitted ∧ life'.written = life.written ∧ life'.committedLsn = life.committedLsn)
    (hstage : ∀ left t rows, life'.stage ≠ .snapshot left t rows) (hstream : ∀ i j, life'.stage ≠ .streaming i j)
    (hdone : life.snapshotDone = true → life'.snapshotDone = true)
    (hdone' : life'.snapshotDone = true →
      life'.phase = .cdc ∧ AllRead src read ∧ RowsIn history read (sink ++ life.emitted))
    (hopened : life'.phase = .cdc → life'.closed = false → life'.snapshotDone = true)
    (hphase : life'.stage = .setup ∨ life'.stage = .ready → life'.phase = .cdc) :
    LifeInv src history read sink life' where
  written_le := by rw [hsame.1, hsame.2.1]; exact h.written_le
  written_sub := by rw [hsame.1, hsame.2.1]; exact h.written_sub
  snapshotting left t rows heq := absurd heq (hstage left t rows)
  done := by rw [hsame.1]; exact hdone'
  opened := hopened
  phase := hphase
  streaming i j heq := absurd heq (hstream i j)
  emitted k i j hk := by
    rw [hsame.1] at hk ⊢
    obtain ⟨h1, h2⟩ := h.emitted k i j hk
    exact ⟨hdone h1, h2⟩
  committed hc := by
    rw [hsame.2.2] at hc
    exact (h.committed hc).imp hdone id

/-- While tables are read no change has been emitted. -/
theorem LifeInv.no_changes (hdone : life.snapshotDone = false) :
    life.emitted[k]? ≠ some (.cdc i j) := by
  intro hk
  rw [(h.emitted k i j hk).1] at hdone
  simp at hdone

theorem LifeInv.row {p : κ × ρ}
    (hstage : life.stage = .snapshot left t (p :: rows)) :
    LifeInv src history read sink
      { life with stage := .snapshot left t rows, emitted := life.emitted ++ [.snapshot t p.1 p.2] } := by
  obtain ⟨hphase, hdone, hin, htables⟩ := h.snapshotting _ _ _ hstage
  refine ⟨?_, ?_, fun left' t' rows' heq => ?_, fun hd => ?_, h.opened, by simp, by simp, fun k i j hk => ?_,
    h.committed⟩
  · simp only [length_append]
    exact Nat.le_add_right_of_le h.written_le
  · simp only [take_append_of_le_length h.written_le]
    exact h.written_sub
  · obtain ⟨rfl, rfl, rfl⟩ := Stage.snapshot.inj heq
    refine ⟨hphase, hdone, hin.mono ?_, htables⟩
    intro x hx
    simp only [hstage, Stage.rows, map_cons, mem_append, mem_cons] at hx ⊢
    tauto
  · simp [hdone] at hd
  · simp only [getElem?_append] at hk
    split at hk
    · exact absurd hk (h.no_changes hdone)
    · cases hk' : k - life.emitted.length <;> simp [hk'] at hk

theorem LifeInv.finish (hstage : life.stage = .snapshot [] t []) :
    LifeInv src history read sink { life with phase := .cdc, stage := .setup, snapshotDone := true } := by
  obtain ⟨hphase, hdone, hin, -, htables⟩ := h.snapshotting _ _ _ hstage
  refine h.of_stage ⟨rfl, rfl, rfl⟩ (by simp) (by simp) (fun _ => rfl) (fun _ => ⟨rfl, fun t ht => ?_, ?_⟩) (fun _ _ => rfl)
    fun _ => rfl
  · simpa using htables t ht
  · simpa [hstage, Stage.rows] using hin

theorem LifeInv.giveUp (hstage : life.stage = .snapshot left t rows)
    (hclosed : life.closed = true) : LifeInv src history read sink { life with phase := .cdc, stage := .setup } := by
  obtain ⟨-, hdone, -, -⟩ := h.snapshotting _ _ _ hstage
  refine h.of_stage ⟨rfl, rfl, rfl⟩ (by simp) (by simp) (fun hd => hd) (fun hd => ?_) (fun _ hopen => ?_) fun _ => rfl
  · simp [hdone] at hd
  · simp [hclosed] at hopen

theorem LifeInv.streamFrom (hdone : life.snapshotDone = true) (hplace : Place history i j)
    (hin : ChangesIn history read i j (sink ++ life.emitted)) :
    LifeInv src history read sink { life with stage := .streaming i j } := by
  refine ⟨h.written_le, h.written_sub, by simp, h.done, h.opened, by simp, fun i' j' heq => ?_, h.emitted,
    h.committed⟩
  cases heq
  exact ⟨hdone, hplace, hin⟩

theorem LifeInv.fail :
    LifeInv src history read sink { life with stage := .ended } :=
  h.of_stage ⟨rfl, rfl, rfl⟩ (by simp) (by simp) (fun hd => hd) h.done h.opened (by simp)

theorem LifeInv.close :
    LifeInv src history read sink { life with closed := true } :=
  ⟨h.written_le, h.written_sub, h.snapshotting, h.done, by simp, h.phase, h.streaming, h.emitted,
    h.committed⟩

theorem LifeInv.write
    (hitem : life.emitted[life.written]? = some item) :
    LifeInv src history read (sink ++ [item]) { life with written := life.written + 1 } := by
  have hsub : ∀ more : List (Item κ ρ), sink ++ more ⊆ sink ++ [item] ++ more := by
    intro more x hx
    simp only [mem_append] at hx ⊢
    tauto
  refine ⟨(List.getElem?_eq_some_iff.mp hitem).1, ?_, fun left t rows heq => ?_, fun hd => ?_, h.opened, h.phase,
    fun i j heq => ?_, fun k i j hk => ?_, fun hc => (h.committed hc).imp id fun hr => hr.mono (subset_append_left _ _)⟩
  · intro x hx
    simp only [take_add_one, hitem, mem_append] at hx ⊢
    exact hx.imp (fun hx => h.written_sub hx) id
  · obtain ⟨h1, h2, h3, h4⟩ := h.snapshotting left t rows heq
    refine ⟨h1, h2, h3.mono ?_, h4⟩
    simp only [append_assoc]
    exact fun x hx => by simpa using hsub _ hx
  · obtain ⟨h1, h2, h3⟩ := h.done hd
    exact ⟨h1, h2, h3.mono (hsub _)⟩
  · obtain ⟨h1, h2, h3⟩ := h.streaming i j heq
    exact ⟨h1, h2, h3.mono (hsub _)⟩
  · obtain ⟨h1, h2, h3, h4⟩ := h.emitted k i j hk
    exact ⟨h1, h2, h3.mono (hsub _), h4.mono (hsub _)⟩

theorem LifeInv.commit (c : Commit κ ρ)
    (hread : ∀ p ∈ read, p.2 ≤ history.length) : LifeInv src (history ++ [c]) read sink life := by
  refine ⟨h.written_le, h.written_sub, fun left t rows heq => ?_, fun hd => ?_, h.opened, h.phase, fun i j heq => ?_,
    fun k i j hk => ?_, fun hc => (h.committed hc).imp id (rowsIn_append c hread)⟩
  · obtain ⟨h1, h2, h3, h4⟩ := h.snapshotting left t rows heq
    exact ⟨h1, h2, rowsIn_append c hread h3, h4⟩
  · obtain ⟨h1, h2, h3⟩ := h.done hd
    exact ⟨h1, h2, rowsIn_append c hread h3⟩
  · obtain ⟨h1, h2, h3⟩ := h.streaming i j heq
    refine ⟨h1, ?_, changesIn_append c h2 h3⟩
    rcases h2 with hlt | ⟨rfl, rfl⟩
    · exact .inl (by simp only [length_append]; omega)
    · exact .inl (by simp)
  · obtain ⟨h1, h2, h3, h4⟩ := h.emitted k i j hk
    obtain ⟨ch, hch⟩ := Option.isSome_iff_exists.mp h2
    have hi := lt_length_of_change? hch
    exact ⟨h1, by rwa [change?_append hi], rowsIn_append c hread h3, changesIn_append c (.inl hi) h4⟩

end

omit [DecidableEq κ] in
/-- The stream passes the end of a transaction. -/
theorem changesIn_next {c : Commit κ ρ} {items : List (Item κ ρ)} (hi : history[i]? = some c)
    (hj : c.changes[j]? = none) (h : ChangesIn history read i j items) : ChangesIn history read (i + 1) 0 items := by
  intro i' j' hl hb
  refine h i' j' hl ?_
  rcases hb with hb | ⟨-, hb⟩
  · rcases Nat.lt_or_eq_of_le (Nat.le_of_lt_succ hb) with hlt | rfl
    · exact .inl hlt
    · obtain ⟨n, ch, -, -, hch⟩ := hl
      simp only [change?, hi] at hch
      have h1 := (List.getElem?_eq_some_iff.mp hch).1
      have h2 := List.getElem?_eq_none_iff.mp hj
      exact .inr ⟨rfl, by omega⟩
  · omega

omit [DecidableEq κ] in
theorem changesIn_succ {items items' : List (Item κ ρ)} (h : ChangesIn history read i j items)
    (hsub : items ⊆ items') (hin : Later history read i j → .cdc i j ∈ items') :
    ChangesIn history read i (j + 1) items' := by
  intro i' j' hl hb
  rcases hb with hb | ⟨rfl, hb⟩
  · exact hsub (h i' j' hl (.inl hb))
  · rcases Nat.lt_or_eq_of_le (Nat.le_of_lt_succ hb) with hlt | rfl
    · exact hsub (h i' j' hl (.inr ⟨rfl, hlt⟩))
    · exact hin hl

variable (h : Inv src s)

include h

theorem Inv.stop : Inv src { s with life := none } := by
  have hle : bound { s with life := none } ≤ s.bound := by
    simp only [bound, savedLSN, Option.bind_none, Option.getD_none]
    omega
  refine ⟨h.sorted, Nat.le_trans hle h.bound_le, h.none_skipped, h.read_le, fun hset i j hl => ?_,
    fun pos hp hcdc => ?_, by simp⟩
  · have hset' : s.Settled := by
      rcases hset with hlife | hcdc
      · simp at hlife
      · exact .inr hcdc
    obtain ⟨hslot, hcov⟩ := h.covered hset' i j hl
    exact ⟨hslot, hcov.imp id (Nat.le_trans hle)⟩
  · obtain ⟨hphase, hread, hrows, -⟩ := h.saved pos hp hcdc
    exact ⟨hphase, hread, hrows, by simp⟩

section

variable (hlife : s.life = some life)

include hlife

/-- A step that changes nothing but the reader, and adds to the sink. -/
theorem Inv.of_sink (hsub : s.sink ⊆ sink) (hcommitted : life'.committedLsn = life.committedLsn)
    (hdone : life.snapshotDone = true → life'.snapshotDone = true)
    (hinv : LifeInv src s.history s.read sink life') : Inv src { s with sink, life := some life' } := by
  have hbound : bound { s with sink, life := some life' } = s.bound := by
    simp [bound, savedLSN, hlife, hcommitted]
  refine ⟨h.sorted, by rw [hbound]; exact h.bound_le, h.none_skipped, h.read_le, fun _ i j hl => ?_, ?_, ?_⟩
  · rw [hbound]
    obtain ⟨h1, h2⟩ := h.covered (.inl (by simp [hlife])) i j hl
    exact ⟨h1, h2.imp (fun hmem => hsub hmem) id⟩
  · intro pos hpos hcdc
    obtain ⟨hphase, hread, hrows, hall⟩ := h.saved pos hpos hcdc
    refine ⟨hphase, hread, hrows.mono hsub, fun l hl => ?_⟩
    cases hl
    exact hdone (hall life hlife)
  · intro l hl
    cases hl
    exact hinv

theorem Inv.of_life (hcommitted : life'.committedLsn = life.committedLsn)
    (hdone : life.snapshotDone = true → life'.snapshotDone = true)
    (hinv : LifeInv src s.history s.read s.sink life') : Inv src { s with life := some life' } :=
  h.of_sink hlife (Subset.refl _) hcommitted hdone hinv

theorem Inv.select {t0 : String}
    (hstage : life.stage = .snapshot (t :: left) t0 []) (hrows : rows.Perm (tableRows s.history t)) :
    Inv src { s with life := some { life with stage := .snapshot left t rows }
                     read := (t, s.history.length) :: s.read } := by
  have hinv := h.life life hlife
  obtain ⟨hphase, hdone, hin, hleft, htables⟩ := hinv.snapshotting _ _ _ hstage
  have hbound : bound { s with life := some { life with stage := .snapshot left t rows }
                               read := (t, s.history.length) :: s.read } = s.bound := by
    simp [bound, savedLSN, hlife]
  refine ⟨h.sorted, by rw [hbound]; exact h.bound_le, h.none_skipped, ?_, fun _ i j hl => ?_, ?_, fun l hl => ?_⟩
  · intro p hp
    rcases mem_cons.mp hp with rfl | hp
    · exact ⟨hleft t mem_cons_self, Nat.le_refl _⟩
    · exact h.read_le p hp
  · rw [hbound]
    obtain ⟨n, c, hr, hn, hc⟩ := hl
    refine h.covered (.inl (by simp [hlife])) i j ⟨n, c, ?_, hn, hc⟩
    rcases mem_cons.mp hr with heq | hr
    · have hi : i < s.history.length := lt_length_of_change? hc
      simp only [Prod.mk.injEq] at heq
      omega
    · exact hr
  · intro pos hpos hcdc
    have := (h.saved pos hpos hcdc).2.2.2 life hlife
    simp [hdone] at this
  · cases hl
    refine ⟨hinv.written_le, hinv.written_sub, fun left' t' rows' heq => ?_, fun hd => ?_, hinv.opened, by simp,
      by simp, fun k i j hk => absurd hk (hinv.no_changes hdone),
      fun hc => absurd (hinv.committed hc).1 (by simp [hdone])⟩
    · obtain ⟨rfl, rfl, rfl⟩ := Stage.snapshot.inj heq
      refine ⟨hphase, hdone, fun t' n hr p hp => ?_, fun t' ht' => hleft t' (mem_cons_of_mem _ ht'),
        fun t' ht' => ?_⟩
      · rcases mem_cons.mp hr with heq | hr
        · cases heq
          rw [take_length] at hp
          exact mem_append_right _ (mem_map.mpr ⟨p, hrows.mem_iff.mpr hp, rfl⟩)
        · have := hin t' n hr p hp
          simp only [hstage, Stage.rows, map_nil, append_nil] at this
          exact mem_append_left _ this
      · rcases htables t' ht' with hmem | ⟨n, hn⟩
        · rcases mem_cons.mp hmem with rfl | hmem
          · exact .inr ⟨_, mem_cons_self⟩
          · exact .inl hmem
        · exact .inr ⟨n, mem_cons_of_mem _ hn⟩
    · simp [hdone] at hd

/-! ## The slot and the stream -/

theorem Inv.setupSlot (hstage : life.stage = .setup) :
    Inv src { s with life := some { life with stage := .ready }
                     slot := some (s.slot.getD (walEnd s.history + 1)) } := by
  have hinv : LifeInv src s.history s.read s.sink { life with stage := .ready } :=
    (h.life life hlife).of_stage ⟨rfl, rfl, rfl⟩ (by simp) (by simp) (fun hd => hd) (h.life life hlife).done
      (h.life life hlife).opened fun _ => (h.life life hlife).phase (.inl hstage)
  have hready : Inv src { s with life := some { life with stage := .ready } } :=
    h.of_life hlife rfl (fun hd => hd) hinv
  cases hslot : s.slot with
  | some confirmed =>
    rw [Option.getD_some, ← hslot]
    exact hready
  | none =>
    have hle := hready.bound_le
    simp only [bound, savedLSN, Option.bind_some] at hle
    refine ⟨h.sorted, ?_, h.none_skipped, h.read_le, fun _ i j hl => ?_, hready.saved, hready.life⟩
    · simp only [bound, savedLSN, Option.getD_none, Option.getD_some, Option.bind_some]
      omega
    · have := (h.covered (.inl (by simp [hlife])) i j hl).1
      simp [hslot] at this

/-- The transactions a stream leaves out are in the sink. -/
theorem Inv.changesIn_stream {confirmed : Nat}
    (hslot : s.slot = some confirmed) :
    ChangesIn s.history s.read (firstFrom s.history (max confirmed (life.committedLsn.getD 0))) 0
      (s.sink ++ life.emitted) := by
  intro i j hl hb
  have hlt : i < firstFrom s.history (max confirmed (life.committedLsn.getD 0)) := by
    rcases hb with hb | ⟨-, hb⟩
    · exact hb
    · omega
  have hlsn := commitLSN_lt_of_lt_firstFrom hlt
  rcases (h.covered (.inl (by simp [hlife])) i j hl).2 with hmem | hbound
  · exact mem_append_left _ hmem
  · simp only [bound, hslot, hlife, Option.getD_some, Option.bind_some] at hbound
    omega

theorem Inv.stream (hdone : life.snapshotDone = true) :
    Inv src (s.stream life) := by
  have hinv := h.life life hlife
  unfold Handoff.stream
  split
  · exact h.of_life hlife rfl (fun hd => hd) hinv.fail
  · rename_i confirmed hslot
    refine h.of_life hlife rfl (fun hd => hd) (hinv.streamFrom hdone ?_ (h.changesIn_stream hlife hslot))
    rcases Nat.lt_or_eq_of_le (firstFrom_le s.history (max confirmed (life.committedLsn.getD 0))) with hlt | heq
    · exact .inl hlt
    · exact .inr ⟨heq, rfl⟩

theorem Inv.receive (hstage : life.stage = .streaming i j) :
    Inv src (s.receive src life i j) := by
  have hinv := h.life life hlife
  obtain ⟨hdone, -, hin⟩ := hinv.streaming i j hstage
  unfold Handoff.receive
  cases hi : s.history[i]? with
  | none => exact h
  | some c =>
    have hlt := (List.getElem?_eq_some_iff.mp hi).1
    simp only
    cases hj : c.changes[j]? with
    | none =>
      refine h.of_life hlife rfl (fun hd => hd) (hinv.streamFrom hdone ?_ (changesIn_next hi hj hin))
      rcases Nat.lt_or_eq_of_le (Nat.succ_le_of_lt hlt) with hlt | heq
      · exact .inl hlt
      · exact .inr ⟨heq, rfl⟩
    | some ch =>
      have hch : change? s.history i j = some ch := by
        rw [change?, hi]
        exact hj
      simp only
      split
      · refine h.of_life hlife rfl (fun hd => hd) ⟨?_, ?_, by simp, fun _ => ?_, hinv.opened, by simp,
          fun i' j' heq => ?_, fun k i' j' hk => ?_, hinv.committed⟩
        · simp only [length_append]
          exact Nat.le_add_right_of_le hinv.written_le
        · simp only [take_append_of_le_length hinv.written_le]
          exact hinv.written_sub
        · obtain ⟨hphase, hall, hrows⟩ := hinv.done hdone
          exact ⟨hphase, hall, hrows.mono (by simp)⟩
        · cases heq
          exact ⟨hdone, .inl hlt, changesIn_succ hin (by simp) fun _ => by simp⟩
        · simp only [getElem?_append] at hk
          split at hk
          · rename_i hklt
            obtain ⟨h1, h2, h3, h4⟩ := hinv.emitted k i' j' hk
            simp only [take_append_of_le_length (Nat.le_of_lt hklt)]
            exact ⟨h1, h2, h3, h4⟩
          · have hk' : k = life.emitted.length := by
              by_contra hne
              rw [List.getElem?_eq_none_iff.mpr (by simp only [length_singleton]; omega)] at hk
              simp at hk
            subst hk'
            simp only [Nat.sub_self] at hk
            obtain ⟨rfl, rfl⟩ := hk
            simp only [take_left']
            exact ⟨hdone, by simp [hch], (hinv.done hdone).2.2, hin⟩
      · rename_i hcap
        refine h.of_life hlife rfl (fun hd => hd)
          (hinv.streamFrom hdone (.inl hlt) (changesIn_succ hin (fun _ hx => hx) ?_))
        rintro ⟨n, c', hr, -, hc'⟩
        obtain rfl : ch = c' := Option.some.inj (hch.symm.trans hc')
        exact absurd (h.read_le _ hr).1 hcap

/-! ## Writes and checkpoints -/

theorem Inv.write
    (hitem : life.emitted[life.written]? = some item) :
    Inv src { s with sink := s.sink ++ [item], life := some { life with written := life.written + 1 } } :=
  h.of_sink hlife (subset_append_left _ _) rfl id ((h.life life hlife).write hitem)

theorem Inv.safePosition_change (hk : k < life.written)
    (hitem : life.emitted[k]? = some (.cdc i j)) : SafePosition src s (s.checkpoint life (some (.cdc i j))) := by
  have hinv := h.life life hlife
  obtain ⟨hdone, hchange, hrows, hin⟩ := hinv.emitted k i j hitem
  obtain ⟨c, hc⟩ := Option.isSome_iff_exists.mp hchange
  have hsub : s.sink ++ life.emitted.take k ⊆ s.sink := by
    intro x hx
    rcases mem_append.mp hx with hx | hx
    · exact hx
    · exact hinv.written_sub ((take_subset_take_left _ (Nat.le_of_lt hk)) hx)
  have hi := lt_length_of_change? hc
  have hlt := lsn_lt_commitLSN hc
  have hle := commitLSN_le_walEnd h.sorted hi
  simp only [checkpoint, hc, Option.map_some]
  refine ⟨?_, fun i' j' hl => ?_, fun _ => ⟨rfl, (hinv.done hdone).2.1, hrows.mono hsub⟩⟩
  · simp only [Option.getD_some]
    omega
  · by_cases hlsn : c.lsn ≤ commitLSN s.history i'
    · exact .inr hlsn
    · obtain ⟨n, c', -, -, hc'⟩ := id hl
      have hi' := lt_of_commitLSN_lt h.sorted hi (lt_length_of_change? hc') (by omega)
      exact .inl (hsub (hin i' j' hl (.inl hi')))

theorem Inv.safePosition_reader : SafePosition src s { lsn := life.committedLsn, phase := life.phase } := by
  have hinv := h.life life hlife
  have hle : life.committedLsn.getD 0 ≤ s.bound := by
    simp only [bound, hlife, Option.bind_some]
    omega
  refine ⟨Nat.le_trans hle h.bound_le, fun i j hl => ?_, fun hc => ?_⟩
  · exact (h.covered (.inl (by simp [hlife])) i j hl).2.imp id (Nat.le_trans hle)
  · obtain ⟨hdone, hrows⟩ := hinv.committed hc
    obtain ⟨hphase, hread, -⟩ := hinv.done hdone
    exact ⟨hphase, hread, hrows⟩

/-- A safe checkpoint is stored, and the slot and the reader go on from there at most. -/
theorem Inv.of_saved {pos : PgPosition} {slot : Option Nat} (hsafe : SafePosition src s pos)
    (hdone : pos.lsn.isSome → life'.snapshotDone = true) (hslot : slot.isSome = s.slot.isSome)
    (hbound : bound { s with saved := some pos, slot, life := some life' } ≤ max s.bound (pos.lsn.getD 0))
    (hinv : LifeInv src s.history s.read s.sink life') :
    Inv src { s with saved := some pos, slot, life := some life' } := by
  refine ⟨h.sorted, ?_, h.none_skipped, h.read_le, fun _ i j hl => ?_, fun pos' hp hcdc => ?_, fun l hl => ?_⟩
  · exact hbound.trans (max_le h.bound_le hsafe.lsn_le)
  · obtain ⟨hsome, hcov⟩ := h.covered (.inl (by simp [hlife])) i j hl
    refine ⟨hslot.trans hsome, ?_⟩
    rcases hcov with hmem | hge
    · exact .inl hmem
    · exact (hsafe.covered i j hl).imp id fun hge' => hbound.trans (max_le hge hge')
  · cases hp
    obtain ⟨hphase, hread, hrows⟩ := hsafe.rows hcdc
    refine ⟨hphase, hread, hrows, fun l hl => ?_⟩
    cases hl
    exact hdone hcdc
  · cases hl
    exact hinv

theorem Inv.save {record : Option (Item κ ρ)} (acked : Bool)
    (hsafe : SafePosition src s (s.checkpoint life record))
    (hdone : (s.checkpoint life record).lsn.isSome → life.snapshotDone = true) :
    Inv src (s.save life record acked) := by
  have hinv := h.life life hlife
  unfold Handoff.save
  simp only
  split
  · rename_i lsn hpos
    refine h.of_saved hlife hsafe hdone (by simp) ?_ ⟨hinv.written_le, hinv.written_sub, hinv.snapshotting, hinv.done,
      hinv.opened, hinv.phase, hinv.streaming, hinv.emitted, fun _ => ?_⟩
    · cases hslot : s.slot <;> simp only [bound, savedLSN, hlife, hslot, hpos, Option.map_none, Option.map_some,
        Option.getD_none, Option.getD_some, Option.bind_some] <;> omega
    · have hsome : (s.checkpoint life record).lsn.isSome := by simp [hpos]
      exact ⟨hdone hsome, (hsafe.rows hsome).2.2⟩
  · have hle : bound { s with saved := some (s.checkpoint life record), slot := s.slot, life := some life } ≤
        max s.bound ((s.checkpoint life record).lsn.getD 0) := by
      simp only [bound, savedLSN, hlife, Option.bind_some]
      omega
    have hsaved := h.of_saved hlife hsafe hdone rfl hle hinv
    rwa [← hlife] at hsaved

/-- The position of the reader itself. -/
theorem Inv.save_reader (acked : Bool) {record : Option (Item κ ρ)}
    (hrecord : s.checkpoint life record = { lsn := life.committedLsn, phase := life.phase }) :
    Inv src (s.save life record acked) := by
  refine h.save hlife acked ?_ fun hc => ?_
  · rw [hrecord]
    exact h.safePosition_reader hlife
  · rw [hrecord] at hc
    exact ((h.life life hlife).committed hc).1

/-! ## Events -/

variable [DecidableEq ρ] {record : Option Nat} {acked dropped : Bool}

theorem Inv.on_select (rows : List (κ × ρ)) : Inv src (s.onLife src life (.select rows)) := by
  simp only [onLife]
  split
  · rename_i hstage
    split
    · rename_i hperm
      exact h.select hlife hstage hperm
    · exact h
  · exact h

theorem Inv.on_row : Inv src (s.onLife src life (.row true)) := by
  simp only [onLife]
  split
  · rename_i hstage
    exact h.of_life hlife rfl (fun hd => hd) ((h.life life hlife).row hstage)
  · exact h

theorem Inv.on_finish : Inv src (s.onLife src life .finish) := by
  simp only [onLife]
  split
  · rename_i hstage
    exact h.of_life hlife rfl (fun _ => rfl) ((h.life life hlife).finish hstage)
  · exact h

theorem Inv.on_giveUp : Inv src (s.onLife src life .giveUp) := by
  simp only [onLife]
  split
  · rename_i hstage
    split
    · rename_i hclosed
      exact h.of_life hlife rfl (fun hd => hd) ((h.life life hlife).giveUp hstage hclosed)
    · exact h
  · exact h

theorem Inv.on_setupSlot : Inv src (s.onLife src life .setupSlot) := by
  simp only [onLife]
  split
  · rename_i hstage
    exact h.setupSlot hlife hstage
  · exact h

theorem Inv.on_startReplication : Inv src (s.onLife src life .startReplication) := by
  have hinv := h.life life hlife
  simp only [onLife]
  split
  · rename_i hstage
    split
    · exact h.of_life hlife rfl (fun hd => hd) hinv.fail
    · rename_i hopen
      exact h.stream hlife (hinv.opened (hinv.phase (.inr hstage)) (by simpa using hopen))
  · exact h

theorem Inv.on_receive : Inv src (s.onLife src life .receive) := by
  simp only [onLife]
  split
  · rename_i hstage
    split
    · exact h
    · exact h.receive hlife hstage
  · exact h

theorem Inv.on_reconnect : Inv src (s.onLife src life .reconnect) := by
  simp only [onLife]
  split
  · rename_i hstage
    split
    · exact h
    · exact h.stream hlife ((h.life life hlife).streaming _ _ hstage).1
  · exact h

theorem Inv.on_write : Inv src (s.onLife src life .write) := by
  simp only [onLife]
  split
  · rename_i hitem
    exact h.write hlife hitem
  · exact h

theorem Inv.on_save : Inv src (s.onLife src life (.save record acked)) := by
  cases record with
  | none => exact h.save_reader hlife acked rfl
  | some k =>
    simp only [onLife]
    split
    · rename_i hk
      cases hitem : life.emitted[k]? with
      | none => exact h.save_reader hlife acked rfl
      | some item =>
        cases item with
        | cdc i j =>
          exact h.save hlife acked (h.safePosition_change hlife hk hitem) fun _ =>
            ((h.life life hlife).emitted k i j hitem).1
        | snapshot t key row => exact h.save_reader hlife acked rfl
    · exact h

theorem Inv.on_close (hok : Orderly src s (.close dropped)) : Inv src (s.onLife src life (.close dropped)) := by
  have hslot : (if src.dropSlotOnClose = true ∧ dropped = true then none else s.slot) = s.slot := by
    rcases hok with hkeep | hkeep <;> simp [hkeep]
  simp only [onLife, hslot]
  exact h.of_life hlife rfl (fun hd => hd) (h.life life hlife).close

theorem Inv.onLife {e : Event κ ρ} (hok : Orderly src s e) : Inv src (s.onLife src life e) := by
  cases e with
  | commit c => exact h
  | openReader => exact h
  | select rows => exact h.on_select hlife rows
  | row scanned =>
    obtain rfl : scanned = true := hok
    exact h.on_row hlife
  | finish => exact h.on_finish hlife
  | giveUp => exact h.on_giveUp hlife
  | fail => exact h.of_life hlife rfl (fun hd => hd) (h.life life hlife).fail
  | setupSlot => exact h.on_setupSlot hlife
  | startReplication => exact h.on_startReplication hlife
  | receive => exact h.on_receive hlife
  | reconnect => exact h.on_reconnect hlife
  | write => exact h.on_write hlife
  | save record acked => exact h.on_save hlife
  | close dropped => exact h.on_close hlife hok
  | stop => exact h.stop

end

/-! ## Lives and transactions -/

theorem Inv.open_snapshot (htables : src.tables ≠ [])
    (hsaved : ∀ pos, s.saved = some pos → pos.lsn = none) :
    Inv src { s with life := some { phase := .snapshot, stage := .snapshot src.tables "" [], snapshotDone := false
                                    committedLsn := s.saved.bind PgPosition.lsn }
                     read := [] } := by
  have hbound := h.bound_le
  simp only [bound, savedLSN] at hbound
  have hlsn : s.saved.bind PgPosition.lsn = none := Option.bind_eq_none_iff.mpr hsaved
  refine ⟨h.sorted, ?_, h.none_skipped, by simp, fun _ i j hl => ?_,
    fun pos hp hsome => absurd hsome (by simp [hsaved pos hp]), fun l hl => ?_⟩
  · simp only [bound, savedLSN, Option.bind_some]
    omega
  · obtain ⟨n, c, hr, -⟩ := hl
    simp at hr
  · cases hl
    refine ⟨by simp, by simp, fun left t rows heq => ?_, by simp, by simp, by simp, by simp, by simp,
      by simp [hlsn]⟩
    obtain ⟨rfl, rfl, rfl⟩ := Stage.snapshot.inj heq
    refine ⟨rfl, rfl, fun t n hr => by simp at hr, fun t ht => by simp [captured, ht], fun t ht => ?_⟩
    simp only [captured, decide_eq_true_eq] at ht
    exact .inl (ht.resolve_left htables)

theorem Inv.open_stream (hlife : s.life = none) {pos : PgPosition} (hsaved : s.saved = some pos)
    (hlsn : pos.lsn.isSome) :
    Inv src { s with life := some { phase := pos.phase, stage := .setup, snapshotDone := true
                                    committedLsn := pos.lsn } } := by
  obtain ⟨hcdc, hread, hrows, -⟩ := h.saved pos hsaved hlsn
  have hbound : bound { s with life := some { phase := pos.phase, stage := .setup, snapshotDone := true
                                              committedLsn := pos.lsn } } = s.bound := by
    simp [bound, savedLSN, hlife, hsaved]
  refine ⟨h.sorted, by rw [hbound]; exact h.bound_le, h.none_skipped, h.read_le, fun _ => ?_, fun pos' hp _ => ?_,
    fun l hl => ?_⟩
  · rw [hbound]
    exact h.covered (.inr ⟨pos, hsaved, hlsn⟩)
  · obtain rfl := Option.some.inj (hsaved.symm.trans hp)
    refine ⟨hcdc, hread, hrows, fun l hl => ?_⟩
    cases hl
    rfl
  · cases hl
    exact ⟨by simp, by simp, by simp, fun _ => ⟨hcdc, hread, by simpa using hrows⟩, fun _ _ => rfl, fun _ => hcdc,
      by simp, by simp, fun _ => ⟨rfl, hrows⟩⟩

theorem Inv.commit (c : Commit κ ρ) (hlsn : walEnd s.history < c.lsn)
    (hok : Orderly src s (.commit c)) : Inv src { s with history := s.history ++ [c] } := by
  have hbound : bound { s with history := s.history ++ [c] } = s.bound := rfl
  have hle := h.bound_le
  refine ⟨?_, ?_, h.none_skipped, fun p hp => ?_, fun hset i j hl => ?_, fun pos hp hcdc => ?_, fun l hl => ?_⟩
  · refine pairwise_append.mpr ⟨h.sorted, pairwise_singleton _ _, fun x hx y hy => ?_⟩
    obtain rfl := mem_singleton.mp hy
    obtain ⟨i, hi, rfl⟩ := getElem_of_mem hx
    have := commitLSN_le_walEnd h.sorted hi
    rw [commitLSN_eq hi] at this
    omega
  · rw [walEnd_append]
    omega
  · obtain ⟨h1, h2⟩ := h.read_le p hp
    refine ⟨h1, ?_⟩
    simp only [length_append]
    omega
  · by_cases hi : i < s.history.length
    · simp only [commitLSN_append c hi]
      exact h.covered hset i j (later_of_append hl hi)
    · obtain ⟨n, ch, hr, -, hch⟩ := hl
      have hi' : i = s.history.length := by
        have : i < (s.history ++ [c]).length := lt_length_of_change? hch
        simp only [length_append, length_singleton] at this
        omega
      subst hi'
      have hchange : ch ∈ c.changes := by
        simp only [change?, getElem?_concat_length] at hch
        exact mem_of_getElem? hch
      have hlsn' : commitLSN (s.history ++ [c]) s.history.length = c.lsn := by
        simp [commitLSN]
      rcases hok with hslot | ⟨hnone, hsaved⟩ | hfree
      · refine ⟨hslot, .inr ?_⟩
        simp only [hlsn']
        omega
      · rcases hset with hsome | ⟨pos, hpos, hcdc⟩
        · simp [hnone] at hsome
        · simp [hsaved pos hpos] at hcdc
      · exact absurd rfl (hfree ch hchange _ hr)
  · obtain ⟨h1, h2, h3, h4⟩ := h.saved pos hp hcdc
    exact ⟨h1, h2, rowsIn_append c (fun p hp => (h.read_le p hp).2) h3, h4⟩
  · exact (h.life l hl).commit c fun p hp => (h.read_le p hp).2

/-- A position that is not refused has an LSN exactly if its phase is `cdc`. -/
theorem Inv.lsn_of_valid {pos : PgPosition} (hsaved : s.saved = some pos)
    (hvalid : validateCheckpoint src pos = .ok ()) : pos.lsn.isSome ↔ pos.phase = .cdc := by
  refine ⟨fun hsome => (h.saved pos hsaved hsome).1, fun hcdc => ?_⟩
  by_contra hnone
  simp [validateCheckpoint, hcdc, Option.not_isSome_iff_eq_none.mp hnone] at hvalid

theorem Inv.openReader (hlife : s.life = none) (hok : Orderly src s .openReader) :
    Inv src (s.openReader src) := by
  obtain ⟨henable, htables⟩ := hok
  unfold Handoff.openReader
  split
  · rename_i hsaved
    rw [if_pos henable]
    have := h.open_snapshot htables (by simp [hsaved])
    simpa [hsaved] using this
  · rename_i pos hsaved
    split
    · exact h
    · rename_i hvalid
      have hlsn := h.lsn_of_valid hsaved hvalid
      cases hphase : pos.phase with
      | snapshot =>
        have hnone : pos.lsn = none := by simpa [hphase] using hlsn
        have := h.open_snapshot htables (by simp [hsaved, hnone])
        simpa [hsaved, hnone, henable] using this
      | cdc =>
        have := h.open_stream hlife hsaved (hlsn.mpr hphase)
        simpa [hphase] using this

theorem Inv.step [DecidableEq ρ] {e : Event κ ρ} (hok : Orderly src s e) : Inv src (s.step src e) := by
  cases e with
  | commit c =>
    rw [Handoff.step]
    split
    · rename_i hlsn
      exact h.commit c hlsn hok
    · exact h
  | openReader =>
    rw [Handoff.step]
    split
    · exact h
    · rename_i hlife
      exact h.openReader (by simpa using hlife) hok
  | _ =>
    simp only [Handoff.step]
    split
    · exact h
    · rename_i hlife
      exact h.onLife hlife hok

end

/-- The transaction that commits the row `key` at this LSN. -/
def insertA (key lsn : Nat) : Commit Nat Nat where
  lsn := lsn + 1
  changes := [{ table := "a", key, row := some key, lsn }]
  lt_lsn := by simp

/-- The second row is committed after the table was read and before there is a slot. -/
def lateCommit : List (Event Nat Nat) :=
  [.commit (insertA 1 10), .openReader, .select [(1, 1)], .row true, .finish, .commit (insertA 2 20), .setupSlot,
    .startReplication]

end OpenEtl.Source.PgSnapshot
