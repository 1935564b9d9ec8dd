import Mathlib.Data.List.Pairwise
import Mathlib.Order.Lattice
import OpenEtl.Pipeline.Saves
import OpenEtl.Pipeline.ZeroLoss
import OpenEtl.Source.MysqlBatch

/-!
# A `mysql_batch` source that reads ahead of its sink

`readLoop` calls `ReadBatch` again as soon as the records of a page are in the channel
(pipeline.go:951-986), while `writeLoop` writes and checkpoints batches. A checkpoint is asked for with
the last record of the batches written, but the reader answers with its live cursor.
-/

namespace OpenEtl.Source

open Trace (Always run added le_getLast_of_pairwise)
open List Pipeline

/-! ## The key column -/

/-- The order in which MySQL compares the key column and a query parameter. -/
structure Column (α : Type*) [LinearOrder α] where
  rank : Value → α
  /-- Go's integer types are one to the database -/
  rank_int : ∀ k n, rank (.int k n) = rank (.int64 n)
  /-- the empty string is compared with a number as 0 -/
  rank_blank : rank (.str "") = rank (.int64 0)

/-- Key values that the cursor can hold as they are. -/
def Exact : Value → Bool
  | .int .int _ | .int .int32 _ | .int .int64 _ | .str _ => true
  | _ => false

/-- A row that was scanned, with the number of its record when that was handed on. -/
structure ScannedRow where
  key : Value
  seq : Option Nat
deriving DecidableEq, Repr

structure Feed where
  reader : MySQLBatchReader
  scanned : List ScannedRow := []
  /-- how many records `ReadBatch` has returned -/
  emitted : Nat := 0

/-- The rows of a page are numbered when `ReadBatch` returns them. -/
def mark (emitted : Nat) (returned : Bool) (keys : List Value) : List ScannedRow :=
  keys.mapIdx fun i v => ⟨v, if returned then some (emitted + i + 1) else none⟩

/-- A turn of `readLoop`. -/
def Feed.read (conv : Conv) (batchSize : Nat) (f : Feed) (page : Page) : Feed :=
  let keys := (scannedRows f.reader page).map (rowKey f.reader)
  match readBatch conv f.reader batchSize page with
  | (r, .ok _) => ⟨r, f.scanned ++ mark f.emitted true keys, f.emitted + keys.length⟩
  | (r, .error _) => ⟨r, f.scanned ++ mark f.emitted false keys, f.emitted⟩

section

variable {α : Type*} [LinearOrder α] (col : Column α) (conv : Conv)

/-- The page answers the reader's query: rows behind the cursor, in the order of their keys. -/
def Answers (f : Feed) (page : Page) : Prop :=
  ∀ rows scanErr, page = .rows rows scanErr →
    rows.Pairwise (fun d d' => col.rank (rowKey f.reader d) ≤ col.rank (rowKey f.reader d')) ∧
      ∀ d ∈ rows, col.rank (cursorValue f.reader.lastCursor) < col.rank (rowKey f.reader d)

/-- Not handed on, or handed on after the `m`-th record. -/
def ScannedRow.Behind (m : Nat) (row : ScannedRow) : Prop := ∀ n, row.seq = some n → m < n

/-- Nothing was scanned but rows handed on up to the `m`-th record. -/
def Feed.ReadUpTo (f : Feed) (m : Nat) : Prop := ∀ row ∈ f.scanned, ¬ row.Behind m

/-- Reading from the cursor `c` resumes behind the `m`-th record at the latest, and with every row that
was read and not handed on up to it. -/
def Feed.Resumes (f : Feed) (m : Nat) (c : Option Cursor) : Prop :=
  (∀ row ∈ f.scanned, row.seq = some m → ∀ v, col.rank row.key < col.rank v →
      col.rank (cursorValue c) < col.rank v) ∧
    ∀ row ∈ f.scanned, row.Behind m → col.rank (cursorValue c) < col.rank row.key

/-! ## What is known of the scanned rows -/

variable {col conv}

theorem rank_cursorValue {v : Value} (h : Exact v = true) :
    ∃ c, cursorOf conv v = some c ∧ col.rank (cursorValue (some c)) = col.rank v := by
  cases v with
  | int k n =>
    cases k <;> simp only [Exact, Bool.false_eq_true] at h <;>
      exact ⟨.int n, rfl, (col.rank_int _ n).symm⟩
  | str s => exact ⟨.str s, rfl, rfl⟩
  | null | bool | float | bytes | time | json => simp [Exact] at h

/-- A cursor survives being saved and opened again. -/
theorem rank_openCursor {r : MySQLBatchReader} {rec : Record} {c : Option Cursor}
    (h : openCursor (checkpointForRecord r rec) = .ok c) :
    col.rank (cursorValue c) = col.rank (cursorValue r.lastCursor) := by
  unfold openCursor checkpointForRecord position at h
  rcases hc : r.lastCursor with _ | ⟨n | s⟩ <;> rw [hc] at h <;> simp only at h
  · obtain rfl : none = c := by simpa using h
    rfl
  · split at h
    · simp at h
    by_cases hn : n = 0
    · obtain rfl : none = c := by simpa [hn] using h
      rw [hn]
      exact col.rank_blank
    · obtain rfl : some (.int n) = c := by simpa [hn] using h
      rfl
  · obtain rfl : some (.str s) = c := by simpa using h
    rfl

variable (col conv)

/-- The scanned rows stand in key order, are numbered upwards, and the cursor is at the last of them. -/
structure Feed.Inv (f : Feed) : Prop where
  ordered : f.scanned.Pairwise fun a b => col.rank a.key ≤ col.rank b.key
  increasing : f.scanned.Pairwise fun a b => ∀ i j, a.seq = some i → b.seq = some j → i < j
  emitted : ∀ row ∈ f.scanned, ∀ i, row.seq = some i → i ≤ f.emitted
  cursor : ∀ row, f.scanned.getLast? = some row →
    col.rank (cursorValue f.reader.lastCursor) = col.rank row.key

variable {col conv}

theorem exists_getLast {β : Type*} {l : List β} {x : β} (hx : x ∈ l) : ∃ y, l.getLast? = some y :=
  ⟨_, getLast?_eq_some_getLast (ne_nil_of_mem hx)⟩

theorem mem_mark {emitted : Nat} {returned : Bool} {keys : List Value} {row : ScannedRow}
    (h : row ∈ mark emitted returned keys) :
    row.key ∈ keys ∧ ∀ i, row.seq = some i → emitted < i ∧ (returned = true ∧ i ≤ emitted + keys.length) := by
  obtain ⟨i, hi, rfl⟩ := mem_mapIdx.mp h
  refine ⟨getElem_mem hi, fun n hn => ?_⟩
  cases returned <;> simp at hn
  exact ⟨by omega, rfl, by omega⟩

theorem map_key_mark (emitted : Nat) (returned : Bool) (keys : List Value) :
    (mark emitted returned keys).map ScannedRow.key = keys := by
  unfold mark
  apply ext_getElem <;> simp

theorem mark_increasing (emitted : Nat) (returned : Bool) (keys : List Value) :
    (mark emitted returned keys).Pairwise fun a b => ∀ i j, a.seq = some i → b.seq = some j → i < j := by
  rw [pairwise_iff_getElem]
  intro i j hi hj hij m n hm hn
  simp only [mark, getElem_mapIdx] at hm hn
  cases returned <;> simp at hm hn
  omega

/-- With keys that the cursor can hold it ends at the last of them. -/
theorem rank_advance {keys : List Value} {v : Value} (c : Option Cursor) (h : ∀ v ∈ keys, Exact v = true)
    (hv : keys.getLast? = some v) : col.rank (cursorValue (advance conv c keys)) = col.rank v := by
  obtain ⟨keys', rfl⟩ := getLast?_eq_some_iff.mp hv
  obtain ⟨c', hc', hrank⟩ := @rank_cursorValue _ _ col conv v (h v (by simp))
  rw [advance, foldl_append, foldl_cons, foldl_nil, hc', Option.some_or]
  exact hrank

theorem Feed.read_eq (batchSize : Nat) (f : Feed) (page : Page) :
    ∃ returned, (f.read conv batchSize page).reader = (readBatch conv f.reader batchSize page).1 ∧
      (f.read conv batchSize page).scanned =
        f.scanned ++ mark f.emitted returned ((scannedRows f.reader page).map (rowKey f.reader)) ∧
      f.emitted ≤ (f.read conv batchSize page).emitted ∧
      (returned = true → (f.read conv batchSize page).emitted =
        f.emitted + ((scannedRows f.reader page).map (rowKey f.reader)).length) := by
  unfold Feed.read
  rcases readBatch conv f.reader batchSize page with ⟨r, e | recs⟩
  · exact ⟨false, rfl, rfl, Nat.le_refl _, by simp⟩
  · exact ⟨true, rfl, rfl, Nat.le_add_right _ _, fun _ => rfl⟩

/-- The keys a call scans are those of rows of the page, in order. -/
theorem scannedRows_sublist (r : MySQLBatchReader) {rows : List Data} {scanErr : Option Err} :
    (scannedRows r (.rows rows scanErr)).Sublist rows := by
  simp only [scannedRows]
  split
  · exact nil_sublist _
  · exact takeWhile_sublist _

variable {f : Feed}

theorem Answers.keys {page : Page} (h : Answers col f page) :
    ((scannedRows f.reader page).map (rowKey f.reader)).Pairwise (fun a b => col.rank a ≤ col.rank b) ∧
      ∀ v ∈ (scannedRows f.reader page).map (rowKey f.reader),
        col.rank (cursorValue f.reader.lastCursor) < col.rank v := by
  cases page with
  | refused e => simp [scannedRows]
  | rows rows scanErr =>
    obtain ⟨hpw, habove⟩ := h rows scanErr rfl
    have hsub := @scannedRows_sublist f.reader rows scanErr
    refine ⟨pairwise_map.mpr (hpw.sublist hsub), fun v hv => ?_⟩
    obtain ⟨d, hd, rfl⟩ := mem_map.mp hv
    exact habove d (hsub.subset hd)

/-- **One turn of the read loop.** -/
theorem Feed.Inv.read (batchSize : Nat) {page : Page} (h : Feed.Inv col f) (hpage : Answers col f page)
    (hexact : ∀ row ∈ (f.read conv batchSize page).scanned, Exact row.key = true) :
    Feed.Inv col (f.read conv batchSize page) := by
  obtain ⟨returned, hreader, hscanned, hle, hemitted⟩ := @Feed.read_eq conv batchSize f page
  obtain ⟨hpw, habove⟩ := hpage.keys
  have hcur := readBatch_lastCursor conv f.reader batchSize page
  generalize (scannedRows f.reader page).map (rowKey f.reader) = keys at *
  rw [hscanned] at hexact
  refine ⟨?_, ?_, ?_, ?_⟩
  · rw [hscanned]
    refine pairwise_append.mpr ⟨h.ordered, ?_, fun a ha b hb => ?_⟩
    · rw [← pairwise_map (f := ScannedRow.key) (R := fun a b => col.rank a ≤ col.rank b), map_key_mark]
      exact hpw
    · -- everything scanned before is at or before the cursor
      obtain ⟨last, hlast⟩ := exists_getLast ha
      have hb' := habove b.key (mem_mark hb).1
      rw [h.cursor last hlast] at hb'
      rcases le_getLast_of_pairwise h.ordered ha hlast with rfl | hle'
      · exact hb'.le
      · exact hle'.trans hb'.le
  · rw [hscanned]
    refine pairwise_append.mpr ⟨h.increasing, mark_increasing _ _ _, fun a ha b hb i j hi hj => ?_⟩
    exact (h.emitted a ha i hi).trans_lt ((mem_mark hb).2 j hj).1
  · intro row hrow i hi
    rw [hscanned] at hrow
    rcases mem_append.mp hrow with hrow | hrow
    · exact (h.emitted row hrow i hi).trans hle
    · obtain ⟨-, hret, hi'⟩ := (mem_mark hrow).2 i hi
      rw [hemitted hret]
      exact hi'
  · intro row hlast
    rw [hreader, hcur]
    rw [hscanned, getLast?_append] at hlast
    cases hm : (mark f.emitted returned keys).getLast? with
    | none =>
      have hkeys : keys = [] := by
        rw [← map_key_mark f.emitted returned keys, getLast?_eq_none_iff.mp hm, map_nil]
      rw [hm, Option.none_or] at hlast
      rw [hkeys]
      exact h.cursor row hlast
    | some last =>
      rw [hm, Option.some_or, Option.some.injEq] at hlast
      subst hlast
      have hkey : keys.getLast? = some last.key := by
        rw [← map_key_mark f.emitted returned keys, getLast?_map, hm]
        rfl
      refine rank_advance _ (fun v hv => ?_) hkey
      rw [← map_key_mark f.emitted returned keys] at hv
      obtain ⟨row', hrow', rfl⟩ := mem_map.mp hv
      exact hexact row' (mem_append_right _ hrow')

/-- **The saved position.** It resumes behind the `m`-th record and with all rows behind it, exactly if
nothing was scanned but rows handed on up to that record. -/
theorem Feed.Inv.resumes_iff (h : Feed.Inv col f) {m : Nat} {rec : Record} {c : Option Cursor}
    (hopen : openCursor (checkpointForRecord f.reader rec) = .ok c) : Feed.Resumes col f m c ↔ f.ReadUpTo m := by
  have hrank : ∀ row, f.scanned.getLast? = some row → col.rank (cursorValue c) = col.rank row.key :=
    fun row hrow => (rank_openCursor hopen).trans (h.cursor row hrow)
  constructor
  · rintro ⟨-, hbehind⟩ row hrow hb
    obtain ⟨last, hlast⟩ := exists_getLast hrow
    have hlt := hbehind row hrow hb
    rw [hrank last hlast] at hlt
    rcases le_getLast_of_pairwise h.ordered hrow hlast with rfl | hle
    · exact lt_irrefl _ hlt
    · exact absurd hlt hle.not_gt
  · intro hup
    refine ⟨fun row hrow hm v hv => ?_, fun row hrow hb => absurd hb (hup row hrow)⟩
    obtain ⟨last, hlast⟩ := exists_getLast hrow
    rw [hrank last hlast]
    rcases le_getLast_of_pairwise h.increasing hrow hlast with rfl | hlt
    · exact hv
    · -- a row after the `m`-th record would be behind it
      exact absurd (fun n hn => hlt m n hm hn) (hup last (mem_of_getLast? hlast))

/-! ## Runs -/

/-- What the two loops do: `readLoop` reads a page, or an event of the runner. -/
abbrev Act := Page ⊕ Event

variable (conv) in
/-- The read side after a sequence of both. -/
def feedAfter (batchSize : Nat) (f : Feed) (acts : List Act) : Feed :=
  acts.foldl (fun f => Sum.elim (f.read conv batchSize) fun _ => f) f

variable (col conv) in
/-- The database answers every query. -/
def Answered (batchSize : Nat) : Feed → List Act → Prop
  | _, [] => True
  | f, .inl page :: acts => Answers col f page ∧ Answered batchSize (f.read conv batchSize page) acts
  | f, .inr _ :: acts => Answered batchSize f acts

theorem scanned_feedAfter (batchSize : Nat) (acts : List Act) :
    ∀ f : Feed, f.scanned ⊆ (feedAfter conv batchSize f acts).scanned := by
  induction acts with
  | nil => exact fun f => List.Subset.refl _
  | cons a acts ih =>
    intro f
    refine List.Subset.trans ?_ (ih _)
    rcases a with page | e
    · obtain ⟨returned, -, hscanned, -⟩ := @Feed.read_eq conv batchSize f page
      show f.scanned ⊆ (f.read conv batchSize page).scanned
      rw [hscanned]
      exact subset_append_left _ _
    · exact List.Subset.refl _

/-- **Any interleaving** up to some point. -/
theorem Feed.Inv.feedAfter {batchSize : Nat} (pre post : List Act) : ∀ {f : Feed}, Feed.Inv col f →
    Answered col conv batchSize f (pre ++ post) →
    (∀ row ∈ (feedAfter conv batchSize f pre).scanned, Exact row.key = true) →
      Feed.Inv col (feedAfter conv batchSize f pre) := by
  induction pre with
  | nil => exact fun h _ _ => h
  | cons a pre ih =>
    intro f h hans hexact
    rcases a with page | e
    · refine ih (h.read batchSize hans.1 fun row hrow => hexact row ?_) hans.2 hexact
      exact scanned_feedAfter batchSize pre _ hrow
    · exact ih h hans hexact

variable (conv) in
/-- At a save, `P` of the read side and the last record of the batches it covers. -/
def AtSave (batchSize : Nat) (f : Feed) (P : Feed → Item → Prop) (pre : List Act) : Act → Prop
  | .inr (.save _ processed _) => ∀ it, processed.getLast? = some it → P (feedAfter conv batchSize f pre) it
  | _ => True

variable (col) in
/-- A restart from the position that the reader gives for the record skips nothing behind it. -/
def Bound (f : Feed) (it : Item) : Prop :=
  ∀ c, openCursor (checkpointForRecord f.reader it.record) = .ok c → Feed.Resumes col f it.seq c

structure Reading where
  state : St
  acts : List Act := []

/-- A call of the write loop, during which `pages k` are read before its `k`-th event. -/
def readingStep (C : Cfg) (E : Env) (runCtx : Storage.Ctx) (h : Reading)
    (i : Call × (Nat → List Page)) : Reading :=
  let s := step C E runCtx h.state i.1
  ⟨s, h.acts ++ Trace.weave i.2 (fun _ e => e) 0 (added h.state.log s.log)⟩

end

/-- **Checkpoints of a reader that reads ahead.** Whatever pages the read loop reads meanwhile, at every
save of the linear runner the position given for its last record is bound to that record exactly if
the reader has scanned nothing that was not handed on up to that record. -/
theorem checkpoint_bound_iff {α : Type*} [LinearOrder α] (col : Column α) (conv : Conv) (C : Cfg)
    (E : Env) (runCtx : Storage.Ctx) (s : St) (batchSize : Nat) (reader : MySQLBatchReader)
    (steps : List (Call × (Nat → List Page))) (acts : List Act)
    (hacts : acts = (run (readingStep C E runCtx) ⟨s, []⟩ steps).acts)
    (hpages : Answered col conv batchSize ⟨reader, [], 0⟩ acts)
    (hkeys : ∀ row ∈ (feedAfter conv batchSize ⟨reader, [], 0⟩ acts).scanned, Exact row.key = true) :
    Always (AtSave conv batchSize ⟨reader, [], 0⟩ fun f it =>
      ∀ c, openCursor (checkpointForRecord f.reader it.record) = .ok c →
        (Feed.Resumes col f it.seq c ↔ f.ReadUpTo it.seq)) acts := by
  intro pre a post heq
  subst heq
  have hstart : Feed.Inv col ⟨reader, [], 0⟩ := ⟨.nil, .nil, by simp, by simp⟩
  rcases a with page | e
  · trivial
  cases e with
  | save ctx processed err =>
    intro it _ c hopen
    refine (hstart.feedAfter pre _ hpages fun row hrow => hkeys row ?_).resumes_iff hopen
    rw [feedAfter, foldl_append]
    exact scanned_feedAfter batchSize _ _ hrow
  | _ => trivial

/-! ## Rows that a restart skips -/

/-- An `INT` key. -/
def intColumn : Column Int where
  rank
    | .int _ n => n
    | _ => 0
  rank_int _ _ := rfl
  rank_blank := rfl

def plainConv : Conv where
  trunc _ := 0
  wallClock := id

def idRows (ids : List Int) : Page := .rows (ids.map fun n => [("id", .int64 n)]) none

/-- Two records are written and checkpointed; `ahead` is read during the write. -/
def readingRun (ahead : List Page) : List Act :=
  (run (readingStep {} {} .background) ⟨{}, []⟩
    [(.batch [row 1, row 2],
      fun k => if k = 0 then [idRows [1, 2]] else if k = 3 then ahead else [])]).acts

theorem checkpoint_bound_iff_no_ahead :
    Always (AtSave plainConv 2 ⟨{}, [], 0⟩ fun f it =>
      ∀ c, openCursor (checkpointForRecord f.reader it.record) = .ok c →
        (Feed.Resumes intColumn f it.seq c ↔ f.ReadUpTo it.seq)) (readingRun []) := by
  refine checkpoint_bound_iff intColumn plainConv {} {} .background {} 2 {} _ (readingRun []) rfl ?_ (by decide)
  refine ⟨?_, trivial⟩
  intro rows scanErr hpage
  obtain ⟨rfl, -⟩ : [1, 2].map (fun n => [("id", Value.int64 n)]) = rows ∧ none = scanErr := by
    simpa [idRows] using hpage
  exact ⟨by decide, by decide⟩

/-- The next page is read while the first two records are written: the checkpoint is that of row 4, and a
restart skips rows 3 and 4. -/
theorem read_ahead_is_skipped :
    ¬ Always (AtSave plainConv 2 ⟨{}, [], 0⟩ (Bound intColumn)) (readingRun [idRows [3, 4]]) := by
  intro h
  have hb := h.at 6 rfl _ rfl (some (.int 4)) rfl
  have hlt := hb.2 ⟨.int64 3, some 3⟩ (by decide) (by
    intro n hn
    obtain rfl : 3 = n := by simpa using hn
    decide)
  exact absurd hlt (by decide)

end OpenEtl.Source
