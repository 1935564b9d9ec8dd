import Mathlib.Data.List.Perm.Basic
import OpenEtl.Sink.Relational

/-!
# What a batch does to each row

`write` compacts a batch, regroups it and turns it into statements over many rows. Where every record names its target
row (`Addressed`), none of this shows but in two ways: of the records of a row only the last is applied, and the mode
of its statement may be that of its group. A batch that is delivered again then changes nothing.
-/

namespace OpenEtl.Sink.Sql

open List Function Cells

section

variable (C : Cfg) (S : Server)

/-- The records a record is written as. -/
def expandOf (rec : Record) : List Record :=
  if C.pkColumnsFromMetadata then
    match C.identity rec with
    | .ok id => expandKeyChange rec id
    | .error _ => []
  else [rec]

def expanded (records : List Record) : List Record := records.flatMap (expandOf C)

def keyOf (rec : Record) : List String := (S.schema (targetTable C rec)).key

def rowOf (rec : Record) : Row := newRow S (targetTable C rec) (columnsOf C S rec) (valuesOf C S rec)

def deletedKey (rec : Record) : List Value :=
  (keyOf C S rec).map fun c => S.stored (targetTable C rec) c (((keyImage rec).get? c).getD .null)

def loc (rec : Record) : Loc :=
  (targetTable C rec, if rec.operation = .delete then deletedKey C S rec else (keyOf C S rec).map (rowOf C S rec))

/-- What a record does to its row, in a statement of the given mode. -/
def effect (mode : BatchMode) (rec : Record) : Option Row → Except Err (Option Row) :=
  if rec.operation = .delete then fun _ => .ok none
  else insertCell S (onDuplicate C (keyOf C S rec) (columnsOf C S rec) mode).2 (rowOf C S rec)

def rowText (rec : Record) : Option String := compactKey (fun _ => keyOf C S rec) rec

def compacted (records : List Record) : List Record := (expanded C records).foldl (compactStep (rowText C S)) []

def groupMode (out : List Record) (k : String × String) : BatchMode :=
  statementMode C (((out.filter (groupKey C S · = k)).filter (·.operation ≠ .delete)).map (·.operation))

/-- The mode a record of a batch is written with. -/
def modeIn (records : List Record) (rec : Record) : BatchMode :=
  groupMode C S (compacted C S records) (groupKey C S rec)

/-- Every record of the batch names its target row: the sink's key columns are the primary key of the target
table, the keys are complete, and two keys print alike exactly if they are equal in the table. -/
structure Addressed (records : List Record) : Prop where
  no_preWrite : C.preWrite = none
  configured : C.pkColumnsFromMetadata = false → ∀ r ∈ records,
    (if C.pkColumns ≠ [] then C.pkColumns else ["id"]) = keyOf C S r
  declared : C.pkColumnsFromMetadata = true → ∀ r ∈ records, r.metadata.table ≠ "" ∧
    trimSpace r.metadata.table = r.metadata.table ∧
      ∃ id, C.identity r = .ok id ∧ sortStrings id.columns = keyOf C S r
  complete : ∀ r ∈ expanded C records, (rowText C S r).isSome
  apart : ∀ r ∈ expanded C records, ∀ r' ∈ expanded C records,
    rowText C S r = rowText C S r' ↔ loc C S r = loc C S r'
  columns : ∀ r ∈ expanded C records, r.operation ≠ .delete →
    columnsOf C S r ≠ [] ∧ ∀ c ∈ columnsOf C S r, c ∈ (S.schema (targetTable C r)).columns
  signature : ∀ r ∈ expanded C records, ∀ r' ∈ expanded C records,
    groupKey C S r = groupKey C S r' → columnsOf C S r = columnsOf C S r'
  increments : ∀ p ∈ C.incrementColumns, ∀ r ∈ records, p.1 ∉ keyOf C S r

/-- A row stands under its own key. -/
def KeyedCell (l : Loc) (cell : Option Row) : Prop := ∀ row, cell = some row → (S.schema l.1).key.map row = l.2

def Keyed (db : Db) : Prop := ∀ l, KeyedCell S l (db l)

end

variable {C : Cfg} {S : Server} {records : List Record}

theorem loc_fst (r : Record) : (loc C S r).1 = targetTable C r := by
  rw [loc]

variable {r : Record}

theorem loc_snd_of_delete (h : r.operation = .delete) : (loc C S r).2 = deletedKey C S r := by
  rw [loc, if_pos h]

theorem loc_snd_of_live (h : r.operation ≠ .delete) : (loc C S r).2 = (keyOf C S r).map (rowOf C S r) := by
  rw [loc, if_neg h]

/-! ## Preparing -/

variable {rec x : Record}

theorem metadata_expandKeyChange {id : Identity} (h : x ∈ expandKeyChange rec id) : x.metadata = rec.metadata := by
  unfold expandKeyChange at h
  split at h
  · rcases mem_pair.mp h with rfl | rfl <;> rfl
  · rw [mem_singleton.mp h]

theorem metadata_expandOf (h : x ∈ expandOf C rec) : x.metadata = rec.metadata := by
  unfold expandOf at h
  split at h
  · split at h
    · exact metadata_expandKeyChange h
    · simp at h
  · rw [mem_singleton.mp h]

variable {b : Record}

theorem targetTable_congr {a : Record} (h : a.metadata = b.metadata) : targetTable C a = targetTable C b := by
  unfold targetTable
  rw [h]

theorem keyOf_congr {a : Record} (h : a.metadata = b.metadata) : keyOf C S a = keyOf C S b := by
  unfold keyOf
  rw [targetTable_congr h]

/-- The declared key columns of every table are those of its schema. -/
def Declares (S : Server) (byTable : List (String × List String)) : Prop :=
  ∀ t cols, byTable.lookup t = some cols → cols = (S.schema t).key

theorem declares_nil (S : Server) : Declares S [] := by
  intro t cols h
  simp at h

variable {byTable : List (String × List String)} {table : String}

theorem addColumns_ok (hd : Declares S byTable) (ht : table ≠ "") :
    addColumns byTable table (S.schema table).key = .ok ((table, (S.schema table).key) :: byTable) := by
  unfold addColumns
  rw [if_neg ht]
  cases hl : byTable.lookup table with
  | none => rfl
  | some cols => simp [hd table cols hl, isPerm_iff]

theorem lookup_cons (t t' : String) (cols : List String) (byTable : List (String × List String)) :
    ((t', cols) :: byTable).lookup t = if t = t' then some cols else byTable.lookup t := by
  rw [List.lookup_cons]
  by_cases h : t = t' <;> simp [h, beq_false_of_ne]

theorem Declares.cons (hd : Declares S byTable) (table : String) :
    Declares S ((table, (S.schema table).key) :: byTable) := by
  intro t cols h
  rw [lookup_cons] at h
  split at h
  · rename_i ht
    rw [ht, Option.some.inj h]
  · exact hd t cols h

variable {cols : List String}

theorem lookup_cons_isSome {t : String} (h : (byTable.lookup t).isSome) :
    (((table, cols) :: byTable).lookup t).isSome := by
  rw [lookup_cons]
  split
  · rfl
  · exact h

theorem targetTable_of_trimmed (hne : rec.metadata.table ≠ "")
    (htrim : trimSpace rec.metadata.table = rec.metadata.table) : targetTable C rec = rec.metadata.table := by
  unfold targetTable
  rw [htrim, if_pos hne]

theorem validateMetadataPKBatch_ok (hmeta : C.pkColumnsFromMetadata = true) :
    ∀ {records : List Record} {byTable : List (String × List String)}, Declares S byTable →
      (∀ r ∈ records, r.metadata.table ≠ "" ∧ trimSpace r.metadata.table = r.metadata.table ∧
        ∃ id, C.identity r = .ok id ∧ sortStrings id.columns = keyOf C S r) →
      ∃ byTable', validateMetadataPKBatch C byTable records = .ok (byTable', expanded C records) ∧
        Declares S byTable' ∧ (∀ t, (byTable.lookup t).isSome → (byTable'.lookup t).isSome) ∧
        ∀ r ∈ records, (byTable'.lookup r.metadata.table).isSome
  | [], byTable, hd, _ => ⟨byTable, rfl, hd, fun _ h => h, by simp⟩
  | rec :: rest, byTable, hd, h => by
    obtain ⟨hne, htrim, id, hid, hcols⟩ := h rec mem_cons_self
    have htarget := targetTable_of_trimmed (C := C) hne htrim
    have hkey : keyOf C S rec = (S.schema rec.metadata.table).key := by rw [keyOf, htarget]
    obtain ⟨byTable', hrest, hd', hkeep, hsome⟩ := validateMetadataPKBatch_ok hmeta
      ((hd.cons rec.metadata.table).cons rec.metadata.table) fun r hr => h r (mem_cons_of_mem _ hr)
    refine ⟨byTable', ?_, hd', fun t ht => hkeep t (lookup_cons_isSome (lookup_cons_isSome ht)), ?_⟩
    · rw [validateMetadataPKBatch, hid]
      simp only [hcols, hkey, htarget, htrim]
      rw [addColumns_ok hd hne]
      simp only
      rw [addColumns_ok (hd.cons _) hne]
      simp only [hrest]
      simp [expanded, expandOf, hmeta, hid]
    · intro r hr
      rcases mem_cons.mp hr with rfl | hr
      · exact hkeep _ (by simp)
      · exact hsome r hr

/-- A batch whose records name their rows is prepared, and every use of key columns gets those of the target
table. -/
theorem prepare_ok (h : Addressed C S records) :
    ∃ byTable, prepare C records = .ok (byTable, expanded C records) ∧
      ∀ r ∈ expanded C records, pkColumnsForTable C byTable r.metadata.table = keyOf C S r ∧
        statementPk C byTable (targetTable C r) = keyOf C S r := by
  cases hmeta : C.pkColumnsFromMetadata with
  | false =>
    refine ⟨[], ?_, fun r hr => ?_⟩
    · have hexp : expandOf C = fun r => [r] := by
        funext r
        simp [expandOf, hmeta]
      rw [prepare, hmeta, expanded, hexp]
      simp
    · obtain ⟨r', hr', hmem⟩ := mem_flatMap.mp hr
      have hkey := h.configured hmeta r' hr'
      rw [← keyOf_congr (metadata_expandOf hmem)] at hkey
      have hkne : keyOf C S r ≠ [] := (S.schema (targetTable C r)).key_ne
      refine ⟨by rw [pkColumnsForTable, hmeta]; exact hkey, ?_⟩
      unfold statementPk
      cases C.dialect with
      | mysql =>
        simp only [pkColumnsForTable, hmeta, Bool.false_eq_true, if_false, hkey]
        rw [if_neg hkne]
      | postgres =>
        split <;> simp_all
  | true =>
    obtain ⟨byTable, hval, hd, -, hsome⟩ := validateMetadataPKBatch_ok hmeta (declares_nil S) (h.declared hmeta)
    refine ⟨byTable, by rw [prepare, hmeta]; exact hval, fun r hr => ?_⟩
    obtain ⟨r', hr', hmem⟩ := mem_flatMap.mp hr
    have hm := metadata_expandOf hmem
    obtain ⟨hne, htrim, -⟩ := h.declared hmeta r' hr'
    have htarget : targetTable C r = r.metadata.table := by
      rw [targetTable_congr hm, hm, targetTable_of_trimmed hne htrim]
    obtain ⟨cols, hcols⟩ := Option.isSome_iff_exists.mp (hsome r' hr')
    rw [← hm] at hcols
    have hkey : cols = keyOf C S r := by
      rw [keyOf, htarget]
      exact hd _ _ hcols
    have hkne : keyOf C S r ≠ [] := (S.schema (targetTable C r)).key_ne
    have hpk : pkColumnsForTable C byTable r.metadata.table = keyOf C S r := by
      rw [pkColumnsForTable, hmeta, hcols]
      exact hkey
    refine ⟨hpk, ?_⟩
    unfold statementPk
    rw [htarget]
    cases C.dialect with
    | mysql =>
      simp only [hpk]
      rw [if_neg hkne]
    | postgres =>
      simp only [hmeta, if_true, hcols, Option.getD_some, hkey]
      rw [if_neg hkne, if_neg hkne]

/-! ## Compaction -/

theorem compactRecordsByPK_eq_compacted
    (hpk : ∀ r ∈ expanded C records, pkColumnsForTable C byTable r.metadata.table = keyOf C S r) :
    compactRecordsByPK (pkColumnsForTable C byTable) (expanded C records) = compacted C S records := by
  rw [compactRecordsByPK_eq]
  refine compact_congr fun r hr => ?_
  rw [rowText, ← hpk r hr]
  rfl

theorem mem_compacted (h : r ∈ compacted C S records) : r ∈ expanded C records := mem_of_mem_compact h

/-- Compaction keeps the last record of each row. -/
theorem compacted_filter (h : Addressed C S records) (l : Loc) :
    (compacted C S records).filter (loc C S · = l) =
      ((expanded C records).filter (loc C S · = l)).getLast?.toList :=
  compact_filter h.complete h.apart l

theorem compacted_nodup (h : Addressed C S records) : ((compacted C S records).map (loc C S)).Nodup := by
  rw [nodup_iff_count_le_one]
  intro l
  have hlen : ((compacted C S records).filter (loc C S · = l)).length ≤ 1 := by
    rw [compacted_filter h]
    cases ((expanded C records).filter (loc C S · = l)).getLast? <;> simp
  have hfilter : (compacted C S records).filter ((· == l) ∘ loc C S) =
      (compacted C S records).filter (loc C S · = l) := by
    refine filter_congr fun r _ => ?_
    rw [Bool.eq_iff_iff]
    simp
  rw [List.count, countP_map, countP_eq_length_filter, hfilter]
  exact hlen

/-! ## Statements -/

variable {α : Type*} {size : Nat}

theorem flatten_chunks (hsize : 0 < size) :
    ∀ {fuel : Nat} {l : List α}, l.length ≤ fuel → (chunks size fuel l).flatten = l
  | 0, l, h => by
    have : l = [] := length_eq_zero_iff.mp (by omega)
    simp [chunks, this]
  | fuel + 1, [], _ => rfl
  | fuel + 1, a :: l, h => by
    have hdrop : ((a :: l).drop size).length ≤ fuel := by
      simp only [length_drop] at h ⊢
      omega
    simp only [chunks, isEmpty_cons, Bool.false_eq_true, if_false, flatten_cons]
    rw [flatten_chunks hsize hdrop, take_append_drop]

theorem flatten_chunked (l : List α) : (chunked C l).flatten = l := flatten_chunks C.chunk_pos (le_refl _)

variable {β : Type*}

theorem chunks_map (f : α → β) (size : Nat) :
    ∀ (fuel : Nat) (l : List α), chunks size fuel (l.map f) = (chunks size fuel l).map (List.map f)
  | 0, _ => rfl
  | fuel + 1, [] => rfl
  | fuel + 1, a :: l => by
    rw [chunks, chunks]
    simp only [isEmpty_cons, Bool.false_eq_true, if_false, map_cons]
    rw [← map_cons, ← map_take, ← map_drop, chunks_map f size fuel]

theorem chunked_map (f : α → β) (l : List α) : chunked C (l.map f) = (chunked C l).map (List.map f) := by
  rw [chunked, length_map, chunks_map]
  rfl

variable {cs l : List α}

theorem mem_of_mem_chunked (h : cs ∈ chunked C l) {a : α} (ha : a ∈ cs) : a ∈ l := by
  rw [← flatten_chunked l]
  exact mem_flatten.mpr ⟨cs, h, ha⟩

theorem sublist_of_mem_chunked (h : cs ∈ chunked C l) : cs.Sublist l := by
  rw [← flatten_chunked l]
  exact sublist_flatten_of_mem h

theorem ne_nil_of_mem_chunks (hsize : 0 < size) :
    ∀ {fuel : Nat} {l : List α}, cs ∈ chunks size fuel l → cs ≠ []
  | 0, _, h => absurd h not_mem_nil
  | fuel + 1, [], h => absurd h not_mem_nil
  | fuel + 1, a :: l, h => by
    rcases mem_cons.mp h with rfl | h
    · obtain ⟨n, rfl⟩ := Nat.exists_eq_succ_of_ne_zero hsize.ne'
      simp
    · exact ne_nil_of_mem_chunks hsize h

theorem onDuplicate_conflict (pk cols : List String) (mode : BatchMode) :
    (onDuplicate C pk cols mode).1 = none ∨ (onDuplicate C pk cols mode).1 = some pk := by
  unfold onDuplicate
  split <;> simp

/-- An INSERT of different rows makes the change of each of its records. -/
theorem exec_insert {live : List Record}
    (hlive : ∀ r ∈ live, r.operation ≠ .delete ∧ targetTable C r = table ∧ columnsOf C S r = cols)
    (hcols : ∀ c ∈ cols, c ∈ (S.schema table).columns) (hnodup : (live.map (loc C S)).Nodup)
    (mode : BatchMode) (db : Db) :
    exec S db (.insert table cols (live.map (valuesOf C S)) (onDuplicate C (S.schema table).key cols mode).1
        (onDuplicate C (S.schema table).key cols mode).2) =
      run (live.map fun r => ⟨loc C S r, effect C S mode r⟩) db := by
  have hkeys : ((live.map (valuesOf C S)).map (newRow S table cols)).map (fun new => (S.schema table).key.map new) =
      live.map fun r => (loc C S r).2 := by
    rw [map_map, map_map]
    refine map_congr_left fun r hr => ?_
    obtain ⟨hop, ht, hc⟩ := hlive r hr
    rw [loc, if_neg hop, rowOf, keyOf, ht, hc]
    rfl
  have hlocs : live.map (loc C S) = (live.map fun r => (loc C S r).2).map (fun k => (table, k)) := by
    rw [map_map]
    refine map_congr_left fun r hr => ?_
    rw [comp, ← (hlive r hr).2.1, ← loc_fst]
  have hsecond : secondTime (onDuplicate C (S.schema table).key cols mode).1
      (onDuplicate C (S.schema table).key cols mode).2 (live.map fun r => (loc C S r).2) = false := by
    rw [hlocs] at hnodup
    unfold secondTime
    split
    · simp [hnodup.of_map]
    · rfl
  have hchanges : ((live.map (valuesOf C S)).map (newRow S table cols)).map
      (insertChange S table (onDuplicate C (S.schema table).key cols mode).2) =
        live.map fun r => ⟨loc C S r, effect C S mode r⟩ := by
    rw [map_map, map_map]
    refine map_congr_left fun r hr => ?_
    obtain ⟨hop, rfl, rfl⟩ := hlive r hr
    rw [loc, if_neg hop, effect, if_neg hop]
    rfl
  have hknown : (cols.any fun c => !(S.schema table).columns.contains c) = false := by
    simpa using hcols
  have hconflict : ((onDuplicate C (S.schema table).key cols mode).1.any fun cs =>
      !cs.isPerm (S.schema table).key) = false := by
    rcases onDuplicate_conflict (C := C) (S.schema table).key cols mode with h | h <;> simp [h, isPerm_iff]
  unfold exec
  simp only [hknown, hconflict, hkeys, hsecond, hchanges, Bool.false_eq_true, if_false]

def keyValues (C : Cfg) (S : Server) (r : Record) : List Value :=
  (keyOf C S r).map fun c => ((keyImage r).get? c).getD .null

theorem chain_clear {ds : List Record} (cell : Option Row) :
    chain (ds.map fun _ => fun _ => Except.ok (ε := Err) none) cell = .ok (if ds = [] then cell else none) := by
  induction ds generalizing cell with
  | nil => rfl
  | cons d ds ih =>
    rw [map_cons, chain]
    simp only [ih]
    by_cases h : ds = [] <;> simp [h]

theorem deletedKey_eq (h : targetTable C r = table) :
    zipWith (S.stored table) (S.schema table).key (keyValues C S r) = deletedKey C S r := by
  subst h
  rw [keyValues, deletedKey, keyOf, zipWith_map_right, zipWith_self]

variable {db : Db}

/-- A DELETE by primary key clears the row of each of its records. -/
theorem exec_delete {dead : List Record} (hdead : ∀ r ∈ dead, r.operation = .delete ∧ targetTable C r = table)
    (mode : BatchMode) (hdb : Keyed S db) :
    exec S db (.delete table (S.schema table).key (dead.map (keyValues C S))) =
      run (dead.map fun r => ⟨loc C S r, effect C S mode r⟩) db := by
  have hknown : ((S.schema table).key.any fun c => !(S.schema table).columns.contains c) = false := by
    simpa using (S.schema table).key_columns
  unfold exec
  simp only [hknown, Bool.false_eq_true, if_false]
  symm
  rw [run_eq_ok_iff]
  intro l
  have hcell : inCell (dead.map fun r => (⟨loc C S r, effect C S mode r⟩ : Change Loc (Option Row) Err)) l =
      (dead.filter (loc C S · = l)).map fun _ => fun _ => .ok none := by
    rw [inCell_map]
    refine map_congr_left fun r hr => ?_
    rw [effect, if_pos (hdead r (mem_of_mem_filter hr)).1]
  have hiff : ∀ row, db l = some row →
      ((l.1 = table ∧ ∃ values ∈ dead.map (keyValues C S),
        (S.schema table).key.map row = zipWith (S.stored table) (S.schema table).key values) ↔
        dead.filter (loc C S · = l) ≠ []) := by
    intro row hrow
    have hkey := hdb l row hrow
    rw [ne_eq, filter_eq_nil_iff, not_forall]
    constructor
    · rintro ⟨rfl, values, hvalues, heq⟩
      obtain ⟨r, hr, rfl⟩ := mem_map.mp hvalues
      obtain ⟨hop, ht⟩ := hdead r hr
      rw [deletedKey_eq ht, hkey] at heq
      have hloc : loc C S r = l := by
        rw [loc, if_pos hop, ht, ← heq]
      simpa using ⟨r, hr, hloc⟩
    · rintro ⟨r, hr⟩
      simp only [not_forall, not_not, decide_eq_true_eq] at hr
      obtain ⟨hr, rfl⟩ := hr
      obtain ⟨hop, ht⟩ := hdead r hr
      rw [loc_fst, loc_snd_of_delete hop, ht] at hkey
      refine ⟨(loc_fst r).trans ht, keyValues C S r, mem_map_of_mem hr, ?_⟩
      rw [deletedKey_eq ht, hkey]
  rw [hcell, chain_clear]
  cases hrow : db l with
  | none => simp
  | some row =>
    simp only [hiff row hrow]
    by_cases h : dead.filter (loc C S · = l) = [] <;> simp [h]

/-! ## Rows stay under their keys -/

/-- The key columns an assignment may change are set to what they are. -/
def Assign.Keeps (C : Cfg) : Assign → Prop
  | .set _ => True
  | .add target _ => ∃ p ∈ C.incrementColumns, p.1 = target

variable {a : Assign} {pk : List String}

theorem incrementAssigns_keeps (h : a ∈ incrementAssigns C pk cols) : a.Keeps C := by
  rcases mem_append.mp h with h | h
  · obtain ⟨p, hp, rfl⟩ := mem_map.mp h
    exact ⟨p, hp, rfl⟩
  · obtain ⟨c, _, rfl⟩ := mem_map.mp h
    trivial

theorem set_keeps (h : a ∈ cols.map Assign.set) : a.Keeps C := by
  obtain ⟨c, _, rfl⟩ := mem_map.mp h
  trivial

variable {assigns : List Assign}

theorem doUpdate_eq_update {as : List Assign} (h : doUpdate as = .update assigns) : as = assigns := by
  cases as with
  | nil => simp [doUpdate] at h
  | cons a as => simpa [doUpdate] using h

theorem onDuplicate_keeps {mode : BatchMode}
    (h : (onDuplicate C pk cols mode).2 = .update assigns) : ∀ a ∈ assigns, a.Keeps C := by
  intro a ha
  unfold onDuplicate at h
  split at h
  · simp at h
  · cases h
    exact set_keeps ha
  · cases h
    exact incrementAssigns_keeps ha
  · simp at h
  · obtain rfl := doUpdate_eq_update h
    exact set_keeps ha
  · obtain rfl := doUpdate_eq_update h
    exact incrementAssigns_keeps ha

variable {key : List String} {new : Row}

theorem assign_key {old : Row} (hkey : ∀ c ∈ key, new c = old c)
    (hinc : ∀ p ∈ C.incrementColumns, p.1 ∉ key) (ha : a.Keeps C) : ∀ c ∈ key, assign S new old a c = old c := by
  intro c hc
  cases a with
  | set c' =>
    by_cases h : c = c'
    · subst h
      simp [assign, hkey c hc]
    · simp [assign, update_of_ne h]
  | add target source =>
    obtain ⟨p, hp, rfl⟩ := ha
    have h : c ≠ p.1 := fun heq => hinc p hp (heq ▸ hc)
    simp [assign, update_of_ne h]

theorem assigns_key (hinc : ∀ p ∈ C.incrementColumns, p.1 ∉ key) :
    ∀ {assigns : List Assign} {old : Row}, (∀ c ∈ key, new c = old c) → (∀ a ∈ assigns, a.Keeps C) →
      ∀ c ∈ key, assigns.foldl (assign S new) old c = old c
  | [], _, _, _ => fun _ _ => rfl
  | a :: as, old, hkey, hkeep => by
    intro c hc
    have hstep := assign_key (S := S) hkey hinc (hkeep a mem_cons_self)
    rw [foldl_cons, assigns_key hinc (fun c hc => by rw [hstep c hc, hkey c hc])
      (fun a ha => hkeep a (mem_cons_of_mem _ ha)) c hc]
    exact hstep c hc

theorem keyedCell_loc {cell : Option Row} : KeyedCell S (loc C S r) cell ↔
    ∀ row, cell = some row → (keyOf C S r).map row = (loc C S r).2 := by
  rw [KeyedCell, loc_fst, keyOf]

/-- A record leaves its row under its key. -/
theorem effect_keeps (hinc : ∀ p ∈ C.incrementColumns, p.1 ∉ keyOf C S r) {mode : BatchMode} {cell cell' : Option Row}
    (h : KeyedCell S (loc C S r) cell) (he : effect C S mode r cell = .ok cell') : KeyedCell S (loc C S r) cell' := by
  rw [keyedCell_loc] at h ⊢
  unfold effect at he
  split at he
  · cases he
    nofun
  · rename_i hop
    rw [loc_snd_of_live hop] at h ⊢
    cases cell with
    | none =>
      cases he
      rintro row ⟨⟩
      rfl
    | some old =>
      have hold := h old rfl
      simp only [insertCell] at he
      split at he
      · simp at he
      · cases he
        exact h
      · rename_i assigns hdup
        cases he
        rintro row ⟨⟩
        rw [← hold]
        refine map_congr_left fun c hc => ?_
        exact assigns_key hinc (fun c hc => (map_inj_left.mp hold c hc).symm) (onDuplicate_keeps hdup) c hc

/-! ## The statements of a batch -/

/-- A statement makes changes of single rows, which leave rows under their keys. -/
def Makes (S : Server) (p : Statement × List (Change Loc (Option Row) Err)) : Prop :=
  (∀ db, Keyed S db → exec S db p.1 = run p.2 db) ∧
    ∀ c ∈ p.2, ∀ x x', KeyedCell S c.cell x → c.apply x = .ok x' → KeyedCell S c.cell x'

/-- Such statements make all their changes, one statement after the other. -/
theorem execAll_eq_run :
    ∀ {stmts : List (Statement × List (Change Loc (Option Row) Err))} {db : Db}, (∀ p ∈ stmts, Makes S p) →
      Keyed S db → execAll S db (stmts.map Prod.fst) = run (stmts.flatMap Prod.snd) db
  | [], _, _, _ => rfl
  | p :: stmts, db, h, hdb => by
    obtain ⟨hexec, hkeep⟩ := h p mem_cons_self
    rw [map_cons, execAll, flatMap_cons, run_append, hexec db hdb]
    cases hrun : run p.2 db with
    | error e => rfl
    | ok db' =>
      exact execAll_eq_run (fun q hq => h q (mem_cons_of_mem _ hq)) (run_keeps hkeep hrun hdb)

theorem keyImage_of_delete (hop : r.operation = .delete) :
    (if r.before = [] then r.data else r.before) = keyImage r := by
  unfold keyImage
  by_cases hb : r.before = [] <;> simp [hb, hop]

theorem resolveDeleteKeys_ok (hop : r.operation = .delete) (h : (rowText C S r).isSome) :
    resolveDeleteKeys r (keyOf C S r) = .ok (keyValues C S r) := by
  have hne : keyOf C S r ≠ [] := (S.schema (targetTable C r)).key_ne
  have hpresent : ∀ c ∈ keyOf C S r, (keyImage r).present c = true := by
    simp only [rowText, compactKey, if_neg hne] at h
    split at h
    · rename_i hall
      exact all_eq_true.mp hall
    · simp at h
  unfold resolveDeleteKeys
  simp only [keyImage_of_delete hop]
  rw [if_neg hne]
  have hfind : ((keyOf C S r).find? fun c => !(keyImage r).present c) = none := by
    rw [find?_eq_none]
    intro c hc
    simp [hpresent c hc]
  rw [hfind]
  rfl

variable {ε : Type*}

theorem mapM_ok {f : α → Except ε β} {g : α → β} :
    ∀ {l : List α}, (∀ a ∈ l, f a = .ok (g a)) → l.mapM f = .ok (l.map g)
  | [], _ => rfl
  | a :: l, h => by
    rw [mapM_cons, h a mem_cons_self, mapM_ok fun b hb => h b (mem_cons_of_mem _ hb)]
    rfl

/-- The change a record of a compacted batch makes. -/
def changeOf (C : Cfg) (S : Server) (out : List Record) (r : Record) : Change Loc (Option Row) Err :=
  ⟨loc C S r, effect C S (groupMode C S out (groupKey C S r)) r⟩

/-- The statements of a group, each with the changes it makes. -/
def groupChanges (C : Cfg) (S : Server) (out : List Record) (k : String × String) (first : Record)
    (group : List Record) : List (Statement × List (Change Loc (Option Row) Err)) :=
  let clause := onDuplicate C (keyOf C S first) (columnsOf C S first) (groupMode C S out k)
  ((chunked C (group.filter (·.operation ≠ .delete))).map fun live =>
    (.insert (targetTable C first) (columnsOf C S first) (live.map (valuesOf C S)) clause.1 clause.2,
      live.map (changeOf C S out))) ++
  ((chunked C (group.filter (·.operation = .delete))).map fun dead =>
    (.delete (targetTable C first) (keyOf C S first) (dead.map (keyValues C S)), dead.map (changeOf C S out)))

section

variable {k : String × String} {first : Record} {rest : List Record}

theorem groupKey_fst (r : Record) : (groupKey C S r).1 = targetTable C r := by
  rw [groupKey]

section

variable (h : Addressed C S records) (hg : (compacted C S records).filter (groupKey C S · = k) = first :: rest)

include h hg

/-- What the records of a group have in common. -/
theorem group_spec {r : Record} (hr : r ∈ first :: rest) :
    r ∈ expanded C records ∧ groupKey C S r = k ∧ targetTable C r = targetTable C first ∧
      columnsOf C S r = columnsOf C S first := by
  have hmem : ∀ x ∈ first :: rest, x ∈ expanded C records ∧ groupKey C S x = k := by
    intro x hx
    rw [← hg] at hx
    obtain ⟨hx, hk⟩ := mem_filter.mp hx
    exact ⟨mem_compacted hx, by simpa using hk⟩
  obtain ⟨hrx, hrk⟩ := hmem r hr
  obtain ⟨hfx, hfk⟩ := hmem first mem_cons_self
  have heq : groupKey C S r = groupKey C S first := hrk.trans hfk.symm
  have ht : targetTable C r = targetTable C first := by
    rw [← groupKey_fst r, heq, groupKey_fst]
  exact ⟨hrx, hrk, ht, h.signature r hrx first hfx heq⟩

theorem groupStatements_ok {byTable : List (String × List String)}
    (hpk : ∀ r ∈ expanded C records, statementPk C byTable (targetTable C r) = keyOf C S r) :
    groupStatements C S byTable (first :: rest) =
      .ok ((groupChanges C S (compacted C S records) k first (first :: rest)).map Prod.fst) := by
  have hspec := fun r hr => group_spec h hg (r := r) hr
  have hdead : ((first :: rest).filter (·.operation = .delete)).mapM
      (fun r => resolveDeleteKeys r (keyOf C S first)) =
        .ok (((first :: rest).filter (·.operation = .delete)).map (keyValues C S)) := by
    refine mapM_ok fun r hr => ?_
    obtain ⟨hr, hop⟩ := mem_filter.mp hr
    obtain ⟨hrx, _, ht, _⟩ := hspec r hr
    have hkey : keyOf C S first = keyOf C S r := by rw [keyOf, keyOf, ht]
    rw [hkey]
    exact resolveDeleteKeys_ok (by simpa using hop) (h.complete r hrx)
  have hcols : ¬((first :: rest).filter (·.operation ≠ .delete) ≠ [] ∧ columnsOf C S first = []) := by
    rintro ⟨hne, hnil⟩
    obtain ⟨r, hr⟩ := exists_mem_of_ne_nil _ hne
    obtain ⟨hr, hop⟩ := mem_filter.mp hr
    obtain ⟨hrx, _, _, hc⟩ := hspec r hr
    exact (h.columns r hrx (by simpa using hop)).1 (hc.trans hnil)
  unfold groupStatements
  simp only [hpk first (hspec first mem_cons_self).1, hdead]
  rw [if_neg hcols, groupChanges, groupMode, hg, chunked_map, chunked_map]
  simp only [map_append, map_map]
  rfl

/-- Each statement of a group makes the changes of its records. -/
theorem groupChanges_spec :
    ∀ p ∈ groupChanges C S (compacted C S records) k first (first :: rest), Makes S p := by
  have hspec := fun r hr => group_spec h hg (r := r) hr
  have hchange : ∀ rs : List Record, (∀ r ∈ rs, r ∈ first :: rest) →
      rs.map (changeOf C S (compacted C S records)) =
        rs.map fun r => ⟨loc C S r, effect C S (groupMode C S (compacted C S records) k) r⟩ := by
    intro rs hrs
    refine map_congr_left fun r hr => ?_
    rw [changeOf, (hspec r (hrs r hr)).2.1]
  have hkeep : ∀ rs : List Record, (∀ r ∈ rs, r ∈ first :: rest) →
      ∀ c ∈ rs.map (changeOf C S (compacted C S records)), ∀ x x', KeyedCell S c.cell x →
        c.apply x = .ok x' → KeyedCell S c.cell x' := by
    intro rs hrs c hc x x' hx hok
    obtain ⟨r, hr, rfl⟩ := mem_map.mp hc
    obtain ⟨r', hr', hmem⟩ := mem_flatMap.mp (hspec r (hrs r hr)).1
    refine effect_keeps (fun p hp => ?_) hx hok
    rw [keyOf_congr (metadata_expandOf hmem)]
    exact h.increments p hp r' hr'
  intro p hp
  rcases mem_append.mp hp with hp | hp
  · obtain ⟨live, hlive, rfl⟩ := mem_map.mp hp
    have hin : ∀ r ∈ live, r ∈ first :: rest ∧ r.operation ≠ .delete := fun r hr => by
      obtain ⟨hr, hop⟩ := mem_filter.mp (mem_of_mem_chunked hlive hr)
      exact ⟨hr, by simpa using hop⟩
    refine ⟨fun db _ => ?_, hkeep live fun r hr => (hin r hr).1⟩
    simp only [hchange live fun r hr => (hin r hr).1]
    obtain ⟨r, hr⟩ := exists_mem_of_ne_nil _ (ne_nil_of_mem_chunks C.chunk_pos hlive)
    obtain ⟨hrx, _, ht, hc⟩ := hspec r (hin r hr).1
    refine exec_insert (fun r hr => ?_) (fun c hcol => ?_) ?_ _ db
    · obtain ⟨_, _, ht, hc⟩ := hspec r (hin r hr).1
      exact ⟨(hin r hr).2, ht, hc⟩
    · rw [← hc] at hcol
      rw [← ht]
      exact (h.columns r hrx (hin r hr).2).2 c hcol
    · have hsub := (sublist_of_mem_chunked hlive).trans filter_sublist
      rw [← hg] at hsub
      exact (compacted_nodup h).sublist ((hsub.trans filter_sublist).map _)
  · obtain ⟨dead, hdead, rfl⟩ := mem_map.mp hp
    have hin : ∀ r ∈ dead, r ∈ first :: rest ∧ r.operation = .delete := fun r hr => by
      obtain ⟨hr, hop⟩ := mem_filter.mp (mem_of_mem_chunked hdead hr)
      exact ⟨hr, by simpa using hop⟩
    refine ⟨fun db hdb => ?_, hkeep dead fun r hr => (hin r hr).1⟩
    simp only [hchange dead fun r hr => (hin r hr).1]
    exact exec_delete (fun r hr => ⟨(hin r hr).2, (hspec r (hin r hr).1).2.2.1⟩) _ hdb

end

theorem flatMap_chunked {α β : Type*} (f : α → β) (l : List α) :
    ((chunked C l).flatMap fun cs => cs.map f) = l.map f := by
  rw [flatMap_def, ← map_flatten, flatten_chunked]

theorem groupChanges_flatMap (out : List Record) (group : List Record) :
    (groupChanges C S out k first group).flatMap Prod.snd =
      (group.filter (·.operation ≠ .delete) ++ group.filter (·.operation = .delete)).map (changeOf C S out) := by
  simp only [groupChanges, flatMap_append, flatMap_map, map_append]
  rw [flatMap_chunked, flatMap_chunked]

end

/-- The statements of a group of a compacted batch, with their changes. -/
def statementsOf (C : Cfg) (S : Server) (out : List Record) :
    List Record → List (Statement × List (Change Loc (Option Row) Err))
  | [] => []
  | first :: rest => groupChanges C S out (groupKey C S first) first (first :: rest)

theorem mem_groups {out group : List Record} (h : group ∈ groups C S out) :
    group = [] ∨ ∃ first rest, group = first :: rest ∧
      out.filter (groupKey C S · = groupKey C S first) = first :: rest := by
  obtain ⟨k, _, rfl⟩ := mem_map.mp h
  cases hg : out.filter (groupKey C S · = k) with
  | nil => exact .inl rfl
  | cons first rest =>
    have hfirst : first ∈ out.filter (groupKey C S · = k) := by
      rw [hg]
      exact mem_cons_self
    have hk : groupKey C S first = k := by simpa using (mem_filter.mp hfirst).2
    exact .inr ⟨first, rest, rfl, by rw [hk, hg]⟩

theorem statementsOf_flatMap (out group : List Record) : (statementsOf C S out group).flatMap Prod.snd =
    (group.filter (·.operation ≠ .delete) ++ group.filter (·.operation = .delete)).map (changeOf C S out) := by
  cases group with
  | nil => rfl
  | cons first rest => exact groupChanges_flatMap out _

/-- The changes of all statements are those of the compacted records, in another order. -/
theorem statements_perm (out : List Record) :
    (((groups C S out).flatMap (statementsOf C S out)).flatMap Prod.snd).Perm (out.map (changeOf C S out)) := by
  have hsplit : ∀ group : List Record,
      (group.filter (·.operation ≠ .delete) ++ group.filter (·.operation = .delete)).Perm group := by
    intro group
    have hperm := filter_append_perm (fun r : Record => decide (r.operation ≠ .delete)) group
    simpa using hperm
  rw [flatMap_assoc]
  simp only [statementsOf_flatMap]
  rw [← map_flatMap]
  refine Perm.map _ ((Perm.flatMap_left _ fun group _ => hsplit group).trans ?_)
  rw [groups, flatMap_map]
  exact flatMap_filter_perm _ (nodup_eraseDups _) fun r hr =>
    mem_eraseDups.mpr (mem_map_of_mem hr)

/-- **A batch is a run of changes of single rows**: those of its compacted records, statement by statement. -/
theorem write_eq_run (h : Addressed C S records) (hdb : Keyed S db) :
    write C S db records =
      run (((groups C S (compacted C S records)).flatMap (statementsOf C S (compacted C S records))).flatMap
        Prod.snd) db := by
  obtain ⟨byTable, hprep, hpk⟩ := prepare_ok h
  have hcomp := compactRecordsByPK_eq_compacted fun r hr => (hpk r hr).1
  unfold write
  rw [hprep]
  simp only [hcomp]
  by_cases hnil : expanded C records = []
  · have hnone : compacted C S records = [] := by rw [compacted, hnil]; rfl
    rw [if_pos hnil, hnone]
    rfl
  have hstmts : (groups C S (compacted C S records)).mapM (groupStatements C S byTable) =
      .ok ((groups C S (compacted C S records)).map fun group =>
        (statementsOf C S (compacted C S records) group).map Prod.fst) := by
    refine mapM_ok fun group hgroup => ?_
    rcases mem_groups hgroup with rfl | ⟨first, rest, rfl, hg⟩
    · rfl
    · exact groupStatements_ok h hg fun r hr => (hpk r hr).2
  have hspec : ∀ p ∈ (groups C S (compacted C S records)).flatMap (statementsOf C S (compacted C S records)),
      Makes S p := by
    intro p hp
    obtain ⟨group, hgroup, hp⟩ := mem_flatMap.mp hp
    rcases mem_groups hgroup with rfl | ⟨first, rest, rfl, hg⟩
    · cases hp
    · exact groupChanges_spec h hg p hp
  have hpre : runPreWrite C db (expanded C records) = db := by rw [runPreWrite, h.no_preWrite]
  rw [if_neg hnil, hstmts]
  simp only [hpre]
  rw [← flatMap_def, ← map_flatMap, execAll_eq_run hspec hdb]

variable {db' : Db}

/-- **What a batch does in each cell**: the last record of the row, in the mode of its group. -/
theorem write_ok_iff (h : Addressed C S records) (hdb : Keyed S db) :
    write C S db records = .ok db' ↔
      ∀ l, chain (((expanded C records).filter (loc C S · = l)).getLast?.toList.map fun r =>
        effect C S (modeIn C S records r) r) (db l) = .ok (db' l) := by
  rw [write_eq_run h hdb, run_eq_ok_iff]
  refine forall_congr' fun l => ?_
  have hnodup : ((compacted C S records).map (changeOf C S (compacted C S records))).map Change.cell |>.Nodup := by
    rw [map_map]
    exact compacted_nodup h
  have hperm := statements_perm (C := C) (S := S) (compacted C S records)
  rw [← inCell_perm hperm.symm hnodup l]
  have hcell : inCell ((compacted C S records).map (changeOf C S (compacted C S records))) l =
      ((expanded C records).filter (loc C S · = l)).getLast?.toList.map fun r =>
        effect C S (modeIn C S records r) r := by
    rw [← compacted_filter h]
    exact inCell_map _ _ _ _
  rw [hcell]

/-- The rows of a row's records, applied in turn, stay under its key. -/
theorem chain_keeps {l : Loc} {mode : Record → BatchMode} :
    ∀ {rs : List Record} {x x' : Option Row},
      (∀ r ∈ rs, loc C S r = l ∧ ∀ p ∈ C.incrementColumns, p.1 ∉ keyOf C S r) →
        chain (rs.map fun r => effect C S (mode r) r) x = .ok x' → KeyedCell S l x → KeyedCell S l x'
  | [], _, _, _, hc, hx => by
    cases hc
    exact hx
  | r :: rs, x, x', h, hc, hx => by
    obtain ⟨rfl, hinc⟩ := h r mem_cons_self
    rw [map_cons, chain] at hc
    cases he : effect C S (mode r) r x with
    | error e => simp [he] at hc
    | ok y =>
      simp only [he] at hc
      exact chain_keeps (fun r' hr' => h r' (mem_cons_of_mem _ hr')) hc (effect_keeps hinc hx he)

theorem chain_singleton {ρ : Type*} (f : ρ → Except ε ρ) (x : ρ) : chain [f] x = f x := by
  unfold chain chain
  cases f x <;> rfl

/-! ## Redelivery -/

theorem assign_sets (new old : Row) (cols : List String) :
    (cols.map Assign.set).foldl (assign S new) old = fun c => if c ∈ cols then new c else old c := by
  induction cols generalizing old with
  | nil => simp
  | cons c cols ih =>
    rw [map_cons, foldl_cons, ih]
    funext c'
    by_cases hc : c' = c <;> simp [assign, hc]

/-- An INSERT with this clause does nothing the second time. -/
def OnDuplicate.Settles : OnDuplicate → Prop
  | .fail => False
  | .ignore => True
  | .update assigns => ∃ cols : List String, assigns = cols.map .set

theorem insertCell_again {new : Row} {cell cell' : Option Row} : ∀ {onDup : OnDuplicate}, onDup.Settles →
    insertCell S onDup new cell = .ok cell' → insertCell S onDup new cell' = .ok cell'
  | .ignore, _, h => by cases cell <;> cases h <;> rfl
  | .update _, ⟨cols, rfl⟩, h => by
    cases cell with
    | none =>
      cases h
      simp [insertCell, assign_sets]
    | some old =>
      cases h
      simp only [insertCell, assign_sets, Except.ok.injEq, Option.some.injEq]
      funext c
      by_cases hc : c ∈ cols <;> simp [hc]

theorem doUpdate_settles : ∀ cols : List String, (doUpdate (cols.map .set)).Settles
  | [] => trivial
  | c :: cols => ⟨c :: cols, rfl⟩

theorem onDuplicate_settles (hC : C.batchMode = .upsert ∨ C.dialect = .mysql ∧ C.batchMode = .insert)
    (pk cols : List String) (ops : List OpType) : (onDuplicate C pk cols (statementMode C ops)).2.Settles := by
  unfold onDuplicate statementMode
  rcases hC with hC | ⟨hd, hC⟩
  · cases C.dialect with
    | mysql => simpa [hC] using ⟨cols, rfl⟩
    | postgres => simpa only [hC, ite_self] using doUpdate_settles _
  · by_cases hu : .update ∈ ops
    · simpa [hd, hC, hu] using ⟨cols, rfl⟩
    · simp [hd, hC, hu, OnDuplicate.Settles]

theorem write_keyed (h : Addressed C S records) (hdb : Keyed S db) (hw : write C S db records = .ok db') :
    Keyed S db' := by
  intro l
  refine chain_keeps (fun r hr => ?_) ((write_ok_iff h hdb).mp hw l) (hdb l)
  obtain ⟨hr, hl⟩ := mem_filter.mp (mem_of_getLast? (Option.mem_toList.mp hr))
  obtain ⟨rec, hrec, hr⟩ := mem_flatMap.mp hr
  refine ⟨by simpa using hl, fun p hp => ?_⟩
  rw [keyOf_congr (metadata_expandOf hr)]
  exact h.increments p hp rec hrec

/-- **A batch that is delivered again changes nothing**, unless it counts up, or its INSERTs fail on rows that are
there. -/
theorem write_again (hC : C.batchMode = .upsert ∨ C.dialect = .mysql ∧ C.batchMode = .insert)
    (h : Addressed C S records) (hdb : Keyed S db) (hw : write C S db records = .ok db') :
    write C S db' records = .ok db' := by
  rw [write_ok_iff h (write_keyed h hdb hw)]
  intro l
  have hl := (write_ok_iff h hdb).mp hw l
  cases hlast : ((expanded C records).filter (loc C S · = l)).getLast? with
  | none => rfl
  | some r =>
    simp only [hlast, Option.toList_some, map_cons, map_nil, chain_singleton] at hl ⊢
    unfold effect at hl ⊢
    split at hl
    · rwa [if_pos ‹_›]
    · rw [if_neg ‹_›]
      exact insertCell_again (onDuplicate_settles hC _ _ _) hl

def counters : Server where
  schema _ :=
    { columns := ["id", "n"], key := ["id"], key_ne := by decide, key_columns := by decide
      default := fun _ => .null, generated := [] }
  stored _ _ v := v
  plus
    | .int k m, .int _ n => .int k (m + n)
    | .null, b => b
    | a, _ => a

def row (id n : Int) : Record :=
  { data := [("id", .int64 id), ("n", .int64 n)], metadata := { table := "counters" } }

/-- The counter of row 1 at 10, and no other row. -/
def atTen : Db := fun l =>
  if l = ("counters", [.int64 1]) then some fun c => if c = "id" then .int64 1 else .int64 10 else none

theorem keyed_atTen : Keyed counters atTen := by
  intro l row hrow
  unfold atTen at hrow
  split at hrow
  · subst_vars
    cases hrow
    rfl
  · cases hrow

def upsertSink : Cfg := { dialect := .postgres, batchMode := .upsert, pkColumns := ["id"] }

/-- Row 1 is updated and row 2 inserted; the second time both are there. -/
theorem write_again_upsert :
    ∃ db, write upsertSink counters atTen [row 1 5, row 2 7] = .ok db ∧
      (db ("counters", [.int64 1])).map (· "n") = some (.int64 5) ∧
      (db ("counters", [.int64 2])).map (· "n") = some (.int64 7) ∧
      write upsertSink counters db [row 1 5, row 2 7] = .ok db :=
  ⟨_, rfl, by decide +kernel, by decide +kernel, write_again (.inl rfl) ⟨rfl, by decide +kernel, nofun, by decide +kernel,
    by decide +kernel, by decide +kernel, by decide +kernel, nofun⟩ keyed_atTen rfl⟩

end OpenEtl.Sink.Sql
