import OpenEtl.Lib.Replacing
import OpenEtl.Sink.ClickHouse
import OpenEtl.Source.MysqlCdc

/-!
# What a `source_order` table keeps

A delivery cuts the change records of a source into batches, in any order and with any repetitions. Of the rows
inserted under a key the table keeps the one with the greatest version, the last inserted among equals (`finalRow`).
-/

namespace OpenEtl.Sink.ClickHouse

open List Replacing

variable {C : Cfg}

/-! ## The rows of one record -/

/-- The version and delete columns are the sink's own: no key column is one of them. -/
def KeysApart (C : Cfg) : Prop :=
  ∀ table, C.versionCol ∉ primaryKeyColumns C table ∧ C.deleteCol ∉ primaryKeyColumns C table

theorem rowVersion_stamped (rec : Record) (version : Nat) (deleted : Bool) :
    rowVersion C (stamped C rec version deleted) = version := by
  simp [rowVersion, stamped, Data.get?_set, C.columns_ne]

theorem version_rowOf (table : String) (rec : Record) : (rowOf C table rec).version = rowVersion C rec := by
  unfold rowOf
  split <;> rfl

theorem key_rowOf (table : String) (rec : Record) : (rowOf C table rec).key = rowKey C table rec := by
  unfold rowOf
  split <;> rfl

variable {rec : Record} {tombstone : Record}

/-- What `keyChangeTombstone` adds: the old image under its own key, with the version of the update. -/
theorem keyChangeTombstone_some {version : Nat}
    (h : keyChangeTombstone C rec version = .ok (some tombstone)) :
    tombstone = stamped C { rec with operation := .delete, data := rec.data.merge rec.before } version true ∧
      ∃ table, resolveTable C rec = .ok table ∧ keyChanged rec (primaryKeyColumns C table) = true := by
  unfold keyChangeTombstone at h
  split at h
  · simp at h
  · rename_i table htable
    simp only at h
    split at h
    · simp at h
    · split at h
      · rename_i hchanged
        simp only [Except.ok.injEq, Option.some.injEq] at h
        exact ⟨h.symm, table, htable, hchanged⟩
      · simp at h

/-- The records made of a change record: the change itself, and the tombstone of the key an update left. -/
theorem prepareRecord_cases (hmode : C.versionMode = .sourceOrder) {out : List Record}
    (h : prepareRecord C rec = .ok out) :
    (sourceOrder rec).versionAvailable = true ∧
      ((∃ deleted, out = [stamped C rec (sourceOrder rec).version deleted]) ∨
        ∃ tombstone, out = [stamped C rec (sourceOrder rec).version false, tombstone] ∧
          rec.operation = .update ∧
          keyChangeTombstone C (stamped C rec (sourceOrder rec).version false) (sourceOrder rec).version =
            .ok (some tombstone)) := by
  unfold prepareRecord at h
  rw [hmode] at h
  simp only at h
  split at h
  · simp at h
  · rename_i hav
    have hav : (sourceOrder rec).available = true ∧ (sourceOrder rec).versionAvailable = true := by
      simpa using hav
    refine ⟨hav.2, ?_⟩
    split at h
    · exact .inl ⟨true, (Except.ok.inj h).symm⟩
    · rename_i hop
      split at h
      · simp at h
      · exact .inl ⟨false, (Except.ok.inj h).symm⟩
      · rename_i tombstone htomb
        exact .inr ⟨tombstone, (Except.ok.inj h).symm, hop, htomb⟩
    · exact .inl ⟨false, (Except.ok.inj h).symm⟩

theorem preparedOf_cases (hacc : Accepted C rec) :
    preparedOf C rec = [] ∨ ∃ out, preparedOf C rec = out ∧ prepareRecord C rec = .ok out := by
  unfold preparedOf
  by_cases hddl : rec.operation = .ddl
  · exact .inl (if_pos hddl)
  · obtain hd | ⟨out, hout, _⟩ := hacc
    · exact absurd hd hddl
    · right
      rw [if_neg hddl, hout]
      exact ⟨out, rfl, rfl⟩

variable {table : String}

/-- The tombstone of a changed key has another key than the change. -/
theorem rowKey_tombstone_ne (hkeys : KeysApart C) (version : Nat)
    (hchanged : keyChanged rec (primaryKeyColumns C table) = true) :
    rowKey C table (stamped C { rec with operation := .delete, data := rec.data.merge rec.before } version true) ≠
      rowKey C table rec := by
  intro heq
  obtain ⟨c, hc, hne⟩ := any_eq_true.mp hchanged
  have hat := map_inj_left.mp heq c hc
  have hv : c ≠ C.versionCol := fun h => (hkeys table).1 (h ▸ hc)
  have hd : c ≠ C.deleteCol := fun h => (hkeys table).2 (h ▸ hc)
  split at hne
  · rename_i original after hbefore hafter
    simp [stamped, Data.get?_set, hv, hd, Data.get?_merge, hbefore, hafter] at hat
    simp [hat] at hne
  · simp at hne

theorem inTable_eq (h : inTable C table rec = true) : resolveTable C rec = .ok table := by
  unfold inTable at h
  split at h
  · rename_i t ht
    rw [ht, beq_iff_eq.mp h]
  · simp at h

variable {p : Record}

theorem blocks_singleton (h : inTable C table p = true) :
    (blocks C [p] table).flatten = [rowOf C table p] := by
  cases hop : p.operation <;> simp [blocks, tableBatch, rowOf, h, hop]

theorem blocks_update_tombstone (hp : p.operation = .update)
    (ht : tombstone.operation = .delete) (hin : inTable C table p = true) (hin' : inTable C table tombstone = true) :
    (blocks C [p, tombstone] table).flatten = [rowOf C table p, rowOf C table tombstone] := by
  simp [blocks, tableBatch, rowOf, hp, ht, hin, hin']

/-- The rows of an accepted record: all with its version, no two under one key. -/
theorem rowsOf_spec (hmode : C.versionMode = .sourceOrder) (hkeys : KeysApart C) (hacc : Accepted C rec) {row : Row}
    (h : row ∈ rowsOf C table rec) :
    (sourceOrder rec).versionAvailable = true ∧ row.version = (sourceOrder rec).version ∧
      (rowsOf C table rec).filter (·.key = row.key) = [row] := by
  rw [rowsOf_of_accepted hacc] at h ⊢
  obtain ⟨p, hp, ht, rfl⟩ := mem_blocks.mp h
  rcases preparedOf_cases hacc with hnil | ⟨out, hprep, hout⟩
  · rw [hnil] at hp
    exact absurd hp not_mem_nil
  obtain ⟨hav, hcases⟩ := prepareRecord_cases hmode hout
  rw [hprep] at hp ⊢
  refine ⟨hav, ?_⟩
  rcases hcases with ⟨deleted, rfl⟩ | ⟨tombstone, rfl, hop, htomb⟩
  · obtain rfl := mem_singleton.mp hp
    refine ⟨by rw [version_rowOf, rowVersion_stamped], ?_⟩
    rw [blocks_singleton ht]
    simp
  · obtain ⟨rfl, table', htable, hchanged⟩ := keyChangeTombstone_some htomb
    generalize hlive : stamped C rec (sourceOrder rec).version false = live at *
    have hlop : live.operation = .update := by rw [← hlive]; exact hop
    have hin : inTable C table live = true := by
      rcases mem_pair.mp hp with rfl | rfl
      · exact ht
      · exact ht
    obtain rfl : table' = table := by
      rw [inTable_eq hin] at htable
      exact (Except.ok.inj htable).symm
    have hne := rowKey_tombstone_ne hkeys (sourceOrder rec).version hchanged
    rw [blocks_update_tombstone hlop rfl hin (by exact hin)]
    rcases mem_pair.mp hp with rfl | rfl
    · refine ⟨by rw [version_rowOf, ← hlive, rowVersion_stamped], ?_⟩
      simp [key_rowOf, hne]
    · refine ⟨by rw [version_rowOf, rowVersion_stamped], ?_⟩
      simp [key_rowOf, hne.symm]

/-! ## Deliveries -/

/-- The rows a table is sent by a sequence of batches. -/
def inserted (C : Cfg) (d : List (List Record)) (table : String) : List Row := d.flatMap (rowsWritten C table)

/-- The row `ReplacingMergeTree(version, is_deleted)` keeps for a key. -/
def finalRow (C : Cfg) (d : List (List Record)) (table : String) (key : List String) : Option Row :=
  kept Row.version ((inserted C d table).filter (·.key = key))

/-- The batches hold the events in some order, each at least once. -/
def Delivers (events : List Record) (d : List (List Record)) : Prop := ∀ e, e ∈ d.flatten ↔ e ∈ events

/-- The changes of a key in source order: each event with the row it produces. -/
def changes (C : Cfg) (events : List Record) (table : String) (key : List String) : List (Record × Row) :=
  events.flatMap fun e => ((rowsOf C table e).filter (·.key = key)).map (e, ·)

/-- After every delivery the row of the last change is the one kept. -/
def Converges (C : Cfg) (events : List Record) : Prop :=
  ∀ d, Delivers events d → ∀ table key,
    finalRow C d table key = (changes C events table key).getLast?.map Prod.snd

/-- The last change of a key has a greater position than every change to another row. -/
def LastIsGreatest (C : Cfg) (events : List Record) : Prop :=
  ∀ table key last, (changes C events table key).getLast? = some last →
    ∀ c ∈ changes C events table key, c.2 = last.2 ∨ (sourceOrder c.1).Before (sourceOrder last.1)

section

variable {events : List Record} {d : List (List Record)} {table : String} {key : List String} {c : Record × Row}

theorem mem_changes : c ∈ changes C events table key ↔ c.1 ∈ events ∧ c.2 ∈ rowsOf C table c.1 ∧ c.2.key = key := by
  obtain ⟨e, row⟩ := c
  simp only [changes, mem_flatMap, mem_map, mem_filter, decide_eq_true_eq, Prod.mk.injEq]
  constructor
  · rintro ⟨e, he, row, ⟨hrow, hkey⟩, rfl, rfl⟩
    exact ⟨he, hrow, hkey⟩
  · rintro ⟨he, hrow, hkey⟩
    exact ⟨e, he, row, ⟨hrow, hkey⟩, rfl, rfl⟩

variable {row : Row}

theorem mem_inserted (hacc : ∀ e ∈ events, Accepted C e) (hd : Delivers events d) :
    row ∈ inserted C d table ↔ ∃ e ∈ events, row ∈ rowsOf C table e := by
  have hbatch : ∀ batch ∈ d, ∀ e ∈ batch, Accepted C e := fun batch hb e he =>
    hacc e ((hd e).mp (mem_flatten.mpr ⟨batch, hb, he⟩))
  simp only [inserted, mem_flatMap]
  constructor
  · rintro ⟨batch, hb, hrow⟩
    obtain ⟨e, he, hrow⟩ := (mem_rowsWritten (hbatch batch hb)).mp hrow
    exact ⟨e, (hd e).mp (mem_flatten.mpr ⟨batch, hb, he⟩), hrow⟩
  · rintro ⟨e, he, hrow⟩
    obtain ⟨batch, hb, he⟩ := mem_flatten.mp ((hd e).mpr he)
    exact ⟨batch, hb, (mem_rowsWritten (hbatch batch hb)).mpr ⟨e, he, hrow⟩⟩

/-- The rows inserted under a key are those of the changes of the key. -/
theorem mem_inserted_key (hacc : ∀ e ∈ events, Accepted C e) (hd : Delivers events d) :
    row ∈ (inserted C d table).filter (·.key = key) ↔ ∃ e, (e, row) ∈ changes C events table key := by
  rw [mem_filter, mem_inserted hacc hd, decide_eq_true_eq]
  constructor
  · rintro ⟨⟨e, he, hrow⟩, hkey⟩
    exact ⟨e, mem_changes.mpr ⟨he, hrow, hkey⟩⟩
  · rintro ⟨e, hc⟩
    obtain ⟨he, hrow, hkey⟩ := mem_changes.mp hc
    exact ⟨⟨e, he, hrow⟩, hkey⟩

/-- The delivery that hands over every event alone, in order, and one of them again at the end. -/
theorem delivers_replay {e : Record} (he : e ∈ events) : Delivers events (events.map (fun x => [x]) ++ [[e]]) := by
  intro x
  grind

open Source.Cdc in
theorem changes_sorted {T : Texts} {r : Reader} {log : List Event} (hf : Forward T r log) :
    (changes C (records T r log) table key).Pairwise fun a b => position a.1 ≤ position b.1 := by
  refine pairwise_flatMap.mpr ⟨fun e _ => ?_, ?_⟩
  · refine pairwise_map.mpr (pairwise_of_forall_mem_list fun a _ b _ => le_refl _)
  · refine (records_sorted hf).imp fun hle x hx y hy => ?_
    obtain ⟨_, _, rfl⟩ := mem_map.mp hx
    obtain ⟨_, _, rfl⟩ := mem_map.mp hy
    exact hle

section

variable (hmode : C.versionMode = .sourceOrder) (hkeys : KeysApart C)

include hmode hkeys

section

variable (hacc : ∀ e ∈ events, Accepted C e)

include hacc

/-- A record changes a key at most once. -/
theorem changes_unique {a b : Record × Row} (ha : a ∈ changes C events table key) (hb : b ∈ changes C events table key)
    (h : a.1 = b.1) : a.2 = b.2 := by
  obtain ⟨he, hrow, hkey⟩ := mem_changes.mp ha
  obtain ⟨_, hrow', hkey'⟩ := mem_changes.mp hb
  have hmem : b.2 ∈ (rowsOf C table a.1).filter (·.key = a.2.key) := by
    rw [h]
    exact mem_filter.mpr ⟨hrow', by simp [hkey, hkey']⟩
  rw [(rowsOf_spec hmode hkeys (hacc _ he) hrow).2.2] at hmem
  exact (mem_singleton.mp hmem).symm

variable (hscope : ∀ a ∈ events, ∀ b ∈ events, (sourceOrder a).scope = (sourceOrder b).scope)

include hscope

/-- Versions of two changes compare as the positions of their events. -/
theorem changes_version_lt_iff {c' : Record × Row} (hc : c ∈ changes C events table key)
    (hc' : c' ∈ changes C events table key) :
    c.2.version < c'.2.version ↔ (sourceOrder c.1).Before (sourceOrder c'.1) := by
  obtain ⟨he, hrow, _⟩ := mem_changes.mp hc
  obtain ⟨he', hrow', _⟩ := mem_changes.mp hc'
  obtain ⟨hav, hver, _⟩ := rowsOf_spec hmode hkeys (hacc _ he) hrow
  obtain ⟨hav', hver', _⟩ := rowsOf_spec hmode hkeys (hacc _ he') hrow'
  rw [hver, hver']
  exact version_lt_iff hav hav' (hscope _ he _ he')

theorem finalRow_of_greatest (h : LastIsGreatest C events) : Converges C events := by
  intro d hd table key
  cases hlast : (changes C events table key).getLast? with
  | none =>
    have hnil : (inserted C d table).filter (·.key = key) = [] := by
      rw [eq_nil_iff_forall_not_mem]
      intro row hrow
      obtain ⟨e, hc⟩ := (mem_inserted_key hacc hd).mp hrow
      rw [getLast?_eq_none_iff.mp hlast] at hc
      exact absurd hc not_mem_nil
    rw [finalRow, hnil]
    rfl
  | some last =>
    have hmem := mem_of_getLast? hlast
    refine kept_eq_of_dominates ((mem_inserted_key hacc hd).mpr ⟨last.1, hmem⟩) ?_
    intro row hrow
    obtain ⟨e, hc⟩ := (mem_inserted_key hacc hd).mp hrow
    rcases h table key last hlast _ hc with heq | hbefore
    · exact .inl heq
    · exact .inr ((changes_version_lt_iff hmode hkeys hacc hscope hc hmem).mpr hbefore)

/-- A change that is not before the last one, replayed at the end, replaces its row. -/
theorem replay_replaces {last : Record × Row}
    (hc : c ∈ changes C events table key) (hlast : last ∈ changes C events table key) (hne : c.2 ≠ last.2)
    (hbefore : ¬(sourceOrder c.1).Before (sourceOrder last.1)) :
    finalRow C (events.map (fun x => [x]) ++ [[c.1]]) table key ≠ some last.2 := by
  obtain ⟨he, hrow, hkey⟩ := mem_changes.mp hc
  obtain ⟨_, _, hunique⟩ := rowsOf_spec hmode hkeys (hacc _ he) hrow
  have hsplit : inserted C (events.map (fun x => [x]) ++ [[c.1]]) table =
      inserted C (events.map fun x => [x]) table ++ rowsOf C table c.1 := by
    simp [inserted, rowsOf]
  rw [finalRow, hsplit, filter_append, ← hkey, hunique]
  refine kept_snoc_ne hne ?_
  rw [← not_lt, changes_version_lt_iff hmode hkeys hacc hscope hc hlast]
  exact hbefore

end

/-! ## Binlogs -/

open Source.Cdc

variable {T : Texts} {r : Reader} {log : List Event} (hf : Forward T r log) (hacc : ∀ e ∈ records T r log, Accepted C e)
  (hone : ∀ table key, ∀ a ∈ changes C (records T r log) table key,
    ∀ b ∈ changes C (records T r log) table key, position a.1 = position b.1 → a.2 = b.2)

include hf hacc hone

/-- In a binlog the last change has the greatest position, if no transaction leaves two different rows
under one key. -/
theorem binlog_lastIsGreatest : LastIsGreatest C (records T r log) := by
  intro table key last hlast c hc
  have hmem := mem_of_getLast? hlast
  rcases Trace.le_getLast_of_pairwise (changes_sorted hf) hc hlast with rfl | hle
  · exact .inl rfl
  rcases hle.eq_or_lt with heq | hlt
  · exact .inl (hone table key c hc last hmem heq)
  · obtain ⟨he, hrow, _⟩ := mem_changes.mp hc
    obtain ⟨he', hrow', _⟩ := mem_changes.mp hmem
    have hav := (rowsOf_spec hmode hkeys (hacc _ he) hrow).1
    have hav' := (rowsOf_spec hmode hkeys (hacc _ he') hrow').1
    exact .inr ((before_iff_position_lt (records_sourceType he) (records_sourceType he') hav hav').mpr hlt)

/-- **A binlog converges** if no transaction leaves two different rows under one key. -/
theorem binlog_converges
    (hscope : ∀ a ∈ records T r log, ∀ b ∈ records T r log, (sourceOrder a).scope = (sourceOrder b).scope) :
    Converges C (records T r log) :=
  finalRow_of_greatest hmode hkeys hacc hscope (binlog_lastIsGreatest hmode hkeys hf hacc hone)

end

/-! ## Convergence -/

/-- **Convergence**: every delivery ends with the row of the last change of each key exactly if the last
change of each key has a greater position than every other change to another row. -/
theorem converges_iff (hmode : C.versionMode = .sourceOrder) (hkeys : KeysApart C)
    (hacc : ∀ e ∈ events, (write C [e]).isOk = true)
    (hscope : ∀ a ∈ events, ∀ b ∈ events, (sourceOrder a).scope = (sourceOrder b).scope) :
    Converges C events ↔ LastIsGreatest C events := by
  have hacc : ∀ e ∈ events, Accepted C e := fun e he => accepted_iff.mpr (hacc e he)
  constructor
  · intro h table key last hlast c hc
    by_contra hcon
    obtain ⟨hne, hbefore⟩ := not_or.mp hcon
    refine replay_replaces hmode hkeys hacc hscope hc (mem_of_getLast? hlast) hne hbefore ?_
    rw [h _ (delivers_replay (mem_changes.mp hc).1) table key, hlast]
    rfl
  · exact finalRow_of_greatest hmode hkeys hacc hscope

end

section

open Source.Cdc

def itemsTable : Table := { name := "items", columns := ["id", "qty"], pkColumns := [0] }

def itemRow (id qty : Int) : List Value := [.int64 id, .int64 qty]

def itemRows (action : Action) (rows : List (List Value)) : Event := .rows { table := itemsTable, action, rows }

def itemReader : Reader :=
  { name := "shop", database := "shop", lastPosName := "mysql-bin.000001", lastPos := 100 }

def itemTexts : Texts := { marshal := fun _ => none, extractDDLTable := fun _ => "" }

def itemSink : Cfg := { database := "dw", table := "items" }

/-- Item 1 is inserted, changed and deleted in three transactions. -/
def itemHistory : List Event :=
  [itemRows .insert [itemRow 1 10], .xid "mysql-bin.000001" 200,
    itemRows .update [itemRow 1 10, itemRow 1 20], .xid "mysql-bin.000002" 50,
    itemRows .delete [itemRow 1 20], .xid "mysql-bin.000002" 90]

theorem itemSink_keysApart : KeysApart itemSink := by
  intro table
  rw [show primaryKeyColumns itemSink table = ["id"] from rfl]
  decide

theorem itemHistory_accepted : ∀ e ∈ records itemTexts itemReader itemHistory, (write itemSink [e]).isOk = true := by
  decide +kernel

theorem itemHistory_scope : ∀ a ∈ records itemTexts itemReader itemHistory,
    ∀ b ∈ records itemTexts itemReader itemHistory, (sourceOrder a).scope = (sourceOrder b).scope := by
  decide +kernel

theorem itemHistory_forward : Forward itemTexts itemReader itemHistory := by
  refine ⟨?_, ?_, ?_, ?_, ?_, ?_, trivial⟩ <;> decide +kernel

theorem itemHistory_position : ∀ a ∈ records itemTexts itemReader itemHistory,
    ∀ b ∈ records itemTexts itemReader itemHistory, position a = position b → a = b := by
  decide +kernel

/-- However the three transactions are delivered, the table ends with the tombstone. -/
theorem converges_iff_three_transactions : Converges itemSink (records itemTexts itemReader itemHistory) := by
  have hacc := fun e he => accepted_iff.mpr (itemHistory_accepted e he)
  refine (converges_iff rfl itemSink_keysApart itemHistory_accepted itemHistory_scope).mpr ?_
  refine binlog_lastIsGreatest rfl itemSink_keysApart itemHistory_forward hacc fun _ _ a ha b hb heq => ?_
  exact changes_unique rfl itemSink_keysApart hacc ha hb
    (itemHistory_position a.1 (mem_changes.mp ha).1 b.1 (mem_changes.mp hb).1 heq)

theorem item_transactions_converge : Converges itemSink (records itemTexts itemReader itemHistory) := by
  have hacc := fun e he => accepted_iff.mpr (itemHistory_accepted e he)
  refine binlog_converges rfl itemSink_keysApart itemHistory_forward hacc (fun _ _ a ha b hb heq => ?_) itemHistory_scope
  exact changes_unique rfl itemSink_keysApart hacc ha hb
    (itemHistory_position a.1 (mem_changes.mp ha).1 b.1 (mem_changes.mp hb).1 heq)

/-- `DELETE` and `INSERT` of item 1 in one transaction. -/
def reinsertItem : List Event :=
  [itemRows .delete [itemRow 1 10], itemRows .insert [itemRow 1 20], .xid "mysql-bin.000001" 200]

/-- Item 1 is moved to key 2 and back in one multi-row event. -/
def moveItemAndBack : List Event :=
  [itemRows .update [itemRow 1 10, itemRow 2 10, itemRow 2 10, itemRow 1 10], .xid "mysql-bin.000001" 200]

/-- All events of a log are accepted and delivered once and in order, the last change of item 1 leaves it in
the source, and the table has it deleted. -/
def LosesItem (log : List Event) : Prop :=
  let events := records itemTexts itemReader log
  (∀ e ∈ events, (write itemSink [e]).isOk = true) ∧ Delivers events [events] ∧
    (changes itemSink events "items" ["1"]).getLast?.map (fun c => c.2.columns "_is_deleted") =
      some (some (deleteFlag false)) ∧
    (finalRow itemSink [events] "items" ["1"]).map (fun row => row.columns "_is_deleted") =
      some (some (deleteFlag true))

/-- All rows of a transaction have one version, and the tombstones are sent last. -/
theorem last_change_is_lost : LosesItem reinsertItem ∧ LosesItem moveItemAndBack := by
  refine ⟨⟨?_, by simp [Delivers], ?_⟩, ⟨?_, by simp [Delivers], ?_⟩⟩
  · decide +kernel
  · decide +kernel
  · decide +kernel
  · decide +kernel

end

end OpenEtl.Sink.ClickHouse
