import OpenEtl.Source.PgRobust

/-!
# A table in the snapshot and in the stream (`source/postgres_cdc.go:356-402, 540-585, 800-838, 1436-1486`)

| here | there |
| --- | --- |
| `loadTablePKs` | `loadTablePKs` (:544), from the rows of the answer on |
| `qualified` | the schema and the name of a configured table (:561, 1444) |
| `snapshotRecord` | the record of a row in `runSnapshot` (:1474) |

`run` reads the snapshot before it loads the keys (:367, 402), and its rows have the configured name.
A RELATION message has the schema of a table, which is dropped, and the keys are stored under the name alone.
The query for the keys selects from `rc`, which it does not define; the answer is then an error and has no rows.
-/

namespace OpenEtl.Source.Pg

open Bytes (ofBigEndian)
open List Function

abbrev Table := String × String

def qualified (t : String) : Table :=
  match t.toList.dropWhile (· ≠ '.') with
  | [] => ("public", t)
  | _ :: name => (String.ofList (t.toList.takeWhile (· ≠ '.')), String.ofList name)

/-- The key columns of the tables, of which the code sees the name. -/
def loadTablePKs (c : PgCatalog) (answer : List (Table × String)) : PgCatalog :=
  let pending name := (answer.filter (·.1.2 = name)).map Prod.snd
  { c with tablePKs := (answer.map (·.1.2)).map (fun name => (name, pending name)) ++ c.tablePKs }

def snapshotRecord (src : PostgresCDCSource) (catalog : PgCatalog) (t : String) (data : Data) : Record :=
  { operation := .insert, data
    metadata :=
      { source := src.name, sourceType := "postgres_cdc", sourcePhase := "snapshot", database := src.database
        table := t, primaryKeyColumns := catalog.primaryKeys t } }

abbrev RelationMsg := { data : List UInt8 // relationWhole data = true }

namespace RelationMsg

variable (m : RelationMsg)

def relID : Nat := ofBigEndian (m.val.take 4)

def table : Table :=
  let ns := readNullString (m.val.drop 4)
  (Bytes.text ns.1, Bytes.text (readNullString (ns.2.getD [])).1)

end RelationMsg

section

variable (D : Decoder) (src : PostgresCDCSource) (answer : List (Table × String)) (sends : Set RelationMsg)

/-- The streams of a CDC phase, with the table each number stands for. -/
inductive Streams : Stream → (Nat → Option Table) → Prop
  | start : Streams { catalog := loadTablePKs {} answer } fun _ => none
  | frame {s of} (lsn : String) : Streams s of → Streams { s with lsn } of
  | relation {s of m s' outs rest} : Streams s of → m ∈ sends → parseRelationMsg s m.val = .next s' outs rest →
      Streams s' (update of m.relID (some m.table))
  | message {s of lsn kind body s' outs rest} : Streams s of → kind ≠ 82 →
      handleMessage D src s lsn kind body = .next s' outs rest → Streams s' of

/-- The rows of the snapshot, of which there are none unless `enableSnapshot` is set (:366). -/
inductive SnapshotRow : Table → Record → Prop
  | mk {t} (data : Data) : src.enableSnapshot = true → t ∈ src.tables →
      SnapshotRow (qualified t) (snapshotRecord src {} t data)

inductive CdcRow : Table → Record → Prop
  | mk {s of n table} (op lsn data before) : Streams D src answer sends s of → of n = some table →
      CdcRow table (rowRecord src s.catalog op n lsn data before)

/-- A table has one identity in both phases, and tables with one name have neither the name nor key columns of each
other. -/
structure OneIdentity : Prop where
  phases : ∀ table r r', SnapshotRow src table r → CdcRow D src answer sends table r' →
    r.metadata.table = r'.metadata.table ∧ r.metadata.primaryKeyColumns = r'.metadata.primaryKeyColumns
  apart : ∀ a b r r', a.2 = b.2 → a ≠ b → SnapshotRow src a r ∨ CdcRow D src answer sends a r →
    SnapshotRow src b r' ∨ CdcRow D src answer sends b r' → r.metadata.table ≠ r'.metadata.table ∧
      ∀ c ∈ r'.metadata.primaryKeyColumns, (a, c) ∈ answer → (b, c) ∈ answer

/-- No two announced tables have one name. With a snapshot, a configured name is that of an announced table only without
a schema and without key columns, and has the schema if the announced table is another one. -/
structure NamesAlone : Prop where
  announced : ∀ m ∈ sends, ∀ n ∈ sends, m.table.2 = n.table.2 → m.table = n.table
  configured : src.enableSnapshot = true → ∀ t ∈ src.tables, ∀ m ∈ sends, (qualified t).2 = m.table.2 →
    if qualified t = m.table then t = m.table.2 ∧ ∀ row ∈ answer, row.1.2 ≠ t
    else t ≠ m.table.2 ∧ ∀ c, (qualified t, c) ∈ answer → (m.table, c) ∈ answer

end

section

variable {D : Decoder} {src : PostgresCDCSource} {answer : List (Table × String)} {sends : Set RelationMsg}

theorem mem_primaryKeys {name c : String} :
    c ∈ (loadTablePKs {} answer).primaryKeys name ↔ ∃ schema, ((schema, name), c) ∈ answer := by
  simp only [PgCatalog.primaryKeys, loadTablePKs, append_nil]
  by_cases h : name ∈ answer.map (·.1.2)
  · rw [lookup_graph _ h]
    simp
  · simp only [mem_map, not_exists, not_and, Prod.forall] at h
    rw [lookup_eq_none_iff.mpr (by grind)]
    simpa using fun schema hmem => h schema name c hmem rfl

/-- The number stands for the name of the table, and nothing else changes. -/
def Parsed.Announces (c : PgCatalog) (m : RelationMsg) : Parsed → Prop
  | .next s _ _ => s.catalog.tablePKs = c.tablePKs ∧
      ∀ n, s.catalog.tableName n = if n = m.relID then m.table.2 else c.tableName n
  | .abort | .panic => False

theorem parseRelationMsg_announces (s : Stream) (m : RelationMsg) :
    (parseRelationMsg s m.val).Announces s.catalog m := by
  have hset : ∀ cols rest, (Parsed.next { s with catalog := s.catalog.setRelation m.relID m.table.2 cols } []
      rest).Announces s.catalog m := by
    intro cols rest
    refine ⟨rfl, fun n => ?_⟩
    by_cases hn : n = m.relID
    · simp [PgCatalog.tableName, PgCatalog.setRelation, hn]
    · simp [PgCatalog.tableName, PgCatalog.setRelation, lookup_cons, hn, beq_false_of_ne hn]
  obtain ⟨hlen, hsome⟩ := Bool.and_eq_true_iff.mp m.2
  obtain ⟨rest, hrest⟩ := Option.isSome_iff_exists.mp hsome
  obtain ⟨ns, name, cols, hns, hname, hparse⟩ := parseRelationMsg_of_behind (s := s) (of_decide_eq_true hlen) hrest
  have htable : m.table.2 = Bytes.text name := by
    rw [RelationMsg.table, readNullString_of_behind hns, ← hname]
    rfl
  rw [hparse, ← htable]
  exact hset cols rest

variable {s : Stream}

theorem handleMessage_catalog {s' : Stream} {lsn : String} {kind : UInt8} {body rest : List UInt8} {outs : List Out}
    (hkind : kind ≠ 82) (h : handleMessage D src s lsn kind body = .next s' outs rest) : s'.catalog = s.catalog := by
  have hrow : ∀ {r}, RowParsed src s lsn body r → r = .next s' outs rest → s'.catalog = s.catalog := by
    rintro _ (_ | _) ⟨⟩ <;> rfl
  have htruncate : handleTruncateMsg src s body = .next s' outs rest → s'.catalog = s.catalog := by
    unfold handleTruncateMsg
    grind
  unfold handleMessage handleCommitMsg at h
  grind [parseInsertMsg_row, parseUpdateMsg_row, parseDeleteMsg_row]

/-- The numbers stand for tables that were announced, and the keys are those of the answer. -/
theorem Streams.known {of : Nat → Option Table} (h : Streams D src answer sends s of) :
    s.catalog.tablePKs = (loadTablePKs {} answer).tablePKs ∧ ∀ n table, of n = some table →
      s.catalog.tableName n = table.2 ∧ ∃ m ∈ sends, m.table = table := by
  induction h with
  | start => simp
  | frame _ _ ih => exact ih
  | @relation s of m s' outs rest _ hm hmsg ih =>
    have hset := parseRelationMsg_announces s m
    rw [hmsg] at hset
    refine ⟨hset.1.trans ih.1, fun n table hof => ?_⟩
    rw [hset.2 n]
    by_cases hn : n = m.relID
    · subst hn
      obtain rfl : m.table = table := by simpa using hof
      exact ⟨if_pos rfl, m, hm, rfl⟩
    · rw [if_neg hn]
      rw [update_of_ne hn] at hof
      exact ih.2 n table hof
  | message _ hkind hmsg ih =>
    rw [handleMessage_catalog hkind hmsg]
    exact ih

theorem CdcRow.spec {table : Table} {r : Record} (h : CdcRow D src answer sends table r) :
    r.metadata.table = table.2 ∧ r.metadata.primaryKeyColumns = (loadTablePKs {} answer).primaryKeys table.2 ∧
      ∃ m ∈ sends, m.table = table := by
  obtain @⟨s, of, n, _, op, lsn, data, before, hs, hof⟩ := h
  obtain ⟨hkeys, hknown⟩ := hs.known
  obtain ⟨hname, hsent⟩ := hknown n table hof
  exact ⟨hname, by simp [rowRecord, hname, PgCatalog.primaryKeys, hkeys], hsent⟩

variable (D src answer) in
/-- Every table that is announced may have rows. -/
theorem CdcRow.exists {m : RelationMsg} (hm : m ∈ sends) : ∃ r, CdcRow D src answer sends m.table r := by
  have hset := parseRelationMsg_announces { catalog := loadTablePKs {} answer } m
  cases hmsg : parseRelationMsg { catalog := loadTablePKs {} answer } m.val with
  | next s outs rest => exact ⟨_, .mk .insert "" [] [] (.relation .start hm hmsg) (update_self ..)⟩
  | abort | panic => simp [hmsg, Parsed.Announces] at hset

theorem OneIdentity.namesAlone (h : OneIdentity D src answer sends) : NamesAlone src answer sends := by
  refine ⟨fun m hm n hn hname => by_contra fun hne => ?_, fun hsnap t ht m hm hname => ?_⟩
  · obtain ⟨r, hr⟩ := CdcRow.exists D src answer hm
    obtain ⟨r', hr'⟩ := CdcRow.exists D src answer hn
    exact (h.apart _ _ r r' hname hne (.inr hr) (.inr hr')).1 (by rw [hr.spec.1, hr'.spec.1, hname])
  · obtain ⟨r, hr⟩ := CdcRow.exists D src answer hm
    obtain ⟨htable, hkey, -⟩ := hr.spec
    split
    · rename_i heq
      obtain ⟨hsame, hkeys⟩ := h.phases _ _ r (.mk [] hsnap ht) (heq ▸ hr)
      obtain rfl : t = m.table.2 := hsame.trans htable
      refine ⟨rfl, fun row hrow hrow' => ?_⟩
      have hmem : row.2 ∈ r.metadata.primaryKeyColumns := by
        rw [hkey, mem_primaryKeys]
        exact ⟨row.1.1, by rwa [← hrow']⟩
      rw [← hkeys] at hmem
      cases hmem
    · rename_i hne
      obtain ⟨hdiff, hkeys⟩ := h.apart _ _ _ r hname hne (.inl (.mk [] hsnap ht)) (.inr hr)
      rw [htable] at hdiff
      refine ⟨hdiff, fun c hc => hkeys c ?_ hc⟩
      rw [hkey, mem_primaryKeys, ← hname]
      exact ⟨_, hc⟩

theorem NamesAlone.oneIdentity (h : NamesAlone src answer sends) : OneIdentity D src answer sends := by
  constructor
  · rintro _ _ r @⟨t, data, hsnap, ht⟩ hr
    obtain ⟨htable, hkey, m, hm, hmt⟩ := hr.spec
    have hif := h.configured hsnap t ht m hm (by rw [hmt])
    rw [if_pos hmt.symm, hmt] at hif
    rw [htable, hkey]
    refine ⟨hif.1, (eq_nil_iff_forall_not_mem.mpr fun c hc => ?_).symm⟩
    obtain ⟨schema, hmem⟩ := mem_primaryKeys.mp hc
    exact hif.2 _ hmem hif.1.symm
  · rintro a b r r' hname hne (@⟨t, data, hsnap, ht⟩ | hr) (@⟨t', data', hsnap, ht'⟩ | hr')
    · exact ⟨fun heq => hne (congrArg qualified heq), fun c hc => absurd hc not_mem_nil⟩
    · obtain ⟨htable, -, m, hm, rfl⟩ := hr'.spec
      have hif := h.configured hsnap t ht m hm hname
      rw [if_neg hne] at hif
      rw [htable]
      exact ⟨hif.1, fun c _ => hif.2 c⟩
    · obtain ⟨htable, -, m, hm, rfl⟩ := hr.spec
      have hif := h.configured hsnap t' ht' m hm hname.symm
      rw [if_neg hne.symm] at hif
      rw [htable]
      exact ⟨hif.1.symm, fun c hc => absurd hc not_mem_nil⟩
    · obtain ⟨-, -, m, hm, rfl⟩ := hr.spec
      obtain ⟨-, -, n, hn, rfl⟩ := hr'.spec
      exact absurd (h.announced m hm n hn hname) hne

end

/-- **A table keeps its identity exactly if the names alone tell the tables apart** and no keys are found. -/
theorem one_identity_iff (D : Decoder) (src : PostgresCDCSource) (answer : List (Table × String))
    (sends : Set RelationMsg) : OneIdentity D src answer sends ↔ NamesAlone src answer sends :=
  ⟨OneIdentity.namesAlone, NamesAlone.oneIdentity⟩

theorem relationWhole_t : relationWhole [0, 0, 0, 1, 115, 0, 116, 0, 100, 0, 0] = true := by decide

/-- The table `s.t`, without columns. -/
def announcesT : RelationMsg := ⟨_, relationWhole_t⟩

/-- The rows of the table `s.t` are rows of `s.t` in the snapshot, and of `t` in the stream. -/
theorem table_changes_name :
    ¬OneIdentity rawText { tables := ["s.t"], enableSnapshot := true } [] {announcesT} := by
  intro h
  have hif := h.namesAlone.configured rfl "s.t" (by simp) announcesT rfl (by decide)
  exact absurd hif.1 (by decide)

end OpenEtl.Source.Pg
