import OpenEtl.Core.CompleteIdentity
import OpenEtl.Source.PgTables

/-!
# The identity of changed and deleted rows (`source/postgres_cdc.go:544-585, 900-1083`)

UPDATE and DELETE messages as the server writes them (`Change.body`), and what their records should be
(`KeepsIdentity`). The reader takes the primary keys from the answer to one query, which selects `rc.relname` and names
no table `rc`. A server answers that with an error, the loop over the rows of the answer sees none, and the error is not
looked at: no reader has the key columns of a table, and no record has an identity. (An UPDATE with an old key would
not have one in any case: its tuple is read and thrown away.)
-/

namespace OpenEtl.Source.Pg

open Bytes (bigEndian bigEndian_length ofBigEndian ofBigEndian_bigEndian)
open List

/-! ## On the wire -/

/-- A column of a tuple: NULL, a toasted value that did not change, or the text of a value. -/
inductive Col
  | null
  | unchanged
  | value (raw : List UInt8)
deriving DecidableEq, Repr

def Col.bytes : Col → List UInt8
  | .null => [110]
  | .unchanged => [117]
  | .value raw => 116 :: (bigEndian 4 raw.length ++ raw)

structure Relation where
  relID : Nat
  table : String
  cols : List PgColumnInfo
  pk : List String
  relID_lt : relID < 2 ^ 32
  cols_lt : cols.length < 2 ^ 16
  cols_nodup : (cols.map PgColumnInfo.name).Nodup
  pk_ne : pk ≠ []
  pk_nodup : pk.Nodup
  pk_mem : ∀ c ∈ pk, c ∈ cols.map PgColumnInfo.name

/-- A tuple with one column for each column of the relation. -/
structure Tuple (r : Relation) where
  vals : List Col
  length_eq : vals.length = r.cols.length
  short : ∀ raw, .value raw ∈ vals → raw.length < 2 ^ 31

namespace Tuple

variable {r : Relation} (D : Decoder) (t : Tuple r)

def bytes : List UInt8 := bigEndian 2 t.vals.length ++ t.vals.flatMap Col.bytes

def col? (c : String) : Option (PgColumnInfo × Col) := (r.cols.zip t.vals).find? fun p => p.1.name = c

def value? (c : String) : Option Value :=
  match t.col? c with
  | some (col, .value raw) => some (D.decode raw col.typeOID)
  | _ => none

end Tuple

/-- The old tuple of a change holds the key columns only, or the full row. -/
inductive OldKind
  | key | full
deriving DecidableEq, Repr

def OldKind.byte : OldKind → UInt8
  | .key => 75
  | .full => 79

inductive Change (r : Relation)
  | update (kind : OldKind) (old new : Tuple r)
  | delete (kind : OldKind) (old : Tuple r)

namespace Change

variable {r : Relation}

def messageByte : Change r → UInt8
  | .update .. => 85
  | .delete .. => 68

def body : Change r → List UInt8
  | .update kind old new => bigEndian 4 r.relID ++ kind.byte :: (old.bytes ++ 78 :: new.bytes)
  | .delete kind old => bigEndian 4 r.relID ++ kind.byte :: old.bytes

def old : Change r → Tuple r
  | .update _ old _ | .delete _ old => old

/-- A key column of the row before and of the row after the change differ; an unchanged column has its old
value. -/
def KeyDiffers (D : Decoder) : Change r → Prop
  | .update _ old new =>
    ∃ c ∈ r.pk, (∀ col, new.col? c ≠ some (col, .unchanged)) ∧
      ¬ ∃ v w, old.value? D c = some v ∧ new.value? D c = some w ∧ SameKeyValue v w
  | .delete .. => False

end Change

def oldImage (rec : Record) : Data := if rec.operation = .update then rec.before else rec.data

/-- The text is the JSON object of the values of these columns. -/
def IsKeyObject (key : String) (columns : List String) (value : String → Option Value) : Prop :=
  ∃ ms, Json.IsValue key.toList (.obj ms) ∧ (ms.map Prod.fst).Perm columns ∧
    ∀ m ∈ ms, ∃ v t, value m.1 = some v ∧ marshal v = some t ∧ Json.IsValue t m.2

/-- The record identifies the row as it was before the change. -/
structure KeepsIdentity (D : Decoder) {r : Relation} (change : Change r) (rec : Record) : Prop where
  image : ∀ c ∈ r.pk, ∃ v, change.old.value? D c = some v ∧ (oldImage rec).get? c = some v
  key : IsKeyObject rec.metadata.key r.pk (change.old.value? D)
  complete : (recordIdentity rec).complete = true
  keyChanged : (recordIdentity rec).keyChanged = true ↔ change.KeyDiffers D

/-! ## The key columns of the tables -/

/-- A query: the names that its FROM clause gives to tables, and those that its columns are qualified with. -/
structure Select where
  named : List String
  qualifiers : List String

/-- The query of `loadTablePKs`, by its clauses: SELECT, FROM and the JOINs, WHERE, and ORDER BY. -/
def pkQuery (src : PostgresCDCSource) : Select where
  named := ["x", "c", "n", "i", "a"]
  qualifiers :=
    ["rc", "i", "a"] ++ ["c", "x", "n", "c", "i", "x", "a", "c", "a", "x"] ++ ["x"] ++
      (if src.tables = [] then [] else ["n", "c"]) ++ ["c", "x", "a"]

/-- How the server answers a query: rows of a table and a column, or an error. -/
abbrev Server := Select → Except String (List (Table × String))

/-- A qualifier that the FROM clause does not define is an error. -/
def Server.ChecksNames (server : Server) : Prop :=
  ∀ q, (∃ a ∈ q.qualifiers, a ∉ q.named) → ∃ e, server q = .error e

/-- What `NextRow` goes through: an answer that is an error has no rows. -/
def Server.rows (server : Server) (q : Select) : List (Table × String) :=
  match server q with
  | .ok rows => rows
  | .error _ => []

theorem Server.ChecksNames.rows_pkQuery {server : Server} (h : server.ChecksNames) (src : PostgresCDCSource) :
    server.rows (pkQuery src) = [] := by
  obtain ⟨e, he⟩ := h (pkQuery src) ⟨"rc", by simp [pkQuery], by simp [pkQuery]⟩
  rw [rows, he]

section

variable {D : Decoder} {src : PostgresCDCSource} {sends : Set RelationMsg} {s : Stream} {of : Nat → Option Table}

/-- Without an answer no table has key columns, whatever the server sends. -/
theorem Streams.primaryKeys_eq_nil (h : Streams D src [] sends s of) (table : String) :
    s.catalog.primaryKeys table = [] := by
  rw [PgCatalog.primaryKeys, h.known.1]
  rfl

variable {lsn : String} {data rest : List UInt8} {s' : Stream} {rec : Record}

/-- The record of a row then has neither a key nor key columns. -/
theorem RowParsed.no_key (hpks : ∀ table, s.catalog.primaryKeys table = [])
    (h : RowParsed src s lsn data (.next s' [.record rec] rest)) :
    rec.metadata.primaryKeyColumns = [] ∧ rec.metadata.key = "" := by
  cases h
  simp [rowRecord, recordKey, hpks]

theorem recordIdentity_of_no_columns (h : rec.metadata.primaryKeyColumns = []) :
    (recordIdentity rec).complete = false := by
  simp [recordIdentity, normalizedPKColumns, h]

end

theorem Change.isRow {r : Relation} (change : Change r) : IsRow change.messageByte := by
  cases change
  · exact .inr (.inl rfl)
  · exact .inr (.inr rfl)

/-- **No changed or deleted row keeps its old identity**: whatever the relation, its primary key and the message, in
every stream that a reader comes to. -/
theorem old_identity_lost (server : Server) (hserver : server.ChecksNames) (D : Decoder) (src : PostgresCDCSource)
    (sends : Set RelationMsg) {s : Stream} {of : Nat → Option Table}
    (hs : Streams D src (server.rows (pkQuery src)) sends s of) {r : Relation} (change : Change r) (lsn : String)
    (rest : List UInt8) :
    ¬∃ rec s' rest', handleMessage D src s lsn change.messageByte (change.body ++ rest) =
        .next s' [.record rec] rest' ∧ KeepsIdentity D change rec := by
  rintro ⟨rec, s', rest', hmsg, hkeeps⟩
  rw [hserver.rows_pkQuery] at hs
  have hrow : RowParsed src s lsn (change.body ++ rest) _ := handleMessage_row (D := D) change.isRow
  rw [hmsg] at hrow
  have hincomplete := recordIdentity_of_no_columns (hrow.no_key hs.primaryKeys_eq_nil).1
  exact absurd (hkeeps.complete.symm.trans hincomplete) (by decide)

/-! ### Example: the row `1` becomes the row `2` -/

theorem relationT_cols : ([⟨"id", 25⟩].map PgColumnInfo.name).Nodup ∧
    ∀ c ∈ ["id"], c ∈ [⟨"id", 25⟩].map PgColumnInfo.name := by
  simp

theorem relationT_pk_ne : ["id"] ≠ [] := cons_ne_nil _ _

def relationT : Relation where
  relID := 16385
  table := "t"
  cols := [⟨"id", 25⟩]
  pk := ["id"]
  relID_lt := by decide
  cols_lt := by decide
  cols_nodup := relationT_cols.1
  pk_ne := relationT_pk_ne
  pk_nodup := List.nodup_singleton _
  pk_mem := relationT_cols.2

def rowT (b : UInt8) : Tuple relationT where
  vals := [.value [b]]
  length_eq := rfl
  short := by simp

theorem relationWhole_id :
    relationWhole [0, 0, 64, 1, 112, 0, 116, 0, 100, 0, 1, 1, 105, 100, 0, 0, 0, 0, 25, 255, 255, 255, 255] = true := by
  decide

/-- The table `p.t` with the column `id`. -/
def announcesId : RelationMsg := ⟨_, relationWhole_id⟩

/-- A server that finds no table `rc`, and has no other answers. -/
def noSuchTable : Server := fun _ => .error "missing FROM-clause entry for table \"rc\""

def knowsT : Stream := { catalog := { relations := [(16385, "t", [⟨"id", 25⟩])] } }

theorem streams_knowsT : ∃ of, Streams rawText {} (noSuchTable.rows (pkQuery {})) {announcesId} knowsT of := by
  have hparsed : parseRelationMsg { catalog := loadTablePKs {} (noSuchTable.rows (pkQuery {})) } announcesId.val =
      .next knowsT [] [] := by
    decide +kernel
  exact ⟨_, .relation .start (Set.mem_singleton _) hparsed⟩

theorem noSuchTable_checksNames : noSuchTable.ChecksNames := fun _ _ => ⟨_, rfl⟩

theorem old_identity_lost_full_row : ∃ rec,
    handleMessage rawText {} knowsT "0/10" 85 ((Change.update .full (rowT 49) (rowT 50)).body ++ []) =
        .next knowsT [.record rec] [] ∧
      ¬KeepsIdentity rawText (Change.update .full (rowT 49) (rowT 50)) rec := by
  obtain ⟨of, hs⟩ := streams_knowsT
  exact ⟨_, rfl, fun hkeeps => old_identity_lost noSuchTable noSuchTable_checksNames rawText {} {announcesId} hs
    (Change.update .full (rowT 49) (rowT 50)) "0/10" [] ⟨_, knowsT, [], rfl, hkeeps⟩⟩

/-- A key change with either old tuple, and a deletion: their records have no key and no identity. -/
theorem key_change_loses_old_key :
    (∃ of, Streams rawText {} (noSuchTable.rows (pkQuery {})) {announcesId} knowsT of) ∧
      ∀ change ∈ [Change.update .key (rowT 49) (rowT 50), .update .full (rowT 49) (rowT 50), .delete .key (rowT 49)],
        ∃ rec, handleMessage rawText {} knowsT "0/10" change.messageByte change.body =
            .next knowsT [.record rec] [] ∧
          rec.metadata.key = "" ∧ (recordIdentity rec).complete = false ∧ (recordIdentity rec).keyChanged = false ∧
            ¬KeepsIdentity rawText change rec := by
  have hlost {change : Change relationT} {rec : Record} (h : (recordIdentity rec).complete = false) :
      ¬KeepsIdentity rawText change rec := fun hkeeps => by
    simp [hkeeps.complete] at h
  simp only [mem_cons, not_mem_nil, or_false, forall_eq_or_imp, forall_eq]
  exact ⟨streams_knowsT, ⟨_, rfl, rfl, rfl, rfl, hlost rfl⟩, ⟨_, rfl, rfl, rfl, rfl, hlost rfl⟩,
    ⟨_, rfl, rfl, rfl, rfl, hlost rfl⟩⟩

end OpenEtl.Source.Pg
