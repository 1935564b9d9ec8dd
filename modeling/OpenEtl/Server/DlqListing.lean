import OpenEtl.Server.DlqReplay

/-!
# The stored dead letters (`storage/sqlstore/store.go:1144-1201`, `:1311-1345`)

| here | there |
| --- | --- |
| `Row` | a row of `dead_letters` |
| `Filter`, `selects` | `storage.DLQFilter`, the `WHERE` of `newDLQQueryBuilder` (:1311) |
| `listed` | `… ORDER BY created_at DESC LIMIT … OFFSET …` |
| `listDeadLetters` | `Store.ListDeadLetters` (:1173) with `deadLetterFromRecord` |

A row gets its id when it is inserted, so ids are in insertion order; `created_at` is the clock of the process, as
finely as the column keeps it. The query orders by that alone: rows with equal times come as the database likes
(`Database.order`).
-/

namespace OpenEtl.Server.Dlq

open List

/-- A row; `τ` are the texts of the column `record_json`. -/
structure Row (τ : Type) where
  id : Int
  jobName : String
  recordJSON : τ
  error : String := ""
  errorClass : String := ""
  /-- `identity_context_json`, if that can be decoded -/
  identity : Option IdentityContext := some {}
  dagNode : String := ""
  createdAt : Nat
deriving DecidableEq, Repr

structure Filter where
  jobName : String
  since : Option Nat := none
  till : Option Nat := none
  errorClass : String := ""
  errorContains : String := ""
  contains : String := ""
  limit : Int := 100
  offset : Nat := 0
deriving DecidableEq, Repr

/-- What is left to the database, and the decoder of the stored records. -/
structure Database (τ : Type) where
  like : String → String → Bool
  text : τ → String
  decode : τ → Option Record
  order : List (Row τ) → List (Row τ)
  order_perm : ∀ rows, (order rows).Perm rows
  order_desc : ∀ rows, (order rows).Pairwise fun a b => b.createdAt ≤ a.createdAt

variable {τ : Type} (D : Database τ)

def selects (f : Filter) (row : Row τ) : Bool :=
  row.jobName == f.jobName && f.since.all (fun t => t ≤ row.createdAt) && f.till.all (fun t => row.createdAt ≤ t) &&
    (f.errorClass == "" || row.errorClass == f.errorClass) &&
    (f.errorContains == "" || D.like row.error ("%" ++ f.errorContains ++ "%")) &&
    (f.contains == "" || D.like (D.text row.recordJSON) ("%" ++ f.contains ++ "%"))

def Filter.rows (f : Filter) : Nat := if f.limit ≤ 0 then 100 else f.limit.toNat

def listed (f : Filter) (rows : List (Row τ)) : List (Row τ) :=
  ((D.order (rows.filter (selects D f))).drop f.offset).take f.rows

def Row.deadLetter (row : Row τ) (rec : Record) (c : IdentityContext) : DeadLetter :=
  { c with id := row.id, record := rec, dagNode := row.dagNode }

def errIdentity : Err := { msg := "unmarshal dlq identity context" }

/-- The loop over the rows: one whose record cannot be decoded is passed over, one whose identity context cannot is an
error. -/
def scan : List (Row τ) → Except Err (List DeadLetter)
  | [] => .ok []
  | row :: rest =>
    match D.decode row.recordJSON with
    | none => scan rest
    | some rec =>
      match row.identity with
      | none => .error errIdentity
      | some c => (scan rest).map (row.deadLetter rec c :: ·)

def listDeadLetters (f : Filter) (rows : List (Row τ)) : Except Err (List DeadLetter) := scan D (listed D f rows)

def getDeadLetterByID (jobName : String) (id : Int) (rows : List (Row τ)) : Except Err (Option DeadLetter) :=
  match rows.find? fun row => row.jobName == jobName && row.id == id with
  | none => .ok none
  | some row =>
    match D.decode row.recordJSON with
    | none => .error { msg := "unmarshal dlq record" }
    | some rec =>
      match row.identity with
      | none => .error errIdentity
      | some c => .ok (some (row.deadLetter rec c))

variable {D}

/-! ## What a listing returns -/

theorem listed_sublist (f : Filter) (rows : List (Row τ)) :
    (listed D f rows).Sublist (D.order (rows.filter (selects D f))) :=
  (take_sublist _ _).trans (drop_sublist _ _)

variable {f : Filter} {rows : List (Row τ)}

theorem mem_of_listed {row : Row τ} (h : row ∈ listed D f rows) :
    row ∈ rows ∧ selects D f row = true := by
  have hsub := (listed_sublist f rows).subset h
  exact mem_filter.mp ((D.order_perm _).subset hsub)

theorem listed_nodup (h : (rows.map (·.id)).Nodup) :
    ((listed D f rows).map (·.id)).Nodup := by
  have hfilter : ((rows.filter (selects D f)).map (·.id)).Nodup := h.sublist (filter_sublist.map _)
  have horder : ((D.order (rows.filter (selects D f))).map (·.id)).Nodup :=
    ((D.order_perm _).map _).nodup_iff.mpr hfilter
  exact horder.sublist ((listed_sublist f rows).map _)

/-- A listing has the rows of the query in their order, without those that cannot be decoded. -/
theorem scan_ok : ∀ {rows : List (Row τ)} {items : List DeadLetter}, scan D rows = .ok items →
    ∃ read : List (Row τ), read.Sublist rows ∧
      Forall₂ (fun row item => ∃ rec c, D.decode row.recordJSON = some rec ∧ row.identity = some c ∧
        item = row.deadLetter rec c) read items
  | [], items, h => by
    cases h
    exact ⟨[], .refl _, .nil⟩
  | row :: rest, items, h => by
    unfold scan at h
    split at h
    · obtain ⟨read, hsub, hread⟩ := scan_ok h
      exact ⟨read, hsub.cons row, hread⟩
    · rename_i rec hrec
      split at h
      · cases h
      · rename_i c hc
        cases hrest : scan D rest with
        | error e => simp [hrest, Except.map] at h
        | ok items' =>
          rw [hrest] at h
          cases h
          obtain ⟨read, hsub, hread⟩ := scan_ok hrest
          exact ⟨row :: read, hsub.cons_cons row, .cons ⟨rec, c, hrec, hc, rfl⟩ hread⟩

end OpenEtl.Server.Dlq
