import Mathlib.Data.List.Induction
import OpenEtl.Core.Errors

/-!
# Compaction of a batch by primary key (`sink/compact.go`, `sink/delete_keys.go`)

The Go function keeps the index of the record a key was first seen at; here that record is found by its
key. Where the keys are complete and tell the target rows apart, compaction keeps the last record of each
row (`compact_filter`).
-/

namespace OpenEtl.Sink.Sql

open List

def keyImage (rec : Record) : Data :=
  if rec.operation = .delete ∧ rec.before ≠ [] then rec.before else rec.data

/-- The text compaction identifies a row by; `none` for a record that is passed through. -/
def compactKey (pkColumns : String → List String) (rec : Record) : Option String :=
  let pkCols := pkColumns rec.metadata.table
  if pkCols = [] then none
  else if pkCols.all (keyImage rec).present then
    some (rec.metadata.table ++ "|" ++
      joinStr "|" (pkCols.map fun c => fmtV (((keyImage rec).get? c).getD .null)))
  else none

/-- One record: it takes the place of the record its key was seen at. -/
def compactStep (key : Record → Option String) (out : List Record) (rec : Record) : List Record :=
  match key rec with
  | none => out ++ [rec]
  | some k =>
    if out.any (key · == some k) then out.map fun r => if key r = some k then rec else r else out ++ [rec]

def compactRecordsByPK (pkColumns : String → List String) (records : List Record) : List Record :=
  if records.length ≤ 1 then records else records.foldl (compactStep (compactKey pkColumns)) []

def resolveDeleteKeys (rec : Record) (pkColumns : List String) : Except Err (List Value) :=
  if pkColumns = [] then .error { msg := "delete record has no pk_columns configured" }
  else
    let src := if rec.before = [] then rec.data else rec.before
    match pkColumns.find? fun c => !src.present c with
    | some c => .error { msg := "delete record missing primary-key column \"" ++ c ++ "\"" }
    | none => .ok (pkColumns.map fun c => (src.get? c).getD .null)

section

variable {key : Record → Option String}

theorem compactStep_nil (rec : Record) : compactStep key [] rec = [rec] := by
  unfold compactStep
  split <;> simp

theorem compactRecordsByPK_eq (pkColumns : String → List String) (records : List Record) :
    compactRecordsByPK pkColumns records = records.foldl (compactStep (compactKey pkColumns)) [] := by
  unfold compactRecordsByPK
  match records with
  | [] => rfl
  | [rec] => simp [compactStep_nil]
  | a :: b :: rest => simp

variable {rec : Record} {out : List Record}

theorem mem_compactStep {x : Record} (h : x ∈ compactStep key out rec) : x ∈ out ∨ x = rec := by
  unfold compactStep at h
  split at h
  · simpa using h
  · rename_i k _
    split at h
    · obtain ⟨y, hy, rfl⟩ := mem_map.mp h
      by_cases hk : key y = some k
      · exact .inr (if_pos hk)
      · rw [if_neg hk]
        exact .inl hy
    · simpa using h

variable {records : List Record}

/-- Compaction drops records, it does not make any. -/
theorem mem_of_mem_compact (h : rec ∈ records.foldl (compactStep key) []) : rec ∈ records := by
  induction records using reverseRecOn generalizing rec with
  | nil => exact h
  | append_singleton records r ih =>
    rw [foldl_append] at h
    rw [mem_append, mem_singleton]
    exact (mem_compactStep h).imp_left ih

variable {key' : Record → Option String}

theorem compactStep_congr (hrec : key rec = key' rec)
    (hout : ∀ x ∈ out, key x = key' x) : compactStep key out rec = compactStep key' out rec := by
  unfold compactStep
  rw [hrec]
  split
  · rfl
  · rename_i k _
    have hany : out.any (key · == some k) = out.any (key' · == some k) := by
      rw [Bool.eq_iff_iff, any_eq_true, any_eq_true]
      refine exists_congr fun x => and_congr_right fun hx => ?_
      rw [hout x hx]
    have hmap : (out.map fun x => if key x = some k then rec else x) =
        out.map fun x => if key' x = some k then rec else x :=
      map_congr_left fun x hx => by rw [hout x hx]
    rw [hany, hmap]

theorem compact_congr (h : ∀ r ∈ records, key r = key' r) :
    records.foldl (compactStep key) [] = records.foldl (compactStep key') [] := by
  induction records using reverseRecOn with
  | nil => rfl
  | append_singleton records r ih =>
    simp only [foldl_append]
    rw [ih fun x hx => h x (mem_append_left _ hx)]
    refine compactStep_congr (h r (by simp)) fun x hx => ?_
    exact h x (mem_append_left _ (mem_of_mem_compact hx))

/-- **Compaction keeps the last record of each row**, if the keys are complete and tell the rows apart. -/
theorem compact_filter {κ : Type*} [DecidableEq κ] {loc : Record → κ} (hkey : ∀ r ∈ records, (key r).isSome)
    (hloc : ∀ r ∈ records, ∀ r' ∈ records, key r = key r' ↔ loc r = loc r') (l : κ) :
    (records.foldl (compactStep key) []).filter (loc · = l) = (records.filter (loc · = l)).getLast?.toList := by
  induction records using reverseRecOn with
  | nil => rfl
  | append_singleton records r ih =>
    have hmem : ∀ x ∈ records.foldl (compactStep key) [], x ∈ records ++ [r] := fun x hx =>
      mem_append_left _ (mem_of_mem_compact hx)
    have hr : r ∈ records ++ [r] := by simp
    have ih := ih (fun x hx => hkey x (mem_append_left _ hx))
      (fun x hx y hy => hloc x (mem_append_left _ hx) y (mem_append_left _ hy))
    obtain ⟨k, hk⟩ := Option.isSome_iff_exists.mp (hkey r hr)
    rw [foldl_append, foldl_cons, foldl_nil]
    generalize records.foldl (compactStep key) [] = out at hmem ih ⊢
    -- a record of `out` has the key of `r` exactly if it is of the row of `r`
    have hsame : ∀ x ∈ out, key x = some k ↔ loc x = loc r := fun x hx => by
      rw [← hk, hloc x (hmem x hx) r hr]
    simp only [compactStep, hk]
    split
    · rename_i hany
      obtain ⟨y, hy, hyk⟩ := any_eq_true.mp hany
      have hyr : loc y = loc r := (hsame y hy).mp (by simpa using hyk)
      have hkeep : out.filter ((fun x => decide (loc x = l)) ∘ fun x => if key x = some k then r else x) =
          out.filter (loc · = l) := by
        refine filter_congr fun x hx => ?_
        by_cases hx' : key x = some k
        · simp [hx', (hsame x hx).mp hx']
        · simp [hx']
      rw [filter_map, hkeep]
      by_cases hl : loc r = l
      · have hlast : (records.filter (loc · = l)).getLast?.toList ≠ [] := by
          rw [← ih]
          exact ne_nil_of_mem (mem_filter.mpr ⟨hy, by simpa [hyr] using hl⟩)
        have hmap : ∀ x ∈ out.filter (loc · = l), (if key x = some k then r else x) = r := by
          intro x hx
          obtain ⟨hx, hxl⟩ := mem_filter.mp hx
          rw [if_pos ((hsame x hx).mpr (by simpa [hl] using hxl))]
        rw [map_congr_left hmap, ih]
        cases hg : (records.filter (loc · = l)).getLast? with
        | none => simp [hg] at hlast
        | some z => simp [hl]
      · have hmap : ∀ x ∈ out.filter (loc · = l), (if key x = some k then r else x) = id x := by
          intro x hx
          obtain ⟨hx, hxl⟩ := mem_filter.mp hx
          have hxl : loc x = l := by simpa using hxl
          rw [if_neg fun h => hl (((hsame x hx).mp h).symm.trans hxl)]
          rfl
        rw [map_congr_left hmap, ih]
        simp [hl]
    · rename_i hany
      rw [filter_append]
      by_cases hl : loc r = l
      · have hnil : out.filter (loc · = l) = [] := by
          rw [filter_eq_nil_iff]
          intro x hx hxl
          refine hany (any_eq_true.mpr ⟨x, hx, ?_⟩)
          rw [(hsame x hx).mpr (by simpa [hl] using hxl)]
          simp
        rw [hnil]
        simp [hl]
      · rw [ih]
        simp [hl]

theorem compactStep_map {f : Record → Record} (hf : ∀ r, key (f r) = key r) :
    compactStep key (out.map f) (f rec) = (compactStep key out rec).map f := by
  unfold compactStep
  rw [hf]
  split
  · simp
  · simp only [any_map, Function.comp_def, hf, map_map, apply_ite (map f), map_append, map_cons, map_nil, apply_ite f]

/-- A compacted batch is left as it is. -/
theorem compact_compact (records : List Record) :
    (records.foldl (compactStep key) []).foldl (compactStep key) [] = records.foldl (compactStep key) [] := by
  induction records using reverseRecOn with
  | nil => rfl
  | append_singleton records rec ih =>
    rw [foldl_append, foldl_cons, foldl_nil]
    generalize records.foldl (compactStep key) [] = out at ih ⊢
    have happend : (out ++ [rec]).foldl (compactStep key) [] = compactStep key out rec := by
      rw [foldl_append, ih, foldl_cons, foldl_nil]
    unfold compactStep at happend ⊢
    split
    · simp_all
    · rename_i k hk
      split
      · have hkey : ∀ r, key (if key r = some k then rec else r) = key r := fun r => by
          split <;> simp [*]
        rw [foldl_map, ← map_nil, foldl_hom (map _) fun out r => compactStep_map hkey, ih]
      · simp_all

/-- **Compaction in parts**: a batch may be compacted before more of it comes. -/
theorem compactRecordsByPK_append (pkColumns : String → List String) (records more : List Record) :
    compactRecordsByPK pkColumns (compactRecordsByPK pkColumns records ++ more) =
      compactRecordsByPK pkColumns (records ++ more) := by
  simp only [compactRecordsByPK_eq, foldl_append, compact_compact]

end

end OpenEtl.Sink.Sql
