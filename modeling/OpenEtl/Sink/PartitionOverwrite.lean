import OpenEtl.Lib.Delimited
import OpenEtl.Sink.MaxCompute
import Mathlib.Data.List.Perm.Subperm
import Mathlib.Data.String.Basic
import Mathlib.Tactic.IntervalCases

/-!
# `partition_overwrite` of the MaxCompute sink (`sink/maxcompute.go`)

| here | there |
| --- | --- |
| `overwriteLoop` | `writePartitionWithRetry` (:321) over `sdkMaxComputeClient.Write` (:429), as the table sees it |
| `overwriteChunk`, `overwrite` | `writeChunk`, `Write` (:269, 114), as the table sees them |

The commit of an overwrite session replaces the rows of its partition. A call of the client that ends in an error may
have committed before (`committed`). Each chunk of a batch has sessions of its own, so a partition is left with the
rows of the last chunk that has any for it (`overwriteFrom_kept`).
-/

namespace OpenEtl.Sink.MaxCompute

open List Function

abbrev Contents := String → List Data

section

variable (S : MaxComputeSink) (E : Client) (committed : Nat → String → Nat → Bool)

def overwriteLoop (start : Nat) (partition : String) (rows : List Data) : Nat → Nat → Contents → Contents
  | 0, _, c => c
  | k + 1, attempt, c =>
    match E.ctxErr start partition attempt with
    | some _ => c
    | none =>
      match (E.exchange start partition attempt rows.length).err with
      | none => update c partition rows
      | some e =>
        let c := if committed start partition attempt then update c partition rows else c
        if isRetryableError { toCause := classifyMaxComputeError e } = false ∨ k = 0 then c
        else
          match E.waitDone start partition attempt with
          | some _ => c
          | none => overwriteLoop start partition rows k (attempt + 1) c

def overwriteGroups (start : Nat) (groups : List PartitionBatch) (c : Contents) : Contents :=
  groups.foldl (fun c g => overwriteLoop E committed start g.partition g.rows (S.maxRetries + 1) 0 c) c

def overwriteChunk (records : List Record) (start : Nat) (c : Contents) : Contents :=
  match groupRows S ((records.drop start).take S.batchSize) start [] with
  | .error _ => c
  | .ok groups => overwriteGroups S E committed start groups c

/-- The chunks from `offset` on, up to one that fails. -/
def overwriteFrom (records : List Record) : Nat → Nat → Contents → Contents
  | 0, _, c => c
  | k + 1, offset, c =>
    if offset < records.length then
      match (writeChunk S E records offset).err with
      | some _ => overwriteChunk S E committed records offset c
      | none => overwriteFrom records k (offset + S.batchSize) (overwriteChunk S E committed records offset c)
    else c

/-- The table after `Write`. -/
def overwrite (records : List Record) (c : Contents) : Contents :=
  overwriteFrom S E committed records records.length 0 c

def partitionOf (rec : Record) : Option String := (partitionSpec S rec.data).toOption

def rowsFor (p : String) (records : List Record) : List Data :=
  (records.filter (partitionOf S · = some p)).map fun rec => rowData S rec.data

/-- The values of the partition fields, as they are printed. -/
def partitionTexts (rec : Record) : List String := S.partitionFields.map fun f => fmtV ((rec.data.get? f).getD .null)

def sanitizedTexts (rec : Record) : List String := (partitionTexts S rec).map sanitizeMaxComputePartitionValue

/-! ## The text of a partition -/

/-- A partition column and its value, as the text has them. -/
def specPart (field value : String) : String := field ++ "='" ++ value ++ "'"

theorem quote_notMem_sanitize (s : String) : '\'' ∉ (sanitizeMaxComputePartitionValue s).toList := by
  intro h
  unfold sanitizeMaxComputePartitionValue trimSpace at h
  simp only [String.toList_ofList, mem_reverse] at h
  have h := (dropWhile_sublist _).mem h
  have h := (dropWhile_sublist _).mem (mem_reverse.mp h)
  simp at h

theorem specPart_append_inj {f v v' s s' : String} (hv : '\'' ∉ v.toList) (hv' : '\'' ∉ v'.toList)
    (h : specPart f v ++ s = specPart f v' ++ s') : v = v' ∧ s = s' := by
  have hquote : "'".toList = ['\''] := rfl
  have h := congrArg String.toList h
  simp only [specPart, String.toList_append, append_assoc, append_cancel_left_eq, hquote,
    singleton_append] at h
  obtain ⟨heq, hrest⟩ := Delimited.append_cons_inj hv hv' h
  exact ⟨String.toList_injective heq, String.toList_injective hrest⟩

theorem joinStr_cons_cons (sep a b : String) (l : List String) :
    joinStr sep (a :: b :: l) = a ++ sep ++ joinStr sep (b :: l) := String.intercalate_cons_cons

variable {fields : List String}

/-- The values can be read off the text: each ends at the next quote. -/
theorem join_specParts_inj {values values' : List String} (hlen : values.length = fields.length)
    (hlen' : values'.length = fields.length) (hv : ∀ v ∈ values, '\'' ∉ v.toList)
    (hv' : ∀ v ∈ values', '\'' ∉ v.toList)
    (h : joinStr "," (zipWith specPart fields values) = joinStr "," (zipWith specPart fields values')) :
    values = values' := by
  induction fields generalizing values values' with
  | nil => rw [length_eq_zero_iff.mp hlen, length_eq_zero_iff.mp hlen']
  | cons f fields ih =>
    obtain ⟨v, values, rfl⟩ := exists_cons_of_length_eq_add_one hlen
    obtain ⟨v', values', rfl⟩ := exists_cons_of_length_eq_add_one hlen'
    have hq := hv v mem_cons_self
    have hq' := hv' v' mem_cons_self
    cases fields with
    | nil =>
      obtain rfl : values = [] := length_eq_zero_iff.mp (Nat.succ.inj hlen)
      obtain rfl : values' = [] := length_eq_zero_iff.mp (Nat.succ.inj hlen')
      rw [(specPart_append_inj hq hq' (congrArg (· ++ "") h)).1]
    | cons g fields =>
      obtain ⟨w, values, rfl⟩ := exists_cons_of_length_eq_add_one (Nat.succ.inj hlen)
      obtain ⟨w', values', rfl⟩ := exists_cons_of_length_eq_add_one (Nat.succ.inj hlen')
      simp only [zipWith_cons_cons, joinStr_cons_cons, String.append_assoc] at h
      obtain ⟨heq, hrest⟩ := specPart_append_inj hq hq' h
      have hrest := (String.append_right_inj _).mp hrest
      congr 1
      refine ih (Nat.succ.inj hlen) (Nat.succ.inj hlen') (fun x hx => hv x (mem_cons_of_mem _ hx))
        (fun x hx => hv' x (mem_cons_of_mem _ hx)) ?_
      exact hrest

theorem partitionFieldSpecs_ok {row : Data} {specs : List String}
    (h : partitionFieldSpecs row fields = .ok specs) :
    specs = fields.map fun f => specPart f (sanitizeMaxComputePartitionValue (fmtV ((row.get? f).getD .null))) := by
  induction fields generalizing specs with
  | nil =>
    cases h
    rfl
  | cons f fields ih =>
    unfold partitionFieldSpecs at h
    split at h
    · cases h
    · cases h
    · rename_i v _ hget
      split at h
      · cases h
      · cases hrest : partitionFieldSpecs row fields with
        | error e => simp [hrest] at h
        | ok rest =>
          simp only [hrest, bind, Except.bind, pure, Except.pure, Except.ok.injEq] at h
          rw [← h, ih hrest, map_cons, hget]
          rfl

/-- The columns of the partition, and the values of a row for them. -/
def specFields : List String := S.partition.map Prod.fst ++ S.partitionFields

def specValues (rec : Record) : List String :=
  (S.partition.map fun kv => sanitizeMaxComputePartitionValue kv.2) ++ sanitizedTexts S rec

theorem specParts_eq (rec : Record) :
    zipWith specPart (specFields S) (specValues S rec) =
      (S.partition.map fun kv => specPart kv.1 (sanitizeMaxComputePartitionValue kv.2)) ++
        S.partitionFields.map fun f =>
          specPart f (sanitizeMaxComputePartitionValue (fmtV ((rec.data.get? f).getD .null))) := by
  rw [specFields, specValues, zipWith_append (by simp), zipWith_map, sanitizedTexts, partitionTexts,
    map_map]
  congr 1
  · rw [zipWith_self]
  · rw [zipWith_map_right, zipWith_self]
    rfl

variable {rec : Record} {p : String}

theorem partitionOf_eq (h : partitionOf S rec = some p) :
    p = joinStr "," (zipWith specPart (specFields S) (specValues S rec)) := by
  unfold partitionOf partitionSpec at h
  cases hf : partitionFieldSpecs rec.data S.partitionFields with
  | error e => simp [hf, Except.toOption] at h
  | ok specs =>
    simp only [hf, bind, Except.bind, pure, Except.pure, Except.toOption, Option.some.injEq] at h
    rw [← h, specParts_eq, partitionFieldSpecs_ok hf]
    rfl

theorem specValues_length (rec : Record) : (specValues S rec).length = (specFields S).length := by
  simp [specValues, specFields, sanitizedTexts, partitionTexts]

theorem quote_notMem_specValues (rec : Record) : ∀ v ∈ specValues S rec, '\'' ∉ v.toList := by
  intro v hv
  simp only [specValues, sanitizedTexts, mem_append, mem_map] at hv
  rcases hv with ⟨kv, -, rfl⟩ | ⟨t, -, rfl⟩
  · exact quote_notMem_sanitize _
  · exact quote_notMem_sanitize _

/-- **Two records have one partition exactly if their sanitised values agree.** -/
theorem partitionSpec_eq_iff {rec' : Record} (h : (partitionOf S rec).isSome) (h' : (partitionOf S rec').isSome) :
    partitionOf S rec = partitionOf S rec' ↔ sanitizedTexts S rec = sanitizedTexts S rec' := by
  obtain ⟨p, hp⟩ := Option.isSome_iff_exists.mp h
  obtain ⟨p', hp'⟩ := Option.isSome_iff_exists.mp h'
  have heq := partitionOf_eq S hp
  have heq' := partitionOf_eq S hp'
  rw [hp, hp', Option.some.injEq]
  constructor
  · intro hpp
    rw [heq, heq'] at hpp
    have hvalues := join_specParts_inj (specValues_length S rec) (specValues_length S rec')
      (quote_notMem_specValues S rec) (quote_notMem_specValues S rec') hpp
    exact append_cancel_left hvalues
  · intro hs
    rw [heq, heq', specValues, specValues, hs]

/-! ## The rows of a chunk -/

def groupedRows (groups : List PartitionBatch) (p : String) : List Data :=
  ((groups.find? (·.partition = p)).map (·.rows)).getD []

theorem groupedRows_addRow (q : String) (row : Data) (i : Nat) (groups : List PartitionBatch) (p : String) :
    groupedRows (addRow q row i groups) p =
      if q = p then groupedRows groups p ++ [row] else groupedRows groups p := by
  induction groups with
  | nil =>
    by_cases hq : q = p
    · simp [addRow, groupedRows, hq]
    · simp [addRow, groupedRows, hq]
  | cons g groups ih =>
    unfold addRow
    by_cases hg : g.partition = q
    · by_cases hq : q = p
      · simp [groupedRows, hg, hq]
      · simp [groupedRows, hg, hq]
    · rw [if_neg hg]
      by_cases hp : g.partition = p
      · have hq : q ≠ p := fun hq => hg (hp.trans hq.symm)
        simp [groupedRows, hp, hq]
      · have hskip : ∀ l, groupedRows (g :: l) p = groupedRows l p := fun l => by simp [groupedRows, hp]
        rw [hskip, hskip, ih]

theorem partitions_addRow (q : String) (row : Data) (i : Nat) (groups : List PartitionBatch) :
    (addRow q row i groups).map (·.partition) =
      if q ∈ groups.map (·.partition) then groups.map (·.partition) else groups.map (·.partition) ++ [q] := by
  induction groups with
  | nil => rfl
  | cons g groups ih =>
    unfold addRow
    by_cases hg : g.partition = q
    · rw [if_pos hg, if_pos (by simp [hg])]
      rfl
    · rw [if_neg hg, map_cons, ih]
      by_cases hq : q ∈ groups.map (·.partition)
      · have hmem : q ∈ (g :: groups).map (·.partition) := mem_cons_of_mem _ hq
        rw [if_pos hq, if_pos hmem, map_cons]
      · have hne : q ∉ (g :: groups).map (·.partition) := by
          rw [map_cons, mem_cons]
          exact fun hor => hor.elim (fun heq => hg heq.symm) hq
        rw [if_neg hq, if_neg hne]
        rfl

/-- What the grouping loop has done for the records it has seen. -/
structure Grouped (seen : List Record) (groups : List PartitionBatch) : Prop where
  rows : ∀ p, groupedRows groups p = rowsFor S p seen
  touched : ∀ p, p ∈ groups.map (·.partition) ↔ rowsFor S p seen ≠ []
  nodup : (groups.map (·.partition)).Nodup

theorem rowsFor_append (p : String) (a b : List Record) : rowsFor S p (a ++ b) = rowsFor S p a ++ rowsFor S p b := by
  simp [rowsFor]

variable {q : String}

theorem rowsFor_singleton (hq : partitionOf S rec = some q) (p : String) :
    rowsFor S p [rec] = if q = p then [rowData S rec.data] else [] := by
  by_cases h : q = p
  · simp [rowsFor, hq, h]
  · simp [rowsFor, hq, h]

variable {groups : List PartitionBatch} {seen : List Record}

theorem Grouped.addRow {S : MaxComputeSink} (h : Grouped S seen groups)
    (hq : partitionOf S rec = some q) (i : Nat) :
    Grouped S (seen ++ [rec]) (addRow q (rowData S rec.data) i groups) := by
  refine ⟨fun p => ?_, fun p => ?_, ?_⟩
  · rw [groupedRows_addRow, rowsFor_append, rowsFor_singleton S hq, h.rows]
    split
    · rfl
    · rw [append_nil]
  · rw [partitions_addRow, rowsFor_append, rowsFor_singleton S hq]
    have htouched := h.touched p
    by_cases hp : q = p
    · subst hp
      split
      · rename_i hmem
        simp [hmem]
      · simp
    · rw [if_neg hp, append_nil, ← htouched]
      split
      · rfl
      · simp [Ne.symm hp]
  · rw [partitions_addRow]
    split
    · exact h.nodup
    · rename_i hmem
      exact nodup_append.mpr ⟨h.nodup, nodup_singleton _, fun a ha b hb heq =>
        hmem (mem_singleton.mp hb ▸ heq ▸ ha)⟩

variable {records : List Record}

/-- **The groups of a chunk hold its rows**, and every record of it has a partition. -/
theorem groupRows_grouped {i : Nat} {result : List PartitionBatch} (hg : Grouped S seen groups)
    (h : groupRows S records i groups = .ok result) :
    Grouped S (seen ++ records) result ∧ ∀ rec ∈ records, (partitionOf S rec).isSome := by
  induction records generalizing i seen groups with
  | nil =>
    cases h
    exact ⟨by rwa [append_nil], fun _ hm => absurd hm not_mem_nil⟩
  | cons rec records ih =>
    unfold groupRows at h
    cases hp : partitionSpec S rec.data with
    | error e => simp [hp] at h
    | ok q =>
      simp only [hp] at h
      have hq : partitionOf S rec = some q := by rw [partitionOf, hp]; rfl
      obtain ⟨hresult, hall⟩ := ih (hg.addRow hq i) h
      rw [append_assoc] at hresult
      refine ⟨hresult, fun x hx => ?_⟩
      rcases mem_cons.mp hx with rfl | hx
      · rw [hq]
        rfl
      · exact hall x hx

theorem foldl_update (hnodup : (groups.map (·.partition)).Nodup) (c : Contents) (p : String) :
    (groups.foldl (fun c g => update c g.partition g.rows) c) p =
      if p ∈ groups.map (·.partition) then groupedRows groups p else c p := by
  induction groups generalizing c with
  | nil => rfl
  | cons g groups ih =>
    obtain ⟨hfresh, hnodup⟩ := nodup_cons.mp hnodup
    rw [foldl_cons, ih hnodup]
    by_cases hp : g.partition = p
    · subst hp
      rw [if_neg hfresh]
      simp [groupedRows]
    · have hne : p ≠ g.partition := fun heq => hp heq.symm
      have hmem : p ∈ (g :: groups).map (·.partition) ↔ p ∈ groups.map (·.partition) := by
        rw [map_cons, mem_cons]
        exact or_iff_right hne
      simp only [hmem, update_of_ne hne]
      have hskip : groupedRows (g :: groups) p = groupedRows groups p := by simp [groupedRows, hp]
      rw [hskip]

/-! ## Sessions -/

/-- A partition that was written has exactly the rows of its last session. -/
theorem overwriteLoop_nil (start : Nat) (partition : String) (rows : List Data) :
    ∀ (k attempt : Nat) (last : Option Cause) (c : Contents), 0 < k →
      (writePartitionLoop E start partition rows.length k attempt last).err = none →
        overwriteLoop E committed start partition rows k attempt c = update c partition rows
  | k + 1, attempt, last, c, _, h => by
    unfold writePartitionLoop at h
    unfold overwriteLoop
    cases hc : E.ctxErr start partition attempt with
    | some e => simp [hc] at h
    | none =>
      cases hx : (E.exchange start partition attempt rows.length).err with
      | none => rfl
      | some e =>
        simp only [hc, hx] at h ⊢
        split at h
        · simp at h
        · rename_i hr
          rw [if_neg hr]
          cases hw : E.waitDone start partition attempt with
          | some ce => simp [hw] at h
          | none =>
            simp only [hw] at h ⊢
            have hk : 0 < k := Nat.pos_of_ne_zero fun hk => hr (.inr hk)
            rw [overwriteLoop_nil start partition rows k (attempt + 1) _ _ hk h]
            split
            · exact update_idem _ _ _
            · rfl

variable {start : Nat}

theorem writeGroups_nil {st : ChunkState} (h : (writeGroups S E start groups st).lastErr = none) :
    ∀ g ∈ groups, (writePartitionWithRetry S E start g.partition g.rows.length).err = none := by
  induction groups generalizing st with
  | nil => exact fun _ hm => absurd hm not_mem_nil
  | cons g groups ih =>
    unfold writeGroups at h
    cases hr : (writePartitionWithRetry S E start g.partition g.rows.length).err with
    | none =>
      simp only [hr] at h
      intro x hx
      rcases mem_cons.mp hx with rfl | hx
      · exact hr
      · exact ih h x hx
    | some e =>
      simp only [hr] at h
      have hkept := ((writeGroups_written S E start groups _).noError h).2
      simp at hkept

theorem overwriteGroups_nil (c : Contents)
    (h : ∀ g ∈ groups, (writePartitionWithRetry S E start g.partition g.rows.length).err = none) :
    overwriteGroups S E committed start groups c =
      groups.foldl (fun c g => update c g.partition g.rows) c := by
  induction groups generalizing c with
  | nil => rfl
  | cons g groups ih =>
    have hg := overwriteLoop_nil E committed start g.partition g.rows (S.maxRetries + 1) 0 none c (Nat.succ_pos _)
      (h g mem_cons_self)
    have hrest := ih (update c g.partition g.rows) fun x hx => h x (mem_cons_of_mem _ hx)
    unfold overwriteGroups at hrest ⊢
    rw [foldl_cons, foldl_cons, hg, hrest]

theorem writeChunk_nil (h : (writeChunk S E records start).err = none) :
    ∃ groups, groupRows S ((records.drop start).take S.batchSize) start [] = .ok groups ∧
      (writeGroups S E start groups {}).lastErr = none := by
  unfold writeChunk at h
  cases hg : groupRows S ((records.drop start).take S.batchSize) start [] with
  | error e => simp [hg] at h
  | ok groups =>
    refine ⟨groups, rfl, ?_⟩
    simp only [hg] at h
    cases hl : (writeGroups S E start groups {}).lastErr with
    | none => rfl
    | some e =>
      simp only [hl] at h
      split at h
      · simp at h
      · simp at h

theorem grouped_nil : Grouped S [] [] := ⟨fun _ => rfl, fun _ => by simp [rowsFor], nodup_nil⟩

/-- **A chunk that is written** replaces the partitions it has rows for. -/
theorem overwriteChunk_nil (h : (writeChunk S E records start).err = none) (c : Contents) (p : String) :
    overwriteChunk S E committed records start c p =
      if rowsFor S p ((records.drop start).take S.batchSize) = [] then c p
      else rowsFor S p ((records.drop start).take S.batchSize) := by
  obtain ⟨groups, hgroups, hlast⟩ := writeChunk_nil S E h
  have hg := (groupRows_grouped S (grouped_nil S) hgroups).1
  rw [nil_append] at hg
  unfold overwriteChunk
  simp only [hgroups]
  rw [overwriteGroups_nil S E committed c (writeGroups_nil S E hlast), foldl_update hg.nodup, hg.rows]
  by_cases hp : rowsFor S p ((records.drop start).take S.batchSize) = []
  · rw [if_neg fun hm => (hg.touched p).mp hm hp, if_pos hp]
  · rw [if_pos ((hg.touched p).mpr hp), if_neg hp]

/-! ## The batch -/

/-- The record at position `i` is one of partition `p`. -/
def At (records : List Record) (p : String) (i : Nat) : Prop :=
  ∃ rec, records[i]? = some rec ∧ partitionOf S rec = some p

theorem rowsFor_ne_nil_iff (p : String) (records : List Record) :
    rowsFor S p records ≠ [] ↔ ∃ i, At S records p i := by
  simp only [rowsFor, ne_eq, map_eq_nil_iff, filter_eq_nil_iff, decide_eq_true_eq, not_forall, not_not, At,
    mem_iff_getElem?, exists_prop]
  grind

theorem at_drop (records : List Record) (p : String) (o i : Nat) :
    At S (records.drop o) p i ↔ At S records p (o + i) := by
  simp only [At, getElem?_drop]

theorem at_take (records : List Record) (p : String) (n i : Nat) :
    At S (records.take n) p i ↔ i < n ∧ At S records p i := by
  by_cases hi : i < n
  · simp [At, hi]
  · simp [At, hi]

/-- The rows of partition `p` from `offset` on are all of one chunk. -/
def OneChunkFrom (records : List Record) (p : String) (offset : Nat) : Prop :=
  ∀ i j, offset ≤ i → offset ≤ j → At S records p i → At S records p j → i / S.batchSize = j / S.batchSize

theorem exists_behind {P : Nat → Prop} {o : Nat} : (∃ i, P (o + i)) ↔ ∃ i, o ≤ i ∧ P i := by
  constructor
  · rintro ⟨i, hi⟩
    exact ⟨o + i, Nat.le_add_right _ _, hi⟩
  · rintro ⟨i, hle, hi⟩
    exact ⟨i - o, by rwa [Nat.add_sub_cancel' hle]⟩

/-- What the chunks from `offset` on leave of a partition: nothing is changed if they have no row for it; else
no more rows than they have, and all of them exactly if they are of one chunk. -/
structure KeptFrom (records : List Record) (p : String) (offset : Nat) (c final : Contents) : Prop where
  untouched : rowsFor S p (records.drop offset) = [] → final p = c p
  length_le : rowsFor S p (records.drop offset) ≠ [] →
    (final p).length ≤ (rowsFor S p (records.drop offset)).length
  holds_iff : rowsFor S p (records.drop offset) ≠ [] →
    ((rowsFor S p (records.drop offset)).Subperm (final p) ↔ OneChunkFrom S records p offset)

/-- One chunk in front of the others. -/
theorem KeptFrom.cons {S : MaxComputeSink} {m : Nat} {c c' final : Contents}
    (h : KeptFrom S records p ((m + 1) * S.batchSize) c' final)
    (hc : c' p = if rowsFor S p ((records.drop (m * S.batchSize)).take S.batchSize) = [] then c p
      else rowsFor S p ((records.drop (m * S.batchSize)).take S.batchSize)) :
    KeptFrom S records p (m * S.batchSize) c final := by
  have hpos := S.batchSize_pos
  have hnext : (m + 1) * S.batchSize = m * S.batchSize + S.batchSize := Nat.succ_mul _ _
  have hsplit : rowsFor S p (records.drop (m * S.batchSize)) =
      rowsFor S p ((records.drop (m * S.batchSize)).take S.batchSize) ++
        rowsFor S p (records.drop ((m + 1) * S.batchSize)) := by
    rw [hnext, ← rowsFor_append, ← drop_drop, take_append_drop]
  -- the positions of the chunk, and those behind it
  have hchunk : ∀ i, m * S.batchSize ≤ i → i < (m + 1) * S.batchSize → i / S.batchSize = m := fun i hlo hhi =>
    Nat.div_eq_of_lt_le hlo hhi
  have hbehind : ∀ i, (m + 1) * S.batchSize ≤ i → m < i / S.batchSize := fun i hlo =>
    (Nat.le_div_iff_mul_le hpos).mpr hlo
  have hfirst : rowsFor S p ((records.drop (m * S.batchSize)).take S.batchSize) ≠ [] ↔
      ∃ i, m * S.batchSize ≤ i ∧ i < (m + 1) * S.batchSize ∧ At S records p i := by
    have hexists := @exists_behind (fun i => i < m * S.batchSize + S.batchSize ∧ At S records p i) (m * S.batchSize)
    simpa only [rowsFor_ne_nil_iff, at_take, at_drop, hnext, Nat.add_lt_add_iff_left] using hexists
  have hrest : rowsFor S p (records.drop ((m + 1) * S.batchSize)) ≠ [] ↔
      ∃ i, (m + 1) * S.batchSize ≤ i ∧ At S records p i := by
    simp only [rowsFor_ne_nil_iff, at_drop]
    exact exists_behind
  by_cases hf : rowsFor S p ((records.drop (m * S.batchSize)).take S.batchSize) = []
  · -- no row of the chunk is of this partition
    rw [if_pos hf] at hc
    rw [hf, nil_append] at hsplit
    have hnone : ∀ i, m * S.batchSize ≤ i → At S records p i → (m + 1) * S.batchSize ≤ i := by
      intro i hlo hi
      by_contra hhi
      exact hfirst.mpr ⟨i, hlo, Nat.lt_of_not_le hhi, hi⟩ hf
    have hone : OneChunkFrom S records p (m * S.batchSize) ↔ OneChunkFrom S records p ((m + 1) * S.batchSize) :=
      ⟨fun hone i j hi hj => hone i j (by omega) (by omega),
        fun hone i j hi hj hpi hpj => hone i j (hnone i hi hpi) (hnone j hj hpj) hpi hpj⟩
    refine ⟨fun he => ?_, hsplit ▸ h.length_le, ?_⟩
    · rw [h.untouched (hsplit ▸ he), hc]
    · rw [hsplit, hone]
      exact h.holds_iff
  · rw [if_neg hf] at hc
    obtain ⟨i, hilo, hihi, hi⟩ := hfirst.mp hf
    by_cases hr : rowsFor S p (records.drop ((m + 1) * S.batchSize)) = []
    · -- the last chunk with rows of this partition
      rw [hr, append_nil] at hsplit
      have hfinal := (h.untouched hr).trans hc
      rw [← hsplit] at hfinal
      refine ⟨fun he => absurd (hsplit ▸ he) hf, fun _ => (congrArg length hfinal).le, fun _ => ?_⟩
      rw [hfinal]
      refine iff_of_true (Subperm.refl _) fun a b ha hb hpa hpb => ?_
      have hin : ∀ a, m * S.batchSize ≤ a → At S records p a → a < (m + 1) * S.batchSize := by
        intro a ha hpa
        by_contra hhi
        exact hrest.mpr ⟨a, Nat.le_of_not_lt hhi, hpa⟩ hr
      rw [hchunk a ha (hin a ha hpa), hchunk b hb (hin b hb hpb)]
    · -- a later chunk replaces these rows
      obtain ⟨j, hjlo, hj⟩ := hrest.mp hr
      have hle := h.length_le hr
      have hlt : (final p).length < (rowsFor S p (records.drop (m * S.batchSize))).length := by
        have hpos := length_pos_of_ne_nil hf
        rw [hsplit, length_append]
        omega
      refine ⟨fun he => ?_, fun _ => hlt.le, fun _ => iff_of_false (fun hsub => ?_) fun hone => ?_⟩
      · rw [hsplit] at he
        exact absurd (append_eq_nil_iff.mp he).1 hf
      · exact absurd hsub.length_le (Nat.not_le_of_lt hlt)
      · have heq := hone i j hilo (by omega) hi hj
        have hj' := hbehind j hjlo
        rw [hchunk i hilo hihi] at heq
        omega

/-- Behind the last chunk nothing changes, and no row is left. -/
theorem keptFrom_end {offset : Nat} (h : records.length ≤ offset) (p : String) (c : Contents) :
    KeptFrom S records p offset c c ∧ ∀ rec ∈ records.drop offset, (partitionOf S rec).isSome := by
  have hdrop := drop_eq_nil_of_le h
  have hnil : rowsFor S p (records.drop offset) = [] := by
    rw [hdrop]
    rfl
  exact ⟨⟨fun _ => rfl, absurd hnil, absurd hnil⟩, by simp [hdrop]⟩

/-- **What a batch leaves of a partition**: the rows of the last chunk that has any for it. Every record has a
partition. -/
theorem overwriteFrom_kept (p : String) (k m : Nat) (c : Contents) (hk : records.length ≤ m * S.batchSize + k)
    (h : (chunkLoop S.batchSize records.length (writeChunk S E records) k (m * S.batchSize)).err = none) :
    KeptFrom S records p (m * S.batchSize) c (overwriteFrom S E committed records k (m * S.batchSize) c) ∧
      ∀ rec ∈ records.drop (m * S.batchSize), (partitionOf S rec).isSome := by
  induction k generalizing m c with
  | zero => exact keptFrom_end S hk p c
  | succ k ih =>
    unfold chunkLoop at h
    unfold overwriteFrom
    by_cases hlt : m * S.batchSize < records.length
    · rw [if_pos hlt] at h ⊢
      cases hchunk : (writeChunk S E records (m * S.batchSize)).err with
      | some e => simp [hchunk] at h
      | none =>
        simp only [hchunk] at h ⊢
        have hpos := S.batchSize_pos
        have hnext : m * S.batchSize + S.batchSize = (m + 1) * S.batchSize := (Nat.succ_mul _ _).symm
        rw [hnext] at h ⊢
        obtain ⟨hkept, hrest⟩ := ih (m + 1) _ (by omega) h
        refine ⟨hkept.cons (overwriteChunk_nil S E committed hchunk c p), fun rec hrec => ?_⟩
        obtain ⟨groups, hgroups, -⟩ := writeChunk_nil S E hchunk
        rw [← take_append_drop S.batchSize (records.drop _), drop_drop, hnext] at hrec
        rcases mem_append.mp hrec with hrec | hrec
        · exact (groupRows_grouped S (grouped_nil S) hgroups).2 rec hrec
        · exact hrest rec hrec
    · rw [if_neg hlt]
      exact keptFrom_end S (Nat.le_of_not_lt hlt) p c

/-- Every partition the batch touches holds all rows of the batch for it. -/
def PartitionsHold (records : List Record) (final : Contents) : Prop :=
  ∀ p, rowsFor S p records ≠ [] → (rowsFor S p records).Subperm (final p)

/-- Rows with different partition values are of different partitions. -/
def PartitionsApart (records : List Record) : Prop :=
  ∀ rec ∈ records, ∀ rec' ∈ records, partitionTexts S rec ≠ partitionTexts S rec' →
    partitionOf S rec ≠ partitionOf S rec'

/-- Records whose sanitised partition values agree are of one chunk. -/
def OneChunk (records : List Record) : Prop :=
  ∀ (i j : Nat) (rec rec' : Record), records[i]? = some rec → records[j]? = some rec' →
    sanitizedTexts S rec = sanitizedTexts S rec' → i / S.batchSize = j / S.batchSize

/-- Sanitising tells the partition values of the batch apart. -/
def SanitizedApart (records : List Record) : Prop :=
  ∀ rec ∈ records, ∀ rec' ∈ records, sanitizedTexts S rec = sanitizedTexts S rec' →
    partitionTexts S rec = partitionTexts S rec'

/-- **`partition_overwrite` keeps the batch exactly if** the rows of each partition are of one chunk and
sanitising tells the partition values apart. -/
theorem partition_overwrite_iff (records : List Record) (c : Contents) (hnil : (write S E records).err = none) :
    (PartitionsHold S records (overwrite S E committed records c) ∧ PartitionsApart S records) ↔
      (OneChunk S records ∧ SanitizedApart S records) := by
  have hstart : 0 * S.batchSize = 0 := Nat.zero_mul _
  have hloop : (chunkLoop S.batchSize records.length (writeChunk S E records) records.length
      (0 * S.batchSize)).err = none := by rw [hstart]; exact hnil
  have hloops := fun p => overwriteFrom_kept S E committed p records.length 0 c (by omega) hloop
  rw [hstart] at hloops
  have hkept := fun p => (hloops p).1
  have hpart := (hloops "").2
  apply and_congr
  · constructor
    · intro hhold i j rec rec' hi hj hsame
      have hrec := hpart rec (mem_of_getElem? hi)
      have hrec' := hpart rec' (mem_of_getElem? hj)
      have heq := (partitionSpec_eq_iff S hrec hrec').mpr hsame
      obtain ⟨p, hp⟩ := Option.isSome_iff_exists.mp hrec
      have hne := (rowsFor_ne_nil_iff S p records).mpr ⟨i, rec, hi, hp⟩
      have hone := ((hkept p).holds_iff hne).mp (hhold p hne)
      exact hone i j (Nat.zero_le _) (Nat.zero_le _) ⟨rec, hi, hp⟩ ⟨rec', hj, heq ▸ hp⟩
    · intro hone p hne
      refine ((hkept p).holds_iff hne).mpr ?_
      rintro i j - - ⟨rec, hi, hp⟩ ⟨rec', hj, hp'⟩
      refine hone i j rec rec' hi hj ((partitionSpec_eq_iff S ?_ ?_).mp (hp.trans hp'.symm))
      · exact hpart rec (mem_of_getElem? hi)
      · exact hpart rec' (mem_of_getElem? hj)
  · constructor
    · intro hapart rec hrec rec' hrec' hsame
      by_contra hne
      exact hapart rec hrec rec' hrec' hne ((partitionSpec_eq_iff S (hpart rec hrec) (hpart rec' hrec')).mpr hsame)
    · intro hsan rec hrec rec' hrec' hne heq
      exact hne (hsan rec hrec rec' hrec' ((partitionSpec_eq_iff S (hpart rec hrec) (hpart rec' hrec')).mp heq))

end

/-! ## Two rows of a day -/

theorem one_pos : 0 < 1 := Nat.one_pos

def oneRowChunks : MaxComputeSink where
  batchSize := 1
  batchSize_pos := one_pos
  partitionFields := ["city"]

theorem range_bounded (n : Nat) : ∀ i ∈ range n, i < n := fun _ hi => mem_range.mp hi

theorem range_honest (n : Nat) : (none : Option ClientErr) = none → ∀ i < n, i ∈ range n :=
  fun _ _ hi => mem_range.mpr hi

def acceptingClient : Client where
  exchange _ _ _ n :=
    { err := none, accepted := List.range n, bounded := range_bounded n, honest := range_honest n }

def cityRecord (id : Int) (city : String) : Record := { data := [("id", .int64 id), ("city", .str city)] }

theorem partition_overwrite_iff_two_cities :
    PartitionsHold oneRowChunks [cityRecord 1 "rome", cityRecord 2 "oslo"]
      (overwrite oneRowChunks acceptingClient (fun _ _ _ => false) [cityRecord 1 "rome", cityRecord 2 "oslo"]
        fun _ => []) := by
  refine ((partition_overwrite_iff oneRowChunks acceptingClient (fun _ _ _ => false) _ _ (by decide +kernel)).mpr
    ⟨?_, ?_⟩).1
  · intro i j rec rec' hi hj hsame
    have hlt := (List.getElem?_eq_some_iff.mp hi).1
    have hlt' := (List.getElem?_eq_some_iff.mp hj).1
    simp only [length_cons, length_nil] at hlt hlt'
    interval_cases i <;> interval_cases j <;> cases hi <;> cases hj
    · rfl
    · exact absurd hsame (by decide +kernel)
    · exact absurd hsame (by decide +kernel)
    · rfl
  · unfold SanitizedApart
    decide +kernel

/-- The second chunk replaces the row of the first, and a quoted name is of the partition of the plain one. -/
theorem partition_overwrite_loses_rows :
    (write oneRowChunks acceptingClient [cityRecord 1 "rome", cityRecord 2 "rome"]).err = none ∧
      overwrite oneRowChunks acceptingClient (fun _ _ _ => false) [cityRecord 1 "rome", cityRecord 2 "rome"]
        (fun _ => []) "city='rome'" = [[("id", .int64 2)]] ∧
      rowsFor oneRowChunks "city='rome'" [cityRecord 1 "rome", cityRecord 2 "rome"] =
        [[("id", .int64 1)], [("id", .int64 2)]] ∧
      partitionTexts oneRowChunks (cityRecord 1 "l'aquila") ≠ partitionTexts oneRowChunks (cityRecord 2 "laquila") ∧
      partitionOf oneRowChunks (cityRecord 1 "l'aquila") = partitionOf oneRowChunks (cityRecord 2 "laquila") := by
  decide +kernel

end OpenEtl.Sink.MaxCompute
