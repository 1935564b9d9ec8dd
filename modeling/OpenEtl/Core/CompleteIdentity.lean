import OpenEtl.Core.Identity
import OpenEtl.Lib.JsonGrammar

/-!
# When the identity of a record is complete

`recordIdentity_complete_iff` says of the record alone when its identity is complete: what its key has to be, by the
grammar of JSON (`IsKey`), and what the row images have to hold (`Identified`), where two values are the same as the
same numeral or number, the same text or the same truth value (`SameKeyValue`).
-/

namespace OpenEtl

open List Function Json

/-! ## Values -/

/-- A value that a key column may have. -/
def KeyScalar : Value → Prop
  | .null | .json _ => False
  | .str s => s ≠ ""
  | .bytes bs => bs ≠ []
  | _ => True

/-- The characters of a text, and the bytes in it that are none. -/
def textOf : Value → Option (List (Option Char))
  | .str s | .time s => some (s.toList.map some)
  | .bytes bs => some (Bytes.runes bs)
  | _ => none

inductive SameKeyValue : Value → Value → Prop
  | bool (b : Bool) : SameKeyValue (.bool b) (.bool b)
  | text {v w rs} : textOf v = some rs → textOf w = some rs → SameKeyValue v w
  | numeral {v w t} : numeral v = some t → numeral w = some t → validNumber t = true → SameKeyValue v w
  | number {v w q} : identityNumber v = some q → identityNumber w = some q → SameKeyValue v w

variable {v w : Value}

theorem identityValueEmpty_eq_false_iff : identityValueEmpty v = false ↔ KeyScalar v := by
  cases v <;> simp [identityValueEmpty, KeyScalar]

theorem identityJSON_of_text {rs : List (Option Char)} (h : textOf v = some rs) :
    identityNumber v = none ∧ identityJSON v = some (quoteRunes rs) := by
  cases v with
  | str s | time s =>
    cases h
    exact ⟨rfl, congrArg some (quote_eq s)⟩
  | bytes bs =>
    cases h
    exact ⟨rfl, rfl⟩
  | _ => cases h

theorem identityJSON_of_numeral {t : List Char} (h : numeral v = some t) :
    identityJSON v = if validNumber t then some t else none := by
  cases v with
  | int k n =>
    cases h
    rw [if_pos (validNumber_int n)]
    rfl
  | float x =>
    cases h
    rfl
  | _ => cases h

theorem identityNumber_of_numeral {t : List Char} (h : numeral v = some t) : identityNumber v = ratSetString t := by
  rw [identityNumber, h, Option.bind_some]

/-- The three ways a scalar is written. -/
theorem KeyScalar.json {cs : List Char} (hv : KeyScalar v) (h : identityJSON v = some cs) :
    (∃ b, v = .bool b ∧ cs = if b then "true".toList else "false".toList) ∨
      (∃ rs, textOf v = some rs ∧ cs = quoteRunes rs) ∨ numeral v = some cs ∧ validNumber cs = true := by
  have htext {rs : List (Option Char)} (ht : textOf v = some rs) : ∃ rs, textOf v = some rs ∧ cs = quoteRunes rs :=
    ⟨rs, ht, Option.some.inj (h.symm.trans (identityJSON_of_text ht).2)⟩
  have hnumeral {t : List Char} (ht : numeral v = some t) : numeral v = some cs ∧ validNumber cs = true := by
    rw [identityJSON_of_numeral ht, Option.ite_none_right_eq_some, Option.some.injEq] at h
    obtain ⟨hvalid, rfl⟩ := h
    exact ⟨ht, hvalid⟩
  cases v with
  | null | json t => exact hv.elim
  | bool b => exact .inl ⟨b, rfl, by cases b <;> exact (Option.some.inj h).symm⟩
  | int k n => exact .inr (.inr (hnumeral rfl))
  | float t => exact .inr (.inr (hnumeral rfl))
  | str s => exact .inr (.inl (htext rfl))
  | bytes bs => exact .inr (.inl (htext rfl))
  | time t => exact .inr (.inl (htext rfl))

theorem sameKeyValue_of_json {cs : List Char} (hv : KeyScalar v) (hw : KeyScalar w) (h : identityJSON v = some cs)
    (h' : identityJSON w = some cs) : SameKeyValue v w := by
  have hquoted (rs : List (Option Char)) : validNumber (quoteRunes rs) ≠ true := fun hvalid =>
    absurd (isNumberChar_of_valid hvalid '"' mem_cons_self) (by decide)
  have hword (b : Bool) : validNumber (if b then "true".toList else "false".toList) ≠ true := by
    cases b <;> decide
  rcases hv.json h with ⟨b, rfl, rfl⟩ | ⟨rs, hrs, rfl⟩ | ⟨ht, hvalid⟩ <;>
    rcases hw.json h' with ⟨b', rfl, hb⟩ | ⟨rs', hrs', heq⟩ | ⟨ht', hvalid'⟩
  · obtain rfl : b = b' := by revert hb; cases b <;> cases b' <;> simp
    exact .bool b
  · cases b <;> simp [quoteRunes] at heq
  · exact absurd hvalid' (hword b)
  · cases b' <;> simp [quoteRunes] at hb
  · exact .text hrs (quoteRunes_inj heq ▸ hrs')
  · exact absurd hvalid' (hquoted rs)
  · exact absurd (hb ▸ hvalid) (hword b')
  · exact absurd (heq ▸ hvalid) (hquoted rs')
  · exact .numeral ht ht' hvalid

/-- **Key values compare as equal exactly if they are the same.** -/
theorem identityValuesEqual_iff (hv : KeyScalar v) (hw : KeyScalar w) :
    identityValuesEqual v w = true ↔ SameKeyValue v w := by
  constructor
  · intro h
    have hjson (h : ((identityJSON v).isSome && decide (identityJSON v = identityJSON w)) = true) :
        SameKeyValue v w := by
      rw [Bool.and_eq_true, decide_eq_true_eq, Option.isSome_iff_exists] at h
      obtain ⟨⟨cs, hcs⟩, heq⟩ := h
      exact sameKeyValue_of_json hv hw hcs (heq ▸ hcs)
    unfold identityValuesEqual at h
    split at h
    · rename_i a b ha hb
      obtain rfl : a = b := of_decide_eq_true h
      exact .number ha hb
    · exact hjson h
  · have hnumeral {t : List Char} (h : numeral v = some t) (h' : numeral w = some t) (hvalid : validNumber t = true) :
        identityValuesEqual v w = true := by
      rw [identityValuesEqual, identityNumber_of_numeral h, identityNumber_of_numeral h',
        identityJSON_of_numeral h, identityJSON_of_numeral h', if_pos hvalid]
      cases ratSetString t <;> simp
    rintro (b | ⟨h, h'⟩ | ⟨h, h', hvalid⟩ | ⟨h, h'⟩)
    · cases b <;> decide
    · rw [identityValuesEqual, (identityJSON_of_text h).1, (identityJSON_of_text h).2, (identityJSON_of_text h').2]
      simp
    · exact hnumeral h h' hvalid
    · simp [identityValuesEqual, h, h']

/-! ## The key -/

/-- The text is one JSON object, with white space around it, that has the columns as its names and a scalar for each of
them; of several members with one name the last counts. -/
def IsKey (text : String) (columns : List String) (key : String → Value) : Prop :=
  ∃ before body after ms, text.toList = before ++ (body ++ after) ∧ (∀ c ∈ before ++ after, isWhiteSpace c = true) ∧
    IsValue body (.obj ms) ∧ (∀ c, c ∈ ms.map Prod.fst ↔ c ∈ columns) ∧
    ∀ c ∈ columns, ∃ j, ms.reverse.lookup c = some j ∧ key c = ofJson j ∧ KeyScalar (key c)

/-- Distinct columns, with names that are not blank. -/
structure Declares (columns : List String) : Prop where
  ne_nil : columns ≠ []
  nodup : columns.Nodup
  named : ∀ c ∈ columns, ∃ x ∈ c.toList, isWhiteSpace x = false

theorem trimSpace_eq_empty_iff {s : String} : trimSpace s = "" ↔ ∀ x ∈ s.toList, isWhiteSpace x = true := by
  have hempty (cs : List Char) : String.ofList cs = "" ↔ cs = [] := by
    rw [← String.toList_inj, String.toList_ofList]
    rfl
  rw [trimSpace, hempty, reverse_eq_nil_iff, dropWhile_eq_nil_iff]
  constructor
  · intro h
    have hall : ∀ x ∈ s.toList.dropWhile isWhiteSpace, isWhiteSpace x = true := fun x hx => h x (mem_reverse.mpr hx)
    intro x hx
    rw [← takeWhile_append_dropWhile (p := isWhiteSpace) (l := s.toList)] at hx
    exact (mem_append.mp hx).elim mem_takeWhile_imp (hall x)
  · intro h x hx
    exact h x ((dropWhile_suffix _).mem (mem_reverse.mp hx))

theorem isWhiteSpace_of_isSpace {c : Char} (h : isSpace c = true) : isWhiteSpace c = true := by
  simp only [isSpace, Bool.or_eq_true, decide_eq_true_eq] at h
  rcases h with ((rfl | rfl) | rfl) | rfl <;> decide

theorem trimSpace_split (s : String) : ∃ before after, s.toList = before ++ ((trimSpace s).toList ++ after) ∧
    ∀ c ∈ before ++ after, isWhiteSpace c = true := by
  refine ⟨s.toList.takeWhile isWhiteSpace,
    ((s.toList.dropWhile isWhiteSpace).reverse.takeWhile isWhiteSpace).reverse, ?_, fun c hc => ?_⟩
  · rw [trimSpace, String.toList_ofList, ← reverse_append, takeWhile_append_dropWhile, reverse_reverse,
      takeWhile_append_dropWhile]
  · rcases mem_append.mp hc with hc | hc
    · exact mem_takeWhile_imp hc
    · exact mem_takeWhile_imp (mem_reverse.mp hc)

theorem trimSpace_of_bounds {s : String} {before mid after : List Char} {x y : Char}
    (h : s.toList = before ++ (x :: (mid ++ [y]) ++ after)) (hwhite : ∀ c ∈ before ++ after, isWhiteSpace c = true)
    (hx : isWhiteSpace x = false) (hy : isWhiteSpace y = false) : (trimSpace s).toList = x :: (mid ++ [y]) := by
  have hafter : ∀ c ∈ after.reverse, isWhiteSpace c = true := fun c hc =>
    hwhite c (mem_append_right _ (mem_reverse.mp hc))
  rw [trimSpace, String.toList_ofList, h, dropWhile_append_of_pos fun c hc => hwhite c (mem_append_left _ hc)]
  simp [hx, hy, dropWhile_append_of_pos hafter]

/-- The key is decoded without the white space around it. -/
theorem decode_trimSpace_iff {text : String} {ms : List (String × Json)} :
    decode (trimSpace text).toList = some (.obj ms) ↔ ∃ before body after,
      text.toList = before ++ (body ++ after) ∧ (∀ c ∈ before ++ after, isWhiteSpace c = true) ∧
        IsValue body (.obj ms) := by
  constructor
  · intro h
    obtain ⟨i, ⟨hbefore, hafter⟩, hvalue, htext⟩ := decode_eq_some_iff.mp h
    obtain ⟨before, after, hsplit, hwhite⟩ := trimSpace_split text
    refine ⟨before ++ i.before, i.text, i.after ++ after, ?_, fun c hc => ?_, hvalue⟩
    · simp [hsplit, htext, Part.chars]
    · simp only [mem_append] at hc hwhite
      rcases hc with (hc | hc) | hc | hc
      · exact hwhite c (.inl hc)
      · exact isWhiteSpace_of_isSpace (hbefore c hc)
      · exact isWhiteSpace_of_isSpace (hafter c hc)
      · exact hwhite c (.inr hc)
  · rintro ⟨before, body, after, htext, hwhite, hvalue⟩
    have hbraces : ∃ mid, body = '\x7b' :: (mid ++ ['\x7d']) := by
      cases hvalue with
      | obj_nil _ => exact ⟨_, rfl⟩
      | obj _ _ _ => exact ⟨_, rfl⟩
    obtain ⟨mid, rfl⟩ := hbraces
    rw [trimSpace_of_bounds htext hwhite (by decide) (by decide)]
    exact decode_eq_some_iff.mpr ⟨⟨[], _, [], .obj ms⟩, ⟨by simp [Blank], by simp [Blank]⟩, hvalue, by simp [Part.chars]⟩

/-! ## Reading the key -/

variable {columns : List String} {values decoded : Data} {missing : List String}

theorem normalizedPKColumns_eq_ok_iff {input : List String} :
    normalizedPKColumns input = .ok columns ↔ columns = input ∧ Declares input := by
  have hnamed : (∃ c ∈ input, trimSpace c = "") ↔ ¬∀ c ∈ input, ∃ x ∈ c.toList, isWhiteSpace x = false := by
    simp [trimSpace_eq_empty_iff]
  unfold normalizedPKColumns
  split
  · rename_i hnil
    exact iff_of_false (by simp) fun h => h.2.ne_nil hnil
  · rename_i hnil
    split
    · rename_i hbad
      simp only [any_eq_true, decide_eq_true_eq] at hbad
      refine iff_of_false (by simp) fun h => ?_
      exact hbad.elim (fun hblank => hnamed.mp hblank h.2.named) fun hdup => hdup h.2.nodup
    · rename_i hok
      simp only [any_eq_true, decide_eq_true_eq, hnamed, not_or, not_not] at hok
      exact ⟨fun h => ⟨(Except.ok.inj h).symm, hnil, hok.2, hok.1⟩, fun h => by rw [h.1]⟩

theorem keyValues_eq_ok_iff {values0 : Data} :
    keyValues decoded columns values0 missing = .ok (values, []) ↔
      missing = [] ∧ (∀ c ∈ columns, ∃ v, decoded.get? c = some v ∧ KeyScalar v) ∧
        values = columns.foldl (fun vs c => Data.set vs c ((decoded.get? c).getD .null)) values0 := by
  induction columns generalizing values0 missing with
  | nil =>
    simp only [keyValues, Except.ok.injEq, Prod.mk.injEq, not_mem_nil, false_imp_iff, implies_true, true_and,
      foldl_nil]
    exact ⟨fun h => ⟨h.2, h.1.symm⟩, fun h => ⟨h.2.symm, h.1⟩⟩
  | cons c columns ih =>
    rw [keyValues]
    cases hc : decoded.get? c with
    | none => simp [ih, hc]
    | some v =>
      have hscalar := @identityValueEmpty_eq_false_iff v
      cases he : identityValueEmpty v with
      | true => simp [hc, ← hscalar, he]
      | false => simp [hc, ← hscalar, he, ih]

theorem keyValues_error {result : RecordIdentityResult}
    (h : keyValues decoded columns values missing = .error result) : result.complete = false := by
  induction columns generalizing values missing with
  | nil => simp [keyValues] at h
  | cons c columns ih =>
    rw [keyValues] at h
    split at h
    · exact ih h
    · split at h
      · rw [← Except.error.inj h]
      · exact ih h

theorem get?_foldl_set (columns : List String) (f : String → Value) (values : Data) (c : String) :
    (columns.foldl (fun vs c => Data.set vs c (f c)) values).get? c =
      if c ∈ columns then some (f c) else values.get? c := by
  induction columns generalizing values with
  | nil => simp
  | cons d columns ih =>
    rw [foldl_cons, ih, Data.get?_set]
    by_cases hc : c ∈ columns
    · simp [hc]
    · by_cases hd : c = d <;> simp [hc, hd]

/-- Of several members with one name the last one counts. -/
theorem get?_decoded (ms : List (String × Json)) (d : Data) (c : String) :
    (ms.foldl (fun d m => Data.set d m.1 (ofJson m.2)) d).get? c =
      ((ms.reverse.lookup c).map ofJson).or (d.get? c) := by
  induction ms generalizing d with
  | nil => simp
  | cons m ms ih =>
    obtain ⟨n, j⟩ := m
    have hsingle : lookup c [(n, j)] = if c = n then some j else none := by
      by_cases hn : c = n
      · simp [hn]
      · simp [List.lookup_cons, hn, show (c == n) = false by simpa using hn]
    rw [foldl_cons, ih, reverse_cons, lookup_append, Data.get?_set, hsingle]
    cases ms.reverse.lookup c with
    | some j' => simp
    | none => by_cases hn : c = n <;> simp [hn]

theorem Data.isSome_get?_iff (d : Data) (c : String) : (d.get? c).isSome ↔ c ∈ d.map Prod.fst := by
  simp [Data.get?]

theorem nodup_decoded (ms : List (String × Json)) (d : Data) (h : (d.map Prod.fst).Nodup) :
    ((ms.foldl (fun d m => Data.set d m.1 (ofJson m.2)) d).map Prod.fst).Nodup := by
  induction ms generalizing d with
  | nil => exact h
  | cons m ms ih => exact ih _ (nodup_cons.mpr ⟨by simp, h.sublist (filter_sublist.map _)⟩)

theorem decodeIdentityKey_eq_ok_iff {text : String} :
    decodeIdentityKey text = .ok decoded ↔ ∃ ms, decode text.toList = some (.obj ms) ∧
      ms.foldl (fun d m => Data.set d m.1 (ofJson m.2)) [] = decoded := by
  unfold decodeIdentityKey
  split
  · rename_i hnone
    simp [hnone]
  · rename_i ms hms
    simp [hms]
  · rename_i j hne hj
    simp only [reduceCtorEq, hj, Option.some.injEq, false_iff, not_exists, not_and]
    exact fun ms heq => absurd heq (hne ms)

/-- With a value for every column there are as many names as columns exactly if there is no other name. -/
theorem length_eq_iff (hkeys : (decoded.map Prod.fst).Nodup) (hnodup : columns.Nodup)
    (hvalues : ∀ c ∈ columns, ∃ v, decoded.get? c = some v ∧ KeyScalar v) :
    decoded.length = columns.length ↔ ∀ c, (decoded.get? c).isSome ↔ c ∈ columns := by
  simp only [Data.isSome_get?_iff]
  constructor
  · intro hlen c
    have hsub : columns.Subperm (decoded.map Prod.fst) := by
      refine subperm_of_subset hnodup fun c hc => (Data.isSome_get?_iff _ c).mp ?_
      obtain ⟨v, hv, -⟩ := hvalues c hc
      simp [hv]
    exact (hsub.perm_of_length_le (by simp [hlen])).mem_iff.symm
  · intro hiff
    simpa using ((perm_ext_iff_of_nodup hkeys hnodup).mpr hiff).length_eq

/-- The key is read as these values. -/
structure ReadsKey (text : String) (columns : List String) (decoded : Data) : Prop where
  decodes : decodeIdentityKey (trimSpace text) = .ok decoded
  names : ∀ c, (decoded.get? c).isSome ↔ c ∈ columns
  values : ∀ c ∈ columns, ∃ v, decoded.get? c = some v ∧ KeyScalar v

theorem ReadsKey.nodup {text : String} (h : ReadsKey text columns decoded) : (decoded.map Prod.fst).Nodup := by
  obtain ⟨ms, -, rfl⟩ := decodeIdentityKey_eq_ok_iff.mp h.decodes
  exact nodup_decoded ms [] nodup_nil

theorem isSome_get?_decoded (ms : List (String × Json)) (c : String) :
    (Data.get? (ms.foldl (fun d m => Data.set d m.1 (ofJson m.2)) []) c).isSome ↔ c ∈ ms.map Prod.fst := by
  rw [get?_decoded]
  simp [Data.get?]

/-- **The key is read exactly if it is one**, and as the values it holds. -/
theorem isKey_iff {text : String} {key : String → Value} :
    IsKey text columns key ↔
      ∃ decoded, ReadsKey text columns decoded ∧ ∀ c ∈ columns, decoded.get? c = some (key c) := by
  have hread (ms : List (String × Json)) (c : String) :
      Data.get? (ms.foldl (fun d m => Data.set d m.1 (ofJson m.2)) []) c = (ms.reverse.lookup c).map ofJson := by
    rw [get?_decoded]
    simp [Data.get?]
  constructor
  · rintro ⟨before, body, after, ms, htext, hwhite, hvalue, hnames, hkey⟩
    have hget (c : String) (hc : c ∈ columns) :
        Data.get? (ms.foldl (fun d m => Data.set d m.1 (ofJson m.2)) []) c = some (key c) := by
      obtain ⟨j, hj, hc, -⟩ := hkey c hc
      rw [hread, hj, Option.map_some, hc]
    have hscalar (c : String) (hc : c ∈ columns) : KeyScalar (key c) := by
      obtain ⟨j, -, -, h⟩ := hkey c hc
      exact h
    exact ⟨_, ⟨decodeIdentityKey_eq_ok_iff.mpr ⟨ms, decode_trimSpace_iff.mpr ⟨_, _, _, htext, hwhite, hvalue⟩, rfl⟩,
      fun c => (isSome_get?_decoded ms c).trans (hnames c), fun c hc => ⟨_, hget c hc, hscalar c hc⟩⟩, hget⟩
  · rintro ⟨_, ⟨hdec, hnames, hvalues⟩, hkey⟩
    obtain ⟨ms, hms, rfl⟩ := decodeIdentityKey_eq_ok_iff.mp hdec
    obtain ⟨before, body, after, htext, hwhite, hvalue⟩ := decode_trimSpace_iff.mp hms
    refine ⟨before, body, after, ms, htext, hwhite, hvalue,
      fun c => (isSome_get?_decoded ms c).symm.trans (hnames c), fun c hc => ?_⟩
    obtain ⟨v, hv, hscalar⟩ := hvalues c hc
    obtain rfl : v = key c := Option.some.inj (hv.symm.trans (hkey c hc))
    rw [hread, Option.map_eq_some_iff] at hv
    obtain ⟨j, hj, hv⟩ := hv
    exact ⟨j, hj, hv.symm, hscalar⟩

/-! ## The row images -/

variable {record : Record} {key : String → Value}

/-- Under the Canal contract the columns that the before image leaves out are unchanged. -/
def fallback (record : Record) : Bool :=
  record.metadata.formatContractID = formatContractCanalJSONV1 &&
    canalBeforeStateAllowsDataFallback record.metadata.beforeImageState

def beforeValue (record : Record) (c : String) : Option Value :=
  (record.before.get? c).or (if fallback record then record.data.get? c else none)

/-- The image has for each column the value of the key. -/
def HoldsKey (image : String → Option Value) (columns : List String) (key : String → Value) : Prop :=
  ∀ c ∈ columns, ∃ v, image c = some v ∧ KeyScalar v ∧ SameKeyValue (key c) v

/-- An update has every column in both images, with the values of the key before the change; a verified legacy
record has them after the change too. -/
def UpdateAgrees (record : Record) (columns : List String) (key : String → Value) : Prop :=
  HoldsKey (beforeValue record) columns key ∧ (∀ c ∈ columns, ∃ v, record.data.get? c = some v ∧ KeyScalar v) ∧
    (record.metadata.replayProvenance = dlqReplayProvenanceLegacyVerified → HoldsKey record.data.get? columns key)

/-- The row images agree with the key, as far as the operation has them. -/
def Identified (record : Record) (columns : List String) (key : String → Value) : Prop :=
  match record.operation with
  | .insert | .delete => HoldsKey record.data.get? columns key
  | .update => (record.metadata.formatContractID = formatContractCanalJSONV1 → fallback record = true) ∧
      UpdateAgrees record columns key
  | _ => True

/-- The values of the key, column by column. -/
def Keyed (values : Data) (columns : List String) (key : String → Value) : Prop :=
  ∀ c ∈ columns, values.get? c = some (key c) ∧ KeyScalar (key c)

theorem checkImage_eq_none_iff (hkey : Keyed values columns key) {image : Data}
    {absent empty conflict : RecordIdentityReason} {compare : Bool} :
    checkImage values image absent empty conflict compare columns = none ↔
      ∀ c ∈ columns, ∃ v, image.get? c = some v ∧ KeyScalar v ∧ (compare = true → SameKeyValue (key c) v) := by
  induction columns with
  | nil => simp [checkImage]
  | cons c columns ih =>
    obtain ⟨⟨hc, hscalar⟩, hkey⟩ := forall_mem_cons.mp hkey
    have ih := ih hkey
    rw [checkImage]
    cases himage : image.get? c with
    | none => simp [himage]
    | some v =>
      have hempty := @identityValueEmpty_eq_false_iff v
      cases he : identityValueEmpty v with
      | true => simp [himage, ← hempty, he]
      | false =>
        have hsame := identityValuesEqual_iff hscalar (hempty.mp he)
        cases compare with
        | false => simp [himage, ← hempty, he, ih]
        | true => cases heq : identityValuesEqual (key c) v <;> simp [himage, ← hempty, he, heq, hc, ← hsame, ih]

theorem get?_beforeImageOf (record : Record) (c : String) :
    (beforeImageOf record (fallback record)).get? c = beforeValue record c := by
  unfold beforeImageOf beforeValue
  split <;> simp [Data.get?_merge]

/-- One of the new key values is another than that of the key. -/
def KeyDiffers (record : Record) (columns : List String) (key : String → Value) : Prop :=
  ∃ c ∈ columns, ∃ v, record.data.get? c = some v ∧ ¬SameKeyValue (key c) v

theorem keyChanged_iff (hkey : Keyed values columns key)
    (hdata : ∀ c ∈ columns, ∃ v, record.data.get? c = some v ∧ KeyScalar v) :
    (columns.any fun c => !identityValuesEqual ((values.get? c).getD .null) ((record.data.get? c).getD .null)) = true ↔
      KeyDiffers record columns key := by
  simp only [any_eq_true, Bool.not_eq_true']
  refine exists_congr fun c => and_congr_right fun hc => ?_
  obtain ⟨hvalue, hscalar⟩ := hkey c hc
  obtain ⟨v, hv, hv'⟩ := hdata c hc
  have hsame := identityValuesEqual_iff hscalar hv'
  simp [hvalue, hv, ← hsame]

theorem not_keyDiffers_iff (hdata : ∀ c ∈ columns, ∃ v, record.data.get? c = some v ∧ KeyScalar v) :
    ¬KeyDiffers record columns key ↔ HoldsKey record.data.get? columns key := by
  simp only [KeyDiffers, not_exists, not_and, not_not]
  refine forall₂_congr fun c hc => ?_
  obtain ⟨v, hv, hv'⟩ := hdata c hc
  simp [hv, hv']

theorem identityOfUpdate_iff (hne : columns ≠ []) (hkey : Keyed values columns key) :
    ((identityOfUpdate record columns values).complete = true ↔
      (record.metadata.formatContractID = formatContractCanalJSONV1 → fallback record = true) ∧
        UpdateAgrees record columns key) ∧
    ((identityOfUpdate record columns values).complete = true →
      ((identityOfUpdate record columns values).keyChanged = true ↔ KeyDiffers record columns key)) := by
  have hbefore := @checkImage_eq_none_iff _ _ _ hkey (beforeImageOf record (fallback record))
    .beforeKeyMissing .beforeKeyEmpty .beforeKeyConflict true
  have hdata := @checkImage_eq_none_iff _ _ _ hkey record.data .dataKeyMissing .dataKeyEmpty .dataKeyConflict false
  simp only [true_imp_iff, get?_beforeImageOf] at hbefore
  simp only [Bool.false_eq_true, false_imp_iff, and_true] at hdata
  unfold identityOfUpdate UpdateAgrees
  rw [show HoldsKey (beforeValue record) columns key ↔ _ from hbefore.symm]
  simp only [← fallback.eq_1, ← hdata]
  by_cases hstate : record.metadata.formatContractID = formatContractCanalJSONV1 → fallback record = true
  · rw [if_neg (by simpa using hstate), and_iff_right hstate]
    by_cases hnil : record.before = [] ∧ fallback record = false
    · -- Without a before image the first column is missing in it.
      have hmissing : checkImage values (beforeImageOf record (fallback record)) .beforeKeyMissing .beforeKeyEmpty
          .beforeKeyConflict true columns ≠ none := by
        obtain ⟨c, cs, rfl⟩ := exists_cons_of_ne_nil hne
        simp [beforeImageOf, hnil, checkImage, Data.get?]
      rw [if_pos (by simpa using hnil)]
      simp [hmissing]
    rw [if_neg (by simpa using hnil)]
    cases checkImage values (beforeImageOf record (fallback record)) .beforeKeyMissing .beforeKeyEmpty
        .beforeKeyConflict true columns with
    | some p => simp
    | none =>
      cases hcheck : checkImage values record.data .dataKeyMissing .dataKeyEmpty .dataKeyConflict false columns with
      | some p => simp
      | none =>
        have hdata := hdata.mp hcheck
        rw [← not_keyDiffers_iff hdata, ← keyChanged_iff hkey hdata]
        by_cases hlegacy : record.metadata.replayProvenance = dlqReplayProvenanceLegacyVerified <;>
          cases columns.any fun c =>
            !identityValuesEqual ((values.get? c).getD .null) ((record.data.get? c).getD .null) <;>
          simp [hlegacy]
  · rw [if_pos (by simpa using hstate)]
    exact ⟨⟨by simp, fun h => absurd h.1 hstate⟩, by simp⟩

theorem identityOfImages_iff (hne : columns ≠ []) (hkey : Keyed values columns key) :
    ((identityOfImages record columns values).complete = true ↔ Identified record columns key) ∧
    ((identityOfImages record columns values).complete = true → record.operation = .update →
      ((identityOfImages record columns values).keyChanged = true ↔ KeyDiffers record columns key)) := by
  have hdata := @checkImage_eq_none_iff _ _ _ hkey record.data .dataKeyMissing .dataKeyEmpty .dataKeyConflict true
  simp only [true_imp_iff] at hdata
  unfold identityOfImages Identified
  cases hop : record.operation with
  | insert | delete =>
    unfold HoldsKey
    rw [← hdata]
    cases checkImage values record.data .dataKeyMissing .dataKeyEmpty .dataKeyConflict true columns <;> simp
  | update => simpa using identityOfUpdate_iff hne hkey
  | _ => simp

theorem identityOfImages_values : (identityOfImages record columns values).values = values := by
  unfold identityOfImages identityOfUpdate
  grind

/-! ## The identity -/

theorem ReadsKey.recordIdentity_eq (hdeclares : Declares record.metadata.primaryKeyColumns)
    (h : ReadsKey record.metadata.key record.metadata.primaryKeyColumns decoded) :
    ∃ values, recordIdentity record = identityOfImages record record.metadata.primaryKeyColumns values ∧
      ∀ c ∈ record.metadata.primaryKeyColumns, values.get? c = decoded.get? c := by
  have hlen := (length_eq_iff h.nodup hdeclares.nodup h.values).mpr h.names
  have htext : trimSpace record.metadata.key ≠ "" := by
    intro heq
    have hdec := h.decodes
    simp [heq, decodeIdentityKey, decode, value] at hdec
  have hnil : decoded ≠ [] := by
    rintro rfl
    exact hdeclares.ne_nil (length_eq_zero_iff.mp hlen.symm)
  have hvalues := (@keyValues_eq_ok_iff record.metadata.primaryKeyColumns _ decoded [] []).mpr ⟨rfl, h.values, rfl⟩
  generalize hfold : record.metadata.primaryKeyColumns.foldl _ [] = values at hvalues
  refine ⟨values, ?_, fun c hc => ?_⟩
  · rw [recordIdentity, normalizedPKColumns_eq_ok_iff.mpr ⟨rfl, hdeclares⟩]
    simp only [if_neg htext, h.decodes, if_neg hnil, hvalues, ne_eq, not_true_eq_false, if_false, hlen]
  · obtain ⟨v, hv, -⟩ := h.values c hc
    rw [← hfold, get?_foldl_set, if_pos hc, hv, Option.getD_some]

theorem readsKey_of_complete (h : (recordIdentity record).complete = true) :
    Declares record.metadata.primaryKeyColumns ∧
      ∃ decoded, ReadsKey record.metadata.key record.metadata.primaryKeyColumns decoded := by
  unfold recordIdentity at h
  cases hcols : normalizedPKColumns record.metadata.primaryKeyColumns with
  | error reason => simp [hcols] at h
  | ok columns =>
    obtain ⟨rfl, hdeclares⟩ := normalizedPKColumns_eq_ok_iff.mp hcols
    refine ⟨hdeclares, ?_⟩
    simp only [hcols] at h
    by_cases hkey : trimSpace record.metadata.key = ""
    · simp [hkey] at h
    cases hdec : decodeIdentityKey (trimSpace record.metadata.key) with
    | error reason => simp [hkey, hdec] at h
    | ok decoded =>
      by_cases hnil : decoded = []
      · simp [hkey, hdec, hnil] at h
      cases hval : keyValues decoded record.metadata.primaryKeyColumns [] [] with
      | error result => simp [hkey, hdec, hnil, hval, keyValues_error hval] at h
      | ok p =>
        obtain ⟨values, missing⟩ := p
        by_cases hmissing : missing = []
        · subst hmissing
          have hvalues := (keyValues_eq_ok_iff.mp hval).2.1
          obtain ⟨ms, -, rfl⟩ := decodeIdentityKey_eq_ok_iff.mp hdec
          by_cases hlen : (ms.foldl (fun d m => Data.set d m.1 (ofJson m.2)) []).length =
              record.metadata.primaryKeyColumns.length
          · exact ⟨_, hdec, (length_eq_iff (nodup_decoded ms [] nodup_nil) hdeclares.nodup hvalues).mp hlen, hvalues⟩
          · simp [hkey, hdec, hnil, hval, hlen] at h
        · simp [hkey, hdec, hnil, hval, hmissing] at h

theorem IsKey.complete_iff (hdeclares : Declares record.metadata.primaryKeyColumns)
    (hkey : IsKey record.metadata.key record.metadata.primaryKeyColumns key) :
    ((recordIdentity record).complete = true ↔ Identified record record.metadata.primaryKeyColumns key) ∧
    (∀ c ∈ record.metadata.primaryKeyColumns, (recordIdentity record).values.get? c = some (key c)) ∧
    ((recordIdentity record).complete = true → record.operation = .update →
      ((recordIdentity record).keyChanged = true ↔ KeyDiffers record record.metadata.primaryKeyColumns key)) := by
  obtain ⟨decoded, hread, hget⟩ := isKey_iff.mp hkey
  obtain ⟨values, heq, hvalues⟩ := hread.recordIdentity_eq hdeclares
  have hkeyed : Keyed values record.metadata.primaryKeyColumns key := by
    intro c hc
    obtain ⟨v, hv, hscalar⟩ := hread.values c hc
    obtain rfl : v = key c := Option.some.inj (hv.symm.trans (hget c hc))
    exact ⟨(hvalues c hc).trans hv, hscalar⟩
  obtain ⟨hcomplete, hchanged⟩ := @identityOfImages_iff _ values record key hdeclares.ne_nil hkeyed
  rw [heq, identityOfImages_values]
  exact ⟨hcomplete, fun c hc => (hkeyed c hc).1, hchanged⟩

/-- **The identity of a record is complete exactly if** distinct columns with names are declared and the record has a
key of them that its row images agree with. Its values are then those of the key, and an update changed the key
exactly if one of its new values differs. -/
theorem recordIdentity_complete_iff (record : Record) :
    ((recordIdentity record).complete = true ↔ Declares record.metadata.primaryKeyColumns ∧
      ∃ key, IsKey record.metadata.key record.metadata.primaryKeyColumns key ∧
        Identified record record.metadata.primaryKeyColumns key) ∧
    ((recordIdentity record).complete = true →
      ∀ key, IsKey record.metadata.key record.metadata.primaryKeyColumns key →
        (∀ c ∈ record.metadata.primaryKeyColumns, (recordIdentity record).values.get? c = some (key c)) ∧
        (record.operation = .update → ((recordIdentity record).keyChanged = true ↔
          KeyDiffers record record.metadata.primaryKeyColumns key))) := by
  refine ⟨⟨fun h => ?_, fun ⟨hdeclares, key, hkey, hid⟩ => (hkey.complete_iff hdeclares).1.mpr hid⟩,
    fun h key hkey => ?_⟩
  · obtain ⟨hdeclares, decoded, hread⟩ := readsKey_of_complete h
    have hkey : IsKey record.metadata.key record.metadata.primaryKeyColumns fun c => (decoded.get? c).getD .null := by
      refine isKey_iff.mpr ⟨decoded, hread, fun c hc => ?_⟩
      obtain ⟨v, hv, -⟩ := hread.values c hc
      rw [hv, Option.getD_some]
    exact ⟨hdeclares, _, hkey, (hkey.complete_iff hdeclares).1.mp h⟩
  · obtain ⟨-, hvalues, hchanged⟩ := hkey.complete_iff (readsKey_of_complete h).1
    exact ⟨hvalues, hchanged h⟩

/-- An update under the Canal contract that does not say which before image it has, and a change of the schema. -/
def stateless : Record :=
  { operation := .update, before := [("id", .int .int64 1)], data := [("id", .int .int64 1)]
    metadata := { key := "\x7b\"id\":1\x7d", primaryKeyColumns := ["id"], formatContractID := formatContractCanalJSONV1 } }

def schemaChange : Record :=
  { operation := .ddl, metadata := { key := "\x7b\"id\":1\x7d", primaryKeyColumns := ["id"] } }

/-- The before image has the key and the update is refused; a schema change has no row and is complete. -/
theorem recordIdentity_without_state :
    Declares ["id"] ∧ IsKey stateless.metadata.key ["id"] (fun _ => .float "1") ∧
      UpdateAgrees stateless ["id"] (fun _ => .float "1") ∧ (recordIdentity stateless).complete = false ∧
      schemaChange.data = [] ∧ schemaChange.before = [] ∧ (recordIdentity schemaChange).complete = true := by
  have hsame : SameKeyValue (.float "1") (.int .int64 1) := .numeral rfl rfl (by decide)
  have hid : HoldsKey stateless.data.get? ["id"] fun _ => .float "1" := by
    simp [HoldsKey, stateless, Data.get?, KeyScalar, hsame]
  have hbefore : beforeValue stateless = stateless.data.get? := by
    funext c
    simp [beforeValue, fallback, stateless, canalBeforeStateAllowsDataFallback]
  have hread : ReadsKey stateless.metadata.key ["id"] [("id", .float "1")] :=
    ⟨by decide +kernel, by simp [Data.get?], by simp [Data.get?, KeyScalar]⟩
  refine ⟨⟨by decide, by decide, List.forall_mem_singleton.mpr ⟨'i', by decide, rfl⟩⟩,
    isKey_iff.mpr ⟨_, hread, by simp [Data.get?]⟩,
    ⟨hbefore ▸ hid, fun c hc => (hid c hc).imp fun v hv => ⟨hv.1, hv.2.1⟩, fun h => absurd h (by decide)⟩,
    by decide +kernel⟩

end OpenEtl
