import OpenEtl.Source.PgOutput

/-!
# Frames that cannot be parsed (`source/postgres_cdc.go:650-1083`)

`behind` is what pgoutput says of the messages of a frame: how long each is. A handler that cannot read its
message returns an empty rest, an unknown message is a line of the log (:688), and the next frame is read. BEGIN is
taken to have 25 bytes and has 20, the count of a TRUNCATE is read one byte too far, a row of a relation that was not
announced gets names made up from numbers, a tuple that ends at the start of a column counts as complete, and one
whose columns are all unchanged is dropped. TRUNCATE alone has an error. A RELATION message that ends within the number
or the name of its columns is indexed past its end (:816, 837).
-/

namespace OpenEtl.Source.Pg

open Bytes (ofBigEndian)
open List

/-! ## Complete messages -/

/-- What is behind a text that ends with NUL. -/
def textBehind (data : List UInt8) : Option (List UInt8) :=
  match data.dropWhile (· ≠ 0) with
  | [] => none
  | _ :: rest => some rest

/-- What is behind a number of bytes. -/
def bytesBehind (n : Nat) (data : List UInt8) : Option (List UInt8) := if data.length < n then none else some (data.drop n)

/-- What is behind the columns of a tuple; the length of a value is signed. -/
def columnsBehind : Nat → List UInt8 → Option (List UInt8)
  | 0, data => some data
  | _ + 1, [] => none
  | n + 1, kind :: data =>
    if kind = 110 ∨ kind = 117 then columnsBehind n data
    else if kind = 116 ∧ ofBigEndian (data.take 4) < 2 ^ 31 ∧ 4 + ofBigEndian (data.take 4) ≤ data.length then
      columnsBehind n (data.drop (4 + ofBigEndian (data.take 4)))
    else none

/-- A tuple is the number of its columns and the columns. -/
def tupleBehind (data : List UInt8) : Option (List UInt8) :=
  if data.length < 2 then none else columnsBehind (ofBigEndian (data.take 2)) (data.drop 2)

/-- What is behind the tuples of a row. -/
def rowBehind (kind : UInt8) : List UInt8 → Option (List UInt8)
  | [] => none
  | tupleType :: data =>
    if tupleType = 78 ∧ (kind = 73 ∨ kind = 85) ∨ (tupleType = 75 ∨ tupleType = 79) ∧ kind = 68 then tupleBehind data
    else if (tupleType = 75 ∨ tupleType = 79) ∧ kind = 85 then
      match tupleBehind data with
      | some (78 :: data) => tupleBehind data
      | _ => none
    else none

def attributesBehind : Nat → List UInt8 → Option (List UInt8)
  | 0, data => some data
  | n + 1, data => do attributesBehind n (← bytesBehind 8 (← textBehind (← bytesBehind 1 data)))

def relationBehind (data : List UInt8) : Option (List UInt8) := do
  let data ← textBehind (← textBehind (← bytesBehind 4 data))
  attributesBehind (ofBigEndian ((data.drop 1).take 2)) (← bytesBehind 3 data)

/-- What is behind a message of the kind; none if it is not complete, or of no kind that pgoutput has. -/
def behind (kind : UInt8) (data : List UInt8) : Option (List UInt8) :=
  if kind = 66 then bytesBehind 20 data
  else if kind = 67 then bytesBehind 25 data
  else if kind = 82 then relationBehind data
  else if kind = 79 then do textBehind (← bytesBehind 8 data)
  else if kind = 89 then do textBehind (← textBehind (← bytesBehind 4 data))
  else if kind = 77 then do
    let data ← textBehind (← bytesBehind 9 data)
    bytesBehind (ofBigEndian (data.take 4)) (← bytesBehind 4 data)
  else if kind = 73 ∨ kind = 85 ∨ kind = 68 then do rowBehind kind (← bytesBehind 4 data)
  else if kind = 84 then bytesBehind (5 + 4 * ofBigEndian (data.take 4)) data
  else none

def IsRow (kind : UInt8) : Prop := kind = 73 ∨ kind = 85 ∨ kind = 68

instance (kind : UInt8) : Decidable (IsRow kind) := inferInstanceAs (Decidable (kind = 73 ∨ kind = 85 ∨ kind = 68))

/-- The relation of a row has been announced. -/
def Announced (s : Stream) (kind : UInt8) (data : List UInt8) : Prop :=
  IsRow kind → s.catalog.relations.lookup (ofBigEndian (data.take 4)) ≠ none

/-! ## Robust parsing -/

/-- The handler has an error for the message. -/
def Parsed.Reports : Parsed → Prop
  | .next _ outs _ => ∃ n, .truncate n ∈ outs
  | .abort | .panic => False

/-- The handler goes on behind the message: the record of a row is sent, a relation is kept, and a TRUNCATE is one that
is to be skipped. -/
def Parsed.Takes (src : PostgresCDCSource) (s : Stream) (kind : UInt8) (data rest : List UInt8) : Parsed → Prop
  | .next s' outs rest' =>
    rest' = rest ∧ (IsRow kind → ∃ r, outs = [.record r]) ∧ (kind = 84 → src.onTruncate = .skip) ∧
      (kind = 82 → ∃ name cols, s'.catalog = s.catalog.setRelation (ofBigEndian (data.take 4)) name cols)
  | .abort | .panic => False

section

variable (D : Decoder) (src : PostgresCDCSource) (lsn : String)

/-- A message is complete, of a known relation, and taken; or it is reported. -/
def Settled (s : Stream) (kind : UInt8) (data : List UInt8) : Prop :=
  (∃ rest, behind kind data = some rest ∧ Announced s kind data ∧
    (handleMessage D src s lsn kind data).Takes src s kind data rest) ∨ (handleMessage D src s lsn kind data).Reports

/-- The messages of a frame the loop comes to, and the stream it has then. -/
inductive Meets : Stream → List UInt8 → Stream → UInt8 → List UInt8 → Prop
  | here {s kind data} : Meets s (kind :: data) s kind data
  | later {s kind data s' outs rest t k body} : handleMessage D src s lsn kind data = .next s' outs rest →
      Meets s' rest t k body → Meets s (kind :: data) t k body

/-- The loop over a frame ends without a panic, every handler leaves an end of its input, and a message that is not
taken whole is reported. -/
structure Robust (s : Stream) (data : List UInt8) : Prop where
  ends : (handleWALData D src s data lsn).cut = false
  no_panic : (handleWALData D src s data lsn).panicked = false
  suffix : ∀ t kind body, Meets D src lsn { s with lsn } data t kind body →
    (handleMessage D src t lsn kind body).Within body
  settled : ∀ t kind body, Meets D src lsn { s with lsn } data t kind body → Settled D src lsn t kind body

end

/-! ## When a message is settled -/

/-- The tuple has columns, none of which has a value. -/
def AllUnchanged (data : List UInt8) : Prop :=
  0 < ofBigEndian (data.take 2) ∧
    (data.drop 2).take (ofBigEndian (data.take 2)) = replicate (ofBigEndian (data.take 2)) 117

instance (data : List UInt8) : Decidable (AllUnchanged data) :=
  inferInstanceAs (Decidable (_ ∧ _))

/-- The tuples that are read have values. The old key of an UPDATE is not read. -/
def RowHasValues (kind : UInt8) : List UInt8 → Prop
  | [] => False
  | tupleType :: data =>
    (kind = 85 ∧ tupleType = 75 ∨ ¬AllUnchanged data) ∧
      (kind = 85 → tupleType ≠ 78 → ∀ next, tupleBehind data = some (78 :: next) → ¬AllUnchanged next)

/-- The count of a TRUNCATE is the first four bytes, and the parser's the four behind the first. An error is reported if
the message has five bytes for each relation of the parser's count; a TRUNCATE that is skipped is left at its end if the
counts fit, or nothing is behind it. -/
def TruncateRead (src : PostgresCDCSource) (data : List UInt8) : Prop :=
  match src.onTruncate with
  | .error => 5 + ofBigEndian ((data.drop 1).take 4) * 5 ≤ data.length
  | .skip =>
    5 + 4 * ofBigEndian (data.take 4) ≤ data.length ∧
      (ofBigEndian ((data.drop 1).take 4) * 5 = 4 * ofBigEndian (data.take 4) ∨
        data.length = 5 + 4 * ofBigEndian (data.take 4) ∧
          4 * ofBigEndian (data.take 4) ≤ ofBigEndian ((data.drop 1).take 4) * 5)

/-- BEGIN ends the frame; any other message is complete, a RELATION has a name, and a row is of a relation that was
announced and has values. -/
def Clean (src : PostgresCDCSource) (s : Stream) (kind : UInt8) (data : List UInt8) : Prop :=
  if kind = 66 then data.length = 20
  else if kind = 84 then TruncateRead src data
  else behind kind data ≠ none ∧ (kind = 82 → 10 ≤ data.length) ∧ Announced s kind data ∧
    (IsRow kind → RowHasValues kind (data.drop 4))

section

variable {D : Decoder} {src : PostgresCDCSource} {lsn : String} {s : Stream} {data rest : List UInt8}

theorem readNullString_of_behind (h : textBehind data = some rest) :
    readNullString data = (data.takeWhile (· ≠ 0), some rest) := by
  cases data with
  | nil => simp [textBehind] at h
  | cons b bs =>
    rw [← h]
    rfl

theorem bytesBehind_eq_some {n : Nat} : bytesBehind n data = some rest ↔ n ≤ data.length ∧ data.drop n = rest := by
  unfold bytesBehind
  split
  · simp
    omega
  · simp
    omega

/-! ### Rows -/

variable (cols : List PgColumnInfo)

theorem readColumns_of_behind {n : Nat} (i : Nat) (acc : Data) (h : columnsBehind n data = some rest) :
    ∃ dataMap, readColumns D cols i n data acc = some (dataMap, rest) ∧
      (dataMap = [] ↔ acc = [] ∧ data.take n = replicate n 117) := by
  induction n generalizing i data acc with
  | zero =>
    obtain rfl := Option.some.inj h
    exact ⟨acc, rfl, by simp⟩
  | succ n ih =>
    cases data with
    | nil => simp [columnsBehind] at h
    | cons kind data =>
      rw [columnsBehind] at h
      simp only [readColumns, take_succ_cons, replicate_succ, cons.injEq]
      split at h
      · rename_i hkind
        rcases hkind with rfl | rfl
        · obtain ⟨dataMap, hread, hnil⟩ := ih _ _ h
          exact ⟨dataMap, by rw [if_pos rfl]; exact hread, by simp [hnil, Data.set]⟩
        · obtain ⟨dataMap, hread, hnil⟩ := ih _ _ h
          exact ⟨dataMap, by rw [if_neg (by decide), if_pos rfl]; exact hread, by simp [hnil]⟩
      · split at h
        · rename_i hkind
          obtain ⟨rfl, hsigned, hlen⟩ := hkind
          obtain ⟨dataMap, hread, hnil⟩ := ih _ _ h
          refine ⟨dataMap, ?_, ?_⟩
          · rw [if_neg (by decide), if_neg (by decide), if_pos rfl, if_neg (by omega), if_neg (by omega)]
            exact hread
          · simp [hnil, Data.set]
        · cases h

/-- A tuple that is complete is read, unless its values are wanted and there are none. -/
theorem readPGTupleValues_of_behind (h : tupleBehind data = some rest) (capture : Bool) :
    ∃ dataMap, readPGTupleValues D cols (ofBigEndian (data.take 2)) (data.drop 2) capture =
      if capture = true ∧ AllUnchanged data then none else some (dataMap, rest) := by
  unfold tupleBehind at h
  split at h
  · cases h
  · obtain ⟨dataMap, hread, hnil⟩ := readColumns_of_behind (D := D) cols 0 [] h
    refine ⟨if capture then dataMap else [], ?_⟩
    cases capture
    · simp [readPGTupleValues, hread]
    · simp [readPGTupleValues, hread, hnil, AllUnchanged]

/-- What is made of a row whose tuples are complete. -/
structure RowRead (D : Decoder) (src : PostgresCDCSource) (s : Stream) (lsn : String) (kind : UInt8)
    (data rest : List UInt8) : Prop where
  sent : RowHasValues kind (data.drop 4) → ∃ r, handleMessage D src s lsn kind data = .next s [.record r] rest
  dropped : ¬RowHasValues kind (data.drop 4) → handleMessage D src s lsn kind data = .next s [] []

theorem drop_of_cons {t : UInt8} {tuple : List UInt8} (h : data.drop 4 = t :: tuple) (n : Nat) :
    data.drop (5 + n) = tuple.drop n := by
  rw [show 5 + n = 4 + (n + 1) by omega, ← drop_drop, h, drop_succ_cons]

theorem two_le_of_tupleBehind (h : tupleBehind data = some rest) : 2 ≤ data.length := by
  by_contra hlt
  rw [tupleBehind, if_pos (by omega)] at h
  cases h

theorem length_of_cons {t : UInt8} {tuple : List UInt8} (h : data.drop 4 = t :: tuple)
    (hrest : tupleBehind tuple = some rest) : 7 ≤ data.length := by
  have hlen := congrArg length h
  have htwo := two_le_of_tupleBehind hrest
  simp only [length_drop, length_cons] at hlen
  omega

/-- INSERT and DELETE read one tuple. -/
theorem rowRead_of_one {kind t : UInt8} {tuple : List UInt8} (hdata : data.drop 4 = t :: tuple)
    (htuple : tupleBehind tuple = some rest) (hkind : kind = 73 ∧ t = 78 ∨ kind = 68 ∧ (t = 75 ∨ t = 79)) :
    RowRead D src s lsn kind data rest := by
  have hlen := length_of_cons hdata htuple
  have h5 : data.drop 5 = tuple := drop_of_cons hdata 0
  have h7 : data.drop 7 = tuple.drop 2 := drop_of_cons hdata 2
  obtain ⟨dataMap, hread⟩ := readPGTupleValues_of_behind (D := D)
    (s.catalog.columns (ofBigEndian (data.take 4))) htuple true
  have hvalues : RowHasValues kind (data.drop 4) ↔ ¬AllUnchanged tuple := by
    rw [hdata, RowHasValues]
    rcases hkind with ⟨rfl, -⟩ | ⟨rfl, -⟩ <;> simp
  have hhead : (data.drop 4).head? = some t := by rw [hdata, head?_cons]
  have hinsert : parseInsertMsg D src s lsn data = _ := if_neg (by omega)
  have hdelete : parseDeleteMsg D src s lsn data = _ := if_neg (by omega)
  simp only [hhead, h5, h7] at hinsert hdelete
  rcases hkind with ⟨rfl, rfl⟩ | ⟨rfl, ht⟩
  · rw [if_neg (by simp), hread] at hinsert
    refine ⟨fun h => ?_, fun h => ?_⟩ <;> rw [show handleMessage D src s lsn 73 data = _ from hinsert]
    · rw [if_neg fun hall => hvalues.mp h hall.2]
      exact ⟨_, rfl⟩
    · rw [if_pos ⟨rfl, not_not.mp (mt hvalues.mpr h)⟩]
  · rw [if_neg (by rcases ht with rfl | rfl <;> simp), hread] at hdelete
    refine ⟨fun h => ?_, fun h => ?_⟩ <;> rw [show handleMessage D src s lsn 68 data = _ from hdelete]
    · rw [if_neg fun hall => hvalues.mp h hall.2]
      exact ⟨_, rfl⟩
    · rw [if_pos ⟨rfl, not_not.mp (mt hvalues.mpr h)⟩]

/-- UPDATE reads the new tuple, and before it an old one, of which it keeps the values if it is a whole row. -/
theorem rowRead_of_update {t : UInt8} {tuple next : List UInt8} (hdata : data.drop 4 = t :: tuple)
    (ht : t = 78 ∧ next = tuple ∨ (t = 75 ∨ t = 79) ∧ tupleBehind tuple = some (78 :: next))
    (hnext : tupleBehind next = some rest) : RowRead D src s lsn 85 data rest := by
  have hlen : 7 ≤ data.length := by
    rcases ht with ⟨-, rfl⟩ | ⟨-, htuple⟩
    · exact length_of_cons hdata hnext
    · exact length_of_cons hdata htuple
  have htwo : ¬next.length < 2 := (two_le_of_tupleBehind hnext).not_gt
  obtain ⟨dataMap, hread⟩ := readPGTupleValues_of_behind (D := D)
    (s.catalog.columns (ofBigEndian (data.take 4))) hnext true
  have hold : ∃ beforeMap, oldTuple D (s.catalog.columns (ofBigEndian (data.take 4))) t tuple =
      if t = 79 ∧ AllUnchanged tuple then none else some (beforeMap, 78 :: next) := by
    rcases ht with ⟨rfl, rfl⟩ | ⟨ht, htuple⟩
    · exact ⟨[], by simp [oldTuple]⟩
    · obtain ⟨beforeMap, hbefore⟩ := readPGTupleValues_of_behind (D := D)
        (s.catalog.columns (ofBigEndian (data.take 4))) htuple (t = 79)
      refine ⟨beforeMap, ?_⟩
      rw [oldTuple, if_neg (by rcases ht with rfl | rfl <;> decide),
        if_neg (two_le_of_tupleBehind htuple).not_gt, hbefore]
      simp
  obtain ⟨beforeMap, hold⟩ := hold
  have hvalues : RowHasValues 85 (data.drop 4) ↔ ¬(t = 79 ∧ AllUnchanged tuple) ∧ ¬AllUnchanged next := by
    rw [hdata, RowHasValues]
    rcases ht with ⟨rfl, rfl⟩ | ⟨rfl | rfl, htuple⟩ <;> simp [*]
  have htype : ¬(t ≠ 75 ∧ t ≠ 79 ∧ t ≠ 78) := by
    rcases ht with ⟨rfl, -⟩ | ⟨rfl | rfl, -⟩ <;> simp
  have heq : handleMessage D src s lsn 85 data = parseUpdateMsg D src s lsn data := rfl
  rw [parseUpdateMsg, if_neg (by omega), hdata] at heq
  simp only [if_neg htype, hold] at heq
  refine ⟨fun h => ?_, fun h => ?_⟩ <;> rw [heq]
  · obtain ⟨hfirst, hsecond⟩ := hvalues.mp h
    simp only [if_neg hfirst, htwo, ne_eq, not_true_eq_false, or_self, if_false, hread, hsecond, and_false]
    exact ⟨_, rfl⟩
  · rw [hvalues, not_and_or, not_not, not_not] at h
    by_cases hfirst : t = 79 ∧ AllUnchanged tuple
    · rw [if_pos hfirst]
    · simp only [if_neg hfirst, htwo, ne_eq, not_true_eq_false, or_self, if_false, hread,
        h.resolve_left hfirst, and_self, if_true]

theorem rowRead_of_behind {kind : UInt8} (h : rowBehind kind (data.drop 4) = some rest) (hkind : IsRow kind) :
    RowRead D src s lsn kind data rest := by
  cases hdata : data.drop 4 with
  | nil => simp [hdata, rowBehind] at h
  | cons t tuple =>
    rw [hdata, rowBehind] at h
    split at h
    · rename_i hone
      rcases hone with ⟨rfl, rfl | rfl⟩ | ⟨ht, rfl⟩
      · exact rowRead_of_one hdata h (.inl ⟨rfl, rfl⟩)
      · exact rowRead_of_update hdata (.inl ⟨rfl, rfl⟩) h
      · exact rowRead_of_one hdata h (.inr ⟨rfl, ht⟩)
    · split at h
      · rename_i htwo
        obtain ⟨ht, rfl⟩ := htwo
        split at h
        · rename_i htuple
          exact rowRead_of_update hdata (.inr ⟨ht, htuple⟩) h
        · cases h
      · cases h

theorem RowParsed.not_reports {r : Parsed} (h : RowParsed src s lsn data r) : ¬r.Reports := by
  cases h <;> simp [Parsed.Reports]

variable {kind : UInt8}

theorem handleMessage_row (hkind : IsRow kind) : RowParsed src s lsn data (handleMessage D src s lsn kind data) := by
  rcases hkind with rfl | rfl | rfl
  · exact parseInsertMsg_row lsn
  · exact parseUpdateMsg_row lsn
  · exact parseDeleteMsg_row lsn

theorem behind_row (hkind : IsRow kind) :
    behind kind data = some rest ↔ 4 ≤ data.length ∧ rowBehind kind (data.drop 4) = some rest := by
  have hbehind : behind kind data = (bytesBehind 4 data).bind (rowBehind kind) := by
    rcases hkind with rfl | rfl | rfl <;> rfl
  rw [hbehind, Option.bind_eq_some_iff]
  simp [bytesBehind_eq_some, and_assoc]

theorem settled_row (hkind : IsRow kind) : Settled D src lsn s kind data ↔ Clean src s kind data := by
  have hclean : Clean src s kind data ↔
      behind kind data ≠ none ∧ Announced s kind data ∧ RowHasValues kind (data.drop 4) := by
    rcases hkind with rfl | rfl | rfl <;> simp [Clean, IsRow]
  rw [hclean, Option.ne_none_iff_exists']
  constructor
  · rintro (⟨rest, hrest, hknown, htakes⟩ | hreports)
    · refine ⟨⟨rest, hrest⟩, hknown, by_contra fun hno => ?_⟩
      rw [(rowRead_of_behind ((behind_row hkind).mp hrest).2 hkind).dropped hno] at htakes
      obtain ⟨r, hr⟩ := htakes.2.1 hkind
      cases hr
    · exact absurd hreports (handleMessage_row hkind).not_reports
  · rintro ⟨⟨rest, hrest⟩, hknown, hvalues⟩
    refine .inl ⟨rest, hrest, hknown, ?_⟩
    have hread : RowRead D src s lsn kind data rest := rowRead_of_behind ((behind_row hkind).mp hrest).2 hkind
    obtain ⟨r, hr⟩ := hread.sent hvalues
    rw [hr]
    refine ⟨rfl, fun _ => ⟨r, rfl⟩, ?_, ?_⟩ <;> rcases hkind with rfl | rfl | rfl <;> intro h <;> cases h

/-! ### Relations -/

theorem relationColumns_of_behind {n : Nat} (h : attributesBehind n data = some rest) :
    (relationColumns n data).2 = some rest := by
  induction n generalizing data with
  | zero => exact h
  | succ n ih =>
    simp only [attributesBehind, Option.bind_eq_bind, Option.bind_eq_some_iff, bytesBehind_eq_some] at h
    obtain ⟨_, ⟨-, rfl⟩, oid, hname, _, ⟨hoid, rfl⟩, hrest⟩ := h
    have hlen : 1 < data.length := by
      by_contra hle
      rw [drop_eq_nil_of_le (by omega)] at hname
      cases hname
    rw [relationColumns, if_neg (by omega), readNullString_of_behind hname]
    simp only
    rw [if_neg (by omega)]
    exact ih hrest

/-- A complete RELATION. The shortest one, without names and columns, is too short for the parser. -/
def relationWhole (data : List UInt8) : Bool := decide (10 ≤ data.length) && (relationBehind data).isSome

/-- The table of a complete RELATION is kept under the second of its names. -/
theorem parseRelationMsg_of_behind (hlen : 10 ≤ data.length) (h : relationBehind data = some rest) :
    ∃ ns name cols, textBehind (data.drop 4) = some ns ∧ (readNullString ns).1 = name ∧
      parseRelationMsg s data = .next
        { s with catalog := s.catalog.setRelation (ofBigEndian (data.take 4)) (Bytes.text name) cols } [] rest := by
  simp only [relationBehind, Option.bind_eq_bind, Option.bind_eq_some_iff, bytesBehind_eq_some] at h
  obtain ⟨_, ⟨-, rfl⟩, ns, hns, attrs, hname, _, ⟨hattrs, rfl⟩, hrest⟩ := h
  refine ⟨ns, _, (relationColumns (ofBigEndian ((attrs.drop 1).take 2)) (attrs.drop 3)).1, hns, rfl, ?_⟩
  rw [parseRelationMsg, if_neg (by omega), readNullString_of_behind hns]
  dsimp only
  rw [readNullString_of_behind hname]
  dsimp only
  rw [if_neg (by omega), if_neg (by omega)]
  have hcols := relationColumns_of_behind hrest
  split
  · rename_i heq
    rw [heq] at hcols
    cases hcols
  · rename_i heq
    rw [heq] at hcols ⊢
    obtain rfl := Option.some.inj hcols
    rfl

theorem parseRelationMsg_not_reports : ¬(parseRelationMsg s data).Reports := by
  unfold parseRelationMsg
  grind [Parsed.Reports]

theorem settled_relation : Settled D src lsn s 82 data ↔ Clean src s 82 data := by
  have hmsg : handleMessage D src s lsn 82 data = parseRelationMsg s data := rfl
  have hbehind : behind 82 data = relationBehind data := rfl
  simp only [Settled, Clean, hmsg, hbehind, Announced, IsRow]
  constructor
  · rintro (⟨rest, hrest, -, htakes⟩ | hreports)
    · refine ⟨by simp [hrest], fun _ => by_contra fun hlt => ?_, by simp, by simp⟩
      rw [parseRelationMsg, if_pos (by omega)] at htakes
      obtain ⟨name, cols, hcat⟩ := htakes.2.2.2 rfl
      exact (cons_ne_self _ _).symm (congrArg PgCatalog.relations hcat)
    · exact absurd hreports parseRelationMsg_not_reports
  · rintro ⟨hne, hlen, -, -⟩
    obtain ⟨rest, hrest⟩ := Option.ne_none_iff_exists'.mp hne
    obtain ⟨ns, name, cols, -, -, hparse⟩ := parseRelationMsg_of_behind (s := s) (hlen trivial) hrest
    refine .inl ⟨rest, hrest, by simp, ?_⟩
    rw [hparse]
    exact ⟨rfl, by simp [IsRow], by simp, fun _ => ⟨_, _, rfl⟩⟩

/-! ### The other messages -/

/-- A message that is skipped is taken if it is complete and skipped to its end. -/
theorem settled_skip (hkind : kind ∈ [66, 67, 79, 89, 77]) {s' : Stream} {skipped : List UInt8}
    (hmsg : handleMessage D src s lsn kind data = .next s' [] skipped) :
    Settled D src lsn s kind data ↔ behind kind data = some skipped := by
  simp only [mem_cons, not_mem_nil, or_false] at hkind
  have hrow : ¬IsRow kind := by rcases hkind with rfl | rfl | rfl | rfl | rfl <;> decide
  have hother : kind ≠ 84 ∧ kind ≠ 82 := by rcases hkind with rfl | rfl | rfl | rfl | rfl <;> decide
  simp [Settled, hmsg, Parsed.Takes, Parsed.Reports, Announced, hrow, hother]

theorem clean_skip (hkind : kind ∈ [67, 79, 89, 77]) : Clean src s kind data ↔ behind kind data ≠ none := by
  simp only [mem_cons, not_mem_nil, or_false] at hkind
  have hrow : ¬IsRow kind := by rcases hkind with rfl | rfl | rfl | rfl <;> decide
  have hother : kind ≠ 66 ∧ kind ≠ 84 ∧ kind ≠ 82 := by rcases hkind with rfl | rfl | rfl | rfl <;> decide
  simp [Clean, Announced, hrow, hother]

theorem some_iff_ne_none {α : Type} {o : Option α} {a : α} (h : ∀ b, o = some b → a = b) : o = some a ↔ o ≠ none := by
  cases o with
  | none => simp
  | some b => simp [h b rfl]

theorem settled_begin : Settled D src lsn s 66 data ↔ Clean src s 66 data := by
  rw [settled_skip (by simp) (show handleMessage D src s lsn 66 data = .next s [] (skipTxBlock data) from rfl)]
  rw [show behind 66 data = bytesBehind 20 data from rfl, bytesBehind_eq_some, skipTxBlock, Clean, if_pos rfl]
  constructor
  · rintro ⟨hlen, heq⟩
    have := congrArg length heq
    split at this <;> simp at this <;> omega
  · intro hlen
    rw [if_pos (by omega)]
    exact ⟨by omega, drop_eq_nil_of_le (by omega)⟩

theorem settled_commit : Settled D src lsn s 67 data ↔ Clean src s 67 data := by
  rw [settled_skip (by simp) (show handleMessage D src s lsn 67 data = handleCommitMsg s lsn data from rfl),
    clean_skip (by simp)]
  refine some_iff_ne_none fun rest hrest => ?_
  rw [show behind 67 data = bytesBehind 25 data from rfl, bytesBehind_eq_some] at hrest
  rw [skipTxBlock, if_neg (by omega), hrest.2]

theorem settled_origin : Settled D src lsn s 79 data ↔ Clean src s 79 data := by
  rw [settled_skip (by simp) (show handleMessage D src s lsn 79 data = .next s [] (skipOriginMsg data) from rfl),
    clean_skip (by simp)]
  refine some_iff_ne_none fun rest hrest => ?_
  rw [show behind 79 data = (bytesBehind 8 data).bind textBehind from rfl, Option.bind_eq_some_iff] at hrest
  simp only [bytesBehind_eq_some] at hrest
  obtain ⟨_, ⟨hlen, rfl⟩, htext⟩ := hrest
  rw [skipOriginMsg, if_neg (by omega), readNullString_of_behind htext]
  rfl

theorem settled_type : Settled D src lsn s 89 data ↔ Clean src s 89 data := by
  rw [settled_skip (by simp) (show handleMessage D src s lsn 89 data = .next s [] (skipTypeMsg data) from rfl),
    clean_skip (by simp)]
  refine some_iff_ne_none fun rest hrest => ?_
  rw [show behind 89 data = (bytesBehind 4 data).bind fun d => (textBehind d).bind textBehind from rfl] at hrest
  simp only [Option.bind_eq_some_iff, bytesBehind_eq_some] at hrest
  obtain ⟨_, ⟨hlen, rfl⟩, name, hns, hname⟩ := hrest
  rw [skipTypeMsg, if_neg (by omega), readNullString_of_behind hns]
  dsimp only
  rw [readNullString_of_behind hname]
  rfl

theorem settled_message : Settled D src lsn s 77 data ↔ Clean src s 77 data := by
  rw [settled_skip (by simp) (show handleMessage D src s lsn 77 data = .next s [] (skipLogicalMessageMsg data) from rfl),
    clean_skip (by simp)]
  refine some_iff_ne_none fun rest hrest => ?_
  rw [show behind 77 data = (bytesBehind 9 data).bind fun d => (textBehind d).bind fun d =>
    (bytesBehind 4 d).bind (bytesBehind (ofBigEndian (d.take 4))) from rfl] at hrest
  simp only [Option.bind_eq_some_iff, bytesBehind_eq_some] at hrest
  obtain ⟨_, ⟨hlen, rfl⟩, content, htext, _, ⟨hfour, rfl⟩, hcontent, rfl⟩ := hrest
  rw [length_drop] at hcontent
  rw [skipLogicalMessageMsg, if_neg (by omega), readNullString_of_behind htext]
  dsimp only
  rw [if_neg (by omega), if_neg (by omega), drop_drop]

theorem settled_truncate : Settled D src lsn s 84 data ↔ Clean src s 84 data := by
  have hmsg : handleMessage D src s lsn 84 data = handleTruncateMsg src s data := rfl
  have hbehind : behind 84 data = bytesBehind (5 + 4 * ofBigEndian (data.take 4)) data := rfl
  have hclean : Clean src s 84 data ↔ TruncateRead src data := Iff.rfl
  rw [Settled, hmsg, hbehind, hclean, handleTruncateMsg, TruncateRead]
  simp only [bytesBehind_eq_some]
  generalize ofBigEndian (data.take 4) = n
  generalize ofBigEndian ((data.drop 1).take 4) = nRels
  have hrow : ¬IsRow 84 := by decide
  cases hpolicy : src.onTruncate with
  | error =>
    by_cases hskip : 5 + nRels * 5 ≤ data.length
    · simp [if_neg (show ¬data.length < 5 by omega), if_neg (show ¬data.length < 5 + nRels * 5 by omega), hskip,
        Parsed.Reports]
    · split
      · simp [Parsed.Takes, Parsed.Reports, hskip, hpolicy]
      · simp [if_pos (show data.length < 5 + nRels * 5 by omega), Parsed.Takes, Parsed.Reports, hskip, hpolicy]
  | skip =>
    have hsettled (left : List UInt8) :
        ((∃ rest, (5 + 4 * n ≤ data.length ∧ data.drop (5 + 4 * n) = rest) ∧ Announced s 84 data ∧
            (Parsed.next s [] left).Takes src s 84 data rest) ∨ (Parsed.next s [] left).Reports) ↔
          5 + 4 * n ≤ data.length ∧ left = data.drop (5 + 4 * n) := by
      simp [Parsed.Takes, Parsed.Reports, Announced, hrow, hpolicy]
    by_cases hskip : data.length < 5 + nRels * 5
    · have hdropped : (if data.length < 5 then Parsed.next s [] []
          else if data.length < 5 + nRels * 5 then .next s [] []
          else .next s [] (data.drop (5 + nRels * 5))) = .next s [] [] := by
        rw [if_pos hskip, ite_self]
      rw [hdropped, hsettled, eq_comm (a := []), drop_eq_nil_iff]
      omega
    · rw [if_neg (by omega), if_neg hskip, hsettled]
      refine and_congr_right fun hlen => ⟨fun heq => ?_, fun hcount => by rw [show nRels * 5 = 4 * n by omega]⟩
      have hlength := congrArg length heq
      rw [length_drop, length_drop] at hlength
      omega

theorem settled_unknown (hkind : kind ∉ [66, 67, 82, 79, 89, 77, 73, 85, 68, 84]) :
    Settled D src lsn s kind data ↔ Clean src s kind data := by
  simp only [mem_cons, not_mem_nil, or_false, not_or] at hkind
  have hnone : behind kind data = none := by simp [behind, hkind]
  have habort : handleMessage D src s lsn kind data = .abort := by simp [handleMessage, hkind]
  simp [Settled, Clean, hnone, habort, hkind, Parsed.Reports]

/-- A message is taken whole or reported exactly if it is clean. -/
theorem settled_iff : Settled D src lsn s kind data ↔ Clean src s kind data := by
  by_cases hkind : kind ∈ [66, 67, 82, 79, 89, 77, 73, 85, 68, 84]
  · simp only [mem_cons, not_mem_nil, or_false] at hkind
    rcases hkind with rfl | rfl | rfl | rfl | rfl | rfl | hrow
    · exact settled_begin
    · exact settled_commit
    · exact settled_relation
    · exact settled_origin
    · exact settled_type
    · exact settled_message
    · rcases hrow with rfl | rfl | rfl | rfl
      · exact settled_row (.inl rfl)
      · exact settled_row (.inr (.inl rfl))
      · exact settled_row (.inr (.inr rfl))
      · exact settled_truncate
  · exact settled_unknown hkind

theorem Settled.no_panic (h : Settled D src lsn s kind data) : handleMessage D src s lsn kind data ≠ .panic := by
  rcases h with ⟨_, -, -, h⟩ | h <;> intro heq <;> rw [heq] at h <;> exact h

/-- A frame that panics does so at a message the loop came to. -/
theorem panics_at_message {n : Nat} (h : (messages D src lsn n s data).panicked = true) :
    ∃ t kind body, Meets D src lsn s data t kind body ∧ handleMessage D src t lsn kind body = .panic := by
  induction n generalizing s data with
  | zero => cases data <;> simp [messages] at h
  | succ n ih =>
    cases data with
    | nil => simp [messages] at h
    | cons kind data =>
      rw [messages] at h
      cases hmsg : handleMessage D src s lsn kind data with
      | abort => simp [hmsg] at h
      | panic => exact ⟨s, kind, data, .here, hmsg⟩
      | next s' outs rest =>
        simp only [hmsg] at h
        obtain ⟨t, k, body, hmeets, hpanic⟩ := ih h
        exact ⟨t, k, body, .later hmsg hmeets, hpanic⟩

end

/-- **The parser is robust exactly on the frames in which every message it meets is clean.** -/
theorem frames_robust_iff (D : Decoder) (src : PostgresCDCSource) (s : Stream) (data : List UInt8) (lsn : String) :
    Robust D src lsn s data ↔
      ∀ t kind body, Meets D src lsn { s with lsn } data t kind body → Clean src t kind body := by
  constructor
  · intro h t kind body hmeets
    exact settled_iff.mp (h.settled t kind body hmeets)
  · intro h
    refine ⟨(messages_of_le D src lsn _ (le_refl _) (le_refl _)).2, Bool.eq_false_iff.mpr fun hpanic => ?_,
      fun t kind body _ => handleMessage_within lsn kind, fun t kind body hmeets => settled_iff.mpr (h t kind body hmeets)⟩
    obtain ⟨t, kind, body, hmeets, hmsg⟩ := panics_at_message hpanic
    exact (settled_iff.mpr (h t kind body hmeets)).no_panic hmsg

/-! ### Example: a row is cut off -/

def rawText : Decoder := ⟨fun raw _ => .str (Bytes.text raw), fun _ _ _ h => nomatch h⟩

/-- The relation `1` has been announced. -/
def announced : Stream := { catalog := { relations := [(1, "t", [⟨"id", 25⟩])] } }

/-- An INSERT whose value has one of its five bytes. -/
def cutRow : List UInt8 := [73, 0, 0, 0, 1, 78, 0, 1, 116, 0, 0, 0, 5, 65]

/-- A RELATION that ends within the number of its columns. -/
def cutRelation : List UInt8 := [82, 0, 0, 0, 2, 115, 0, 116, 0, 100, 0]

/-- A TRUNCATE of one relation, as a server writes it. -/
def truncateOne : List UInt8 := [84, 0, 0, 0, 1, 0, 0, 0, 0, 1]

/-- The row is dropped without an error, and the next commit moves the position; the RELATION panics; and a TRUNCATE
that is to be an error is none. -/
theorem cut_row_is_dropped :
    ¬Robust rawText {} "0/10" announced cutRow ∧ (handleWALData rawText {} announced cutRow "0/10").outs = [] ∧
      (handleWALData rawText {} (handleWALData rawText {} announced cutRow "0/10").stream
        (67 :: List.replicate 25 1) "0/20").stream.lsn = "1010101/1010101" ∧
      (handleWALData rawText {} announced cutRelation "0/30").panicked = true ∧
      ¬Robust rawText {} "0/40" announced truncateOne := by
  refine ⟨fun h => ?_, by decide, by decide, by decide, fun h => ?_⟩
  · exact (settled_iff.mp (h.settled _ _ _ .here)).1 (by decide)
  · have hread : 5 + ofBigEndian [0, 0, 1, 0] * 5 ≤ 9 := settled_iff.mp (h.settled _ _ _ .here)
    exact absurd hread (by decide)

end OpenEtl.Source.Pg
