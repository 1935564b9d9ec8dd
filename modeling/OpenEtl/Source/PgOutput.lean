import OpenEtl.Core.Identity
import OpenEtl.Lib.Bytes

/-!
# The pgoutput messages of a replication stream (`source/postgres_cdc.go:650-1083`)

A position in the frame is the list of the bytes behind it. What a frame makes the reader do is the list of
its records and TRUNCATE errors (`Out`), in order; where the code indexes past the end of the frame, the
process panics. What a column's text becomes is a parameter (`Decoder`), except that it is no byte slice.
Text is UTF-8.
-/

namespace OpenEtl.Source.Pg

open Bytes (ofBigEndian)
open List

inductive OnTruncate
  | error | skip
deriving DecidableEq, Repr

structure PostgresCDCSource where
  name : String := "postgres_cdc"
  database : String := ""
  tables : List String := []
  enableSnapshot : Bool := false
  dropSlotOnClose : Bool := false
  onTruncate : OnTruncate := .error

/-- `decodeColumnValue`: the text of a column and the OID of its type. -/
structure Decoder where
  decode : List UInt8 → Nat → Value
  no_bytes : ∀ raw oid bs, decode raw oid ≠ .bytes bs

/-! ## The catalog -/

structure PgColumnInfo where
  name : String
  typeOID : Nat
deriving DecidableEq, Repr

structure PgCatalog where
  /-- `rel2name` and `rel2cols`, which are set together -/
  relations : List (Nat × String × List PgColumnInfo) := []
  tablePKs : List (String × List String) := []
deriving DecidableEq, Repr

namespace PgCatalog

variable (c : PgCatalog)

def setRelation (relID : Nat) (tableName : String) (cols : List PgColumnInfo) : PgCatalog :=
  { c with relations := (relID, tableName, cols) :: c.relations }

def primaryKeys (table : String) : List String := (c.tablePKs.lookup table).getD []

def tableName (relID : Nat) : String :=
  match c.relations.lookup relID with
  | some (name, _) => name
  | none => "rel_" ++ toString relID

def columns (relID : Nat) : List PgColumnInfo :=
  match c.relations.lookup relID with
  | some (_, cols) => cols
  | none => []

end PgCatalog

/-! ## Messages -/

inductive Out
  | record (rec : Record)
  /-- the error of a TRUNCATE of this many tables, by the parser's count -/
  | truncate (nRels : Nat)
deriving DecidableEq, Repr

/-- What the receive loop keeps between messages. -/
structure Stream where
  catalog : PgCatalog := {}
  lsn : String := ""
deriving DecidableEq, Repr

inductive Parsed
  | next (s : Stream) (outs : List Out) (rest : List UInt8)
  /-- an unknown message ends the frame -/
  | abort
  | panic
deriving DecidableEq, Repr

/-- The bytes up to the next NUL and what is behind it; `none` is the position past the end of a text
without NUL. -/
def readNullString (data : List UInt8) : List UInt8 × Option (List UInt8) :=
  match data with
  | [] => ([], some [])
  | data =>
    (data.takeWhile (· ≠ 0),
      match data.dropWhile (· ≠ 0) with
      | [] => none
      | _ :: rest => some rest)

def skipTxBlock (data : List UInt8) : List UInt8 := if data.length < 25 then [] else data.drop 25

def skipOriginMsg (data : List UInt8) : List UInt8 :=
  if data.length < 8 then [] else (readNullString (data.drop 8)).2.getD []

def skipTypeMsg (data : List UInt8) : List UInt8 :=
  if data.length < 4 then []
  else
    match (readNullString (data.drop 4)).2 with
    | none => []
    | some data => (readNullString data).2.getD []

def skipLogicalMessageMsg (data : List UInt8) : List UInt8 :=
  if data.length < 9 then []
  else
    match (readNullString (data.drop 9)).2 with
    | none => []
    | some data =>
      if data.length < 4 then []
      else
        let contentLen := ofBigEndian (data.take 4)
        if data.length < 4 + contentLen then [] else data.drop (4 + contentLen)

def hexUpper (n : Nat) : String := String.ofList ((Nat.toDigits 16 n).map Char.toUpper)

/-- `fmt.Sprintf("%X/%X", lsn>>32, lsn&0xFFFFFFFF)`. -/
def lsnText (lsn : Nat) : String := hexUpper (lsn / 2 ^ 32) ++ "/" ++ hexUpper (lsn % 2 ^ 32)

def handleCommitMsg (s : Stream) (frameLSN : String) (data : List UInt8) : Parsed :=
  let lsn := if 21 ≤ data.length then lsnText (ofBigEndian ((data.drop 1).take 8)) else frameLSN
  .next { s with lsn } [] (skipTxBlock data)

/-- The count is read behind one byte of flags, and five bytes are skipped for each relation. -/
def handleTruncateMsg (src : PostgresCDCSource) (s : Stream) (data : List UInt8) : Parsed :=
  if data.length < 5 then .next s [] []
  else
    let nRels := ofBigEndian ((data.drop 1).take 4)
    let skip := 5 + nRels * 5
    if data.length < skip then .next s [] []
    else
      match src.onTruncate with
      | .skip => .next s [] (data.drop skip)
      | .error => .next s [.truncate nRels] (data.drop skip)

/-- The columns of a RELATION message, and the bytes behind them (`none`: past the end). -/
def relationColumns : Nat → List UInt8 → List PgColumnInfo × Option (List UInt8)
  | 0, data => ([], some data)
  | n + 1, data =>
    if data.length ≤ 1 then ([], some data)
    else
      match readNullString (data.drop 1) with
      | (_, none) => ([], none)
      | (name, some data) =>
        if data.length < 8 then ([], some data)
        else
          let (cols, rest) := relationColumns n (data.drop 8)
          ({ name := Bytes.text name, typeOID := ofBigEndian (data.take 4) } :: cols, rest)

def parseRelationMsg (s : Stream) (data : List UInt8) : Parsed :=
  if data.length < 10 then .next s [] []
  else
    let relID := ofBigEndian (data.take 4)
    match (readNullString (data.drop 4)).2 with
    | none => .next s [] []
    | some data =>
      match readNullString data with
      | (_, none) => .next s [] []
      | (tableName, some data) =>
        if data.length ≤ 1 then .next s [] []
        else if data.length = 2 then .panic
        else
          match relationColumns (ofBigEndian ((data.drop 1).take 2)) (data.drop 3) with
          | (_, none) => .panic
          | (cols, some rest) => .next { s with catalog := s.catalog.setRelation relID (Bytes.text tableName) cols } [] rest

/-! ## Tuples -/

section

variable (D : Decoder)

def columnAt (cols : List PgColumnInfo) (i : Nat) : PgColumnInfo :=
  cols.getD i { name := "col_" ++ toString i, typeOID := 0 }

/-- The columns from the `i`-th on; `none` if the tuple is malformed. -/
def readColumns (cols : List PgColumnInfo) :
    Nat → Nat → List UInt8 → Data → Option (Data × List UInt8)
  | _, 0, data, dataMap => some (dataMap, data)
  | _, _ + 1, [], dataMap => some (dataMap, [])
  | i, n + 1, colType :: data, dataMap =>
    let col := columnAt cols i
    if colType = 110 then readColumns cols (i + 1) n data (dataMap.set col.name .null)
    else if colType = 117 then readColumns cols (i + 1) n data dataMap
    else if colType = 116 then
      if data.length < 4 then none
      else
        let valLen := ofBigEndian (data.take 4)
        if 2 ^ 31 ≤ valLen ∨ data.length < 4 + valLen then none
        else
          readColumns cols (i + 1) n (data.drop (4 + valLen))
            (dataMap.set col.name (D.decode ((data.drop 4).take valLen) col.typeOID))
    else none

/-- A tuple: its values (nil when they are not captured) and the bytes behind it. -/
def readPGTupleValues (cols : List PgColumnInfo) (numCols : Nat) (data : List UInt8) (capture : Bool) :
    Option (Data × List UInt8) :=
  match readColumns D cols 0 numCols data [] with
  | none => none
  | some (dataMap, rest) =>
    if capture then if 0 < numCols ∧ dataMap = [] then none else some (dataMap, rest)
    else some ([], rest)

/-! ## Rows -/

/-- UPDATE prefers the before-image when there is one. -/
def recordKey (catalog : PgCatalog) (tableName : String) (data before : Data) : String :=
  let pks := catalog.primaryKeys tableName
  if pks = [] then ""
  else
    let key := if before = [] then "" else metadataKeyJSONMulti pks before
    if key ≠ "" then key else metadataKeyJSONMulti pks data

variable (src : PostgresCDCSource)

def rowRecord (catalog : PgCatalog) (op : OpType) (relID : Nat) (lsn : String) (data before : Data) : Record :=
  let tableName := catalog.tableName relID
  { operation := op, data, before
    metadata :=
      { source := src.name, sourceType := "postgres_cdc", sourcePhase := "cdc", database := src.database
        table := tableName, lsn
        key := recordKey catalog tableName data before
        primaryKeyColumns := catalog.primaryKeys tableName } }

def parseInsertMsg (s : Stream) (lsn : String) (data : List UInt8) : Parsed :=
  if data.length < 7 then .next s [] []
  else
    let relID := ofBigEndian (data.take 4)
    if (data.drop 4).head? ≠ some 78 then .next s [] []
    else
      match readPGTupleValues D (s.catalog.columns relID) (ofBigEndian ((data.drop 5).take 2)) (data.drop 7) true with
      | none => .next s [] []
      | some (dataMap, rest) => .next s [.record (rowRecord src s.catalog .insert relID lsn dataMap [])] rest

/-- The old tuple of an UPDATE: its values and the bytes behind it. Only the values of a full row are kept. -/
def oldTuple (cols : List PgColumnInfo) (tupleType : UInt8) (data : List UInt8) : Option (Data × List UInt8) :=
  if tupleType = 78 then some ([], 78 :: data)
  else if data.length < 2 then none
  else readPGTupleValues D cols (ofBigEndian (data.take 2)) (data.drop 2) (tupleType = 79)

def parseUpdateMsg (s : Stream) (lsn : String) (data : List UInt8) : Parsed :=
  if data.length < 7 then .next s [] []
  else
    let relID := ofBigEndian (data.take 4)
    let cols := s.catalog.columns relID
    match data.drop 4 with
    | [] => .next s [] []
    | tupleType :: data =>
      if tupleType ≠ 75 ∧ tupleType ≠ 79 ∧ tupleType ≠ 78 then .next s [] []
      else
        match oldTuple D cols tupleType data with
        | none | some (_, []) => .next s [] []
        | some (beforeMap, nextTupleType :: data) =>
          if nextTupleType ≠ 78 ∨ data.length < 2 then .next s [] []
          else
            match readPGTupleValues D cols (ofBigEndian (data.take 2)) (data.drop 2) true with
            | none => .next s [] []
            | some (dataMap, rest) =>
              .next s [.record (rowRecord src s.catalog .update relID lsn dataMap beforeMap)] rest

def parseDeleteMsg (s : Stream) (lsn : String) (data : List UInt8) : Parsed :=
  if data.length < 7 then .next s [] []
  else
    let relID := ofBigEndian (data.take 4)
    if (data.drop 4).head? ≠ some 75 ∧ (data.drop 4).head? ≠ some 79 then .next s [] []
    else
      match readPGTupleValues D (s.catalog.columns relID) (ofBigEndian ((data.drop 5).take 2)) (data.drop 7) true with
      | none => .next s [] []
      | some (dataMap, rest) => .next s [.record (rowRecord src s.catalog .delete relID lsn dataMap [])] rest

/-! ## Frames -/

/-- One message, by its first byte. -/
def handleMessage (s : Stream) (frameLSN : String) (kind : UInt8) (data : List UInt8) : Parsed :=
  if kind = 66 then .next s [] (skipTxBlock data)
  else if kind = 67 then handleCommitMsg s frameLSN data
  else if kind = 82 then parseRelationMsg s data
  else if kind = 79 then .next s [] (skipOriginMsg data)
  else if kind = 89 then .next s [] (skipTypeMsg data)
  else if kind = 77 then .next s [] (skipLogicalMessageMsg data)
  else if kind = 73 then parseInsertMsg D src s frameLSN data
  else if kind = 85 then parseUpdateMsg D src s frameLSN data
  else if kind = 68 then parseDeleteMsg D src s frameLSN data
  else if kind = 84 then handleTruncateMsg src s data
  else .abort

/-- What a frame leaves: the stream state, its outputs, and whether the process has panicked. The frame is cut if the
bound on its messages was reached with bytes left. -/
structure Frame where
  stream : Stream
  outs : List Out := []
  panicked : Bool := false
  cut : Bool := false

/-- The messages of a frame from some byte on. Every message takes at least one byte, so the length of the
frame bounds their number. -/
def messages (frameLSN : String) : Nat → Stream → List UInt8 → Frame
  | _, s, [] => { stream := s }
  | 0, s, _ :: _ => { stream := s, cut := true }
  | n + 1, s, kind :: data =>
    match handleMessage D src s frameLSN kind data with
    | .abort => { stream := s }
    | .panic => { stream := s, panicked := true }
    | .next s outs rest =>
      let frame := messages frameLSN n s rest
      { frame with outs := outs ++ frame.outs }

def handleWALData (s : Stream) (data : List UInt8) (frameLSN : String) : Frame :=
  messages D src frameLSN data.length { s with lsn := frameLSN } data

end

/-! ## The number of messages

Every handler gives back an end of what it was given, so the bound of `messages` is never reached. -/

variable {data rest : List UInt8}

theorem readNullString_suffix (h : (readNullString data).2 = some rest) : rest <:+ data := by
  unfold readNullString at h
  split at h
  · simp at h
    simp [h]
  · split at h
    · simp at h
    · rename_i heq
      cases h
      exact (suffix_cons _ _).trans (heq ▸ dropWhile_suffix _)

theorem getD_readNullString_suffix (data : List UInt8) : (readNullString data).2.getD [] <:+ data := by
  cases h : (readNullString data).2 with
  | none => simp
  | some rest => exact readNullString_suffix h

theorem skipTxBlock_suffix (data : List UInt8) : skipTxBlock data <:+ data := by
  unfold skipTxBlock
  split
  · simp
  · exact drop_suffix _ _

theorem skipOriginMsg_suffix (data : List UInt8) : skipOriginMsg data <:+ data := by
  unfold skipOriginMsg
  split
  · simp
  · exact (getD_readNullString_suffix _).trans (drop_suffix _ _)

theorem skipTypeMsg_suffix (data : List UInt8) : skipTypeMsg data <:+ data := by
  unfold skipTypeMsg
  split
  · simp
  · split
    · simp
    · rename_i heq
      exact (getD_readNullString_suffix _).trans ((readNullString_suffix heq).trans (drop_suffix _ _))

theorem skipLogicalMessageMsg_suffix (data : List UInt8) : skipLogicalMessageMsg data <:+ data := by
  unfold skipLogicalMessageMsg
  split
  · simp
  · split
    · simp
    · rename_i heq
      have hrest := (readNullString_suffix heq).trans (drop_suffix _ _)
      split
      · simp
      · simp only
        split
        · simp
        · exact (drop_suffix _ _).trans hrest

theorem relationColumns_suffix {n : Nat} (h : (relationColumns n data).2 = some rest) :
    rest <:+ data := by
  induction n generalizing data with
  | zero => exact Option.some.inj h ▸ suffix_rfl
  | succ n ih =>
    rw [relationColumns] at h
    split at h
    · exact Option.some.inj h ▸ suffix_rfl
    · split at h
      · simp at h
      · rename_i heq
        have hname := (readNullString_suffix (congrArg Prod.snd heq)).trans (drop_suffix _ _)
        split at h
        · exact Option.some.inj h ▸ hname
        · exact (ih h).trans ((drop_suffix _ _).trans hname)

section

variable {D : Decoder} {src : PostgresCDCSource} {s s' : Stream} {outs : List Out} {data rest : List UInt8}
  {cols : List PgColumnInfo} {dataMap : Data} {n : Nat}

theorem readColumns_suffix {i : Nat} {acc : Data} (h : readColumns D cols i n data acc = some (dataMap, rest)) :
    rest <:+ data := by
  induction n generalizing i data acc with
  | zero =>
    simp only [readColumns, Option.some.injEq, Prod.mk.injEq] at h
    simp [h.2]
  | succ n ih =>
    cases data with
    | nil =>
      simp only [readColumns, Option.some.injEq, Prod.mk.injEq] at h
      simp [h.2]
    | cons colType data =>
      simp only [readColumns] at h
      refine IsSuffix.trans ?_ (suffix_cons colType data)
      split at h
      · exact ih h
      · split at h
        · exact ih h
        · split at h
          · split at h
            · simp at h
            · split at h
              · simp at h
              · exact (ih h).trans (drop_suffix _ _)
          · simp at h

theorem readPGTupleValues_suffix {capture : Bool} (h : readPGTupleValues D cols n data capture = some (dataMap, rest)) :
    rest <:+ data := by
  unfold readPGTupleValues at h
  split at h
  · simp at h
  · rename_i heq
    have hrest := readColumns_suffix heq
    split at h
    · split at h
      · simp at h
      · obtain ⟨-, rfl⟩ := Prod.mk.inj (Option.some.inj h)
        exact hrest
    · obtain ⟨-, rfl⟩ := Prod.mk.inj (Option.some.inj h)
      exact hrest

/-- What is left of the frame behind a message is an end of `data`. -/
def Parsed.Within (data : List UInt8) : Parsed → Prop
  | .next _ _ rest => rest <:+ data
  | .abort | .panic => True

@[simp]
theorem Parsed.within_nil : (Parsed.next s outs []).Within data := nil_suffix

theorem handleTruncateMsg_within : (handleTruncateMsg src s data).Within data := by
  unfold handleTruncateMsg
  split
  · simp
  · simp only
    split
    · simp
    · split <;> exact drop_suffix _ _

theorem parseRelationMsg_within : (parseRelationMsg s data).Within data := by
  unfold parseRelationMsg
  split
  · simp
  · split
    · simp
    · rename_i heq1
      have h1 := (readNullString_suffix heq1).trans (drop_suffix _ _)
      split
      · simp
      · rename_i heq2
        have h2 := (readNullString_suffix (congrArg Prod.snd heq2)).trans h1
        split
        · simp
        · split
          · trivial
          · split
            · trivial
            · rename_i heq3
              exact (relationColumns_suffix (congrArg Prod.snd heq3)).trans ((drop_suffix _ _).trans h2)

/-- What the message of a row makes: nothing, or a record of its relation. -/
inductive RowParsed (src : PostgresCDCSource) (s : Stream) (lsn : String) (data : List UInt8) : Parsed → Prop
  | dropped : RowParsed src s lsn data (.next s [] [])
  | record {op dataMap beforeMap rest} : rest <:+ data → RowParsed src s lsn data
      (.next s [.record (rowRecord src s.catalog op (ofBigEndian (data.take 4)) lsn dataMap beforeMap)] rest)

theorem RowParsed.within {lsn : String} {r : Parsed} (h : RowParsed src s lsn data r) : r.Within data := by
  cases h with
  | dropped => simp
  | record h => exact h

theorem parseInsertMsg_row (lsn : String) : RowParsed src s lsn data (parseInsertMsg D src s lsn data) := by
  unfold parseInsertMsg
  split
  · exact .dropped
  · simp only
    split
    · exact .dropped
    · split
      · exact .dropped
      · rename_i heq
        exact .record ((readPGTupleValues_suffix heq).trans (drop_suffix _ _))

theorem parseDeleteMsg_row (lsn : String) : RowParsed src s lsn data (parseDeleteMsg D src s lsn data) := by
  unfold parseDeleteMsg
  split
  · exact .dropped
  · simp only
    split
    · exact .dropped
    · split
      · exact .dropped
      · rename_i heq
        exact .record ((readPGTupleValues_suffix heq).trans (drop_suffix _ _))

theorem oldTuple_suffix {tupleType : UInt8} {beforeMap : Data}
    (h : oldTuple D cols tupleType data = some (beforeMap, rest)) : rest <:+ tupleType :: data := by
  unfold oldTuple at h
  split at h
  · rename_i htype
    obtain ⟨-, rfl⟩ := Prod.mk.inj (Option.some.inj h)
    exact htype ▸ suffix_rfl
  · split at h
    · simp at h
    · exact (readPGTupleValues_suffix h).trans ((drop_suffix _ _).trans (suffix_cons _ _))

theorem parseUpdateMsg_row (lsn : String) : RowParsed src s lsn data (parseUpdateMsg D src s lsn data) := by
  unfold parseUpdateMsg
  split
  · exact .dropped
  · simp only
    split
    · exact .dropped
    · rename_i heq1
      have h1 := heq1 ▸ drop_suffix 4 data
      split
      · exact .dropped
      · split
        · exact .dropped
        · exact .dropped
        · rename_i heq2
          have h2 := (suffix_cons _ _).trans ((oldTuple_suffix heq2).trans h1)
          split
          · exact .dropped
          · split
            · exact .dropped
            · rename_i heq3
              exact .record ((readPGTupleValues_suffix heq3).trans ((drop_suffix _ _).trans h2))

theorem Parsed.Within.ite {c : Prop} [Decidable c] {p q : Parsed} (hp : p.Within data) (hq : q.Within data) :
    (if c then p else q).Within data := by
  split
  · exact hp
  · exact hq

theorem handleMessage_within (lsn : String) (kind : UInt8) : (handleMessage D src s lsn kind data).Within data := by
  unfold handleMessage
  refine .ite (skipTxBlock_suffix data) ?_
  refine .ite (skipTxBlock_suffix data) ?_
  refine .ite parseRelationMsg_within ?_
  refine .ite (skipOriginMsg_suffix data) ?_
  refine .ite (skipTypeMsg_suffix data) ?_
  refine .ite (skipLogicalMessageMsg_suffix data) ?_
  refine .ite (parseInsertMsg_row lsn).within ?_
  refine .ite (parseUpdateMsg_row lsn).within ?_
  refine .ite (parseDeleteMsg_row lsn).within ?_
  exact .ite handleTruncateMsg_within trivial

theorem handleMessage_length {lsn : String} {kind : UInt8}
    (h : handleMessage D src s lsn kind data = .next s' outs rest) : rest.length ≤ data.length := by
  have hwithin : (handleMessage D src s lsn kind data).Within data := handleMessage_within lsn kind
  rw [h] at hwithin
  exact IsSuffix.length_le hwithin

variable (D src)

/-- Two bounds that suffice give the same, and neither is reached. -/
theorem messages_of_le (lsn : String) {m : Nat} (s : Stream) {data : List UInt8} (hn : data.length ≤ n)
    (hm : data.length ≤ m) :
    messages D src lsn n s data = messages D src lsn m s data ∧ (messages D src lsn n s data).cut = false := by
  induction n generalizing s data m with
  | zero =>
    obtain rfl : data = [] := length_eq_zero_iff.mp (by omega)
    simp [messages]
  | succ n ih =>
    cases data with
    | nil => simp [messages]
    | cons kind data =>
      cases m with
      | zero => simp at hm
      | succ m =>
        simp only [length_cons] at hn hm
        simp only [messages]
        cases hmsg : handleMessage D src s lsn kind data with
        | abort => exact ⟨rfl, rfl⟩
        | panic => exact ⟨rfl, rfl⟩
        | next s' outs rest =>
          have hlen := handleMessage_length hmsg
          obtain ⟨heq, hcut⟩ := ih s' (by omega : rest.length ≤ n) (by omega : rest.length ≤ m)
          simp only [← heq, true_and]
          exact hcut

/-- **The loop over a frame ends** by itself in no more rounds than there are bytes, and more rounds change nothing. -/
theorem handleWALData_ends (s : Stream) (data : List UInt8) (lsn : String) :
    (handleWALData D src s data lsn).cut = false ∧
      ∀ k, handleWALData D src s data lsn = messages D src lsn (data.length + k) { s with lsn } data :=
  ⟨(messages_of_le D src lsn _ (le_refl _) (le_refl _)).2,
    fun k => (messages_of_le D src lsn _ (le_refl _) (Nat.le_add_right _ k)).1⟩

end

end OpenEtl.Source.Pg
