import Mathlib.Data.Nat.Bitwise
import OpenEtl.Core.Record
import OpenEtl.Lib.Delimited

/-!
# Source order (`core/record_contract.go:92-302`)

`sourceOrder` derives a version number from the position a source left in a record's metadata.
-/

namespace OpenEtl

open Delimited

/-! ## Parsing -/

def parseDigits (base : Nat) (digit : Char → Option Nat) (s : List Char) : Option Nat :=
  s.foldl (fun n c => do return (← n) * base + (← digit c)) (some 0)

def decDigit (c : Char) : Option Nat :=
  if '0' ≤ c ∧ c ≤ '9' then some (c.toNat - '0'.toNat) else none

def hexDigit (c : Char) : Option Nat :=
  if '0' ≤ c ∧ c ≤ '9' then some (c.toNat - '0'.toNat)
  else if 'a' ≤ c ∧ c ≤ 'f' then some (c.toNat - 'a'.toNat + 10)
  else if 'A' ≤ c ∧ c ≤ 'F' then some (c.toNat - 'A'.toNat + 10)
  else none

/-- `strconv.ParseUint(s, base, bits)` for a text of digits. -/
def parseUint (base bits : Nat) (digit : Char → Option Nat) (s : List Char) : Option Nat :=
  if s = [] then none else (parseDigits base digit s).filter (· < 2 ^ bits)

def parseUnsignedDecimal (value : List Char) : Option Nat := parseUint 10 64 decDigit value

/-- The digits after the last dot of a binlog file name. -/
def parseBinlogFileSequence (file : String) : Option Nat :=
  let chars := (trimSpace file).toList
  if '.' ∈ chars then parseUnsignedDecimal (chars.reverse.takeWhile (· ≠ '.')).reverse else none

def parsePostgresLSN (value : String) : Option Nat :=
  match (trimSpace value).toList.splitOn '/' with
  | [high, low] => do
    let high ← parseUint 16 32 hexDigit high
    let low ← parseUint 16 32 hexDigit low
    return high <<< 32 ||| low
  | _ => none

/-! ## `SourceOrder` -/

inductive SourceOrderKind
  | unset | mysqlBinlog | mysqlSnapshot | postgresLSN | kafkaOffset | mysqlBatch
deriving DecidableEq, Repr

inductive SourceOrderReason
  | unknownSource | unsupportedSource | positionMissing | positionInvalid | positionOverflow
  | phaseInvalid | numericUnavailable
deriving DecidableEq, Repr

structure SourceOrderResult where
  available : Bool := false
  versionAvailable : Bool := false
  version : Nat := 0
  kind : SourceOrderKind := .unset
  scope : String := ""
  phase : String := ""
  major : Nat := 0
  minor : Nat := 0
  cursor : String := ""
  reason : Option SourceOrderReason := none
deriving DecidableEq, Repr

def builtinSourceTypes : List String :=
  ["mysql_cdc", "mysql_snapshot_cdc", "postgres_cdc", "kafka", "mysql_batch", "file", "http", "rest", "redis"]

/-- `canonicalRecordSourceType`. -/
def canonicalRecordSourceType (m : Metadata) : String :=
  let sourceType := toLower (trimSpace m.sourceType)
  let source := toLower (trimSpace m.source)
  if sourceType ≠ "" then sourceType
  else if source ∈ builtinSourceTypes then source
  else if m.lsn ≠ "" then "postgres_cdc"
  else if m.snapshotHandoffFile ≠ "" then "mysql_snapshot_cdc"
  else if m.binlogFile ≠ "" then "mysql_cdc"
  else ""

def orderScope (sourceType : String) (m : Metadata) : String := sourceType ++ ":" ++ m.database ++ ":" ++ m.table

def kafkaOrderScope (m : Metadata) : String := "kafka:" ++ m.table ++ ":partition=" ++ toString m.partition

def unavailableOrder (kind : SourceOrderKind) (scope : String) (reason : SourceOrderReason) :
    SourceOrderResult :=
  { kind, scope, reason := some reason }

def maxMySQLBinlogFileSequence : Nat := 2 ^ 31 - 1
def maxKafkaPartition : Int := 2 ^ 15 - 1
def maxKafkaOffset : Int := 2 ^ 48 - 1

/-- `mysqlBinlogOrder`: one bit, the file's sequence number and the offset in the file. -/
def mysqlBinlogOrder (m : Metadata) (kind : SourceOrderKind) (phase : String) : SourceOrderResult :=
  let scope := orderScope (canonicalRecordSourceType m) m
  match parseBinlogFileSequence m.binlogFile with
  | none =>
    unavailableOrder kind scope
      (if trimSpace m.binlogFile = "" ∨ m.binlogPos = 0 then .positionMissing else .positionInvalid)
  | some sequence =>
    if m.binlogPos = 0 then unavailableOrder kind scope .positionMissing
    else if maxMySQLBinlogFileSequence < sequence then unavailableOrder kind scope .positionOverflow
    else
      { available := true, versionAvailable := true
        version := 1 <<< 63 ||| sequence <<< 32 ||| m.binlogPos.toNat
        kind, scope, phase
        major := sequence, minor := m.binlogPos.toNat
        cursor := m.binlogFile ++ ":" ++ toString m.binlogPos.toNat }

def mysqlSnapshotHandoffOrder (m : Metadata) : SourceOrderResult :=
  mysqlBinlogOrder { m with binlogFile := m.snapshotHandoffFile, binlogPos := m.snapshotHandoffPos }
    .mysqlSnapshot "snapshot"

def cursorOrder (m : Metadata) (kind : SourceOrderKind) (max : Nat) (phase : String) : SourceOrderResult :=
  let scope := orderScope (canonicalRecordSourceType m) m
  match m.cursorKind with
  | .unset => unavailableOrder kind scope .positionMissing
  | .numeric =>
    match parseUnsignedDecimal m.cursor.toList with
    | none => unavailableOrder kind scope .positionInvalid
    | some value =>
      if max < value then unavailableOrder kind scope .positionOverflow
      else
        { available := true, versionAvailable := true, version := value
          kind, scope, phase, major := value, cursor := m.cursor }
  | .ordered =>
    { available := true, versionAvailable := false
      kind, scope, phase, cursor := m.cursor, reason := some .numericUnavailable }

def postgresOrder (m : Metadata) : SourceOrderResult :=
  let scope := orderScope "postgres_cdc" m
  if toLower (trimSpace m.sourcePhase) = "snapshot" then unavailableOrder .postgresLSN scope .positionMissing
  else
    match parsePostgresLSN m.lsn with
    | none =>
      unavailableOrder .postgresLSN scope
        (if trimSpace m.lsn = "" then .positionMissing else .positionInvalid)
    | some value =>
      { available := true, versionAvailable := true, version := value
        kind := .postgresLSN, scope, phase := "cdc"
        major := value, cursor := String.ofList (m.lsn.toList.map Char.toUpper) }

def kafkaOrder (m : Metadata) : SourceOrderResult :=
  let scope := kafkaOrderScope m
  if m.partition < 0 ∨ m.offset < 0 then unavailableOrder .kafkaOffset scope .positionInvalid
  else if maxKafkaPartition < m.partition ∨ maxKafkaOffset < m.offset then
    unavailableOrder .kafkaOffset scope .positionOverflow
  else
    { available := true, versionAvailable := true
      version := m.partition.toNat <<< 48 ||| m.offset.toNat
      kind := .kafkaOffset, scope
      major := m.partition.toNat, minor := m.offset.toNat
      cursor := toString m.offset }

/-- The phase of a `mysql_snapshot_cdc` record. -/
def snapshotCDCPhase (m : Metadata) : String :=
  let phase := toLower (trimSpace m.sourcePhase)
  if phase = "" then (if m.binlogFile ≠ "" then "cdc" else "snapshot") else phase

def sourceOrder (rec : Record) : SourceOrderResult :=
  let m := rec.metadata
  let sourceType := canonicalRecordSourceType m
  if sourceType = "mysql_cdc" then mysqlBinlogOrder m .mysqlBinlog "cdc"
  else if sourceType = "mysql_snapshot_cdc" then
    if snapshotCDCPhase m = "cdc" then mysqlBinlogOrder m .mysqlBinlog "cdc"
    else if snapshotCDCPhase m = "snapshot" then mysqlSnapshotHandoffOrder m
    else unavailableOrder .mysqlSnapshot (orderScope sourceType m) .phaseInvalid
  else if sourceType = "postgres_cdc" then postgresOrder m
  else if sourceType = "kafka" then kafkaOrder m
  else if sourceType = "mysql_batch" then cursorOrder m .mysqlBatch (2 ^ 64 - 1) "batch"
  else if sourceType = "" then unavailableOrder .unset "" .unknownSource
  else unavailableOrder .unset (orderScope sourceType m) .unsupportedSource

/-! ## The order of versions -/

/-- Where the parts of a position stand in a version: what is added in front, and the bits of `minor`. -/
def versionLayout (sourceType : String) : Nat × Nat :=
  if sourceType = "mysql_cdc" ∨ sourceType = "mysql_snapshot_cdc" then (2 ^ 63, 32)
  else if sourceType = "kafka" then (0, 48)
  else (0, 0)

def SourceOrderResult.Packed (r : SourceOrderResult) (layout : Nat × Nat) : Prop :=
  r.version = layout.1 + (r.major * 2 ^ layout.2 + r.minor) ∧ r.minor < 2 ^ layout.2

def binlogFields (file : String) (pos : UInt32) : Option (Nat × Nat) :=
  (parseBinlogFileSequence file).map fun sequence => (sequence, pos.toNat)

/-- What a version is made of. -/
def fieldsFor (m : Metadata) (sourceType : String) : Option (Nat × Nat) :=
  if sourceType = "mysql_cdc" then binlogFields m.binlogFile m.binlogPos
  else if sourceType = "mysql_snapshot_cdc" then
    if snapshotCDCPhase m = "cdc" then binlogFields m.binlogFile m.binlogPos
    else binlogFields m.snapshotHandoffFile m.snapshotHandoffPos
  else if sourceType = "postgres_cdc" then (parsePostgresLSN m.lsn).map fun lsn => (lsn, 0)
  else if sourceType = "kafka" then some (m.partition.toNat, m.offset.toNat)
  else (parseUnsignedDecimal m.cursor.toList).map fun value => (value, 0)

/-- A version of 64 bits with these fields. -/
structure SourceOrderResult.Holds (r : SourceOrderResult) (layout : Nat × Nat) (fields : Option (Nat × Nat)) : Prop where
  packed : r.Packed layout
  fields_eq : fields = some (r.major, r.minor)
  version_lt : r.version < 2 ^ 64

theorem parseUint_lt {base bits n : Nat} {digit : Char → Option Nat} {s : List Char}
    (h : parseUint base bits digit s = some n) : n < 2 ^ bits := by
  unfold parseUint at h
  split at h
  · simp at h
  · simpa using (Option.filter_eq_some_iff.mp h).2

theorem shiftLeft_or {a b w : Nat} (h : b < 2 ^ w) : a <<< w ||| b = a * 2 ^ w + b := by
  rw [← Nat.shiftLeft_add_eq_or_of_lt h, Nat.shiftLeft_eq]

variable {m : Metadata} {kind : SourceOrderKind} {phase : String}

theorem mysqlBinlogOrder_packed
    (h : (mysqlBinlogOrder m kind phase).versionAvailable = true) :
    (mysqlBinlogOrder m kind phase).Holds (2 ^ 63, 32) (binlogFields m.binlogFile m.binlogPos) ∧
      (mysqlBinlogOrder m kind phase).scope = orderScope (canonicalRecordSourceType m) m := by
  unfold mysqlBinlogOrder at h ⊢
  split at h
  · simp [unavailableOrder] at h
  · rename_i sequence hsequence
    split at h
    · simp [unavailableOrder] at h
    rename_i hpos
    split at h
    · simp [unavailableOrder] at h
    rename_i hmax
    rw [if_neg hpos, if_neg hmax]
    have hseq : sequence < 2 ^ 31 := by
      simp only [maxMySQLBinlogFileSequence] at hmax
      omega
    have hminor : m.binlogPos.toNat < 2 ^ 32 := m.binlogPos.toNat_lt
    have hversion : 1 <<< 63 ||| sequence <<< 32 ||| m.binlogPos.toNat =
        2 ^ 63 + (sequence * 2 ^ 32 + m.binlogPos.toNat) := by
      rw [Nat.lor_assoc, shiftLeft_or hminor, shiftLeft_or (by omega)]
      omega
    refine ⟨⟨⟨hversion, hminor⟩, by simp [binlogFields, hsequence], ?_⟩, rfl⟩
    show 1 <<< 63 ||| sequence <<< 32 ||| m.binlogPos.toNat < 2 ^ 64
    omega

theorem parsePostgresLSN_lt {value : String} {lsn : Nat} (h : parsePostgresLSN value = some lsn) : lsn < 2 ^ 64 := by
  unfold parsePostgresLSN at h
  split at h
  · obtain ⟨high, hhigh, h⟩ := Option.bind_eq_some_iff.mp h
    obtain ⟨low, hlow, h⟩ := Option.bind_eq_some_iff.mp h
    have hhigh := parseUint_lt hhigh
    have hlow := parseUint_lt hlow
    rw [← Option.some.inj h, shiftLeft_or hlow]
    omega
  · simp at h

theorem postgresOrder_packed (h : (postgresOrder m).versionAvailable = true) :
    (postgresOrder m).Holds (0, 0) (fieldsFor m "postgres_cdc") ∧
      (postgresOrder m).scope = orderScope "postgres_cdc" m := by
  unfold postgresOrder at h ⊢
  split at h
  · simp [unavailableOrder] at h
  rename_i hphase
  rw [if_neg hphase]
  split at h
  · simp [unavailableOrder] at h
  · rename_i value hlsn
    exact ⟨⟨⟨by simp, by simp⟩, by simp [fieldsFor, hlsn], parsePostgresLSN_lt hlsn⟩, rfl⟩

theorem kafkaOrder_packed (h : (kafkaOrder m).versionAvailable = true) :
    (kafkaOrder m).Holds (0, 48) (fieldsFor m "kafka") ∧ (kafkaOrder m).scope = kafkaOrderScope m := by
  unfold kafkaOrder at h ⊢
  split at h
  · simp [unavailableOrder] at h
  rename_i hneg
  split at h
  · simp [unavailableOrder] at h
  rename_i hmax
  rw [if_neg hneg, if_neg hmax]
  have hminor : m.offset.toNat < 2 ^ 48 := by
    simp only [maxKafkaOffset] at hmax
    omega
  have hversion : m.partition.toNat <<< 48 ||| m.offset.toNat = 0 + (m.partition.toNat * 2 ^ 48 + m.offset.toNat) := by
    rw [shiftLeft_or hminor, Nat.zero_add]
  refine ⟨⟨⟨hversion, hminor⟩, by simp [fieldsFor], ?_⟩, rfl⟩
  show m.partition.toNat <<< 48 ||| m.offset.toNat < 2 ^ 64
  simp only [maxKafkaPartition] at hmax
  omega

theorem cursorOrder_packed {max : Nat}
    (h : (cursorOrder m kind max phase).versionAvailable = true) :
    (cursorOrder m kind max phase).Holds (0, 0) (fieldsFor m "mysql_batch") ∧
      (cursorOrder m kind max phase).scope = orderScope (canonicalRecordSourceType m) m := by
  unfold cursorOrder at h ⊢
  split at h
  · simp [unavailableOrder] at h
  · split at h
    · simp [unavailableOrder] at h
    · rename_i value hvalue
      split at h
      · simp [unavailableOrder] at h
      · rename_i hmax
        rw [if_neg hmax]
        exact ⟨⟨⟨by simp, by simp⟩, by simp [fieldsFor, hvalue], parseUint_lt hvalue⟩, rfl⟩
  · simp at h

/-- The part of a scope before its first colon. -/
def scopeSource (scope : String) : List Char := scope.toList.takeWhile (· ≠ ':')

theorem scopeSource_append {s : String} (rest : String) (h : ':' ∉ s.toList) :
    scopeSource (s ++ (":" ++ rest)) = s.toList := by
  unfold scopeSource
  have hs : ∀ c ∈ s.toList, decide (c ≠ ':') = true := by
    intro c hc
    have : c ≠ ':' := fun heq => h (heq ▸ hc)
    simpa using this
  rw [String.toList_append, List.takeWhile_append_of_pos hs]
  simp

variable {sourceType : String}

theorem scopeSource_orderScope (m : Metadata) (h : ':' ∉ sourceType.toList) :
    scopeSource (orderScope sourceType m) = sourceType.toList := by
  simp only [orderScope, String.append_assoc]
  exact scopeSource_append _ h

/-- The binlog file only decides what is left open by the other fields. -/
theorem canonicalRecordSourceType_handoff (file : String) (pos : UInt32)
    (h : canonicalRecordSourceType m = "mysql_snapshot_cdc") :
    canonicalRecordSourceType { m with binlogFile := file, binlogPos := pos } = "mysql_snapshot_cdc" := by
  unfold canonicalRecordSourceType at h ⊢
  by_cases h1 : toLower (trimSpace m.sourceType) ≠ ""
  · rw [if_pos h1] at h ⊢
    exact h
  rw [if_neg h1] at h ⊢
  by_cases h2 : toLower (trimSpace m.source) ∈ builtinSourceTypes
  · rw [if_pos h2] at h ⊢
    exact h
  rw [if_neg h2] at h ⊢
  by_cases h3 : m.lsn ≠ ""
  · rw [if_pos h3] at h ⊢
    exact h
  rw [if_neg h3] at h ⊢
  by_cases h4 : m.snapshotHandoffFile ≠ ""
  · rw [if_pos h4]
  rw [if_neg h4] at h
  by_cases h5 : m.binlogFile ≠ ""
  · rw [if_pos h5] at h
    simp at h
  · rw [if_neg h5] at h
    simp at h

theorem mysqlSnapshotHandoffOrder_packed (hm : canonicalRecordSourceType m = "mysql_snapshot_cdc")
    (h : (mysqlSnapshotHandoffOrder m).versionAvailable = true) :
    (mysqlSnapshotHandoffOrder m).Holds (2 ^ 63, 32) (binlogFields m.snapshotHandoffFile m.snapshotHandoffPos) ∧
      scopeSource (mysqlSnapshotHandoffOrder m).scope = "mysql_snapshot_cdc".toList := by
  obtain ⟨hp, hs⟩ := mysqlBinlogOrder_packed h
  refine ⟨hp, ?_⟩
  rw [mysqlSnapshotHandoffOrder, hs, canonicalRecordSourceType_handoff _ _ hm]
  exact scopeSource_orderScope _ (by decide)

theorem scopeSource_kafkaOrderScope (m : Metadata) : scopeSource (kafkaOrderScope m) = "kafka".toList := by
  have h : kafkaOrderScope m = "kafka" ++ (":" ++ (m.table ++ (":partition=" ++ toString m.partition))) := by
    simp only [kafkaOrderScope, String.append_assoc]
    rfl
  rw [h]
  exact scopeSource_append _ (by decide)

variable {rec : Record}

/-- A record with a version has it packed as its source lays it out, and names the source in its scope. -/
theorem sourceOrder_packed (h : (sourceOrder rec).versionAvailable = true) :
    (sourceOrder rec).Holds (versionLayout (canonicalRecordSourceType rec.metadata))
        (fieldsFor rec.metadata (canonicalRecordSourceType rec.metadata)) ∧
      scopeSource (sourceOrder rec).scope = (canonicalRecordSourceType rec.metadata).toList := by
  unfold sourceOrder at h ⊢
  simp only at h ⊢
  generalize hst : canonicalRecordSourceType rec.metadata = st at *
  by_cases h1 : st = "mysql_cdc"
  · subst h1
    rw [if_pos rfl] at h ⊢
    obtain ⟨hp, hs⟩ := mysqlBinlogOrder_packed h
    rw [hs, hst]
    exact ⟨hp, scopeSource_orderScope _ (by decide)⟩
  rw [if_neg h1] at h ⊢
  by_cases h2 : st = "mysql_snapshot_cdc"
  · subst h2
    rw [if_pos rfl] at h ⊢
    by_cases hcdc : snapshotCDCPhase rec.metadata = "cdc"
    · rw [if_pos hcdc] at h ⊢
      obtain ⟨hp, hs⟩ := mysqlBinlogOrder_packed h
      rw [hs, hst, fieldsFor, if_pos hcdc]
      exact ⟨hp, scopeSource_orderScope _ (by decide)⟩
    rw [if_neg hcdc] at h ⊢
    by_cases hsnap : snapshotCDCPhase rec.metadata = "snapshot"
    · rw [if_pos hsnap] at h ⊢
      rw [fieldsFor, if_neg hcdc]
      exact mysqlSnapshotHandoffOrder_packed hst h
    · rw [if_neg hsnap] at h
      simp [unavailableOrder] at h
  rw [if_neg h2] at h ⊢
  by_cases h3 : st = "postgres_cdc"
  · subst h3
    rw [if_pos rfl] at h ⊢
    obtain ⟨hp, hs⟩ := postgresOrder_packed h
    rw [hs]
    exact ⟨hp, scopeSource_orderScope _ (by decide)⟩
  rw [if_neg h3] at h ⊢
  by_cases h4 : st = "kafka"
  · subst h4
    rw [if_pos rfl] at h ⊢
    obtain ⟨hp, hs⟩ := kafkaOrder_packed h
    rw [hs]
    exact ⟨hp, scopeSource_kafkaOrderScope _⟩
  rw [if_neg h4] at h ⊢
  by_cases h5 : st = "mysql_batch"
  · subst h5
    rw [if_pos rfl] at h ⊢
    obtain ⟨hp, hs⟩ := cursorOrder_packed h
    rw [hs, hst]
    exact ⟨hp, scopeSource_orderScope _ (by decide)⟩
  rw [if_neg h5] at h
  split at h <;> simp [unavailableOrder] at h

/-- The position of `a` comes before that of `b`. -/
def SourceOrderResult.Before (a b : SourceOrderResult) : Prop :=
  a.major < b.major ∨ a.major = b.major ∧ a.minor < b.minor

instance (a b : SourceOrderResult) : Decidable (a.Before b) := inferInstanceAs (Decidable (_ ∨ _))

/-- **Versions follow positions** within a scope. -/
theorem version_lt_iff {a b : Record} (ha : (sourceOrder a).versionAvailable = true)
    (hb : (sourceOrder b).versionAvailable = true) (hscope : (sourceOrder a).scope = (sourceOrder b).scope) :
    (sourceOrder a).version < (sourceOrder b).version ↔ (sourceOrder a).Before (sourceOrder b) := by
  obtain ⟨⟨⟨hva, hma⟩, -, -⟩, hsa⟩ := sourceOrder_packed ha
  obtain ⟨⟨⟨hvb, hmb⟩, -, -⟩, hsb⟩ := sourceOrder_packed hb
  have hst : canonicalRecordSourceType a.metadata = canonicalRecordSourceType b.metadata := by
    apply String.toList_injective
    rw [← hsa, ← hsb, hscope]
  rw [hst] at hva hma
  generalize versionLayout (canonicalRecordSourceType b.metadata) = layout at *
  generalize 2 ^ layout.2 = base at *
  rw [hva, hvb]
  constructor
  · intro hlt
    rcases Nat.lt_trichotomy (sourceOrder a).major (sourceOrder b).major with h | h | h
    · exact .inl h
    · rw [h] at hlt
      exact .inr ⟨h, by omega⟩
    · have hmul : ((sourceOrder b).major + 1) * base ≤ (sourceOrder a).major * base := Nat.mul_le_mul_right _ h
      rw [Nat.add_mul] at hmul
      omega
  · rintro (h | ⟨h, hminor⟩)
    · have hmul : ((sourceOrder a).major + 1) * base ≤ (sourceOrder b).major * base := Nat.mul_le_mul_right _ h
      rw [Nat.add_mul] at hmul
      omega
    · rw [h]
      omega

/-! ## The order of the source -/

def versionFields (sourceType : String) (version : Nat) : Nat × Nat :=
  let layout := versionLayout sourceType
  ((version - layout.1) / 2 ^ layout.2, (version - layout.1) % 2 ^ layout.2)

theorem SourceOrderResult.Packed.fields {r : SourceOrderResult}
    (h : r.Packed (versionLayout sourceType)) : versionFields sourceType r.version = (r.major, r.minor) := by
  obtain ⟨hversion, hminor⟩ := h
  have hpos : 0 < 2 ^ (versionLayout sourceType).2 := Nat.two_pow_pos _
  simp only [versionFields]
  rw [hversion, Nat.add_sub_cancel_left, Nat.mul_comm, Nat.mul_add_div hpos, Nat.mul_add_mod,
    Nat.div_eq_of_lt hminor, Nat.mod_eq_of_lt hminor, Nat.add_zero]

end OpenEtl
