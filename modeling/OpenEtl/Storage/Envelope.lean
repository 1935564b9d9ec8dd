import Mathlib.Order.Basic
import OpenEtl.Core.Errors
import OpenEtl.Lib.JsonValue

/-!
# The checkpoint envelope (`checkpoint/envelope.go`)

| here | there |
| --- | --- |
| `persisted` | what the runner saves (pipeline.go:1740-1747; the executor's in executor.go:976-983) |
| `probe`, `parseEnvelope` | `ParseEnvelope` (:50) |

Positions are JSON values, `Numerals` the integers among their numbers and `inRange` the numbers that fit a `float64`.
A decoder takes a member for a field also when the name differs in case, and reads every member of a field in turn.

The envelope is told from a position by two field names of the position itself.
-/

namespace OpenEtl.Checkpoint

open List JsonValue
variable {ν : Type} (N : Numerals ν) (inRange : ν → Bool) (job : String)

def envelopeVersion : Int := 1

/-- `json.Valid` refuses what is nested deeper. -/
def maxNestingDepth : Nat := 10000

def envelopeMembers (source : JsonValue ν) (state : List (String × String)) (sinkCommit : List (String × JsonValue ν)) :
    List (String × JsonValue ν) :=
  [("version", .num (N.ofInt envelopeVersion)), ("source", source)] ++
    (if state.isEmpty then [] else [("state", .obj (state.map fun p => (p.1, .str p.2)))]) ++
    (if sinkCommit.isEmpty then [] else [("sink_commit", .obj sinkCommit)]) ++
    [("delivery_mode", .str "at_least_once")]

def buildEnvelope (source : JsonValue ν) (state : List (String × String)) (sinkCommit : List (String × JsonValue ν)) :
    Except Err (JsonValue ν) :=
  if maxNestingDepth < source.depth then .error { msg := "source position is not valid JSON" }
  else .ok (.obj (envelopeMembers N source state sinkCommit))

def persisted (source : JsonValue ν) (state : List (String × String)) (sinkCommit : List (String × JsonValue ν)) :
    Except Err (JsonValue ν) :=
  if state.isEmpty && sinkCommit.isEmpty then .ok source else buildEnvelope N source state sinkCommit

/-! ## Decoding -/

/-- The members a decoder takes for a field. -/
def named (names : List String) (name : String) (ms : List (String × JsonValue ν)) : List (JsonValue ν) :=
  (ms.filter fun m => fieldOf names m.1 == some name).map (·.2)

/-- An `int` field: a null leaves it as it is. -/
def decodeInt (js : List (JsonValue ν)) : Option Int :=
  js.foldlM (fun version j =>
    match j with
    | .null => some version
    | .num n => (N.toInt n).filter fun v => IntType.int.lo ≤ v ∧ v ≤ IntType.int.hi
    | _ => none) 0

def probeNames : List String := ["version", "source"]

/-- The version and the source of a document; a `source` that is null is there. -/
def probe : JsonValue ν → Option (Int × Option (JsonValue ν))
  | .null => some (0, none)
  | .obj ms => (decodeInt N (named probeNames "version" ms)).map fun v => (v, (named probeNames "source" ms).getLast?)
  | _ => none

def isText : JsonValue ν → Bool
  | .null | .str _ => true
  | _ => false

def isTextMap : JsonValue ν → Bool
  | .null => true
  | .obj ms => ms.all fun m => isText m.2
  | _ => false

def isAnyMap : JsonValue ν → Bool
  | .null => true
  | .obj ms => (numsMembers ms).all inRange
  | _ => false

def envelopeNames : List String := probeNames ++ ["state", "sink_commit", "delivery_mode", "metadata"]

/-- The fields of `Envelope` that the probe does not read can be decoded. -/
def decodes (ms : List (String × JsonValue ν)) : Bool :=
  (named envelopeNames "state" ms).all isTextMap && (named envelopeNames "sink_commit" ms).all (isAnyMap inRange) &&
    (named envelopeNames "delivery_mode" ms).all isText && (named envelopeNames "metadata" ms).all (isAnyMap inRange)

/-- The source of an envelope; `none` is a legacy position. -/
def parseEnvelope (doc : JsonValue ν) : Except Err (Option (JsonValue ν)) :=
  match probe N doc, doc with
  | some (version, source), .obj ms =>
    if version = 0 ∧ source.isNone then .ok none
    else if version ≠ envelopeVersion then
      .error { msg := "unsupported checkpoint envelope version " ++ toString version }
    else if decodes inRange ms then .ok (some (source.getD (.obj [])))
    else .error { msg := "unmarshal checkpoint envelope" }
  | some _, _ => .ok none
  | none, _ => .error { msg := "unmarshal checkpoint envelope" }

def isMissing : Option (JsonValue ν) → Bool
  | none | some .null => true
  | _ => false

/-- The check that the source of an envelope is valid JSON (:122) always passes, the document being valid. -/
def unwrapForSource (doc : JsonValue ν) : Except Err (JsonValue ν) :=
  let fail (reason : String) : Except Err (JsonValue ν) := .error { msg := "checkpoint \"" ++ job ++ "\" " ++ reason }
  if isMissing (some doc) then fail "has a null source position"
  else if maxNestingDepth < doc.depth then fail "source position is not valid JSON"
  else
    match probe N doc with
    | none => fail "cannot be decoded"
    | some (version, source) =>
      if version = envelopeVersion ∧ isMissing source then fail "envelope has no source position"
      else
        match parseEnvelope N inRange doc with
        | .error e => fail ("envelope is invalid: " ++ e.msg)
        | .ok none => .ok doc
        | .ok (some source) => if isMissing (some source) then fail "envelope has no source position" else .ok source

/-- A position that is not taken for an envelope. -/
def Legacy (p : JsonValue ν) : Prop :=
  ∃ ms, p = .obj ms ∧ p.depth ≤ maxNestingDepth ∧ decodeInt N (named probeNames "version" ms) = some 0 ∧
    named probeNames "source" ms = []

variable {N inRange job}

/-! ## A position saved as it is -/

variable {ms : List (String × JsonValue ν)}

theorem parseEnvelope_ok {r : Option (JsonValue ν)} (h : parseEnvelope N inRange (.obj ms) = .ok r) :
    (r = none ∧ decodeInt N (named probeNames "version" ms) = some 0 ∧ named probeNames "source" ms = []) ∨
      (r = some ((named probeNames "source" ms).getLast?.getD (.obj [])) ∧
        decodeInt N (named probeNames "version" ms) = some envelopeVersion) := by
  cases hv : decodeInt N (named probeNames "version" ms) with
  | none => simp [parseEnvelope, probe, hv] at h
  | some v =>
    simp only [parseEnvelope, probe, hv, Option.map_some] at h
    split at h
    · rename_i hlegacy
      exact .inl ⟨(Except.ok.inj h).symm, by rw [hlegacy.1],
        getLast?_eq_none_iff.mp (Option.isNone_iff_eq_none.mp hlegacy.2)⟩
    · split at h
      · simp at h
      · rename_i hversion
        split at h
        · exact .inr ⟨(Except.ok.inj h).symm, by rw [not_not.mp hversion]⟩
        · simp at h

/-- What is handed to the source is the document itself or its `source` member. -/
theorem unwrapForSource_ok {doc q : JsonValue ν} (h : unwrapForSource N inRange job doc = .ok q) :
    (Legacy N doc ∧ q = doc) ∨ ∃ ms, doc = .obj ms ∧ (named probeNames "source" ms).getLast? = some q := by
  simp only [unwrapForSource] at h
  split at h
  · simp at h
  rename_i hnull
  split at h
  · simp at h
  rename_i hdepth
  cases doc with
  | obj ms =>
    split at h
    · simp at h
    rename_i version source hprobe
    obtain ⟨v, hv, hvs⟩ := Option.map_eq_some_iff.mp hprobe
    cases hvs
    split at h
    · simp at h
    rename_i hsource
    split at h
    · simp at h
    · rename_i hparse
      obtain ⟨-, hlegacy⟩ | ⟨hs, -⟩ := parseEnvelope_ok hparse
      · exact .inl ⟨⟨ms, rfl, Nat.not_lt.mp hdepth, hlegacy⟩, (Except.ok.inj h).symm⟩
      · cases hs
    · rename_i s hparse
      obtain ⟨hs, -⟩ | ⟨hs, hversion⟩ := parseEnvelope_ok hparse
      · cases hs
      split at h
      · simp at h
      cases h
      cases hlast : (named probeNames "source" ms).getLast? with
      | none => exact absurd ⟨Option.some.inj (hv.symm.trans hversion), by rw [hlast]; rfl⟩ hsource
      | some s' => exact .inr ⟨ms, rfl, by rw [Option.some.inj hs, hlast, Option.getD_some]⟩
  | null => exact absurd rfl hnull
  | _ => simp [probe] at h

theorem depth_lt_of_mem {m : String × JsonValue ν} (h : m ∈ ms) : m.2.depth < (obj ms).depth := by
  rw [depth, Nat.lt_succ_iff]
  induction ms with
  | nil => simp at h
  | cons p ms ih =>
    rcases mem_cons.mp h with rfl | h
    · exact Nat.le_max_left _ _
    · exact Nat.le_trans (ih h) (Nat.le_max_right _ _)

theorem unwrap_position_iff (p : JsonValue ν) : unwrapForSource N inRange job p = .ok p ↔ Legacy N p := by
  constructor
  · intro h
    rcases unwrapForSource_ok h with ⟨hlegacy, -⟩ | ⟨ms, rfl, hlast⟩
    · exact hlegacy
    · -- a member of the position is nested less deeply than the position
      obtain ⟨m, hm, heq⟩ := mem_map.mp (mem_of_getLast? hlast)
      have hlt := depth_lt_of_mem (mem_of_mem_filter hm)
      rw [heq] at hlt
      exact absurd hlt (Nat.lt_irrefl _)
  · rintro ⟨ms, rfl, hdepth, hversion, hsource⟩
    have hprobe : probe N (.obj ms) = some (0, none) := by simp [probe, hversion, hsource]
    have hparse : parseEnvelope N inRange (.obj ms) = .ok none := by simp [parseEnvelope, hprobe]
    simp [unwrapForSource, isMissing, Nat.not_lt.mpr hdepth, hprobe, hparse, envelopeVersion]

/-! ## A position saved in an envelope -/

section Envelope

variable (p : JsonValue ν) (state : List (String × String)) (sinkCommit : List (String × JsonValue ν))

theorem named_envelopeMembers :
    named probeNames "version" (envelopeMembers N p state sinkCommit) = [.num (N.ofInt envelopeVersion)] ∧
      named probeNames "source" (envelopeMembers N p state sinkCommit) = [p] := by
  have hversion : fieldOf probeNames "version" = some "version" := by decide
  have hsource : fieldOf probeNames "source" = some "source" := by decide
  have hstate : fieldOf probeNames "state" = none := by decide
  have hcommit : fieldOf probeNames "sink_commit" = none := by decide
  have hmode : fieldOf probeNames "delivery_mode" = none := by decide
  unfold envelopeMembers
  split <;> split <;> simp [named, hversion, hsource, hstate, hcommit, hmode]

/-- Only a number of the sink's commit can be refused. -/
theorem decodes_envelopeMembers :
    decodes inRange (envelopeMembers N p state sinkCommit) ↔ ∀ n ∈ numsMembers sinkCommit, inRange n := by
  have hversion : fieldOf envelopeNames "version" = some "version" := by decide
  have hsource : fieldOf envelopeNames "source" = some "source" := by decide
  have hstate : fieldOf envelopeNames "state" = some "state" := by decide
  have hcommit : fieldOf envelopeNames "sink_commit" = some "sink_commit" := by decide
  have hmode : fieldOf envelopeNames "delivery_mode" = some "delivery_mode" := by decide
  unfold envelopeMembers
  cases state with
  | nil =>
    cases sinkCommit with
    | nil => simp [decodes, named, hversion, hsource, hmode, isText, numsMembers]
    | cons _ _ => simp [decodes, named, hversion, hsource, hcommit, hmode, isText, isAnyMap]
  | cons _ _ =>
    cases sinkCommit with
    | nil => simp [decodes, named, hversion, hsource, hstate, hmode, isText, isTextMap, numsMembers]
    | cons _ _ => simp [decodes, named, hversion, hsource, hstate, hcommit, hmode, isText, isTextMap, isAnyMap]

theorem depthMembers_texts : depthMembers (state.map fun p => (p.1, (str p.2 : JsonValue ν))) = 0 := by
  induction state with
  | nil => rfl
  | cons p state ih => simp [depthMembers, depth, ih]

theorem depth_envelope_le_iff :
    (obj (envelopeMembers N p state sinkCommit)).depth ≤ maxNestingDepth ↔
      p.depth + 1 ≤ maxNestingDepth ∧ depthMembers sinkCommit + 2 ≤ maxNestingDepth := by
  unfold envelopeMembers
  cases state with
  | nil =>
    cases sinkCommit with
    | nil => simp [depth, depthMembers, maxNestingDepth]
    | cons _ _ =>
      simp [depth, depthMembers]
      omega
  | cons pair state =>
    have htexts := depthMembers_texts (ν := ν) (pair :: state)
    cases sinkCommit with
    | nil | cons _ _ =>
      simp [depth, depthMembers] at htexts ⊢
      omega

theorem unwrap_envelope_iff :
    unwrapForSource N inRange job (.obj (envelopeMembers N p state sinkCommit)) = .ok p ↔
      p ≠ .null ∧ p.depth + 1 ≤ maxNestingDepth ∧ depthMembers sinkCommit + 2 ≤ maxNestingDepth ∧
        ∀ n ∈ numsMembers sinkCommit, inRange n := by
  obtain ⟨hversion, hsource⟩ := named_envelopeMembers (N := N) p state sinkCommit
  have hprobe : probe N (.obj (envelopeMembers N p state sinkCommit)) = some (envelopeVersion, some p) := by
    simp [probe, hversion, hsource, decodeInt, N.toInt_ofInt, envelopeVersion, IntType.lo, IntType.hi]
  have hparse : parseEnvelope N inRange (.obj (envelopeMembers N p state sinkCommit)) =
      if decodes inRange (envelopeMembers N p state sinkCommit) then .ok (some p)
      else .error { msg := "unmarshal checkpoint envelope" } := by
    simp [parseEnvelope, hprobe]
  rw [← and_assoc (a := p.depth + 1 ≤ _), ← depth_envelope_le_iff (N := N) p state sinkCommit,
    ← decodes_envelopeMembers (N := N) p state sinkCommit]
  simp only [unwrapForSource, hprobe, hparse]
  by_cases hp : p = .null
  · simp [hp, isMissing]
    split <;> simp
  · by_cases hd : maxNestingDepth < (obj (envelopeMembers N p state sinkCommit)).depth
    · simp [isMissing, hd, Nat.not_le.mpr hd]
    · by_cases hdec : decodes inRange (envelopeMembers N p state sinkCommit) = true
      · simp [hp, hd, hdec, Nat.not_lt.mp hd, isMissing]
      · simp [hp, hd, hdec, isMissing]

/-- **A checkpoint the runner saved** gives its source position back iff the position, saved as it is, is not taken for
an envelope or, saved in one, is not null, and it and the sink's commit are what the decoder accepts. -/
theorem position_restored_iff {doc : JsonValue ν} (h : persisted N p state sinkCommit = .ok doc) :
    unwrapForSource N inRange job doc = .ok p ↔
      if state.isEmpty && sinkCommit.isEmpty then Legacy N p
      else p ≠ .null ∧ p.depth + 1 ≤ maxNestingDepth ∧ depthMembers sinkCommit + 2 ≤ maxNestingDepth ∧
        ∀ n ∈ numsMembers sinkCommit, inRange n := by
  unfold persisted at h
  by_cases hplain : (state.isEmpty && sinkCommit.isEmpty) = true
  · rw [if_pos hplain] at h ⊢
    cases h
    exact unwrap_position_iff p
  · rw [if_neg hplain] at h ⊢
    unfold buildEnvelope at h
    split at h
    · simp at h
    · cases h
      exact unwrap_envelope_iff p state sinkCommit

end Envelope

def intNumerals : Numerals Int := ⟨id, some, fun _ => rfl⟩

theorem redis_position_wrapped :
    unwrapForSource intNumerals (fun _ => true) "orders" (.obj (envelopeMembers intNumerals (.num 12) []
      [("record_count", .num 3)])) = .ok (.num 12) :=
  (position_restored_iff (.num 12) [] [("record_count", .num 3)] (by simp [persisted, buildEnvelope,
    depth])).mpr (by simp [maxNestingDepth, depth, depthMembers])

/-- The count a redis source saves is refused, a position with a version of its own is refused as an envelope, one with
a `version` of 1 and a `source` loses all but the latter, and null is lost in an envelope. -/
theorem positions_not_restored :
    (persisted intNumerals (.num 12) [] [] = .ok (.num 12) ∧
      unwrapForSource intNumerals (fun _ => true) "orders" (.num 12) =
        .error { msg := "checkpoint \"orders\" cannot be decoded" }) ∧
    unwrapForSource intNumerals (fun _ => true) "orders" (.obj [("version", .num 2), ("offset", .num 7)]) =
      .error { msg := "checkpoint \"orders\" envelope is invalid: unsupported checkpoint envelope version 2" } ∧
    unwrapForSource intNumerals (fun _ => true) "orders" (.obj [("version", .num 1), ("source", .str "db"),
      ("offset", .num 7)]) = .ok (.str "db") ∧
    (persisted intNumerals .null [("t", "v1")] [] = .ok (.obj (envelopeMembers intNumerals .null [("t", "v1")] [])) ∧
      unwrapForSource intNumerals (fun _ => true) "orders" (.obj (envelopeMembers intNumerals .null [("t", "v1")] [])) =
        .error { msg := "checkpoint \"orders\" envelope has no source position" }) := by
  refine ⟨⟨rfl, ?_⟩, ?_, ?_, rfl, ?_⟩
  all_goals
    with_unfolding_all rfl

end OpenEtl.Checkpoint
