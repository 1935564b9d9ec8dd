import OpenEtl.Core.Identity

/-!
# The identity gate of a linear replay (`server/dlq_replay_identity.go`)

A dead letter keeps, besides its record, what was known of the record's identity when it failed. For a sink that takes
its key columns from the records a replay looks at that first: a record whose identity is complete is replayed as it
is, of any other the key is built again from the row, and where that cannot be done the row is blocked.

| here | there |
| --- | --- |
| `IdentityContext` | `core.DLQIdentityContext` (core/dlq_identity.go:42), as far as a replay reads it |
| `newDLQIdentityContext` | `core.NewDLQIdentityContext` (core/dlq_identity.go:65) |
| `reconstructDLQRecordIdentity` | `core.ReconstructDLQRecordIdentity` (core/record_contract.go:533) |
| `Gate.verdict` | what `prepareLinearDLQReplay` (:29) decides |
| `Gate.admits` | what `validateLinearReplayIdentity` (:101) decides |
-/

namespace OpenEtl.Server

open List

/-- `core.DLQReplayState`. -/
inductive ReplayState
  | pending | repairRequired | quarantined | sinkAcked
  | other (text : String)
deriving DecidableEq, Repr

def ReplayState.text : ReplayState → String
  | .pending => "pending"
  | .repairRequired => "repair_required"
  | .quarantined => "quarantined"
  | .sinkAcked => "sink_acked"
  | .other text => text

/-- `core.DLQReplayProvenance`; a row without one is read as `legacyUnknown`. -/
inductive Provenance
  | normalFlow | reconstructed | legacyUnknown | legacyVerified
deriving DecidableEq, Repr

def Provenance.text : Provenance → String
  | .normalFlow => "normal_flow"
  | .reconstructed => "contract_reconstructed"
  | .legacyUnknown => "legacy_unknown"
  | .legacyVerified => dlqReplayProvenanceLegacyVerified

structure IdentityContext where
  primaryKeyColumns : List String := []
  formatContractID : String := ""
  beforeImageState : BeforeImageState := .unset
  provenance : Provenance := .normalFlow
  replayState : ReplayState := .pending
  replayAttempt : Int := 0
  replayError : String := ""
deriving DecidableEq, Repr

def newDLQIdentityContext (record : Record) : IdentityContext :=
  { primaryKeyColumns := record.metadata.primaryKeyColumns
    formatContractID := record.metadata.formatContractID
    beforeImageState := record.metadata.beforeImageState }

/-- What a replay reads of `storage.DeadLetter`. -/
structure DeadLetter extends IdentityContext where
  id : Int
  record : Record
  /-- in RFC 3339 form, empty for the zero time -/
  timestamp : String := ""
  dagNode : String := ""
deriving DecidableEq, Repr

abbrev DeadLetter.acked (d : DeadLetter) : Prop := d.replayState = .sinkAcked

/-! ## Building the key again -/

def formatContractOpenETLEnvelopeV1 : String := "openetl.envelope/v1"
def formatContractDebeziumEnvelopeV1 : String := "debezium.envelope/v1"

def knownContract (id : String) : Bool :=
  id = formatContractCanalJSONV1 || id = formatContractOpenETLEnvelopeV1 || id = formatContractDebeziumEnvelopeV1

/-- The record with the facts of its row. -/
def withContext (record : Record) (ctx : IdentityContext) : Record :=
  { record with metadata := { record.metadata with
      primaryKeyColumns := ctx.primaryKeyColumns
      formatContractID := ctx.formatContractID
      beforeImageState := ctx.beforeImageState
      replayProvenance := ctx.provenance.text } }

/-- The row image the key is read from. -/
def keyImage (record : Record) (ctx : IdentityContext) : Data :=
  if record.operation = .update then
    beforeImageOf record
      (ctx.formatContractID = formatContractCanalJSONV1 && canalBeforeStateAllowsDataFallback ctx.beforeImageState)
  else record.data

def keyComponent (image : Data) (column : String) : Option Value :=
  (image.get? column).filter fun v => !identityValueEmpty v

/-- A verified legacy row may not change this component of its key. -/
def componentChanged (record : Record) (key : Data) (column : String) : Bool :=
  (keyComponent record.data column).all fun after => !identityValuesEqual ((key.get? column).getD .null) after

def reconstructDLQRecordIdentity (record : Record) (ctx : IdentityContext) : Record × RecordIdentityResult :=
  let rebuilt := withContext record ctx
  let update : Bool := record.operation = .update
  match normalizedPKColumns ctx.primaryKeyColumns with
  | .error reason => (rebuilt, { reason := some reason })
  | .ok columns =>
    if knownContract ctx.formatContractID = false ∧ ctx.provenance ≠ .legacyVerified then
      (rebuilt, { columns, reason := some .formatContractUnknown })
    else
      let image := keyImage record ctx
      let values : Data := columns.filterMap fun c => (keyComponent image c).map fun v => (c, v)
      let missingColumns := columns.filter fun c => (keyComponent image c).isNone
      if missingColumns ≠ [] then
        let reason : RecordIdentityReason := if update then .beforeKeyMissing else .dataKeyMissing
        (rebuilt, { columns, values, reason := some reason, missingColumns, beforeImage := update })
      else
        match columns.find? fun c => ctx.provenance = .legacyVerified && update && componentChanged record values c with
        | some c =>
          let reason := some .legacyKeyChangeUnsupported
          (rebuilt, { columns, values, reason, missingColumns := [c], beforeImage := true })
        | none =>
          match marshalObject values with
          | none => (rebuilt, { columns, values, reason := some .keyInvalidJSON })
          | some encoded =>
            let rebuilt := { rebuilt with metadata := { rebuilt.metadata with key := encoded }, rejection := none }
            (rebuilt, recordIdentity rebuilt)

/-- A record that was rebuilt carries no rejection any more. -/
theorem reconstruct_complete (record : Record) (ctx : IdentityContext) :
    (reconstructDLQRecordIdentity record ctx).2.complete = true →
      (reconstructDLQRecordIdentity record ctx).1.rejection = none := by
  unfold reconstructDLQRecordIdentity
  split
  · simp
  dsimp only
  split
  · simp
  split
  · simp
  split
  · simp
  split
  · simp
  · intro _
    rfl

/-! ## The gate -/

/-- What the gate reads of the spec. -/
structure Gate where
  /-- `pipeline.MetadataIdentityRequired(spec)` -/
  required : Bool := false
  /-- `pk_columns` of the sink -/
  pkColumns : List String := []
deriving DecidableEq, Repr

def sameStringSet (left right : List String) : Bool := left.isPerm right

/-- The row of a complete record: what is missing in its context is taken from the record. -/
def proven (item : DeadLetter) : DeadLetter :=
  { item with
    primaryKeyColumns :=
      if item.primaryKeyColumns = [] then item.record.metadata.primaryKeyColumns else item.primaryKeyColumns
    formatContractID :=
      if item.formatContractID = "" then item.record.metadata.formatContractID else item.formatContractID
    provenance := if item.provenance = .legacyUnknown then .reconstructed else item.provenance
    replayState := if item.provenance = .legacyUnknown then .pending else item.replayState }

def provenChanged (item : DeadLetter) : Bool :=
  item.primaryKeyColumns = [] || (item.formatContractID = "" && item.record.metadata.formatContractID ≠ "") ||
    item.provenance = .legacyUnknown

/-- The record carries the provenance of its row. -/
def stamp (item : DeadLetter) : DeadLetter :=
  { item with record := { item.record with
      metadata := { item.record.metadata with replayProvenance := item.provenance.text } } }

def reconstructed (item : DeadLetter) (rebuilt : Record) : DeadLetter :=
  stamp { item with
    record := rebuilt
    provenance := if item.provenance = .legacyVerified then .legacyVerified else .reconstructed
    replayState := .pending
    replayError := "" }

def reasonText (result : RecordIdentityResult) : String :=
  (result.reason.map RecordIdentityReason.text).getD "" ++
    if result.missingColumns = [] then "" else " missing_columns=" ++ ",".intercalate result.missingColumns

/-- The reasons that no repair can help. -/
def blockedState : Option RecordIdentityReason → ReplayState
  | some .formatContractUnknown | some .beforeStateInvalid | some .legacyKeyChangeUnsupported => .quarantined
  | _ => .repairRequired

inductive Verdict
  /-- the row to go on with; a row that has changed is stored first, and `persist` says as what -/
  | pass (item : DeadLetter) (persist : Option String)
  | block (state : ReplayState) (reason : String)

def Gate.verdict (G : Gate) (item : DeadLetter) : Verdict :=
  if G.required = false then .pass item none
  else if item.provenance = .legacyVerified ∧
      (G.pkColumns = [] ∨ sameStringSet G.pkColumns item.primaryKeyColumns = false) then
    .block .quarantined
      "verified legacy provenance requires original primary_key_columns to exactly match sink.config.pk_columns"
  else if (recordIdentity item.record).complete then
    .pass (stamp (proven item)) (if provenChanged item then some "persist proven dlq identity: " else none)
  else if item.provenance = .legacyUnknown then
    .block .repairRequired "legacy row has no frozen identity provenance; repair it explicitly before replay"
  else
    match reconstructDLQRecordIdentity item.record item.toIdentityContext with
    | (rebuilt, result) =>
      if result.complete then .pass (reconstructed item rebuilt) (some "persist reconstructed dlq identity: ")
      else .block (blockedState result.reason) (reasonText result)

/-- The output of the transforms has an identity where one is required. -/
def Gate.admits (G : Gate) (rec : Record) : Bool := !G.required || (recordIdentity rec).complete

/-! ## What the gate does to a row -/

/-- What passes the gate is the same row, not acknowledged yet. -/
structure Verdict.Keeps (item : DeadLetter) (v : Verdict) : Prop where
  pass : ∀ p what, v = .pass p what → p.id = item.id ∧ p.dagNode = item.dagNode ∧ ¬p.acked
  block : ∀ state reason, v = .block state reason → state ≠ .sinkAcked

theorem blockedState_ne_sinkAcked (reason : Option RecordIdentityReason) : blockedState reason ≠ .sinkAcked := by
  unfold blockedState
  split <;> nofun

variable (G : Gate) {item : DeadLetter}

theorem Gate.verdict_keeps (hun : ¬item.acked) : (G.verdict item).Keeps item := by
  have hpass : ∀ (p : DeadLetter) (what : Option String), p.id = item.id → p.dagNode = item.dagNode → ¬p.acked →
      (Verdict.pass p what).Keeps item := by
    intro p what hid hnode hack
    refine ⟨fun p' _ h => ?_, fun _ _ h => (by cases h)⟩
    obtain ⟨rfl, -⟩ := Verdict.pass.inj h
    exact ⟨hid, hnode, hack⟩
  have hblock : ∀ (state : ReplayState) (reason : String), state ≠ .sinkAcked →
      (Verdict.block state reason).Keeps item := by
    intro state reason hstate
    refine ⟨fun _ _ h => (by cases h), fun _ _ h => ?_⟩
    obtain ⟨rfl, -⟩ := Verdict.block.inj h
    exact hstate
  have hproven : ¬(stamp (proven item)).acked := by
    unfold stamp proven DeadLetter.acked
    simp only
    split
    · nofun
    · exact hun
  unfold Gate.verdict
  split
  · exact hpass item _ rfl rfl hun
  split
  · exact hblock _ _ (by decide)
  split
  · exact hpass _ _ rfl rfl hproven
  split
  · exact hblock _ _ (by decide)
  rcases reconstructDLQRecordIdentity item.record item.toIdentityContext with ⟨rebuilt, result⟩
  dsimp only
  split
  · exact hpass (reconstructed item rebuilt) _ rfl rfl (show ReplayState.pending ≠ .sinkAcked by decide)
  · exact hblock _ _ (blockedState_ne_sinkAcked _)

/-- A rejection is cleared exactly where the record is rebuilt: where an identity is required and is not complete. -/
theorem Gate.verdict_rejection {p : DeadLetter} {what : Option String} (h : G.verdict item = .pass p what) :
    p.record.rejection = if G.required = true ∧ (recordIdentity item.record).complete = false then none
      else item.record.rejection := by
  unfold Gate.verdict at h
  split at h
  · rename_i hopen
    cases h
    rw [if_neg (by simp [hopen])]
  rename_i hreq
  split at h
  · cases h
  split at h
  · rename_i hcomplete
    cases h
    rw [if_neg (by simp [hcomplete])]
    rfl
  rename_i hcomplete
  split at h
  · cases h
  have hclear := reconstruct_complete item.record item.toIdentityContext
  rcases hr : reconstructDLQRecordIdentity item.record item.toIdentityContext with ⟨rebuilt, result⟩
  rw [hr] at h hclear
  dsimp only at h
  split at h
  · rename_i hok
    cases h
    rw [if_pos ⟨by simpa using hreq, by simpa using hcomplete⟩]
    exact hclear hok
  · cases h

end OpenEtl.Server
