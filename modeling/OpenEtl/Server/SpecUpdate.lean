import OpenEtl.Storage.Catalog

/-!
# Updating a linear spec (`server/server.go:2219-2355`)

| here | there |
| --- | --- |
| `handleUpdate` | the linear branch of the update handler, from the comparison on |

The handler resets the checkpoint if both comparisons say so. The first looks at connector types only, the second at
the source's type, table, query and database, and at the last three only where both specs give them. Neither looks at
host, tables, path, topic or url. Nothing is compared for a pipeline of which the server has no spec in memory: one that
it could not restore when it started.
-/

namespace OpenEtl.Server.SpecUpdate

open Storage
open List

/-- `SourceSpec`, `SinkSpec`, `TransformSpec`. -/
structure Component where
  type : String
  config : Data := []
deriving DecidableEq, Repr

/-- `pipeline.Spec`, as far as an update reads it. -/
structure LinearSpec where
  name : String
  source : Component
  transforms : List Component := []
  sink : Component
  /-- `Parallelism.LogicalShardCount()` -/
  logicalShards : Nat := 1
deriving DecidableEq, Repr

def LinearSpec.mode (spec : LinearSpec) : Mode := .sharded spec.logicalShards

def stringOf : Option Value → String
  | some (.str s) => s
  | _ => ""

/-- `v, _ := config[key].(string)`. -/
def configString (config : Data) (key : String) : String := stringOf (config.get? key)

/-! ## The comparisons -/

def specChanged (old new : LinearSpec) : Bool :=
  old.source.type != new.source.type || old.sink.type != new.sink.type ||
    old.transforms.length != new.transforms.length ||
    (old.transforms.zip new.transforms).any fun (o, n) => o.type != n.type

/-- Both specs give the field, and differently. -/
def fieldChanged (key : String) (old new : LinearSpec) : Bool :=
  let o := configString old.source.config key
  let n := configString new.source.config key
  o != "" && n != "" && o != n

def isCheckpointIncompatible (old new : LinearSpec) : Bool :=
  old.source.type != new.source.type || fieldChanged "table" old new || fieldChanged "query" old new ||
    fieldChanged "database" old new

structure UpdateRequest where
  spec : LinearSpec
  resetCheckpoint : Bool := false

/-- `req.ResetCheckpoint` after the comparison with the spec that the server has in memory, if it has one. -/
def UpdateRequest.resets (req : UpdateRequest) (oldSpec : Option LinearSpec) : Bool :=
  req.resetCheckpoint || oldSpec.any fun old => specChanged old req.spec && isCheckpointIncompatible old req.spec

/-- The update of a stored pipeline; `specs` is the server's map, `marshal` is `MarshalSpecYAML`. -/
def handleUpdate (d : Like.Dialect) (marshal : LinearSpec → String) (c : Catalog) (id : String)
    (h : c.pipelines id ≠ none) (specs : String → Option LinearSpec) (req : UpdateRequest) : Catalog × Option Err :=
  savePipelineWithVersionOnce d.equal c (savedRow c id h req.spec.name req.spec.mode (marshal req.spec))
    (req.resets (specs id))

/-! ## Datasets -/

/-- What a source reads from. -/
def datasetKeys : List String := ["host", "database", "table", "tables", "query", "path", "topic", "url"]

/-- A field that is missing, null or empty is not given. -/
def given (config : Data) (key : String) : Option Value :=
  (config.get? key).filter fun v => v != .null && v != .str ""

def LinearSpec.dataset (spec : LinearSpec) : String × List (Option Value) :=
  (spec.source.type, datasetKeys.map (given spec.source.config))

/-- The new spec's runner does not resume on other data, and resumes on the same. -/
structure SafeUpdate (d : Like.Dialect) (c c' : Catalog) (id : String) (old : LinearSpec) (req : UpdateRequest) : Prop where
  other : old.dataset ≠ req.spec.dataset → ∀ key ∈ req.spec.mode.keys id, ∀ job, d.equal job key = true →
    c'.checkpoints job = none
  same : old.dataset = req.spec.dataset → req.resetCheckpoint = false → c'.checkpoints = c.checkpoints

/-- The change of the source that the handler notices. -/
def Noticed (old new : LinearSpec) : Prop :=
  old.source.type ≠ new.source.type ∨
    (old.sink.type ≠ new.sink.type ∨ old.transforms.map (·.type) ≠ new.transforms.map (·.type)) ∧
      ∃ key ∈ ["table", "query", "database"], configString old.source.config key ≠ "" ∧
        configString new.source.config key ≠ "" ∧
          configString old.source.config key ≠ configString new.source.config key

variable {old new : LinearSpec}

theorem types_eq_iff (l l' : List Component) :
    l.map (·.type) = l'.map (·.type) ↔
      l.length = l'.length ∧ ((l.zip l').any fun (o, n) => o.type != n.type) = false := by
  induction l generalizing l' with
  | nil => cases l' <;> simp
  | cons o l ih =>
    cases l' with
    | nil => simp
    | cons n l' =>
      simp only [map_cons, List.cons.injEq, ih l', length_cons, Nat.add_right_cancel_iff,
        zip_cons_cons, any_cons, Bool.or_eq_false_iff, bne_eq_false_iff_eq]
      exact and_left_comm

theorem specChanged_iff : specChanged old new = true ↔
    old.source.type ≠ new.source.type ∨ old.sink.type ≠ new.sink.type ∨
      old.transforms.map (·.type) ≠ new.transforms.map (·.type) := by
  rw [Ne, Ne, Ne, types_eq_iff, not_and_or]
  simp [specChanged, or_assoc]

theorem isCheckpointIncompatible_iff : isCheckpointIncompatible old new = true ↔
    old.source.type ≠ new.source.type ∨ ∃ key ∈ ["table", "query", "database"], configString old.source.config key ≠ "" ∧
      configString new.source.config key ≠ "" ∧
        configString old.source.config key ≠ configString new.source.config key := by
  simp [isCheckpointIncompatible, fieldChanged, or_assoc, and_assoc]

theorem noticed_iff : (specChanged old new && isCheckpointIncompatible old new) = true ↔ Noticed old new := by
  rw [Bool.and_eq_true, specChanged_iff, isCheckpointIncompatible_iff, ← or_and_left, Noticed]

/-! ## The same dataset -/

theorem configString_eq (config : Data) (key : String) : configString config key = stringOf (given config key) := by
  rw [configString, given]
  cases config.get? key with
  | none => rfl
  | some v =>
    rw [Option.filter_some]
    split
    · rfl
    · rename_i hempty
      have hv : v = .null ∨ v = .str "" := by simpa [or_iff_not_imp_left] using hempty
      rcases hv with rfl | rfl <;> rfl

theorem given_eq (h : old.dataset = new.dataset) {key : String} (hkey : key ∈ datasetKeys) :
    given old.source.config key = given new.source.config key := by
  have hmap : datasetKeys.map (given old.source.config) = datasetKeys.map (given new.source.config) :=
    congrArg Prod.snd h
  exact map_inj_left.mp hmap key hkey

theorem not_noticed_of_same (h : old.dataset = new.dataset) : ¬ Noticed old new := by
  rintro (hsrc | ⟨-, key, hkey, -, -, hne⟩)
  · exact hsrc (congrArg Prod.fst h)
  · apply hne
    have hmem : key ∈ datasetKeys := by
      simp only [mem_cons, not_mem_nil, or_false] at hkey
      rcases hkey with rfl | rfl | rfl <;> decide
    rw [configString_eq, configString_eq, given_eq h hmem]

/-! ## The update -/

variable {d : Like.Dialect} {marshal : LinearSpec → String} {c : Catalog} {id : String} {h : c.pipelines id ≠ none}
  {specs : String → Option LinearSpec} {req : UpdateRequest}

theorem handleUpdate_keeps (hreset : req.resets (specs id) = false) :
    (handleUpdate d marshal c id h specs req).1.checkpoints = c.checkpoints := by
  simp only [handleUpdate, hreset]
  rfl

/-- A reset that succeeds takes the checkpoints under the id and the new name. -/
theorem handleUpdate_resets (hok : (handleUpdate d marshal c id h specs req).2 = none)
    (hreset : req.resets (specs id) = true) (job : String) :
    (handleUpdate d marshal c id h specs req).1.checkpoints job =
      if d.equal job id = true ∨ d.equal job req.spec.name = true then none else c.checkpoints job := by
  revert hok
  simp only [handleUpdate, savePipelineWithVersionOnce, hreset, if_true]
  split
  · simp [Catalog.deleteCheckpoints, Catalog.save, savedRow]
  · intro hok
    exact absurd hok (Option.some_ne_none _)

/-- A reset is asked for, or the server has the old spec and notices the change. -/
def ResetDue (specs : String → Option LinearSpec) (id : String) (old : LinearSpec) (req : UpdateRequest) : Prop :=
  req.resetCheckpoint = true ∨ specs id ≠ none ∧ Noticed old req.spec

/-- The new runner finds no stored checkpoint, or one that a reset deletes. -/
def Deletes (d : Like.Dialect) (c : Catalog) (specs : String → Option LinearSpec) (id : String) (old : LinearSpec)
    (req : UpdateRequest) : Prop :=
  ∀ key ∈ req.spec.mode.keys id, ∀ job, d.equal job key = true → c.checkpoints job = none ∨
    ResetDue specs id old req ∧ (d.equal job id = true ∨ d.equal job req.spec.name = true)

section

variable (hold : ∀ spec ∈ specs id, spec = old)

include hold

theorem resets_iff : req.resets (specs id) = true ↔ ResetDue specs id old req := by
  rw [UpdateRequest.resets, Bool.or_eq_true, ResetDue]
  cases hspec : specs id with
  | none => simp
  | some spec =>
    obtain rfl := hold spec hspec
    rw [Option.any_some, noticed_iff]
    simp

variable (hok : (handleUpdate d marshal c id h specs req).2 = none)

include hok

theorem gone_iff (job : String) :
    (handleUpdate d marshal c id h specs req).1.checkpoints job = none ↔
      c.checkpoints job = none ∨
        ResetDue specs id old req ∧ (d.equal job id = true ∨ d.equal job req.spec.name = true) := by
  rw [← resets_iff hold]
  by_cases hreset : req.resets (specs id) = true
  · rw [handleUpdate_resets hok hreset]
    by_cases hjob : d.equal job id = true ∨ d.equal job req.spec.name = true <;> simp [hjob, hreset]
  · rw [handleUpdate_keeps (by simpa using hreset)]
    simp [hreset]

theorem safe_of_deletes (hcond : old.dataset = req.spec.dataset ∨ Deletes d c specs id old req) :
    SafeUpdate d c (handleUpdate d marshal c id h specs req).1 id old req where
  other := by
    intro hne key hkey job hjob
    rcases hcond with heq | hdel
    · exact absurd heq hne
    · exact (gone_iff hold hok job).mpr (hdel key hkey job hjob)
  same := by
    intro heq hflag
    apply handleUpdate_keeps
    rw [Bool.eq_false_iff, Ne, resets_iff hold, ResetDue, hflag]
    rintro (hfalse | ⟨-, hnoticed⟩)
    · exact absurd hfalse Bool.false_ne_true
    · exact not_noticed_of_same heq hnoticed

theorem deletes_of_safe (hsafe : SafeUpdate d c (handleUpdate d marshal c id h specs req).1 id old req) :
    old.dataset = req.spec.dataset ∨ Deletes d c specs id old req := by
  by_cases heq : old.dataset = req.spec.dataset
  · exact .inl heq
  · exact .inr fun key hkey job hjob => (gone_iff hold hok job).mp (hsafe.other heq key hkey job hjob)

end

/-- An update that succeeds is safe exactly if it reads the same dataset, or the new runner has no stored
checkpoint but those that the update, asked to reset or having noticed the change, deletes. The server has no spec of
the pipeline in memory, or the one that is replaced. -/
theorem update_safe_iff (d : Like.Dialect) (marshal : LinearSpec → String) (c : Catalog) (id : String)
    (h : c.pipelines id ≠ none) (specs : String → Option LinearSpec) (old : LinearSpec) (hold : ∀ spec ∈ specs id, spec = old)
    (req : UpdateRequest) (hok : (handleUpdate d marshal c id h specs req).2 = none) :
    SafeUpdate d c (handleUpdate d marshal c id h specs req).1 id old req ↔
      old.dataset = req.spec.dataset ∨ Deletes d c specs id old req :=
  ⟨deletes_of_safe hold hok, safe_of_deletes hold hok⟩

/-! ## Changes that go unnoticed -/

def fromMysql (host table : String) (logicalShards : Nat) : LinearSpec where
  name := "orders"
  source := { type := "mysql_batch", config := [("host", .str host), ("table", .str table)] }
  sink := { type := "clickhouse" }
  logicalShards

def fromFile (logicalShards : Nat) : LinearSpec :=
  { fromMysql "" "" logicalShards with source := { type := "file", config := [("path", .str "/data/orders.csv")] } }

def ordersCatalog (logicalShards : Nat) (key : String) : Catalog :=
  catalogOf [("a", stoppedRow "orders", .sharded logicalShards)] rfl [key]

/-- The server has the spec in memory. -/
def restored (spec : LinearSpec) (id : String) : Option LinearSpec := if id = "a" then some spec else none

theorem update_safe_iff_file :
    SafeUpdate sqlite (ordersCatalog 1 "a")
        (handleUpdate sqlite (fun _ => "") (ordersCatalog 1 "a") "a" (by decide) (restored (fromMysql "db1" "t" 1))
          ⟨fromFile 1, false⟩).1 "a" (fromMysql "db1" "t" 1) ⟨fromFile 1, false⟩ ↔
      (fromMysql "db1" "t" 1).dataset = (fromFile 1).dataset ∨
        Deletes sqlite (ordersCatalog 1 "a") (restored (fromMysql "db1" "t" 1)) "a" (fromMysql "db1" "t" 1)
          ⟨fromFile 1, false⟩ :=
  update_safe_iff sqlite (fun _ => "") (ordersCatalog 1 "a") "a" (by decide) (restored (fromMysql "db1" "t" 1))
    (fromMysql "db1" "t" 1) (by simp [restored]) ⟨fromFile 1, false⟩ rfl

/-- Another host, or another table with the same connector types, leaves the checkpoint; another source type
leaves those of shards, and any of a pipeline that was not restored. -/
theorem update_resumes_on_other_data :
    ¬ SafeUpdate sqlite (ordersCatalog 1 "a")
        (handleUpdate sqlite (fun _ => "") (ordersCatalog 1 "a") "a" (by decide) (restored (fromMysql "db1" "t" 1))
          ⟨fromMysql "db2" "t" 1, false⟩).1
        "a" (fromMysql "db1" "t" 1) ⟨fromMysql "db2" "t" 1, false⟩ ∧
      ¬ SafeUpdate sqlite (ordersCatalog 1 "a")
          (handleUpdate sqlite (fun _ => "") (ordersCatalog 1 "a") "a" (by decide) (restored (fromMysql "db1" "t" 1))
            ⟨fromMysql "db1" "u" 1, false⟩).1
          "a" (fromMysql "db1" "t" 1) ⟨fromMysql "db1" "u" 1, false⟩ ∧
        ¬ SafeUpdate sqlite (ordersCatalog 2 (shardKey "a" 0))
            (handleUpdate sqlite (fun _ => "") (ordersCatalog 2 (shardKey "a" 0)) "a" (by decide)
              (restored (fromMysql "db1" "t" 2)) ⟨fromFile 2, false⟩).1
            "a" (fromMysql "db1" "t" 2) ⟨fromFile 2, false⟩ ∧
          ¬ SafeUpdate sqlite (ordersCatalog 1 "a")
              (handleUpdate sqlite (fun _ => "") (ordersCatalog 1 "a") "a" (by decide) (fun _ => none)
                ⟨fromFile 1, false⟩).1
              "a" (fromMysql "db1" "t" 1) ⟨fromFile 1, false⟩ := by
  refine ⟨fun hsafe => ?_, fun hsafe => ?_, fun hsafe => ?_, fun hsafe => ?_⟩
  · cases hsafe.other (by decide) "a" (by decide) "a" rfl
  · cases hsafe.other (by decide) "a" (by decide) "a" rfl
  · cases hsafe.other (by decide) (shardKey "a" 0) (by decide) (shardKey "a" 0) (sqlite.equal_refl _)
  · cases hsafe.other (by decide) "a" (by decide) "a" rfl

end OpenEtl.Server.SpecUpdate
