import Mathlib.Data.List.Forall2
import OpenEtl.Lib.Like
import OpenEtl.Storage.Store

/-!
# Pipelines, their versions and their checkpoints (`storage/sqlstore/store.go`)

| here | there |
| --- | --- |
| `resetPipelineCheckpoint` | `Store.ResetPipelineCheckpoint` (:936), in `Store` |
| `Mode.keys` | `Runner.Start` (pipeline.go:664), `BuildShardRunner` (shard_builder.go:74), `loadSourceCheckpoint` (executor.go:1029) |

The three operations delete checkpoints with different `WHERE` clauses (`Op.selects`): only the reset looks for the
keys of shards and of DAG sources, and it looks for them with `LIKE`, which takes the `%` and `_` of an id for
wildcards and the keys of an id that begins with this one for its own. The clauses also name the pipeline's name,
which may be the id of another pipeline. Rows are kept under the texts they were stored with, and found by those that
the database takes for the same; no two pipelines have ids that it takes for the same.
-/

namespace OpenEtl.Storage

open List Function

/-- Which runner the stored spec is for. -/
inductive Mode
  | linear
  | sharded (n : Nat)
  | dag (sources : List String)
deriving DecidableEq, Repr

def shardKey (baseName : String) (shardIdx : Nat) : String := baseName ++ ".shard-" ++ toString shardIdx

/-- The checkpoints the runners load. -/
def Mode.keys (id : String) : Mode → List String
  | .linear => [id]
  | .sharded n => if 1 < n then (List.range n).map (shardKey id) else [id]
  | .dag sources => sources.map fun sourceID => id ++ "-" ++ sourceID

structure Version where
  version : Nat
  specYAML : String
deriving DecidableEq, Repr

structure Catalog extends Store where
  /-- of the row's spec -/
  mode : String → Mode
  /-- the ids of the rows by `created_at`; ids of rows that are gone may remain -/
  created : List String
  listed : ∀ id, pipelines id ≠ none → id ∈ created
  /-- the rows of `pipeline_versions` by their column `pipeline` -/
  versions : String → List Version

/-- `storage.PipelineRow`, after `EnsurePipelineID` and `NormalizePipelineLifecycle`. -/
structure SavedRow where
  id : String
  id_ne : id ≠ ""
  name : String
  mode : Mode
  specYAML : String := ""
  desiredState : DesiredState := .running
  generation : Nat := 0

variable {c : Catalog} {id : String}

/-! ## Saving -/

/-- `PipelineUpsert`: of a row that is there, state and generation are kept. -/
def SavedRow.upsert (row : SavedRow) : Option PipelineRow → PipelineRow
  | some p => { p with name := row.name }
  | none => { name := row.name, desiredState := row.desiredState, generation := row.generation }

theorem upsert_listed (c : Catalog) (row : SavedRow) (f : PipelineRow → PipelineRow) (id : String)
    (h : (if id = row.id then some (f (row.upsert (c.pipelines row.id))) else c.pipelines id) ≠ none) :
    id ∈ c.created ++ [row.id] := by
  by_cases hid : id = row.id
  · rw [hid]
    exact mem_append_right _ (mem_singleton_self _)
  · rw [if_neg hid] at h
    exact mem_append_left _ (c.listed id h)

/-- Row and version; `f` is what a reset does to the row. -/
def Catalog.save (c : Catalog) (row : SavedRow) (f : PipelineRow → PipelineRow) : Catalog where
  pipelines := fun id => if id = row.id then some (f (row.upsert (c.pipelines row.id))) else c.pipelines id
  checkpoints := c.checkpoints
  id_ne_empty := by rw [if_neg row.id_ne.symm]; exact c.id_ne_empty
  mode := update c.mode row.id row.mode
  created := c.created ++ [row.id]
  listed := upsert_listed c row f
  versions := update c.versions row.id
    (c.versions row.id ++
      [{ version := ((c.versions row.id).map (·.version)).foldl max 0 + 1, specYAML := row.specYAML }])

/-- `DELETE FROM checkpoints WHERE …` -/
def Catalog.deleteCheckpoints (c : Catalog) (p : String → Bool) : Catalog :=
  { c with checkpoints := fun job => if p job then none else c.checkpoints job }

def errNotQuiescent (id : String) : Err :=
  { msg := "pipeline must be stopped or paused for checkpoint mutation: pipeline " ++ id }

section

variable (equal : String → String → Bool)

def savePipelineWithVersionOnce (c : Catalog) (row : SavedRow) (resetCheckpoint : Bool) : Catalog × Option Err :=
  if resetCheckpoint then
    let state := (row.upsert (c.pipelines row.id)).desiredState
    if state = .stopped ∨ state = .paused then
      ((c.save row PipelineRow.next).deleteCheckpoints fun job => equal job row.id || equal job row.name, none)
    else (c, some (errNotQuiescent row.id))
  else (c.save row fun p => p, none)

/-! ## Deleting -/

/-- A row is meant by its id and by its name. -/
def Catalog.means (c : Catalog) (ref id : String) : Bool :=
  (c.pipelines id).any fun p => equal id ref || equal p.name ref

def Catalog.nameOf (c : Catalog) (id : String) : String :=
  match c.pipelines id with
  | some p => p.name
  | none => id

/-- `SELECT id, name … WHERE id=? OR name=? ORDER BY created_at LIMIT 1`, or the reference itself. -/
def Catalog.resolve (c : Catalog) (ref : String) : String × String :=
  match c.created.find? (c.means equal ref) with
  | some id => (id, c.nameOf id)
  | none => (ref, ref)

theorem deleted_listed (c : Catalog) (ref id : String)
    (h : (if c.means equal ref id then none else c.pipelines id) ≠ none) : id ∈ c.created := by
  split at h
  · exact absurd rfl h
  · exact c.listed id h

theorem deleted_empty (c : Catalog) (ref : String) : (if c.means equal ref "" then none else c.pipelines "") = none := by
  split
  · rfl
  · exact c.id_ne_empty

def deletePipelineWithCheckpoint (c : Catalog) (ref : String) : Catalog where
  pipelines := fun id => if c.means equal ref id then none else c.pipelines id
  checkpoints := fun job =>
    if equal job (c.resolve equal ref).1 ∨ equal job (c.resolve equal ref).2 then none else c.checkpoints job
  id_ne_empty := deleted_empty equal c ref
  mode := c.mode
  created := c.created
  listed := deleted_listed equal c ref
  versions := fun x =>
    if equal x (c.resolve equal ref).1 ∨ equal x (c.resolve equal ref).2 then [] else c.versions x

end

/-! ## The operations on a pipeline -/

theorem reset_listed (equal like : String → String → Bool) (c : Catalog) (ref id : String)
    (h : (resetPipelineCheckpoint equal like c.toStore ref).1.pipelines id ≠ none) : id ∈ c.created := by
  apply c.listed
  intro hnone
  apply h
  simp only [resetPipelineCheckpoint, advanceQuiescentGeneration]
  cases hp : c.pipelines ref with
  | none => exact hnone
  | some p =>
    by_cases hstate : p.desiredState = .stopped ∨ p.desiredState = .paused
    · simp [hstate, Store.updatePipeline, hnone]
    · simpa [hstate] using hnone

inductive Clearing
  | reset
  /-- an update with checkpoint reset -/
  | update (name : String) (mode : Mode) (specYAML : String)
  | delete
deriving DecidableEq, Repr

/-- The row an update saves: `SaveWithIDAndCheckpointReset` gives it the status `updated`. -/
def savedRow (c : Catalog) (id : String) (h : c.pipelines id ≠ none) (name : String) (mode : Mode)
    (specYAML : String) : SavedRow where
  id
  id_ne := fun hid => h (hid ▸ c.id_ne_empty)
  name
  mode
  specYAML

def errorOf {α : Type} : Except Err α → Option Err
  | .error e => some e
  | .ok _ => none

/-- An operation on a stored pipeline. -/
def Clearing.run (d : Like.Dialect) (c : Catalog) (id : String) (h : c.pipelines id ≠ none) :
    Clearing → Catalog × Option Err
  | .reset =>
    let r := resetPipelineCheckpoint d.equal d.like c.toStore id
    ({ c with toStore := r.1, listed := reset_listed d.equal d.like c id }, errorOf r.2)
  | .update name mode specYAML => savePipelineWithVersionOnce d.equal c (savedRow c id h name mode specYAML) true
  | .delete => (deletePipelineWithCheckpoint d.equal c id, none)

/-- The runners of the pipeline, before and after, find no checkpoint; what belongs to others is as it was. -/
structure Cleared (d : Like.Dialect) (c c' : Catalog) (id : String) : Prop where
  own : ∀ mode, mode = c.mode id ∨ mode = c'.mode id → ∀ key ∈ mode.keys id, ∀ job, d.equal job key = true →
    c'.checkpoints job = none
  others : ∀ q, q ≠ id → c.pipelines q ≠ none → c'.pipelines q = c.pipelines q ∧ c'.mode q = c.mode q ∧
    (∀ x, d.equal x q = true → c'.versions x = c.versions x) ∧
    ∀ key ∈ (c.mode q).keys q, ∀ job, d.equal job key = true → c'.checkpoints job = c.checkpoints job

/-! ## The condition -/

/-- The checkpoints the operation deletes, if the id is nobody else's name. -/
def Clearing.selects (d : Like.Dialect) (c : Catalog) (id : String) : Clearing → String → Prop
  | .reset, job => d.equal job id = true ∨ d.equal job (c.nameOf id) = true ∨
      d.like job (id ++ ".shard-%") = true ∨ d.like job (id ++ "-%") = true
  | .update name _ _, job => d.equal job id = true ∨ d.equal job name = true
  | .delete, job => d.equal job id = true ∨ d.equal job (c.nameOf id) = true

/-- The modes of the pipeline's specs before and after. -/
def Clearing.modes (c : Catalog) (id : String) : Clearing → List Mode
  | .update _ mode _ => [c.mode id, mode]
  | .reset | .delete => [c.mode id]

open Clearing (modes run)

structure Separate (d : Like.Dialect) (c : Catalog) (id : String) (op : Clearing) : Prop where
  own : ∀ mode ∈ op.modes c id, ∀ key ∈ mode.keys id, ∀ job, d.equal job key = true →
    c.checkpoints job = none ∨ op.selects d c id job
  others : ∀ q, q ≠ id → c.pipelines q ≠ none → ∀ key ∈ (c.mode q).keys q, ∀ job, d.equal job key = true →
    c.checkpoints job = none ∨ ¬ op.selects d c id job
  rows : op = .delete → ∀ q, q ≠ id → c.pipelines q ≠ none → d.equal (c.nameOf q) id = false ∧
    ∀ x, d.equal x q = true → c.versions x = [] ∨ d.equal x id = false ∧ d.equal x (c.nameOf id) = false

/-! ## What the operations do -/

/-- The id is the row's alone (`PRIMARY KEY`). -/
def OwnId (d : Like.Dialect) (c : Catalog) (id : String) : Prop :=
  ∀ q, c.pipelines q ≠ none → d.equal q id = true → q = id

theorem means_iff {equal : String → String → Bool} {ref : String} :
    c.means equal ref id = true ↔ c.pipelines id ≠ none ∧ (equal id ref = true ∨ equal (c.nameOf id) ref = true) := by
  rw [Catalog.means, Catalog.nameOf]
  cases c.pipelines id <;> simp

variable {d : Like.Dialect}

/-- A reference that is no other row's name means the row with this id. -/
theorem resolve_eq (hid : OwnId d c id) (h : c.pipelines id ≠ none)
    (hrows : ∀ q, q ≠ id → c.pipelines q ≠ none → d.equal (c.nameOf q) id = false) :
    c.resolve d.equal id = (id, c.nameOf id) := by
  cases hfind : c.created.find? (c.means d.equal id) with
  | none =>
    have hnot := find?_eq_none.mp hfind id (c.listed id h)
    exact absurd (means_iff.mpr ⟨h, .inl (d.equal_refl id)⟩) hnot
  | some x =>
    obtain ⟨hx, hmeans⟩ := means_iff.mp (find?_some hfind)
    have hid : x = id := by
      by_contra hne
      rcases hmeans with heq | hname
      · exact hne (hid x hx heq)
      · simp [hrows x hne hx] at hname
    rw [Catalog.resolve, hfind, hid]

variable {h : c.pipelines id ≠ none} {op : Clearing}

/-- What the operation does to the tables, as far as other pipelines or their checkpoints are concerned. -/
structure Does (d : Like.Dialect) (c : Catalog) (id : String) (op : Clearing) (c' : Catalog) : Prop where
  selected : ∀ job, op.selects d c id job → c'.checkpoints job = none
  kept : ∀ job, ¬ op.selects d c id job → c'.checkpoints job = c.checkpoints job
  modes : ∀ mode, mode = c.mode id ∨ mode = c'.mode id ↔ mode ∈ op.modes c id
  pipelines : ∀ q, q ≠ id → c.pipelines q ≠ none → c'.pipelines q = c.pipelines q
  mode : ∀ q, q ≠ id → c'.mode q = c.mode q
  versions : ∀ x, x ≠ id → c'.versions x =
    if op = .delete ∧ (d.equal x id = true ∨ d.equal x (c.nameOf id) = true) then [] else c.versions x

theorem does_reset (hok : (run d c id h .reset).2 = none) :
    Does d c id .reset (run d c id h .reset).1 := by
  obtain ⟨p, hp⟩ := Option.ne_none_iff_exists'.mp h
  have hstate : p.desiredState = .stopped ∨ p.desiredState = .paused := by
    by_contra hstate
    simp [run, resetPipelineCheckpoint, advanceQuiescentGeneration, hp, hstate, errorOf] at hok
  have hcheckpoints (job : String) : (run d c id h .reset).1.checkpoints job =
      if d.equal job id = true ∨ d.equal job (c.nameOf id) = true ∨ d.like job (id ++ ".shard-%") = true ∨
          d.like job (id ++ "-%") = true then none
      else c.checkpoints job := by
    simp [run, resetPipelineCheckpoint, advanceQuiescentGeneration, hp, hstate, Catalog.nameOf,
      Store.updatePipeline]
  refine ⟨fun job hsel => ?_, fun job hsel => ?_, fun mode => ?_, fun q hq _ => ?_, fun q _ => rfl, fun q _ => ?_⟩
  · exact (hcheckpoints job).trans (if_pos hsel)
  · exact (hcheckpoints job).trans (if_neg hsel)
  · show mode = c.mode id ∨ mode = c.mode id ↔ _
    simp [modes]
  · simp [run, resetPipelineCheckpoint, advanceQuiescentGeneration, hp, hstate, Store.updatePipeline, hq]
  · simp [run]

theorem does_update {name specYAML : String} {mode : Mode}
    (hok : (run d c id h (.update name mode specYAML)).2 = none) :
    Does d c id (.update name mode specYAML) (run d c id h (.update name mode specYAML)).1 := by
  have hrun : (run d c id h (.update name mode specYAML)).1 =
      (c.save (savedRow c id h name mode specYAML) PipelineRow.next).deleteCheckpoints
        fun job => d.equal job id || d.equal job name := by
    revert hok
    simp only [run, savePipelineWithVersionOnce, if_true]
    split
    · intro _
      rfl
    · intro hok
      exact absurd hok (Option.some_ne_none _)
  rw [hrun]
  have hcheckpoints (job : String) :
      (d.equal job id || d.equal job name) = true ↔ d.equal job id = true ∨ d.equal job name = true := by simp
  refine ⟨fun job hsel => ?_, fun job hsel => ?_, fun m => ?_, fun q hq _ => ?_, fun q hq => ?_, fun q hq => ?_⟩
  · exact if_pos ((hcheckpoints job).mpr hsel)
  · exact if_neg fun hjob => hsel ((hcheckpoints job).mp hjob)
  · simp [Catalog.deleteCheckpoints, Catalog.save, savedRow, modes]
  · exact if_neg hq
  · exact update_of_ne hq _ _
  · rw [if_neg (by simp)]
    exact update_of_ne hq _ _

theorem does_delete (hid : OwnId d c id) (h : c.pipelines id ≠ none)
    (hrows : ∀ q, q ≠ id → c.pipelines q ≠ none → d.equal (c.nameOf q) id = false) :
    Does d c id .delete (run d c id h .delete).1 := by
  have hresolve := resolve_eq hid h hrows
  have hcheckpoints (job : String) : (run d c id h .delete).1.checkpoints job =
      if d.equal job id = true ∨ d.equal job (c.nameOf id) = true then none else c.checkpoints job := by
    simp [run, deletePipelineWithCheckpoint, hresolve]
  refine ⟨fun job hsel => ?_, fun job hsel => ?_, fun mode => ?_, fun q hq hstored => ?_, fun q _ => rfl,
    fun x _ => ?_⟩
  · exact (hcheckpoints job).trans (if_pos hsel)
  · exact (hcheckpoints job).trans (if_neg hsel)
  · show mode = c.mode id ∨ mode = c.mode id ↔ _
    simp [modes]
  · have hmeans : c.means d.equal id q = false := by
      rw [Bool.eq_false_iff]
      intro hmeans
      obtain ⟨-, heq | hname⟩ := means_iff.mp hmeans
      · exact hq (hid q hstored heq)
      · simp [hrows q hq hstored] at hname
    show (if c.means d.equal id q then none else c.pipelines q) = _
    rw [hmeans, if_neg Bool.false_ne_true]
  · simp [run, deletePipelineWithCheckpoint, hresolve]

/-! ## When the operations do what they should -/

/-- The rows that go with a deletion go by the id or the name. -/
theorem rows_of_cleared (hc : Cleared d c (run d c id h .delete).1 id) :
    ∀ q, q ≠ id → c.pipelines q ≠ none → d.equal (c.nameOf q) id = false := by
  intro q hq hstored
  rw [Bool.eq_false_iff]
  intro hname
  have hkept := (hc.others q hq hstored).1
  have hmeans : c.means d.equal id q = true := means_iff.mpr ⟨hstored, .inr hname⟩
  apply hstored
  rw [← hkept]
  exact if_pos hmeans

theorem cleared_iff_of_does (hid : OwnId d c id) {c' : Catalog} (hdoes : Does d c id op c') :
    Cleared d c c' id ↔
      (∀ mode ∈ op.modes c id, ∀ key ∈ mode.keys id, ∀ job, d.equal job key = true →
        c.checkpoints job = none ∨ op.selects d c id job) ∧
      ∀ q, q ≠ id → c.pipelines q ≠ none →
        (∀ key ∈ (c.mode q).keys q, ∀ job, d.equal job key = true →
          c.checkpoints job = none ∨ ¬ op.selects d c id job) ∧
        (op = .delete → ∀ x, d.equal x q = true →
          c.versions x = [] ∨ d.equal x id = false ∧ d.equal x (c.nameOf id) = false) := by
  have hnone (job : String) : c'.checkpoints job = none ↔ c.checkpoints job = none ∨ op.selects d c id job := by
    by_cases hsel : op.selects d c id job
    · simp [hdoes.selected job hsel, hsel]
    · simp [hdoes.kept job hsel, hsel]
  have hsame (job : String) :
      c'.checkpoints job = c.checkpoints job ↔ c.checkpoints job = none ∨ ¬ op.selects d c id job := by
    by_cases hsel : op.selects d c id job
    · simpa [hdoes.selected job hsel, hsel] using eq_comm
    · simp [hdoes.kept job hsel, hsel]
  have hversions (q x : String) (hq : q ≠ id) (hstored : c.pipelines q ≠ none) (hx : d.equal x q = true) :
      c'.versions x = c.versions x ↔
        (op = .delete → c.versions x = [] ∨ d.equal x id = false ∧ d.equal x (c.nameOf id) = false) := by
    have hne : x ≠ id := by
      rintro rfl
      exact hq (hid q hstored (d.equal_symm _ _ hx))
    rw [hdoes.versions x hne]
    by_cases hgone : op = .delete ∧ (d.equal x id = true ∨ d.equal x (c.nameOf id) = true)
    · have hsome : ¬(d.equal x id = false ∧ d.equal x (c.nameOf id) = false) := by
        rcases hgone.2 with heq | heq <;> simp [heq]
      simp only [hgone, true_imp_iff, true_and, if_true, hsome, or_false]
      exact eq_comm
    · rw [if_neg hgone]
      refine iff_of_true rfl fun hop => .inr ?_
      simpa [hop] using hgone
  constructor
  · intro hc
    refine ⟨fun mode hmode key hkey job hjob => ?_, fun q hq hstored => ⟨fun key hkey job hjob => ?_, fun hop x hx => ?_⟩⟩
    · exact (hnone job).mp (hc.own mode ((hdoes.modes mode).mpr hmode) key hkey job hjob)
    · exact (hsame job).mp ((hc.others q hq hstored).2.2.2 key hkey job hjob)
    · exact (hversions q x hq hstored hx).mp ((hc.others q hq hstored).2.2.1 x hx) hop
  · rintro ⟨hown, hothers⟩
    refine ⟨fun mode hmode key hkey job hjob => ?_, fun q hq hstored => ?_⟩
    · exact (hnone job).mpr (hown mode ((hdoes.modes mode).mp hmode) key hkey job hjob)
    · obtain ⟨hkeys, hvers⟩ := hothers q hq hstored
      exact ⟨hdoes.pipelines q hq hstored, hdoes.mode q hq,
        fun x hx => (hversions q x hq hstored hx).mpr fun hop => hvers hop x hx,
        fun key hkey job hjob => (hsame job).mpr (hkeys key hkey job hjob)⟩

theorem does_of_rows (hid : OwnId d c id) (hok : (op.run d c id h).2 = none)
    (hrows : op = .delete → ∀ q, q ≠ id → c.pipelines q ≠ none → d.equal (c.nameOf q) id = false) :
    Does d c id op (op.run d c id h).1 := by
  cases op with
  | reset => exact does_reset hok
  | update name mode specYAML => exact does_update hok
  | delete => exact does_delete hid h (hrows rfl)

theorem cleared_of_separate (hid : OwnId d c id) (hok : (op.run d c id h).2 = none) (hsep : Separate d c id op) :
    Cleared d c (op.run d c id h).1 id := by
  have hdoes := does_of_rows hid hok fun hop q hq hstored => (hsep.rows hop q hq hstored).1
  exact (cleared_iff_of_does hid hdoes).mpr ⟨hsep.own, fun q hq hstored =>
    ⟨hsep.others q hq hstored, fun hop => (hsep.rows hop q hq hstored).2⟩⟩

theorem separate_of_cleared (hid : OwnId d c id) (hok : (op.run d c id h).2 = none)
    (hc : Cleared d c (op.run d c id h).1 id) : Separate d c id op := by
  have hrows : op = .delete → ∀ q, q ≠ id → c.pipelines q ≠ none → d.equal (c.nameOf q) id = false := by
    rintro rfl
    exact rows_of_cleared hc
  obtain ⟨hown, hothers⟩ := (cleared_iff_of_does hid (does_of_rows hid hok hrows)).mp hc
  exact ⟨hown, fun q hq hstored => (hothers q hq hstored).1,
    fun hop q hq hstored => ⟨hrows hop q hq hstored, (hothers q hq hstored).2 hop⟩⟩

/-- An operation that succeeds leaves no checkpoint to the runners of its pipeline, and everything to the
others, exactly if it selects the stored checkpoints of the one and none of the others. -/
theorem cleared_iff_separate (d : Like.Dialect) (c : Catalog) (id : String) (hid : OwnId d c id)
    (h : c.pipelines id ≠ none) (op : Clearing) (hok : (op.run d c id h).2 = none) :
    Cleared d c (op.run d c id h).1 id ↔ Separate d c id op :=
  ⟨separate_of_cleared hid hok, cleared_of_separate hid hok⟩

/-! ## Where they go wrong -/

theorem lookup_listed {rows : List (String × PipelineRow × Mode)} {id : String}
    (h : (rows.lookup id).map (·.1) ≠ none) : id ∈ rows.map (·.1) := by
  by_contra hnot
  apply h
  rw [lookup_eq_none_iff.mpr, Option.map_none]
  intro row hrow
  rw [bne_iff_ne]
  intro heq
  exact hnot (heq ▸ mem_map_of_mem hrow)

/-- Tables with these rows, in the order of their creation, and checkpoints under these keys. -/
def catalogOf (rows : List (String × PipelineRow × Mode)) (hrows : (rows.lookup "").map (·.1) = none)
    (keys : List String) : Catalog where
  pipelines := fun id => (rows.lookup id).map (·.1)
  checkpoints := fun job => if job ∈ keys then some ⟨"", "", 1, 0⟩ else none
  id_ne_empty := hrows
  mode := fun id => ((rows.lookup id).map (·.2)).getD .linear
  created := rows.map (·.1)
  listed := fun _ h => lookup_listed h
  versions := fun _ => []

def stoppedRow (name : String) : PipelineRow := ⟨name, .stopped, 1⟩

/-- SQLite: no escape character, and `LIKE` sees no difference between upper and lower case. -/
def sqlite : Like.Dialect where
  escape := none
  same := fun x y => x.toLower == y.toLower
  refl := fun x => beq_self_eq_true x.toLower
  equal := fun s t => s == t
  equal_refl := beq_self_eq_true
  equal_symm := fun _ _ h => beq_iff_eq.mpr (beq_iff_eq.mp h).symm

/-- MySQL with a collation in which `=` sees no difference either. -/
def mysql : Like.Dialect where
  escape := some '\\'
  same := fun x y => x.toLower == y.toLower
  refl := fun x => beq_self_eq_true x.toLower
  equal := fun s t => s.toList.map Char.toLower == t.toList.map Char.toLower
  equal_refl := fun s => beq_self_eq_true (s.toList.map Char.toLower)
  equal_symm := fun _ _ h => beq_iff_eq.mpr (beq_iff_eq.mp h).symm

def twoPipelines : Catalog :=
  catalogOf [("a", stoppedRow "orders", .sharded 2), ("b", stoppedRow "users", .linear)] rfl
    [shardKey "a" 0, shardKey "a" 1, "b"]

theorem mem_of_stored {q : String} (h : twoPipelines.pipelines q ≠ none) : q = "a" ∨ q = "b" := by
  simpa [twoPipelines, catalogOf] using twoPipelines.listed q h

/-- A reset of `a` takes the checkpoints of its shards and leaves that of `b`. -/
theorem sharded_reset_clears :
    Cleared sqlite twoPipelines (run sqlite twoPipelines "a" (by decide) .reset).1 "a" := by
  refine (cleared_iff_separate sqlite twoPipelines "a" (fun q _ heq => by simpa [sqlite] using heq) (by decide) .reset
    rfl).mpr ⟨?_, fun q hq hstored => ?_, fun hop => nomatch hop⟩
  · intro mode hmode key hkey job hjob
    obtain rfl : mode = .sharded 2 := mem_singleton.mp hmode
    obtain rfl : key = job := (beq_iff_eq.mp hjob).symm
    have hkeys : key = shardKey "a" 0 ∨ key = shardKey "a" 1 := by
      simpa [Mode.keys, range_succ] using hkey
    rcases hkeys with rfl | rfl <;> exact .inr (.inr (.inr (.inl (by decide +kernel))))
  · obtain rfl : q = "b" := (mem_of_stored hstored).resolve_left hq
    intro key hkey job hjob
    obtain rfl : key = "b" := mem_singleton.mp hkey
    obtain rfl : job = "b" := by simpa [sqlite] using hjob
    refine .inr ?_
    simp only [Clearing.selects]
    decide +kernel

/-- An update leaves the checkpoints of shards, a deletion those of DAG sources; a reset of `a` takes that
of `a-b`, one of `a_` that of a source of `ab`, and one of a pipeline named `b` that of the pipeline with
this id, on MySQL also one of a pipeline named `B`; a deletion takes the row of a pipeline that has the id for a
name. -/
theorem clearing_fails :
    let shards := catalogOf [("a", stoppedRow "orders", .sharded 2)] rfl [shardKey "a" 0]
    let dag := catalogOf [("a", stoppedRow "orders", .dag ["db"])] rfl ["a-db"]
    let longer := catalogOf [("a", stoppedRow "x", .linear), ("a-b", stoppedRow "y", .linear)] rfl ["a-b"]
    let wild := catalogOf [("a_", stoppedRow "x", .linear), ("ab", stoppedRow "y", .dag ["db"])] rfl ["ab-db"]
    let named := catalogOf [("a", stoppedRow "b", .linear), ("b", stoppedRow "y", .linear)] rfl ["b"]
    let upper := catalogOf [("a", stoppedRow "B", .linear), ("b", stoppedRow "y", .linear)] rfl ["b"]
    let row := catalogOf [("a", stoppedRow "x", .linear), ("b", stoppedRow "a", .linear)] rfl []
    ¬ Cleared sqlite shards (run sqlite shards "a" (by decide) (.update "orders" (.sharded 2) "")).1 "a" ∧
      ¬ Cleared sqlite dag (run sqlite dag "a" (by decide) .delete).1 "a" ∧
        ¬ Cleared sqlite longer (run sqlite longer "a" (by decide) .reset).1 "a" ∧
          ¬ Cleared sqlite wild (run sqlite wild "a_" (by decide) .reset).1 "a_" ∧
            ¬ Cleared sqlite named (run sqlite named "a" (by decide) .reset).1 "a" ∧
              ¬ Cleared mysql upper (run mysql upper "a" (by decide) .reset).1 "a" ∧
                ¬ Cleared sqlite row (run sqlite row "a" (by decide) .delete).1 "a" := by
  refine ⟨fun hc => ?_, fun hc => ?_, fun hc => ?_, fun hc => ?_, fun hc => ?_, fun hc => ?_, fun hc => ?_⟩
  · cases hc.own (.sharded 2) (.inl rfl) (shardKey "a" 0) (by decide) (shardKey "a" 0) (sqlite.equal_refl _)
  · cases hc.own (.dag ["db"]) (.inl rfl) "a-db" (by decide) "a-db" rfl
  · cases (hc.others "a-b" (by decide) (by decide)).2.2.2 "a-b" (by decide) "a-b" rfl
  · cases (hc.others "ab" (by decide) (by decide)).2.2.2 "ab-db" (by decide) "ab-db" rfl
  · cases (hc.others "b" (by decide) (by decide)).2.2.2 "b" (by decide) "b" rfl
  · cases (hc.others "b" (by decide) (by decide)).2.2.2 "b" (by decide) "b" rfl
  · exact absurd (hc.others "b" (by decide) (by decide)).1 (by decide)

end OpenEtl.Storage
