import OpenEtl.Lib.Trace
import OpenEtl.Storage.Store

/-!
# A run among the transactions of the control plane

An execution engine is given by its steps and the calls of `CheckpointStore.Save` that its log records (`Engine`).
While it runs, the control plane may run its own transactions between any two events of the log (`Meanwhile`); the
store sees one sequence of both (`Act`).
-/

namespace OpenEtl.Storage

open Trace (added Always Steps run)

/-! ## The control plane -/

inductive Op
  | desiredState (id : String) (desired : DesiredState)
  | beginGeneration (id : String)
  | resetCheckpoint (id : String)
  | setCheckpoint (id : String) (cp : Checkpoint)
deriving DecidableEq, Repr

/-- Whether it may give the pipeline a new generation. -/
def Op.advances (id : String) : Op → Bool
  | .desiredState .. => false
  | .beginGeneration x | .resetCheckpoint x | .setCheckpoint x _ => x == id

def Op.run (equal like : String → String → Bool) (st : Store) : Op → Store
  | .desiredState id desired => (updatePipelineDesiredState st id desired).1
  | .beginGeneration id => (beginPipelineGeneration st id).1
  | .resetCheckpoint id => (resetPipelineCheckpoint equal like st id).1
  | .setCheckpoint id cp => (setPipelineCheckpoint st id cp).1

/-- An update of another pipeline, or of another column, keeps the generation. -/
theorem generation_updatePipeline (st : Store) (x id : String) (f : PipelineRow → PipelineRow)
    (h : x ≠ id ∨ ∀ p, (f p).generation = p.generation) :
    (st.updatePipeline x f).generation id = st.generation id := by
  by_cases hx : id = x
  · subst hx
    have hf : ∀ p, (f p).generation = p.generation := h.resolve_left (by simp)
    rw [generation_updatePipeline_self]
    simp [hf, Store.generation]
  · exact generation_updatePipeline_of_ne st f hx

theorem advanceQuiescentGeneration_generation (st : Store) {x id : String} (h : x ≠ id) :
    (advanceQuiescentGeneration st x).1.generation id = st.generation id := by
  unfold advanceQuiescentGeneration
  split
  · rfl
  split
  · exact generation_updatePipeline st x id _ (.inl h)
  · rfl

/-- Only what `Op.advances` names gives a pipeline a new generation. -/
theorem Op.run_generation (equal like : String → String → Bool) (st : Store) {o : Op} {id : String}
    (h : o.advances id = false) : (o.run equal like st).generation id = st.generation id := by
  cases o with
  | desiredState x desired =>
    simp only [Op.run, updatePipelineDesiredState]
    split
    · rfl
    · exact generation_updatePipeline st x id _ (.inr fun _ => rfl)
  | beginGeneration x =>
    simp only [Op.run, beginPipelineGeneration]
    split
    · rfl
    split
    · exact generation_updatePipeline st x id _ (.inl (by simpa [Op.advances] using h))
    · rfl
  | resetCheckpoint x =>
    have hgen := advanceQuiescentGeneration_generation st (show x ≠ id by simpa [Op.advances] using h)
    simp only [Op.run, resetPipelineCheckpoint]
    rcases ha : advanceQuiescentGeneration st x with ⟨st1, e | ⟨g, name⟩⟩ <;> rw [ha] at hgen <;> exact hgen
  | setCheckpoint x cp =>
    have hgen := advanceQuiescentGeneration_generation st (show x ≠ id by simpa [Op.advances] using h)
    simp only [Op.run, setPipelineCheckpoint]
    rcases ha : advanceQuiescentGeneration st x with ⟨st1, e | ⟨g, name⟩⟩ <;> rw [ha] at hgen <;> exact hgen

/-! ## Engines -/

/-- A call of `CheckpointStore.Save`: its context, the job it names and the failure it met. -/
structure SaveCall where
  ctx : Ctx
  jobName : String
  err : Option Err

structure Engine where
  State : Type
  Step : Type
  Event : Type
  step : Ctx → State → Step → State
  log : State → List Event
  save : Event → Option SaveCall
  /-- steps that save under the run's context only -/
  fenced : Step → Bool
  grows : ∀ ctx s i, log s <+: log (step ctx s i)
  under : ∀ ctx s i, fenced i = true →
    ∀ e ∈ added (log s) (log (step ctx s i)), ∀ c, save e = some c → c.ctx = ctx

/-- What the store is asked to do: by the control plane, or by an event of the engine together with what
the source puts into a checkpoint at that point. -/
abbrev Act (ε : Type) := Op ⊕ (ε × Checkpoint)

/-- What else happens during a step: transactions before its `k`-th event (and after the last one), and
the content of a checkpoint saved there. -/
structure Meanwhile where
  ops : Nat → List Op := fun _ => []
  content : Nat → Checkpoint := fun _ => { jobName := "" }

def Meanwhile.weave {ε : Type} (m : Meanwhile) (evs : List ε) : List (Act ε) :=
  Trace.weave m.ops (fun k e => (e, m.content k)) 0 evs

/-- The engine's state and everything the store was asked to do so far. -/
structure History (R : Engine) where
  state : R.State
  acts : List (Act R.Event) := []

section

variable (equal like : String → String → Bool) (R : Engine)

def Act.run (st : Store) : Act R.Event → Store
  | .inl o => o.run equal like st
  | .inr (e, content) =>
    match R.save e with
    | none => st
    | some c => (adapterSave c.err st c.ctx { content with jobName := c.jobName }).1

def storeAfter (st : Store) (acts : List (Act R.Event)) : Store := acts.foldl (Act.run equal like R) st

/-- A step of the engine, among the transactions of the control plane. -/
def Engine.act (runCtx : Ctx) (h : History R) (i : R.Step × Meanwhile) : History R :=
  let s := R.step runCtx h.state i.1
  ⟨s, h.acts ++ i.2.weave (added (R.log h.state) (R.log s))⟩

/-- A save that comes after a newer generation than `g` leaves the checkpoints table as it is. -/
def FenceHolds (st : Store) (id : String) (g : Nat) (pre : List (Act R.Event)) : Act R.Event → Prop
  | .inl _ => True
  | .inr save =>
    (∃ n, (storeAfter equal like R st pre).generation id = some n ∧ g < n) →
      (Act.run equal like R (storeAfter equal like R st pre) (.inr save)).checkpoints =
        (storeAfter equal like R st pre).checkpoints

/-- The step saves under the run's context only, or the run's generation is current when it is taken and
none of the transactions during the step gives the pipeline a new one. -/
def Unsuperseded (st : Store) (id : String) (g : Nat) (h : History R) (i : R.Step × Meanwhile) : Prop :=
  R.fenced i.1 = true ∨
    ((∀ n, (storeAfter equal like R st h.acts).generation id = some n → n ≤ g) ∧
      ∀ k, ∀ o ∈ i.2.ops k, o.advances id = false)

variable {equal like R} {id : String} {st : Store}

theorem Act.run_generation {a : Act R.Event} (ha : ∀ o, a = .inl o → o.advances id = false) :
    (Act.run equal like R st a).generation id = st.generation id := by
  rcases a with o | ⟨e, content⟩
  · exact Op.run_generation equal like st (ha o rfl)
  · simp only [Act.run]
    split
    · rfl
    · rw [adapterSave_generation]

theorem storeAfter_generation : ∀ {acts : List (Act R.Event)} {st : Store},
    (∀ o, .inl o ∈ acts → o.advances id = false) →
      (storeAfter equal like R st acts).generation id = st.generation id
  | [], _, _ => rfl
  | a :: acts, st, h => by
    have ih : (storeAfter equal like R (Act.run equal like R st a) acts).generation id =
        (Act.run equal like R st a).generation id :=
      storeAfter_generation fun o ho => h o (List.mem_cons_of_mem a ho)
    refine ih.trans (Act.run_generation fun o ho => h o ?_)
    simp [ho]

theorem storeAfter_append (st : Store) (acts more : List (Act R.Event)) :
    storeAfter equal like R st (acts ++ more) = storeAfter equal like R (storeAfter equal like R st acts) more :=
  List.foldl_append

variable {g : Nat} {runCtx : Ctx}

section

variable (hctx : checkpointFenceFromContext runCtx = some ⟨id, g⟩)

include hctx

/-- A save under a context that carries the fence. -/
theorem fenceHolds_of_ctx {e : R.Event}
    (he : ∀ c, R.save e = some c → c.ctx = runCtx) (pre : List (Act R.Event)) (content : Checkpoint) :
    FenceHolds equal like R st id g pre (.inr (e, content)) := by
  rintro ⟨n, hn, hlt⟩
  simp only [Act.run]
  split
  · rfl
  · rename_i c hc
    rw [adapterSave_fenced _ c.err _ (he c hc ▸ hctx)]
    intro n' hn'
    obtain rfl : n = n' := by simpa [hn] using hn'
    show (n : Int) ≠ g
    exact_mod_cast hlt.ne'

/-- **Generation fence**, one step. -/
theorem Engine.act_fence (h : History R)
    (i : R.Step × Meanwhile) (hi : Unsuperseded equal like R st id g h i)
    (hacts : Always (FenceHolds equal like R st id g) h.acts) :
    Always (FenceHolds equal like R st id g) (R.act runCtx h i).acts := by
  refine Trace.always_append.mpr ⟨hacts, fun pre a post heq => ?_⟩
  generalize hw : i.2.weave (added (R.log h.state) (R.log (R.step runCtx h.state i.1))) = acts at heq
  rcases a with o | ⟨e, content⟩
  · trivial
  rcases hi with hf | ⟨hcur, hops⟩
  · have he : .inr (e, content) ∈ acts := by simp [heq]
    rw [← hw] at he
    rcases Trace.mem_weave he with ⟨k, o, -, ho⟩ | ⟨k, e', he', heq'⟩
    · cases ho
    · cases heq'
      exact fenceHolds_of_ctx hctx (R.under runCtx h.state i.1 hf e he') _ _
  · -- no newer generation exists yet
    rintro ⟨n, hn, hlt⟩
    rw [storeAfter_append, storeAfter_generation] at hn
    · exact absurd (hcur n hn) (by omega)
    · intro o ho
      have hmem : .inl o ∈ acts := by simp [heq, ho]
      rw [← hw] at hmem
      rcases Trace.mem_weave hmem with ⟨k, o', ho', heq'⟩ | ⟨k, e', -, heq'⟩
      · cases heq'
        exact hops k o ho'
      · cases heq'

/-- **Generation fence**, whole runs. -/
theorem Engine.fence_holds (s : R.State)
    {steps : List (R.Step × Meanwhile)} (hsteps : Steps (Unsuperseded equal like R st id g) (R.act runCtx) ⟨s, []⟩ steps) :
    Always (FenceHolds equal like R st id g) (run (R.act runCtx) ⟨s, []⟩ steps).acts :=
  Trace.run_invariant_of (fun h => Always (FenceHolds equal like R st id g) h.acts)
    (Engine.act_fence hctx) (Trace.always_nil _) hsteps

end

end

end OpenEtl.Storage
