import OpenEtl.Pipeline.DeadLetters
import OpenEtl.Server.Replayed

/-!
# Replay and the transforms (`server/server.go:4890-4916`)

A replay runs the whole chain on the record of the dead letter, wherever that record had come to when it failed.
-/

namespace OpenEtl.Server

open Pipeline.Stored (Stage Faults Point DeadLettered StoredAt chainOf chainOf_append hasBatch accepted)
open List Retry Trace

/-! ## What a row writes -/

section

variable (E : Env)

/-- The write is tried with these records only, and at least once. -/
theorem retryWrite_writes (retry : Config) (i : Nat) (sinkID : String) (records : List Record) (log : Log) :
    ∃ evs, (retryWrite E retry i sinkID records log).1 = log ++ evs ∧
      (∀ e ∈ evs, ∃ err, e = .write i sinkID records err) ∧ (0 < retry.maxAttempts → evs ≠ []) := by
  have hgrew : Grew (fun e => ∃ err, e = .write i sinkID records err) log
      (retryWrite E retry i sinkID records log).1 :=
    Do_invariant (fun log' h => h.trans (Grew.snoc log' ⟨_, rfl⟩)) (Grew.refl _ log)
  obtain ⟨evs, hevs, hw⟩ := hgrew
  refine ⟨evs, hevs, hw, fun hpos hnil => ?_⟩
  have hlonger : log.length < (retryWrite E retry i sinkID records log).1.length :=
    Do_after_first (P := fun log' : Log => log.length < log'.length) hpos (fun log' h => by simp; omega) (by simp)
  simp [hevs, hnil] at hlonger

variable (i : Nat) (item : DeadLetter)

theorem completeRow_unwritten (log : Log) :
    Unwritten log (completeRow E i item log).1 := by
  have hcheck := (checkpointDLQReplay_notes E i item log).unwritten
  unfold completeRow
  rcases hc : checkpointDLQReplay E i item log with ⟨log1, e | item'⟩
  · rw [hc] at hcheck
    exact hcheck.trans (markDLQReplayFailure_unwritten E i item e log1)
  · rw [hc] at hcheck
    have hdel := deleteReplayedDLQItem_unwritten E i item' log1
    simp only
    rcases hd : deleteReplayedDLQItem E i item' log1 with ⟨log2, _ | e⟩
    · rw [hd] at hdel
      exact hcheck.trans hdel
    · rw [hd] at hdel
      exact (hcheck.trans hdel).trans (markDLQReplayFailure_unwritten E i item' e log2)

/-- The records handed to the sink for row `i`, each call once. -/
def handed (i : Nat) (evs : List Event) : List (List Record) :=
  evs.filterMap fun
    | .write i' _ records _ => if i' = i then some records else none
    | _ => none

theorem handed_append (evs evs' : List Event) : handed i (evs ++ evs') = handed i evs ++ handed i evs' :=
  filterMap_append ..

theorem handed_unwritten {i : Nat} {evs : List Event} (h : ∀ e ∈ evs, e.isWrite = false) : handed i evs = [] := by
  unfold handed
  rw [filterMap_eq_nil_iff]
  intro e he
  have hw := h e he
  cases e with
  | write => simp [Event.isWrite] at hw
  | visit => rfl
  | noSink => rfl
  | update => rfl
  | delete => rfl

/-- What a row has for the sink: the gate lets the row pass, the chain its record, and the output has an identity where
one is required. -/
def LinearSpec.sends (spec : LinearSpec) (i : Nat) (item : DeadLetter) : Option Record :=
  match spec.gate.verdict item with
  | .block .. => none
  | .pass prepared _ => (chainApply spec.transforms i 0 prepared.record).toOption.filter spec.gate.admits

theorem writeRow_logs (spec : LinearSpec) (rec : Record) (log : Log) :
    ∃ ws, Unwritten (log ++ ws) (writeRow E spec i item rec log).1 ∧ (∀ e ∈ ws, ∃ err, e = .write i "sink" [rec] err) ∧
      (0 < spec.retry.maxAttempts → ws ≠ []) := by
  obtain ⟨ws, hlog, hw, hne⟩ := retryWrite_writes E spec.retry i "sink" [rec] log
  refine ⟨ws, ?_, hw, hne⟩
  unfold writeRow
  rcases hr : retryWrite E spec.retry i "sink" [rec] log with ⟨log', _ | e⟩ <;> rw [hr] at hlog <;> subst hlog
  · exact completeRow_unwritten E i item _
  · exact markDLQReplayFailure_unwritten E i item e _

/-- **A row is written or ends the request.** It is written if it has something for the sink and the store takes what the
gate has found out about it. -/
theorem replayRow_cases (spec : LinearSpec) (log : Log) :
    (∃ prepared rec log', spec.sends i item = some rec ∧ Noted i log log' ∧
      replayRow E spec i item log = writeRow E spec i prepared rec log' ∧ (¬item.acked → prepared.id = item.id)) ∨
    Noted i log (replayRow E spec i item log).1 ∧ (replayRow E spec i item log).2 ≠ none ∧
      (¬item.acked → (∀ n d, ¬d.acked → E.update n d = none) → spec.sends i item = none) := by
  obtain ⟨hnotes, hpass⟩ := prepareLinearDLQReplay_notes E spec.gate i item log
  unfold replayRow LinearSpec.sends
  rcases hp : prepareLinearDLQReplay E spec.gate i item log with ⟨log0, e | prepared⟩ <;> rw [hp] at hnotes hpass
  · -- the gate blocks the row, or the store does not take what it has found out
    refine .inr ⟨hnotes, by simp, fun hun hstore => ?_⟩
    have hkeeps := spec.gate.verdict_keeps hun
    unfold prepareLinearDLQReplay at hp
    cases hv : spec.gate.verdict item with
    | block state reason => rfl
    | pass p what =>
      rw [hv] at hp
      cases what with
      | none => simp at hp
      | some what => simp [hstore _ _ (hkeeps.pass _ _ hv).2.2] at hp
  obtain ⟨what, hv⟩ := hpass prepared rfl
  simp only [hv]
  rcases chainApply spec.transforms i 0 prepared.record with (_ | c) | rec
  · exact .inr ⟨hnotes.trans (markDLQReplayFailure_notes E i prepared _ log0), by simp, fun _ _ => rfl⟩
  · exact .inr ⟨hnotes.trans (markDLQReplayFailure_notes E i prepared _ log0), by simp, fun _ _ => rfl⟩
  obtain ⟨hnotes', hadmits⟩ := validateLinearReplayIdentity_notes E spec.gate i prepared rec log0
  dsimp only
  rcases hval : validateLinearReplayIdentity E spec.gate i prepared rec log0 with ⟨log1, _ | e⟩ <;>
    rw [hval] at hnotes' hadmits
  · refine .inl ⟨prepared, rec, log1, ?_, hnotes.trans hnotes', rfl, fun hun => ?_⟩
    · simp [Except.toOption, Option.filter, hadmits rfl]
    · exact ((spec.gate.verdict_keeps hun).pass _ _ hv).1
  · refine .inr ⟨hnotes.trans hnotes', by simp, fun _ _ => ?_⟩
    have hno : spec.gate.admits rec = false := by
      by_contra h
      simp [validateLinearReplayIdentity, Bool.not_eq_false _ ▸ h] at hval
    simp [Except.toOption, Option.filter, hno]

/-- **What a row logs**: writes of what it has for the sink, and before and behind them nothing that writes. The request
goes on only behind a row that had something for the sink. -/
theorem replayRow_logs (spec : LinearSpec) (log : Log) :
    ∃ log' ws, Noted i log log' ∧ Unwritten (log' ++ ws) (replayRow E spec i item log).1 ∧
      (∀ e ∈ ws, ∃ rec err, spec.sends i item = some rec ∧ e = .write i "sink" [rec] err) ∧
      ((replayRow E spec i item log).2 = none → (spec.sends i item).isSome) ∧
      (0 < spec.retry.maxAttempts → ¬item.acked → (∀ n d, ¬d.acked → E.update n d = none) →
        (spec.sends i item).isSome → ws ≠ []) := by
  rcases replayRow_cases E i item spec log with ⟨prepared, rec, log', hsends, hnotes, hrow, -⟩ | ⟨hnotes, hend, hnone⟩
  · obtain ⟨ws, hlogs, hw, hne⟩ := writeRow_logs E i prepared spec rec log'
    rw [hrow, hsends]
    refine ⟨log', ws, hnotes, hlogs, fun e he => ?_, fun _ => rfl, fun hpos _ _ _ => hne hpos⟩
    obtain ⟨err, rfl⟩ := hw e he
    exact ⟨rec, err, rfl, rfl⟩
  · refine ⟨_, [], hnotes, ?_, by simp, fun h => absurd h hend, fun _ hun hstore hsome => ?_⟩
    · rw [append_nil]
      exact Grew.refl _ _
    · rw [hnone hun hstore] at hsome
      cases hsome

end

/-! ## The chain of a replay -/

/-- The spec's chain; `Apply` is called for one record. -/
def replaySpec (stages : List Stage) (retry : Config) (gate : Gate) : LinearSpec :=
  { transforms := stages.map fun t => { apply := fun _ _ r => t.apply r }, retry, gate }

theorem chainApply_replaySpec (stages : List Stage) (retry : Config) (gate : Gate) (t i : Nat) (rec : Record) :
    chainApply (replaySpec stages retry gate).transforms t i rec = chainOf stages rec := by
  simp only [chainApply, replaySpec, chainOf, foldlM_map]

/-- What is written of a record that goes through the whole chain. -/
def written (stages : List Stage) (rec : Record) : Option Record := (chainOf stages rec).toOption

variable {stages : List Stage} {x : Record} {y : Record}

theorem written_eq_some : written stages x = some y ↔ chainOf stages x = .ok y := by
  unfold written
  cases chainOf stages x <;> simp [Except.toOption]

variable {E : Env} {rec : Record} {retry : Config}

/-- What is written of a row: of the record that the gate lets pass, what the chain makes of it, if that has an identity
where one is required. -/
def again (G : Gate) (stages : List Stage) (item : DeadLetter) : Option Record :=
  match G.verdict item with
  | .block .. => none
  | .pass prepared _ => (written stages prepared.record).filter G.admits

theorem sends_replaySpec (G : Gate) (i : Nat) (item : DeadLetter) :
    (replaySpec stages retry G).sends i item = again G stages item := by
  simp only [LinearSpec.sends, again, chainApply_replaySpec, written]
  rfl

/-- A row that is not acknowledged yet hands to the sink what the chain makes of its record. -/
theorem replayRow_writes (G : Gate) (hpos : 0 < retry.maxAttempts) (hstore : ∀ n d, ¬d.acked → E.update n d = none)
    (i : Nat) {item : DeadLetter} (hun : ¬item.acked) (log : Log) :
    ∃ evs, (replayRow E (replaySpec stages retry G) i item log).1 = log ++ evs ∧
      ∀ rs, rs ∈ handed i evs ↔ ∃ r, again G stages item = some r ∧ rs = [r] := by
  obtain ⟨log', ws, ⟨pre, rfl, hpre⟩, ⟨more, hlog, hmore⟩, hw, -, hne⟩ :=
    replayRow_logs E i item (replaySpec stages retry G) log
  simp only [sends_replaySpec] at hw hne
  refine ⟨pre ++ ws ++ more, by rw [hlog, append_assoc log, append_assoc log], fun rs => ?_⟩
  have hpre' : handed i pre = [] := handed_unwritten fun e he => by
    obtain ⟨item, err, rfl⟩ := hpre e he
    rfl
  rw [handed_append, handed_append, handed_unwritten hmore, hpre', nil_append, append_nil]
  constructor
  · intro hrs
    obtain ⟨e, he, hsome⟩ := mem_filterMap.mp hrs
    obtain ⟨r, err, hr, rfl⟩ := hw e he
    exact ⟨r, hr, by simpa using hsome.symm⟩
  · rintro ⟨r, hr, rfl⟩
    obtain ⟨e, he⟩ := exists_mem_of_ne_nil ws (hne hpos hun hstore (by rw [hr]; rfl))
    obtain ⟨r', err, hr', rfl⟩ := hw e he
    cases hr.symm.trans hr'
    exact mem_filterMap.mpr ⟨_, he, by simp⟩

/-! ## A dead letter and its source record -/

/-- The row the runner stores of `y`, as it is read back. -/
def storedRow (reload : Record → Record) (id : Int) (y : Record) : DeadLetter :=
  { newDLQIdentityContext y with id, record := reload y }

/-- A record without the fields that the gate fills in or clears. -/
def withoutIdentity (r : Record) : Record :=
  { r with
    rejection := none
    metadata := { r.metadata with
      key := "", primaryKeyColumns := [], formatContractID := "", beforeImageState := .unset, replayProvenance := "" } }

/-- What is compared of two records. Where the gate marks the record as replayed, all but that mark; where it rebuilds the
identity, all but that. -/
def Gate.compared (G : Gate) (item : DeadLetter) (r : Record) : Record :=
  if G.required = false then r
  else if (recordIdentity item.record).complete then
    { r with metadata := { r.metadata with replayProvenance := "" } }
  else withoutIdentity r

/-- The row writes what the chain makes of `source`, whatever the sink answers, as long as the store takes its updates. -/
def ReplaysAs (G : Gate) (stages : List Stage) (item : DeadLetter) (source : Record) : Prop :=
  ∀ (E : Env) (retry : Config) (i : Nat) (log : Log), 0 < retry.maxAttempts → (∀ n d, ¬d.acked → E.update n d = none) →
    ∃ evs, (replayRow E (replaySpec stages retry G) i item log).1 = log ++ evs ∧
      (∀ rs ∈ handed i evs, ∃ r, rs = [r] ∧ some (G.compared item r) = (written stages source).map (G.compared item)) ∧
      ((written stages source).isSome → handed i evs ≠ [])

variable {item : DeadLetter} {G : Gate}

theorem replaysAs_iff {source : Record} (hun : ¬item.acked) :
    ReplaysAs G stages item source ↔
      (again G stages item).map (G.compared item) = (written stages source).map (G.compared item) := by
  constructor
  · intro h
    have hpos : 0 < defaultConfig.maxAttempts := by decide
    obtain ⟨evs, hevs, hsame, hsome⟩ := h {} defaultConfig 0 [] hpos (fun _ _ _ => rfl)
    obtain ⟨evs', hevs', hiff⟩ := @replayRow_writes stages {} _ G hpos (fun _ _ _ => rfl) 0 _ hun []
    obtain rfl : evs = evs' := append_cancel_left (hevs.symm.trans hevs')
    cases hagain : again G stages item with
    | some r =>
      obtain ⟨r', heq, hr'⟩ := hsame [r] ((hiff [r]).mpr ⟨r, hagain, rfl⟩)
      obtain rfl : r = r' := by simpa using heq
      exact hr'
    | none =>
      cases hw : written stages source with
      | none => rfl
      | some r =>
        obtain ⟨rs, hrs⟩ := exists_mem_of_ne_nil _ (hsome (by rw [hw]; rfl))
        obtain ⟨r', hr', -⟩ := (hiff rs).mp hrs
        rw [hagain] at hr'
        cases hr'
  · intro h E retry i log hpos hstore
    obtain ⟨evs, hevs, hiff⟩ := @replayRow_writes stages E _ G hpos hstore i _ hun log
    refine ⟨evs, hevs, fun rs hrs => ?_, fun hsome => ?_⟩
    · obtain ⟨r, hr, rfl⟩ := (hiff rs).mp hrs
      refine ⟨r, rfl, ?_⟩
      rw [← h, hr]
      rfl
    · obtain ⟨r, hr⟩ := Option.isSome_iff_exists.mp hsome
      rw [hr, Option.map_some, Option.map_eq_some_iff] at h
      obtain ⟨r', hr', -⟩ := h
      exact ne_nil_of_mem ((hiff [r']).mpr ⟨r', hr', rfl⟩)

/-- What the record had been through does not show a second time, nor does the way into the store and back and through the
gate. A record that had been through the whole chain is left as it is; one that had come to transform `k` goes on from
there to the same record; of a source record the chain makes the same as before. -/
def Absorbed (G : Gate) (stages : List Stage) (item : DeadLetter) (x y : Record) : Point → Prop
  | .rejection | .recordTransform | .wholeBatch =>
    (again G stages item).map (G.compared item) = (written stages x).map (G.compared item)
  | .batchTransform k => ∃ r, chainOf (stages.take k) x = .ok r ∧
      (again G stages item).map (G.compared item) = (written (stages.drop k) r).map (G.compared item)
  | .behind => (again G stages item).map (G.compared item) = some (G.compared item y)

/-- From an intermediate record the rest of the chain leads where the whole chain leads from the source record. -/
theorem written_of_take {k : Nat} {r : Record} (h : chainOf (stages.take k) x = .ok r) :
    written stages x = written (stages.drop k) r := by
  unfold written
  conv_lhs => rw [← take_append_drop k stages]
  rw [chainOf_append, h]
  rfl

theorem replaysAs_iff_absorbed (hun : ¬item.acked) :
    ∀ {p : Point}, StoredAt stages x y p → (ReplaysAs G stages item x ↔ Absorbed G stages item x y p)
  | .rejection, _ | .recordTransform, _ | .wholeBatch, _ => replaysAs_iff hun
  | .batchTransform k, h => by
    obtain ⟨r, hr, -⟩ := h
    rw [replaysAs_iff hun, written_of_take hr]
    constructor
    · exact fun heq => ⟨r, hr, heq⟩
    · rintro ⟨r', hr', heq⟩
      obtain rfl : r = r' := Except.ok.inj (hr.symm.trans hr')
      exact heq
  | .behind, h => by
    rw [replaysAs_iff hun, written_eq_some.mpr h]
    rfl

/-- Without a required identity the gate is open. -/
theorem again_open (hopen : G.required = false) : again G stages item = written stages item.record := by
  have hadmits : G.admits = fun _ => true := by
    funext r
    simp [Gate.admits, hopen]
  have hverdict : G.verdict item = .pass item none := by
    rw [Gate.verdict, if_pos hopen]
  unfold again
  rw [hverdict, hadmits]
  cases h : written stages item.record <;> simp [h]

theorem compared_open (hopen : G.required = false) : G.compared item = id := by
  funext r
  rw [Gate.compared, if_pos hopen]
  rfl

/-- Every source record can be among the dead letters as it was read: rejected, refused by the first transform, or, if
there is none, by the sink. -/
theorem deadLettered_source (hrec : hasBatch stages = false) (x : Record) :
    (∃ F p, DeadLettered stages F [x] p x x) := by
  cases hr : x.rejection with
  | some rej => exact ⟨{}, _, .rejected mem_cons_self (by rw [hr]; nofun)⟩
  | none =>
    have hacc : (accepted [x])[0]? = some x := by
      simp [accepted, hr]
    cases stages with
    | nil => exact ⟨{}, _, .recordOutput hrec hacc rfl⟩
    | cons t ts =>
      exact ⟨{ fail := fun _ _ => some ({ msg := "unavailable" }, fun r => r.data) }, _, .recordTransform hrec hacc rfl⟩

/-- Without faults the chain of a record is `chainOf`. -/
theorem recordChain_noFaults (i : Nat) : ∀ (ts : List Stage) (k : Nat) (rec : Record),
    Pipeline.Stored.recordChain {} i k ts rec = chainOf ts rec
  | [], _, _ => rfl
  | t :: ts, k, rec => by
    rw [Pipeline.Stored.recordChain, chainOf, foldlM_cons]
    cases t.apply rec with
    | error e => rfl
    | ok r => exact recordChain_noFaults i ts (k + 1) r

/-- **Replay and the transforms.** A dead letter is replayed as its source record if and only if what the record had been
through is absorbed. A chain of record transforms of a pipeline that requires no identity has this for all its dead
letters if and only if it makes the same of a record and of its stored form, and leaves its own output as it is. -/
theorem replay_once_iff (G : Gate) (stages : List Stage) (reload : Record → Record) :
    (∀ F batch p x y id, DeadLettered stages F batch p x y →
      (ReplaysAs G stages (storedRow reload id y) x ↔ Absorbed G stages (storedRow reload id y) x y p)) ∧
    (hasBatch stages = false → G.required = false →
      ((∀ F batch p x y id, DeadLettered stages F batch p x y → ReplaysAs G stages (storedRow reload id y) x) ↔
        (∀ x, written stages (reload x) = written stages x) ∧
          ∀ x y, x.rejection = none → written stages x = some y → written stages y = some y)) := by
  have hun : ∀ id y, ¬(storedRow reload id y).acked := fun _ _ h => by cases h
  refine ⟨fun F batch p x y id h => replaysAs_iff_absorbed (hun id y) h.stored, fun hrec hopen => ?_⟩
  have hiff : ∀ id x y, ReplaysAs G stages (storedRow reload id y) x ↔ written stages (reload y) = written stages x := by
    intro id x y
    rw [replaysAs_iff (hun id y), again_open hopen, compared_open hopen, Option.map_id]
    rfl
  simp only [hiff]
  refine ⟨fun hall => ?_, ?_⟩
  · have hreload : ∀ x, written stages (reload x) = written stages x := by
      intro x
      obtain ⟨F, p, hdead⟩ := deadLettered_source hrec x
      exact hall F _ p x x 0 hdead
    refine ⟨hreload, fun x y hr hxy => ?_⟩
    have hacc : (accepted [x])[0]? = some x := by
      simp [accepted, hr]
    have hdead : DeadLettered stages {} [x] .behind x y :=
      .recordOutput hrec hacc ((recordChain_noFaults 0 stages 0 x).trans (written_eq_some.mp hxy))
    rw [← hreload y, hall {} _ _ x y 0 hdead, hxy]
  · rintro ⟨hreload, hidem⟩ F batch p x y - hdead
    rw [hreload]
    cases hdead with
    | rejected => rfl
    | recordTransform => rfl
    | batchTransform hchain => simp [hrec] at hchain
    | wholeBatch hchain => simp [hrec] at hchain
    | batchOutput hchain => simp [hrec] at hchain
    | recordOutput hchain hx hok =>
      have hxy := written_eq_some.mpr (Pipeline.Stored.recordChain_ok hok)
      have hmem := mem_filter.mp (mem_of_getElem? hx)
      rw [hxy]
      exact hidem x y (by simpa using hmem.2) hxy

/-- `ProjectTransform` (builtin.go:222) with `mappings` only: a new map with the fields it renames. -/
def project (mappings : List (String × String)) : Stage where
  apply r := .ok { r with data := mappings.filterMap fun m => (r.data.get? m.1).map fun v => (m.2, v) }

/-- `DropFieldTransform` (builtin.go:354), which writes to the map it is given. -/
def dropField (field : String) : Stage where
  apply r := .ok { r with data := r.data.filter (fun p => p.1 != field) }
  left r := r.data.filter (fun p => p.1 != field)
  same := true
  same_left := by
    rintro - r r' h
    obtain rfl := Except.ok.inj h
    rfl

/-- A batch transform that asks a service and keeps the records as they are. -/
def askService : Stage where
  apply r := .ok r
  batch := true

theorem written_dropField (field : String) (x : Record) :
    written [dropField field] x = some { x with data := x.data.filter (fun p => p.1 != field) } := rfl

/-- An INSERT with a key. -/
def keyed : Record :=
  { data := [("id", .str "a"), ("secret", .str "s")]
    metadata := { key := "\x7b\"id\":\"a\"\x7d", primaryKeyColumns := ["id"] } }

/-- What a chain that drops a field makes of it. -/
def keyedOnly : Record := { keyed with data := [("id", .str "a")] }

/-- A chain that drops a field replays all its dead letters right; also, where an identity is required, a record that the
sink refused. -/
theorem replay_once_dropField :
    (∀ F batch p x y n, DeadLettered [dropField "secret"] F batch p x y →
      ReplaysAs {} [dropField "secret"] (storedRow id n y) x) ∧
    ReplaysAs { required := true } [dropField "secret"] (storedRow id 1 keyedOnly) keyed := by
  constructor
  · refine ((replay_once_iff {} [dropField "secret"] id).2 rfl rfl).mpr ⟨fun _ => rfl, fun x y _ h => ?_⟩
    rw [written_dropField] at h ⊢
    cases h
    simp
  · have hdead : DeadLettered [dropField "secret"] {} [keyed] .behind keyed keyedOnly :=
      .recordOutput rfl (i := 0) rfl rfl
    refine ((replay_once_iff { required := true } [dropField "secret"] id).1 _ _ _ _ _ 1 hdead).mpr ?_
    show Option.map _ _ = _
    decide +kernel

def order (column : String) : Record := { data := [(column, .int64 7)] }

/-- A renamed column is not found under its old name the second time: the replay writes a record without it. Refused by
the sink, and by a batch transform behind the one that renames. -/
theorem replay_loses_renamed_column :
    (DeadLettered [project [("old", "new")]] {} [order "old"] .behind (order "old") (order "new") ∧
      written [project [("old", "new")]] (order "old") = some (order "new") ∧
      written [project [("old", "new")]] (order "new") = some { order "new" with data := [] } ∧
      ¬ReplaysAs {} [project [("old", "new")]] (storedRow id 1 (order "new")) (order "old")) ∧
    (DeadLettered [project [("old", "new")], askService]
        { fail := fun k _ => if k = 1 then some ({ msg := "unavailable" }, fun r => r.data) else none }
        [order "old"] (.batchTransform 1) (order "old") (order "new") ∧
      ¬ReplaysAs {} [project [("old", "new")], askService] (storedRow id 1 (order "new")) (order "old")) := by
  refine ⟨⟨.recordOutput rfl (i := 0) rfl rfl, rfl, rfl, ?_⟩, ?_, ?_⟩
  · rw [replaysAs_iff (by decide)]
    decide
  · exact .batchTransform (f := ⟨1, order "old", order "new", { msg := "unavailable" }⟩) rfl rfl mem_cons_self
  · rw [replaysAs_iff (by decide)]
    decide

end OpenEtl.Server
