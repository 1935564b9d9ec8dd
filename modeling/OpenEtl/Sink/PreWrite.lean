import OpenEtl.Lib.Trace
import OpenEtl.Sink.Relational

/-!
# `pre_write` of the MySQL and PostgreSQL sinks (`sink/pre_write.go`)

| here | there |
| --- | --- |
| `preWriteTable` | the choice of the table (mysql.go:349-359, postgres.go:332-340) |
| `plan`, `step` | `MySQLSink.Write` (mysql.go:334-470), `PostgresSink.Write` (postgres.go:319-449), with `ExecSQL`, `ExecPgx` |
| `Writing.executed` | `PreWriteConfig.executed`, reset by `Open` (`ResetExecution`) |

The flag `executed` is set when the statement has run, not when its transaction is committed, and the statement is run
for one table only. On MySQL a `TRUNCATE` commits, and the statements behind it commit one by one: such a statement has
taken effect even if its answer is lost and the write fails.
-/

namespace OpenEtl.Sink.Sql

open List

inductive PreWriteAction
  | delete | truncate | truncatePartition
deriving DecidableEq, Repr

inductive Fault
  /-- before the transaction has begun -/
  | start
  /-- in the `pre_write` statement, which may have been carried out -/
  | preWrite (applied : Bool)
  /-- in the statement behind `k` statements for rows, which may have been carried out -/
  | rows (k : Nat) (applied : Bool)
  /-- in `COMMIT`, which may have been carried out -/
  | commit (applied : Bool)
deriving DecidableEq, Repr

structure Call where
  records : List Record
  fault : Option Fault := none

def Statement.table : Statement → String
  | .insert table _ _ _ _ => table
  | .delete table _ _ => table

inductive Effect
  | preWrite (table : String)
  | rows (statement : Statement)

def Effect.isPreWrite (t : String) : Effect → Bool
  | .preWrite table => table == t
  | .rows _ => false

def Effect.written : Effect → Option String
  | .preWrite _ => none
  | .rows statement => some statement.table

open Effect (isPreWrite rows written)

/-- A sink since its start, and the transactions that were committed. -/
structure Writing where
  executed : Bool := false
  committed : List (List Effect) := []
  /-- how many writes have committed -/
  commits : Nat := 0

section

variable (C : Cfg) (S : Server) (action : PreWriteAction)

/-- A `TRUNCATE` on MySQL ends the transaction it is in. -/
def implicitCommit : Bool := C.dialect == .mysql && action == .truncate

def preWriteTable (records : List Record) : String :=
  if C.table ≠ "" then C.table else ((records.map (targetTable C)).find? (· ≠ "")).getD ""

/-- The statements of the groups up to the first that has no column to write; none if a key to delete by is
missing, which shows while the groups are formed. -/
def rowStatements (byTable : List (String × List String)) : List (List Record) → List Statement × Bool
  | [] => ([], true)
  | group :: groups =>
    match groupStatements C S byTable group with
    | .error _ => ([], false)
    | .ok statements => (statements ++ (rowStatements byTable groups).1, (rowStatements byTable groups).2)

def keysResolve (byTable : List (String × List String)) (records : List Record) : Bool :=
  records.all fun r => r.operation ≠ .delete ||
    (resolveDeleteKeys r (statementPk C byTable (targetTable C r))).toBool

/-- What a write does: the table of its `pre_write`, the statements that are carried out, and whether none fails. -/
structure Plan where
  table : String
  rows : List Statement
  complete : Bool

/-- Nothing, if the records are rejected, the transaction is not begun, or there is no table to name. A
statement without a table name fails. -/
def plan (call : Call) : Option Plan :=
  match prepare C call.records with
  | .error _ => none
  | .ok (byTable, expanded) =>
    if expanded = [] ∨ call.fault = some .start ∨ preWriteTable C expanded = "" then none
    else
      let records := compactRecordsByPK (pkColumnsForTable C byTable) expanded
      let all := if keysResolve C byTable records then rowStatements C S byTable (groups C S records) else ([], false)
      let named := all.1.takeWhile fun statement => statement.table ≠ ""
      let (answered, carriedOut) := match call.fault with
        | some (.rows k applied) => (k, if applied then k + 1 else k)
        | _ => (all.1.length, all.1.length)
      some {
        table := preWriteTable C expanded
        rows := named.take carriedOut
        complete := all.2 && decide (named.length = all.1.length) && decide (all.1.length ≤ answered) }

/-- The write commits, whether or not it is told so. -/
def Plan.lands (p : Plan) (fault : Option Fault) : Bool := p.complete && decide (fault ≠ some (.commit false))

def failsPreWrite : Option Fault → Bool
  | some (.preWrite _) => true
  | _ => false

def step (w : Writing) (call : Call) : Writing :=
  match plan C S call with
  | none => w
  | some p =>
    let commits := if p.lands call.fault then w.commits + 1 else w.commits
    if w.executed then
      { w with
        committed := if p.lands call.fault then w.committed ++ [p.rows.map .rows] else w.committed
        commits }
    else if failsPreWrite call.fault then
      if implicitCommit C action && decide (call.fault = some (.preWrite true)) then
        { w with committed := w.committed ++ [[.preWrite p.table]] }
      else w
    else if implicitCommit C action then
      { executed := true
        committed := w.committed ++ [.preWrite p.table] :: p.rows.map fun statement => [.rows statement]
        commits }
    else
      { executed := true
        committed :=
          if p.lands call.fault then w.committed ++ [.preWrite p.table :: p.rows.map .rows] else w.committed
        commits }

def runCalls (calls : List Call) : Writing := calls.foldl (step C S action) {}

end

/-! ## The property -/

def Writing.tables (w : Writing) : List String := w.committed.flatten.filterMap written

/-- If a write has committed, the action was committed once for each table that was written, in the first
transaction and before its rows, and behind none of the table's rows. -/
def Writing.OncePerStart (w : Writing) : Prop :=
  0 < w.commits → ∀ t ∈ w.tables,
    w.committed.flatten.countP (isPreWrite t) = 1 ∧
    (∃ init rest more, w.committed = (init ++ .preWrite t :: rest) :: more ∧ init.filterMap written = []) ∧
    ∀ init rest, w.committed.flatten = init ++ .preWrite t :: rest → t ∉ init.filterMap written

/-! ## The condition -/

section

variable (C : Cfg) (S : Server) (action : PreWriteAction)

/-- The write reaches the `pre_write` statement, which does not fail. -/
def Call.arms (call : Call) : Bool := (plan C S call).isSome && !failsPreWrite call.fault

def Call.lands (call : Call) : Bool := (plan C S call).any (·.lands call.fault)

def Call.tables (call : Call) : List String :=
  match plan C S call with
  | none => []
  | some p => p.rows.map Statement.table

def Call.preWriteTable (call : Call) : String :=
  match plan C S call with
  | none => ""
  | some p => p.table

/-- The table of a `pre_write` statement that fails and has been committed all the same. -/
def Call.lost (call : Call) : Option String :=
  match plan C S call with
  | none => none
  | some p => if implicitCommit C action && decide (call.fault = some (.preWrite true)) then some p.table else none

/-- The tables whose `pre_write` statement is committed: by the writes that lose its answer, and by the first that does
not fail in it, if that write commits or the statement does. -/
def actions (init : List Call) (first : Call) : List String :=
  init.filterMap (Call.lost C S action) ++
    if first.lands C S || implicitCommit C action then [first.preWriteTable C S] else []

/-- A row of the table is committed, by the first write whose `pre_write` statement does not fail or behind it. -/
def Writes (first : Call) (rest : List Call) (t : String) : Prop :=
  ((first.lands C S = true ∨ implicitCommit C action = true) ∧ t ∈ first.tables C S) ∨
    ∃ call ∈ rest, call.lands C S = true ∧ t ∈ call.tables C S

/-- If a write commits, the first of the actions is that of each table that is written, and no other one is. -/
def Settled (calls : List Call) : Prop :=
  match calls.dropWhile fun call => !call.arms C S with
  | [] => True
  | first :: rest => (∃ call ∈ first :: rest, call.lands C S = true) → ∀ t, Writes C S action first rest t →
      ∃ others, actions C S action (calls.takeWhile fun call => !call.arms C S) first = t :: others ∧ t ∉ others

end

/-! ## What a run commits -/

variable {C : Cfg} {S : Server} {action : PreWriteAction} {w : Writing} {call : Call} {calls : List Call}

section

variable (C S)

/-- The transaction of a write that does not run the action. -/
def Call.transaction (call : Call) : Option (List Effect) :=
  (plan C S call).bind fun p => if p.lands call.fault then some (p.rows.map .rows) else none

/-- The transactions of the write that runs the action. -/
def Call.armed (action : PreWriteAction) (call : Call) : List (List Effect) :=
  match plan C S call with
  | none => []
  | some p =>
    if implicitCommit C action then [.preWrite p.table] :: p.rows.map fun statement => [.rows statement]
    else if p.lands call.fault then [.preWrite p.table :: p.rows.map .rows]
    else []

end

theorem step_of_not_arms (hw : w.executed = false) (h : call.arms C S = false) : step C S action w call =
    { w with committed := w.committed ++ (call.lost C S action).toList.map fun t => [.preWrite t] } := by
  obtain ⟨executed, committed, commits⟩ := w
  subst hw
  rw [step, Call.lost]
  cases hp : plan C S call with
  | none => simp
  | some p =>
    have hfault : failsPreWrite call.fault = true := by simpa [Call.arms, hp] using h
    simp only [hfault, if_true, Bool.false_eq_true, if_false]
    cases implicitCommit C action && decide (call.fault = some (.preWrite true)) <;> simp

/-- Before the action has run, the statements whose answer is lost are committed. -/
theorem foldl_of_not_arms {calls : List Call} (hw : w.executed = false) (h : ∀ call ∈ calls, call.arms C S = false) :
    calls.foldl (step C S action) w =
      { w with committed := w.committed ++ (calls.filterMap (Call.lost C S action)).map fun t => [.preWrite t] } := by
  induction calls generalizing w with
  | nil => simp
  | cons call calls ih =>
    rw [foldl_cons, step_of_not_arms hw (h call mem_cons_self), ih]
    · cases hlost : call.lost C S action <;> simp [hlost]
    · exact hw
    · exact fun x hx => h x (mem_cons_of_mem _ hx)

theorem step_of_executed (hw : w.executed = true) : step C S action w call =
    { executed := true
      committed := w.committed ++ (call.transaction C S).toList
      commits := w.commits + if call.lands C S then 1 else 0 } := by
  obtain ⟨executed, committed, commits⟩ := w
  subst hw
  rw [step, Call.transaction, Call.lands]
  cases hp : plan C S call with
  | none => simp
  | some p => cases hl : p.lands call.fault <;> simp [hl]

/-- Once the action has run, each write commits its rows. -/
theorem foldl_of_executed {calls : List Call} (hw : w.executed = true) : calls.foldl (step C S action) w =
    { executed := true
      committed := w.committed ++ calls.filterMap (Call.transaction C S)
      commits := w.commits + calls.countP (Call.lands C S) } := by
  induction calls generalizing w with
  | nil =>
    obtain ⟨executed, committed, commits⟩ := w
    subst hw
    simp
  | cons call calls ih =>
    rw [foldl_cons, step_of_executed hw, ih rfl, countP_cons, filterMap_cons, Nat.add_assoc,
      Nat.add_comm (calls.countP _)]
    cases htx : call.transaction C S with
    | none => simp
    | some tx => simp

theorem step_of_arms (hw : w.executed = false) (h : call.arms C S = true) : step C S action w call =
    { executed := true
      committed := w.committed ++ call.armed C S action
      commits := w.commits + if call.lands C S then 1 else 0 } := by
  rw [step, Call.armed, Call.lands]
  cases hp : plan C S call with
  | none => simp [Call.arms, hp] at h
  | some p =>
    have hfault : failsPreWrite call.fault = false := by simpa [Call.arms, hp] using h
    cases implicitCommit C action <;> cases hl : p.lands call.fault <;> simp [hw, hfault, hl]

theorem dropWhile_cases {α : Type*} (p : α → Bool) (l : List α) :
    (l.dropWhile p = [] ∧ ∀ x ∈ l, p x = true) ∨
      ∃ init a rest, l.dropWhile p = a :: rest ∧ l = init ++ a :: rest ∧ (∀ x ∈ init, p x = true) ∧ p a = false := by
  induction l with
  | nil => exact .inl ⟨rfl, by simp⟩
  | cons x l ih =>
    cases hx : p x with
    | false => exact .inr ⟨[], x, l, by simp [hx], rfl, by simp, hx⟩
    | true =>
      rcases ih with ⟨hnil, hall⟩ | ⟨init, a, rest, hdrop, rfl, hall, ha⟩
      · exact .inl ⟨by simp [hx, hnil], by simpa [hx] using hall⟩
      · exact .inr ⟨x :: init, a, rest, by simp [hx, hdrop], rfl, by simpa [hx] using hall, ha⟩

variable {first : Call} {rest : List Call}

/-- What a run has committed, up to the first write whose `pre_write` statement does not fail, by it, and behind it. -/
theorem run_of_armed {init : List Call} (hinit : ∀ call ∈ init, call.arms C S = false)
    (hfirst : first.arms C S = true) : runCalls C S action (init ++ first :: rest) =
      { executed := true
        committed := (init.filterMap (Call.lost C S action)).map (fun t => [.preWrite t]) ++
          first.armed C S action ++ rest.filterMap (Call.transaction C S)
        commits := (first :: rest).countP (Call.lands C S) } := by
  rw [runCalls, foldl_append, foldl_of_not_arms rfl hinit, foldl_cons, step_of_arms rfl hfirst,
    foldl_of_executed rfl, countP_cons, Nat.add_comm]
  simp [Nat.add_comm]

/-! ## Rows -/

def RowsOnly (effects : List Effect) : Prop := ∀ e ∈ effects, ∃ statement, e = .rows statement

theorem rowsOnly_map (statements : List Statement) : RowsOnly (statements.map .rows) := by
  intro e he
  obtain ⟨statement, -, rfl⟩ := mem_map.mp he
  exact ⟨statement, rfl⟩

theorem RowsOnly.append {l l' : List Effect} (h : RowsOnly l) (h' : RowsOnly l') : RowsOnly (l ++ l') := by
  intro e he
  rcases mem_append.mp he with he | he
  · exact h e he
  · exact h' e he

theorem rowsOnly_transactions (calls : List Call) : RowsOnly (calls.filterMap (Call.transaction C S)).flatten := by
  intro e he
  obtain ⟨tx, htx, he⟩ := mem_flatten.mp he
  obtain ⟨call, -, hcall⟩ := mem_filterMap.mp htx
  obtain ⟨p, -, hp⟩ := Option.bind_eq_some_iff.mp hcall
  split at hp
  · cases hp
    exact rowsOnly_map _ e he
  · exact absurd hp.symm (Option.some_ne_none _)

theorem RowsOnly.countP {l : List Effect} (h : RowsOnly l) (t : String) : l.countP (isPreWrite t) = 0 := by
  rw [countP_eq_zero]
  intro e he
  obtain ⟨statement, rfl⟩ := h e he
  exact Bool.false_ne_true

theorem mem_written_transactions {calls : List Call} {t : String} :
    t ∈ (calls.filterMap (Call.transaction C S)).flatten.filterMap written ↔
      ∃ call ∈ calls, call.lands C S = true ∧ t ∈ call.tables C S := by
  induction calls with
  | nil => simp
  | cons call calls ih =>
    simp only [mem_cons, or_and_right, exists_or, exists_eq_left]
    rw [← ih, filterMap_cons, Call.transaction, Call.lands, Call.tables]
    cases hp : plan C S call with
    | none => simp
    | some p => cases hl : p.lands call.fault <;> simp [hl, written]

/-- Actions in front of all rows, the first of them in front of its transaction. -/
theorem oncePerStart_iff_of_front {T : String} {others : List String} {first : List Effect} {more : List (List Effect)}
    {effects : List Effect} (hw : w.committed = (.preWrite T :: first) :: more) (hfirst : RowsOnly first)
    (hflat : first ++ more.flatten = others.map .preWrite ++ effects) (hrows : RowsOnly effects) :
    w.OncePerStart ↔ (0 < w.commits → ∀ t ∈ w.tables, t = T ∧ t ∉ others) := by
  have hflat : w.committed.flatten = .preWrite T :: (others.map .preWrite ++ effects) := by
    rw [hw, flatten_cons, cons_append, hflat]
  have hcountP (t : String) : (others.map Effect.preWrite).countP (isPreWrite t) = others.count t := by
    rw [countP_map]
    rfl
  refine forall_congr' fun _ => forall₂_congr fun t _ => ?_
  constructor
  · rintro ⟨hcount, ⟨init, rest, more', hfront, -⟩, -⟩
    obtain rfl : t = T := by
      rw [hw] at hfront
      cases init with
      | nil => simp at hfront; exact hfront.1.1.symm
      | cons e init =>
        obtain ⟨hhead, -⟩ := List.cons.inj hfront
        obtain ⟨statement, hrow⟩ := hfirst (.preWrite t) (by rw [(List.cons.inj hhead).2]; simp)
        cases hrow
    rw [hflat, countP_cons, countP_append, hrows.countP, hcountP, if_pos (by simp [isPreWrite])] at hcount
    exact ⟨rfl, count_eq_zero.mp (by omega)⟩
  · rintro ⟨rfl, hother⟩
    refine ⟨?_, ⟨[], first, more, hw, rfl⟩, ?_⟩
    · rw [hflat, countP_cons, countP_append, hrows.countP, hcountP, count_eq_zero.mpr hother]
      simp [isPreWrite]
    · intro init rest heq
      rw [hflat] at heq
      cases init with
      | nil => exact not_mem_nil
      | cons e init =>
        -- a second action on the table would be one of the others, or among the rows
        have hmem : Effect.preWrite t ∈ others.map .preWrite ++ effects := by
          rw [(List.cons.inj heq).2]
          exact mem_append_right _ mem_cons_self
        rcases mem_append.mp hmem with hmem | hmem
        · exact absurd (by simpa using hmem) hother
        · obtain ⟨statement, hrow⟩ := hrows _ hmem
          cases hrow

/-- No action at all. -/
theorem oncePerStart_iff_of_rows (hrows : RowsOnly w.committed.flatten) :
    w.OncePerStart ↔ (0 < w.commits → ∀ t, t ∉ w.tables) := by
  refine forall_congr' fun _ => forall_congr' fun t => ?_
  constructor
  · intro h ht
    obtain ⟨hcount, -, -⟩ := h ht
    rw [hrows.countP] at hcount
    cases hcount
  · intro h ht
    exact absurd ht h

/-! ## When the action is committed once -/

variable {init : List Call}

theorem lost_eq_nil (hi : implicitCommit C action = false) (calls : List Call) :
    calls.filterMap (Call.lost C S action) = [] := by
  refine filterMap_eq_nil_iff.mpr fun call _ => ?_
  rw [Call.lost]
  cases plan C S call <;> simp [hi]

/-- The transactions of the actions and of the write that runs the last of them. -/
def fronts (C : Cfg) (S : Server) (action : PreWriteAction) (init : List Call) (first : Call) : List (List Effect) :=
  (init.filterMap (Call.lost C S action)).map (fun t => [.preWrite t]) ++ first.armed C S action

/-- An action that is not committed leaves nothing. -/
theorem fronts_of_rolled_back (hl : first.lands C S = false) (hi : implicitCommit C action = false) :
    actions C S action init first = [] ∧ fronts C S action init first = [] := by
  rw [actions, fronts, lost_eq_nil hi, Call.armed]
  rw [Call.lands] at hl ⊢
  cases hp : plan C S first <;> simp_all

/-- The actions are in front of all rows, the first of them in front of its transaction. -/
theorem fronts_of_kept (hfirst : first.arms C S = true)
    (hkept : first.lands C S = true ∨ implicitCommit C action = true) : ∃ T others front more effects,
      actions C S action init first = T :: others ∧ fronts C S action init first = (.preWrite T :: front) :: more ∧
      RowsOnly front ∧ front ++ more.flatten = others.map .preWrite ++ effects ∧ RowsOnly effects ∧
      effects.filterMap written = first.tables C S := by
  rw [actions, fronts, if_pos (by simpa using hkept), Call.armed, Call.preWriteTable, Call.tables]
  cases hp : plan C S first with
  | none => simp [Call.arms, hp] at hfirst
  | some p =>
    cases hi : implicitCommit C action with
    | true =>
      -- each action is a transaction of its own
      have hne : init.filterMap (Call.lost C S action) ++ [p.table] ≠ [] := by simp
      obtain ⟨T, others, hacts⟩ := exists_cons_of_ne_nil hne
      refine ⟨T, others, [], others.map (fun t => [.preWrite t]) ++ p.rows.map fun statement => [.rows statement],
        p.rows.map .rows, hacts, ?_, by simp [RowsOnly], ?_, rowsOnly_map _, by simp [written, Function.comp_def]⟩
      · have hmap : (init.filterMap (Call.lost C S action)).map (fun t => [Effect.preWrite t]) ++ [[.preWrite p.table]] =
            [.preWrite T] :: others.map fun t => [.preWrite t] := by
          simpa using congrArg (map fun t => [Effect.preWrite t]) hacts
        rw [← cons_append, ← hmap]
        simp
      · rw [nil_append, flatten_append, ← flatMap_def, ← flatMap_def, ← map_eq_flatMap, ← map_eq_flatMap]
    | false =>
      have hl : p.lands first.fault = true := by simpa [Call.lands, hp, hi] using hkept
      exact ⟨p.table, [], p.rows.map .rows, [], p.rows.map .rows, by simp [lost_eq_nil hi], by simp [lost_eq_nil hi, hl],
        rowsOnly_map _, by simp, rowsOnly_map _, by simp [written, Function.comp_def]⟩

theorem oncePerStart_armed_iff {n : Nat} (hfirst : first.arms C S = true) :
    Writing.OncePerStart ⟨true, fronts C S action init first ++ rest.filterMap (Call.transaction C S), n⟩ ↔
      (0 < n → ∀ t, Writes C S action first rest t →
        ∃ others, actions C S action init first = t :: others ∧ t ∉ others) := by
  have hrest := rowsOnly_transactions (C := C) (S := S) rest
  have hlater (t : String) := @mem_written_transactions C S rest t
  by_cases hkept : first.lands C S = true ∨ implicitCommit C action = true
  · obtain ⟨T, others, front, more, effects, hacts, hfronts, hfront, hflat, heffects, htables⟩ :=
      @fronts_of_kept C S action first init hfirst hkept
    have hcommitted : fronts C S action init first ++ rest.filterMap (Call.transaction C S) =
        (.preWrite T :: front) :: (more ++ rest.filterMap (Call.transaction C S)) := by
      rw [hfronts, cons_append]
    have hrows : front ++ (more ++ rest.filterMap (Call.transaction C S)).flatten =
        others.map .preWrite ++ (effects ++ (rest.filterMap (Call.transaction C S)).flatten) := by
      rw [flatten_append, ← append_assoc, hflat, append_assoc]
    rw [oncePerStart_iff_of_front hcommitted hfront hrows (heffects.append hrest), hacts]
    have hmem (t : String) : t ∈ Writing.tables
        ⟨true, fronts C S action init first ++ rest.filterMap (Call.transaction C S), n⟩ ↔
          Writes C S action first rest t := by
      have hothers : (others.map Effect.preWrite).filterMap written = [] := by
        simp [filterMap_map, Function.comp_def, written]
      rw [Writing.tables, hcommitted, flatten_cons, flatten_append, cons_append, ← append_assoc, hflat]
      simp only [filterMap_cons, written, filterMap_append, hothers, htables, nil_append, mem_append, hlater, Writes,
        hkept, true_and]
    refine forall_congr' fun _ => forall_congr' fun t => ?_
    rw [hmem]
    refine imp_congr_right fun _ => ⟨?_, ?_⟩
    · rintro ⟨rfl, hother⟩
      exact ⟨others, rfl, hother⟩
    · rintro ⟨others', heq, hother⟩
      obtain ⟨rfl, rfl⟩ := List.cons.inj heq
      exact ⟨rfl, hother⟩
  · obtain ⟨hacts, hfronts⟩ := @fronts_of_rolled_back C S action first init (by simp_all) (by simp_all)
    rw [hfronts, nil_append, oncePerStart_iff_of_rows hrest, hacts]
    refine forall_congr' fun _ => forall_congr' fun t => ?_
    rw [show t ∈ Writing.tables ⟨true, rest.filterMap (Call.transaction C S), n⟩ ↔ _ from hlater t]
    simp [Writes, hkept]

theorem not_arms_of_drop {calls : List Call} (h : ∀ call ∈ calls, (!call.arms C S) = true) :
    ∀ call ∈ calls, call.arms C S = false := by simpa using h

/-- If a write commits, the action is committed once, before the rows of each table that is written, exactly if the
first action that takes effect is that of the table, and no other one is. -/
theorem pre_write_once_iff (C : Cfg) (S : Server) (action : PreWriteAction) (calls : List Call) :
    (runCalls C S action calls).OncePerStart ↔ Settled C S action calls := by
  rcases dropWhile_cases (fun call => !call.arms C S) calls with
    ⟨hnil, hall⟩ | ⟨init, first, rest, hdrop, rfl, hinit, hfirst⟩
  · have hrun : (runCalls C S action calls).commits = 0 := by
      rw [runCalls, foldl_of_not_arms rfl (not_arms_of_drop hall)]
    rw [Settled, hnil]
    exact ⟨fun _ => trivial, fun _ h => absurd (hrun ▸ h) (lt_irrefl 0)⟩
  · have htake : (init ++ first :: rest).takeWhile (fun call => !call.arms C S) = init := by
      rw [takeWhile_append_of_pos hinit, takeWhile_cons_of_neg (by simpa using hfirst), append_nil]
    rw [run_of_armed (not_arms_of_drop hinit) (by simpa using hfirst), Settled, hdrop, htake, ← fronts,
      oncePerStart_armed_iff (by simpa using hfirst), countP_pos_iff]

/-! ## Where it is not -/

theorem not_increment (h : BatchMode.insert = .increment) : ([] : List (String × String)) ≠ [] := nomatch h

theorem chunkSize_pos : 0 < 500 := by decide

def tableSink (dialect : Dialect) (table : String) : Cfg where
  dialect
  table
  pkColumns := ["id"]
  increment_ne := not_increment
  chunk_pos := chunkSize_pos

theorem keyColumns_ne : ["id"] ≠ [] := cons_ne_nil _ _

theorem keyColumns_mem : ∀ c ∈ ["id"], c ∈ ["id"] := fun _ hc => hc

def keyTable : Server where
  schema _ :=
    { columns := ["id"], key := ["id"], key_ne := keyColumns_ne, key_columns := keyColumns_mem
      default := fun _ => .null, generated := [] }
  stored _ _ v := v
  plus a _ := a

def rowOn (table : String) : Record := { data := [("id", .int64 1)], metadata := { table } }

/-- The first write fails behind the action, and the second commits without it; the second table of a batch,
and a table that is not the configured one, are not cleared; a table is truncated again when the answer was lost. -/
theorem pre_write_not_once :
    ¬ (runCalls (tableSink .postgres "") keyTable .delete
        [⟨[rowOn "a"], some (.rows 0 false)⟩, ⟨[rowOn "a"], none⟩]).OncePerStart ∧
      ¬ (runCalls (tableSink .mysql "") keyTable .truncate [⟨[rowOn "a", rowOn "b"], none⟩]).OncePerStart ∧
        ¬ (runCalls (tableSink .mysql "c") keyTable .delete [⟨[rowOn "a"], none⟩]).OncePerStart ∧
          ¬ (runCalls (tableSink .mysql "a") keyTable .truncate
            [⟨[rowOn "a"], some (.preWrite true)⟩, ⟨[rowOn "a"], none⟩]).OncePerStart := by
  refine ⟨fun h => ?_, fun h => ?_, fun h => ?_, fun h => ?_⟩
  · exact absurd (h (by decide +kernel) "a" (by decide +kernel)).1 (by decide +kernel)
  · exact absurd (h (by decide +kernel) "b" (by decide +kernel)).1 (by decide +kernel)
  · exact absurd (h (by decide +kernel) "a" (by decide +kernel)).1 (by decide +kernel)
  · exact absurd (h (by decide +kernel) "a" (by decide +kernel)).1 (by decide +kernel)

end OpenEtl.Sink.Sql
