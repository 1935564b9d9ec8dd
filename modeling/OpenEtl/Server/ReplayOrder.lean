import OpenEtl.Server.DlqListing
import OpenEtl.Server.ReplayOnce

/-!
# The order of a replay (`server/server.go:4811-4917`)

A replay request lists the dead letters that its filter selects and writes them one by one in the order of the
listing. The listing has the newest first.
-/

namespace OpenEtl.Server.Dlq

open List Retry Trace

/-! ## What the sink is called with -/

/-- A call of the sink: the row it was for, its record, and whether it returned nil. -/
structure Call where
  row : Nat
  record : Record
  acked : Bool
deriving DecidableEq, Repr

def Event.call : Event → Option Call
  | .write i _ [r] err => some ⟨i, r, err.isNone⟩
  | _ => none

def calls (log : Log) : List Call := log.filterMap Event.call

def idOf (items : List DeadLetter) (i : Nat) : Int := ((items[i]?).map (·.id)).getD 0

/-- The rows are written in the order of their ids, which is the order in which they failed. -/
def InOrder (items : List DeadLetter) (log : Log) : Prop :=
  (calls log).Pairwise fun a b => idOf items a.row ≤ idOf items b.row

instance (items : List DeadLetter) (log : Log) : Decidable (InOrder items log) :=
  inferInstanceAs (Decidable ((calls log).Pairwise _))

def ackedOf {κ : Type} [DecidableEq κ] (key : Record → κ) (k : κ) (log : Log) : List Call :=
  (calls log).filter fun c => c.acked && key c.record = k

/-- A sink that keeps the last write of a key keeps the latest of those it has acknowledged. -/
def LatestWins {κ : Type} [DecidableEq κ] (key : Record → κ) (items : List DeadLetter) (log : Log) : Prop :=
  ∀ k, ∀ last ∈ (ackedOf key k log).getLast?, ∀ c ∈ ackedOf key k log, idOf items c.row ≤ idOf items last.row

/-- The rows a request can come to: those not acknowledged yet, up to the first that has nothing for the sink. -/
def toWrite (spec : LinearSpec) (items : List DeadLetter) : List (Nat × DeadLetter) :=
  (unacked 0 items).takeWhile fun p => (spec.sends p.1 p.2).isSome

theorem calls_append (evs evs' : List Event) : calls (evs ++ evs') = calls evs ++ calls evs' :=
  filterMap_append ..

theorem calls_unwritten {evs : List Event} (h : ∀ e ∈ evs, e.isWrite = false) : calls evs = [] := by
  unfold calls
  rw [filterMap_eq_nil_iff]
  intro e he
  have hw := h e he
  cases e with
  | write => simp [Event.isWrite] at hw
  | visit => rfl
  | noSink => rfl
  | update => rfl
  | delete => rfl

/-! ## Every call is for a row, in the order of the rows -/

section

variable {spec : LinearSpec} {E : Env}

def Call.From (spec : LinearSpec) (p : Nat × DeadLetter) (c : Call) : Prop :=
  c.row = p.1 ∧ spec.sends p.1 p.2 = some c.record

/-- What a row has been written with, and that the request goes on only behind a row that had something for the sink. -/
theorem replayRow_calls (spec : LinearSpec) (i : Nat) (item : DeadLetter) (log : Log) :
    ∃ evs, (replayRow E spec i item log).1 = log ++ evs ∧ (∀ c ∈ calls evs, c.From spec (i, item)) ∧
      ((replayRow E spec i item log).2 = none → (spec.sends i item).isSome) := by
  obtain ⟨log', ws, hnotes, ⟨more, hlog, hmore⟩, hw, hgoes, -⟩ := replayRow_logs E i item spec log
  obtain ⟨pre, rfl, hpre⟩ := hnotes.unwritten
  refine ⟨pre ++ ws ++ more, by rw [hlog, append_assoc log, append_assoc log], fun c hc => ?_, hgoes⟩
  rw [calls_append, calls_append, calls_unwritten hmore, calls_unwritten hpre, nil_append, append_nil] at hc
  obtain ⟨e, he, hsome⟩ := mem_filterMap.mp hc
  obtain ⟨r, err, hr, rfl⟩ := hw e he
  obtain rfl := Option.some.inj hsome
  exact ⟨rfl, hr⟩

/-- A relation between the rows in their order is one between the calls in their order. -/
theorem replayRows_calls (spec : LinearSpec) {P : Nat × DeadLetter → Nat × DeadLetter → Prop} :
    ∀ (ps : List (Nat × DeadLetter)) (log : Log),
      (ps.takeWhile fun p => (spec.sends p.1 p.2).isSome).Pairwise P →
        ∃ evs, (replayRows (replayRow E spec) ps log).1 = log ++ evs ∧
          (∀ c ∈ calls evs, ∃ p ∈ ps.takeWhile fun p => (spec.sends p.1 p.2).isSome, c.From spec p) ∧
          (calls evs).Pairwise fun a b => ∃ p ∈ ps, ∃ q ∈ ps, a.From spec p ∧ b.From spec q ∧ (p = q ∨ P p q)
  | [], log, _ => ⟨[], by simp [replayRows], by simp [calls], .nil⟩
  | (i, item) :: rest, log, hP => by
    obtain ⟨evs, hevs, hfrom, hgoes⟩ := replayRow_calls (E := E) spec i item log
    have hself : (calls evs).Pairwise fun a b => ∃ p ∈ (i, item) :: rest, ∃ q ∈ (i, item) :: rest,
        a.From spec p ∧ b.From spec q ∧ (p = q ∨ P p q) := by
      refine List.Pairwise.imp_of_mem ?_ (pairwise_of_forall (R := fun _ _ => True) fun _ _ => trivial)
      intro a b ha hb _
      exact ⟨_, mem_cons_self, _, mem_cons_self, hfrom a ha, hfrom b hb, .inl rfl⟩
    have hhead : ∀ c ∈ calls evs,
        (i, item) ∈ ((i, item) :: rest).takeWhile fun p => (spec.sends p.1 p.2).isSome := by
      intro c hc
      rw [takeWhile_cons, if_pos (by simp [(hfrom c hc).2])]
      exact mem_cons_self
    unfold replayRows
    rcases hr : replayRow E spec i item log with ⟨log', err⟩
    rw [hr] at hevs hgoes
    subst hevs
    cases err with
    | some e => exact ⟨evs, rfl, fun c hc => ⟨_, hhead c hc, hfrom c hc⟩, hself⟩
    | none =>
      have hsome := hgoes rfl
      have htake : (((i, item) :: rest).takeWhile fun p => (spec.sends p.1 p.2).isSome) =
          (i, item) :: rest.takeWhile fun p => (spec.sends p.1 p.2).isSome := by
        rw [takeWhile_cons, if_pos hsome]
      rw [htake] at hP ⊢
      obtain ⟨hfirst, hrest⟩ := pairwise_cons.mp hP
      obtain ⟨evs', hevs', hfrom', hpair'⟩ := replayRows_calls spec rest (log ++ evs) hrest
      refine ⟨evs ++ evs', by rw [hevs', append_assoc], ?_, ?_⟩
      · intro c hc
        rw [calls_append] at hc
        rcases mem_append.mp hc with hc | hc
        · exact ⟨_, mem_cons_self, hfrom c hc⟩
        · obtain ⟨p, hp, hcp⟩ := hfrom' c hc
          exact ⟨p, mem_cons_of_mem _ hp, hcp⟩
      · rw [calls_append, pairwise_append]
        refine ⟨hself, hpair'.imp ?_, ?_⟩
        · rintro a b ⟨p, hp, q, hq, h⟩
          exact ⟨p, mem_cons_of_mem _ hp, q, mem_cons_of_mem _ hq, h⟩
        · intro a ha b hb
          obtain ⟨q, hq, hbq⟩ := hfrom' b hb
          exact ⟨_, mem_cons_self, q, mem_cons_of_mem _ (( takeWhile_prefix _).subset hq), hfrom a ha, hbq,
            .inr (hfirst q hq)⟩

theorem unacked_sublist : ∀ (items : List DeadLetter) (i : Nat), ((unacked i items).map Prod.snd).Sublist items
  | [], _ => .slnil
  | item :: rest, i => by
    unfold unacked
    split
    · exact (unacked_sublist rest (i + 1)).cons item
    · exact (unacked_sublist rest (i + 1)).cons_cons item

variable {items : List DeadLetter}

theorem idOf_unacked {p : Nat × DeadLetter} (h : p ∈ unacked 0 items) : idOf items p.1 = p.2.id := by
  obtain ⟨-, k, hk, hget⟩ := mem_unacked h
  rw [idOf, hk, Nat.zero_add, hget]
  rfl

/-- The calls of a request, by the rows it can come to. -/
theorem replayDLQItems_calls {P : Nat × DeadLetter → Nat × DeadLetter → Prop} (hP : (toWrite spec items).Pairwise P) :
    (calls (replayDLQItems E spec items).1).Pairwise fun a b =>
      ∃ p q, idOf items a.row = p.2.id ∧ idOf items b.row = q.2.id ∧ a.From spec p ∧ b.From spec q ∧
        (p = q ∨ P p q) := by
  obtain ⟨⟨evs, hevs, hw⟩, hpending⟩ := cleanAcked_pending E items 0 []
  unfold replayDLQItems replayWith
  rcases hc : cleanAcked E 0 items [] with ⟨log, e | pending⟩ <;> rw [hc] at hevs hpending
  · rw [hevs, nil_append, calls_unwritten hw]
    exact .nil
  · obtain rfl := hpending pending rfl
    obtain ⟨evs', hevs', -, hpair⟩ := replayRows_calls (E := E) spec (unacked 0 items) log hP
    simp only at hevs ⊢
    rw [hevs', hevs, nil_append, calls_append, calls_unwritten hw, nil_append]
    refine hpair.imp ?_
    rintro a b ⟨p, hp, q, hq, ha, hb, hpq⟩
    exact ⟨p, q, by rw [ha.1, idOf_unacked hp], by rw [hb.1, idOf_unacked hq], ha, hb, hpq⟩

/-! ## A request that ends at a row -/

/-- The acknowledgement of this row cannot be stored. -/
def stopAt (id : Int) : Env where
  update := fun _ item => if item.id = id ∧ item.acked then some { msg := "database is locked" } else none

def callOf (spec : LinearSpec) (p : Nat × DeadLetter) : Call := ⟨p.1, (spec.sends p.1 p.2).getD default, true⟩

/-- The same spec with the default retries. -/
def retrying (spec : LinearSpec) : LinearSpec := { spec with retry := defaultConfig }

/-- Such a row is written and ends the request; every other one is written and leads on. -/
theorem replayRow_stopAt {item : DeadLetter} (hun : ¬item.acked) {i : Nat} (hsome : (spec.sends i item).isSome) (id : Int)
    (log : Log) :
    ∃ evs, (replayRow (stopAt id) (retrying spec) i item log).1 = log ++ evs ∧ calls evs = [callOf spec (i, item)] ∧
      (item.id ≠ id → (replayRow (stopAt id) (retrying spec) i item log).2 = none) ∧
      (item.id = id → id ≠ 0 → (replayRow (stopAt id) (retrying spec) i item log).2 ≠ none) := by
  obtain ⟨r, hr⟩ := Option.isSome_iff_exists.mp hsome
  have hstore : ∀ n d, ¬d.acked → (stopAt id).update n d = none := fun n d hd => if_neg fun h => hd h.2
  rcases replayRow_cases (stopAt id) i item (retrying spec) log with
    ⟨p, rec, log', hsends, hnotes, hrow, hid⟩ | ⟨-, -, hnone⟩
  swap
  · exact absurd (hnone hun hstore) (by rw [show (retrying spec).sends i item = some r from hr]; simp)
  obtain rfl : r = rec := Option.some.inj (hr.symm.trans hsends)
  have hcomplete : replayRow (stopAt id) (retrying spec) i item log =
      completeRow (stopAt id) i p (log' ++ [.write i "sink" [r] none]) := hrow.trans rfl
  rw [hcomplete]
  obtain ⟨pre, rfl, hpre⟩ := hnotes.unwritten
  obtain ⟨evs, hevs, hw⟩ := completeRow_unwritten (stopAt id) i p (log ++ pre ++ [.write i "sink" [r] none])
  refine ⟨pre ++ .write i "sink" [r] none :: evs, by rw [hevs]; simp, ?_, ?_, ?_⟩
  · rw [← singleton_append, calls_append, calls_append, calls_unwritten hw, calls_unwritten hpre, callOf, hr]
    rfl
  · intro hne
    have hne' : p.id ≠ id := hid hun ▸ hne
    unfold completeRow checkpointDLQReplay
    by_cases hzero : p.id = 0
    · simp [hzero, deleteReplayedDLQItem, stopAt]
    · simp [hzero, deleteReplayedDLQItem, stopAt, hne']
  · intro heq hzero
    have heq' : p.id = id := hid hun ▸ heq
    unfold completeRow checkpointDLQReplay
    simp [heq', hzero, stopAt]

theorem replayRows_stopAt {p : Nat × DeadLetter} (hp : (spec.sends p.1 p.2).isSome ∧ ¬p.2.acked)
    (hzero : p.2.id ≠ 0) : ∀ (pre post : List (Nat × DeadLetter)) (log : Log),
      (∀ q ∈ pre, ((spec.sends q.1 q.2).isSome ∧ ¬q.2.acked) ∧ q.2.id ≠ p.2.id) →
        ∃ evs, (replayRows (replayRow (stopAt p.2.id) (retrying spec)) (pre ++ p :: post) log).1 = log ++ evs ∧
          calls evs = pre.map (callOf spec) ++ [callOf spec p]
  | [], post, log, _ => by
    obtain ⟨evs, hevs, hcalls, -, hstop⟩ := replayRow_stopAt hp.2 hp.1 p.2.id log
    rw [nil_append, replayRows]
    rcases hr : replayRow (stopAt p.2.id) (retrying spec) p.1 p.2 log with ⟨log', _ | e⟩
    · rw [hr] at hstop
      exact absurd rfl (hstop rfl hzero)
    · rw [hr] at hevs
      exact ⟨evs, hevs, hcalls⟩
  | q :: pre, post, log, hpre => by
    obtain ⟨hq, hne⟩ := hpre q mem_cons_self
    obtain ⟨evs, hevs, hcalls, hgoes, -⟩ := replayRow_stopAt hq.2 hq.1 p.2.id log
    rw [cons_append, replayRows]
    rcases hr : replayRow (stopAt p.2.id) (retrying spec) q.1 q.2 log with ⟨log', _ | e⟩
    · rw [hr] at hevs
      obtain ⟨evs', hevs', hcalls'⟩ := replayRows_stopAt hp hzero pre post log'
        fun x hx => hpre x (mem_cons_of_mem _ hx)
      refine ⟨evs ++ evs', ?_, ?_⟩
      · simp only at hevs ⊢
        rw [hevs', hevs, append_assoc]
      · rw [calls_append, hcalls, hcalls']
        rfl
    · rw [hr] at hgoes
      exact absurd (hgoes hne) (by simp)

theorem cleanAcked_stopAt (id : Int) : ∀ (items : List DeadLetter) (i : Nat) (log : Log),
    (cleanAcked (stopAt id) i items log).2 = .ok (unacked i items)
  | [], _, _ => rfl
  | item :: rest, i, log => by
    unfold cleanAcked unacked DeadLetter.acked
    split
    · exact cleanAcked_stopAt id rest (i + 1) _
    · have hrest := cleanAcked_stopAt id rest (i + 1) log
      rcases hc : cleanAcked (stopAt id) (i + 1) rest log with ⟨log1, e | pending⟩ <;> rw [hc] at hrest
      · cases hrest
      · rw [← Except.ok.inj hrest]

variable {b : Nat × DeadLetter} {post pre : List (Nat × DeadLetter)}

/-- Any row a request can come to can be its last, written behind every row before it. -/
theorem replayDLQItems_stopAt {a : Nat × DeadLetter} (hids : (items.map (·.id)).Nodup) (hzero : ∀ d ∈ items, d.id ≠ 0)
    (hsplit : toWrite spec items = pre ++ b :: post) (ha : a ∈ pre) :
    ∃ cs, calls (replayDLQItems (stopAt b.2.id) (retrying spec) items).1 = cs ++ [callOf spec b] ∧
      callOf spec a ∈ cs ∧ idOf items a.1 = a.2.id ∧ idOf items b.1 = b.2.id ∧ a.2.id ≠ b.2.id ∧
      spec.sends a.1 a.2 = some (callOf spec a).record ∧ spec.sends b.1 b.2 = some (callOf spec b).record := by
  have hmem : ∀ x ∈ pre ++ b :: post, x ∈ unacked 0 items ∧ (spec.sends x.1 x.2).isSome ∧ ¬x.2.acked := by
    intro x hx
    rw [← hsplit] at hx
    have hin := ( takeWhile_prefix _).subset hx
    exact ⟨hin, by simpa using mem_takeWhile_imp hx, (mem_unacked hin).1⟩
  have hne : ∀ x ∈ pre, x.2.id ≠ b.2.id := by
    have hsub : ((toWrite spec items).map Prod.snd).Sublist items :=
      (( takeWhile_prefix _).sublist.map _).trans (unacked_sublist items 0)
    have hnodup := hids.sublist (hsub.map (·.id))
    rw [hsplit, map_map, map_append, nodup_append] at hnodup
    exact fun x hx => hnodup.2.2 _ (mem_map_of_mem hx) _ (by simp)
  have hcall : ∀ x ∈ pre ++ b :: post, spec.sends x.1 x.2 = some (callOf spec x).record := by
    intro x hx
    obtain ⟨r, hr⟩ := Option.isSome_iff_exists.mp (hmem x hx).2.1
    rw [callOf, hr]
    rfl
  have hb : b ∈ pre ++ b :: post := by simp
  obtain ⟨rest, hrest⟩ : ∃ rest, unacked 0 items = pre ++ b :: (post ++ rest) := by
    obtain ⟨rest, hrest⟩ := takeWhile_prefix (fun p : Nat × DeadLetter => (spec.sends p.1 p.2).isSome)
      (l := unacked 0 items)
    refine ⟨rest, ?_⟩
    rw [← hrest, show (unacked 0 items).takeWhile _ = _ from hsplit, append_assoc, cons_append]
  have hb0 : b.2.id ≠ 0 := by
    obtain ⟨-, k, -, hget⟩ := mem_unacked (hmem b hb).1
    exact hzero _ (mem_of_getElem? hget)
  refine ⟨pre.map (callOf spec), ?_, mem_map_of_mem ha, idOf_unacked (hmem a (mem_append_left _ ha)).1,
    idOf_unacked (hmem b hb).1, hne a ha, hcall a (mem_append_left _ ha), hcall b hb⟩
  obtain ⟨⟨evs, hevs, hw⟩, -⟩ := cleanAcked_pending (stopAt b.2.id) items 0 []
  have hok := cleanAcked_stopAt b.2.id items 0 []
  unfold replayDLQItems replayWith
  rcases hc : cleanAcked (stopAt b.2.id) 0 items [] with ⟨log, e | pending⟩ <;> rw [hc] at hok hevs
  · cases hok
  · obtain rfl := Except.ok.inj hok
    obtain ⟨evs', hevs', hcalls⟩ := replayRows_stopAt (hmem b hb).2 hb0 pre (post ++ rest) log fun x hx =>
      ⟨(hmem x (mem_append_left _ hx)).2, hne x hx⟩
    simp only at hevs ⊢
    rw [hrest, hevs', hevs, nil_append, calls_append, calls_unwritten hw, nil_append, hcalls]

end

/-! ## Which listings are replayed in order -/

theorem pairwise_of_split {α : Type} {R : α → α → Prop} {l : List α}
    (h : ∀ pre b post, l = pre ++ b :: post → ∀ a ∈ pre, R a b) : l.Pairwise R := by
  induction l using reverseRecOn with
  | nil => exact .nil
  | append_singleton l b ih =>
    rw [pairwise_append]
    refine ⟨ih fun pre c post hl => h pre c (post ++ [b]) (by simp [hl]), pairwise_singleton _ _, ?_⟩
    intro a ha c hc
    obtain rfl := mem_singleton.mp hc
    exact h l c [] rfl a ha

section

variable {spec : LinearSpec} {items : List DeadLetter}

theorem inOrder_iff (hids : (items.map (·.id)).Nodup) (hzero : ∀ d ∈ items, d.id ≠ 0) :
    (∀ E retry, InOrder items (replayDLQItems E { spec with retry } items).1) ↔
      (toWrite spec items).Pairwise fun a b => a.2.id < b.2.id := by
  constructor
  · intro h
    refine pairwise_of_split fun pre b post hsplit a ha => ?_
    obtain ⟨cs, hcalls, hc, hida, hidb, hne, -, -⟩ := replayDLQItems_stopAt hids hzero hsplit ha
    have hord := h (stopAt b.2.id) defaultConfig
    rw [InOrder, show replayDLQItems _ { spec with retry := defaultConfig } _ = replayDLQItems _ (retrying spec) _ from rfl,
      hcalls, pairwise_append] at hord
    have hle : idOf items a.1 ≤ idOf items b.1 := hord.2.2 _ hc _ mem_cons_self
    omega
  · intro h E retry
    refine (@replayDLQItems_calls { spec with retry } E _ _ h).imp ?_
    rintro a b ⟨p, q, hp, hq, -, -, hpq⟩
    rw [hp, hq]
    rcases hpq with rfl | hlt
    · exact le_rfl
    · exact hlt.le

theorem latestWins_iff {κ : Type} [DecidableEq κ] (key : Record → κ) (hids : (items.map (·.id)).Nodup)
    (hzero : ∀ d ∈ items, d.id ≠ 0) :
    (∀ E retry, LatestWins key items (replayDLQItems E { spec with retry } items).1) ↔
      (toWrite spec items).Pairwise fun a b =>
        (spec.sends a.1 a.2).map key = (spec.sends b.1 b.2).map key → a.2.id < b.2.id := by
  constructor
  · intro h
    refine pairwise_of_split fun pre b post hsplit a ha hkey => ?_
    obtain ⟨cs, hcalls, hc, hida, hidb, hne, hra, hrb⟩ := replayDLQItems_stopAt hids hzero hsplit ha
    rw [hra, hrb, Option.map_some, Option.map_some, Option.some.injEq] at hkey
    -- the last acknowledged write of the key is the one of `b`
    have hacked : ackedOf key (key (callOf spec b).record)
          (replayDLQItems (stopAt b.2.id) { spec with retry := defaultConfig } items).1 =
        (cs.filter fun c => c.acked && key c.record = key (callOf spec b).record) ++ [callOf spec b] := by
      rw [ackedOf, show replayDLQItems _ { spec with retry := defaultConfig } _ = replayDLQItems _ (retrying spec) _ from rfl,
        hcalls, filter_append, filter_singleton]
      simp [callOf]
    have hle : idOf items a.1 ≤ idOf items b.1 := by
      refine h (stopAt b.2.id) defaultConfig (key (callOf spec b).record) (callOf spec b) ?_ (callOf spec a) ?_
      · rw [hacked, getLast?_concat]
        rfl
      · rw [hacked]
        exact mem_append_left _ (mem_filter.mpr ⟨hc, decide_eq_true hkey⟩)
    omega
  · intro h E retry k
    have hord : (ackedOf key k (replayDLQItems E { spec with retry } items).1).Pairwise
        fun a b => idOf items a.row ≤ idOf items b.row := by
      refine List.Pairwise.imp_of_mem ?_
        ((@replayDLQItems_calls { spec with retry } E _ _ h).sublist filter_sublist)
      rintro a b ha hb ⟨p, q, hp, hq, ⟨-, hpa⟩, ⟨-, hqb⟩, hpq⟩
      have hka := (mem_filter.mp ha).2
      have hkb := (mem_filter.mp hb).2
      simp only [Bool.and_eq_true, decide_eq_true_eq] at hka hkb
      rw [hp, hq]
      rcases hpq with rfl | hlt
      · exact le_rfl
      · refine (hlt ?_).le
        rw [show spec.sends p.1 p.2 = _ from hpa, show spec.sends q.1 q.2 = _ from hqb, Option.map_some,
          Option.map_some, hka.2, hkb.2]
    intro last hlast c hc
    rcases le_getLast_of_pairwise hord hc hlast with rfl | hle
    · exact le_rfl
    · exact hle

end

/-! ## Stored rows -/

/-- The table: the database gives every row its own positive id. -/
structure Table (τ : Type) where
  rows : List (Row τ)
  ids_nodup : (rows.map (·.id)).Nodup
  ids_pos : ∀ row ∈ rows, 0 < row.id

/-- Of two rows the later one has the later time. -/
def Table.ClockForward {τ : Type} (T : Table τ) : Prop :=
  ∀ a ∈ T.rows, ∀ b ∈ T.rows, a.id < b.id → a.createdAt < b.createdAt

instance {τ : Type} (T : Table τ) : Decidable T.ClockForward :=
  inferInstanceAs (Decidable (∀ a ∈ T.rows, ∀ b ∈ T.rows, a.id < b.id → a.createdAt < b.createdAt))

section

variable {τ : Type} {D : Database τ} {T : Table τ} {f : Filter} {items : List DeadLetter}

section

variable (h : listDeadLetters D f T.rows = .ok items)

include h

theorem ids_of_listing :
    ∃ read : List (Row τ), read.Sublist (listed D f T.rows) ∧ items.map (·.id) = read.map (·.id) := by
  obtain ⟨read, hsub, hread⟩ := scan_ok h
  refine ⟨read, hsub, ?_⟩
  clear h hsub
  induction hread with
  | nil => rfl
  | cons hrow _ ih =>
    obtain ⟨rec, c, -, -, rfl⟩ := hrow
    rw [map_cons, map_cons, ih]
    rfl

theorem listing_nodup : (items.map (·.id)).Nodup := by
  obtain ⟨read, hsub, heq⟩ := ids_of_listing h
  rw [heq]
  exact (listed_nodup T.ids_nodup).sublist (hsub.map _)

theorem listing_ne_zero : ∀ d ∈ items, d.id ≠ 0 := by
  intro d hd
  obtain ⟨read, hsub, heq⟩ := ids_of_listing h
  have hmem : d.id ∈ read.map (·.id) := by
    rw [← heq]
    exact mem_map_of_mem hd
  obtain ⟨row, hrow, hid⟩ := mem_map.mp hmem
  have hpos := T.ids_pos row (mem_of_listed (hsub.subset hrow)).1
  omega

end

/-- With a clock that goes forward a listing has the latest first. -/
theorem listing_desc (hclock : T.ClockForward) (h : listDeadLetters D f T.rows = .ok items) :
    items.Pairwise fun a b => b.id ≤ a.id := by
  obtain ⟨read, hsub, heq⟩ := ids_of_listing h
  have hread : read.Pairwise fun a b => b.id ≤ a.id := by
    refine List.Pairwise.imp_of_mem ?_ (((D.order_desc _).sublist (listed_sublist f T.rows)).sublist hsub)
    intro a b ha hb hle
    by_contra hlt
    have := hclock a (mem_of_listed (hsub.subset ha)).1 b (mem_of_listed (hsub.subset hb)).1 (by omega)
    omega
  have hids : (items.map (·.id)).Pairwise fun a b => b ≤ a := by
    rw [heq, pairwise_map]
    exact hread
  rwa [pairwise_map] at hids

theorem pairwise_iff_length_le_one {α : Type} {R : α → α → Prop} (hR : ∀ a b, ¬R a b) :
    ∀ l : List α, l.Pairwise R ↔ l.length ≤ 1
  | [] => by simp
  | [a] => by simp
  | a :: b :: l => by
    constructor
    · intro h
      exact absurd ((pairwise_cons.mp h).1 b mem_cons_self) (hR a b)
    · intro h
      simp at h

theorem toWrite_desc (spec : LinearSpec) (hclock : T.ClockForward) (h : listDeadLetters D f T.rows = .ok items) :
    (toWrite spec items).Pairwise fun a b => b.2.id ≤ a.2.id := by
  have hsub : ((toWrite spec items).map Prod.snd).Sublist items :=
    (( takeWhile_prefix _).sublist.map _).trans (unacked_sublist items 0)
  exact pairwise_map.mp ((listing_desc hclock h).sublist hsub)

/-- **Replays in order.** Whatever the sink and the store answer, a request writes the rows of its listing in the order in
which they failed if and only if they are listed in that order, as far as the request can come; and the latest change of
every key wins if and only if that is so among the rows of one key. With a clock that goes forward the listing has the
latest first, so this is: at most one row is left to write, and no two of one key. -/
theorem replay_order_iff (spec : LinearSpec) (h : listDeadLetters D f T.rows = .ok items) :
    ((∀ E retry, InOrder items (replayDLQItems E { spec with retry } items).1) ↔
      (toWrite spec items).Pairwise fun a b => a.2.id < b.2.id) ∧
    (∀ {κ : Type} [DecidableEq κ] (key : Record → κ),
      (∀ E retry, LatestWins key items (replayDLQItems E { spec with retry } items).1) ↔
        (toWrite spec items).Pairwise fun a b =>
          (spec.sends a.1 a.2).map key = (spec.sends b.1 b.2).map key → a.2.id < b.2.id) ∧
    (T.ClockForward →
      ((∀ E retry, InOrder items (replayDLQItems E { spec with retry } items).1) ↔ (toWrite spec items).length ≤ 1) ∧
      ∀ {κ : Type} [DecidableEq κ] (key : Record → κ),
        (∀ E retry, LatestWins key items (replayDLQItems E { spec with retry } items).1) ↔
          (toWrite spec items).Pairwise fun a b =>
            (spec.sends a.1 a.2).map key ≠ (spec.sends b.1 b.2).map key) := by
  have hids := listing_nodup h
  have hzero := listing_ne_zero h
  refine ⟨inOrder_iff hids hzero, fun key => latestWins_iff key hids hzero, fun hclock => ⟨?_, fun key => ?_⟩⟩
  · rw [inOrder_iff hids hzero]
    rw [← pairwise_iff_length_le_one (R := fun a b : Nat × DeadLetter => a.2.id < b.2.id ∧ b.2.id ≤ a.2.id) (by omega)]
    exact ⟨fun hasc => hasc.and (toWrite_desc spec hclock h), fun hboth => hboth.imp And.left⟩
  · rw [latestWins_iff key hids hzero]
    constructor
    · intro hasc
      refine (hasc.and (toWrite_desc spec hclock h)).imp ?_
      rintro a b ⟨himp, hle⟩ hkey
      have := himp hkey
      omega
    · exact fun hne => hne.imp fun h hkey => absurd hkey h

end

/-! ## Two changes of one row -/

/-- A database without wildcards that keeps rows of one time in the order in which it finds them. -/
def plainDatabase : Database Record where
  like := fun text pattern => text == pattern
  text := fun _ => ""
  decode := some
  order := List.insertionSort fun a b => b.createdAt ≤ a.createdAt
  order_perm := fun rows => List.perm_insertionSort _ rows
  order_desc := fun rows => List.pairwise_insertionSort (fun a b : Row Record => b.createdAt ≤ a.createdAt) rows

def change (v : Int) : Record := { data := [("id", .int64 1), ("v", .int64 v)] }

/-- The two changes of one row, a second apart. -/
def twoChanges : Table Record where
  rows := [{ id := 1, jobName := "orders", recordJSON := change 1, createdAt := 10 },
    { id := 2, jobName := "orders", recordJSON := change 2, createdAt := 11 }]
  ids_nodup := by decide
  ids_pos := by decide

theorem twoChanges_listed : listDeadLetters plainDatabase { jobName := "orders" } twoChanges.rows =
    .ok [{ id := 2, record := change 2 }, { id := 1, record := change 1 }] := rfl

/-- Both rows of a job are replayed newest first: the sink ends with the older change. -/
theorem replay_reverses_changes :
    twoChanges.ClockForward ∧
      listDeadLetters plainDatabase { jobName := "orders" } twoChanges.rows =
        .ok [{ id := 2, record := change 2 }, { id := 1, record := change 1 }] ∧
      calls (replayDLQItems {} {} [{ id := 2, record := change 2 }, { id := 1, record := change 1 }]).1 =
        [⟨0, change 2, true⟩, ⟨1, change 1, true⟩] ∧
      ¬InOrder [{ id := 2, record := change 2 }, { id := 1, record := change 1 }]
        (replayDLQItems {} {} [{ id := 2, record := change 2 }, { id := 1, record := change 1 }]).1 ∧
      ¬LatestWins (fun r => r.data.get? "id") [{ id := 2, record := change 2 }, { id := 1, record := change 1 }]
        (replayDLQItems {} {} [{ id := 2, record := change 2 }, { id := 1, record := change 1 }]).1 := by
  refine ⟨by decide, twoChanges_listed, by decide, by decide, fun h => ?_⟩
  have := h (some (.int64 1)) ⟨1, change 1, true⟩ (by decide) ⟨0, change 2, true⟩ (by decide)
  exact absurd this (by decide)

/-- The same two changes, with the clock set back between them. -/
def clockSetBack : Table Record where
  rows := [{ id := 1, jobName := "orders", recordJSON := change 1, createdAt := 11 },
    { id := 2, jobName := "orders", recordJSON := change 2, createdAt := 10 }]
  ids_nodup := by decide
  ids_pos := by decide

/-- Then the listing happens to be in order, and so is the replay; the later change wins. -/
theorem replay_order_clockSetBack :
    listDeadLetters plainDatabase { jobName := "orders" } clockSetBack.rows =
        .ok [{ id := 1, record := change 1 }, { id := 2, record := change 2 }] ∧
      (∀ E retry, InOrder [{ id := 1, record := change 1 }, { id := 2, record := change 2 }]
        (replayDLQItems E { retry } [{ id := 1, record := change 1 }, { id := 2, record := change 2 }]).1) ∧
      ∀ E retry, LatestWins (fun r => r.data.get? "id") [{ id := 1, record := change 1 }, { id := 2, record := change 2 }]
        (replayDLQItems E { retry } [{ id := 1, record := change 1 }, { id := 2, record := change 2 }]).1 := by
  have hlisted : listDeadLetters plainDatabase { jobName := "orders" } clockSetBack.rows =
      .ok [{ id := 1, record := change 1 }, { id := 2, record := change 2 }] := rfl
  obtain ⟨horder, hlatest, -⟩ := replay_order_iff {} hlisted
  exact ⟨hlisted, horder.mpr (by decide), (hlatest _).mpr (by decide)⟩

end OpenEtl.Server.Dlq
