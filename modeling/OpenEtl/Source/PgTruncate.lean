import OpenEtl.Lib.Trace
import OpenEtl.Source.PgOutput

/-!
# TRUNCATE in a replication stream

pgoutput writes a TRUNCATE as a 32-bit number of relations, one byte of options and the 32-bit ids of the
relations. `handleTruncateMsg` reads one byte of flags, the number, and five bytes for each relation
(postgres_cdc.go:762). So it takes the low three bytes of the number and the options for the number
(`Truncate.countRead`), which is at least 256 for a TRUNCATE of one table, and drops the rest of a frame that
is not long enough for that, without an error.

Where the count fits, the error is put into a channel and `done` is closed (postgres_cdc.go:787-794), but the
parser and the receive loop go on, and `sendRecord` may take either of two ready cases of its `select`.
-/

namespace OpenEtl.Source.Pg

open List Bytes Trace

/-! ## The message -/

structure Truncate where
  options : UInt8
  relIDs : List UInt32
  count_lt : relIDs.length < 2 ^ 31

namespace Truncate

variable (t : Truncate)

/-- The bytes behind the `T`. -/
def body : List UInt8 :=
  bigEndian 4 t.relIDs.length ++ t.options :: t.relIDs.flatMap fun relID => bigEndian 4 relID.toNat

/-- The number of relations that the handler reads. -/
def countRead : Nat := t.relIDs.length % 2 ^ 24 * 256 + t.options.toNat

theorem body_length : t.body.length = 5 + 4 * t.relIDs.length := by
  have hids : ∀ ids : List UInt32, (ids.flatMap fun relID => bigEndian 4 relID.toNat).length = 4 * ids.length := by
    intro ids
    induction ids with
    | nil => rfl
    | cons relID ids ih =>
      simp only [flatMap_cons, length_append, bigEndian_length, length_cons, ih]
      omega
  simp only [body, length_append, bigEndian_length, length_cons, hids]
  omega

theorem count_eq (rest : List UInt8) : ofBigEndian (((t.body ++ rest).drop 1).take 4) = t.countRead := by
  have htake : ((t.body ++ rest).drop 1).take 4 = bigEndian 3 t.relIDs.length ++ [t.options] := by
    rw [body, bigEndian_cons]
    simp [take_append]
  have hpow : 256 ^ 3 = 2 ^ 24 := by decide
  rw [htake, ofBigEndian_snoc, ofBigEndian_bigEndian, countRead, hpow]

end Truncate

theorem handleTruncateMsg_body (src : PostgresCDCSource) (s : Stream) (t : Truncate) (rest : List UInt8) :
    handleTruncateMsg src s (t.body ++ rest) =
      if 4 * t.relIDs.length + rest.length < 5 * t.countRead then .next s [] []
      else
        match src.onTruncate with
        | .skip => .next s [] ((t.body ++ rest).drop (5 + 5 * t.countRead))
        | .error => .next s [.truncate t.countRead] ((t.body ++ rest).drop (5 + 5 * t.countRead)) := by
  have hlen : (t.body ++ rest).length = 5 + 4 * t.relIDs.length + rest.length := by
    rw [length_append, t.body_length]
  unfold handleTruncateMsg
  simp only [t.count_eq, hlen, Nat.mul_comm t.countRead 5]
  have hshort : ¬ 5 + 4 * t.relIDs.length + rest.length < 5 := by omega
  have hfits : 5 + 4 * t.relIDs.length + rest.length < 5 + 5 * t.countRead ↔
      4 * t.relIDs.length + rest.length < 5 * t.countRead := by omega
  cases src.onTruncate <;> simp only [hshort, if_false, hfits]

/-! ## The channels -/

inductive ReadErr
  | truncate (nRels : Nat)
  | other (msg : String)
deriving DecidableEq, Repr

/-- A queued record; `late` if it is of a message behind the TRUNCATE. -/
structure Queued where
  record : Record
  late : Bool
deriving DecidableEq, Repr

structure Channels where
  records : List Queued := []
  errors : List ReadErr := []
  done : Bool := false
  ctxDone : Bool := false
  isClosed : Bool := false

inductive Event
  /-- the error of a TRUNCATE is in the channel -/
  | reported (nRels : Nat)
  /-- a record of a message behind the TRUNCATE is in the channel -/
  | emitted (rec : Record)
  | returned (q : Queued)
  | returnedErr (e : ReadErr)
deriving DecidableEq, Repr

/-- The end of `handleTruncateMsg`: the error is dropped if its channel is full. -/
def reportTruncate (c : Channels) (nRels : Nat) : Channels × List Event :=
  if c.errors.length < 64 then ({ c with errors := c.errors ++ [.truncate nRels], done := true }, [.reported nRels])
  else ({ c with done := true }, [])

/-- `sendRecord` (postgres_cdc.go:884): `keep` is the choice of `select` between its ready cases; `none` while
it waits. -/
def sendRecord (c : Channels) (keep : Bool) (rec : Record) : Option (Channels × List Event) :=
  if c.isClosed then some (c, [])
  else if c.records.length < 1024 ∧ (keep = true ∨ ¬ (c.done = true ∨ c.ctxDone = true)) then
    some ({ c with records := c.records ++ [⟨rec, true⟩] }, [.emitted rec])
  else if c.done = true ∨ c.ctxDone = true then some (c, [])
  else none

/-- `Read` (postgres_cdc.go:1328); `first` is the choice of `select` when a record and an error are ready. -/
def readOne (c : Channels) (first : Bool) : Channels × List Event :=
  match c.records, c.errors with
  | [], [] => (c, [])
  | q :: records, [] => ({ c with records }, [.returned q])
  | [], e :: errors => ({ c with errors }, [.returnedErr e])
  | q :: records, e :: errors =>
    if first then ({ c with records }, [.returned q]) else ({ c with errors }, [.returnedErr e])

/-- The receive loop with what it has still to hand over. -/
structure St where
  pending : List Out
  chans : Channels
  log : List Event := []

inductive Tick
  | send (keep : Bool)
  | read (first : Bool)
  /-- another error of the receive loop -/
  | fail (msg : String)
  | cancel
  | close

def step (s : St) : Tick → St
  | .send keep =>
    match s.pending with
    | [] => s
    | .truncate nRels :: pending =>
      let (chans, events) := reportTruncate s.chans nRels
      { pending, chans, log := s.log ++ events }
    | .record rec :: pending =>
      match sendRecord s.chans keep rec with
      | none => s
      | some (chans, events) => { pending, chans, log := s.log ++ events }
  | .read first =>
    let (chans, events) := readOne s.chans first
    { s with chans, log := s.log ++ events }
  | .fail msg =>
    if s.chans.errors.length < 64 then { s with chans := { s.chans with errors := s.chans.errors ++ [.other msg] } }
    else s
  | .cancel => { s with chans := { s.chans with ctxDone := true } }
  | .close => { s with chans := { s.chans with isClosed := true, done := true } }

/-! ## The messages behind a TRUNCATE -/

section

variable (D : Decoder) (src : PostgresCDCSource)

/-- What the receive loop hands over of some frames. -/
def framesOuts : Stream → List (List UInt8 × String) → List Out
  | _, [] => []
  | s, (data, lsn) :: frames =>
    let frame := handleWALData D src s data lsn
    frame.outs ++ if frame.panicked then [] else framesOuts frame.stream frames

/-- What it hands over of the rest of a frame and of the frames after it. -/
def outsBehind (s : Stream) (lsn : String) (rest : List UInt8) (frames : List (List UInt8 × String)) : List Out :=
  let frame := messages D src lsn rest.length s rest
  frame.outs ++ if frame.panicked then [] else framesOuts D src frame.stream frames

/-- The reader right after a call of `handleTruncateMsg`. -/
def afterTruncate (s : Stream) (lsn : String) (data : List UInt8) (frames : List (List UInt8 × String))
    (c : Channels) : St :=
  match handleTruncateMsg src s data with
  | .next s [.truncate nRels] rest =>
    let (chans, log) := reportTruncate c nRels
    { pending := outsBehind D src s lsn rest frames, chans, log }
  | .next s _ rest => { pending := outsBehind D src s lsn rest frames, chans := c }
  | .abort | .panic => { pending := [], chans := c }

end

/-- An event that is right behind a TRUNCATE: nothing is emitted any more, and no record of a later message is
returned before the error. -/
def ClosedAt (pre : List Event) (e : Event) : Prop :=
  (∀ rec, e ≠ .emitted rec) ∧
    ∀ q, e = .returned q → q.late = true → ∃ nRels, .returnedErr (.truncate nRels) ∈ pre

/-- The error is reported, and nothing of a later message comes out, whatever the scheduler does. -/
def FailsClosed (s : St) : Prop :=
  (∃ nRels, .reported nRels ∈ s.log) ∧ ∀ ticks, Always ClosedAt (run step s ticks).log

def Out.isRecord : Out → Bool
  | .record _ => true
  | .truncate _ => false

/-! ### Nothing comes out -/

structure Quiet (s : St) : Prop where
  pending : ∀ o ∈ s.pending, o.isRecord = false
  early : ∀ q ∈ s.chans.records, q.late = false
  log : Always ClosedAt s.log

theorem closedAt_of_ne {pre : List Event} {e : Event} (h1 : ∀ rec, e ≠ .emitted rec)
    (h2 : ∀ q, e = .returned q → q.late = false) : ClosedAt pre e := by
  refine ⟨h1, fun q hq hlate => ?_⟩
  simp [h2 q hq] at hlate

theorem reportTruncate_log {log : List Event} (h : Always ClosedAt log) (c : Channels) (nRels : Nat) :
    Always ClosedAt (log ++ (reportTruncate c nRels).2) := by
  unfold reportTruncate
  split
  · exact always_snoc.mpr ⟨h, closedAt_of_ne (by simp) (by simp)⟩
  · simpa using h

variable {s : St}

theorem Quiet.step (h : Quiet s) (t : Tick) : Quiet (step s t) := by
  obtain ⟨hpending, hearly, hlog⟩ := h
  cases t with
  | send keep =>
    unfold Pg.step
    cases hp : s.pending with
    | nil => exact ⟨hpending, hearly, hlog⟩
    | cons o pending =>
      rw [hp] at hpending
      have hrest : ∀ o ∈ pending, o.isRecord = false := fun o ho => hpending o (mem_cons_of_mem _ ho)
      cases o with
      | record rec => simp [Out.isRecord] at hpending
      | truncate nRels =>
        refine ⟨hrest, fun q hq => hearly q ?_, reportTruncate_log hlog _ _⟩
        simp only [reportTruncate] at hq
        split at hq <;> exact hq
  | read first =>
    unfold Pg.step readOne
    cases hr : s.chans.records with
    | nil =>
      cases he : s.chans.errors with
      | nil => exact ⟨hpending, by simp [hr], by simpa using hlog⟩
      | cons e errors =>
        refine ⟨hpending, by simp, always_snoc.mpr ⟨hlog, closedAt_of_ne (by simp) (by simp)⟩⟩
    | cons q records =>
      rw [hr] at hearly
      have hq := hearly q mem_cons_self
      have hrest : ∀ q ∈ records, q.late = false := fun q hq => hearly q (mem_cons_of_mem _ hq)
      have hret : Always ClosedAt (s.log ++ [.returned q]) := by
        refine always_snoc.mpr ⟨hlog, closedAt_of_ne (by simp) fun q' hq' => ?_⟩
        obtain rfl := Event.returned.inj hq'
        exact hq
      cases he : s.chans.errors with
      | nil => exact ⟨hpending, hrest, hret⟩
      | cons e errors =>
        cases first with
        | true => exact ⟨hpending, hrest, hret⟩
        | false =>
          refine ⟨hpending, by simpa [hr] using hearly, ?_⟩
          exact always_snoc.mpr ⟨hlog, closedAt_of_ne (by simp) (by simp)⟩
  | fail msg =>
    simp only [Pg.step]
    split
    · exact ⟨hpending, hearly, hlog⟩
    · exact ⟨hpending, hearly, hlog⟩
  | cancel => exact ⟨hpending, hearly, hlog⟩
  | close => exact ⟨hpending, hearly, hlog⟩

theorem quiet_run (h : Quiet s) (ticks : List Tick) : Quiet (run step s ticks) :=
  run_invariant Quiet (fun _ t hs => hs.step t) h

/-! ### Something comes out -/

/-- The queued records can all be read first. -/
theorem exists_drained (s : St) :
    ∃ ticks, (run step s ticks).chans.records = [] ∧ (run step s ticks).pending = s.pending ∧
      (run step s ticks).chans.isClosed = s.chans.isClosed := by
  generalize hn : s.chans.records.length = n
  induction n generalizing s with
  | zero => exact ⟨[], length_eq_zero_iff.mp hn, rfl, rfl⟩
  | succ n ih =>
    cases hr : s.chans.records with
    | nil => simp [hr] at hn
    | cons q records =>
      have hstep : (step s (.read true)).chans.records = records ∧ (step s (.read true)).pending = s.pending ∧
          (step s (.read true)).chans.isClosed = s.chans.isClosed := by
        simp only [Pg.step, readOne, hr]
        cases s.chans.errors <;> simp
      obtain ⟨hrecords, hpending, hclosed⟩ := hstep
      have hlen : (step s (.read true)).chans.records.length = n := by
        rw [hrecords]
        simpa [hr] using hn
      obtain ⟨ticks, h1, h2, h3⟩ := ih _ hlen
      exact ⟨.read true :: ticks, h1, h2.trans hpending, h3.trans hclosed⟩

/-- Then a record that is still to come can get into the channel. -/
theorem exists_emitted (hroom : s.chans.records.length < 1024) (hopen : s.chans.isClosed = false)
    (hrec : ∃ o ∈ s.pending, o.isRecord = true) : ∃ ticks, ¬ Always ClosedAt (run step s ticks).log := by
  generalize hp : s.pending = pending at hrec
  induction pending generalizing s with
  | nil => simp at hrec
  | cons o pending ih =>
    cases o with
    | record rec =>
      refine ⟨[.send true], fun h => ?_⟩
      have hlog : (run step s [.send true]).log = s.log ++ [.emitted rec] := by
        simp [Pg.step, hp, sendRecord, hopen, hroom]
      rw [hlog] at h
      exact (always_snoc.mp h).2.1 rec rfl
    | truncate nRels =>
      have hrest : ∃ o ∈ pending, o.isRecord = true := by simpa [Out.isRecord] using hrec
      have hstep : (step s (.send true)).chans.records = s.chans.records ∧ (step s (.send true)).pending = pending ∧
          (step s (.send true)).chans.isClosed = s.chans.isClosed := by
        simp only [Pg.step, hp, reportTruncate]
        split <;> simp
      obtain ⟨hrecords, hpending, hclosed⟩ := hstep
      obtain ⟨ticks, hticks⟩ := ih (by rw [hrecords]; exact hroom) (by rw [hclosed]; exact hopen) hpending hrest
      exact ⟨.send true :: ticks, hticks⟩

/-- An open reader lets a record out exactly if one is still to come. -/
theorem closed_iff_pending (hopen : s.chans.isClosed = false) (hearly : ∀ q ∈ s.chans.records, q.late = false)
    (hlog : Always ClosedAt s.log) :
    (∀ ticks, Always ClosedAt (run step s ticks).log) ↔ ∀ o ∈ s.pending, o.isRecord = false := by
  constructor
  · intro h
    by_contra hex
    obtain ⟨ticks, hrecords, hpending, hclosed⟩ := exists_drained s
    have hrec : ∃ o ∈ (run step s ticks).pending, o.isRecord = true := by
      rw [hpending]
      simpa using hex
    obtain ⟨ticks', hemit⟩ := exists_emitted (by rw [hrecords]; decide) (by rw [hclosed]; exact hopen) hrec
    rw [← run_append] at hemit
    exact hemit (h _)
  · intro h ticks
    exact (quiet_run ⟨h, hearly, hlog⟩ ticks).log

/-! ## When a TRUNCATE is handled -/

section

variable (D : Decoder) (src : PostgresCDCSource) (s : Stream) (lsn : String) (t : Truncate) (rest : List UInt8)
  (frames : List (List UInt8 × String))

/-- The channels of an open reader when it meets a TRUNCATE. -/
def channels (queued : List Record) (errors : List ReadErr) (done ctxDone : Bool) : Channels :=
  { records := queued.map (⟨·, false⟩), errors, done, ctxDone }

/-- With `skip`, parsing goes on right behind the message; else the stream fails closed. -/
def TruncateHandled (c : Channels) : Prop :=
  match src.onTruncate with
  | .skip => handleTruncateMsg src s (t.body ++ rest) = .next s [] rest
  | .error => FailsClosed (afterTruncate D src s lsn (t.body ++ rest) frames c)

variable {src s t rest}

theorem skipped_iff (hskip : src.onTruncate = .skip) :
    handleTruncateMsg src s (t.body ++ rest) = .next s [] rest ↔
      5 * t.countRead = 4 * t.relIDs.length ∨ rest = [] ∧ 4 * t.relIDs.length < 5 * t.countRead := by
  rw [handleTruncateMsg_body, hskip]
  by_cases hfit : 4 * t.relIDs.length + rest.length < 5 * t.countRead
  · rw [if_pos hfit, Parsed.next.injEq]
    constructor
    · rintro ⟨-, -, hrest⟩
      exact .inr ⟨hrest.symm, by omega⟩
    · rintro (heq | ⟨rfl, -⟩)
      · omega
      · simp
  · rw [if_neg hfit]
    simp only [Parsed.next.injEq, true_and]
    have hlen : t.body.length = 5 + 4 * t.relIDs.length := t.body_length
    constructor
    · intro hdrop
      have := congrArg length hdrop
      rw [length_drop, length_append, hlen] at this
      exact .inl (by omega)
    · rintro (heq | ⟨rfl, hlt⟩)
      · rw [heq, ← hlen, drop_left]
      · simp only [length_nil] at hfit
        omega

theorem failsClosed_iff (herror : src.onTruncate = .error) (queued : List Record) (errors : List ReadErr)
    (done ctxDone : Bool) :
    FailsClosed (afterTruncate D src s lsn (t.body ++ rest) frames (channels queued errors done ctxDone)) ↔
      5 * t.countRead ≤ 4 * t.relIDs.length + rest.length ∧ errors.length < 64 ∧
        ∀ o ∈ outsBehind D src s lsn ((t.body ++ rest).drop (5 + 5 * t.countRead)) frames, o.isRecord = false := by
  unfold afterTruncate
  rw [handleTruncateMsg_body, herror]
  by_cases hfit : 4 * t.relIDs.length + rest.length < 5 * t.countRead
  · rw [if_pos hfit]
    simp only [FailsClosed, not_mem_nil, exists_false, false_and, false_iff, not_and]
    omega
  · rw [if_neg hfit]
    simp only
    by_cases herr : errors.length < 64
    · have hreport : reportTruncate (channels queued errors done ctxDone) t.countRead =
          ({ records := queued.map (⟨·, false⟩), errors := errors ++ [.truncate t.countRead], done := true, ctxDone },
            [.reported t.countRead]) := by
        simp [reportTruncate, channels, herr]
      have hlog : Always ClosedAt ([] ++ [Event.reported t.countRead]) :=
        always_snoc.mpr ⟨always_nil ClosedAt, closedAt_of_ne (by simp) (by simp)⟩
      rw [hreport]
      unfold FailsClosed
      rw [closed_iff_pending rfl (by simp) hlog]
      constructor
      · rintro ⟨-, h⟩
        exact ⟨by omega, herr, h⟩
      · rintro ⟨-, -, h⟩
        exact ⟨⟨t.countRead, by simp⟩, h⟩
    · have hreport : (reportTruncate (channels queued errors done ctxDone) t.countRead).2 = [] := by
        simp [reportTruncate, channels, herr]
      simp only [FailsClosed, hreport, not_mem_nil, exists_false, false_and, false_iff, not_and]
      intro _ h
      exact absurd h herr

end

/-- **When a TRUNCATE is handled as configured**, for every message and every stream around it. -/
theorem truncate_handled_iff (D : Decoder) (src : PostgresCDCSource) (s : Stream) (lsn : String) (t : Truncate)
    (rest : List UInt8) (frames : List (List UInt8 × String)) (queued : List Record) (errors : List ReadErr)
    (done ctxDone : Bool) :
    TruncateHandled D src s lsn t rest frames (channels queued errors done ctxDone) ↔
      match src.onTruncate with
      | .skip => 5 * t.countRead = 4 * t.relIDs.length ∨ rest = [] ∧ 4 * t.relIDs.length < 5 * t.countRead
      | .error =>
        5 * t.countRead ≤ 4 * t.relIDs.length + rest.length ∧ errors.length < 64 ∧
          ∀ o ∈ outsBehind D src s lsn ((t.body ++ rest).drop (5 + 5 * t.countRead)) frames,
            o.isRecord = false := by
  unfold TruncateHandled
  cases hpolicy : src.onTruncate with
  | skip => exact skipped_iff hpolicy
  | error => exact failsClosed_iff D lsn frames hpolicy queued errors done ctxDone

/-! ### Counterexample: one table is truncated, and a row is inserted into another -/

/-- `decodeColumnValue` for a column of type text. -/
def asText : Decoder where
  decode raw _ := .str (Bytes.text raw)
  no_bytes := by simp

def oneTable : Truncate := { options := 0, relIDs := [16385], count_lt := by decide }

def twoRelations : Stream where
  catalog := { relations := [(16385, "a", [⟨"id", 25⟩]), (16386, "b", [⟨"id", 25⟩])] }

/-- `INSERT` of the row `7` into the table `b`. -/
def insertSeven : List UInt8 := [73, 0, 0, 64, 2, 78, 0, 1, 116, 0, 0, 0, 1, 55]

def rowSeven (lsn : String) : Record :=
  { data := [("id", .str "7")]
    metadata := { source := "postgres_cdc", sourceType := "postgres_cdc", sourcePhase := "cdc", table := "b", lsn } }

/-- No error is reported, the row behind the TRUNCATE is emitted and read; with `skip` the row of the same frame
is lost. -/
theorem truncate_is_overlooked :
    let s := afterTruncate asText {} twoRelations "0/10" oneTable.body [(insertSeven, "0/20")] {}
    s.log = [] ∧
      (run step s [.send true, .read true]).log =
        [.emitted (rowSeven "0/20"), .returned ⟨rowSeven "0/20", true⟩] ∧
      handleTruncateMsg { onTruncate := .skip } twoRelations (oneTable.body ++ insertSeven) =
        .next twoRelations [] [] := by
  decide +kernel

end OpenEtl.Source.Pg
