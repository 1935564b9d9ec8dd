import OpenEtl.Sink.Chunked

/-!
# The Elasticsearch sink's `Write` (`sink/elasticsearch.go:386-690`)

The server is asked once per attempt for a whole chunk (`Exchange`); what it takes is kept beside its
reply. A reply is assumed to be truthful (`Reply.Honest`): one item per action, a reply without the
`errors` flag means that all actions were taken, and an item without an error was taken. After a
transport error or an error status the server may have taken anything.

| here | there |
| --- | --- |
| `itemError` | `elasticsearchBulkItemError` and its methods (:567) |

The action and document lines are not modelled, only whether building them fails. The error for a
DELETE without an id (:431) cannot occur: `deriveESDocID` never returns "".
-/

namespace OpenEtl.Sink.Elasticsearch

open List

/-- `elasticsearchBulkItemFailure`, and what an item of a reply holds when `error` is absent. -/
structure BulkItem where
  action : String := "index"
  status : Nat := 0
  docID : String := ""
  /-- type and reason of the item's `error` -/
  error : Option (String × String) := none
deriving DecidableEq, Repr

structure Failure where
  index : Nat
  action : String
  status : Nat
  docID : String
  errType : String
  reason : String
deriving DecidableEq, Repr

/-- An item counts as failed when it has an error and its status is absent or at least 400. -/
def BulkItem.failed (it : BulkItem) : Bool := it.error.isSome && (it.status == 0 || decide (400 ≤ it.status))

/-- `collectBulkItemFailures`, for the items from position `i` on. -/
def collectBulkItemFailures : Nat → List BulkItem → List Failure
  | _, [] => []
  | i, it :: rest =>
    let tail := collectBulkItemFailures (i + 1) rest
    if it.failed then
      { index := i, action := it.action, status := it.status, docID := it.docID,
        errType := (it.error.map Prod.fst).getD "", reason := (it.error.map Prod.snd).getD "" } :: tail
    else tail

def formatBulkItemFailure (f : Failure) : String :=
  joinStr " "
    (["item=" ++ toString f.index] ++ (if f.action = "" then [] else ["action=" ++ f.action]) ++
      (if f.docID = "" then [] else ["id=" ++ f.docID]) ++
      (if f.status = 0 then [] else ["status=" ++ toString f.status]) ++
      (if f.errType = "" then [] else ["type=" ++ f.errType]) ++
      (if f.reason = "" then [] else ["reason=" ++ f.reason]))

/-- The first twenty details are printed. -/
def summarizeBulkItemFailures (fs : List Failure) : String :=
  let details := fs.map formatBulkItemFailure
  if details.length > 20 then
    joinStr "; " (details.take 20) ++ "; ...and " ++ toString (details.length - 20) ++ " more"
  else joinStr "; " details

def classifyESBulkItemFailure (f : Failure) : ErrorClass :=
  if f.status = 401 ∨ f.status = 403 then .auth
  else if f.status = 429 ∨ f.status ≥ 500 then .transient
  else if containsAny (toLower (f.errType ++ " " ++ f.reason)) ["mapper", "mapping", "schema", "type"] then
    .schema
  else if 400 ≤ f.status ∧ f.status < 500 then .data
  else .unknown

/-- `elasticsearchBulkItemError`: its text, `FailedRecordIndices` and `ErrorForRecord`. -/
def itemError (fs : List Failure) : Err where
  msg := "elasticsearch bulk has item errors: " ++ summarizeBulkItemFailures fs
  partialBatch := some
    { failedRecordIndices := fs.map fun f => (f.index : Int)
      causes := fs.map fun f =>
        ((f.index : Int),
          { msg := "elasticsearch bulk item failed: " ++ formatBulkItemFailure f
            classified := some (classifyESBulkItemFailure f) }) }

def withOffset (offset : Nat) (fs : List Failure) : List Failure :=
  fs.map fun f => { f with index := f.index + offset }

/-! ## One bulk request -/

inductive Reply
  /-- the request could not be made or sent -/
  | noResponse (e : Cause)
  /-- a response with an error status -/
  | status (code : Nat) (snippet : String)
  /-- a 2xx response whose body is not JSON -/
  | unparseable (code : Nat) (snippet : String)
  /-- a parsed body; `errors` when it is a boolean -/
  | parsed (errors : Option Bool) (items : List BulkItem) (snippet : String)

/-- What a truthful server took of `n` actions. -/
def Reply.Honest (n : Nat) (accepted : List Nat) : Reply → Prop
  | .parsed (some true) items _ =>
    items.length = n ∧ ∀ (i : Nat) (it : BulkItem), items[i]? = some it → it.failed = false → i ∈ accepted
  | .parsed _ _ _ => ∀ i < n, i ∈ accepted
  | _ => True

structure Exchange (n : Nat) where
  reply : Reply
  accepted : List Nat
  bounded : ∀ i ∈ accepted, i < n
  honest : reply.Honest n accepted

/-- What one attempt says: done, try again with this error, or give up with it. -/
inductive Outcome
  | done
  | again (items : List Failure) (e : Err)
  | stop (e : Err)

/-- The body of `bulkWithRetry`'s loop (:500-560). -/
def attemptOutcome : Reply → Outcome
  | .noResponse e => .again [] { e with msg := "bulk request: " ++ e.msg }
  | .status code snippet =>
    if code = 429 ∨ code ≥ 500 then
      .again [] { msg := "elasticsearch status " ++ toString code ++ ": " ++ snippet }
    else .stop { msg := "elasticsearch bulk failed: " ++ toString code ++ " " ++ snippet }
  | .unparseable code snippet =>
    .stop { msg := "elasticsearch bulk: unparseable response body (status " ++ toString code ++ "): " ++ snippet }
  | .parsed (some true) items snippet =>
    match collectBulkItemFailures 0 items with
    | [] => .again [] { msg := "elasticsearch bulk has errors: " ++ snippet }
    | f :: fs => .again (f :: fs) (itemError (f :: fs))
  | .parsed _ _ _ => .done

/-- What `bulkWithRetry` returns: the failures of an `elasticsearchBulkItemError` in the chain, and the
error. -/
structure BulkErr where
  items : List Failure := []
  err : Err

structure BulkResult where
  err : Option BulkErr
  accepted : List Nat

structure ElasticsearchSink where
  chunkSize : Nat := 500
  /-- checked by the constructor (:152) -/
  chunkSize_pos : 0 < chunkSize := by decide
  maxRetries : Int := 3
  indexTemplate : String := ""
  /-- the error for a document that `json.Marshal` rejects -/
  marshalError : Record → Option Cause := fun _ => none

/-- The outcomes of one call of `Write`: the exchange of each attempt at the chunk that starts at
`offset`, and what ends the wait before it. -/
structure Server where
  exchange : (offset attempt n : Nat) → Exchange n
  waitDone : (offset attempt : Nat) → Option CtxErr := fun _ _ => none

section

variable (S : ElasticsearchSink) (E : Server)

/-- `bulkWithRetry` with `k` attempts left. -/
def bulkLoop (offset n : Nat) : Nat → Nat → BulkErr → BulkResult
  | 0, _, last =>
    { err := some { last with
        err := { last.err with
          msg := "elasticsearch bulk failed after " ++ toString (S.maxRetries + 1) ++ " retries: " ++ last.err.msg } }
      accepted := [] }
  | k + 1, attempt, _ =>
    match if attempt > 0 then E.waitDone offset attempt else none with
    | some ctxErr => { err := some { err := ctxErr.toErr }, accepted := [] }
    | none =>
      let x := E.exchange offset attempt n
      match attemptOutcome x.reply with
      | .done => { err := none, accepted := x.accepted }
      | .stop e => { err := some { err := e }, accepted := x.accepted }
      | .again items e =>
        let rest := bulkLoop offset n k (attempt + 1) { items, err := e }
        { rest with accepted := x.accepted ++ rest.accepted }

def bulkWithRetry (offset n : Nat) : BulkResult :=
  bulkLoop S E offset n (S.maxRetries + 1).toNat 0 { err := { msg := "%!w(<nil>)" } }

/-- The error of building the action lines of a record (:407-462). -/
def actionError (rec : Record) : Option Err :=
  if S.indexTemplate ≠ "" ∧ rec.metadata.table = "" then
    some
      { msg := "elasticsearch index_template \"" ++ S.indexTemplate ++ "\" requires record table metadata" }
  else if rec.operation = .delete then none
  else (S.marshalError rec).map fun e => { toCause := e }

/-- One round of the loop in `Write`, for the chunk that starts at `offset`. -/
def writeChunk (records : List Record) (offset : Nat) : WriteResult :=
  let chunk := (records.drop offset).take S.chunkSize
  match chunk.findSome? (actionError S) with
  | some e => { err := some e }
  | none =>
    let r := bulkWithRetry S E offset chunk.length
    let accepted := r.accepted.map (offset + ·)
    match r.err with
    | none => { err := none, accepted }
    | some b =>
      if b.items = [] then { err := some b.err, accepted }
      else { err := some (itemError (withOffset offset b.items)), accepted }

/-- `ElasticsearchSink.Write`. -/
def write (records : List Record) : WriteResult :=
  chunkLoop S.chunkSize records.length (writeChunk S E records) records.length 0

/-! ## Soundness of a chunk -/

theorem mem_collectBulkItemFailures {n : Nat} : ∀ {items : List BulkItem} {i : Nat},
    (∃ f ∈ collectBulkItemFailures i items, f.index = n) ↔ ∃ j it, items[j]? = some it ∧ it.failed = true ∧ i + j = n
  | [], _ => by simp [collectBulkItemFailures]
  | x :: rest, i => by
    rw [← Nat.or_exists_add_one]
    simp only [getElem?_cons_zero, getElem?_cons_succ, ← Nat.add_assoc, Nat.add_right_comm i _ 1]
    rw [← mem_collectBulkItemFailures, collectBulkItemFailures]
    cases hx : x.failed <;> simp [hx]

/-- The failures listed by an error are positions of the chunk and everything else was taken; an error
that lists none is no `PartialBatchError`. -/
structure Listing (n : Nat) (accepted : List Nat) (b : BulkErr) : Prop where
  bounded : ∀ f ∈ b.items, f.index < n
  others : b.items ≠ [] → ∀ i < n, (∀ f ∈ b.items, f.index ≠ i) → i ∈ accepted
  plain : b.items = [] → b.err.partialBatch = none

variable {e : Err} {n : Nat}

theorem listing_plain {accepted : List Nat} (h : e.partialBatch = none) :
    Listing n accepted { err := e } := ⟨by simp, by simp, fun _ => h⟩

variable (x : Exchange n)

/-- An attempt that succeeds took everything, one that is to be repeated leaves a correct listing. -/
theorem attemptOutcome_spec :
    match attemptOutcome x.reply with
    | .done => ∀ i < n, i ∈ x.accepted
    | .stop e => e.partialBatch = none
    | .again items e => Listing n x.accepted { items, err := e } := by
  have hhonest := x.honest
  rcases hr : x.reply with c | ⟨code, sn⟩ | ⟨code, sn⟩ | ⟨errs, its, sn⟩
  · exact listing_plain rfl
  · by_cases hcode : code = 429 ∨ code ≥ 500
    · simp only [attemptOutcome, if_pos hcode]
      exact listing_plain rfl
    · simp only [attemptOutcome, if_neg hcode]
  · rfl
  · rw [hr] at hhonest
    rcases errs with _ | _ | _
    · exact hhonest
    · exact hhonest
    · obtain ⟨hlen, htaken⟩ := hhonest
      have hmem : ∀ f ∈ collectBulkItemFailures 0 its, f.index < n := fun f hf => by
        obtain ⟨j, it, hj, -, hidx⟩ := mem_collectBulkItemFailures.mp ⟨f, hf, rfl⟩
        have := (List.getElem?_eq_some_iff.mp hj).1
        omega
      simp only [attemptOutcome]
      cases hcol : collectBulkItemFailures 0 its with
      | nil => exact listing_plain rfl
      | cons f fs =>
        rw [hcol] at hmem
        refine ⟨hmem, fun _ i hi hnot => ?_, by simp⟩
        have hget : its[i]? = some its[i] := getElem?_eq_getElem (by omega)
        refine htaken i _ hget ?_
        by_contra hfail
        obtain ⟨g, hg, hidx⟩ := mem_collectBulkItemFailures.mpr ⟨i, _, hget, by simpa using hfail, Nat.zero_add i⟩
        rw [hcol] at hg
        exact hnot g hg hidx

/-- `bulkWithRetry` reports truthfully on everything its attempts did. -/
theorem bulkLoop_spec (offset n : Nat) : ∀ (k attempt : Nat) (last : BulkErr) (acc : List Nat),
    Listing n acc last →
      (∀ i ∈ (bulkLoop S E offset n k attempt last).accepted, i < n) ∧
      ((bulkLoop S E offset n k attempt last).err = none →
        ∀ i < n, i ∈ (bulkLoop S E offset n k attempt last).accepted) ∧
      ∀ b, (bulkLoop S E offset n k attempt last).err = some b →
        Listing n (acc ++ (bulkLoop S E offset n k attempt last).accepted) b
  | 0, attempt, last, acc, hlast => by
    refine ⟨by simp [bulkLoop], by simp [bulkLoop], fun b hb => ?_⟩
    simp only [bulkLoop, Option.some.injEq] at hb
    subst hb
    exact ⟨hlast.bounded, by simpa [bulkLoop] using hlast.others, hlast.plain⟩
  | k + 1, attempt, last, acc, hlast => by
    unfold bulkLoop
    cases hw : (if attempt > 0 then E.waitDone offset attempt else none) with
    | some ce =>
      refine ⟨by simp, by simp, fun b hb => ?_⟩
      cases hb
      exact listing_plain (by simp)
    | none =>
      have hspec := attemptOutcome_spec (E.exchange offset attempt n)
      have hbounded := (E.exchange offset attempt n).bounded
      cases hout : attemptOutcome (E.exchange offset attempt n).reply with
      | done =>
        simp only [hout] at hspec ⊢
        exact ⟨hbounded, fun _ => hspec, by simp⟩
      | stop e =>
        simp only [hout] at hspec ⊢
        refine ⟨hbounded, by simp, fun b hb => ?_⟩
        cases hb
        exact listing_plain hspec
      | again items e =>
        simp only [hout] at hspec ⊢
        obtain ⟨h1, h2, h3⟩ := bulkLoop_spec offset n k (attempt + 1) { items, err := e } _ hspec
        refine ⟨fun i hi => ?_, fun herr i hi => mem_append_right _ (h2 herr i hi), fun b hb => ?_⟩
        · rcases mem_append.mp hi with hi | hi
          · exact hbounded i hi
          · exact h1 i hi
        · have hb' := h3 b hb
          exact ⟨hb'.bounded, fun hne i hi hnot => mem_append_right _ (hb'.others hne i hi hnot), hb'.plain⟩

theorem actionError_plain {rec : Record} (h : actionError S rec = some e) : e.partialBatch = none := by
  unfold actionError at h
  split at h
  · cases h; rfl
  · split at h
    · cases h
    · obtain ⟨c, -, rfl⟩ := Option.map_eq_some_iff.mp h
      rfl

variable (records : List Record)

theorem writeChunk_sound (offset : Nat) :
    ChunkSound S.chunkSize records.length offset (writeChunk S E records offset) := by
  let m := ((records.drop offset).take S.chunkSize).length
  have hm : m = min S.chunkSize (records.length - offset) := by simp [m]
  have hspec := bulkLoop_spec S E offset m (S.maxRetries + 1).toNat 0
    { err := { msg := "%!w(<nil>)" } } [] (listing_plain rfl)
  obtain ⟨hbound, hnil, hlist⟩ := hspec
  -- positions of the chunk, counted in the batch
  have hacc : ∀ i ∈ (bulkWithRetry S E offset m).accepted.map (offset + ·),
      InChunk S.chunkSize records.length offset i := by
    intro i hi
    obtain ⟨j, hj, rfl⟩ := mem_map.mp hi
    have := hbound j hj
    exact ⟨by omega, by omega, by omega⟩
  have hmem : ∀ i, InChunk S.chunkSize records.length offset i →
      i - offset ∈ (bulkWithRetry S E offset m).accepted →
      i ∈ (bulkWithRetry S E offset m).accepted.map (offset + ·) := by
    intro i hi hj
    exact mem_map.mpr ⟨i - offset, hj, by have := hi.1; omega⟩
  unfold writeChunk
  simp only
  cases hact : ((records.drop offset).take S.chunkSize).findSome? (actionError S) with
  | some e =>
    obtain ⟨rec, -, hrec⟩ := exists_of_findSome?_eq_some hact
    exact ChunkSound.plain rfl (actionError_plain S hrec) (by simp)
  | none =>
    cases hb : (bulkWithRetry S E offset m).err with
    | none =>
      refine ⟨hacc, fun _ i hi => hmem i hi (hnil hb _ ?_), by simp, by simp⟩
      obtain ⟨h1, h2, h3⟩ := hi
      omega
    | some b =>
      have hb' := hlist b hb
      simp only
      by_cases hitems : b.items = []
      · rw [if_pos hitems]
        exact ChunkSound.plain rfl (hb'.plain hitems) hacc
      · rw [if_neg hitems]
        refine ⟨hacc, by simp, ?_, ?_⟩
        · intro e p he hp idx hidx
          cases he
          cases hp
          simp only [withOffset, map_map, mem_map] at hidx
          obtain ⟨f, hf, rfl⟩ := hidx
          have := hb'.bounded f hf
          exact ⟨f.index + offset, by simp, by omega, by omega, by omega⟩
        · intro e p he hp i hi hnot
          cases he
          cases hp
          refine hmem i hi (hb'.others hitems _ (by obtain ⟨h1, h2, h3⟩ := hi; omega) fun f hf heq => hnot ?_)
          simp only [withOffset, map_map, mem_map, Function.comp_apply]
          exact ⟨f, hf, by have := hi.1; omega⟩

theorem write_nilSound : (write S E records).NilSound records.length := by
  intro herr i hi
  exact chunkLoop_nil S.chunkSize_pos (writeChunk_sound S E records) _ 0 (by omega) herr i (by omega) hi

/-- **A `PartialBatchError` of the Elasticsearch sink is sound exactly when** no chunk but the last is
the first to end in item errors. -/
theorem write_partialSound_iff :
    (write S E records).PartialSound records.length ↔
      PartialOnlyLast S.chunkSize records.length (writeChunk S E records) 0 := by
  rw [← chunkLoop_partialSound_iff S.chunkSize_pos (writeChunk_sound S E records) records.length 0 (by omega)]
  simp only [WriteResult.PartialSound, write, Nat.zero_le, true_implies]

end

end OpenEtl.Sink.Elasticsearch
