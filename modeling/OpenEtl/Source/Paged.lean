import OpenEtl.Core.Errors

/-!
# Readers of pages (`httpReader` in `source/http.go`, `restReader` in `source/rest.go`)

| here | there |
| --- | --- |
| `Reader` | `httpReader` (http.go:295), `restReader` (rest.go:472) |
| `Reader.read` | `Read` (http.go:304, rest.go:490) |

The two readers hand out the records of a page one by one and take the position behind the page as
committed with its last record. They differ in what a position is and in `fetchPage`, which is a parameter
here.
-/

namespace OpenEtl.Source.Paged

/-- What `fetchPage` does: the reader's position afterwards, the records or an error, and whether this was
the last page. -/
structure Fetched (σ : Type*) where
  pos : σ
  result : Except Err (List Record)
  last : Bool

structure Reader (σ : Type*) where
  pos : σ
  committed : σ
  buffer : List Record := []
  done : Bool := false

inductive Outcome
  | record (record : Record)
  | eof
  | failed (e : Err)

/-- The record a `Read` has returned. -/
def Outcome.records : Outcome → List Record
  | .record r => [r]
  | .eof | .failed _ => []

def Outcome.isEof : Outcome → Bool
  | .eof => true
  | .record _ | .failed _ => false

/-- An element of a page: only objects become records. -/
inductive Item
  | object (data : Data)
  | other
deriving DecidableEq, Repr

def itemRecords (name sourceType : String) (items : List Item) : List Record :=
  items.filterMap fun
    | .object data => some { operation := .insert, data, metadata := { source := name, sourceType, table := name } }
    | .other => none

variable {σ : Type*}

/-- `fetchPage` was called. -/
def Reader.fetched (r : Reader σ) (f : Fetched σ) : Reader σ := { r with pos := f.pos, done := r.done || f.last }

/-- The first record of the buffer is handed out; with the last one the page is committed. -/
def Reader.pop (r : Reader σ) (rest : List Record) : Reader σ :=
  { r with buffer := rest, committed := if rest = [] then r.pos else r.committed }

def Reader.read (fetchPage : σ → Fetched σ) (r : Reader σ) : Reader σ × Outcome :=
  match r.buffer with
  | record :: rest => (r.pop rest, .record record)
  | [] =>
    if r.done then (r, .eof)
    else
      let f := fetchPage r.pos
      let r := r.fetched f
      match f.result with
      | .error e => (r, .failed e)
      | .ok [] => ({ r with done := true }, .eof)
      | .ok (record :: rest) => (r.pop rest, .record record)

section Read

variable {f : σ → Fetched σ} {r : Reader σ} {record : Record} {rest : List Record}

theorem read_buffered (hbuf : r.buffer = record :: rest) :
    r.read f = (r.pop rest, .record record) := by
  simp only [Reader.read, hbuf]

theorem read_done (hbuf : r.buffer = []) (hdone : r.done = true) : r.read f = (r, .eof) := by
  simp only [Reader.read, hbuf, hdone, if_true]

variable (hbuf : r.buffer = []) (hdone : r.done = false)
include hbuf hdone

theorem read_failed {e : Err} (hres : (f r.pos).result = .error e) : r.read f = (r.fetched (f r.pos), .failed e) := by
  simp only [Reader.read, hbuf, hdone, hres, Bool.false_eq_true, if_false]

theorem read_empty (hres : (f r.pos).result = .ok []) :
    r.read f = ({ r with pos := (f r.pos).pos, done := true }, .eof) := by
  simp only [Reader.read, hbuf, hdone, hres, Bool.false_eq_true, if_false, Reader.fetched]

theorem read_page (hres : (f r.pos).result = .ok (record :: rest)) :
    r.read f = ((r.fetched (f r.pos)).pop rest, .record record) := by
  simp only [Reader.read, hbuf, hdone, hres, Bool.false_eq_true, if_false]

end Read

end OpenEtl.Source.Paged
