import Folio.Predicate
import Folio.Store.Session
/-!
# Scans

A scan reads the documents of a table in insertion order, one page at a time and each page in a
transaction of its own, so writes between two pages show in the later one. A cursor keeps the
rows of the current page that were not looked at, and the sequence number behind which the next
page starts. Each full page ends behind the one before, which bounds the pages of one pull by
the rows there are.
-/

namespace Folio

/-- A scan in progress. -/
structure Cursor where
  table : String
  predicate : Term
  /-- The last sequence number that was read. -/
  after : Nat
  /-- The rows that were read and not yet looked at. -/
  pending : List Row
  /-- Whether there may be another page. -/
  more : Bool

namespace Scan

/-- Whether a predicate selects a document; a function is called with it. -/
def selects (predicate document : Term) : Run Bool :=
  match predicate.callable? with
  | some f => do
    let answer ← Run.call f [document]
    Run.ofExcept (Predicate.ofAnswer answer)
  | none => Run.ofExcept (Predicate.selects predicate document)

/-- The first row that a predicate selects, with the rows behind it. -/
def firstSelected (predicate : Term) : List Row → Run (Option (Document × List Row))
  | [] => return none
  | row :: rest => do
    if ← selects predicate row.body.toTerm then return some (row.body, rest)
    else firstSelected predicate rest

/-- The cursor behind a page that was read, of which a full one may be followed by another. -/
def turn (c : Cursor) (pageSize : Nat) (rows : List Row) : Cursor :=
  { c with
    after := (rows.getLast?.map Row.seq).getD c.after
    pending := rows
    more := decide (pageSize ≤ rows.length) }

/-- Pulls the next selected document, reading at most a number of pages. -/
def pullWithin : Nat → Cursor → Run (Option (Document × Cursor))
  | 0, _ => return none
  | pages + 1, c => do
    match ← firstSelected c.predicate c.pending with
    | some (document, rest) => return some (document, { c with pending := rest })
    | none =>
      if c.more then
        let pageSize := (← read).pageSize
        let rows ← Run.session (Session.fetchPage c.table c.after (some pageSize))
        pullWithin pages (turn c pageSize rows)
      else return none

end Scan

namespace Cursor

/-- The start of a scan. -/
def start (table : String) (predicate : Term) : Cursor := ⟨table, predicate, 0, [], true⟩

/-- Pulls the next selected document; nothing stands for the end of the scan. -/
def pull (c : Cursor) : Run (Option (Document × Cursor)) := do
  Scan.pullWithin ((← get).database.rows.length + 2) c

/-- Reads something off each of the selected documents, at most a number of them. -/
def collectWithin {α : Type} (readOff : Document → Except Failure α) :
    Nat → Cursor → Run (List α)
  | 0, _ => return []
  | documents + 1, c => do
    match ← c.pull with
    | none => return []
    | some (document, next) =>
      let a ← Run.ofExcept (readOff document)
      let rest ← collectWithin readOff documents next
      return a :: rest

/-- Reads something off each of the selected documents. -/
def collect {α : Type} (readOff : Document → Except Failure α) (c : Cursor) : Run (List α) := do
  collectWithin readOff ((← get).database.rows.length + 1) c

end Cursor

end Folio
