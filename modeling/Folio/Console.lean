import Folio.Command
import Folio.Script
import Folio.Store.Connection
/-!
# The console

A store driven entry by entry. Besides commands to the store there are entries that hold key
locks under a name, and that open scans and pull from them while the store changes. An entry
that fails leaves the console usable.
-/

namespace Folio

/-- One entry at the console. -/
inductive Entry where
  | command (command : Command)
  /-- Locks a key until the hold of this name is released. -/
  | hold (name table : String) (key timeout : Term)
  | release (name : String)
  | openScan (name table : String) (predicate : Term)
  /-- Pulls up to a number of documents from a scan. -/
  | pull (name : String) (count : Nat)

/-- A store with the locks that are held and the scans that are open; a scan that has ended or
failed has no cursor. -/
structure Console where
  state : StoreState
  holds : Entries String Hold
  scans : Entries String (Option Cursor)

namespace Console

/-- A console on a store without tables. -/
def empty : Console := ⟨.empty, [], []⟩

/-- Pulls up to a number of documents; no cursor is left where the scan has ended. -/
def pullMany : Nat → Cursor → Run (List Document × Option Cursor)
  | 0, c => return ([], some c)
  | n + 1, c => do
    match ← c.pull with
    | none => return ([], none)
    | some (document, next) =>
      let (documents, rest) ← pullMany n next
      return (document :: documents, rest)

/-- Runs a computation on the console's store. -/
def run {α : Type} (setup : Setup) (c : Console) (x : Run α) : Except Failure α × Console :=
  let (result, state) := x.exec setup c.state
  (result, { c with state })

/-- Runs an entry. A pull that fails ends the scan, and what it had pulled is lost. -/
def execute (setup : Setup) (c : Console) : Entry → Except Failure Answer × Console
  | .command command => c.run setup command.run
  | .hold name table key timeout =>
    match c.run setup (Store.hold table key timeout) with
    | (.ok hold, c) => (.ok .nothing, { c with holds := Entries.put c.holds name hold })
    | (.error f, c) => (.error f, c)
  | .release name =>
    match Entries.find? c.holds name with
    | some hold =>
      let (_, c) := c.run setup (Store.release hold)
      (.ok .nothing, { c with holds := Entries.erase c.holds name })
    | none => (.error (.missingKey (.text name)), c)
  | .openScan name table predicate =>
    let cursor := Cursor.start table predicate
    (.ok .nothing, { c with scans := Entries.put c.scans name (some cursor) })
  | .pull name count =>
    match Entries.find? c.scans name with
    | none => (.error (.missingKey (.text name)), c)
    | some none => (.ok (.pulled [] (decide (0 < count))), c)
    | some (some cursor) =>
      match c.run setup (pullMany count cursor) with
      | (.ok (documents, rest), c) =>
        (.ok (.pulled documents rest.isNone), { c with scans := Entries.put c.scans name rest })
      | (.error f, c) => (.error f, { c with scans := Entries.put c.scans name none })

/-- Runs an entry with a log of its own for calls and a count of its own for generated keys. -/
def step (setup : Setup) (c : Console) (entry : Entry) : Except Failure Answer × Console :=
  execute setup { c with state := { c.state with calls := [], generated := 0 } } entry

end Console

end Folio
