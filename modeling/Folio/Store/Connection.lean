import Folio.Store.Session
/-!
# Connections

A connection to the database on which transactions are entered and left explicitly. Between the
two, operations see what earlier ones wrote; outside of a transaction there are none. Leaving a
transaction keeps what it wrote, unless it is left with an error.
-/

namespace Folio

/-- A connection, and the database as it was when the running transaction was entered. -/
structure Connection where
  state : StoreState
  saved : Option Database

namespace Connection

/-- A connection to a database without tables. -/
def empty : Connection := ⟨.empty, none⟩

/-- Whether a transaction is running. -/
def isActive (c : Connection) : Bool := c.saved.isSome

/-- Enters a transaction. -/
def enter (c : Connection) : Except Failure Connection :=
  if c.isActive then .error .sessionActive
  else .ok { c with saved := some c.state.database }

/-- Leaves the running transaction, if there is one. -/
def leave (c : Connection) (failed : Bool) : Connection :=
  match c.saved with
  | some before =>
    if failed then ⟨{ c.state with database := before }, none⟩ else { c with saved := none }
  | none => c

/-- Runs an operation inside the running transaction. -/
def run {α : Type} (setup : Setup) (c : Connection) (operation : Run α) :
    Except Failure α × Connection :=
  if c.isActive then
    let (result, state) := operation.exec setup c.state
    (result, { c with state })
  else (.error .sessionInactive, c)

/-- Fetches a document. A key without a code is refused even outside of a transaction. -/
def fetch (setup : Setup) (c : Connection) (table : String) (key : Term) :
    Except Failure (Option Document) × Connection :=
  match key.encodeKey with
  | .ok _ => c.run setup (Session.fetch table key)
  | .error fault => (.error (.encoding fault), c)

/-! ## Steps -/

/-- An operation on the database. -/
inductive Operation where
  | fetch (table : String) (key : Term)
  | page (table : String) (after : Nat) (limit : Option Nat)
  /-- Stores a document under a key, or removes the one there. -/
  | put (table : String) (key : Term) (document : Option Document)
  | keyField (table : String)
  | tableNames
  | addTable (table keyField : String)
  | removeTable (table : String)

/-- What can be done with a connection. -/
inductive Step where
  | enter
  | leave (failed : Bool)
  | perform (operation : Operation)

/-- What a step is answered with. -/
inductive Reply where
  | nothing
  | document (document : Option Document)
  | page (documents : List (Nat × Document))
  | count (n : Nat)
  | name (name : Option String)
  | names (names : List String)

/-- What an operation is refused with where no transaction runs. -/
def Operation.refusal : Operation → Failure
  | .fetch _ key =>
    match key.encodeKey with
    | .ok _ => .sessionInactive
    | .error fault => .encoding fault
  | _ => .sessionInactive

/-- Makes a reply of what an operation answers. -/
def replying {α : Type} (reply : α → Reply) (done : Except Failure α × Connection) :
    Except Failure Reply × Connection := (done.1.map reply, done.2)

/-- Performs an operation. -/
def perform (setup : Setup) (c : Connection) : Operation → Except Failure Reply × Connection
  | .fetch table key => replying .document (c.fetch setup table key)
  | .page table after limit =>
    replying (fun rows => .page (rows.map fun r => (r.seq, r.body)))
      (c.run setup (Session.fetchPage table after limit))
  | .put table key document =>
    replying .count (c.run setup (Session.put table key (document.map fun d => d.settle.reread)))
  | .keyField table => replying .name (c.run setup (Session.keyField table))
  | .tableNames => replying .names (c.run setup Session.tableNames)
  | .addTable table keyField =>
    replying (fun _ => .nothing) (c.run setup (Session.addTable table keyField))
  | .removeTable table => replying .count (c.run setup (Session.removeTable table))

/-- Takes one step. -/
def step (setup : Setup) (c : Connection) : Step → Except Failure Reply × Connection
  | .enter =>
    match c.enter with
    | .ok entered => (.ok .nothing, entered)
    | .error f => (.error f, c)
  | .leave failed => (.ok .nothing, c.leave failed)
  | .perform operation => c.perform setup operation

/-- The connection after steps. -/
def after (setup : Setup) (c : Connection) (steps : List Step) : Connection :=
  steps.foldl (fun c step => (c.step setup step).2) c

/-- What steps are answered with, in turn. -/
def answers (setup : Setup) : Connection → List Step → List (Except Failure Reply)
  | _, [] => []
  | c, step :: rest => (c.step setup step).1 :: answers setup (c.step setup step).2 rest

end Connection

end Folio
