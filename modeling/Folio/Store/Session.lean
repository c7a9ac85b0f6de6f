import Folio.Store.Run
/-!
# Session operations

The single operations on the database that a transaction is made of. Documents are addressed by
a table and a key, so each of them needs the key's code.
-/

namespace Folio

namespace Session

/-- The code of a key. -/
def codeOf (key : Term) : Run String :=
  match key.encodeKey with
  | .ok code => pure code
  | .error fault => throw (.encoding fault)

/-- Changes the database. -/
def update (change : Database → Database) : Run Unit :=
  modify fun s => { s with database := change s.database }

/-- The document under a key. -/
def fetch (table : String) (key : Term) : Run (Option Document) :=
  Run.faulty .fetch (some key) do
    let code ← codeOf key
    return (← get).database.find? table code

/-- Stores a document under a key, or removes the one there; answers with the number of rows. -/
def put (table : String) (key : Term) (document : Option Document) : Run Nat :=
  Run.faulty .put (some key) do
    let code ← codeOf key
    match document with
    | some body =>
      update fun db => db.write table code body
      return 1
    | none =>
      let removed := (← get).database.count table code
      update fun db => db.remove table code
      return removed

/-- The rows of a table after a sequence number, up to a limit. -/
def fetchPage (table : String) (after : Nat) (limit : Option Nat) : Run (List Row) :=
  Run.faulty .fetchPage none do
    return (← get).database.page table after limit

/-- The key field of a table. -/
def keyField (table : String) : Run (Option String) :=
  Run.faulty .keyField none do
    return (← get).database.keyField? table

/-- The names of the tables. -/
def tableNames : Run (List String) :=
  Run.faulty .tableNames none do
    return (← get).database.tableNames

/-- Adds a table; a name that is taken breaks the uniqueness of names. -/
def addTable (table field : String) : Run Unit :=
  Run.faulty .addTable none do
    match (← get).database.addTable? table field with
    | some db => Run.restore db
    | none => throw (.raised .integrity "")

/-- Removes a table with its documents; answers with the number of tables removed. -/
def removeTable (table : String) : Run Nat :=
  Run.faulty .removeTable none do
    let present := (← get).database.keyField? table
    update fun db => db.removeTable table
    return if present.isSome then 1 else 0

end Session

end Folio
