import Folio.Hook
import Folio.Options
import Folio.Store.Scan
import Folio.Store.Timeout
/-!
# The store

Tables of documents by key, with one write hook for each table. A document is read and written
while its key is locked, in one transaction: either everything that was written under the lock
stays, or nothing.
-/

namespace Folio

/-- A document whose key is locked. -/
structure Slot where
  table : String
  key : Term

namespace Slot

/-- The document of the key, if there is one. -/
def read (slot : Slot) : Run (Option Document) :=
  Run.faulty .read (some slot.key) (Session.fetch slot.table slot.key)

/-- Writes the document of the key, or removes it. -/
def write (slot : Slot) (document : Option Document) : Run Unit :=
  Run.faulty .write (some slot.key) do
    let _ ← Session.put slot.table slot.key document

end Slot

namespace Store

/-! ## Locks -/

/-- Locks a key, waiting for at most a time. A lock that is held by another is never free within
that time. A time that cannot be waited for is refused after the entry was checked out. That a lock
was had is recorded before the hold is answered: what strikes there leaves nobody to end it. -/
def hold (table : String) (key timeout : Term) : Run Hold := do
  let code ← Session.codeOf key
  let identity := (table, code)
  let (object, locks) := (← get).locks.checkOut identity
  modify fun s => { s with locks }
  match Timeout.check timeout with
  | .error fault => throw (.waiting fault)
  | .ok () =>
    match locks.acquire? object with
    | some locks =>
      modify fun s => { s with locks }
      Run.reach .lockMetrics (some key)
      Run.observe (.lockLatency table)
      return ⟨identity, object⟩
    | none =>
      modify fun s => { s with locks := s.locks.checkIn identity }
      Run.reach .lockMetrics (some key)
      throw (.lockTimeout table key timeout)

/-- Ends a hold. -/
def release (hold : Hold) : Run Unit := modify fun s => { s with locks := s.locks.finish hold }

/-- Works on a document while its key is locked, in a transaction that is committed if the
answer says so. A fault strikes before the lock is taken. -/
def lockedWhen {α : Type} (commits : α → Bool) (table : String) (key : Term)
    (body : Slot → Run α) : Run α := do
  Run.faulty .locked (some key) (pure ())
  let held ← hold table key (← read).config.lockTimeout
  let result ← Run.attempt (Run.reporting (Run.transaction commits (body ⟨table, key⟩)))
  release held
  Run.ofExcept result

/-- Works on a document while its key is locked, in one transaction. -/
def locked {α : Type} (table : String) (key : Term) (body : Slot → Run α) : Run α :=
  lockedWhen (fun _ => true) table key body

/-! ## Tables -/

/-- The name of a key field as the database keeps it: a text as it is and an integer in digits. -/
def fieldName : Term → Run String
  | .scalar (.text s) => pure s
  | .scalar (.bool b) => pure (if b then "1" else "0")
  | .scalar (.number (.int i)) => pure (toString i)
  | t => throw (.transport ("Error binding parameter of type " ++ t.typeName))

/-- Creates a table. A blank key field stands for the one of the configuration. -/
def createTable (table keyField : Term) : Run Unit := do
  match table with
  | .scalar (.text name) =>
    if name.isEmpty then throw (.request (.tableName table))
    let standard := (← read).config.keyField
    let field ← fieldName (if keyField.isBlank then standard else keyField)
    match ← Run.attempt (Run.transaction (fun _ => true) (Session.addTable name field)) with
    | .ok () => return ()
    | .error f =>
      if f.kind = .integrity then throw (.request (.tableExists name)) else throw f.reported
  | table => throw (.request (.tableName table))

/-- Drops a table with its documents and its hook. -/
def dropTable (table : String) : Run Unit := do
  let removed ← Run.session (Session.removeTable table)
  if removed = 0 then throw (.tableNotFound table)
  modify fun s => { s with hooks := Entries.erase s.hooks table }

/-- The names of the tables. -/
def tableNames : Run (List String) := Run.session Session.tableNames

/-- The key field of a table, which has to exist. -/
def keyField (table : String) : Run String := do
  match ← Run.session (Session.keyField table) with
  | some field => return field
  | none => throw (.tableNotFound table)

/-! ## Documents -/

/-- The document under a key. -/
def find? (table : String) (key : Term) : Run (Option Document) :=
  Run.session (Session.fetch table key)

/-- The documents of a table that a predicate selects, in insertion order. -/
def select (table : String) (predicate : Term) : Run (List Document) :=
  (Cursor.start table predicate).collect .ok

/-- The key of a stored document. -/
def keyOf (field : String) (document : Document) : Except Failure Value :=
  match Entries.find? document field with
  | some key => .ok key
  | none => .error (.missingKey (.text field))

/-- The keys of a table, in insertion order. -/
def keys (table : String) : Run (List Value) := do
  let field ← keyField table
  (Cursor.start table .null).collect (keyOf field)

/-- Writes a document under a key without looking at it, or removes the one there. -/
def put (table : String) (key : Term) (document : Option Document) : Run Unit :=
  locked table key fun slot => slot.write document

/-! ## Hooks -/

/-- The hook of a table, which has to exist. -/
def hook (table : String) : Run (Option FunctionRef) := do
  let _ ← keyField table
  return Entries.find? (← get).hooks table

/-- Installs, replaces or, with null, removes the hook of a table. -/
def setHook (table : String) (hook : Term) : Run HookChange := do
  let _ ← keyField table
  let before := Entries.find? (← get).hooks table
  match hook with
  | .scalar .null =>
    modify fun s => { s with hooks := Entries.erase s.hooks table }
    return .between before (none : Option FunctionRef)
  | hook =>
    match hook.callable? with
    | some f =>
      modify fun s => { s with hooks := Entries.put s.hooks table f }
      return .between before (some f)
    | none => throw (.request (.hook hook.typeName))

end Store

end Folio
