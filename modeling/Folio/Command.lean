import Folio.Writer.Writer
/-!
# Commands

What can be asked of a store, as data: the requests of the writer, the operations on tables and
single documents, the injection of faults and the reading of counts. Each command runs to one
answer.
-/

namespace Folio

/-- An action on a locked document. -/
inductive SlotAction where
  | read
  | write (value : Term)
  /-- Counts the entries of the lock table. -/
  | locks
  | raise (kind : ErrorKind) (message : String)

/-- A command to a store. -/
inductive Command where
  | create (table keyField : Term)
  | drop (table : String)
  | tables
  | keyField (table : String)
  | find (table : String) (key : Term)
  | scan (table : String) (predicate : Term)
  | keys (table : String)
  | put (table : String) (key value : Term)
  | insert (target payload conflict durability returnChanges : Term)
  | update (target patch durability returnChanges : Term)
  | delete (target durability returnChanges : Term)
  | mutate (selector mutation conflict durability returnChanges : Term)
  | setHook (table : String) (hook : Term)
  | getHook (table : String)
  | locks
  | locked (table : String) (key : Term) (actions : List SlotAction)
  | addFault (fault : Fault)
  | clearFaults
  | metrics

/-- What a command answers. -/
inductive Answer where
  | nothing
  | name (name : Option String)
  | names (names : List String)
  | document (document : Option Document)
  | documents (documents : List Document)
  | keys (keys : List Value)
  /-- What each action on a locked document came to. -/
  | actions (results : List Term)
  /-- Documents that were pulled, and whether the scan has ended. -/
  | pulled (documents : List Document) (ended : Bool)
  | report (report : WriteReport)
  | hook (change : HookChange)
  | count (n : Nat)
  | samples (counts : List (Sample × Nat))

namespace Command

/-- The document that a term is kept and read back as; null removes the document. Two keys of a
mapping may be written as one label. -/
def storable (value : Term) : Except Failure (Option Document) :=
  match value with
  | .scalar .null => .ok none
  | value =>
    match value.toValue with
    | .ok (.object fields) => .ok (some (Document.reread (Document.settle fields)))
    | .ok _ => .error (.transport ("cannot store " ++ value.typeName))
    | .error fault => .error (.transport fault.message)

/-- Does one action on a locked document. -/
def act (slot : Slot) : SlotAction → Run Term
  | .read => do return optionalDocument (← slot.read)
  | .write value => do
    let document ← Run.ofExcept (storable value)
    slot.write document
    return .null
  | .locks => do return .int (← get).locks.size
  | .raise kind message => throw (.raised kind message)

/-- Does actions on a locked document one after the other. -/
def actAll (slot : Slot) : List SlotAction → Run (List Term)
  | [] => return []
  | action :: rest => do
    let result ← act slot action
    let results ← actAll slot rest
    return result :: results

/-- Runs a command. -/
def run : Command → Run Answer
  | .create table field => do
    Store.createTable table field
    return .nothing
  | .drop table => do
    Store.dropTable table
    return .nothing
  | .tables => do return .names (← Store.tableNames)
  | .keyField table => do return .name (some (← Store.keyField table))
  | .find table key => do return .document (← Store.find? table key)
  | .scan table predicate => do return .documents (← Store.select table predicate)
  | .keys table => do return .keys (← Store.keys table)
  | .put table key value => do
    Store.locked table key fun slot => do
      let document ← Run.ofExcept (storable value)
      slot.write document
    return .nothing
  | .insert target payload conflict durability returnChanges => do
    return .report (← Writer.insert target payload conflict durability returnChanges)
  | .update target patch durability returnChanges => do
    return .report (← Writer.update target patch durability returnChanges)
  | .delete target durability returnChanges => do
    return .report (← Writer.delete target durability returnChanges)
  | .mutate selector mutation conflict durability returnChanges => do
    let options ← Run.ofExcept (Writer.optionsOf conflict durability returnChanges)
    return .report (← Writer.mutate selector mutation options)
  | .setHook table hook => do return .hook (← Store.setHook table hook)
  | .getHook table => do return .name ((← Store.hook table).map FunctionRef.name)
  | .locks => do return .count (← get).locks.size
  | .locked table key actions => do
    return .actions (← Store.locked table key fun slot => actAll slot actions)
  | .addFault fault => do
    modify fun s => { s with faults := s.faults ++ [fault] }
    return .nothing
  | .clearFaults => do
    modify fun s => { s with faults := [] }
    return .nothing
  | .metrics => do return .samples (← get).metrics.sorted

end Command

end Folio
