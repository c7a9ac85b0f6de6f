import Folio.Patch.Validation
import Folio.Report
import Folio.Store.Store
/-!
# Targets

The plan of a request: the documents that it is about, each as a task with its key, in the order
in which the report lists them. Everything that makes a request malformed is found here, before
any document is touched.
-/

namespace Folio

/-- What is to be done with one document. -/
inductive Work where
  /-- Insert a document, whose key may have been generated. -/
  | insert (document : Document) (generated : Bool)
  | update (patch : Term)
  | delete

/-- One target of a request. -/
structure Task where
  index : Nat
  key : Value
  work : Work

/-- What the targets of one request share. The hook is the one at the start of the request. -/
structure Request where
  table : String
  keyField : String
  options : Options
  hook : Option FunctionRef

namespace Target

/-! ## Inserts -/

/-- The documents of a payload: one document or a sequence of them. -/
def documents (payload : Term) : Except Failure (List Document) :=
  let validate (t : Term) : Except Failure Document :=
    match t.recordAsMapping.validateDocument "insert payload" with
    | .ok d => .ok d
    | .error fault => .error (.malformed fault)
  match payload with
  | .list items => items.mapM validate
  | .tuple items => items.mapM validate
  | .mapping entries => [Term.mapping entries].mapM validate
  | payload =>
    if payload.isRecord then [payload].mapM validate
    else .error (.request (.payload payload.typeName))

/-- The document with its key in front, generated if the field is absent. -/
def withKey (field : String) (document : Document) : Run (Document × Bool) := do
  if Entries.has document field then return (document, false)
  else
    let key ← Run.freshKey
    return ((field, .scalar (.text key)) :: document, true)

/-- The tasks of an insert, from a position on. -/
def insertTasks (field : String) (index : Nat) : List Document → Run (List Task)
  | [] => return []
  | document :: rest => do
    let (document, generated) ← withKey field document
    let key := document.fieldOrNull field
    if !key.isKey then throw (.request (.insertKey field key.toTerm))
    let tasks ← insertTasks field (index + 1) rest
    return ⟨index, key, .insert document generated⟩ :: tasks

/-! ## Updates and deletions -/

/-- A term as a key. -/
def validKey (key : Term) : Except Failure Value :=
  match key with
  | .scalar s => if s.isKey then .ok (.scalar s) else .error (.request (.key key))
  | key => .error (.request (.key key))

/-- The listed keys of documents that exist, each key once, although it may be spelt in several
ways. -/
def presentKeys (table : String) (seen : List String) : List Term → Run (List Value)
  | [] => return []
  | term :: rest => do
    let key ← Run.ofExcept (validKey term)
    let code := key.code
    if seen.contains code then presentKeys table seen rest
    else
      let document ← Store.find? table term
      let keys ← presentKeys table (code :: seen) rest
      return if document.isSome then key :: keys else keys

/-- The keys that a selector resolves to, in order. -/
def keys (table field : String) : Selector Term → Run (List Value)
  | .get _ key => do return [← Run.ofExcept (validKey key)]
  | .getAll _ keys => presentKeys table [] keys
  | .filter _ predicate => (Cursor.start table predicate).collect (Store.keyOf field)
  | .table _ => Store.keys table

/-- Checks a patch as far as it can be known without a document. -/
def checkPatch (patch : Term) : Except Failure Unit :=
  match patch with
  | .mapping _ =>
    match patch.validatePatch "" with
    | .ok () => .ok ()
    | .error fault => .error (.malformed fault)
  | .expression .. => .ok ()
  | patch =>
    if patch.callable?.isSome then .ok () else .error (.request (.patch patch.typeName))

/-- The tasks of one work on each of the selected documents. -/
def selectedTasks (request : Request) (selector : Selector Term) (work : Work) :
    Run (List Task) := do
  let found ← keys request.table request.keyField selector
  return found.zipIdx.map fun (key, index) => ⟨index, key, work⟩

/-- Only inserts can meet an occupied key. -/
def checkConflict (options : Options) : Except Failure Unit :=
  if options.conflict = .builtin .error then .ok () else .error (.request .conflictOnTargets)

/-- The tasks of a request, in order. -/
def tasks (request : Request) (selector : Selector Term) (mutation : Mutation Term) :
    Run (List Task) :=
  match mutation with
  | .insert payload =>
    match selector with
    | .table _ => do
      let found ← Run.ofExcept (documents payload)
      insertTasks request.keyField 0 found
    | selector => throw (.request (.insertTarget selector.typeName))
  | .update patch => do
    Run.ofExcept (checkConflict request.options)
    Run.ofExcept (checkPatch patch)
    selectedTasks request selector (.update patch)
  | .delete => do
    Run.ofExcept (checkConflict request.options)
    selectedTasks request selector .delete

end Target

end Folio
