import Folio.Writer.Writer
/-!
# Trials

Policies, hooks, patches and predicates tried on terms, apart from any stored document. They go
through the same decisions as in a request.
-/

namespace Folio

namespace Trial

/-- A policy that an option asks for, tried on an insert where a document may exist. -/
def policy (option : Term) (field : String) (key existing incoming : Term) : Run Resolution := do
  match ConflictPolicy.ofOption option with
  | .error fault => throw (.request fault)
  | .ok policy =>
    let old := if existing.isNull then none else some existing.entries
    Commit.resolve policy field key old incoming

/-- A hook tried on a write. Without a hook the new document is written as it is. -/
def hook (hook : Term) (table field : String) (key old new : Term) : Run Term := do
  if hook.isNull then return new
  let answer ← match hook.callable? with
    | some f => Run.call f [key, old, new]
    | none => pure (.error (.notCallable hook.typeName))
  let written ← Run.ofExcept (Hook.decide table field key new.isNull answer)
  return optionalDocument written

/-- A predicate tried on a document. -/
def predicate (predicate document : Term) : Run Bool := Scan.selects predicate document

/-- A patch evaluated on an existing document. -/
def evaluatePatch (existing patch : Term) : Run Term := do
  return .mapping (← Commit.evaluatePatch existing patch)

/-- A patch evaluated on an existing document and merged into it. -/
def applyPatch (existing patch : Term) : Run Term := Commit.applyPatch existing patch

/-- An evaluated patch merged into an existing document. -/
def merge (existing patch : Term) : Term := .mapping (Patch.merge existing.entries patch.entries)

/-- The value of a term, as an expression, on a document. -/
def evaluate (e document : Term) : Except Failure Term :=
  Patch.lift (e.toExpression.value document)

end Trial

end Folio
