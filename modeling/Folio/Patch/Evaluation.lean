import Folio.Failure
/-!
# Evaluation of patches

Before a patch is merged, each expression in it becomes a copy of its value on the existing
document.
Marks and literals stay for the merge. A patch may also be an expression as a whole, or the
answer of a function; in the end it has to be a mapping.
-/

namespace Folio

namespace Term

mutual

/-- A part of a patch with its expressions evaluated. -/
def evaluatePatch (existing : Term) : Term → Except EvaluationFault Term
  | .expression _ e => (e.value existing).map copy
  | .literal value => (evaluatePatch existing value).map .literal
  | .mapping entries => (evaluatePatchEntries existing entries).map .mapping
  | .list items => (evaluatePatchItems existing items).map .list
  | .tuple items => (evaluatePatchItems existing items).map .list
  | t => .ok t

/-- The entries of a patch with their expressions evaluated, in order. -/
def evaluatePatchEntries (existing : Term) :
    List (Term × Term) → Except EvaluationFault (List (Term × Term))
  | [] => .ok []
  | (key, value) :: rest => do
    let result ← evaluatePatch existing value
    let results ← evaluatePatchEntries existing rest
    return (key, result) :: results

/-- The items of a list in a patch with their expressions evaluated, in order. -/
def evaluatePatchItems (existing : Term) : List Term → Except EvaluationFault (List Term)
  | [] => .ok []
  | item :: rest => do
    let result ← evaluatePatch existing item
    let results ← evaluatePatchItems existing rest
    return result :: results

end

end Term

namespace Patch

/-- Evaluation faults as failures. -/
def lift {α : Type} : Except EvaluationFault α → Except Failure α
  | .ok a => .ok a
  | .error fault => .error (.evaluation fault)

/-- The patch that a function answered. An expression that failed inside of the function is
reported as it is, any other failure as one of the function. -/
def ofAnswer : Except Failure Term → Except Failure Term
  | .ok patch => .ok patch
  | .error cause => .error (if cause.kind.isExpression then cause else .patchFailed cause)

/-- A patch that is an expression stands for its value. -/
def ofExpression (existing : Term) : Term → Except Failure Term
  | .expression _ e => lift (e.value existing)
  | patch => .ok patch

/-- The entries to merge: the patch with every expression evaluated on the existing document. -/
def evaluate (existing patch : Term) : Except Failure (List (Term × Term)) := do
  match ← ofExpression existing patch with
  | .mapping entries => lift (Term.evaluatePatchEntries existing entries)
  | other => throw (.patchNotObject other.typeName)

end Patch

end Folio
