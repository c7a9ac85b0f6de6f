import Folio.Failure
/-!
# Predicates

Which documents a filter selects. A mapping selects the documents that have every field it names
with the same value, where a mapping inside it again names only a part. An expression or a
function selects what it does not answer with false or null; an expression that cannot be
evaluated does not select.
-/

namespace Folio

namespace Predicate

mutual

/-- Whether a value is the expected one, or has the expected parts. -/
def matchValue (expected actual : Term) : Bool :=
  match expected with
  | .mapping pattern =>
    match actual with
    | .mapping entries => matchEntries pattern entries
    | _ => false
  | expected => actual.same expected
termination_by structural expected

/-- Whether the entries have every expected one. -/
def matchEntries (pattern entries : List (Term × Term)) : Bool :=
  match pattern with
  | [] => true
  | (name, expected) :: rest =>
    match Entries.find? entries name with
    | some actual => matchValue expected actual && matchEntries rest entries
    | none => false
termination_by structural pattern

end

/-- Whether an evaluated expression selects. Numbers out of range are no fault of the expression
and fail the whole scan. -/
def ofEvaluated : Evaluated → Except Failure Bool
  | .ok value => .ok value.truthy
  | .error fault =>
    if (Failure.evaluationKind fault).isExpression then .ok false
    else .error (.evaluation fault)

/-- Whether a function's answer selects. -/
def ofAnswer : Except Failure Term → Except Failure Bool
  | .ok value => .ok value.truthy
  | .error cause => .error (.predicateFailed cause)

/-- Whether a predicate without a function selects a document. -/
def selects (predicate document : Term) : Except Failure Bool :=
  match predicate with
  | .scalar .null => .ok true
  | .mapping _ => .ok (matchValue predicate document)
  | .expression _ e => ofEvaluated (e.value document)
  | predicate => .error (.predicateUnsupported predicate)

end Predicate

end Folio
