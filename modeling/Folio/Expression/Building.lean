import Folio.Failure
/-!
# Building expressions

Expressions from operands that may be any term: what is no expression becomes a constant. Only an
unknown operator and a wrong number of arms are refused.
-/

namespace Folio

namespace Expression

variable {κ : Type}

/-- Arms, each a condition and a value, before a last value. -/
def ofArms? : List (Expression κ) → Option (Expression κ)
  | [] => none
  | [otherwise] => some otherwise
  | condition :: value :: rest => (ofArms? rest).map (.branch condition value)

/-- A branch from its arms: an odd number of arguments, at least three. -/
def ofArms (arguments : List (Expression κ)) : Except BuildingFault (Expression κ) :=
  if arguments.length < 3 then .error .arms
  else
    match ofArms? arguments with
    | some e => .ok e
    | none => .error .arms

/-- An operation from the name of its operator. -/
def ofOperator (name : String) (left right : Expression κ) :
    Except BuildingFault (Expression κ) :=
  match Operator.ofName? name with
  | some op => .ok (.operation op left right)
  | none => .error (.operator name)

end Expression

end Folio
