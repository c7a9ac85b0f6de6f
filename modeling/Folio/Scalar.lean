import Folio.Number.Decimal
import Folio.Text.Quoted
/-!
# Scalars

The values without parts: null, booleans, numbers and texts. They have two equalities. The loose
one counts a boolean as the number 0 or 1; the strict one, which decides whether two documents
hold the same value, keeps booleans and numbers apart. In neither does what is not a number equal
anything; where it stands in a list or a mapping, it is like what has its payload.
-/

namespace Folio

/-- A value without parts. -/
inductive Scalar where
  | null
  | bool (b : Bool)
  | number (n : Number)
  /-- A text is well-formed Unicode: an unpaired surrogate, which cannot be stored, is in none. -/
  | text (s : String)
  deriving DecidableEq

instance : Inhabited Scalar := ⟨.null⟩

/-- Messages write numbers positionally from 10⁻⁴ up to 10¹⁶ and exponents with two digits. -/
def Number.messageStyle : DecimalStyle := ⟨-4, 16, 2, "nan", "inf"⟩

namespace Scalar

/-- The name of a scalar's type, as messages give it. -/
def typeName : Scalar → String
  | .null => "NoneType"
  | .bool _ => "bool"
  | .number (.int _) => "int"
  | .number (.float _) => "float"
  | .text _ => "str"

/-- The readable form of a scalar in messages. -/
def render : Scalar → String
  | .null => "None"
  | .bool true => "True"
  | .bool false => "False"
  | .number n => n.render Number.messageStyle
  | .text s => quoted s

/-- Only null and false are not accepted as true; zero and the empty text are. -/
def truthy : Scalar → Bool
  | .null => false
  | .bool b => b
  | .number _ => true
  | .text _ => true

/-- A boolean or a number as a number. -/
def toNumber? : Scalar → Option Number
  | .bool b => some (.int (if b then 1 else 0))
  | .number n => some n
  | _ => none

/-- Loose equality, where true and false are the numbers 1 and 0. -/
def equal : Scalar → Scalar → Bool
  | .null, .null => true
  | .text s, .text t => s == t
  | a, b =>
    match a.toNumber?, b.toNumber? with
    | some m, some n => m.same n
    | _, _ => false

/-- Whether two scalars may stand for each other inside a list or a mapping: they are loosely
equal, or neither is a number and both have the same payload. -/
def alike : Scalar → Scalar → Bool
  | .number m, .number n => m.alike n
  | a, b => a.equal b

/-- Strict equality, where a boolean equals booleans only and numbers are compared by place. -/
def same : Scalar → Scalar → Bool
  | .null, .null => true
  | .bool a, .bool b => a == b
  | .number m, .number n => m.same n
  | .text s, .text t => s == t
  | _, _ => false

/-- The scalar that a written form of this one is read as. -/
def reread : Scalar → Scalar
  | .number n => .number n.reread
  | s => s

end Scalar

end Folio
