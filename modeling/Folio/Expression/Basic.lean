import Folio.Number.Number
/-!
# Expressions

Row-relative expressions: what a patch or a filter computes from the current document. They are
trees over a type of constants. A field node carries an identity, because a default replaces the
very node whose field is missing.
-/

namespace Folio

/-- The arithmetic operators. -/
inductive Arithmetic where
  | add | sub | mul | div | mod
  deriving DecidableEq

/-- The operators with two operands. -/
inductive Operator where
  | arithmetic (op : Arithmetic)
  | order (relation : OrderRelation)
  | eq | ne | and | or
  deriving DecidableEq

namespace Arithmetic

/-- The operator as an expression names it. -/
def name : Arithmetic → String
  | .add => "add"
  | .sub => "sub"
  | .mul => "mul"
  | .div => "div"
  | .mod => "mod"

/-- The operator as a message phrases it. -/
def verb : Arithmetic → String
  | .add => "add"
  | .sub => "subtract"
  | .mul => "multiply"
  | .div => "divide"
  | .mod => "take modulo of"

end Arithmetic

namespace OrderRelation

/-- The relation as an expression names it. -/
def name : OrderRelation → String
  | .lt => "lt"
  | .le => "le"
  | .gt => "gt"
  | .ge => "ge"

/-- The relation's sign, as messages give it. -/
def sign : OrderRelation → String
  | .lt => "<"
  | .le => "<="
  | .gt => ">"
  | .ge => ">="

end OrderRelation

namespace Operator

/-- The operator as an expression names it. -/
def name : Operator → String
  | .arithmetic op => op.name
  | .order relation => relation.name
  | .eq => "eq"
  | .ne => "ne"
  | .and => "and"
  | .or => "or"

/-- Every operator. -/
def all : List Operator :=
  [.arithmetic .add, .arithmetic .sub, .arithmetic .mul, .arithmetic .div, .arithmetic .mod,
    .order .lt, .order .le, .order .gt, .order .ge, .eq, .ne, .and, .or]

/-- The operator of a name. -/
def ofName? (name : String) : Option Operator := all.find? fun op => op.name == name

end Operator

/-- An expression over constants of type `κ`. -/
inductive Expression (κ : Type) where
  /-- The current document. -/
  | row
  | const (value : κ)
  /-- A field of an object; `node` tells this field node from others of the same shape. -/
  | field (node : Nat) (base : Expression κ) (name : String)
  | operation (op : Operator) (left right : Expression κ)
  | not (inner : Expression κ)
  /-- The inner value, with a fallback for what it misses. -/
  | default (inner fallback : Expression κ)
  /-- Whether every name is a field that is not null. -/
  | hasFields (base : Expression κ) (names : List String)
  /-- The first value if the condition holds, else the other one. -/
  | branch (condition value otherwise : Expression κ)

namespace Expression

variable {κ : Type}

instance : Inhabited (Expression κ) := ⟨.row⟩

/-- The name of a node's type, as messages give it. -/
def typeName : Expression κ → String
  | .row => "Row"
  | .const _ => "Const"
  | .field .. => "Field"
  | .operation .. => "BinOp"
  | .not _ => "Not"
  | .default .. => "Default"
  | .hasFields .. => "HasFields"
  | .branch .. => "Branch"

/-- The identities of the field nodes, each as often as it occurs. -/
def fieldNodes : Expression κ → List Nat
  | .row => []
  | .const _ => []
  | .field node base _ => node :: base.fieldNodes
  | .operation _ left right => left.fieldNodes ++ right.fieldNodes
  | .not inner => inner.fieldNodes
  | .default inner fallback => inner.fieldNodes ++ fallback.fieldNodes
  | .hasFields base _ => base.fieldNodes
  | .branch condition value otherwise =>
    condition.fieldNodes ++ value.fieldNodes ++ otherwise.fieldNodes

/-- A path of fields from the current document; `node` numbers the field at each position. -/
def path (node : Nat → Nat) (names : List String) : Expression κ :=
  names.zipIdx.foldl (fun base (name, i) => .field (node i) base name) .row

end Expression

end Folio
