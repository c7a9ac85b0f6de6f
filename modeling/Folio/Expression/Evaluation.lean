import Folio.Term.Equality
/-!
# Evaluation of expressions

An expression is evaluated against the current document under a substitution, which gives values
to field nodes. A field that is absent or null is *missing*, and a default puts its fallback in
the place of each missing field that it can name, one after the other. Each round adds a new node
to the substitution, so the number of field nodes bounds the rounds.
-/

namespace Folio

/-- What made a field missing. -/
inductive Missing where
  /-- The object that should hold the field is null. -/
  | ofNull (name : String)
  | absent (name : String)
  /-- An arithmetic operand is null. -/
  | operand (op : Arithmetic)
  deriving DecidableEq

/-- Why an expression has no value. -/
inductive EvaluationFault where
  /-- A missing field, and the field node that a default may replace. -/
  | missing (why : Missing) (node : Option Nat)
  | notObject (name type : String)
  | unsupportedOperands (op : Arithmetic) (left right : String)
  | zeroDivisor
  | incomparable (relation : OrderRelation) (left right : String)
  | operandTooLarge
  | quotientTooLarge
  deriving DecidableEq

/-- Values that stand for field nodes. -/
abbrev Substitution := Entries Nat Term

/-- The outcome of an evaluation. -/
abbrev Evaluated := Except EvaluationFault Term

namespace Missing

/-- The wording of what is missing. -/
def message : Missing → String
  | .ofNull name => "Cannot read field `" ++ name ++ "` of null"
  | .absent name => "No attribute `" ++ name ++ "` in object"
  | .operand op => "Expected a value for `" ++ op.name ++ "` but found null"

end Missing

namespace EvaluationFault

/-- The wording of the fault. -/
def message : EvaluationFault → String
  | .missing why _ => why.message
  | .notObject name type => "Cannot read field `" ++ name ++ "` of non-object " ++ type
  | .unsupportedOperands op left right => "Cannot " ++ op.verb ++ " " ++ left ++ " and " ++ right
  | .zeroDivisor => "Cannot divide by zero"
  | .incomparable relation left right =>
    "'" ++ relation.sign ++ "' not supported between instances of '" ++ left ++ "' and '" ++
      right ++ "'"
  | .operandTooLarge => "int too large to convert to float"
  | .quotientTooLarge => "integer division result too large for a float"

/-- What can go wrong in arithmetic, as a fault of an expression. -/
def ofArithmetic : ArithmeticFault → EvaluationFault
  | .zeroDivisor => .zeroDivisor
  | .operandTooLarge => .operandTooLarge
  | .quotientTooLarge => .quotientTooLarge

end EvaluationFault

namespace Arithmetic

/-- The operator on two numbers. -/
def onNumbers : Arithmetic → Number → Number → Except ArithmeticFault Number
  | .add => Number.add
  | .sub => Number.sub
  | .mul => Number.mul
  | .div => Number.div
  | .mod => Number.mod

/-- The operator on two terms: numbers, and for a sum also two texts or two lists. -/
def apply (op : Arithmetic) (left right : Term) : Evaluated :=
  match left.number?, right.number? with
  | some m, some n =>
    match op.onNumbers m n with
    | .ok result => .ok (.scalar (.number result))
    | .error fault => .error (.ofArithmetic fault)
  | _, _ =>
    match op, left, right with
    | .add, .scalar (.text s), .scalar (.text t) => .ok (.text (s ++ t))
    | .add, .list xs, .list ys => .ok (.list (xs ++ ys))
    | op, left, right => .error (.unsupportedOperands op left.typeName right.typeName)

end Arithmetic

namespace Expression

variable {κ : Type}

/-- The node of a field, if the expression is one. -/
def fieldNode? : Expression κ → Option Nat
  | .field node _ _ => some node
  | _ => none

/-- Reads a field of an evaluated container. -/
def readField (node : Nat) (name : String) : Term → Evaluated
  | .scalar .null => .error (.missing (.ofNull name) (some node))
  | .mapping entries =>
    match Entries.find? entries (.text name) with
    | some value => .ok value
    | none => .error (.missing (.absent name) (some node))
  | container => .error (.notObject name container.typeName)

/-- A field missing inside a path is reported as the outermost field of the path, so that a
default replaces the path as a whole. -/
def blameField (node : Nat) : EvaluationFault → EvaluationFault
  | .missing why _ => .missing why (some node)
  | fault => fault

/-- Applies an operator that evaluates both operands. For arithmetic a null operand is a missing
field, the left one first. -/
def applyOperator (op : Operator) (leftNode rightNode : Option Nat) (left right : Term) :
    Evaluated :=
  match op with
  | .arithmetic op =>
    if left.isNull then .error (.missing (.operand op) leftNode)
    else if right.isNull then .error (.missing (.operand op) rightNode)
    else op.apply left right
  | .order relation =>
    match left.holds relation right with
    | .ok b => .ok (.bool b)
    | .error (l, r) => .error (.incomparable relation l r)
  | .eq => .ok (.bool (left.same right))
  | .ne => .ok (.bool (!left.same right))
  | .and => .ok (if left.truthy then right else left)
  | .or => .ok (if left.truthy then left else right)

/-- Runs an evaluation again and again, with the fallback in the place of each newly missing
field. The fallback is the whole result where no new field is to blame, where the evaluation
gives null, and when the fuel, which bounds the rounds, is used up. -/
def recover (run : Substitution → Evaluated) (fallback : Evaluated) :
    Nat → Substitution → Evaluated
  | 0, _ => fallback
  | fuel + 1, known =>
    match run known with
    | .ok value => if value.isNull then fallback else .ok value
    | .error (.missing _ (some node)) =>
      if Entries.has known node then fallback
      else
        match fallback with
        | .ok value => recover run fallback fuel (Entries.put known node value)
        | .error fault => .error fault
    | .error (.missing _ none) => fallback
    | .error fault => .error fault

/-- Whether every name is a field of a container that is not null. -/
def hasAll (names : List String) : Term → Bool
  | .mapping entries =>
    names.all fun name => match Entries.find? entries (.text name) with
      | some value => !value.isNull
      | none => false
  | _ => false

/-- The value of an expression on a document. -/
def evaluate (document : Term) (known : Substitution) : Expression Term → Evaluated
  | .row => .ok document
  | .const value => .ok value
  | .field node base name =>
    match Entries.find? known node with
    | some value => .ok value
    | none =>
      match base.evaluate document known with
      | .ok container => readField node name container
      | .error fault => .error (blameField node fault)
  | .operation op left right =>
    match op with
    | .and => do
      let l ← left.evaluate document known
      if l.truthy then right.evaluate document known else return l
    | .or => do
      let l ← left.evaluate document known
      if l.truthy then return l else right.evaluate document known
    | op => do
      let l ← left.evaluate document known
      let r ← right.evaluate document known
      applyOperator op left.fieldNode? right.fieldNode? l r
  | .not inner => do
    let value ← inner.evaluate document known
    return .bool !value.truthy
  | .default inner fallback =>
    recover (fun more => inner.evaluate document more) (fallback.evaluate document known)
      (inner.fieldNodes.length + 1) known
  | .hasFields base names => do
    let container ← base.evaluate document known
    return .bool (hasAll names container)
  | .branch condition value otherwise => do
    let c ← condition.evaluate document known
    if c.truthy then value.evaluate document known else otherwise.evaluate document known

/-- The value of an expression on a document, without any substitution. -/
def value (e : Expression Term) (document : Term) : Evaluated := e.evaluate document []

end Expression

end Folio
