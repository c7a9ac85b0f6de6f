import Folio.Entries
import Folio.Expression.Basic
import Folio.Scalar
/-!
# Terms

A term is anything that a caller may hand in: document values, the marks and wrappers that a
patch understands, expressions, functions, selectors, and values that no document can hold. What
is acceptable where is decided by the operations; the type only tells the cases apart.
-/

namespace Folio

/-- The marks with a meaning of their own. -/
inductive Mark where
  /-- In a patch: delete the field. -/
  | remove
  /-- From a conflict function: keep the stored document. -/
  | keepOld
  /-- From a conflict function: refuse the insert. -/
  | reject
  /-- From a hook: veto the write. -/
  | abort
  deriving DecidableEq

/-- A function of the caller, known by a handle. -/
structure FunctionRef where
  handle : Nat
  name : String
  deriving DecidableEq

/-- The conflict policies that need no function. -/
inductive BuiltinPolicy where
  | error
  | replace
  | update
  deriving DecidableEq

/-- A number of a type that no document can hold, such as a decimal, a fraction or a complex number.
Its types are those whose numbers equal what is at the same place. Left out are numbers without a
place, types of numbers that stand for an integer wherever one is asked for, and what becomes of a
decimal that is compared by order with what is not a number. -/
structure ForeignNumber where
  /-- The name of the type, as messages give it. -/
  typeName : String
  /-- The name of the type, as messages about operands give it. -/
  operandName : String
  /-- The readable form. -/
  text : String
  /-- The place on the number line, in the terms of `Number.place`. -/
  place : Int × Rat
  /-- How far from the number line the number lies; nothing for a type with an order, whose numbers
  lie on it. -/
  imaginary? : Option (Int × Rat)
  deriving DecidableEq

/-- The kinds of values that no document can hold. Bytes, sets and dates come with their readable
form. -/
inductive ForeignKind where
  | object | type
  | bytes (text : String)
  | set (text : String)
  | date (text : String)
  | number (n : ForeignNumber)
  /-- A copy of a mark, which means nothing. -/
  | lookalike (m : Mark)
  deriving DecidableEq

/-- A value that no document can hold; `identity` tells objects apart. Of bytes and dates it is the
place in the order of their type, of sets one number for each set of elements. Of different sets
none contains another, and classes with an equality of their own are left out. -/
structure Foreign where
  kind : ForeignKind
  identity : Nat
  deriving DecidableEq

/-- What a request targets, over keys and predicates of type `κ`. -/
inductive Selector (κ : Type) where
  /-- The whole table, and the only target of an insert. -/
  | table (name : String)
  | get (table : String) (key : κ)
  | getAll (table : String) (keys : List κ)
  | filter (table : String) (predicate : κ)
  deriving DecidableEq

/-- What a request does, over payloads and patches of type `κ`. -/
inductive Mutation (κ : Type) where
  | insert (payload : κ)
  | update (patch : κ)
  | delete
  deriving DecidableEq

/-- Anything that a caller may hand in. -/
inductive Term where
  | scalar (s : Scalar)
  | list (items : List Term)
  | tuple (items : List Term)
  | mapping (entries : List (Term × Term))
  | mark (m : Mark)
  /-- Wraps a value that replaces a field as it is. -/
  | literal (value : Term)
  | expression (node : Nat) (e : Expression Term)
  /-- Named fields that count as a mapping where a document is inserted; `identity` tells the
  types of records apart. -/
  | record (fields : List (String × Term)) (identity : Nat)
  | function (f : FunctionRef)
  | policy (p : BuiltinPolicy) (identity : Nat)
  /-- A conflict policy around a function. -/
  | resolver (f : FunctionRef) (identity : Nat)
  /-- A conflict policy of a class of the caller's own, named for the class; its decisions are the
  answers of a function. -/
  | ownPolicy (f : FunctionRef) (identity : Nat)
  | selector (s : Selector Term)
  | mutation (m : Mutation Term)
  | foreign (f : Foreign)

instance : Inhabited Term := ⟨.scalar .null⟩

namespace Selector

variable {κ : Type}

/-- The table of a selector. -/
def tableName : Selector κ → String
  | .table name => name
  | .get name _ => name
  | .getAll name _ => name
  | .filter name _ => name

/-- The name of a selector's type, as messages give it. -/
def typeName : Selector κ → String
  | .table _ => "Table"
  | .get .. => "Get"
  | .getAll .. => "GetAll"
  | .filter .. => "Filter"

end Selector

namespace Mutation

variable {κ : Type}

/-- The name of a mutation's type, as messages give it. -/
def typeName : Mutation κ → String
  | .insert _ => "Insert"
  | .update _ => "Update"
  | .delete => "Delete"

/-- The name of the operation, as metrics give it. -/
def operation : Mutation κ → String
  | .insert _ => "insert"
  | .update _ => "update"
  | .delete => "delete"

end Mutation

namespace Mark

/-- The name of a mark's type, as messages give it. -/
def typeName : Mark → String
  | .remove => "_Remove"
  | .keepOld => "_Signal"
  | .reject => "_Signal"
  | .abort => "_Abort"

/-- The readable form of a mark. -/
def render : Mark → String
  | .remove => "REMOVE"
  | .keepOld => "KEEP_OLD"
  | .reject => "REJECT"
  | .abort => "ABORT"

end Mark

namespace BuiltinPolicy

/-- The name by which an option asks for the policy. -/
def name : BuiltinPolicy → String
  | .error => "error"
  | .replace => "replace"
  | .update => "update"

/-- The name of the policy's type, as messages give it. -/
def typeName : BuiltinPolicy → String
  | .error => "ErrorOnConflict"
  | .replace => "ReplaceOnConflict"
  | .update => "UpdateOnConflict"

end BuiltinPolicy

namespace ForeignKind

/-- The name of a foreign value's type, as messages give it. -/
def typeName : ForeignKind → String
  | .object => "object"
  | .type => "type"
  | .bytes _ => "bytes"
  | .set _ => "set"
  | .date _ => "date"
  | .number n => n.typeName
  | .lookalike m => m.typeName

/-- The name of a foreign value's type, as messages about operands give it. -/
def operandName : ForeignKind → String
  | .date _ => "datetime.date"
  | .number n => n.operandName
  | kind => kind.typeName

/-- Whether a foreign value is equal only to itself. -/
def hasIdentity : ForeignKind → Bool
  | .object => true
  | .lookalike _ => true
  | _ => false

/-- The readable form of a foreign value. -/
def render : ForeignKind → String
  | .bytes text => text
  | .set text => text
  | .date text => text
  | .number n => n.text
  | .lookalike m => m.render
  | kind => "<" ++ kind.typeName ++ ">"

end ForeignKind

namespace Term

/-- The absent value. -/
def null : Term := .scalar .null

/-- A boolean. -/
def bool (b : Bool) : Term := .scalar (.bool b)

/-- An integer. -/
def int (i : Int) : Term := .scalar (.number (.int i))

/-- A text. -/
def text (s : String) : Term := .scalar (.text s)

/-- Whether a term is null. -/
def isNull : Term → Bool
  | .scalar .null => true
  | _ => false

/-- Only null and false are not accepted as true. -/
def truthy : Term → Bool
  | .scalar s => s.truthy
  | _ => true

/-- The name of a term's type, as messages give it. -/
def typeName : Term → String
  | .scalar s => s.typeName
  | .list _ => "list"
  | .tuple _ => "tuple"
  | .mapping _ => "dict"
  | .mark m => m.typeName
  | .literal _ => "Literal"
  | .expression _ e => e.typeName
  | .record .. => "Rec"
  | .function _ => "function"
  | .policy p _ => p.typeName
  | .resolver .. => "CustomConflict"
  | .ownPolicy f _ => f.name
  | .selector s => s.typeName
  | .mutation m => m.typeName
  | .foreign f => f.kind.typeName

/-- The name of a term's type, as messages about operands give it. -/
def operandName : Term → String
  | .foreign f => f.kind.operandName
  | t => t.typeName

/-- Wraps a value so that it replaces a field as it is; the removal mark stays itself. -/
def ofLiteral : Term → Term
  | .mark .remove => .mark .remove
  | value => .literal value

/-- The function that a term can be called as. -/
def callable? : Term → Option FunctionRef
  | .function f => some f
  | .foreign ⟨.type, identity⟩ => some ⟨identity, "type"⟩
  | _ => none

/-- The number that a term is; a boolean is none. -/
def number? : Term → Option Number
  | .scalar (.number n) => some n
  | _ => none

/-- The expression that a term stands for as an operand: itself, or a constant. -/
def toExpression : Term → Expression Term
  | .expression _ e => e
  | value => .const value

end Term

end Folio
