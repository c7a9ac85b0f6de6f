import Folio.Failure
/-!
# Scripts

A small language for the functions that a caller hands in: hooks and conflict functions of a key
and two documents, patch functions and predicates of one document. A script may change the
mappings it was given, but these are its own copies. A mapping that was given is held by its name,
so a change shows wherever the script has put it.
-/

namespace Folio

/-- The body of a function. -/
inductive Script where
  | argument (name : String)
  | constant (value : Term)
  /-- A copy of a mapping with a key set. -/
  | set (target : Script) (key : Term) (value : Script)
  /-- A copy of a mapping without a key. -/
  | without (target : Script) (key : Term)
  | lookup (target : Script) (key : Term)
  | lookupOr (target : Script) (key : Term) (fallback : Script)
  | add (left right : Script)
  | same (left right : Script)
  | isNull (value : Script)
  /-- The first branch if the condition is exactly true. -/
  | choose (condition value otherwise : Script)
  | raise (kind : ErrorKind) (message : String)
  /-- Sets a key of an argument, and goes on. -/
  | assign (name : String) (key : Term) (value result : Script)
  /-- Empties an argument, and goes on. -/
  | clear (name : String) (result : Script)
  /-- The value of an expression on a document. -/
  | evaluate (e : Expression Term) (document : Script)

/-- A value of a running script. -/
inductive Held where
  | value (t : Term)
  /-- The argument of this name, as it is when it is looked at. -/
  | argument (name : String)
  | mapping (entries : List (Term × Held))

namespace Held

mutual

/-- The term that is held, with the arguments inside it given by a function. -/
def toTerm (argument : String → Term) : Held → Term
  | .value t => t
  | .argument name => argument name
  | .mapping entries => .mapping (entriesToTerms argument entries)

/-- The entries that are held. -/
def entriesToTerms (argument : String → Term) : List (Term × Held) → List (Term × Term)
  | [] => []
  | (key, held) :: rest => (key, held.toTerm argument) :: entriesToTerms argument rest

end

end Held

namespace Script

/-- The arguments of a running script by name. -/
abbrev Environment := Entries String Held

/-- An argument. Mappings are held by their entries, so that they can be changed. -/
def given : Term → Held
  | .mapping entries => .mapping (entries.map fun entry => (entry.1, .value entry.2))
  | t => .value t

/-- The names of the arguments by their number. -/
def environment : List Term → Environment
  | [document] => [("doc", given document)]
  | arguments => ["key", "old", "new"].zip (arguments.map given)

/-- The term that an argument is. Arguments may hold each other, though not themselves, so their
number bounds the depth. -/
def settleArgument (arguments : Environment) : Nat → String → Term
  | 0, _ => .null
  | depth + 1, name =>
    match Entries.find? arguments name with
    | some held => held.toTerm (settleArgument arguments depth)
    | none => .null

/-- The term that is held at this moment. -/
def settle (arguments : Environment) (held : Held) : Term :=
  held.toTerm (settleArgument arguments arguments.length)

/-- The entries of a mapping. -/
def mapping (arguments : Environment) : Held → Except Failure (List (Term × Held))
  | .mapping entries => .ok entries
  | .value (.mapping entries) => .ok (entries.map fun entry => (entry.1, .value entry.2))
  | .argument name =>
    match Entries.find? arguments name with
    | some (.mapping entries) => .ok entries
    | _ => .error (.raised .type "not a mapping")
  | _ => .error (.raised .type "not a mapping")

/-- The sum of two integers. -/
def addInts : Held → Held → Except Failure Held
  | .value (.scalar (.number (.int i))), .value (.scalar (.number (.int j))) =>
    .ok (.value (.int (i + j)))
  | _, _ => .error (.raised .type "not integers")

/-- The value of an argument. -/
def argumentOf (arguments : Environment) (name : String) : Except Failure Held :=
  match Entries.find? arguments name with
  | some (.mapping _) => .ok (.argument name)
  | some held => .ok held
  | none => .error (.missingKey (.text name))

/-- Whether a value is null. -/
def isNullValue : Held → Bool
  | .value t => t.isNull
  | _ => false

/-- Whether a value is the boolean true. -/
def isTrue : Held → Bool
  | .value (.scalar (.bool true)) => true
  | _ => false

/-- The value of a script, with the arguments as it leaves them. -/
def run (arguments : Environment) : Script → Except Failure (Held × Environment)
  | .argument name => do return (← argumentOf arguments name, arguments)
  | .constant value => .ok (.value value, arguments)
  | .set target key value => do
    let (found, arguments) ← target.run arguments
    let entries ← mapping arguments found
    let (value, arguments) ← value.run arguments
    return (.mapping (Entries.put entries key value), arguments)
  | .without target key => do
    let (found, arguments) ← target.run arguments
    let entries ← mapping arguments found
    return (.mapping (Entries.erase entries key), arguments)
  | .lookup target key => do
    let (found, arguments) ← target.run arguments
    let entries ← mapping arguments found
    match Entries.find? entries key with
    | some value => return (value, arguments)
    | none => throw (.missingKey key)
  | .lookupOr target key fallback => do
    let (found, arguments) ← target.run arguments
    let entries ← mapping arguments found
    match Entries.find? entries key with
    | some value => return (value, arguments)
    | none => fallback.run arguments
  | .add left right => do
    let (l, arguments) ← left.run arguments
    let (r, arguments) ← right.run arguments
    return (← addInts l r, arguments)
  | .same left right => do
    let (l, arguments) ← left.run arguments
    let (r, arguments) ← right.run arguments
    return (.value (.bool ((settle arguments l).same (settle arguments r))), arguments)
  | .isNull value => do
    let (value, arguments) ← value.run arguments
    return (.value (.bool (isNullValue value)), arguments)
  | .choose condition value otherwise => do
    let (c, arguments) ← condition.run arguments
    if isTrue c then value.run arguments else otherwise.run arguments
  | .raise kind message => .error (.raised kind message)
  | .assign name key value result => do
    let target ← argumentOf arguments name
    let _ ← mapping arguments target
    let (value, arguments) ← value.run arguments
    let entries ← mapping arguments target
    result.run (Entries.put arguments name (.mapping (Entries.put entries key value)))
  | .clear name result => do
    let _ ← mapping arguments (← argumentOf arguments name)
    result.run (Entries.put arguments name (.mapping []))
  | .evaluate e document => do
    let (document, arguments) ← document.run arguments
    match e.value (settle arguments document) with
    | .ok value => return (.value value, arguments)
    | .error fault => throw (.evaluation fault)

/-- The answer of a script to its arguments. -/
def answer (body : Script) (arguments : List Term) : Except Failure Term :=
  (body.run (environment arguments)).map fun (held, arguments) => settle arguments held

end Script

end Folio
