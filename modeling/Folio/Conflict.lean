import Folio.Failure
/-!
# Conflicts

What an insert does where its key is taken. The built-in policies refuse, replace or merge; a
custom one asks a function, whose answer is a document with the same key, or a mark that keeps
the stored document or refuses the insert. A caller may also hand in a policy of a class of his
own, which derives from none of the others and decides on taken keys. Nothing stands between its
decisions and the request: what it raises or refuses with keeps its kind, and the document that it
commits is taken as it is. It is handed the documents themselves and leaves them as they are. Where
the key is free, every policy commits the document as it came.
-/

namespace Folio

/-- What decides on an occupied key. -/
inductive ConflictPolicy where
  | builtin (policy : BuiltinPolicy)
  | custom (function : FunctionRef)
  /-- A policy of the caller's own class. -/
  | own (policy : FunctionRef)
  deriving DecidableEq

/-- The decision on one insert. -/
inductive Resolution where
  | commit (value : Term)
  | reject (cause : Failure)
  /-- The stored document stays as it is. -/
  | keep

namespace BuiltinPolicy

/-- The policy that an option names. -/
def ofName? : String → Option BuiltinPolicy
  | "error" => some .error
  | "replace" => some .replace
  | "update" => some .update
  | _ => none

end BuiltinPolicy

namespace ConflictPolicy

/-- The name of a policy. -/
def name : ConflictPolicy → String
  | .builtin policy => policy.name
  | .custom _ => "custom"
  | .own _ => "custom"

/-- The name of a policy's type. -/
def typeName : ConflictPolicy → String
  | .builtin policy => policy.typeName
  | .custom _ => "CustomConflict"
  | .own p => p.name

/-- The readable form of a policy. -/
def render : ConflictPolicy → String
  | .builtin policy => policy.typeName ++ "()"
  | .custom f => "CustomConflict(" ++ quoted f.name ++ ")"
  | .own p => p.name ++ "()"

/-- The policy that an option asks for: a policy, the name of one, or a function. -/
def ofOption (option : Term) : Except RequestFault ConflictPolicy :=
  match option with
  | .policy p _ => .ok (.builtin p)
  | .resolver f _ => .ok (.custom f)
  | .ownPolicy p _ => .ok (.own p)
  | .scalar (.text name) =>
    match BuiltinPolicy.ofName? name with
    | some p => .ok (.builtin p)
    | none => .error (.conflictName name)
  | option =>
    match option.callable? with
    | some f => .ok (.custom f)
    | none => .error (.conflict option)

/-- The decision of a custom policy from its function's answer. A failure of a document that the
function raised is the reason for the refusal, any other failure becomes one. -/
def ofAnswer (field : String) (key : Term) : Except Failure Term → Resolution
  | .error cause =>
    .reject (if cause.kind.isDocumentWrite then cause else .conflictFailed key cause)
  | .ok (.mark .keepOld) => .keep
  | .ok (.mark .reject) => .reject (.conflictRefused key)
  | .ok answer =>
    match answer.validateDocument "conflict resolution result" with
    | .error fault => .reject (.conflictInvalid fault)
    | .ok document =>
      let after := (document.fieldOrNull field).toTerm
      if after.same key then .commit document.toTerm
      else .reject (.keyChanged field key after)

/-- The decision of a policy of the caller's own. What it raised and what it refused with are raised
alike, whatever their kind; the mark keeps the stored document, and a document is committed. Such a
policy checks by itself that it commits a document, and raises what the check finds. -/
def ofOwnAnswer : Except Failure Term → Resolution
  | .error cause => .reject cause
  | .ok (.mark .keepOld) => .keep
  | .ok answer =>
    match answer.validateDocument "conflict resolution result" with
    | .error fault => .reject (.malformed fault)
    | .ok document => .commit document.toTerm

end ConflictPolicy

end Folio
