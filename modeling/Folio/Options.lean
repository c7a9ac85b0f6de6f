import Folio.Conflict
/-!
# Options

The options of a request: what to do about an occupied key, how durable a write has to be, and
which changes the report shows. They are checked when they are built, durability first.
-/

namespace Folio

/-- How durable a committed write has to be. -/
inductive Durability where
  | hard
  | soft
  deriving DecidableEq

/-- Which outcomes a report shows as changes. -/
inductive ChangeDetail where
  /-- The report has no changes at all. -/
  | hidden
  /-- Documents that were inserted, replaced or deleted. -/
  | written
  /-- Every document of the request. -/
  | always
  deriving DecidableEq

/-- The options of a request. -/
structure Options where
  conflict : ConflictPolicy
  durability : Durability
  returnChanges : Term

namespace Durability

/-- The name of a durability. -/
def name : Durability → String
  | .hard => "hard"
  | .soft => "soft"

/-- The durability that an option names. -/
def ofOption (option : Term) : Except RequestFault Durability :=
  match option with
  | .scalar (.text "hard") => .ok .hard
  | .scalar (.text "soft") => .ok .soft
  | option => .error (.durability option)

end Durability

namespace ChangeDetail

/-- The detail that an option asks for: only the boolean false hides changes. -/
def ofOption : Term → ChangeDetail
  | .scalar (.bool false) => .hidden
  | .scalar (.text "always") => .always
  | _ => .written

/-- Whether an option is one of false, true and always. Numbers are compared loosely with the
booleans, and then integers are refused. -/
def accepts : Term → Bool
  | .scalar (.bool _) => true
  | .scalar (.number (.int _)) => false
  | option => [Term.bool false, Term.bool true, Term.text "always"].any option.equal

end ChangeDetail

namespace Options

/-- Builds options from their terms. -/
def ofTerms (conflict durability returnChanges : Term) : Except RequestFault Options := do
  let durability ← Durability.ofOption durability
  if !ChangeDetail.accepts returnChanges then throw (.returnChanges returnChanges)
  let conflict ← ConflictPolicy.ofOption conflict
  return { conflict, durability, returnChanges }

/-- The options of a request that gives none. -/
def standard : Options := ⟨.builtin .error, .hard, .bool false⟩

/-- The detail of the report's changes. -/
def detail (options : Options) : ChangeDetail := .ofOption options.returnChanges

/-- Whether the report has changes. -/
def wantsChanges (options : Options) : Bool := options.detail != .hidden

end Options

end Folio
