import Folio.Options
/-!
# Reports

Each target of a request ends in one outcome, and the outcomes, in the order of the targets, are
folded into a report: how many documents met which end, the keys that were generated, the first
failure and, where asked for, the changes. Keys and documents are only passed on, so their types
are parameters. A report is handed out as named parts, of which changes and the first failure are
left out where there are none.
-/

namespace Folio

/-- How one target of a request ended. -/
inductive OutcomeKind where
  | inserted
  | replaced
  | unchanged
  | skipped
  | deleted
  | error
  deriving DecidableEq

/-- The outcome of one target: its place in the request, its key, the document before and after,
and the message where it failed. -/
structure Outcome (κ δ : Type) where
  index : Nat
  kind : OutcomeKind
  key : κ
  before : Option δ
  after : Option δ
  generated : Bool
  error : Option String

/-- A document before and after, with the message where the write failed. -/
structure Change (δ : Type) where
  before : Option δ
  after : Option δ
  error : Option String

/-- The report on one request. -/
structure Report (κ δ : Type) where
  inserted : Nat
  replaced : Nat
  unchanged : Nat
  skipped : Nat
  deleted : Nat
  errors : Nat
  generatedKeys : List κ
  /-- Present where changes were asked for. -/
  changes : Option (List (Change δ))
  /-- Present where at least one document failed. -/
  firstError : Option String

namespace OutcomeKind

/-- The name of an outcome. -/
def name : OutcomeKind → String
  | .inserted => "inserted"
  | .replaced => "replaced"
  | .unchanged => "unchanged"
  | .skipped => "skipped"
  | .deleted => "deleted"
  | .error => "error"

/-- Every outcome. -/
def all : List OutcomeKind := [.inserted, .replaced, .unchanged, .skipped, .deleted, .error]

/-- Whether the outcome changed what the table holds. -/
def isWrite : OutcomeKind → Bool
  | .inserted => true
  | .replaced => true
  | .deleted => true
  | _ => false

end OutcomeKind

namespace Outcome

variable {κ δ : Type}

/-- The message of a failed target. -/
def errorText (o : Outcome κ δ) : String := o.error.getD "None"

/-- The change that a report shows for an outcome. What was not written shows the same document
on both sides. -/
def change? (detail : ChangeDetail) (o : Outcome κ δ) : Option (Change δ) :=
  match detail with
  | .hidden => none
  | .written => if o.kind.isWrite then some ⟨o.before, o.after, none⟩ else none
  | .always =>
    if o.kind.isWrite then some ⟨o.before, o.after, none⟩
    else some ⟨o.before, o.before, if o.kind = .error then some o.errorText else none⟩

end Outcome

namespace Change

variable {δ : Type}

/-- A change as a mapping; the message stands only where the write failed. -/
def toTerm (document : δ → Term) (c : Change δ) : Term :=
  .mapping <|
    [(.text "old_val", c.before.elim .null document),
      (.text "new_val", c.after.elim .null document)] ++
        (c.error.map fun message => (.text "error", .text message)).toList

end Change

namespace Report

variable {κ δ : Type}

/-- The report on no target. -/
def empty (detail : ChangeDetail) : Report κ δ where
  inserted := 0
  replaced := 0
  unchanged := 0
  skipped := 0
  deleted := 0
  errors := 0
  generatedKeys := []
  changes := if detail = .hidden then none else some []
  firstError := none

/-- Counts an outcome. -/
def count (r : Report κ δ) (o : Outcome κ δ) : Report κ δ :=
  match o.kind with
  | .inserted => { r with inserted := r.inserted + 1 }
  | .replaced => { r with replaced := r.replaced + 1 }
  | .unchanged => { r with unchanged := r.unchanged + 1 }
  | .skipped => { r with skipped := r.skipped + 1 }
  | .deleted => { r with deleted := r.deleted + 1 }
  | .error =>
    { r with errors := r.errors + 1, firstError := r.firstError.or (some o.errorText) }

/-- Adds an outcome to a report. -/
def add (detail : ChangeDetail) (r : Report κ δ) (o : Outcome κ δ) : Report κ δ :=
  let counted := r.count o
  { counted with
    generatedKeys :=
      if o.kind = .inserted && o.generated then r.generatedKeys ++ [o.key] else r.generatedKeys
    changes := r.changes.map fun changes => changes ++ (o.change? detail).toList }

/-- The report on the outcomes of a request. -/
def ofOutcomes (detail : ChangeDetail) (outcomes : List (Outcome κ δ)) : Report κ δ :=
  outcomes.foldl (add detail) (empty detail)

/-- The number of targets. -/
def total (r : Report κ δ) : Nat :=
  r.inserted + r.replaced + r.unchanged + r.skipped + r.deleted + r.errors

/-- The counters by their names. -/
def counters (r : Report κ δ) : Entries String Nat :=
  [("inserted", r.inserted), ("replaced", r.replaced), ("unchanged", r.unchanged),
    ("skipped", r.skipped), ("deleted", r.deleted), ("errors", r.errors)]

/-- A report as named parts: the counters, the generated keys, the changes where they were asked
for, and the first failure where a document failed. -/
def toEntries (key : κ → Term) (document : δ → Term) (r : Report κ δ) : Entries String Term :=
  r.counters.map (fun (name, count) => (name, .int count)) ++
    [("generated_keys", .list (r.generatedKeys.map key))] ++
    (r.changes.map fun changes => ("changes", .list (changes.map (Change.toTerm document)))).toList ++
    if 0 < r.errors then [("first_error", r.firstError.elim .null .text)] else []

end Report

end Folio
