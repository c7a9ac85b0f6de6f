import Folio.Patch.Evaluation
import Folio.Patch.Merge
import Folio.Writer.Target
/-!
# Committing one document

Every target is read, decided, shown to the hook and written while its key is locked, in one
transaction, and ends in one outcome. A failure of the document rolls the transaction back and
becomes the outcome; any other failure ends the request.
-/

namespace Folio

/-- The outcome of a target of a table. -/
abbrev DocumentOutcome := Outcome Value Document

/-- What became of a target under its lock: an outcome to be committed, or a failure after the
document was read. -/
inductive Attempted where
  | done (outcome : DocumentOutcome)
  | failed (existing : Option Document) (cause : Failure)

namespace Attempted

/-- Whether what was written is to stay. -/
def commits : Attempted → Bool
  | .done _ => true
  | .failed .. => false

end Attempted

namespace Term

/-- The entries of a mapping; anything else has none. -/
def entries : Term → List (Term × Term)
  | .mapping entries => entries
  | _ => []

end Term

namespace Task

/-- An outcome of the task that generated no key. -/
def outcome (task : Task) (kind : OutcomeKind) (before after : Option Document) :
    DocumentOutcome :=
  ⟨task.index, kind, task.key, before, after, false, none⟩

/-- The outcome of the task after a failure. -/
def failure (task : Task) (existing : Option Document) (cause : Failure) : DocumentOutcome :=
  ⟨task.index, .error, task.key, existing, none, false, some cause.message⟩

/-- Whether the task's key was generated. -/
def isGenerated (task : Task) : Bool :=
  match task.work with
  | .insert _ generated => generated
  | _ => false

/-- Whether the task inserts. -/
def isInsert (task : Task) : Bool :=
  match task.work with
  | .insert .. => true
  | _ => false

end Task

namespace Commit

/-- The entries to merge into an existing document. A patch that is a function is called with
a copy of the document. -/
def evaluatePatch (existing patch : Term) : Run (List (Term × Term)) := do
  match patch.callable? with
  | some f =>
    let answer ← Run.call f [existing.copy]
    let patch ← Run.ofExcept (Patch.ofAnswer answer)
    Run.ofExcept (Patch.evaluate existing patch)
  | none => Run.ofExcept (Patch.evaluate existing patch)

/-- The existing document with a patch merged into it. -/
def applyPatch (existing patch : Term) : Run Term := do
  let entries ← evaluatePatch existing patch
  return .mapping (Patch.merge existing.entries entries)

/-- The decision on an insert. Where no document exists it is committed without asking; merging
can fail, as a patch can. -/
def resolve (policy : ConflictPolicy) (field : String) (key : Term)
    (existing : Option (List (Term × Term))) (incoming : Term) : Run Resolution :=
  match existing with
  | none => return .commit incoming
  | some old =>
    match policy with
    | .builtin .error => return .reject (.duplicateKey field key)
    | .builtin .replace => return .commit incoming
    | .builtin .update => return .commit (← applyPatch (.mapping old) incoming)
    | .custom f => do
      let answer ← Run.call f [key, .mapping old, incoming]
      return ConflictPolicy.ofAnswer field key answer
    | .own p => do
      let answer ← Run.call p [.text field, key, .mapping old, incoming]
      return ConflictPolicy.ofOwnAnswer answer

/-- The document to be written after the hook has seen it. -/
def intercept (hook : Option FunctionRef) (table field : String) (key : Term)
    (old new : Option Document) : Run (Option Document) :=
  match hook with
  | none => return new
  | some f => do
    let answer ← Run.call f [key, optionalDocument old, optionalDocument new]
    Run.ofExcept (Hook.decide table field key new.isNone answer)

/-- A candidate has to keep the key. -/
def checkKey (field : String) (key : Term) : Option Document → Except Failure Unit
  | none => .ok ()
  | some candidate =>
    let after := (candidate.fieldOrNull field).toTerm
    if after.same key then .ok () else .error (.keyChanged field key after)

/-- Whether a document is the one that exists already. -/
def isUnchanged (final : Document) : Option Document → Bool
  | some existing => final.same existing
  | none => false

/-- Brings a candidate, or its absence, past the hook and into the slot. What is reported is what
the slot will be read to hold. -/
def commit (request : Request) (slot : Slot) (task : Task) (existing candidate : Option Document) :
    Run DocumentOutcome := do
  let key := task.key.toTerm
  Run.ofExcept (checkKey request.keyField key candidate)
  match ← intercept request.hook request.table request.keyField key existing candidate with
  | none =>
    if existing.isNone then return task.outcome .skipped none none
    slot.write none
    return task.outcome .deleted existing none
  | some final =>
    if isUnchanged final existing then return task.outcome .unchanged existing existing
    let kept := final.reread
    slot.write (some kept)
    let kind := if existing.isNone then OutcomeKind.inserted else .replaced
    return { task.outcome kind existing (some kept) with generated := task.isGenerated }

/-- The document that a term stands for, with a failure of its own if it stands for none. -/
def documentOf (failure : Malformed → Failure) (t : Term) : Except Failure Document :=
  match t.validateDocument "document" with
  | .ok d => .ok d
  | .error fault => .error (failure fault)

/-- Decides on a target whose document was read, and commits the decision. -/
def decide (request : Request) (slot : Slot) (task : Task) (existing : Option Document) :
    Run DocumentOutcome :=
  match task.work, existing with
  | .insert document _, existing => do
    let policy := request.options.conflict
    let resolution ← resolve policy request.keyField task.key.toTerm
      (existing.map Document.toEntries) document.toTerm
    match resolution with
    | .reject cause => throw cause
    | .keep => return task.outcome .unchanged existing existing
    | .commit value => do
      let candidate ← Run.ofExcept (documentOf .malformed value)
      commit request slot task existing (some candidate)
  | .update patch, some old => do
    let patched ← applyPatch old.toTerm patch
    let candidate ← Run.ofExcept (documentOf .patchedInvalid patched)
    commit request slot task existing (some candidate)
  | .delete, some _ => commit request slot task existing none
  | _, none => return task.outcome .skipped none none

/-- Decides on a target under its lock; a failure is kept with the document that was read. -/
def attempt (request : Request) (task : Task) : Run Attempted :=
  Store.lockedWhen Attempted.commits request.table task.key.toTerm fun slot => do
    let existing ← slot.read
    match ← Run.attempt (decide request slot task existing) with
    | .ok outcome => return .done outcome
    | .error cause => return .failed existing cause.reported

/-- The outcome after a failure. A target that turned out not to exist is skipped, unless it is
an insert; what is no failure of one document ends the request. -/
def settle (task : Task) (existing : Option Document) (cause : Failure) : Run DocumentOutcome :=
  if cause.kind = .targetNotFound && !task.isInsert then
    return task.outcome .skipped none none
  else if cause.kind.isDocumentWrite then return task.failure existing cause
  else throw cause

/-- Processes one target. -/
def process (request : Request) (task : Task) : Run DocumentOutcome := do
  match ← Run.attempt (attempt request task) with
  | .ok (.done outcome) => return outcome
  | .ok (.failed existing cause) => settle task existing cause
  | .error cause => settle task none cause

end Commit

end Folio
