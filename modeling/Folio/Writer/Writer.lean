import Folio.Writer.Commit
/-!
# The writer

Inserts, updates and deletions of batches of documents. Targets with the same key form a group
and are processed in order; groups follow each other, or are left to several workers. However
they were processed, the report lists the targets in the order of the request.
-/

namespace Folio

/-- The report on a request. -/
abbrev WriteReport := Report Value Document

namespace Writer

/-- The tasks by the codes of their keys, in the order in which the keys first come. -/
def groups (tasks : List Task) : Entries String (List Task) :=
  tasks.foldl (fun found task =>
    let code := task.key.code
    Entries.put found code ((Entries.find? found code).getD [] ++ [task])) []

/-- Processes tasks one after the other. -/
def processAll (request : Request) : List Task → Run (List DocumentOutcome)
  | [] => return []
  | task :: rest => do
    let outcome ← Commit.process request task
    let outcomes ← processAll request rest
    return outcome :: outcomes

/-- Processes every group to its end, even if another one fails. A pool of workers leaves out the
groups that it has not started by then. No result depends on that: the request fails as the first of
its groups that failed, before which all were started, and nothing is said about which documents a
failed request has written. -/
def processGroups (request : Request) :
    List (List Task) → Run (List (Except Failure (List DocumentOutcome)))
  | [] => return []
  | group :: rest => do
    let result ← Run.attempt (processAll request group)
    let results ← processGroups request rest
    return result :: results

/-- Processes the tasks of a request. With several workers every group is run, and the first
failure among them is the request's; a single worker stops at it. -/
def processTasks (request : Request) (tasks : List Task) : Run (List DocumentOutcome) := do
  let grouped := (groups tasks).map Prod.snd
  if (← read).config.isParallel && decide (1 < grouped.length) then
    let results ← processGroups request grouped
    let outcomes ← Run.ofExcept (results.mapM id)
    return outcomes.flatten
  else processAll request grouped.flatten

/-- Outcomes in the order of the targets. -/
def inOrder (outcomes : List DocumentOutcome) : List DocumentOutcome :=
  outcomes.mergeSort fun a b => decide (a.index ≤ b.index)

/-- Counts the outcomes of documents. -/
def observeOutcomes (table operation : String) : List DocumentOutcome → Run Unit
  | [] => return ()
  | outcome :: rest => do
    Run.observe (.document table operation outcome.kind.name)
    observeOutcomes table operation rest

/-- Counts a request by its status. A failure to do so changes nothing. -/
def observeMutation (table operation status : String) : Run Unit := do
  let _ ← Run.attempt <| Run.faulty .metrics none do
    Run.observe (.mutation table operation status)
    Run.observe (.mutationLatency table operation)

/-- The status of a request that came to a report. -/
def status (report : WriteReport) : String := if report.errors = 0 then "success" else "partial"

/-- Plans and processes a request. -/
def perform (selector : Selector Term) (mutation : Mutation Term) (options : Options) :
    Run WriteReport := do
  let table := selector.tableName
  let keyField ← Store.keyField table
  let request : Request := ⟨table, keyField, options, Entries.find? (← get).hooks table⟩
  let tasks ← Target.tasks request selector mutation
  let outcomes ← processTasks request tasks
  let ordered := inOrder outcomes
  observeOutcomes table mutation.operation ordered
  return Report.ofOutcomes options.detail ordered

/-- Performs a request and counts it by its status. -/
def execute (selector : Selector Term) (mutation : Mutation Term) (options : Options) :
    Run WriteReport := do
  let table := selector.tableName
  match ← Run.attempt (perform selector mutation options) with
  | .ok report =>
    observeMutation table mutation.operation (status report)
    return report
  | .error cause =>
    observeMutation table mutation.operation "error"
    throw cause

/-! ## Requests from terms -/

/-- The selector that a term is. -/
def selectorOf : Term → Except Failure (Selector Term)
  | .selector s => .ok s
  | t => .error (.request (.selector t))

/-- The mutation that a term is. -/
def mutationOf : Term → Except Failure (Mutation Term)
  | .mutation m => .ok m
  | t => .error (.request (.mutation t))

/-- Options from their terms, as part of a request. -/
def optionsOf (conflict durability returnChanges : Term) : Except Failure Options :=
  match Options.ofTerms conflict durability returnChanges with
  | .ok options => .ok options
  | .error fault => .error (.request fault)

/-- A text stands for the table of that name. -/
def target : Term → Term
  | .scalar (.text table) => .selector (.table table)
  | t => t

/-- Applies a mutation to what a selector selects. -/
def mutate (selector mutation : Term) (options : Options) : Run WriteReport := do
  let mutation ← Run.ofExcept (mutationOf mutation)
  let selector ← Run.ofExcept (selectorOf selector)
  execute selector mutation options

/-- Inserts one document or a sequence of them. -/
def insert (table payload conflict durability returnChanges : Term) : Run WriteReport := do
  let options ← Run.ofExcept (optionsOf conflict durability returnChanges)
  mutate (target table) (.mutation (.insert payload)) options

/-- Merges a patch into each of the selected documents. -/
def update (selected patch durability returnChanges : Term) : Run WriteReport := do
  let options ← Run.ofExcept (optionsOf (.text "error") durability returnChanges)
  mutate (target selected) (.mutation (.update patch)) options

/-- Deletes each of the selected documents. -/
def delete (selected durability returnChanges : Term) : Run WriteReport := do
  let options ← Run.ofExcept (optionsOf (.text "error") durability returnChanges)
  mutate (target selected) (.mutation .delete) options

end Writer

end Folio
