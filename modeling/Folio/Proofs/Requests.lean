import Folio.Proofs.Batches
import Folio.Proofs.Planning
import Folio.Proofs.Reporting
/-!
# Requests as a whole

A request is planned on the database as it is, its targets land one after the other, and the report
is made of their outcomes in the order of the plan. A request that fails has either not touched a
document, or has failed for a reason that is none of a document, after some of its targets landed.
-/

namespace Folio

open Run StoreState

variable {setup : Setup} {s : StoreState} {request : Request} {tasks : List Task}
variable {os : List DocumentOutcome} {db next : Database}

/-! ## What landing keeps -/

theorem Landed.tables {task : Task} {o : DocumentOutcome}
    (h : Landed setup request task db o next) : next.tables = db.tables := by
  cases h with
  | kept _ => rfl
  | wrote d => exact Database.tables_write
  | removed old => rfl

theorem Landed.keyField? {task : Task} {o : DocumentOutcome}
    (h : Landed setup request task db o next) (table : String) :
    next.keyField? table = db.keyField? table := by
  unfold Database.keyField?
  rw [h.tables]

theorem LandedAll.tables (h : LandedAll setup request tasks db os next) :
    next.tables = db.tables :=
  h.relate (R := fun a b => b.tables = a.tables) (fun _ => rfl) (fun _ _ _ h k => k.trans h)
    fun _ _ _ _ _ landed => landed.tables

/-- Whatever lands leaves the rows in order. -/
theorem Landed.inOrder {task : Task} {o : DocumentOutcome}
    (h : Landed setup request task db o next) (hdb : db.InOrder)
    (hf : db.keyField? request.table = some request.keyField) : next.InOrder := by
  cases h with
  | kept _ => exact hdb
  | wrote d _ _ _ keyed => exact hdb.write hf keyed
  | removed old => exact hdb.remove

theorem Landed.isSettled {task : Task} {o : DocumentOutcome}
    (h : Landed setup request task db o next) (careful : Careful setup task db) :
    next.IsSettled := by
  cases h with
  | kept _ => exact careful.database
  | wrote d _ _ _ _ settled => exact careful.database.write (settled careful)
  | removed old => exact fun r hr => careful.database r (List.mem_filter.1 hr).1

theorem LandedAll.inOrder (h : LandedAll setup request tasks db os next) (hdb : db.InOrder)
    (hf : db.keyField? request.table = some request.keyField) : next.InOrder := by
  induction h with
  | nil db => exact hdb
  | cons _ landed _ ih => exact ih (landed.inOrder hdb hf) ((landed.keyField? _).trans hf)

theorem LandedAll.isSettled (h : LandedAll setup request tasks db os next)
    (hs : setup.IsSettled) (ht : ∀ task ∈ tasks, task.IsSettled) (hdb : db.IsSettled) :
    next.IsSettled := by
  induction h with
  | nil db => exact hdb
  | cons _ landed _ ih =>
    exact ih (fun task hm => ht task (List.mem_cons_of_mem _ hm))
      (landed.isSettled ⟨hs, ht _ List.mem_cons_self, hdb⟩)

/-! ## Plans and reports -/

/-- How a request is planned in a state. -/
structure Plans (setup : Setup) (s : StoreState) (selector : Selector Term)
    (mutation : Mutation Term) (options : Options) (request : Request) (tasks : List Task) :
    Prop where
  table : request.table = selector.tableName
  field : s.database.keyField? request.table = some request.keyField
  options : request.options = options
  planned : Planned 0 tasks
  lists : Target.Lists setup s.database s.calls request.keyField selector mutation tasks
  settled : Term.SettledMutation mutation → ∀ task ∈ tasks, task.IsSettled

/-- What a request comes to, and the database that it leaves. -/
def RequestEnds (setup : Setup) (s : StoreState) (selector : Selector Term)
    (mutation : Mutation Term) (options : Options) :
    Except Failure WriteReport → Database → Prop
  | .ok report, db => ∃ request tasks os, Plans setup s selector mutation options request tasks ∧
      LandedAll setup request (Writer.inTurn tasks) s.database os db ∧
        report = Report.ofOutcomes options.detail (Writer.inOrder os)
  | .error f, db => db = s.database ∨ ∃ request tasks done os,
      Plans setup s selector mutation options request tasks ∧ done ⊆ tasks ∧
        LandedAll setup request done s.database os db ∧
          f.kind.isDocumentWrite = false ∧ f.Arises setup options.conflict s.faults

namespace Writer

/-- The report counts the outcomes in whatever order they came about. -/
theorem total_inOrder (detail : ChangeDetail) (os : List DocumentOutcome) :
    (Report.ofOutcomes detail (inOrder os)).total = os.length := by
  rw [Report.total_ofOutcomes, (inOrder_perm os).length_eq]

theorem tally_inOrder (detail : ChangeDetail) (os : List DocumentOutcome) (kind : OutcomeKind) :
    (Report.ofOutcomes detail (inOrder os)).tally kind = os.countP fun o => o.kind = kind := by
  rw [Report.tally_ofOutcomes, (inOrder_perm os).countP_eq]

/-- Counting outcomes cannot fail. -/
theorem observeOutcomes_ends (table operation : String) (outcomes : List DocumentOutcome) :
    Ensures setup s (observeOutcomes table operation outcomes) fun r t =>
      r = .ok () ∧ Quiet s t := by
  refine Ensures.and ?_ (observeOutcomes_quiet table operation outcomes).ensures
  induction outcomes generalizing s with
  | nil => exact ensures_pure rfl
  | cons outcome rest ih => exact ensures_modify ih

theorem observeMutation_ends (table operation status : String) :
    Ensures setup s (observeMutation table operation status) fun r t =>
      r = .ok () ∧ Quiet s t := by
  refine Ensures.and ?_ (observeMutation_quiet table operation status).ensures
  exact Ensures.attempt (P := fun _ _ => True) trivial fun _ _ _ => ensures_pure rfl

theorem perform_ends (hp : 0 < setup.pageSize) (h : s.database.InOrder)
    (selector : Selector Term) (mutation : Mutation Term) (options : Options) :
    Ensures setup s (perform selector mutation options) fun r t =>
      RequestEnds setup s selector mutation options r t.database := by
  -- Everything happens after the key field was read, which counts operations.
  have run : ∀ (n : Nat) (request : Request), request.table = selector.tableName →
      s.database.keyField? request.table = some request.keyField → request.options = options →
        Ensures setup { s with operations := n } (do
          let tasks ← Target.tasks request selector mutation
          let outcomes ← processTasks request tasks
          let ordered := inOrder outcomes
          observeOutcomes selector.tableName mutation.operation ordered
          return Report.ofOutcomes options.detail ordered) fun r t =>
            RequestEnds setup s selector mutation options r t.database := by
    intro n request htable hf hoptions
    have browses := Target.tasks_browses browsing_quiet request selector mutation
    have plan := (Target.tasks_planned (s := { s with operations := n }) hp h hf htable.symm
      mutation).and browses.ensures
    refine plan.bind ?_ (fun f t hq => .inl hq.2.database)
    rintro tasks t ⟨ht, quiet⟩
    obtain ⟨planned, lists, settled⟩ := ht tasks rfl
    have plans : Plans setup s selector mutation options request tasks :=
      ⟨htable, hf, hoptions, planned, lists, settled⟩
    refine (processTasks_ends planned.keys).bind ?_ ?_
    · intro os u landed
      rw [BatchEnds, quiet.database] at landed
      refine (observeOutcomes_ends _ _ (inOrder os)).bind ?_ (fun f v hv => nomatch hv.1)
      rintro _ v ⟨-, hv⟩
      exact ⟨request, tasks, os, plans, hv.database ▸ landed, rfl⟩
    · rintro f u ⟨⟨kind, arises⟩, done, os, sub, landed⟩
      rw [quiet.database] at landed
      rw [quiet.faults, hoptions] at arises
      exact .inr ⟨request, tasks, done, os, plans,
        List.Subset.trans sub (inTurn_perm tasks).subset, landed, kind, arises⟩
  unfold perform
  refine (Store.keyField_reads selector.tableName).bind (fun field n hf => ?_) fun f n => .inl rfl
  exact ensures_get (run n ⟨_, field, options, _⟩ rfl hf rfl)

/-- Counting a request changes neither its end nor the database. -/
theorem execute_ends (hp : 0 < setup.pageSize) (h : s.database.InOrder)
    (selector : Selector Term) (mutation : Mutation Term) (options : Options) :
    Ensures setup s (execute selector mutation options) fun r t =>
      RequestEnds setup s selector mutation options r t.database := by
  refine Ensures.attempt (perform_ends hp h selector mutation options) fun r t ended => ?_
  cases r with
  | ok report =>
    refine (observeMutation_ends _ _ _).bind ?_ (fun f u hu => nomatch hu.1)
    rintro _ u ⟨-, quiet⟩
    exact ensures_pure (quiet.database ▸ ended)
  | error f =>
    refine (observeMutation_ends _ _ _).bind ?_ (fun f u hu => nomatch hu.1)
    rintro _ u ⟨-, quiet⟩
    exact ensures_throw (quiet.database ▸ ended)

/-- A request from terms, with its options. -/
def submit (selector mutation conflict durability returnChanges : Term) : Run WriteReport := do
  let options ← Run.ofExcept (optionsOf conflict durability returnChanges)
  mutate selector mutation options

theorem insert_eq_submit (table payload conflict durability returnChanges : Term) :
    insert table payload conflict durability returnChanges =
      submit (target table) (.mutation (.insert payload)) conflict durability returnChanges := rfl

theorem update_eq_submit (selected patch durability returnChanges : Term) :
    update selected patch durability returnChanges =
      submit (target selected) (.mutation (.update patch)) (.text "error") durability
        returnChanges := rfl

/-- A request that is well-formed ends as its parts say; any other one does nothing. -/
theorem submit_ends (hp : 0 < setup.pageSize) (h : s.database.InOrder)
    (selector mutation conflict durability returnChanges : Term) :
    Ensures setup s (submit selector mutation conflict durability returnChanges) fun r t =>
      (∃ sel m options, selector = .selector sel ∧ mutation = .mutation m ∧
          optionsOf conflict durability returnChanges = .ok options ∧
            RequestEnds setup s sel m options r t.database) ∨
        ∃ f, r = .error f ∧ t.database = s.database := by
  unfold submit
  cases ho : optionsOf conflict durability returnChanges with
  | error f => exact .inr ⟨f, rfl, rfl⟩
  | ok options =>
    cases mutation with
    | mutation m =>
      cases selector with
      | selector sel =>
        exact (execute_ends hp h sel m options).mono fun r t ended =>
          .inl ⟨sel, m, options, rfl, rfl, rfl, ended⟩
      | _ => exact .inr ⟨_, rfl, rfl⟩
    | _ => exact .inr ⟨_, rfl, rfl⟩

end Writer

end Folio
