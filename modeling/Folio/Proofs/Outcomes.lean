import Folio.Proofs.Courses
/-!
# Outcomes of a request

A request is planned, its targets are processed, and a report is made of their outcomes in order.
Planning browses the store. Everything after the outcomes only counts: the report is a function of
the outcomes, and a request comes to a report exactly if its targets come to their outcomes.
-/

namespace Folio

open Run StoreState

/-- Only operations and metrics may differ. -/
structure StoreState.Counted (s t : StoreState) : Prop where
  database : t.database = s.database
  hooks : t.hooks = s.hooks
  locks : t.locks = s.locks
  faults : t.faults = s.faults
  calls : t.calls = s.calls
  generated : t.generated = s.generated

instance : IsPreorder StoreState Counted where
  refl _ := ⟨rfl, rfl, rfl, rfl, rfl, rfl⟩
  trans _ _ _ h k :=
    ⟨k.database.trans h.database, k.hooks.trans h.hooks, k.locks.trans h.locks,
      k.faults.trans h.faults, k.calls.trans h.calls, k.generated.trans h.generated⟩

theorem StoreState.counted_tick (s : StoreState) : Counted s s.tick :=
  ⟨rfl, rfl, rfl, rfl, rfl, rfl⟩

theorem Run.observe_counted (sample : Sample) : Moves Counted (observe sample) :=
  fun _ _ => ⟨rfl, rfl, rfl, rfl, rfl, rfl⟩

/-- Where only locked documents are struck by faults, the key field of a table is read. -/
theorem Store.exec_keyField {setup : Setup} {s : StoreState} {table : String} (h : s.Orderly) :
    (Store.keyField table).exec setup s =
      (match s.database.keyField? table with
        | some field => .ok field
        | none => .error (.tableNotFound table), s.tick) := by
  have read : (Session.keyField table).exec setup s =
      (.ok (s.database.keyField? table), s.tick) := by
    unfold Session.keyField
    rw [exec_faulty_of_none (h.strike?_of_ne (by decide) (by decide) _ _)]
    rfl
  have kept : ((Session.keyField table).exec setup s).2.faults = s.faults := by rw [read]; rfl
  unfold Store.keyField
  rw [exec_bind, exec_session _ (connects_of_slot h.faults) kept, read]
  dsimp only
  cases s.database.keyField? table <;> rfl

namespace Writer

variable {setup : Setup} {s : StoreState}

theorem counting_counted : Counting fun _ x => Moves Counted x :=
  counting_moves counted_tick observe_counted

theorem observeOutcomes_ok (table operation : String) (outcomes : List DocumentOutcome) :
    ((observeOutcomes table operation outcomes).exec setup s).1 = .ok () := by
  induction outcomes generalizing s with
  | nil => rfl
  | cons outcome rest ih => exact ih

/-- A request with its targets. -/
def plan (selector : Selector Term) (mutation : Mutation Term) (options : Options) :
    Run (Request × List Task) := do
  let table := selector.tableName
  let keyField ← Store.keyField table
  let request : Request := ⟨table, keyField, options, Entries.find? (← get).hooks table⟩
  let tasks ← Target.tasks request selector mutation
  return (request, tasks)

/-- The outcomes of a request, in order. -/
def outcomes (selector : Selector Term) (mutation : Mutation Term) (options : Options) :
    Run (List DocumentOutcome) := do
  let (request, tasks) ← plan selector mutation options
  let found ← processTasks request tasks
  return inOrder found

/-- Planning a request browses the store. -/
theorem plan_browses {P : ∀ α : Type, Run α → Prop} (b : Browsing P) (selector : Selector Term)
    (mutation : Mutation Term) (options : Options) : P _ (plan selector mutation options) :=
  b.bind (Store.keyField_browses b _) fun field =>
    b.get (fun _ hooks => do
      let request : Request :=
        ⟨selector.tableName, field, options, Entries.find? hooks selector.tableName⟩
      let tasks ← Target.tasks request selector mutation
      return (request, tasks)) fun _ _ =>
      b.bind (Target.tasks_browses b _ selector mutation) fun _ => b.pure _

/-- A request is about a table that exists. -/
theorem exec_plan (h : s.Orderly) {selector : Selector Term} {mutation : Mutation Term}
    {options : Options} {field : String}
    (hf : s.database.keyField? selector.tableName = some field) :
    (plan selector mutation options).exec setup s =
      (((Target.tasks ⟨selector.tableName, field, options,
            Entries.find? s.hooks selector.tableName⟩ selector mutation).exec setup s.tick).1.map
          (Prod.mk ⟨selector.tableName, field, options,
            Entries.find? s.hooks selector.tableName⟩),
        ((Target.tasks ⟨selector.tableName, field, options,
            Entries.find? s.hooks selector.tableName⟩ selector mutation).exec setup s.tick).2) := by
  unfold plan
  rw [exec_bind, Store.exec_keyField h, hf]
  dsimp only
  rw [exec_bind, exec_get]
  dsimp only
  rw [exec_bind, show s.tick.hooks = s.hooks from rfl]
  rcases (Target.tasks _ selector mutation).exec setup s.tick with ⟨f | tasks, t⟩ <;> rfl

theorem tasks_of_plan (h : s.Orderly) {selector : Selector Term} {mutation : Mutation Term}
    {options : Options} {request : Request} {tasks : List Task} {t : StoreState}
    (planned : (plan selector mutation options).exec setup s = (.ok (request, tasks), t)) :
    s.database.keyField? selector.tableName = some request.keyField ∧
      request = ⟨selector.tableName, request.keyField, options,
        Entries.find? s.hooks selector.tableName⟩ ∧
      (Target.tasks request selector mutation).exec setup s.tick = (.ok tasks, t) := by
  cases hf : s.database.keyField? selector.tableName with
  | none =>
    unfold plan at planned
    rw [exec_bind, Store.exec_keyField h, hf] at planned
    cases planned
  | some field =>
    rw [exec_plan h hf] at planned
    generalize hp : (Target.tasks _ selector mutation).exec setup s.tick = ended at planned
    obtain ⟨r, u⟩ := ended
    cases r with
    | error f => cases planned
    | ok found =>
      cases planned
      exact ⟨rfl, rfl, hp⟩

/-- What a planned request comes to is what its targets come to. -/
theorem exec_outcomes {selector : Selector Term} {mutation : Mutation Term} {options : Options}
    {request : Request} {tasks : List Task} {p : StoreState}
    (planned : (plan selector mutation options).exec setup s = (.ok (request, tasks), p)) :
    (outcomes selector mutation options).exec setup s =
      (((processTasks request tasks).exec setup p).1.map inOrder,
        ((processTasks request tasks).exec setup p).2) := by
  unfold outcomes
  rw [exec_bind, planned]
  dsimp only
  rw [exec_bind]
  rcases (processTasks request tasks).exec setup p with ⟨f | os, t⟩ <;> rfl

theorem ensures_outcomes {selector : Selector Term} {mutation : Mutation Term} {options : Options}
    {request : Request} {tasks : List Task} {p : StoreState}
    {Q : Except Failure (List DocumentOutcome) → StoreState → Prop}
    (planned : (plan selector mutation options).exec setup s = (.ok (request, tasks), p))
    (processed : Ensures setup p (processTasks request tasks) fun r t => Q (r.map inOrder) t) :
    Ensures setup s (outcomes selector mutation options) Q := by
  rw [Ensures, exec_outcomes planned]
  exact processed

theorem perform_eq (selector : Selector Term) (mutation : Mutation Term) (options : Options) :
    perform selector mutation options = (do
      let ordered ← outcomes selector mutation options
      observeOutcomes selector.tableName mutation.operation ordered
      return Report.ofOutcomes options.detail ordered) := by
  simp only [perform, outcomes, plan, bind_assoc, pure_bind]

/-- A request reports on its outcomes, and beyond them it only counts. -/
theorem execute_outcomes (selector : Selector Term) (mutation : Mutation Term)
    (options : Options) :
    Ensures setup s (execute selector mutation options) fun r t =>
      r = ((outcomes selector mutation options).exec setup s).1.map
          (Report.ofOutcomes options.detail) ∧
        Counted ((outcomes selector mutation options).exec setup s).2 t := by
  have performed : Ensures setup s (perform selector mutation options) fun r t =>
      r = ((outcomes selector mutation options).exec setup s).1.map
          (Report.ofOutcomes options.detail) ∧
        Counted ((outcomes selector mutation options).exec setup s).2 t := by
    rw [perform_eq, Ensures, exec_bind]
    rcases (outcomes selector mutation options).exec setup s with ⟨f | ordered, t⟩
    · exact ⟨rfl, refl t⟩
    · have counted := observeOutcomes_counts counting_counted selector.tableName
        mutation.operation ordered setup t
      have ok := @observeOutcomes_ok setup t selector.tableName mutation.operation ordered
      dsimp only
      rw [exec_bind]
      generalize (observeOutcomes _ _ ordered).exec setup t = ended at counted ok ⊢
      obtain ⟨r, u⟩ := ended
      cases ok
      exact ⟨rfl, counted⟩
  have counting : ∀ (status : String) (t : StoreState),
      Ensures setup t (observeMutation selector.tableName mutation.operation status) fun r u =>
        r = .ok () ∧ Counted t u := fun status t =>
    ⟨rfl, counting_counted.mutation _ _ status setup t⟩
  refine Ensures.attempt performed ?_
  rintro (f | report) t ⟨ended, counted⟩
  · refine (counting "error" t).bind ?_ ?_
    · rintro _ u ⟨-, h⟩
      exact ensures_throw ⟨ended, IsTrans.trans _ _ _ counted h⟩
    · rintro _ u ⟨⟨⟩, -⟩
  · refine (counting (status report) t).bind ?_ ?_
    · rintro _ u ⟨-, h⟩
      exact ensures_pure ⟨ended, IsTrans.trans _ _ _ counted h⟩
    · rintro _ u ⟨⟨⟩, -⟩

/-- A request whose targets come to their outcomes comes to a report on them. -/
theorem execute_of_processed {selector : Selector Term} {mutation : Mutation Term}
    {options : Options} {request : Request} {tasks : List Task} {p last : StoreState}
    {found : List DocumentOutcome}
    (planned : (plan selector mutation options).exec setup s = (.ok (request, tasks), p))
    (processed : (processTasks request tasks).exec setup p = (.ok found, last)) :
    ∃ t, (execute selector mutation options).exec setup s =
      (.ok (Report.ofOutcomes options.detail (inOrder found)), t) ∧ Counted last t := by
  obtain ⟨reported, counted⟩ := @execute_outcomes setup s selector mutation options
  rw [exec_outcomes planned, processed] at reported counted
  exact ⟨_, Prod.ext reported rfl, counted⟩

/-- The outcomes of a request as they were processed, and the state after them, if it comes to
outcomes. -/
def processed? (setup : Setup) (s : StoreState) (selector : Selector Term)
    (mutation : Mutation Term) (options : Options) : Option (List DocumentOutcome × StoreState) :=
  match (plan selector mutation options).exec setup s with
  | (.error _, _) => none
  | (.ok (request, tasks), p) =>
    match (processTasks request tasks).exec setup p with
    | (.error _, _) => none
    | (.ok found, last) => some (found, last)

theorem execute_of_processed? {selector : Selector Term} {mutation : Mutation Term}
    {options : Options} {found : List DocumentOutcome} {last : StoreState}
    (h : processed? setup s selector mutation options = some (found, last)) :
    (outcomes selector mutation options).exec setup s = (.ok (inOrder found), last) ∧
      ∃ t, (execute selector mutation options).exec setup s =
        (.ok (Report.ofOutcomes options.detail (inOrder found)), t) ∧ Counted last t := by
  unfold processed? at h
  generalize planned : (plan selector mutation options).exec setup s = ended at h
  obtain ⟨f | ⟨request, tasks⟩, p⟩ := ended
  · cases h
  · dsimp only at h
    generalize processed : (processTasks request tasks).exec setup p = ended at h
    obtain ⟨f | os, t⟩ := ended
    · cases h
    · cases h
      refine ⟨?_, execute_of_processed planned processed⟩
      rw [exec_outcomes planned, processed]
      rfl

end Writer

end Folio
