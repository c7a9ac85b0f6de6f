import Folio.Proofs.Outcomes
import Folio.Proofs.Unmetered
/-!
# What is counted

Every count is the sum of what the entries of a session are due to add to it. A request is counted
once by its status and once for its duration, however it ends; a report adds its counters under
their labels; each lock that is acquired is counted for its table, and one that is waited for in
vain is not. Only a fault that strikes when a request is counted can take something away, and it
takes away nothing else.
-/

namespace Folio

open Run StoreState

variable {α : Type} {setup : Setup} {s t u : StoreState}

/-! ## Counts of events -/

namespace Report

variable {κ δ : Type} {detail : ChangeDetail}

/-- The counter that a label of an outcome stands for. -/
def labelled (r : Report κ δ) (label : String) : Nat :=
  ((OutcomeKind.all.find? fun kind => kind.name == label).map r.tally).getD 0

/-- Each counter counts the outcomes that its label names. -/
theorem labelled_ofOutcomes (outcomes : List (Outcome κ δ)) (label : String) :
    (ofOutcomes detail outcomes).labelled label =
      outcomes.countP fun o => o.kind.name = label := by
  unfold labelled
  cases named : OutcomeKind.all.find? fun kind => kind.name == label with
  | none =>
    refine (List.countP_eq_zero.2 fun o _ => ?_).symm
    have other := List.find?_eq_none.1 named o.kind (by cases o.kind <;> decide)
    simpa using other
  | some kind =>
    have found : kind.name = label := by simpa using List.find?_some named
    rw [Option.map_some, Option.getD_some, tally_ofOutcomes]
    congr 1
    funext o
    rw [← found]
    cases o.kind <;> cases kind <;> rfl

end Report

/-- The status of a request by its answer: it raised, it reports errors, or it reports none. -/
def Answer.status : Except Failure Answer → String
  | .error _ => "error"
  | .ok (.report written) => if 0 < written.errors then "partial" else "success"
  | .ok _ => "success"

/-- The counter of a label in an answer; only a report has counters. -/
def Answer.labelled : Except Failure Answer → String → Nat
  | .ok (.report written), label => written.labelled label
  | _, _ => 0

/-- How often an event is due to be counted for an answer, for a request to a table with an
operation, if it was one, and for the locks that were acquired. -/
def Sample.due (request : Option (String × String)) (acquired : List LockIdentity)
    (answer : Except Failure Answer) : Sample → Nat
  | .mutation table operation status =>
    if request = some (table, operation) ∧ status = Answer.status answer then 1 else 0
  | .mutationLatency table operation => if request = some (table, operation) then 1 else 0
  | .document table operation label =>
    if request = some (table, operation) then Answer.labelled answer label else 0
  | .lockLatency table => acquired.countP fun identity => identity.1 = table

/-- How often locks of each table are counted for the locks that were acquired. -/
def Sample.ofLocks (acquired : List LockIdentity) : Sample → Nat
  | .lockLatency table => acquired.countP fun identity => identity.1 = table
  | _ => 0

/-- How often a label of a table and an operation is counted for the outcomes of documents. -/
def Sample.ofOutcomes (table operation : String) (outcomes : List DocumentOutcome) : Sample → Nat
  | .document t op label =>
    if t = table ∧ op = operation then outcomes.countP fun o => o.kind.name = label else 0
  | _ => 0

/-- How often a request is counted by its status, and for its duration. -/
def Sample.ofRequest (table operation status : String) : Sample → Nat
  | .mutation t op st => if t = table ∧ op = operation ∧ st = status then 1 else 0
  | .mutationLatency t op => if t = table ∧ op = operation then 1 else 0
  | _ => 0

/-- Between two states each event was counted so many times, and the faults are the same. -/
structure StoreState.Counts (due : Sample → Nat) (s t : StoreState) : Prop where
  counts : ∀ sample, t.metrics.count sample = s.metrics.count sample + due sample
  faults : t.faults = s.faults

/-- Nothing was counted, and the faults are the same. -/
structure StoreState.Uncounted (s t : StoreState) : Prop where
  metrics : t.metrics = s.metrics
  faults : t.faults = s.faults

instance : IsPreorder StoreState Uncounted where
  refl _ := ⟨rfl, rfl⟩
  trans _ _ _ h k := ⟨k.metrics.trans h.metrics, k.faults.trans h.faults⟩

namespace StoreState

variable {due more : Sample → Nat}

theorem Uncounted.counts (h : Uncounted s t) : Counts (fun _ => 0) s t :=
  ⟨fun _ => by rw [h.metrics, Nat.add_zero], h.faults⟩

theorem Counts.congr (h : Counts due s t) (same : ∀ sample, due sample = more sample) :
    Counts more s t := ⟨fun sample => by rw [h.counts, same], h.faults⟩

theorem Counts.trans (h : Counts due s t) (k : Counts more t u) :
    Counts (fun sample => due sample + more sample) s u :=
  ⟨fun sample => by rw [k.counts, h.counts, Nat.add_assoc], k.faults.trans h.faults⟩

theorem Counts.then (h : Counts due s t) (k : Uncounted t u) : Counts due s u :=
  (h.trans k.counts).congr fun _ => Nat.add_zero _

theorem Uncounted.then (h : Uncounted s t) (k : Counts due t u) : Counts due s u :=
  (h.counts.trans k).congr fun _ => Nat.zero_add _

theorem Uncounted.ofLocks (h : Uncounted s t) : Counts (Sample.ofLocks []) s t :=
  h.counts.congr fun sample => by cases sample <;> rfl

/-- What is not a request counts its locks only. -/
theorem Counts.answered {acquired : List LockIdentity} (h : Counts (Sample.ofLocks acquired) s t)
    (answer : Except Failure Answer) : Counts (Sample.due none acquired answer) s t :=
  h.congr fun sample => by cases sample <;> simp [Sample.due, Sample.ofLocks]

end StoreState

theorem Run.observe_counts (sample : Sample) : Ensures setup s (observe sample) fun r t =>
    r = .ok () ∧ Counts (fun other => if sample = other then 1 else 0) s t :=
  ⟨rfl, fun _ => Metrics.count_observe _ _ _, rfl⟩

/-- Nothing but locks, outcomes and requests is counted. -/
theorem operating_uncounted : Operating fun _ x => Moves Uncounted x :=
  operating_moves (writing_moves (fun _ => ⟨rfl, rfl⟩) (fun _ _ h => ⟨h.metrics, h.faults⟩)
    (fun _ _ _ _ => ⟨rfl, rfl⟩) (fun _ _ => ⟨rfl, rfl⟩) fun _ _ _ => ⟨rfl, rfl⟩)
    fun _ _ => ⟨rfl, rfl⟩

/-! ## Locks -/

namespace Store

/-- Locks a key as it is locked for the work on its document. -/
def enter (table : String) (key : Term) : Run Hold := do
  Run.faulty .locked (some key) (pure ())
  hold table key (← read).config.lockTimeout

/-- The lock that was acquired and recorded, if one was. -/
def acquired : Except Failure Hold → List LockIdentity
  | .ok held => [held.identity]
  | .error _ => []

/-- A lock that is acquired is counted for its table; one that is not is not counted. -/
theorem hold_counts (table : String) (key timeout : Term) :
    Ensures setup s (hold table key timeout) fun r t =>
      Counts (Sample.ofLocks (acquired r)) s t := by
  refine Ensures.bind (Session.codeOf_browses operating_uncounted.toBrowsing key).ensures ?_
    fun _ _ h => h.ofLocks
  intro code t h
  refine ensures_get ?_
  generalize t.locks.checkOut (table, code) = out
  obtain ⟨object, locks⟩ := out
  refine ensures_modify ?_
  split
  · -- The time cannot be waited for.
    exact Uncounted.ofLocks ⟨h.metrics, h.faults⟩
  · have struck : ∀ locks : LockTable, Counts (Sample.ofLocks []) s { t with locks } := fun _ =>
      Uncounted.ofLocks ⟨h.metrics, h.faults⟩
    split
    · -- The lock is acquired, and counted.
      refine ensures_modify (ensures_reach (fun _ _ _ => struck _) ?_)
      show Counts (Sample.ofLocks [(table, code)]) s _
      refine ⟨fun sample => ?_, h.faults⟩
      show (t.metrics.observe (.lockLatency table)).count sample = _
      rw [Metrics.count_observe, h.metrics]
      cases sample <;> simp [Sample.ofLocks, List.countP_cons]
    · -- The lock is held, and waited for in vain.
      exact ensures_modify (ensures_reach (fun _ _ _ => struck _) (struck _))

theorem enter_counts (table : String) (key : Term) : Ensures setup s (enter table key) fun r t =>
    Counts (Sample.ofLocks (acquired r)) s t := by
  have began : Moves Uncounted (Run.faulty .locked (some key) (pure ())) :=
    operating_uncounted.strike _ (by decide) .pure
  refine began.ensures.bind (fun _ t h => ensures_read ?_) fun _ _ h => h.ofLocks
  exact (hold_counts table key _).mono fun _ _ k => h.then k

theorem lockedWhen_eq (commits : α → Bool) (table : String) (key : Term) (body : Slot → Run α) :
    lockedWhen commits table key body = (do
      let held ← enter table key
      let result ← Run.attempt (Run.reporting (Run.transaction commits (body ⟨table, key⟩)))
      release held
      Run.ofExcept result) := by
  simp only [lockedWhen, enter, bind_assoc]

/-- What is done with a locked document counts nothing but its lock. -/
theorem lockedWhen_counts {commits : α → Bool} {table : String} {key : Term}
    {body : Slot → Run α} (h : ∀ slot, Moves Uncounted (body slot)) :
    Ensures setup s (lockedWhen commits table key body) fun _ t =>
      Counts (Sample.ofLocks (acquired ((enter table key).exec setup s).1)) s t := by
  rw [lockedWhen_eq]
  have entered : Ensures setup s (enter table key) fun r t =>
      Counts (Sample.ofLocks (acquired ((enter table key).exec setup s).1)) s t :=
    enter_counts table key
  refine entered.bind (fun held t k => ?_) fun _ _ k => k
  have work : Moves Uncounted (do
      let result ← Run.attempt (Run.reporting (Run.transaction commits (body ⟨table, key⟩)))
      release held
      Run.ofExcept result) :=
    ((h _).transaction fun _ _ k => ⟨k.metrics, k.faults⟩).reporting.attempt.bind fun _ =>
      Moves.bind (fun _ _ => ⟨rfl, rfl⟩) fun _ => .ofExcept
  exact work.ensures.mono fun _ _ moved => k.then moved

end Store

/-! ## Requests -/

namespace Commit

theorem process_counts (request : Request) (task : Task) :
    Ensures setup s (process request task) fun _ t => Counts (Sample.ofLocks (Store.acquired
      ((Store.enter request.table task.key.toTerm).exec setup s).1)) s t := by
  rw [Ensures, exec_process]
  exact Store.lockedWhen_counts fun slot =>
    attempt_writes operating_uncounted.toWriting request task slot

end Commit

namespace Writer

/-- The locks that are acquired when tasks are processed one after the other, up to a failure. -/
def acquiredAll (setup : Setup) (request : Request) : List Task → StoreState → List LockIdentity
  | [], _ => []
  | task :: rest, s =>
    Store.acquired ((Store.enter request.table task.key.toTerm).exec setup s).1 ++
      match (Commit.process request task).exec setup s with
      | (.ok _, t) => acquiredAll setup request rest t
      | (.error _, _) => []

/-- The locks that are acquired when every group is processed to its end. -/
def acquiredGroups (setup : Setup) (request : Request) :
    List (List Task) → StoreState → List LockIdentity
  | [], _ => []
  | group :: rest, s => acquiredAll setup request group s ++
      acquiredGroups setup request rest ((processAll request group).exec setup s).2

/-- The locks that are acquired when the tasks of a request are processed. -/
def acquiredTasks (setup : Setup) (request : Request) (tasks : List Task) (s : StoreState) :
    List LockIdentity :=
  let grouped := (groups tasks).map Prod.snd
  if setup.config.isParallel && decide (1 < grouped.length) then
    acquiredGroups setup request grouped s
  else acquiredAll setup request grouped.flatten s

/-- The locks that a request acquires. -/
def acquired (setup : Setup) (s : StoreState) (selector : Selector Term)
    (mutation : Mutation Term) (options : Options) : List LockIdentity :=
  match (plan selector mutation options).exec setup s with
  | (.ok (request, tasks), p) => acquiredTasks setup request tasks p
  | (.error _, _) => []

theorem ofLocks_append (here there : List LockIdentity) (sample : Sample) :
    Sample.ofLocks (here ++ there) sample =
      Sample.ofLocks here sample + Sample.ofLocks there sample := by
  cases sample <;> simp [Sample.ofLocks, List.countP_append]

theorem processAll_counts (request : Request) (tasks : List Task) :
    Ensures setup s (processAll request tasks) fun _ t =>
      Counts (Sample.ofLocks (acquiredAll setup request tasks s)) s t := by
  induction tasks generalizing s with
  | nil => exact (refl s : Uncounted s s).ofLocks
  | cons task rest ih =>
    have first := @Commit.process_counts setup s request task
    unfold processAll acquiredAll
    unfold Ensures at first ⊢
    rw [exec_bind]
    generalize (Commit.process request task).exec setup s = ended at first ⊢
    obtain ⟨f | outcome, u⟩ := ended
    · -- After a failure no more tasks are processed.
      rw [List.append_nil]
      exact first
    · have others : Ensures setup u (do
          let outcomes ← processAll request rest
          return outcome :: outcomes) fun _ t =>
            Counts (Sample.ofLocks (acquiredAll setup request rest u)) u t :=
        Ensures.bind (ih (s := u)) (fun _ _ h => ensures_pure h) fun _ _ h => h
      exact (first.trans others).congr fun _ => (ofLocks_append _ _ _).symm

theorem processGroups_counts (request : Request) (groups : List (List Task)) :
    Ensures setup s (processGroups request groups) fun _ t =>
      Counts (Sample.ofLocks (acquiredGroups setup request groups s)) s t := by
  induction groups generalizing s with
  | nil => exact (refl s : Uncounted s s).ofLocks
  | cons group rest ih =>
    have first := @processAll_counts setup s request group
    refine Ensures.attempt (P := fun _ t => t = ((processAll request group).exec setup s).2) rfl ?_
    rintro result _ rfl
    refine Ensures.bind ih (fun _ _ h => ensures_pure ?_) fun _ _ h => ?_
    · exact (first.trans h).congr fun _ => (ofLocks_append _ _ _).symm
    · exact (first.trans h).congr fun _ => (ofLocks_append _ _ _).symm

theorem processTasks_counts (request : Request) (tasks : List Task) :
    Ensures setup s (processTasks request tasks) fun _ t =>
      Counts (Sample.ofLocks (acquiredTasks setup request tasks s)) s t := by
  refine ensures_read ?_
  unfold acquiredTasks
  dsimp only
  split
  · exact (processGroups_counts request _).bind (fun _ _ h => ensures_ofExcept_bind
      (fun _ _ => ensures_pure h) fun _ _ => h) fun _ _ h => h
  · exact processAll_counts request _

/-- What is counted up to the outcomes of a request is the locks that it acquires. -/
theorem outcomes_counts (selector : Selector Term) (mutation : Mutation Term)
    (options : Options) : Ensures setup s (outcomes selector mutation options) fun _ t =>
      Counts (Sample.ofLocks (acquired setup s selector mutation options)) s t := by
  have browsed := plan_browses operating_uncounted.toBrowsing selector mutation options setup s
  unfold outcomes acquired
  unfold Ensures
  rw [exec_bind]
  generalize (plan selector mutation options).exec setup s = planned at browsed ⊢
  obtain ⟨f | ⟨request, tasks⟩, p⟩ := planned
  · exact browsed.ofLocks
  · have done : Ensures setup p (do
        let found ← processTasks request tasks
        return inOrder found) fun _ t =>
          Counts (Sample.ofLocks (acquiredTasks setup request tasks p)) p t :=
      (processTasks_counts request tasks).bind (fun _ _ h => ensures_pure h) fun _ _ h => h
    exact browsed.then done

theorem observeOutcomes_counts_labels (table operation : String)
    (outcomes : List DocumentOutcome) :
    Ensures setup s (observeOutcomes table operation outcomes) fun r t =>
      r = .ok () ∧ Counts (Sample.ofOutcomes table operation outcomes) s t := by
  induction outcomes generalizing s with
  | nil =>
    exact ⟨rfl, (refl s : Uncounted s s).counts.congr fun sample => by
      cases sample <;> simp [Sample.ofOutcomes]⟩
  | cons outcome rest ih =>
    refine (observe_counts _).bind ?_ fun _ _ h => nomatch h.1
    rintro _ t ⟨-, h⟩
    refine ih.mono fun r u k => ⟨k.1, (h.trans k.2).congr fun sample => ?_⟩
    cases sample with
    | document t op label =>
      by_cases here : t = table ∧ op = operation
      · obtain ⟨rfl, rfl⟩ := here
        simp [Sample.ofOutcomes, List.countP_cons, Nat.add_comm]
      · have other : Sample.document table operation outcome.kind.name ≠ .document t op label := by
          rintro ⟨⟩
          exact here ⟨rfl, rfl⟩
        simp [Sample.ofOutcomes, here, other]
    | _ => simp [Sample.ofOutcomes]

/-- Where no fault of counting strikes, a request is counted. -/
theorem observeMutation_counts (clear : ∀ f ∈ s.faults, f.isOfMetrics = false)
    (table operation status : String) :
    Ensures setup s (observeMutation table operation status) fun r t =>
      r = .ok () ∧ Counts (Sample.ofRequest table operation status) s t := by
  have misses : ∀ f ∈ s.faults, f.strikes .metrics none s.operations = false := by
    intro f hf
    have other : f.point ≠ .metrics := by simpa [Fault.isOfMetrics] using clear f hf
    simp [Fault.strikes, other]
  have counted : Ensures setup s (Run.faulty .metrics none do
      Run.observe (.mutation table operation status)
      Run.observe (.mutationLatency table operation)) fun _ t =>
        Counts (Sample.ofRequest table operation status) s t := by
    refine Ensures.faulty ?_ (fun f hf strikes => ?_) fun f hf strikes => ?_
    · refine (observe_counts _).bind ?_ (by rintro _ _ ⟨⟨⟩, -⟩)
      rintro _ t ⟨-, h⟩
      refine (observe_counts _).mono fun r u k => ?_
      have ticked : Uncounted s s.tick := ⟨rfl, rfl⟩
      refine (ticked.then (h.trans k.2)).congr fun sample => ?_
      cases sample with
      | mutation t op st => simp [Sample.ofRequest, eq_comm]
      | mutationLatency t op => simp [Sample.ofRequest, eq_comm]
      | _ => simp [Sample.ofRequest]
    · exact absurd strikes (by simp [misses f hf])
    · exact absurd strikes (by simp [misses f hf])
  exact Ensures.attempt counted fun _ _ h => ensures_pure ⟨rfl, h⟩

theorem perform_counts (selector : Selector Term) (mutation : Mutation Term)
    (options : Options) : Ensures setup s (perform selector mutation options) fun r t =>
      Counts (fun sample => Sample.ofLocks (acquired setup s selector mutation options) sample +
        match sample with
        | .document table operation label =>
          if table = selector.tableName ∧ operation = mutation.operation then
            Answer.labelled (r.map .report) label
          else 0
        | _ => 0) s t := by
  rw [perform_eq]
  refine (outcomes_counts selector mutation options).bind ?_ ?_
  · intro ordered t h
    refine (observeOutcomes_counts_labels _ _ ordered).bind ?_ fun _ _ k => nomatch k.1
    rintro _ u ⟨-, k⟩
    refine ensures_pure ((h.trans k).congr fun sample => ?_)
    cases sample <;>
      simp [Sample.ofOutcomes, Except.map, Answer.labelled, Report.labelled_ofOutcomes]
  · exact fun f t h => h.congr fun sample => by
      cases sample <;> simp [Except.map, Answer.labelled]

/-- Where no fault of counting strikes, a request counts the locks that it acquires, the outcomes
that it reports, and itself. -/
theorem execute_counts (clear : ∀ f ∈ s.faults, f.isOfMetrics = false)
    (selector : Selector Term) (mutation : Mutation Term) (options : Options) :
    Ensures setup s (execute selector mutation options) fun r t =>
      Counts (Sample.due (some (selector.tableName, mutation.operation))
        (acquired setup s selector mutation options) (r.map .report)) s t := by
  refine Ensures.attempt (perform_counts selector mutation options) fun r t h => ?_
  have counted : ∀ status, Ensures setup t
      (observeMutation selector.tableName mutation.operation status) fun r u =>
        r = .ok () ∧ Counts (Sample.ofRequest selector.tableName mutation.operation status) t u :=
    fun status => observeMutation_counts (h.faults ▸ clear) _ _ status
  have summed : ∀ {u : StoreState} {status : String} {answer : Except Failure Answer},
      answer = r.map .report → status = Answer.status answer →
        Counts (Sample.ofRequest selector.tableName mutation.operation status) t u →
          Counts (Sample.due (some (selector.tableName, mutation.operation))
            (acquired setup s selector mutation options) answer) s u := by
    rintro u _ _ rfl rfl k
    refine (h.trans k).congr fun sample => ?_
    cases sample <;> simp [Sample.ofLocks, Sample.ofRequest, Sample.due, eq_comm, and_assoc]
  cases r with
  | ok report =>
    refine (counted _).bind ?_ fun _ _ k => nomatch k.1
    rintro _ u ⟨-, k⟩
    refine ensures_pure (summed rfl ?_ k)
    by_cases clean : report.errors = 0
    · simp [status, Except.map, Answer.status, clean]
    · simp [status, Except.map, Answer.status, clean, Nat.pos_of_ne_zero clean]
  | error cause =>
    refine (counted _).bind ?_ fun _ _ k => nomatch k.1
    rintro _ u ⟨-, k⟩
    exact ensures_throw (summed rfl rfl k)

end Writer

/-! ## Entries -/

/-- The request that terms make, if each of them is accepted. -/
def Submission.accepted? (terms : Submission) :
    Option (Selector Term × Mutation Term × Options) :=
  match Writer.optionsOf terms.conflict terms.durability terms.returnChanges,
    Writer.mutationOf terms.mutation, Writer.selectorOf terms.selector with
  | .ok options, .ok mutation, .ok selector => some (selector, mutation, options)
  | _, _, _ => none

/-- What is submitted is executed, or refused at once. -/
theorem Submission.submit_cases (terms : Submission) :
    (∃ f, terms.accepted? = none ∧ terms.submit = throw f) ∨
      ∃ selector mutation options, terms.accepted? = some (selector, mutation, options) ∧
        terms.submit = Writer.execute selector mutation options := by
  unfold accepted? submit Writer.submit Writer.mutate
  cases Writer.optionsOf terms.conflict terms.durability terms.returnChanges with
  | error f => exact .inl ⟨f, rfl, rfl⟩
  | ok options =>
    cases Writer.mutationOf terms.mutation with
    | error f => exact .inl ⟨f, rfl, rfl⟩
    | ok mutation =>
      cases Writer.selectorOf terms.selector with
      | error f => exact .inl ⟨f, rfl, rfl⟩
      | ok selector => exact .inr ⟨selector, mutation, options, rfl, rfl⟩

namespace Command

/-- The request that a command makes of the writer, if it is accepted. -/
def request? (command : Command) : Option (Selector Term × Mutation Term × Options) :=
  command.submission?.bind Submission.accepted?

/-- The table and the operation of the request that a command makes. -/
def operation? (command : Command) : Option (String × String) :=
  command.request?.map fun (selector, mutation, _) => (selector.tableName, mutation.operation)

/-- The locks that a command acquires. -/
def acquired (setup : Setup) (s : StoreState) (command : Command) : List LockIdentity :=
  match command.worksOn?, command.request? with
  | some slot, _ => Store.acquired ((Store.enter slot.table slot.key).exec setup s).1
  | none, some (selector, mutation, options) => Writer.acquired setup s selector mutation options
  | none, none => []

/-- A command counts what it is due to count, unless it is about the faults themselves. -/
theorem run_counts (clear : ∀ f ∈ s.faults, f.isOfMetrics = false) {command : Command}
    (adds : ∀ fault, command ≠ .addFault fault) (clears : command ≠ .clearFaults) :
    Ensures setup s command.run fun r t =>
      Counts (Sample.due command.operation? (command.acquired setup s) r) s t := by
  have still : ∀ {x : Run Answer}, Moves Uncounted x →
      Ensures setup s x fun r t => Counts (Sample.due none [] r) s t := fun h =>
    h.ensures.mono fun r _ k => k.ofLocks.answered r
  unfold operation? acquired request?
  cases command.runs with
  | @submits _ terms asks free run =>
    rw [run, asks, free, Option.bind_some]
    rcases terms.submit_cases with
      ⟨f, refused, submitted⟩ | ⟨selector, mutation, options, accepted, submitted⟩
    · -- What is refused does not come to be counted as a request.
      rw [submitted, refused]
      exact still .throw
    · rw [submitted, accepted, Ensures, bind_pure_comp, exec_map]
      exact Writer.execute_counts clear selector mutation options
  | locks answer asks works writes run =>
    rw [run, asks, works]
    exact (Store.lockedWhen_counts (writes _ operating_uncounted.toWriting)).bind
      (fun _ _ k => ensures_pure (k.answered _)) fun _ _ k => k.answered _
  | operates asks free operates =>
    rw [asks, free]
    exact still (operates _ operating_uncounted)
  | addFault fault => exact absurd rfl (adds fault)
  | clearFaults => exact absurd rfl clears
  | metrics => exact still (.get fun _ => .pure)

end Command

namespace Entry

/-- The table and the operation of the request that an entry makes, if it is accepted. -/
def operation? : Entry → Option (String × String)
  | .command asked => asked.operation?
  | _ => none

/-- The locks that an entry acquires. -/
def acquired (setup : Setup) (c : Console) : Entry → List LockIdentity
  | .command asked => asked.acquired setup c.state.fresh
  | .hold _ table key timeout =>
    Store.acquired ((Store.hold table key timeout).exec setup c.state.fresh).1
  | _ => []

end Entry

namespace Console

variable {c : Console}

/-- How often an entry is due to count an event. -/
def due (setup : Setup) (c : Console) (entry : Entry) : Sample → Nat :=
  Sample.due entry.operation? (entry.acquired setup c) (c.step setup entry).1

/-- What the entries of a session are due to count, taken together. -/
def dueAll : Console → List (Setup × Entry) → Sample → Nat
  | _, [], _ => 0
  | c, (setup, entry) :: rest, sample =>
    c.due setup entry sample + dueAll (c.step setup entry).2 rest sample

/-- An entry counts what it is due to count, and leaves no fault of counting that it does not add. -/
structure Metered (setup : Setup) (c : Console) (entry : Entry) : Prop where
  counts : ∀ sample, (c.step setup entry).2.state.metrics.count sample =
    c.state.metrics.count sample + c.due setup entry sample
  clear : entry.faultsMetrics = false →
    ∀ f ∈ (c.step setup entry).2.state.faults, f.isOfMetrics = false

theorem Metered.of_counts {entry : Entry} (clear : ∀ f ∈ c.state.faults, f.isOfMetrics = false)
    (h : Counts (c.due setup entry) c.state.fresh (c.step setup entry).2.state) :
    Metered setup c entry :=
  ⟨h.counts, fun _ => h.faults ▸ clear⟩

/-- Where no fault of counting strikes, every entry counts what it is due to count. -/
theorem step_metered (clear : ∀ f ∈ c.state.faults, f.isOfMetrics = false) (setup : Setup)
    (entry : Entry) : Metered setup c entry := by
  have idle : ∀ {t : StoreState} {answer : Except Failure Answer}, Uncounted c.state.fresh t →
      Counts (Sample.due none [] answer) c.state.fresh t := fun h => h.ofLocks.answered _
  cases entry with
  | command command =>
    by_cases adds : ∃ fault, command = .addFault fault
    · obtain ⟨fault, rfl⟩ := adds
      refine ⟨(idle ⟨rfl, rfl⟩).counts, fun other f hf => ?_⟩
      rcases List.mem_append.1 hf with hf | hf
      · exact clear f hf
      · rw [List.mem_singleton.1 hf]
        exact other
    by_cases clears : command = .clearFaults
    · subst clears
      exact ⟨(idle ⟨rfl, rfl⟩).counts, fun _ _ hf => nomatch hf⟩
    · exact .of_counts clear (Command.run_counts (s := c.state.fresh) clear
        (fun fault h => adds ⟨fault, h⟩) clears)
  | openScan name table predicate => exact .of_counts clear (idle ⟨rfl, rfl⟩)
  | release name =>
    refine .of_counts clear (idle ?_)
    rw [step_eq]
    rcases state_release setup { c with state := c.state.fresh } name with same | ⟨_, same⟩ <;>
      rw [same] <;> exact ⟨rfl, rfl⟩
  | hold name table key timeout =>
    refine .of_counts clear ?_
    rw [step_eq, state_hold]
    exact (Store.hold_counts table key timeout).answered _
  | pull name count =>
    refine .of_counts clear (idle ?_)
    rw [step_eq]
    rcases state_pull setup { c with state := c.state.fresh } name count with same | ⟨cursor, same⟩
    · rw [same]
      exact ⟨rfl, rfl⟩
    · rw [same]
      exact pullMany_browses operating_uncounted.toBrowsing count cursor setup c.state.fresh

/-- The counts of a session in which no fault of counting strikes are what its entries are due to
count. -/
theorem play_metered (clear : ∀ f ∈ c.state.faults, f.isOfMetrics = false)
    {moves : List (Setup × Entry)} (calm : ∀ move ∈ moves, move.2.faultsMetrics = false) :
    (∀ sample, (c.play moves).state.metrics.count sample =
        c.state.metrics.count sample + c.dueAll moves sample) ∧
      ∀ f ∈ (c.play moves).state.faults, f.isOfMetrics = false := by
  induction moves generalizing c with
  | nil => exact ⟨fun _ => rfl, clear⟩
  | cons move rest ih =>
    obtain ⟨setup, entry⟩ := move
    have first := step_metered clear setup entry
    obtain ⟨counts, later⟩ := ih (first.clear (calm _ List.mem_cons_self))
      fun move hm => calm move (List.mem_cons_of_mem _ hm)
    refine ⟨fun sample => ?_, later⟩
    calc ((c.step setup entry).2.play rest).state.metrics.count sample
      _ = (c.step setup entry).2.state.metrics.count sample +
          (c.step setup entry).2.dueAll rest sample := counts sample
      _ = c.state.metrics.count sample + c.dueAll ((setup, entry) :: rest) sample := by
        rw [first.counts, Nat.add_assoc, dueAll]

/-- Where no fault strikes when requests are counted, every entry of a session adds to each count
what it is due to: a request that is accepted one for its status and one for its duration, a report
its counters under their labels, and each lock that is acquired one for its table. So the counts are
sums of what was due. Where such faults strike, whatever does not read the counts is answered as
without them, and nothing else of the store differs either. -/
theorem metrics_conserved (moves : List (Setup × Entry)) :
    ((∀ move ∈ moves, move.2.faultsMetrics = false) →
        (∀ setup entry sample,
          ((empty.play moves).step setup entry).2.state.metrics.count sample =
            (empty.play moves).state.metrics.count sample +
              (empty.play moves).due setup entry sample) ∧
          ∀ sample, (empty.play moves).state.metrics.count sample = empty.dueAll moves sample) ∧
      (empty.record moves).filter (fun e => !e.1.isOfMetrics) =
        (empty.record (moves.filter fun move => !move.2.faultsMetrics)).filter
          (fun e => !e.1.isOfMetrics) ∧
      (empty.play moves).unmetered =
        (empty.play (moves.filter fun move => !move.2.faultsMetrics)).unmetered := by
  refine ⟨fun calm => ?_, record_blind rfl moves⟩
  obtain ⟨counts, clear⟩ := play_metered (c := empty) (fun _ hf => nomatch hf) calm
  exact ⟨fun setup entry => (step_metered clear setup entry).counts,
    fun sample => (counts sample).trans (Nat.zero_add _)⟩

/-- Requests that succeed, report an error, wait in vain for a lock and are refused, and locks that
are acquired, waited for in vain and read under. -/
def counted : List (Setup × Entry) :=
  [.command (.create (.text "people") (.text "id")),
    .insert (person (.int 1) "ann") (.text "error"),
    .insert (person (.int 2) "bob") (.text "error"),
    .insert (person (.int 1) "eve") (.text "error"),
    .hold "busy" "people" (.int 2) (.int 1),
    .hold "late" "people" (.int 2) (.int 1),
    .command (.update (.selector (.get "people" (.int 2))) (.mapping [(.text "age", .int 7)])
      (.text "hard") (.bool false)),
    .command (.delete (.text "pets") (.text "hard") (.bool false)),
    .command (.locked "people" (.int 1) [.read])].map fun entry => (Setup.echo, entry)

/-- Five requests come to four reports, and five locks of seven are acquired. -/
theorem metrics_conserved_counted :
    (∀ move ∈ counted, move.2.faultsMetrics = false) ∧
      (([.mutation "people" "insert" "success", .mutation "people" "insert" "partial",
        .mutation "people" "update" "partial", .mutation "pets" "delete" "error",
        .mutationLatency "people" "insert", .document "people" "insert" "inserted",
        .document "people" "insert" "error", .document "people" "update" "error",
        .lockLatency "people"] : List Sample).map (empty.play counted).state.metrics.count) =
        [2, 1, 1, 1, 3, 2, 1, 1, 5] ∧
      ∀ sample, (empty.play counted).state.metrics.count sample = empty.dueAll counted sample := by
  have calm : ∀ move ∈ counted, move.2.faultsMetrics = false := by decide +kernel
  exact ⟨calm, by decide +kernel, ((metrics_conserved counted).1 calm).2⟩

end Console

end Folio
