import Folio.Proofs.Inserting
import Folio.Proofs.Reachability
import Folio.Proofs.Requests
import Folio.Proofs.Unchanged
/-!
# Upserts

Inserting a document with the policy that updates, where there is a document with its key, is
updating that key with the document as the patch. The two requests are checked, planned and merged
by different code, but what they propose for the document is the same, so each step after that is
the same as well: the same lock, the same question to the hook, the same writes, and at the end the
same report. No fault has to be left out for this but one that pretends that the document does not
exist, because only an update would be skipped for it.
-/

namespace Folio

open Run StoreState

variable {setup : Setup} {s t : StoreState}

/-! ## Runs that go the same way -/

/-- Computations that go on alike from a common first part run alike. -/
theorem Run.exec_bind_congr {α β : Type} {x : Run α} {next other : α → Run β}
    (h : ∀ a t, x.exec setup s = (.ok a, t) → (next a).exec setup t = (other a).exec setup t) :
    (x >>= next).exec setup s = (x >>= other).exec setup s := by
  rw [exec_bind, exec_bind]
  generalize x.exec setup s = ended at h ⊢
  obtain ⟨f | a, t⟩ := ended
  · rfl
  · exact h a t rfl

theorem Run.exec_bind_of_eq {α β : Type} {x y : Run α} {next : α → Run β}
    (h : x.exec setup s = y.exec setup s) :
    (x >>= next).exec setup s = (y >>= next).exec setup s := by
  rw [exec_bind, exec_bind, h]

/-- Work on a locked document runs alike if it does from every state with the same database. -/
theorem Store.exec_lockedWhen_congr {α : Type} {commits : α → Bool} {table : String} {key : Term}
    {body other : Slot → Run α}
    (h : ∀ u : StoreState, u.database = s.database →
      (body ⟨table, key⟩).exec setup u = (other ⟨table, key⟩).exec setup u) :
    (lockedWhen commits table key body).exec setup s =
      (lockedWhen commits table key other).exec setup s := by
  unfold lockedWhen
  refine exec_bind_congr fun _ t struck => exec_bind_congr fun _ _ ended => ?_
  cases ended
  refine exec_bind_congr fun held u locked => exec_bind_of_eq ?_
  have ready : Kept s t := by
    have counts : Moves Kept (faulty .locked (some key) (pure ())) :=
      .faulty (fun s => (quiet_tick s).kept) .pure
    have := counts setup s
    rwa [struck] at this
  have holds : Kept t u := by
    have := hold_kept table key setup.config.lockTimeout setup t
    rwa [locked] at this
  have same := h u (holds.database.trans ready.database)
  simp only [reporting, exec_attempt, exec_bind, exec_transaction, exec_committing, same]

/-! ## One document -/

/-- The request with another policy on conflicts. -/
def Request.resolving (request : Request) (policy : BuiltinPolicy) : Request :=
  { request with options := { request.options with conflict := .builtin policy } }

namespace Commit

variable {request : Request} {table : String} {field : String} {place : Nat} {key : Value}
variable {patch : Term} {what : String} {d old : Document}

/-- A document as a patch gives what it gives when it is merged as it is. -/
theorem patched_of_validateDocument (answer : Call → Except Failure Term)
    (h : patch.validateDocument what = .ok d) :
    patched answer old patch = .ok (old.merge d).toTerm := by
  cases patch with
  | mapping entries =>
    have evaluated : Patch.evaluate old.toTerm (.mapping entries) = .ok d.toEntries := by
      show Patch.lift (Term.evaluatePatchEntries old.toTerm entries) = _
      rw [Term.evaluatePatchEntries_validateEntries old.toTerm entries "" d h]
      rfl
    unfold patched patchEntries
    dsimp only [Term.callable?]
    rw [evaluated]
    exact congrArg (Except.ok ∘ Term.mapping) (Document.merge_toEntries old d)
  | _ => cases h

theorem callable?_of_validateDocument (h : patch.validateDocument what = .ok d) :
    patch.callable? = none := by
  cases patch with
  | mapping entries => rfl
  | _ => cases h

/-- Both requests propose the same for a document that exists. -/
theorem proposal_upsert (answer : Call → Except Failure Term)
    (h : patch.validateDocument what = .ok d) :
    proposal answer (request.resolving .error) ⟨place, key, .update patch⟩ (some old) =
      proposal answer (request.resolving .update) ⟨place, key, .insert d false⟩ (some old) := by
  rw [proposal_of_patched rfl (patched_of_validateDocument answer h), documentOf_toTerm]
  rfl

/-- Neither request asks anything before the hook. -/
theorem questions_upsert (h : patch.validateDocument what = .ok d) :
    questions (request.resolving .error) ⟨place, key, .update patch⟩ (some old) =
      questions (request.resolving .update) ⟨place, key, .insert d false⟩ (some old) := by
  unfold questions patchQuestions
  dsimp only [Request.resolving]
  rw [callable?_of_validateDocument h]

/-- A document that exists is judged alike by both requests, and they ask the hook the same. -/
theorem judge_upsert (calls : List Call) (h : patch.validateDocument what = .ok d) :
    judge setup calls (request.resolving .error) ⟨place, key, .update patch⟩ (some old) =
        judge setup calls (request.resolving .update) ⟨place, key, .insert d false⟩ (some old) ∧
      judgeCalls setup calls (request.resolving .error) ⟨place, key, .update patch⟩ (some old) =
        judgeCalls setup calls (request.resolving .update) ⟨place, key, .insert d false⟩
          (some old) := by
  have verdicts : ∀ final,
      verdict ⟨place, key, .update patch⟩ (some old) final =
        verdict ⟨place, key, .insert d false⟩ (some old) final := by
    intro final
    cases final <;> rfl
  constructor
  · unfold judge
    rw [proposal_upsert _ h, questions_upsert h]
    simp only [verdicts]
    rfl
  · unfold judgeCalls
    rw [proposal_upsert _ h, questions_upsert h]
    rfl

theorem exec_attempt_upsert (present : s.database.find? request.table key.code = some old)
    (h : patch.validateDocument what = .ok d) :
    (attempt (request.resolving .error) ⟨place, key, .update patch⟩).exec setup s =
      (attempt (request.resolving .update) ⟨place, key, .insert d false⟩).exec setup s := by
  refine Store.exec_lockedWhen_congr fun u same => exec_bind_congr fun existing v read => ?_
  obtain ⟨-, found⟩ : _ ∧ existing = _ := by
    have := @slot_read setup u request.table key
    rwa [Ensures, show (Slot.read ⟨request.table, key.toTerm⟩).exec setup u = (.ok existing, v)
      from read] at this
  rw [same, present] at found
  subst found
  refine exec_bind_of_eq ?_
  obtain ⟨judged, asked⟩ := @judge_upsert setup request place key patch what d old v.calls h
  rw [exec_attempt, exec_attempt, exec_decide_judge, exec_decide_judge, judged, asked]

theorem settled_upsert (existing : Option Document) {cause : Failure}
    (h : cause.kind ≠ .targetNotFound) :
    settled ⟨place, key, .update patch⟩ existing cause =
      settled ⟨place, key, .insert d false⟩ existing cause := by
  unfold settled
  rw [decide_eq_false h, Bool.false_and, Bool.false_and]
  rfl

theorem exec_process_upsert (hk : key.isKey = true)
    (faults : ∀ f ∈ s.faults, f.kind ≠ .targetNotFound)
    (present : s.database.find? request.table key.code = some old)
    (h : patch.validateDocument what = .ok d) :
    (process (request.resolving .error) ⟨place, key, .update patch⟩).exec setup s =
      (process (request.resolving .update) ⟨place, key, .insert d false⟩).exec setup s := by
  have found : ∀ f : Failure, f.Arises setup (.builtin .update) s.faults →
      f.kind ≠ .targetNotFound := fun f arises =>
    arises.kind_ne_targetNotFound faults fun _ ⟨_, _, _, own, _⟩ => nomatch own
  have attempted := @attempt_lands setup s (request.resolving .update) ⟨place, key, .insert d false⟩
    hk
  rw [exec_process, exec_process, exec_attempt_upsert present h]
  unfold Ensures at attempted
  generalize (attempt _ _).exec setup s = ended at attempted ⊢
  obtain ⟨f | (o | ⟨existing, f⟩), t⟩ := ended
  · exact congrArg (·, t) (settled_upsert none (found f attempted.1))
  · rfl
  · exact congrArg (·, t) (settled_upsert existing (found f attempted.1))

end Commit

/-! ## Whole requests -/

namespace Writer

variable {request : Request} {task : Task} {table field : String} {key : Value} {old d : Document}
variable {durability : Durability} {changes : Term} {patch : Term}

/-- A single target is processed by itself, however many workers there are. -/
theorem exec_processTasks_one (request : Request) (task : Task) :
    (processTasks request [task]).exec setup s =
      (((Commit.process request task).exec setup s).1.map ([·]),
        ((Commit.process request task).exec setup s).2) := by
  unfold processTasks
  rw [exec_bind, exec_read]
  have alone : (groups [task]).map Prod.snd = [[task]] := rfl
  simp only [alone, List.length_singleton, Nat.lt_irrefl, decide_false, Bool.and_false,
    Bool.false_eq_true, if_false]
  show (processAll request [task]).exec setup s = _
  unfold processAll
  rw [exec_bind]
  rcases (Commit.process request task).exec setup s with ⟨f | o, t⟩ <;> rfl

theorem exec_tasks_insert_one (document : patch.validateDocument "insert payload" = .ok d)
    (hk : key.isKey = true) (keyed : Entries.find? d request.keyField = some key) :
    (Target.tasks request (.table table) (.insert patch)).exec setup s =
      (.ok [⟨0, key, .insert d false⟩], s) := by
  have payload : Target.document patch = .ok d := by
    cases patch with
    | mapping entries =>
      unfold Target.document
      rw [show (Term.mapping entries).recordAsMapping = .mapping entries from rfl, document]
    | _ => cases document
  have own : Entries.has d request.keyField = true := by
    unfold Entries.has
    rw [keyed]
    rfl
  have found : Target.keyed setup request.keyField s.generated d = (d, false) := if_pos own
  have planned : Target.taskOf setup request.keyField s.generated 0 d =
      ⟨0, key, .insert d false⟩ := by
    have value : d.fieldOrNull request.keyField = key := by
      unfold Document.fieldOrNull
      rw [keyed]
      rfl
    unfold Target.taskOf
    rw [found]
    dsimp only
    rw [value]
  rw [Target.exec_tasks_insert, Target.documents_of_document payload]
  dsimp only
  rw [Target.exec_insertTasks_one (by rw [planned]; exact hk), planned, Target.drawn, if_pos own]

theorem exec_tasks_update_one (policy : request.options.conflict = .builtin .error)
    (document : patch.validateDocument "insert payload" = .ok d) (hk : key.isKey = true) :
    (Target.tasks request (.get table key.toTerm) (.update patch)).exec setup s =
      (.ok [⟨0, key, .update patch⟩], s) := by
  have conflict : Target.checkConflict request.options = .ok () := if_pos policy
  have checked : Target.checkPatch patch = .ok () := by
    cases patch with
    | mapping entries =>
      unfold Target.checkPatch
      dsimp only
      rw [show (Term.mapping entries).validatePatch "" = .ok () from
        Term.validatePatchEntries_validateEntries entries "" d document]
    | _ => cases document
  unfold Target.tasks Target.selectedTasks Target.keys
  simp only [exec_bind, exec_ofExcept, conflict, checked, Target.validKey_toTerm hk, exec_pure]
  rfl

/-- Both requests come to the same outcomes and leave the same state. -/
theorem exec_outcomes_upsert (hf : s.database.keyField? table = some field)
    (faults : ∀ f ∈ s.faults, f.kind ≠ .targetNotFound)
    (document : patch.validateDocument "insert payload" = .ok d)
    (keyed : Entries.find? d field = some key) (hk : key.isKey = true)
    (present : s.database.find? table key.code = some old) :
    (outcomes (.get table key.toTerm) (.update patch) ⟨.builtin .error, durability, changes⟩).exec
        setup s =
      (outcomes (.table table) (.insert patch) ⟨.builtin .update, durability, changes⟩).exec
        setup s := by
  unfold outcomes plan
  simp only [bind_assoc, pure_bind]
  refine exec_bind_congr fun found t read => ?_
  have reads := @Store.keyField_reads setup s table
  rw [Reads, Ensures, show (Store.keyField table).exec setup s = (.ok found, t) from read] at reads
  obtain ⟨⟨n, rfl⟩, same⟩ := reads
  obtain rfl : found = field := Option.some.inj ((same found rfl).symm.trans hf)
  rw [exec_bind, exec_bind, exec_get]
  dsimp only
  rw [exec_bind, exec_bind, exec_tasks_insert_one document hk keyed,
    exec_tasks_update_one rfl document hk]
  -- From here both plans are one target with the same place and key; only its work differs.
  let request : Request := ⟨table, found, ⟨.builtin .error, durability, changes⟩,
    Entries.find? s.hooks table⟩
  have processed := @Commit.exec_process_upsert setup { s with operations := n } request 0 key
    patch _ d old hk faults present document
  dsimp only
  refine exec_bind_of_eq ?_
  rw [exec_processTasks_one, exec_processTasks_one]
  exact congrArg (fun ended => (ended.1.map ([·]), ended.2)) processed

/-- The options of an upsert, as those of an insert and as those of an update. -/
theorem optionsOf_upsert (durability returnChanges : Term) :
    (∃ f, optionsOf (.text "update") durability returnChanges = .error f ∧
      optionsOf (.text "error") durability returnChanges = .error f) ∨
    ∃ d, optionsOf (.text "update") durability returnChanges =
        .ok ⟨.builtin .update, d, returnChanges⟩ ∧
      optionsOf (.text "error") durability returnChanges =
        .ok ⟨.builtin .error, d, returnChanges⟩ := by
  unfold optionsOf Options.ofTerms
  cases Durability.ofOption durability with
  | error fault => exact .inl ⟨_, rfl, rfl⟩
  | ok d =>
    cases ChangeDetail.accepts returnChanges with
    | false => exact .inl ⟨.request (.returnChanges returnChanges), rfl, rfl⟩
    | true => exact .inr ⟨d, rfl, rfl⟩

/-- An upsert that is not disturbed by more than faults of slots comes to a report on its one
document. -/
theorem execute_upsert (orderly : s.Orderly)
    (timeout : Timeout.check setup.config.lockTimeout = .ok ())
    (hf : s.database.keyField? table = some field)
    (document : patch.validateDocument "insert payload" = .ok d)
    (keyed : Entries.find? d field = some key) (hk : key.isKey = true) {options : Options}
    (tame : options.conflict.IsTame setup) :
    ∃ report, ((execute (.table table) (.insert patch) options).exec setup s).1 = .ok report ∧
      report.total = 1 := by
  let request : Request := ⟨table, field, options, Entries.find? s.hooks table⟩
  let task : Task := ⟨0, key, .insert d false⟩
  have planned : (plan (.table table) (.insert patch) options).exec setup s =
      (.ok (request, [task]), s.tick) := by
    rw [@exec_plan _ _ orderly (.table table) _ _ _ hf, exec_tasks_insert_one document hk keyed]
    rfl
  obtain ⟨v, hv⟩ : ∃ v, Commit.courseIn setup s.tick request task = .ok v :=
    Commit.course_insert tame _ rfl
  have ended := (@process_course setup s.tick request task orderly.tick timeout).2.1
  have processed := @exec_processTasks_one setup s.tick request task
  rw [ended, hv] at processed
  obtain ⟨t, came, -⟩ := execute_of_processed planned processed
  refine ⟨_, congrArg Prod.fst came, ?_⟩
  rw [total_inOrder]
  rfl

/-- An upsert is an update. In every reachable store, inserting a valid document under the policy
that updates, where there is a document with its key, and updating that key by the document have the
same result, whatever the hook and the options are: the same report, or the same failure. They leave
the same rows and have asked the hook the same. Unless the options are refused, or something else is
in the way than a held lock or an exception of the database, the result is a report. -/
theorem insert_eq_update {c : Console} (hc : c.Reachable)
    (faults : ∀ f ∈ c.state.faults, f.kind ≠ .targetNotFound)
    (hf : c.state.database.keyField? table = some field)
    (document : patch.validateDocument "insert payload" = .ok d)
    (keyed : Entries.find? d field = some key) (hk : key.isKey = true)
    (present : (c.state.database.find? table key.code).isSome = true)
    (durability returnChanges : Term) :
    ∃ r t u,
      (insert (.text table) patch (.text "update") durability returnChanges).exec setup c.state =
        (r, t) ∧
      (update (.selector (.get table key.toTerm)) patch durability returnChanges).exec setup
        c.state = (r, u) ∧
      u.database = t.database ∧ u.calls = t.calls ∧
      ∀ options, optionsOf (.text "update") durability returnChanges = .ok options →
        (∀ f ∈ c.state.faults, f.IsOfSlot) →
        Timeout.check setup.config.lockTimeout = .ok () →
        ∃ report, r = .ok report ∧ report.total = 1 := by
  obtain ⟨old, present⟩ := Option.isSome_iff_exists.1 present
  have inserts := insert_eq_submit (.text table) patch (.text "update") durability returnChanges
  have updates := update_eq_submit (.selector (.get table key.toTerm)) patch durability
    returnChanges
  rcases optionsOf_upsert durability returnChanges with ⟨f, first, second⟩ | ⟨level, first, second⟩
  · refine ⟨.error f, c.state, c.state, ?_, ?_, rfl, rfl, ?_⟩
    · rw [inserts, submit, first]
      rfl
    · rw [updates, submit, second]
      rfl
    · intro options given
      rw [first] at given
      cases given
  · have inserts : insert (.text table) patch (.text "update") durability returnChanges =
        execute (.table table) (.insert patch) ⟨.builtin .update, level, returnChanges⟩ := by
      rw [inserts, submit, first]
      rfl
    have updates : update (.selector (.get table key.toTerm)) patch durability returnChanges =
        execute (.get table key.toTerm) (.update patch)
          ⟨.builtin .error, level, returnChanges⟩ := by
      rw [updates, submit, second]
      rfl
    have same := @exec_outcomes_upsert setup c.state table field key old d level returnChanges patch
      hf faults document keyed hk present
    have inserted := @execute_outcomes setup c.state (.table table) (.insert patch)
      ⟨.builtin .update, level, returnChanges⟩
    have updated := @execute_outcomes setup c.state (.get table key.toTerm) (.update patch)
      ⟨.builtin .error, level, returnChanges⟩
    have came := fun orderly timeout => @execute_upsert setup c.state _ _ _ _ _ orderly
      timeout hf document keyed hk ⟨.builtin .update, level, returnChanges⟩
      (ConflictPolicy.isTame_of_builtin rfl)
    rw [same] at updated
    rw [inserts, updates]
    unfold Ensures at inserted updated
    generalize (execute _ _ _).exec setup c.state = ended at inserted came ⊢
    generalize (execute _ _ _).exec setup c.state = ended' at updated ⊢
    obtain ⟨_, t⟩ := ended
    obtain ⟨_, u⟩ := ended'
    obtain ⟨rfl, counted⟩ := inserted
    obtain ⟨rfl, counted'⟩ := updated
    exact ⟨_, t, u, rfl, rfl, counted'.database.trans counted.database.symm,
      counted'.calls.trans counted.calls.symm,
      fun _ _ slots timeout => came ⟨slots, hc.sound.locks⟩ timeout⟩

/-- A document with a nested patch for one of two documents. -/
def nickname : Term :=
  .mapping [(.text "id", .int 2), (.text "name", .text "eva"),
    (.text "tags", .mapping [(.text "old", .tuple [.int 1])])]

/-- In a small store with a hook a document is merged into the one with its key. -/
theorem insert_eq_update_nickname :
    ∃ report t u,
      (insert (.text "people") nickname (.text "update") (.text "hard") (.bool true)).exec .echo
        Console.people.state = (.ok report, t) ∧
      (update (.selector (.get "people" (.int 2))) nickname (.text "hard") (.bool true)).exec .echo
        Console.people.state = (.ok report, u) ∧
      report.total = 1 ∧ u.database = t.database ∧ u.calls = t.calls := by
  obtain ⟨r, t, u, inserted, updated, rows, calls, came⟩ :=
    @insert_eq_update .echo "people" "id" (.scalar (.number (.int 2))) _ nickname _
      Console.reachable_people
      (fun f hf => nomatch Console.faults_people ▸ hf) (by decide +kernel) rfl rfl rfl
      (by decide +kernel)
      (.text "hard") (.bool true)
  obtain ⟨report, rfl, one⟩ := came _ rfl (fun f hf => nomatch Console.faults_people ▸ hf) rfl
  exact ⟨report, t, u, inserted, updated, one, rows, calls⟩

end Writer

end Folio
