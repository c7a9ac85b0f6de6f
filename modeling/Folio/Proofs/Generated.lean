import Folio.Proofs.Arrival
import Folio.Proofs.Causes
/-!
# Generated keys

A document of an insert that comes without a key is given one. Whatever the conflict policy, the
hook and faults make of the targets, the report lists a given key exactly if its document was
inserted, in the order of the payload. Without a hook nothing comes between: where no other document
of the payload has a given key, it addresses the document that it was given to, with the key in
front.
-/

namespace Folio

open Run StoreState

variable {setup : Setup} {s t : StoreState} {request : Request} {task : Task} {field : String}

/-! ## Keys that are given -/

namespace Target

/-- The keys of documents, after so many generated ones: their own, or the next generated one. -/
def keysGiven (setup : Setup) (field : String) : Nat → List Document → List Value
  | _, [] => []
  | count, d :: rest =>
    (if Entries.has d field then d.fieldOrNull field else .scalar (.text (setup.freshKey count))) ::
      keysGiven setup field (drawn field count d) rest

/-- A document with its key, which stands in front if it was given. -/
def withGiven (field : String) (key : Value) (d : Document) : Document :=
  if Entries.has d field then d else (field, key) :: d

/-- The task inserts a document with its key, and says whether the key was given. -/
def IsInsertOf (field : String) (d : Document) (task : Task) : Prop :=
  task.work = .insert (withGiven field task.key d) (!Entries.has d field)

theorem key_taskOf (count place : Nat) (d : Document) :
    (taskOf setup field count place d).key =
      if Entries.has d field then d.fieldOrNull field
      else .scalar (.text (setup.freshKey count)) := by
  unfold taskOf keyed
  split
  · rfl
  · show Document.fieldOrNull ((field, _) :: d) field = _
    simp [Document.fieldOrNull, Entries.find?_cons]

theorem isInsertOf_taskOf (count place : Nat) (d : Document) :
    IsInsertOf field d (taskOf setup field count place d) := by
  unfold IsInsertOf withGiven
  rw [key_taskOf]
  unfold taskOf keyed
  cases Entries.has d field <;> rfl

/-- The documents of an insert are planned with their keys. -/
theorem insertTasks_given {place : Nat} {found : List Document} {tasks : List Task}
    (h : (insertTasks field place found).exec setup s = (.ok tasks, t)) :
    List.Forall₂ (IsInsertOf field) found tasks ∧
      tasks.map Task.key = keysGiven setup field s.generated found := by
  induction found generalizing place s tasks with
  | nil =>
    cases h
    exact ⟨.nil, rfl⟩
  | cons d rest ih =>
    obtain ⟨others, rfl, -, h⟩ := insertTasks_split h
    obtain ⟨inserts, keys⟩ := ih h
    refine ⟨.cons (isInsertOf_taskOf _ _ d) inserts, ?_⟩
    rw [List.map_cons, key_taskOf, keys, keysGiven]

end Target

/-- The plan of an insert: the request goes by what the store knows of the table, and the tasks are
those of the documents in the payload. -/
theorem Writer.documents_of_plan {table : String} {payload : Term} {options : Options}
    {tasks : List Task}
    (planned : (plan (.table table) (.insert payload) options).exec setup s =
      (.ok (request, tasks), t)) :
    request.table = table ∧ s.database.keyField? table = some request.keyField ∧
      request.hook = Entries.find? s.hooks table ∧ ∃ n found,
        Target.documents payload = .ok found ∧
          (Target.insertTasks request.keyField 0 found).exec setup { s with operations := n } =
            (.ok tasks, t) := by
  obtain ⟨name, u, read, rest⟩ := exists_of_exec_bind planned
  have reads := @Store.keyField_reads setup s table
  rw [Reads, Ensures, show (Store.keyField table).exec setup s = (.ok name, u) from read] at reads
  obtain ⟨⟨n, rfl⟩, found⟩ := reads
  obtain ⟨_, _, ⟨⟩, rest⟩ := exists_of_exec_bind rest
  obtain ⟨listed, v, targets, rest⟩ := exists_of_exec_bind rest
  cases rest
  refine ⟨rfl, found name rfl, rfl, n, ?_⟩
  rw [Target.exec_tasks_insert] at targets
  cases documents : Target.documents payload with
  | error f =>
    rw [documents] at targets
    cases targets
  | ok found =>
    rw [documents] at targets
    exact ⟨found, rfl, targets⟩

/-! ## Outcomes that say inserted -/

/-- An outcome that says inserted tells whether the key was given. Without a hook it shows the
document of the task, as it is read back. -/
def Task.Accounts (request : Request) (task : Task) (o : DocumentOutcome) : Prop :=
  o.kind = .inserted → o.generated = task.isGenerated ∧
    (request.hook = none → ∀ document generated, task.work = .insert document generated →
      o.after = some document.reread)

namespace Commit

theorem accounts_of_judge {calls : List Call} {existing : Option Document} {v : Verdict}
    (h : judge setup calls request task existing = .ok v) : task.Accounts request v.outcome := by
  rcases judge_eq_ok h with ⟨o, proposal, rfl⟩ | ⟨candidate, final, proposal, passed, rfl⟩
  · intro inserted
    rcases kind_of_proposal proposal with kind | kind <;> cases inserted.symm.trans kind
  · intro inserted
    cases final with
    | none => cases existing <;> cases inserted
    | some d =>
      cases existing with
      | some old =>
        simp only [verdict] at inserted
        split at inserted <;> cases inserted
      | none =>
        refine ⟨rfl, fun unhooked document generated work => ?_⟩
        unfold Commit.proposal at proposal
        rw [work] at proposal
        cases keeping_eq_ok proposal
        unfold allowed at passed
        rw [unhooked] at passed
        cases passed
        rfl

theorem process_accounts : Ensures setup s (process request task) fun r _ => ∀ o, r = .ok o →
    task.Accounts request o := by
  refine process_caused.mono fun r _ caused o ended => ?_
  rcases caused o ended with ⟨calls, v, judged, rfl⟩ | ⟨existing, cause, -, concluded⟩
  · exact accounts_of_judge judged
  · rcases of_settled concluded with ⟨-, rfl⟩ | rfl
    · exact fun h => nomatch h
    · exact fun h => nomatch h

end Commit

/-- A visit that lands its target, and whose outcome accounts for it. -/
structure AccountedVisit (setup : Setup) (request : Request) (task : Task) (s : StoreState)
    (r : Except Failure DocumentOutcome) (t : StoreState) : Prop where
  ends : Ends setup request task s r t.database
  accounts : ∀ o, r = .ok o → task.Accounts request o

theorem accounted_steps {tasks : List Task} (keys : ∀ task ∈ tasks, task.key.isKey = true) :
    Steps setup request tasks (fun _ => True) (AccountedVisit setup request) := fun task ht _ _ =>
  ((process_ends (keys task ht)).and Commit.process_accounts).mono fun _ _ ⟨ends, accounts⟩ =>
    ⟨trivial, ends, accounts⟩

theorem AccountedVisit.find?_of_ne {r : Except Failure DocumentOutcome}
    (h : AccountedVisit setup request task s r t) {code : String} (ne : code ≠ task.key.code) :
    t.database.find? request.table code = s.database.find? request.table code := by
  have ends := h.ends
  cases r with
  | ok o => exact ends.2.find?_of_ne ne
  | error f => rw [ends.2.2]

/-- What says inserted has written what it shows. -/
theorem Landed.find?_of_inserted {db next : Database} {o : DocumentOutcome}
    (h : Landed setup request task db o next) (inserted : o.kind = .inserted) :
    next.find? request.table task.key.code = o.after := by
  cases h with
  | kept kind =>
    rw [inserted] at kind
    cases kind
  | wrote d _ _ after => rw [Database.find?_write_self, after]
  | removed old kind => cases inserted.symm.trans kind

/-- A document that was inserted under a key that was given to it alone is still there when all
targets have been visited. -/
theorem Visits.stays {tasks : List Task} {os : List DocumentOutcome}
    (h : Visits (AccountedVisit setup request) tasks s (os.map .ok) t)
    (apart : tasks.Pairwise fun a b =>
      a.isGenerated = true ∨ b.isGenerated = true → a.key.code ≠ b.key.code) :
    List.Forall₂ (fun task o => IsOutcomeOf task o ∧ task.Accounts request o ∧
      (task.isGenerated = true → o.kind = .inserted →
        t.database.find? request.table task.key.code = o.after)) tasks os := by
  induction tasks generalizing s os with
  | nil =>
    obtain ⟨rfl, -⟩ := h.of_nil
    exact .nil
  | cons task rest ih =>
    obtain ⟨others, apart⟩ := List.pairwise_cons.1 apart
    obtain ⟨o, os, u, rfl, visit, visits⟩ := h.of_cons
    refine .cons ⟨visit.ends.1, visit.accounts o rfl, fun generated inserted => ?_⟩
      (ih visits apart)
    rw [visits.find?_of_not_mem (fun _ _ _ _ visit _ ne => visit.find?_of_ne ne) ?_]
    · exact visit.ends.2.find?_of_inserted inserted
    · intro mem
      obtain ⟨other, ho, code⟩ := List.mem_map.1 mem
      exact others other ho (.inl generated) code.symm

theorem Visits.accounted {tasks : List Task} {os : List DocumentOutcome}
    (h : Visits (AccountedVisit setup request) tasks s (os.map .ok) t) :
    List.Forall₂ (fun task o => IsOutcomeOf task o ∧ task.Accounts request o) tasks os := by
  refine (List.forall₂_map_right_iff.1 h.forall₂).imp ?_
  rintro task o ⟨u, v, visit⟩
  exact ⟨visit.ends.1, visit.accounts o rfl⟩

/-! ## The keys that a report lists -/

theorem Target.filter_generated {found : List Document} {os : List DocumentOutcome}
    (h : List.Forall₂ (fun d o => o.kind = .inserted → o.generated = !Entries.has d field)
      found os) :
    (os.filter fun o => o.kind = .inserted && o.generated) =
      ((found.zip os).filter fun p =>
        !Entries.has p.1 field && p.2.kind = .inserted).map Prod.snd := by
  induction h with
  | nil => rfl
  | @cons d o found os told _ ih =>
    rw [List.zip_cons_cons, List.filter_cons, List.filter_cons, ih]
    by_cases inserted : o.kind = .inserted
    · cases has : Entries.has d field <;> simp [inserted, told inserted, has]
    · simp [inserted]

theorem Target.isGenerated_of_isInsertOf {d : Document} (h : Target.IsInsertOf field d task) :
    task.isGenerated = !Entries.has d field := by
  unfold Task.isGenerated
  rw [show task.work = _ from h]

/-- Which tasks have generated keys, and what they are, can be told from the outcomes. -/
theorem Target.map_marks {found : List Document} {tasks : List Task} {os : List DocumentOutcome}
    (h : List.Forall₂ (Target.IsInsertOf field) found tasks)
    (k : List.Forall₂ IsOutcomeOf tasks os) :
    tasks.map (fun task => (task.isGenerated, task.key.code)) =
      (found.zip os).map fun p => (!Entries.has p.1 field, p.2.key.code) := by
  induction h generalizing os with
  | nil =>
    cases k
    rfl
  | cons inserts _ ih =>
    cases k with
    | cons outcome rest =>
      rw [List.zip_cons_cons, List.map_cons, List.map_cons, ih rest, outcome.key,
        Target.isGenerated_of_isInsertOf inserts]

namespace Writer

/-- Whether generated keys are in nobody's way: no other document of the payload has them. -/
def KeysApart (field : String) (found : List Document) (os : List DocumentOutcome) : Prop :=
  (found.zip os).Pairwise fun p q =>
    Entries.has p.1 field = false ∨ Entries.has q.1 field = false → p.2.key.code ≠ q.2.key.code

/-- Such keys are in nobody's way in the order of processing either. -/
theorem apart_inTurn {found : List Document} {tasks : List Task} {os : List DocumentOutcome}
    (h : List.Forall₂ (Target.IsInsertOf field) found tasks)
    (k : List.Forall₂ IsOutcomeOf tasks os) (apart : KeysApart field found os) :
    (inTurn tasks).Pairwise fun a b =>
      a.isGenerated = true ∨ b.isGenerated = true → a.key.code ≠ b.key.code := by
  have marks : ((found.zip os).map fun p => (!Entries.has p.1 field, p.2.key.code)).Pairwise
      fun a b => a.1 = true ∨ b.1 = true → a.2 ≠ b.2 := by
    refine List.pairwise_map.2 (apart.imp fun apart either => apart ?_)
    simpa using either
  rw [← Target.map_marks h k, List.pairwise_map] at marks
  refine ((inTurn_perm tasks).pairwise_iff ?_).2 marks
  exact fun {a b} apart either => (apart either.symm).symm

/-- The outcomes of an insert are those of its documents in order. They tell which keys were
generated, and if nothing comes between, a document that was inserted under such a key stays. -/
theorem outcomes_generate {table : String} {payload : Term} {options : Options}
    {os : List DocumentOutcome}
    (came : (outcomes (.table table) (.insert payload) options).exec setup s = (.ok os, t)) :
    ∃ field found, s.database.keyField? table = some field ∧
      Target.documents payload = .ok found ∧
      os.map Outcome.index = List.range' 0 found.length ∧
      os.map Outcome.key = Target.keysGiven setup field s.generated found ∧
      List.Forall₂ (fun d o => o.kind = .inserted → o.generated = !Entries.has d field) found os ∧
      (Entries.find? s.hooks table = none → KeysApart field found os →
        List.Forall₂ (fun d o => Entries.has d field = false → o.kind = .inserted →
          t.database.find? table o.key.code = some (Document.reread ((field, o.key) :: d)))
          found os) := by
  obtain ⟨⟨request, tasks⟩, p, planned, rest⟩ := exists_of_exec_bind came
  obtain ⟨rfl, own, hook, n, found, documents, listed⟩ := documents_of_plan planned
  obtain ⟨raw, u, processed, ended⟩ := exists_of_exec_bind rest
  cases ended
  obtain ⟨inserts, keys⟩ := Target.insertTasks_given listed
  have shape := @Target.insertTasks_planned setup { s with operations := n } request.keyField 0 found
  rw [Ensures, listed] at shape
  have places := (shape tasks rfl).1.places
  have ascending : (tasks.map Task.index).Pairwise (· < ·) := places ▸ List.pairwise_lt_range'
  have steps := @accounted_steps setup request tasks fun task ht =>
    (Target.insertTasks_inserts listed task ht).1
  have visited := @processTasks_visited _ setup p request tasks _ steps trivial
  rw [Ensures, processed] at visited
  have visits : Visits (AccountedVisit setup request) (inTurn tasks) p (raw.map .ok) t := visited.2
  -- Targets were visited key by key; put in order, outcomes stand beside their documents again.
  have accounted := forall₂_inOrder visits.accounted (fun _ _ h => h.1.index) ascending
  have ofTasks : List.Forall₂ IsOutcomeOf tasks (inOrder raw) := accounted.imp fun _ _ h => h.1
  refine ⟨request.keyField, found, own, documents, ?_, ?_, ?_, fun unhooked apart => ?_⟩
  · rw [map_index ofTasks fun _ _ h => h.index, places, ← inserts.length_eq]
  · rw [← keys]
    exact map_eq_of_forall₂ ofTasks fun _ _ h => h.key
  · refine (forall₂_trans inserts.flip accounted).imp ?_
    rintro d o ⟨task, -, insert, outcome, accounts⟩ inserted
    rw [(accounts inserted).1, Target.isGenerated_of_isInsertOf insert]
  · have apart : (inTurn tasks).Pairwise fun a b =>
        a.isGenerated = true ∨ b.isGenerated = true → a.key.code ≠ b.key.code :=
      apart_inTurn inserts ofTasks apart
    have stays := forall₂_inOrder (visits.stays apart) (fun _ _ h => h.1.index) ascending
    refine (forall₂_trans inserts.flip stays).imp ?_
    rintro d o ⟨task, -, insert, outcome, accounts, stays⟩ absent inserted
    have generated : task.isGenerated = true := by
      rw [Target.isGenerated_of_isInsertOf insert, absent]
      rfl
    rw [outcome.key, stays generated inserted,
      (accounts inserted).2 (hook.trans unhooked) _ _ insert]
    unfold Target.withGiven
    rw [absent]
    rfl

/-- Generated keys are listed exactly where documents without a key were inserted. Take an insert
that comes to a report, in any state, whatever the conflict policy, the hook and faults make of
single documents. Its outcomes are those of the documents in the order of the payload, each under
its own key or, if it came without one, under a generated key. The report lists, in this order, the
keys of the documents that came without one and were inserted. And if there is no hook, and no
generated key is that of another document of the payload, then each listed key leads afterwards to
its document, as it is read back, with the key in front. -/
theorem insert_generates {selected payload conflict durability returnChanges : Term}
    {table : String} (selects : target selected = .selector (.table table)) {report : WriteReport}
    (came : (insert selected payload conflict durability returnChanges).exec setup s =
      (.ok report, t)) :
    ∃ options field found os, optionsOf conflict durability returnChanges = .ok options ∧
      s.database.keyField? table = some field ∧ Target.documents payload = .ok found ∧
      ((outcomes (.table table) (.insert payload) options).exec setup s).1 = .ok os ∧
      report = Report.ofOutcomes options.detail os ∧
      os.map Outcome.index = List.range' 0 found.length ∧
      os.map Outcome.key = Target.keysGiven setup field s.generated found ∧
      report.generatedKeys =
        ((found.zip os).filter fun p => !Entries.has p.1 field && p.2.kind = .inserted).map
          (fun p => p.2.key) ∧
      (Entries.find? s.hooks table = none → KeysApart field found os →
        ∀ p ∈ found.zip os, Entries.has p.1 field = false → p.2.kind = .inserted →
          t.database.find? table p.2.key.code =
            some (Document.reread ((field, p.2.key) :: p.1))) := by
  obtain ⟨options, given, -⟩ := exists_of_exec_ofExcept came
  rw [insert_eq_execute selects given] at came
  have reported := @execute_outcomes setup s (.table table) (.insert payload) options
  rw [Ensures, came] at reported
  obtain ⟨reported, counted⟩ := reported
  generalize ended : (outcomes _ _ _).exec setup s = run at reported counted
  obtain ⟨f | os, last⟩ := run
  · cases reported
  · cases reported
    obtain ⟨field, found, own, documents, places, keys, told, stays⟩ := outcomes_generate ended
    refine ⟨options, field, found, os, given, own, documents, congrArg Prod.fst ended, rfl, places,
      keys, ?_, fun unhooked apart => ?_⟩
    · rw [Report.generatedKeys_ofOutcomes, Target.filter_generated told, List.map_map]
      rfl
    · rw [counted.database]
      rintro ⟨d, o⟩ mem
      exact (List.forall₂_iff_zip.1 (stays unhooked apart)).2 mem

/-- Documents without a key among others, one of which has a key that is taken. -/
def strangers : Term :=
  .list [.mapping [(.text "name", .text "kim")], person (.int 1) "amy",
    .mapping [(.text "name", .text "lea")], person (.int 3) "ida"]

/-- The documents of that payload. -/
def strangersFound : List Document :=
  [[("name", .scalar (.text "kim"))],
    [("id", .scalar (.number (.int 1))), ("name", .scalar (.text "amy"))],
    [("name", .scalar (.text "lea"))],
    [("id", .scalar (.number (.int 3))), ("name", .scalar (.text "ida"))]]

/-- Two of four documents are given keys, and one of the others is refused. -/
theorem insert_generates_strangers : ∃ report t os,
    (insert (.text "people") strangers (.text "error") (.text "hard") (.bool false)).exec .echo
      Console.unhooked.state = (.ok report, t) ∧
    os.map Outcome.kind = [.inserted, .error, .inserted, .inserted] ∧
    KeysApart "id" strangersFound os ∧
    report.generatedKeys = [.scalar (.text "key 0"), .scalar (.text "key 1")] ∧
    ∀ p ∈ strangersFound.zip os, Entries.has p.1 "id" = false → p.2.kind = .inserted →
      t.database.find? "people" p.2.key.code =
        some (Document.reread (("id", p.2.key) :: p.1)) := by
  have shown : (Console.unhooked.inserted .echo strangers .standard).map (fun (found, _) =>
      found.map fun o => (o.index, o.kind)) =
        some [(0, .inserted), (1, .error), (2, .inserted), (3, .inserted)] := by decide +kernel
  obtain ⟨⟨raw, rows⟩, came, listed⟩ := Option.map_eq_some_iff.1 shown
  obtain ⟨report, t, inserted, ended, -⟩ := Console.insert_of_inserted came
  have indices : raw.map Outcome.index = List.range' 0 4 := by
    simpa [Function.comp_def, List.range'] using congrArg (List.map Prod.fst) listed
  have kinds : raw.map Outcome.kind = [.inserted, .error, .inserted, .inserted] := by
    simpa [Function.comp_def] using congrArg (List.map Prod.snd) listed
  obtain ⟨options, field, found, os, given, own, documents, outcomes, -, -, keys, generated,
    stays⟩ := insert_generates rfl inserted
  cases given
  cases outcomes.symm.trans ended
  rw [inOrder_of_places indices] at keys generated stays
  cases own.symm.trans (by decide +kernel : _ = some "id")
  obtain rfl : found = strangersFound := by
    cases documents
    rfl
  rw [show Console.unhooked.state.generated = 0 by decide +kernel] at keys
  have length : raw.length = 4 := by simpa using congrArg List.length kinds
  rcases raw with _ | ⟨a, _ | ⟨b, _ | ⟨c, _ | ⟨d, _ | ⟨e, more⟩⟩⟩⟩⟩ <;> simp at length
  have first : Setup.echo.freshKey 0 = "key 0" := by decide +kernel
  have second : Setup.echo.freshKey 1 = "key 1" := by decide +kernel
  obtain ⟨ka, kb, kc, kd⟩ : a.key = .scalar (.text "key 0") ∧ b.key = .scalar (.number (.int 1)) ∧
      c.key = .scalar (.text "key 1") ∧ d.key = .scalar (.number (.int 3)) := by
    simpa [strangersFound, Target.keysGiven, Target.drawn, Entries.has, Entries.find?, first, second,
      Document.fieldOrNull] using keys
  obtain ⟨ia, eb, ic, -⟩ : a.kind = .inserted ∧ b.kind = .error ∧ c.kind = .inserted ∧
      d.kind = .inserted := by simpa using kinds
  have apart : KeysApart "id" strangersFound [a, b, c, d] := by
    simp only [KeysApart, strangersFound, List.zip_cons_cons, List.zip_nil_right, ka, kb, kc, kd,
      List.pairwise_cons, List.mem_cons, forall_eq_or_imp]
    decide +kernel
  refine ⟨report, t, [a, b, c, d], inserted, kinds, apart, ?_, stays (by decide +kernel) apart⟩
  rw [generated]
  simp [strangersFound, Entries.has, Entries.find?, ia, eb, ic, ka, kc]
end Writer

end Folio
