import Folio.Proofs.Inserting
import Folio.Proofs.Reachability
import Folio.Proofs.Requests
import Folio.Proofs.Schedules
import Folio.Proofs.Selecting
/-!
# Isolation of failures

Locks that somebody else holds, and exceptions of the database when documents are read or written,
stand in the way of some keys of a table. A request that comes to a report without them comes to a
report with them. They do not show in its plan. A target that meets one of them ends in an error and
leaves everything as it was, and the targets of the other keys take the same turns at the same
documents in both runs.
-/

namespace Folio

open Run StoreState

/-- The state under other locks and other faults. -/
def StoreState.under (s : StoreState) (locks : LockTable) (faults : List Fault) : StoreState :=
  { s with locks, faults }

/-! ## Plans -/

section Plans

variable {locks : LockTable} {faults : List Fault}

/-- A computation that meets no fault by itself does the same under the locks and the faults, and
leaves them. -/
def Overlooks (locks : LockTable) (faults : List Fault) (α : Type) (x : Run α) : Prop :=
  ∀ setup s, s.faults = [] → (x.exec setup s).2.faults = [] ∧
    x.exec setup (s.under locks faults) =
      ((x.exec setup s).1, (x.exec setup s).2.under locks faults)

/-- What browses a store overlooks locks, and faults that strike locked documents. -/
theorem browsing_overlooks (slot : ∀ f ∈ faults, f.IsOfSlot) :
    Browsing (Overlooks locks faults) where
  pure _ _ _ calm := ⟨calm, rfl⟩
  throw _ _ _ calm := ⟨calm, rfl⟩
  bind := by
    intro α β x next hx hn setup s calm
    obtain ⟨after, same⟩ := hx setup s calm
    rw [exec_bind, exec_bind, same]
    generalize x.exec setup s = ended at after
    obtain ⟨f | a, t⟩ := ended
    · exact ⟨after, rfl⟩
    · exact hn a setup t after
  get := by
    intro α next h setup s calm
    rw [exec_bind, exec_bind, exec_get, exec_get]
    exact h s.database s.hooks setup s calm
  read := by
    intro α next h setup s calm
    rw [exec_bind, exec_bind, exec_read, exec_read]
    exact h setup setup s calm
  faulty := by
    intro α x point key read write _ h setup s calm
    have struck : (s.under locks faults).strike? point key s.operations = none := by
      refine strike?_eq_none fun f hf => ?_
      rintro rfl
      exact (slot f hf).1.elim read write
    rw [exec_faulty_of_nil calm, exec_faulty_of_none struck]
    exact h setup s.tick calm
  session := by
    intro α x h setup s calm
    obtain ⟨after, same⟩ := h setup s calm
    have connects : (s.under locks faults).Connects := connects_of_slot slot
    rw [exec_session x connects (by rw [same]; rfl),
      exec_session x (connects_of_nil calm) (after.trans calm.symm), same]
    generalize x.exec setup s = ended at after
    obtain ⟨f | a, t⟩ := ended
    · exact ⟨after, rfl⟩
    · exact ⟨after, rfl⟩
  call _ _ _ _ calm := ⟨calm, rfl⟩
  freshKey _ _ calm := ⟨calm, rfl⟩

/-- A request is planned on the database as it is, and planning leaves the database alone. -/
theorem Writer.plan_ends {setup : Setup} {s : StoreState} (hp : 0 < setup.pageSize)
    (h : s.database.InOrder) (selector : Selector Term) (mutation : Mutation Term)
    (options : Options) :
    Ensures setup s (plan selector mutation options) fun r p => Quiet s p ∧
      ∀ request tasks, r = .ok (request, tasks) →
        Plans setup s selector mutation options request tasks := by
  refine (plan_browses browsing_quiet selector mutation options).ensures.and ?_
  refine (Store.keyField_reads selector.tableName).bind (fun field n hf => ?_) fun f n _ _ h =>
    nomatch h
  refine ensures_get (Ensures.bind (Target.tasks_planned
    (s := { s with operations := n }) hp h hf rfl mutation) ?_ ?_)
  · rintro tasks t ht _ _ ⟨⟩
    obtain ⟨planned, lists, settled⟩ := ht tasks rfl
    exact ⟨rfl, hf, rfl, planned, lists, settled⟩
  · exact fun f t _ _ _ h => nomatch h

end Plans

/-! ## Disturbances -/

/-- The locks and the faults stand in the way of keys with marked codes only. -/
structure Confined (F : String → Bool) (table : String) (locks : LockTable)
    (faults : List Fault) : Prop where
  sound : locks.Sound
  free : ∀ code, F code = false → locks.isHeld (table, code) = false
  slot : ∀ f ∈ faults, f.IsOfSlot
  struck : ∀ f ∈ faults, ∀ key : Value, F key.code = false →
    ∀ point n, f.strikes point (some key.toTerm) n = false

/-- The faults are those, and the same keys are held, perhaps by other locks. -/
structure StoreState.Amid (locks : LockTable) (faults : List Fault) (s : StoreState) : Prop where
  sound : s.locks.Sound
  held : ∀ identity, s.locks.isHeld identity = locks.isHeld identity
  faults : s.faults = faults

/-- What a target meets when it is visited, with what was found of its document: its lock is held,
its document cannot be read, or what was decided cannot be written. -/
inductive Meets (setup : Setup) (request : Request) (task : Task) (s : StoreState) :
    Option Document → Failure → Prop
  | lock (held : s.locks.isHeld (request.table, task.key.code) = true) :
    Meets setup request task s none
      (.lockTimeout request.table task.key.toTerm setup.config.lockTimeout)
  | read {f : Failure} (free : s.locks.isHeld (request.table, task.key.code) = false)
    (struck : s.strike? .read (some task.key.toTerm) (s.operations + 1) = some f) :
    Meets setup request task s none f.reported
  | write {f : Failure} {v : Verdict}
    (free : s.locks.isHeld (request.table, task.key.code) = false)
    (readable : s.strike? .read (some task.key.toTerm) (s.operations + 1) = none)
    (judged : Commit.judge setup s.calls request task
      (s.database.find? request.table task.key.code) = .ok v)
    (writes : v.writes.isSome = true)
    (struck : s.strike? .write (some task.key.toTerm) (s.operations + 3) = some f) :
    Meets setup request task s (s.database.find? request.table task.key.code) f.reported

/-- The course of a target with nothing in its way. -/
def Commit.clearCourse (setup : Setup) (calls : List Call) (request : Request) (task : Task)
    (existing : Option Document) : Except Failure Verdict :=
  Commit.course ⟨none, none, none⟩ task existing (Commit.judge setup calls request task existing)

/-- A visit among failures: a target that meets one of them ends in an error and leaves the database
as it was, and any other follows its course with nothing in the way. -/
inductive Passage (setup : Setup) (request : Request) (task : Task) (s : StoreState) :
    Except Failure DocumentOutcome → StoreState → Prop
  | met {existing : Option Document} {f : Failure} {t : StoreState}
    (meets : Meets setup request task s existing f) (database : t.database = s.database) :
    Passage setup request task s (.ok (task.failure existing f)) t
  | passed {course : Except Failure Verdict} {t : StoreState}
    (free : ∀ existing f, ¬Meets setup request task s existing f)
    (clear : Commit.clearCourse setup s.calls request task
      (s.database.find? request.table task.key.code) = course)
    (database : t.database = s.database.follow request.table task.key.code course) :
    Passage setup request task s (course.map Verdict.outcome) t

section Disturbed

variable {setup : Setup} {s t u p q last : StoreState} {request : Request} {task : Task}
variable {F : String → Bool} {table : String} {locks : LockTable} {faults : List Fault}
variable {tasks done : List Task} {os : List DocumentOutcome}
variable {r : Except Failure DocumentOutcome} {rs : List (Except Failure DocumentOutcome)}

theorem StoreState.Amid.orderly (h : s.Amid locks faults)
    (confined : Confined F table locks faults) :
    s.Orderly where
  faults f hf := confined.slot f (h.faults ▸ hf)
  locks := h.sound

theorem StoreState.Amid.onward (h : s.Amid locks faults) (k : s.Onward t) :
    t.Amid locks faults where
  sound := k.sound
  held identity := (k.held identity).trans (h.held identity)
  faults := k.faults.trans h.faults

/-- Nothing is in the way of a key whose code is not marked. -/
theorem Confined.obstacles (confined : Confined F table locks faults) (h : s.Amid locks faults)
    {key : Value} (unmarked : F key.code = false) :
    s.obstacles setup table key = ⟨none, none, none⟩ := by
  have strike : ∀ point n, s.strike? point (some key.toTerm) n = none := by
    intro point n
    unfold strike?
    rw [h.faults, Option.map_eq_none_iff, List.find?_eq_none]
    intro f hf
    rw [confined.struck f hf key unmarked]
    exact Bool.false_ne_true
  unfold StoreState.obstacles
  rw [h.held, confined.free _ unmarked, strike, strike]
  rfl

/-- What ends as its course does is a visit among failures. -/
theorem passage_of_course
    (ended : r = (Commit.courseIn setup s request task).map Verdict.outcome)
    (database : t.database = s.database.follow request.table task.key.code
      (Commit.courseIn setup s request task)) : Passage setup request task s r t := by
  subst ended
  generalize course_eq : Commit.courseIn setup s request task = course at database ⊢
  unfold Commit.courseIn Commit.course StoreState.obstacles Obstacles.first at course_eq
  dsimp only at course_eq
  cases held : s.locks.isHeld (request.table, task.key.code) with
  | true =>
    rw [held] at course_eq
    subst course_eq
    exact .met (.lock held) database
  | false =>
    rw [held] at course_eq
    cases readable : s.strike? .read (some task.key.toTerm) (s.operations + 1) with
    | some f =>
      rw [readable] at course_eq
      subst course_eq
      exact .met (.read held readable) database
    | none =>
      rw [readable] at course_eq
      -- Only what is written can meet a failure now.
      have free : (∀ v f, Commit.judge setup s.calls request task
            (s.database.find? request.table task.key.code) = .ok v → v.writes.isSome = true →
          s.strike? .write (some task.key.toTerm) (s.operations + 3) ≠ some f) →
          ∀ existing f, ¬Meets setup request task s existing f := by
        intro unwritten existing f meets
        cases meets with
        | lock h => exact Bool.false_ne_true (held.symm.trans h)
        | read _ struck => exact Option.some_ne_none _ (struck.symm.trans readable)
        | write _ _ judged writes struck => exact unwritten _ _ judged writes struck
      cases judged : Commit.judge setup s.calls request task
          (s.database.find? request.table task.key.code) with
      | error cause =>
        rw [judged] at course_eq
        refine .passed (free fun v f h => ?_) ?_ database
        · cases judged.symm.trans h
        · rw [Commit.clearCourse, judged]
          exact course_eq
      | ok v =>
        rw [judged] at course_eq
        have clear : Commit.clearCourse setup s.calls request task
            (s.database.find? request.table task.key.code) = .ok v := by
          rw [Commit.clearCourse, judged]
          rcases v with ⟨o, _ | _⟩ <;> rfl
        cases writes : v.writes with
        | none =>
          obtain ⟨o, _ | _⟩ := v
          · refine .passed (free fun w f h kept => ?_) (clear.trans course_eq) database
            cases judged.symm.trans h
            cases kept
          · cases writes
        | some document =>
          obtain ⟨o, _ | _⟩ := v
          · cases writes
          · cases struck : s.strike? .write (some task.key.toTerm) (s.operations + 3) with
            | some f =>
              rw [struck] at course_eq
              subst course_eq
              exact .met (.write held readable judged rfl struck) database
            | none =>
              rw [struck] at course_eq
              refine .passed (free fun w f _ _ h => ?_) (clear.trans course_eq) database
              exact Option.some_ne_none _ (h.symm.trans struck)

/-! ## Turns at one document -/

/-- A turn of a target at its document, where only marked keys can have obstacles. -/
def MarkedTurn (F : String → Bool) (setup : Setup) (request : Request) (task : Task)
    (d : Option Document) (o : DocumentOutcome) (next : Option Document) : Prop :=
  ∃ obstacles v, (F task.key.code = false → obstacles = ⟨none, none, none⟩) ∧
    Commit.pureCourse setup request obstacles task d = .ok v ∧ o = v.outcome ∧ next = v.leaves d

/-- A visit of a target, where only marked keys can have obstacles. -/
structure MarkedVisit (F : String → Bool) (setup : Setup) (request : Request) (task : Task)
    (s : StoreState) (r : Except Failure DocumentOutcome) (t : StoreState) : Prop where
  course : ∃ obstacles, (F task.key.code = false → obstacles = ⟨none, none, none⟩) ∧
    r = (Commit.pureCourse setup request obstacles task
      (s.database.find? request.table task.key.code)).map Verdict.outcome ∧
    t.database = s.database.follow request.table task.key.code
      (Commit.pureCourse setup request obstacles task
        (s.database.find? request.table task.key.code))
  outcome : ∀ o, r = .ok o → IsOutcomeOf task o

/-- Where nothing is in the way, turns have one end. -/
theorem MarkedTurn.unique {d next next' : Option Document} {o o' : DocumentOutcome}
    (h : MarkedTurn F setup request task d o next) (k : MarkedTurn F setup request task d o' next')
    (unmarked : F task.key.code = false) : o = o' ∧ next = next' := by
  obtain ⟨_, v, clear, hv, rfl, rfl⟩ := h
  obtain ⟨_, w, clear', hw, rfl, rfl⟩ := k
  rw [clear unmarked] at hv
  rw [clear' unmarked, hv] at hw
  cases hw
  exact ⟨rfl, rfl⟩

theorem MarkedVisit.others (h : MarkedVisit F setup request task s r t) {other code : String}
    (apart : other = request.table → code ≠ task.key.code) :
    t.database.find? other code = s.database.find? other code := by
  obtain ⟨_, -, -, database⟩ := h.course
  rw [database]
  exact Database.find?_follow_of_ne apart

theorem MarkedVisit.isTurn {o : DocumentOutcome}
    (h : MarkedVisit F setup request task s (.ok o) t) :
    IsTurn request.table (MarkedTurn F setup request) task s o t := by
  refine ⟨h.outcome o rfl, ?_, fun code ne => h.others fun _ => ne⟩
  obtain ⟨obstacles, clear, ended, database⟩ := h.course
  cases course : Commit.pureCourse setup request obstacles task
      (s.database.find? request.table task.key.code) with
  | error f =>
    rw [course] at ended
    cases ended
  | ok v =>
    rw [course] at ended database
    refine ⟨obstacles, v, clear, course, Except.ok.inj ended, ?_⟩
    rw [database]
    exact Database.find?_follow_self

/-- With fewer marks there are fewer obstacles. -/
theorem MarkedVisit.mark {G : String → Bool} (h : MarkedVisit F setup request task s r t)
    (more : ∀ code, G code = false → F code = false) :
    MarkedVisit G setup request task s r t := by
  obtain ⟨obstacles, clear, ended⟩ := h.course
  exact ⟨⟨obstacles, fun unmarked => clear (more _ unmarked), ended⟩, h.outcome⟩

/-- Processing a target is such a visit, and a passage. -/
theorem marked_steps (confined : Confined F request.table locks faults)
    (timeout : ∀ task ∈ tasks, Timeout.check setup.config.lockTimeout = .ok ())
    (keys : ∀ task ∈ tasks, task.key.isKey = true)
    (pure : ∀ task ∈ tasks, Commit.AsksPure setup request task) :
    Steps setup request tasks (Amid locks faults) fun task s r t =>
      MarkedVisit F setup request task s r t ∧ Passage setup request task s r t := by
  intro task ht s amid
  have visited := (@process_course setup s request task (amid.orderly confined)
    (timeout task ht)).and (@process_ends setup s request task (keys task ht))
  refine visited.mono ?_
  rintro r t ⟨⟨onward, ended, database, -⟩, outcome⟩
  refine ⟨amid.onward onward, ⟨⟨s.obstacles setup request.table task.key, ?_, ?_, ?_⟩, ?_⟩,
    passage_of_course ended database⟩
  · exact confined.obstacles amid
  · rw [ended, Commit.pureCourse, Commit.judge_congr (pure task ht) [] s.calls]
    rfl
  · rw [database, Commit.pureCourse, Commit.judge_congr (pure task ht) [] s.calls]
    rfl
  · rintro o rfl
    exact outcome.1

/-! ## Coming to a report -/

/-- Without a time that can be waited for no target comes to an outcome. -/
theorem waiting_steps {fault : TimeoutFault}
    (timeout : Timeout.check setup.config.lockTimeout = .error fault) :
    Steps setup request tasks Orderly fun _ _ r _ => ∃ f, r = .error f := by
  intro task _ s orderly
  have steady := Commit.process_steady request task setup s
  refine ⟨⟨fun f hf => orderly.faults f (steady.faults ▸ hf), steady.locks orderly.locks⟩, ?_⟩
  have refused : ((Commit.attempt request task).exec setup s).1 = .error (.waiting fault) := by
    refine ensures_lockedWhen (Q := fun r _ => r = .error (.waiting fault)) orderly ?_
    unfold Store.hold Ensures
    simp only [exec_bind, Session.exec_codeOf, exec_get, exec_modify, timeout]
    rfl
  rw [exec_process]
  dsimp only
  rw [refused]
  cases fault <;> exact ⟨_, rfl⟩

/-- Targets that came to their outcomes have waited for a time that can be waited for. -/
theorem Writer.timeout_of_processed (orderly : p.Orderly)
    (came : (processTasks request tasks).exec setup p = (.ok os, last)) :
    ∀ task ∈ tasks, Timeout.check setup.config.lockTimeout = .ok () := by
  intro task ht
  cases timeout : Timeout.check setup.config.lockTimeout with
  | ok _ => rfl
  | error fault =>
    have refused := (@processTasks_visited _ setup p request tasks _ (waiting_steps timeout)
      orderly).2
    rw [came] at refused
    have listed : task ∈ inTurn tasks := (inTurn_perm tasks).mem_iff.2 ht
    generalize inTurn tasks = order at refused listed
    cases order with
    | nil => cases listed
    | cons first rest =>
      obtain ⟨o, _, _, -, ⟨f, failed⟩, -⟩ := Visits.of_cons refused
      cases failed

/-! ## The targets of a plan -/

/-- What a run among failures comes to, as against a run without: it is about the same targets, and
outside of the marked keys of its table outcomes and documents are the same. -/
structure Isolated (F : String → Bool) (table : String) (os : List DocumentOutcome)
    (calm : Database) (ds : List DocumentOutcome) (disturbed : Database) : Prop where
  targets : ds.map (fun o => (o.index, o.key)) = os.map fun o => (o.index, o.key)
  outcomes : (ds.filter fun o => !F o.key.code) = os.filter fun o => !F o.key.code
  documents : ∀ other code, (other = table → F code = false) →
    disturbed.find? other code = calm.find? other code
  tables : disturbed.tables = calm.tables

/-- Outcomes in order stand in the places of their tasks. -/
theorem map_inOrder (h : List.Forall₂ IsOutcomeOf tasks os) :
    (Writer.inOrder os).map (fun o => (o.index, o.key)) =
      (tasks.map fun task => (task.index, task.key)).mergeSort fun a b => decide (a.1 ≤ b.1) := by
  have listed : os.map (fun o => (o.index, o.key)) =
      tasks.map fun task => (task.index, task.key) := by
    induction h with
    | nil => rfl
    | cons outcome _ ih => rw [List.map_cons, List.map_cons, ih, outcome.index, outcome.key]
  rw [← listed]
  exact List.map_mergeSort fun _ _ _ _ => rfl

theorem Isolated.of_visits {ds : List DocumentOutcome}
    (calm : Visits (MarkedVisit (fun _ => false) setup request) tasks p (os.map .ok) t)
    (disturbed : Visits (MarkedVisit F setup request) tasks q (ds.map .ok) u)
    (start : q.database = p.database) (places : (tasks.map Task.index).Nodup) :
    Isolated F request.table (Writer.inOrder os) t.database (Writer.inOrder ds) u.database := by
  have calm : Visits (MarkedVisit F setup request) tasks p (os.map .ok) t :=
    calm.mono fun _ _ _ _ _ visit => visit.mark fun _ _ => rfl
  have turns : ∀ task s o t, MarkedVisit F setup request task s (.ok o) t →
      IsTurn request.table (MarkedTurn F setup request) task s o t :=
    fun _ _ _ _ visit => visit.isTurn
  have same : ∀ code, F code = false → os.filter (hasKey code) = ds.filter (hasKey code) ∧
      t.database.find? request.table code = u.database.find? request.table code := by
    intro code unmarked
    have left := calm.turns turns code
    have right := disturbed.turns turns code
    rw [start] at right
    refine left.unique right fun task ht d o next o' next' h k => h.unique k ?_
    have own : task.key.code = code := by simpa [Writer.hasCode] using (List.mem_filter.1 ht).2
    rw [own]
    exact unmarked
  have places : (os.map Outcome.index).Nodup := by
    rw [map_index (calm.isOutcomeOf turns) fun _ _ outcome => outcome.index]
    exact places
  constructor
  · rw [map_inOrder (disturbed.isOutcomeOf turns), map_inOrder (calm.isOutcomeOf turns)]
  · exact (Writer.filter_inOrder_eq (fun code hF => (same code hF).1) places).symm
  · intro other code unmarked
    by_cases name : other = request.table
    · subst name
      exact (same code (unmarked rfl)).2.symm
    · have kept : ∀ task s r t, MarkedVisit F setup request task s r t →
          t.database.find? other code = s.database.find? other code :=
        fun _ _ _ _ visit => visit.others fun eq => absurd eq name
      rw [disturbed.unchanged (fun s => s.database.find? other code) kept,
        calm.unchanged (fun s => s.database.find? other code) kept, start]
  · have kept : ∀ task s r t, MarkedVisit F setup request task s r t →
        t.database.tables = s.database.tables := by
      intro task s r t visit
      obtain ⟨_, -, -, database⟩ := visit.course
      rw [database, Database.tables_follow]
    rw [disturbed.unchanged (fun s => s.database.tables) kept,
      calm.unchanged (fun s => s.database.tables) kept, start]

end Disturbed

namespace Writer

end Writer

end Folio
