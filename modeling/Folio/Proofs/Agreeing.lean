import Folio.Proofs.Causes
import Folio.Proofs.Naming
import Folio.Proofs.Reachability
/-!
# Selectors that agree

An update or a deletion is about documents with different keys, so each of them is processed as it
was at the start, whatever becomes of the others. What the request comes to therefore depends on the
keys that its selector finds and on nothing else about the selector. A predicate, or a whole table,
may be replaced by the keys of the documents that it selects, and a list of keys by single requests,
one for each document that the list names.
-/

namespace Folio

open Run StoreState

variable {setup : Setup} {s t base : StoreState} {request : Request} {task : Task}
variable {tasks : List Task} {os : List DocumentOutcome} {db last : Database}

/-! ## Courses one after the other -/

/-- The course of a target by pure functions, with the obstacles in one state and its document as it
is in a database. -/
def Commit.courseFrom (setup : Setup) (base : StoreState) (request : Request) (task : Task)
    (db : Database) : Except Failure Verdict :=
  pureCourse setup request (base.obstacles setup request.table task.key) task
    (db.find? request.table task.key.code)

/-- Targets that take their courses one after the other, each from the database that the one before
it left, with their outcomes. -/
inductive Courses (setup : Setup) (base : StoreState) (request : Request) :
    List Task → Database → List DocumentOutcome → Database → Prop
  | nil (db : Database) : Courses setup base request [] db [] db
  | cons {task : Task} {tasks : List Task} {v : Verdict} {os : List DocumentOutcome}
      {db last : Database} (course : Commit.courseFrom setup base request task db = .ok v)
      (rest : Courses setup base request tasks
        (db.follow request.table task.key.code (.ok v)) os last) :
      Courses setup base request (task :: tasks) db (v.outcome :: os) last

/-- The visit of a target that takes its course. -/
def CourseVisit (setup : Setup) (base : StoreState) (request : Request) (task : Task)
    (s : StoreState) (r : Except Failure DocumentOutcome) (t : StoreState) : Prop :=
  r = (Commit.courseFrom setup base request task s.database).map Verdict.outcome ∧
    t.database = s.database.follow request.table task.key.code
      (Commit.courseFrom setup base request task s.database)

theorem CourseVisit.others {r : Except Failure DocumentOutcome}
    (h : CourseVisit setup base request task s r t) {code : String} (ne : code ≠ task.key.code) :
    t.database.find? request.table code = s.database.find? request.table code := by
  rw [h.2]
  exact Database.find?_follow_of_ne fun _ => ne

namespace Courses

theorem of_visits (h : Visits (CourseVisit setup base request) tasks s (os.map .ok) t) :
    Courses setup base request tasks s.database os t.database := by
  induction tasks generalizing s os with
  | nil =>
    obtain ⟨rfl, rfl⟩ := h.of_nil
    exact .nil _
  | cons task tasks ih =>
    obtain ⟨o, rest, u, rfl, ⟨ended, database⟩, visits⟩ := h.of_cons
    have later := ih visits
    cases course : Commit.courseFrom setup base request task s.database with
    | error f =>
      rw [course] at ended
      cases ended
    | ok v =>
      rw [course] at ended database
      cases ended
      exact .cons course (database ▸ later)

theorem unique {others : List DocumentOutcome} {other : Database}
    (h : Courses setup base request tasks db os last)
    (k : Courses setup base request tasks db others other) : others = os ∧ other = last := by
  induction h generalizing others other with
  | nil db =>
    cases k
    exact ⟨rfl, rfl⟩
  | cons course _ ih =>
    cases k with
    | cons course' rest =>
      cases course.symm.trans course'
      obtain ⟨rfl, rfl⟩ := ih rest
      exact ⟨rfl, rfl⟩

/-- Targets with different keys take their courses from the documents as they were at the start. -/
theorem at_start (start : Database) (h : Courses setup base request tasks db os last)
    (nodup : (tasks.map fun task => task.key.code).Nodup)
    (same : ∀ task ∈ tasks,
      db.find? request.table task.key.code = start.find? request.table task.key.code) :
    List.Forall₂ (fun task o => ∃ v,
      Commit.courseFrom setup base request task start = .ok v ∧ o = v.outcome) tasks os := by
  induction h with
  | nil db => exact .nil
  | @cons task tasks v os db last course _ ih =>
    obtain ⟨fresh, nodup⟩ := List.nodup_cons.1 nodup
    refine .cons ⟨v, ?_, rfl⟩ (ih nodup fun other ho => ?_)
    · unfold Commit.courseFrom at course ⊢
      rw [← same task List.mem_cons_self]
      exact course
    · have apart : other.key.code ≠ task.key.code := fun eq =>
        fresh (List.mem_map.2 ⟨other, ho, eq⟩)
      rw [Database.find?_follow_of_ne fun _ => apart]
      exact same other (List.mem_cons_of_mem _ ho)

end Courses

/-- In another place a target takes the same course. -/
theorem Commit.courseFrom_placed (place : Nat) :
    courseFrom setup base request (task.placed place) db =
      (courseFrom setup base request task db).map (Verdict.placed · place) := by
  unfold courseFrom pureCourse
  rw [judge_placed]
  exact course_placed _ _ _ _

namespace Writer

/-- Targets with different keys come to outcomes exactly if they all take their courses, and then
they come to these, however many workers there are. -/
theorem processTasks_courses (ready : ∀ task ∈ tasks, Ready setup base request)
    (pure : ∀ task ∈ tasks, Commit.AsksPure setup request task)
    (nodup : (tasks.map fun task => task.key.code).Nodup) (beside : Beside request.table base s) :
    Ensures setup s (processTasks request tasks) fun r t => Beside request.table base t ∧
      ∀ os last, Courses setup base request tasks s.database os last ↔
        r = .ok os ∧ t.database = last := by
  have steps : Steps setup request tasks (Beside request.table base)
      (CourseVisit setup base request) := fun task ht s beside =>
    (process_beside (ready task ht) (pure task ht) beside).mono
      fun r t ⟨⟨after, _⟩, ended, database⟩ => ⟨after, ended, database⟩
  refine (processTasks_visited steps beside).mono ?_
  rintro r t ⟨after, visited⟩
  rw [inTurn_of_nodup nodup] at visited
  refine ⟨after, fun os last => ⟨fun courses => ?_, ?_⟩⟩
  · cases r with
    | ok found =>
      obtain ⟨rfl, same⟩ := courses.unique (Courses.of_visits visited)
      exact ⟨rfl, same⟩
    | error f =>
      -- A target that failed on its way would have failed on its course from the start.
      obtain ⟨done, rs, sub, failed, visits⟩ := visited
      have visits := visits.at_start request.table s.database (nodup.sublist (sub.map _))
        (fun _ _ _ _ visit _ ne => visit.others ne) fun _ _ => rfl
      obtain ⟨task, ht, u, v, ⟨ended, -⟩, found⟩ := exists_of_forall₂ visits failed
      obtain ⟨o, -, w, course, -⟩ := exists_of_forall₂_left
        (courses.at_start s.database nodup fun _ _ => rfl) (sub.subset ht)
      unfold Commit.courseFrom at ended course
      rw [found, course] at ended
      cases ended
  · rintro ⟨rfl, rfl⟩
    exact Courses.of_visits visited

end Writer

/-! ## Updates and deletions -/

/-- What an update or a deletion does with each of its targets. -/
inductive Mutation.Works : Mutation Term → Work → Prop
  | update (patch : Term) : Works (.update patch) (.update patch)
  | delete : Works .delete .delete

section Planning

variable {selector other : Selector Term} {mutation : Mutation Term} {work : Work}
variable {options : Options} {found others : List Value} {p q : StoreState}

/-- A mutation that was accepted for one selector is accepted for every other, and plans the same
work on the keys that are found for it. -/
theorem Target.of_tasks (works : mutation.Works work)
    (h : (Target.tasks request selector mutation).exec setup s = (.ok tasks, p)) :
    (∃ found, (keys request.table request.keyField selector).exec setup s = (.ok found, p) ∧
        tasks = tasksOn work found) ∧
      request.options.conflict = .builtin .error ∧
      ∀ other t others q,
        (keys request.table request.keyField other).exec setup t = (.ok others, q) →
          (Target.tasks request other mutation).exec setup t = (.ok (tasksOn work others), q) := by
  cases works with
  | update patch =>
    obtain ⟨_, conflict, h⟩ := exists_of_exec_ofExcept h
    obtain ⟨_, valid, h⟩ := exists_of_exec_ofExcept h
    obtain ⟨found, _, first, h⟩ := exists_of_exec_bind h
    cases h
    refine ⟨⟨found, first, rfl⟩, conflict_of_checkConflict conflict,
      fun other t others q again => ?_⟩
    dsimp only [Target.tasks]
    rw [conflict, valid]
    exact exec_bind_ok again
  | delete =>
    obtain ⟨_, conflict, h⟩ := exists_of_exec_ofExcept h
    obtain ⟨found, _, first, h⟩ := exists_of_exec_bind h
    cases h
    refine ⟨⟨found, first, rfl⟩, conflict_of_checkConflict conflict,
      fun other t others q again => ?_⟩
    dsimp only [Target.tasks]
    rw [conflict]
    exact exec_bind_ok again

/-- How an update or a deletion is planned: by the keys that are found for its selector, and in the
same way with other keys, for another selector of the table or at another time. -/
structure TargetPlan (setup : Setup) (s : StoreState) (selector : Selector Term)
    (mutation : Mutation Term) (options : Options) (work : Work) (request : Request)
    (found : List Value) (p : StoreState) : Prop where
  table : request.table = selector.tableName
  field : s.database.keyField? request.table = some request.keyField
  hook : request.hook = Entries.find? s.hooks request.table
  conflict : request.options.conflict = .builtin .error
  keys : (Target.keys request.table request.keyField selector).exec setup s.tick = (.ok found, p)
  again : ∀ (other : Selector Term) (t : StoreState) (others : List Value) (q : StoreState),
    other.tableName = request.table → t.Orderly → t.database.tables = s.database.tables →
      t.hooks = s.hooks →
        (Target.keys request.table request.keyField other).exec setup t.tick = (.ok others, q) →
          (Writer.plan other mutation options).exec setup t =
            (.ok (request, Target.tasksOn work others), q)

theorem TargetPlan.own (plan : TargetPlan setup s selector mutation options work request found p) :
    s.database.keyField? selector.tableName = some request.keyField :=
  plan.table ▸ plan.field

theorem Writer.exists_targetPlan (works : mutation.Works work) (orderly : s.Orderly)
    (planned : (plan selector mutation options).exec setup s = (.ok (request, tasks), p)) :
    ∃ found, TargetPlan setup s selector mutation options work request found p ∧
      tasks = Target.tasksOn work found := by
  obtain ⟨own, request_eq, targets⟩ := tasks_of_plan orderly planned
  have name : request.table = selector.tableName := congrArg Request.table request_eq
  obtain ⟨⟨found, keys, rfl⟩, conflict, again⟩ := Target.of_tasks works targets
  refine ⟨found, ⟨name, name ▸ own, ?_, conflict, keys, ?_⟩, rfl⟩
  · rw [name]
    exact congrArg Request.hook request_eq
  · intro other t others q same orderly tables hooks looked
    refine plan_again ?_ ?_ orderly tables hooks (again other t.tick others q looked)
    · rw [same, name]
      exact own
    · rw [same, name]
      exact request_eq

/-! ## Requests by their courses -/

/-- What makes it predictable what an update or a deletion comes to: faults that last, sound locks,
rows in order and pure functions. -/
structure Predictable (setup : Setup) (base : StoreState) (table : String) (work : Work) :
    Prop where
  pages : 0 < setup.pageSize
  faults : ∀ f ∈ base.faults, f.IsLasting
  locks : base.locks.Sound
  rows : base.database.InOrder
  hook : ∀ h, Entries.find? base.hooks table = some h → setup.IsPure h
  patch : ∀ patch f, work = .update patch → patch.callable? = some f → setup.IsPure f

theorem Predictable.orderly {table : String} (h : Predictable setup base table work) :
    base.Orderly :=
  ⟨fun f hf => (h.faults f hf).slot, h.locks⟩

theorem TargetPlan.asksPure
    (plan : TargetPlan setup base selector mutation options work request found p)
    (h : Predictable setup base request.table work) (own : task.work = work) :
    Commit.AsksPure setup request task where
  hook f hf := h.hook f (plan.hook ▸ hf)
  conflict _ hf := nomatch plan.conflict.symm.trans hf
  policy _ hp := nomatch plan.conflict.symm.trans hp
  patch patch f update := h.patch patch f (own ▸ update)

/-- What is selected, in the database at the start. -/
theorem TargetPlan.selected
    (plan : TargetPlan setup s selector mutation options work request found p)
    (h : Predictable setup s request.table work) :
    Target.Selected setup s.database s.calls request.keyField selector found := by
  have looked := @Target.keys_selected setup s.tick h.pages h.rows request.table request.keyField
    plan.field selector plan.table.symm
  rw [Ensures, plan.keys] at looked
  exact looked found rfl

/-- Targets with different keys come to outcomes in their order. -/
theorem Writer.inOrder_of_processed (valid : ∀ key ∈ found, key.isKey = true)
    (nodup : (found.map Value.code).Nodup)
    (came : (processTasks request (Target.tasksOn work found)).exec setup p = (.ok os, q)) :
    inOrder os = os := by
  have planned := Target.planned_tasksOn work valid
  have landed := @processTasks_ends setup request (Target.tasksOn work found) p planned.keys
  rw [Ensures, came] at landed
  have outcomes := LandedAll.outcomes landed
  rw [inTurn_of_nodup (by rwa [Target.map_code_tasksOn])] at outcomes
  exact inOrder_of_places ((map_index outcomes fun _ _ outcome => outcome.index).trans
    planned.places)

/-- A request that comes to a report: its targets take their courses, and the report is on their
outcomes. -/
theorem Writer.courses_of_execute (works : mutation.Works work)
    (h : Predictable setup s selector.tableName work) {report : WriteReport}
    (came : (execute selector mutation options).exec setup s = (.ok report, t)) :
    ∃ request found p os,
      TargetPlan setup s selector mutation options work request found p ∧
      (∀ task ∈ Target.tasksOn work found, Ready setup s request) ∧
      Courses setup s request (Target.tasksOn work found) s.database os t.database ∧
      report = Report.ofOutcomes options.detail os := by
  obtain ⟨request, tasks, p, os, u, planned, processed, rfl, counted⟩ := exists_of_execute came
  have browsed := plan_browses browsing_quiet selector mutation options setup s
  rw [planned] at browsed
  obtain ⟨found, plan, rfl⟩ := exists_targetPlan works h.orderly planned
  rw [← plan.table] at h
  have beside : Beside request.table s p := browsed.beside h.locks
  have waited := timeout_of_processed ⟨fun f hf => (h.faults f (browsed.faults ▸ hf)).slot,
    beside.sound⟩ processed
  have ready : ∀ task ∈ Target.tasksOn work found, Ready setup s request := fun task ht =>
    ⟨waited task ht, h.faults, h.locks, fun f hf => h.hook f (plan.hook ▸ hf),
      fun f hf => (nomatch plan.conflict.symm.trans hf),
      fun p hp => (nomatch plan.conflict.symm.trans hp),
      ConflictPolicy.isTame_of_builtin plan.conflict⟩
  have selected := plan.selected h
  have nodup := selected.nodup h.rows plan.own
  have ended := processTasks_courses ready
    (fun task ht => plan.asksPure h (Target.mem_tasksOn ht).2)
    (by rwa [Target.map_code_tasksOn]) beside
  rw [Ensures, processed, browsed.database] at ended
  refine ⟨request, found, p, os, plan, ready, ?_, ?_⟩
  · rw [counted.database]
    exact (ended.2 os u.database).2 ⟨rfl, rfl⟩
  · rw [inOrder_of_processed (selected.isKey h.rows plan.own) nodup processed]

/-- Where the keys that are found take their courses, a request comes to the report on their
outcomes, whatever selector they are found for. -/
theorem Writer.execute_of_courses
    (plan : TargetPlan setup base selector mutation options work request found p)
    (h : Predictable setup base request.table work) (beside : Beside request.table base s)
    (name : other.tableName = request.table)
    (looked : (Target.keys request.table request.keyField other).exec setup s.tick =
      (.ok others, q))
    (valid : ∀ key ∈ others, key.isKey = true) (nodup : (others.map Value.code).Nodup)
    (ready : ∀ task ∈ Target.tasksOn work others, Ready setup base request)
    (courses : Courses setup base request (Target.tasksOn work others) s.database os last) :
    ∃ t, (execute other mutation options).exec setup s =
        (.ok (Report.ofOutcomes options.detail os), t) ∧
      t.database = last ∧ Beside request.table base t := by
  have orderly : s.Orderly :=
    ⟨fun f hf => (h.faults f (beside.faults ▸ hf)).slot, beside.sound⟩
  have planned := plan.again other s others q name orderly beside.tables beside.hooks looked
  have browsed := plan_browses browsing_quiet other mutation options setup s
  rw [planned] at browsed
  have ended := processTasks_courses ready
    (fun task ht => plan.asksPure h (Target.mem_tasksOn ht).2)
    (by rwa [Target.map_code_tasksOn]) (beside.trans (browsed.beside beside.sound))
  unfold Ensures at ended
  generalize processed : (processTasks request _).exec setup q = run at ended
  obtain ⟨r, u⟩ := run
  obtain ⟨after, ended⟩ := ended
  rw [browsed.database] at ended
  obtain ⟨rfl, rfl⟩ := (ended os last).1 courses
  obtain ⟨t, came, counted⟩ := execute_of_processed planned processed
  rw [inOrder_of_processed valid nodup processed] at came
  exact ⟨t, came, counted.database, after.trans (counted.beside after.sound)⟩

/-! ## Single requests -/

/-- Requests about one key each, one after the other, with their reports. -/
inductive GetsEach (setup : Setup) (table : String) (mutation : Mutation Term)
    (options : Options) : List Value → StoreState → List WriteReport → StoreState → Prop
  | nil (s : StoreState) : GetsEach setup table mutation options [] s [] s
  | cons {key : Value} {keys : List Value} {s t last : StoreState} {report : WriteReport}
      {reports : List WriteReport}
      (came : (Writer.execute (.get table key.toTerm) mutation options).exec setup s =
        (.ok report, t))
      (rest : GetsEach setup table mutation options keys t reports last) :
      GetsEach setup table mutation options (key :: keys) s (report :: reports) last

/-- Keys that take their courses one after the other take them in single requests as well. -/
theorem Courses.getsEach
    (plan : TargetPlan setup base selector mutation options work request found p)
    (h : Predictable setup base request.table work) (beside : Beside request.table base s)
    (valid : ∀ key ∈ others, key.isKey = true) (place : Nat)
    (ready : ∀ key ∈ others, Ready setup base request)
    (courses : Courses setup base request
      ((others.zipIdx place).map fun (key, index) => ⟨index, key, work⟩) s.database os last) :
    ∃ t, GetsEach setup request.table mutation options others s
        (os.map fun o => Report.ofOutcomes options.detail [o]) t ∧ t.database = last := by
  induction others generalizing place s os with
  | nil =>
    cases courses
    exact ⟨s, .nil s, rfl⟩
  | cons key rest ih =>
    cases courses with
    | @cons _ _ v os _ _ course courses =>
      have valid_key := valid key List.mem_cons_self
      have looked : (Target.keys request.table request.keyField
          (.get request.table key.toTerm)).exec setup s.tick = (.ok [key], s.tick) := by
        unfold Target.keys
        rw [exec_bind, exec_ofExcept, Target.validKey_toTerm valid_key]
        rfl
      -- The single request has its target in the first place.
      have single : Courses setup base request (Target.tasksOn work [key]) s.database
          [(v.placed 0).outcome] (s.database.follow request.table key.code (.ok v)) := by
        have placed := @Commit.courseFrom_placed setup base request ⟨place, key, work⟩ s.database 0
        rw [course] at placed
        exact .cons placed (.nil _)
      obtain ⟨t, came, database, after⟩ := Writer.execute_of_courses plan h beside rfl looked
        (List.forall_mem_singleton.2 valid_key) (List.nodup_singleton _)
        (fun task ht => ready key List.mem_cons_self) single
      have reported : Report.ofOutcomes options.detail [(v.placed 0).outcome] =
          Report.ofOutcomes options.detail [v.outcome] :=
        Report.ofOutcomes_congr (.cons ⟨0, rfl⟩ .nil)
      rw [reported] at came
      obtain ⟨u, each, ended⟩ := ih after (fun key hk => valid key (List.mem_cons_of_mem _ hk))
        (place + 1) (fun key hk => ready key (List.mem_cons_of_mem _ hk)) (database ▸ courses)
      exact ⟨u, .cons came each, ended⟩

/-! ## Documents that are there -/

namespace Commit

theorem not_settled_of_present (works : mutation.Works work) (own : task.work = work)
    {answer : Call → Except Failure Term} {old : Document} {o : DocumentOutcome} :
    proposal answer request task (some old) ≠ .ok (.settled o) := by
  intro h
  unfold proposal at h
  rw [own] at h
  cases works with
  | update patch =>
    obtain ⟨merged, -, h⟩ := exists_of_bind_ok h
    obtain ⟨d, -, h⟩ := exists_of_bind_ok h
    obtain ⟨_, -, h⟩ := exists_of_bind_ok h
    cases h
  | delete => cases h

/-- A document that is there is not judged to be skipped. -/
theorem not_skipped_of_judge (works : mutation.Works work) (own : task.work = work)
    {calls : List Call} {old : Document} {v : Verdict}
    (h : judge setup calls request task (some old) = .ok v) : v.outcome.kind ≠ .skipped := by
  rcases judge_eq_ok h with ⟨outcome, proposed, rfl⟩ | ⟨candidate, final, -, -, rfl⟩
  · exact absurd proposed (not_settled_of_present works own)
  · cases final with
    | none => exact fun h => nomatch h
    | some d =>
      unfold verdict
      dsimp only
      split <;> exact fun h => nomatch h

/-- What is judged fails as a document does, or for a number out of range. -/
theorem judge_arises (hk : task.key.isKey = true) {calls : List Call} {f : Failure}
    (h : judge setup calls request task (db.find? request.table task.key.code) = .error f) :
    f.Arises setup request.options.conflict [] := by
  let s : StoreState := { StoreState.empty with database := db, calls := calls }
  have landed := @decide_lands setup s request task hk _ rfl
  rw [Ensures, exec_decide_judge, show judge setup s.calls request task _ = .error f from h]
    at landed
  exact landed

/-- A document that is there is not skipped. -/
theorem not_skipped_of_courseFrom (works : mutation.Works work) (own : task.work = work)
    (hk : task.key.isKey = true) (builtin : request.options.conflict = .builtin .error)
    (present : (db.find? request.table task.key.code).isSome = true) {v : Verdict}
    (course : courseFrom setup base request task db = .ok v) : v.outcome.kind ≠ .skipped := by
  obtain ⟨old, found⟩ := Option.isSome_iff_exists.1 present
  unfold courseFrom pureCourse Commit.course at course
  split at course
  · cases course
    exact fun h => nomatch h
  · unfold ended at course
    split at course
    · rename_i f judged
      obtain ⟨o, settled, rfl⟩ := exists_of_map_ok course
      have arises : f.reported.Arises setup request.options.conflict [] :=
        .reported (judge_arises hk judged)
      rcases of_settled settled with ⟨kind, -⟩ | rfl
      · refine absurd kind (arises.kind_ne_targetNotFound (List.forall_mem_nil _) ?_)
        rintro _ ⟨p, _, _, own, _⟩
        cases builtin.symm.trans own
      · exact fun h => nomatch h
    · rename_i w judged
      rw [found] at judged
      split at course
      · cases course
        exact fun h => nomatch h
      · cases course
        exact not_skipped_of_judge works own judged

end Commit

/-! ## Selectors -/

namespace Writer

/-- Requests that come to the same reports, and leave the same databases with them. -/
def Agree (setup : Setup) (s : StoreState) (x y : Run WriteReport) : Prop :=
  ∀ report db, (∃ t, x.exec setup s = (.ok report, t) ∧ t.database = db) ↔
    ∃ t, y.exec setup s = (.ok report, t) ∧ t.database = db

/-- What is reported on the keys that are found for one selector is reported on them for another. -/
theorem execute_of_keys (works : mutation.Works work)
    (h : Predictable setup s selector.tableName work) (name : other.tableName = selector.tableName)
    {field : String} (hf : s.database.keyField? selector.tableName = some field)
    (first : ((Target.keys selector.tableName field selector).exec setup s.tick).1 = .ok found)
    (second : ((Target.keys selector.tableName field other).exec setup s.tick).1 = .ok found)
    {report : WriteReport}
    (came : (execute selector mutation options).exec setup s = (.ok report, t)) :
    ∃ u, (execute other mutation options).exec setup s = (.ok report, u) ∧
      u.database = t.database := by
  obtain ⟨request, own, p, os, plan, ready, courses, rfl⟩ := courses_of_execute works h came
  rw [← plan.table] at h hf first second name
  obtain rfl : field = request.keyField := Option.some.inj (hf.symm.trans plan.field)
  have same := plan.keys
  rw [Prod.ext_iff, first] at same
  cases same.1
  have selected := plan.selected h
  obtain ⟨u, came, database, -⟩ := execute_of_courses plan h
    ((refl s : Counted s s).beside h.locks) name (Prod.ext second rfl)
    (selected.isKey h.rows plan.own)
    (selected.nodup h.rows plan.own) ready courses
  exact ⟨u, came, database⟩

/-- Selectors for which the same keys are found agree. -/
theorem agree_of_keys (works : mutation.Works work)
    (h : Predictable setup s selector.tableName work) (name : other.tableName = selector.tableName)
    {field : String} (hf : s.database.keyField? selector.tableName = some field)
    (first : ((Target.keys selector.tableName field selector).exec setup s.tick).1 = .ok found)
    (second : ((Target.keys selector.tableName field other).exec setup s.tick).1 = .ok found) :
    Agree setup s (execute selector mutation options) (execute other mutation options) := by
  intro report db
  constructor
  · rintro ⟨t, came, rfl⟩
    exact execute_of_keys works h name hf first second came
  · rintro ⟨t, came, rfl⟩
    rw [← name] at h hf first second
    exact execute_of_keys works h name.symm hf second first came

/-- A selector that is no single key agrees with the list of the keys that it selects. -/
theorem agree_getAll (works : mutation.Works work)
    (h : Predictable setup s selector.tableName work)
    (single : ∀ table term, selector ≠ .get table term) {field : String}
    (hf : s.database.keyField? selector.tableName = some field)
    (looked : ((Target.keys selector.tableName field selector).exec setup s.tick).1 = .ok found) :
    Agree setup s (execute selector mutation options)
      (execute (.getAll selector.tableName (found.map Value.toTerm)) mutation options) := by
  have selected : Target.Selected setup s.database s.calls field selector found :=
    @Target.keys_selected setup s.tick h.pages h.rows selector.tableName field hf selector rfl found
      looked
  refine agree_of_keys works h rfl hf looked ?_
  have named := @Target.exec_keys_getAll setup s.tick selector.tableName field found
    h.orderly.tick h.rows selector.tableName (selected.isKey h.rows hf)
  rw [named, show s.tick.database = s.database from rfl, selected.named_eq h.rows hf single]

/-- A list of keys comes to what single requests come to, one for each document that it names, and
none of them is skipped. -/
theorem getAll_one_by_one (works : mutation.Works work) {table : String}
    (h : Predictable setup s table work) {keys : List Value} {report : WriteReport}
    (came : (execute (.getAll table (keys.map Value.toTerm)) mutation options).exec setup s =
      (.ok report, t)) :
    report.skipped = 0 ∧ ∃ reports last,
      GetsEach setup table mutation options (Target.named s.database table keys) s reports last ∧
        report = Report.combineAll options.detail reports ∧ t.database = last.database := by
  obtain ⟨request, found, p, os, plan, ready, courses, rfl⟩ := courses_of_execute works h came
  obtain rfl : request.table = table := plan.table
  have selected := plan.selected h
  have valid := selected.isKey h.rows plan.own
  have nodup := selected.nodup h.rows plan.own
  have present := selected.present h.rows plan.own fun _ _ h => nomatch h
  obtain rfl : Target.named s.database request.table keys = found := by
    have looked := @Target.exec_keys_getAll setup s.tick request.table request.keyField keys
      h.orderly.tick h.rows request.table (Target.isKey_of_presentKeys plan.keys)
    rw [plan.keys] at looked
    exact (Except.ok.inj looked).symm
  refine ⟨?_, ?_⟩
  · have started := courses.at_start s.database (by rwa [Target.map_code_tasksOn]) fun _ _ => rfl
    refine (Report.tally_ofOutcomes os .skipped).trans (List.countP_eq_zero.2 fun o ho => ?_)
    obtain ⟨task, ht, v, course, rfl⟩ := exists_of_forall₂ started ho
    obtain ⟨hk, own⟩ := Target.mem_tasksOn ht
    rw [decide_eq_true_eq]
    exact Commit.not_skipped_of_courseFrom works own (valid _ hk) plan.conflict (present _ hk)
      course
  · have ready : ∀ key ∈ Target.named s.database request.table keys, Ready setup s request := by
      intro key hk
      have listed : key.code ∈ (Target.tasksOn work (Target.named s.database request.table
          keys)).map fun task => task.key.code := by
        rw [Target.map_code_tasksOn]
        exact List.mem_map_of_mem hk
      obtain ⟨task, ht, -⟩ := List.mem_map.1 listed
      exact ready task ht
    obtain ⟨last, each, ended⟩ := courses.getsEach plan h
      ((refl s : Counted s s).beside h.locks) valid 0 ready
    exact ⟨_, last, each, (Report.combineAll_singletons os).symm, ended.symm⟩

end Writer

end Planning

namespace Writer

/-- Selectors agree. In every reachable store, an update or a deletion with pure functions that
comes to a report comes to the same one, and leaves the same documents, in whichever of these ways
its targets are selected: by a predicate, or by the keys of the documents that the predicate
selects, in the order of the scan; by the name of the table, or by all its keys; by a list of keys
in any spelling, or by single requests, one after the other, for the first of the keys of each
document that there is, whose reports are put together. A list of keys never has a target that is
skipped. -/
theorem selectors_agree {c : Console} (hc : c.Reachable) {setup : Setup}
    (pages : 0 < setup.pageSize) (faults : ∀ f ∈ c.state.faults, f.IsLasting)
    {table field : String} (hf : c.state.database.keyField? table = some field)
    (hook : ∀ h, Entries.find? c.state.hooks table = some h → setup.IsPure h)
    {mutation : Mutation Term} {work : Work} (works : mutation.Works work)
    (patch : ∀ patch f, work = .update patch → patch.callable? = some f → setup.IsPure f)
    (options : Options) :
    (∀ predicate docs u, (Store.select table predicate).exec setup c.state = (.ok docs, u) →
      Agree setup c.state (execute (.filter table predicate) mutation options)
        (execute (.getAll table (docs.map fun d => (d.fieldOrNull field).toTerm)) mutation
          options)) ∧
      (∀ keys u, (Store.keys table).exec setup c.state = (.ok keys, u) →
        Agree setup c.state (execute (.table table) mutation options)
          (execute (.getAll table (keys.map Value.toTerm)) mutation options)) ∧
      ∀ keys report t,
        (execute (.getAll table (keys.map Value.toTerm)) mutation options).exec setup c.state =
            (.ok report, t) →
          report.skipped = 0 ∧ ∃ reports last,
            GetsEach setup table mutation options (Target.named c.state.database table keys)
              c.state reports last ∧
            report = Report.combineAll options.detail reports ∧
              t.database = last.database := by
  have predictable : Predictable setup c.state table work :=
    ⟨pages, faults, hc.sound.locks, hc.sound.rows, hook, patch⟩
  refine ⟨fun predicate docs u shown => ?_, fun keys u listed => ?_, fun keys report t came =>
    getAll_one_by_one works predictable came⟩
  · have looked := Target.exec_keys_filter pages predictable.orderly predictable.rows hf shown table
    have agree := @agree_getAll setup c.state (.filter table predicate) mutation work options _
      works predictable (fun _ _ h => nomatch h) field hf looked
    rw [List.map_map] at agree
    exact agree
  · have looked := Target.exec_keys_whole pages predictable.orderly predictable.rows hf listed table
    exact @agree_getAll setup c.state (.table table) mutation work options keys works predictable
      (fun _ _ h => nomatch h) field hf looked

/-- A list of keys that names two documents in several spellings, and one that is not there. -/
def spellings : List Value :=
  [.scalar (.number (.float (Binary64.ofDecimal false 2 0))), .scalar (.number (.int 7)),
    .scalar (.number (.int 1)), .scalar (.number (.int 2))]

/-- In a small store with a hook one document is selected by its name, and two are named by keys.
They are marked in one request or in two. -/
theorem selectors_agree_spellings : ∃ docs u report t reports last,
    (Store.select "people" (.mapping [(.text "name", .text "eve")])).exec .echo
      Console.people.state = (.ok docs, u) ∧ docs.length = 1 ∧
    Agree .echo Console.people.state
      (execute (.filter "people" (.mapping [(.text "name", .text "eve")]))
        (.update (.mapping [(.text "seen", .int 1)])) ⟨.builtin .error, .hard, .bool true⟩)
      (execute (.getAll "people" (docs.map fun d => (d.fieldOrNull "id").toTerm))
        (.update (.mapping [(.text "seen", .int 1)])) ⟨.builtin .error, .hard, .bool true⟩) ∧
    (execute (.getAll "people" (spellings.map Value.toTerm))
      (.update (.mapping [(.text "seen", .int 1)])) ⟨.builtin .error, .hard, .bool true⟩).exec
        .echo Console.people.state = (.ok report, t) ∧ report.skipped = 0 ∧
    GetsEach .echo "people" (.update (.mapping [(.text "seen", .int 1)]))
      ⟨.builtin .error, .hard, .bool true⟩
      (Target.named Console.people.state.database "people" spellings) Console.people.state reports
      last ∧
    (Target.named Console.people.state.database "people" spellings).map Value.code = ["2", "1"] ∧
    report = Report.combineAll .written reports ∧ t.database = last.database := by
  obtain ⟨scanned, -, listed⟩ := @selectors_agree Console.people Console.reachable_people .echo
    (by decide) (fun f hf => nomatch Console.faults_people ▸ hf) "people" "id" (by decide +kernel)
    (fun _ _ _ _ _ => rfl) _ _ (.update (.mapping [(.text "seen", .int 1)]))
    (fun _ _ _ _ _ _ _ => rfl) ⟨.builtin .error, .hard, .bool true⟩
  have one : (match (Store.select "people" (.mapping [(.text "name", .text "eve")])).exec .echo
      Console.people.state with
    | (.ok docs, _) => docs.length
    | (.error _, _) => 0) = 1 := by decide +kernel
  have came : (processed? .echo Console.people.state
      (.getAll "people" (spellings.map Value.toTerm))
      (.update (.mapping [(.text "seen", .int 1)]))
      ⟨.builtin .error, .hard, .bool true⟩).isSome = true := by decide +kernel
  generalize shown : (Store.select _ _).exec _ _ = ended at one ⊢
  obtain ⟨f | docs, u⟩ := ended
  · cases one
  · obtain ⟨⟨found, p⟩, came⟩ := Option.isSome_iff_exists.1 came
    obtain ⟨-, t, came, -⟩ := execute_of_processed? came
    obtain ⟨skipped, reports, last, each, combined, database⟩ := listed _ _ t came
    exact ⟨docs, u, _, t, reports, last, rfl, one, scanned _ docs u shown, came, skipped, each,
      by decide +kernel, combined, database⟩

end Writer

end Folio
