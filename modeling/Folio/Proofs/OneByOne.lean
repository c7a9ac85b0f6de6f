import Folio.Proofs.Inserting
import Folio.Proofs.Reachability
import Folio.Proofs.Reporting
import Folio.Proofs.Schedules
/-!
# Batches and single inserts

A batch of inserts comes to what its documents come to one after the other, each inserted by a
request of its own: to the same outcomes in the same places, the same documents and, put together,
the same report. It does so in every order of processing that keeps the order of the documents of
each key. What makes this true is that an insert is judged by the document under its key, by pure
functions, and by obstacles that last, and that whatever else processing changes does not matter.
-/

namespace Folio

open Run StoreState

/-- A fault that strikes locked documents, and that strikes always if it strikes once. -/
structure Fault.IsLasting (f : Fault) : Prop where
  slot : f.IsOfSlot
  due : ∀ m n, f.due m = f.due n

/-- All that inserts into a table go by is the same, but for the documents of the table and the
number of generated keys. -/
structure StoreState.Beside (table : String) (s t : StoreState) : Prop where
  hooks : t.hooks = s.hooks
  faults : t.faults = s.faults
  sound : t.locks.Sound
  held : ∀ identity, t.locks.isHeld identity = s.locks.isHeld identity
  tables : t.database.tables = s.database.tables
  others : ∀ other code, other ≠ table →
    t.database.find? other code = s.database.find? other code

/-- The documents of two states are the same. -/
def StoreState.SameDocuments (s t : StoreState) : Prop :=
  ∀ table code, t.database.find? table code = s.database.find? table code

section Processing

variable {setup : Setup} {s t u base : StoreState} {request : Request} {task : Task}
variable {table : String} {tasks order : List Task}

theorem StoreState.Beside.trans (h : Beside table s t) (k : Beside table t u) :
    Beside table s u where
  hooks := k.hooks.trans h.hooks
  faults := k.faults.trans h.faults
  sound := k.sound
  held identity := (k.held identity).trans (h.held identity)
  tables := k.tables.trans h.tables
  others other code ne := (k.others other code ne).trans (h.others other code ne)

theorem StoreState.Counted.beside (h : Counted s t) (sound : s.locks.Sound) : Beside table s t where
  hooks := h.hooks
  faults := h.faults
  sound := h.locks ▸ sound
  held _ := by rw [h.locks]
  tables := by rw [h.database]
  others _ _ _ := by rw [h.database]

/-- Lasting faults and held locks stand in the way of a key at any time. -/
theorem obstacles_eq (lasting : ∀ f ∈ s.faults, f.IsLasting) (h : Beside table s t) (key : Value) :
    t.obstacles setup table key = s.obstacles setup table key := by
  have strike : ∀ point k m n, t.strike? point k m = s.strike? point k n := by
    intro point k m n
    unfold strike?
    rw [h.faults, ← List.head?_filter, ← List.head?_filter]
    refine congrArg _ (congrArg _ (List.filter_congr fun f hf => ?_))
    unfold Fault.strikes
    rw [(lasting f hf).due m n]
  unfold obstacles
  rw [h.held, strike .read _ (t.operations + 1) (s.operations + 1),
    strike .write _ (t.operations + 3) (s.operations + 3)]

/-- The turn of an insert at the document of its key: it is judged, unless something stands in the
way of it. -/
def InsertTurn (setup : Setup) (base : StoreState) (request : Request) (task : Task)
    (existing : Option Document) (o : DocumentOutcome) (next : Option Document) : Prop :=
  ∃ v, Commit.course (base.obstacles setup request.table task.key) task existing
      (Commit.judge setup [] request task existing) = .ok v ∧
    o = v.outcome ∧ next = v.leaves existing

/-- The visit of an insert: an outcome and a turn. -/
def InsertVisit (setup : Setup) (base : StoreState) (request : Request) (task : Task)
    (s : StoreState) (r : Except Failure DocumentOutcome) (t : StoreState) : Prop :=
  ∃ o, r = .ok o ∧ IsTurn request.table (InsertTurn setup base request) task s o t

theorem InsertTurn.unique {d next next' : Option Document} {o o' : DocumentOutcome}
    (h : InsertTurn setup base request task d o next)
    (k : InsertTurn setup base request task d o' next') : o = o' ∧ next = next' := by
  obtain ⟨v, hv, rfl, rfl⟩ := h
  obtain ⟨w, hw, rfl, rfl⟩ := k
  rw [hv] at hw
  cases hw
  exact ⟨rfl, rfl⟩

/-- In another place an insert takes the same turn. -/
theorem InsertTurn.placed {d next : Option Document} {o : DocumentOutcome}
    (h : InsertTurn setup base request task d o next) (place : Nat) :
    InsertTurn setup base request (task.placed place) d { o with index := place } next := by
  obtain ⟨v, hv, rfl, rfl⟩ := h
  refine ⟨v.placed place, ?_, rfl, rfl⟩
  rw [Commit.judge_placed, Commit.course_placed, show (task.placed place).key = task.key from rfl,
    hv]
  rfl

/-- What a batch of inserts needs of the state: obstacles last, locks are sound, the functions that
may be asked are pure, and the policy refuses single documents only. -/
structure Ready (setup : Setup) (base : StoreState) (request : Request) : Prop where
  timeout : Timeout.check setup.config.lockTimeout = .ok ()
  faults : ∀ f ∈ base.faults, f.IsLasting
  locks : base.locks.Sound
  hook : ∀ h, request.hook = some h → setup.IsPure h
  conflict : ∀ f, request.options.conflict = .custom f → setup.IsPure f
  policy : ∀ p, request.options.conflict = .own p → setup.IsPure p
  tame : request.options.conflict.IsTame setup

theorem Ready.orderly (ready : Ready setup base request) (h : Beside table base s) : s.Orderly where
  faults f hf := (ready.faults f (h.faults ▸ hf)).slot
  locks := h.sound

/-- By pure functions a target is processed as on its course from the state at the start. -/
theorem process_beside (ready : Ready setup base request)
    (pure : Commit.AsksPure setup request task) (beside : Beside request.table base s) :
    Ensures setup s (Commit.process request task) fun r t =>
      (Beside request.table base t ∧ t.generated = s.generated) ∧
        r = (Commit.pureCourse setup request (base.obstacles setup request.table task.key) task
          (s.database.find? request.table task.key.code)).map Verdict.outcome ∧
        t.database = s.database.follow request.table task.key.code
          (Commit.pureCourse setup request (base.obstacles setup request.table task.key) task
            (s.database.find? request.table task.key.code)) := by
  have course : Commit.courseIn setup s request task =
      Commit.pureCourse setup request (base.obstacles setup request.table task.key) task
        (s.database.find? request.table task.key.code) := by
    simp only [Commit.courseIn, Commit.pureCourse]
    rw [obstacles_eq ready.faults beside, Commit.judge_congr pure s.calls []]
  refine (process_course (ready.orderly beside) ready.timeout).mono ?_
  rintro r t ⟨onward, ended, database, -⟩
  rw [course] at ended database
  refine ⟨⟨beside.trans ⟨onward.hooks, onward.faults, onward.sound, onward.held, ?_, ?_⟩,
    onward.generated⟩, ended, database⟩
  · rw [database, Database.tables_follow]
  · intro other code ne
    rw [database]
    exact Database.find?_follow_of_ne fun eq => absurd eq ne

/-- What a batch of inserts comes to: its outcomes, in visits of its targets. -/
def InsertsIn (setup : Setup) (base : StoreState) (request : Request) (order : List Task)
    (s : StoreState) (r : Except Failure (List DocumentOutcome)) (t : StoreState) : Prop :=
  (Beside request.table base t ∧ t.generated = s.generated) ∧ ∃ os, r = .ok os ∧
    Visits (InsertVisit setup base request) order s (os.map .ok) t

end Processing

/-! ## Single inserts -/

/-- Outcomes in places from one on. -/
def placedFrom (place : Nat) (os : List DocumentOutcome) : List DocumentOutcome :=
  (os.zipIdx place).map fun (o, index) => { o with index }

section Singles

variable {setup : Setup} {s t base : StoreState} {request : Request} {task : Task}
variable {selected conflict durability returnChanges item : Term} {options : Options}
variable {d : Document}

theorem Writer.insert_eq_execute {table : String}
    (target : Writer.target selected = .selector (.table table))
    (given : Writer.optionsOf conflict durability returnChanges = .ok options) (payload : Term) :
    Writer.insert selected payload conflict durability returnChanges =
      Writer.execute (.table table) (.insert payload) options := by
  unfold Writer.insert Writer.mutate
  rw [given, target]
  rfl

/-- The turn of a task depends on the database before and after alone. -/
theorem IsTurn.congr {table : String}
    {Turn : Task → Option Document → DocumentOutcome → Option Document → Prop} {u v : StoreState}
    {o : DocumentOutcome} (h : IsTurn table Turn task s o t) (before : u.database = s.database)
    (after : v.database = t.database) : IsTurn table Turn task u o v := by
  obtain ⟨outcome, turn, others⟩ := h
  rw [← before, ← after] at turn
  simp only [← before, ← after] at others
  exact ⟨outcome, turn, others⟩

end Singles

/-! ## Batches -/

theorem StoreState.SameDocuments.of_tables {s t : StoreState} {table : String}
    (own : ∀ code, t.database.find? table code = s.database.find? table code)
    (others : ∀ other code, other ≠ table →
      t.database.find? other code = s.database.find? other code) : SameDocuments s t := by
  intro other code
  by_cases h : other = table
  · subst h
    exact own code
  · exact others other code h

theorem map_index_placedFrom (place : Nat) (os : List DocumentOutcome) :
    (placedFrom place os).map Outcome.index = List.range' place os.length := by
  unfold placedFrom
  rw [List.map_map]
  exact List.zipIdx_map_snd place os

/-- Outcomes in places are in order. -/
theorem inOrder_placedFrom (place : Nat) (os : List DocumentOutcome) :
    Writer.inOrder (placedFrom place os) = placedFrom place os :=
  Writer.inOrder_of_places (map_index_placedFrom place os)

/-- Any schedule of a batch shares its tasks with the single inserts, key by key. -/
theorem InsertsIn.agrees {setup : Setup} {s t u last base : StoreState} {request : Request}
    {tasks order : List Task} {os found : List DocumentOutcome}
    (batch : InsertsIn setup base request order u (.ok found) t)
    (singles : Visits (InsertVisit setup base request) tasks s ((placedFrom 0 os).map .ok) last)
    (ended : Beside request.table base last)
    (start : ∀ code, u.database.find? request.table code = s.database.find? request.table code)
    (schedule : IsSchedule tasks order) (places : (tasks.map Task.index).Nodup) :
    Writer.inOrder found = placedFrom 0 os ∧ SameDocuments last t := by
  obtain ⟨⟨after, -⟩, _, ⟨⟩, visits⟩ := batch
  have turns : ∀ task s o t, InsertVisit setup base request task s (.ok o) t →
      IsTurn request.table (InsertTurn setup base request) task s o t := by
    rintro task s o t ⟨_, ⟨⟩, turn⟩
    exact turn
  have agree := singles.agree visits turns (fun _ _ _ _ _ _ _ => InsertTurn.unique) schedule start
    places
  refine ⟨agree.1.trans (inOrder_placedFrom 0 os), .of_tables agree.2 fun other code ne => ?_⟩
  rw [after.others other code ne, ended.others other code ne]

namespace Writer

open StoreState

end Writer

end Folio
