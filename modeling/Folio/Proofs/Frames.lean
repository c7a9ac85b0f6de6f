import Folio.Proofs.Running
import Folio.Writer.Writer
/-!
# What requests leave alone

Planning a request browses: it reads, calls functions with one document each and generates keys.
What holds of such steps holds of a plan. The work on a locked document writes besides, and a request
counts what became of it; each of these is a property of computations that is closed under the steps
in question. Processing the targets of a request is steady: hooks and faults stay as they are, and
the locks are sound afterwards.
-/

namespace Folio

open Run StoreState

variable {α : Type} {R : StoreState → StoreState → Prop}

/-! ## Browsing -/

/-- A property of computations that holds of all those that browse a store: that read the database
and the hooks, call functions with one document each and generate keys, in sessions. No fault for
locked documents or for metrics strikes such a computation. -/
structure Browsing (P : ∀ α : Type, Run α → Prop) : Prop where
  pure {α : Type} (a : α) : P α (pure a)
  throw {α : Type} (f : Failure) : P α (throw f)
  bind {α β : Type} {x : Run α} {next : α → Run β} :
    P α x → (∀ a, P β (next a)) → P β (x >>= next)
  get {α : Type} (next : Database → Entries String FunctionRef → Run α) :
    (∀ db hooks, P α (next db hooks)) → P α (get >>= fun s => next s.database s.hooks)
  read {α : Type} {next : Setup → Run α} : (∀ setup, P α (next setup)) → P α (read >>= next)
  faulty {α : Type} {x : Run α} {point : FaultPoint} (key : Option Term) :
    point ≠ .read → point ≠ .write → point ≠ .metrics → P α x → P α (faulty point key x)
  session {α : Type} {x : Run α} : P α x → P α (Run.session x)
  call (f : FunctionRef) (document : Term) : P _ (call f [document])
  freshKey : P _ freshKey

/-- What counting operations, logging calls and generating keys leave alone is left alone by all
that browses. -/
theorem browsing_moves [IsPreorder StoreState R] (tick : ∀ s, R s s.tick)
    (restored : ∀ s t : StoreState, R s t → R s { t with database := s.database })
    (call : ∀ f document, Moves R (call f [document])) (freshKey : Moves R freshKey) :
    Browsing fun _ x => Moves R x where
  pure _ := .pure
  throw _ := .throw
  bind := .bind
  get _ h := .get fun s => h s.database s.hooks
  read := .read
  faulty _ _ _ _ h := .faulty tick h
  session h := (h.transaction restored).reporting
  call := call
  freshKey := freshKey

theorem browsing_browsed : Browsing fun _ x => Moves Browsed x :=
  browsing_moves browsed_tick (fun _ _ h => h.restored) call_browsed freshKey_browsed

theorem browsing_quiet : Browsing fun _ x => Moves Quiet x :=
  browsing_moves quiet_tick (fun _ _ h => h.restored) (fun f document => call_quiet f [document])
    (freshKey_browsed.mono fun _ _ h => h.quiet)

section Browsing

variable {P : ∀ α : Type, Run α → Prop} (b : Browsing P)
include b

theorem Browsing.ofExcept {α : Type} (r : Except Failure α) : P α (.ofExcept r) := by
  cases r with
  | ok a => exact b.pure a
  | error f => exact b.throw f

/-- The state may be read as a whole, if only its database and its hooks are used. -/
theorem Browsing.get_of {α : Type} {next : StoreState → Run α}
    (same : ∀ s t, s.database = t.database → s.hooks = t.hooks → next s = next t)
    (h : ∀ s, P α (next s)) : P α (MonadState.get >>= next) := by
  have uses : next = fun s => next { StoreState.empty with
      database := s.database
      hooks := s.hooks } := funext fun s => same _ _ rfl rfl
  rw [uses]
  exact b.get (fun database hooks => next { StoreState.empty with database, hooks }) fun _ _ => h _

theorem Session.codeOf_browses (key : Term) : P _ (Session.codeOf key) := by
  unfold Session.codeOf
  split
  · exact b.pure _
  · exact b.throw _

theorem Session.fetch_browses (table : String) (key : Term) : P _ (Session.fetch table key) :=
  b.faulty _ (by decide) (by decide) (by decide) (b.bind (codeOf_browses b key) fun code =>
    b.get (fun db _ => pure (db.find? table code)) fun _ _ => b.pure _)

theorem Session.fetchPage_browses (table : String) (after : Nat) (limit : Option Nat) :
    P _ (Session.fetchPage table after limit) :=
  b.faulty _ (by decide) (by decide) (by decide)
    (b.get (fun db _ => pure (db.page table after limit)) fun _ _ => b.pure _)

theorem Session.keyField_browses (table : String) : P _ (Session.keyField table) :=
  b.faulty _ (by decide) (by decide) (by decide)
    (b.get (fun db _ => pure (db.keyField? table)) fun _ _ => b.pure _)

namespace Store

theorem keyField_browses (table : String) : P _ (keyField table) := by
  refine b.bind (b.session (Session.keyField_browses b table)) fun field => ?_
  cases field with
  | none => exact b.throw _
  | some field => exact b.pure _

theorem tableNames_browses : P _ tableNames :=
  b.session (b.faulty _ (by decide) (by decide) (by decide)
    (b.get (fun db _ => pure db.tableNames) fun _ _ => b.pure _))

theorem find?_browses (table : String) (key : Term) : P _ (find? table key) :=
  b.session (Session.fetch_browses b table key)

end Store

namespace Scan

theorem selects_browses (predicate document : Term) : P _ (selects predicate document) := by
  unfold selects
  split
  · exact b.bind (b.call _ _) fun _ => b.ofExcept _
  · exact b.ofExcept _

theorem firstSelected_browses (predicate : Term) (rows : List Row) :
    P _ (firstSelected predicate rows) := by
  induction rows with
  | nil => exact b.pure _
  | cons row rest ih =>
    refine b.bind (selects_browses b predicate row.body.toTerm) fun selected => ?_
    cases selected with
    | true => exact b.pure _
    | false => exact ih

theorem pullWithin_browses (pages : Nat) (c : Cursor) : P _ (pullWithin pages c) := by
  induction pages generalizing c with
  | zero => exact b.pure _
  | succ pages ih =>
    refine b.bind (firstSelected_browses b c.predicate c.pending) fun found => ?_
    cases found with
    | some found => exact b.pure _
    | none =>
      dsimp only
      split
      · refine b.read fun setup => ?_
        exact b.bind (b.session (Session.fetchPage_browses b _ _ _)) fun rows => ih _
      · exact b.pure _

end Scan

namespace Cursor

theorem pull_browses (c : Cursor) : P _ c.pull :=
  b.get (fun db _ => Scan.pullWithin (db.rows.length + 2) c) fun _ _ =>
    Scan.pullWithin_browses b _ c

theorem collectWithin_browses {α : Type} (readOff : Document → Except Failure α)
    (documents : Nat) (c : Cursor) : P _ (collectWithin readOff documents c) := by
  induction documents generalizing c with
  | zero => exact b.pure _
  | succ documents ih =>
    refine b.bind (pull_browses b c) fun found => ?_
    cases found with
    | none => exact b.pure _
    | some found => exact b.bind (b.ofExcept _) fun a => b.bind (ih found.2) fun rest => b.pure _

theorem collect_browses {α : Type} (readOff : Document → Except Failure α) (c : Cursor) :
    P _ (c.collect readOff) :=
  b.get (fun db _ => collectWithin readOff (db.rows.length + 1) c) fun _ _ =>
    collectWithin_browses b readOff _ c

end Cursor

theorem Store.keys_browses (table : String) : P _ (Store.keys table) :=
  b.bind (Store.keyField_browses b table) fun field =>
    Cursor.collect_browses b (Store.keyOf field) _

/-! ## Planning -/

namespace Target

theorem withKey_browses (field : String) (document : Document) :
    P _ (withKey field document) := by
  unfold withKey
  split
  · exact b.pure _
  · exact b.bind b.freshKey fun key => b.pure _

theorem insertTasks_browses (field : String) (index : Nat) (documents : List Document) :
    P _ (insertTasks field index documents) := by
  induction documents generalizing index with
  | nil => exact b.pure _
  | cons document rest ih =>
    refine b.bind (withKey_browses b field document) fun found => ?_
    dsimp only
    split
    · exact b.bind (b.throw _) fun _ => b.bind (ih (index + 1)) fun tasks => b.pure _
    · exact b.bind (ih (index + 1)) fun tasks => b.pure _

theorem presentKeys_browses (table : String) (seen : List String) (keys : List Term) :
    P _ (presentKeys table seen keys) := by
  induction keys generalizing seen with
  | nil => exact b.pure _
  | cons term rest ih =>
    refine b.bind (b.ofExcept _) fun key => ?_
    dsimp only
    split
    · exact ih seen
    · exact b.bind (Store.find?_browses b table term) fun document =>
        b.bind (ih _) fun keys => b.pure _

theorem keys_browses (table field : String) (selector : Selector Term) :
    P _ (keys table field selector) := by
  cases selector with
  | table name => exact Store.keys_browses b table
  | get name key => exact b.bind (b.ofExcept _) fun _ => b.pure _
  | getAll name keys => exact presentKeys_browses b table [] keys
  | filter name predicate => exact Cursor.collect_browses b _ _

theorem selectedTasks_browses (request : Request) (selector : Selector Term) (work : Work) :
    P _ (selectedTasks request selector work) :=
  b.bind (keys_browses b _ _ selector) fun _ => b.pure _

/-- Planning a request browses. -/
theorem tasks_browses (request : Request) (selector : Selector Term) (mutation : Mutation Term) :
    P _ (tasks request selector mutation) := by
  cases mutation with
  | insert payload =>
    cases selector with
    | table name => exact b.bind (b.ofExcept _) fun found => insertTasks_browses b _ _ _
    | _ => exact b.throw _
  | update patch =>
    exact b.bind (b.ofExcept _) fun _ => b.bind (b.ofExcept _) fun _ =>
      selectedTasks_browses b _ _ _
  | delete => exact b.bind (b.ofExcept _) fun _ => selectedTasks_browses b _ _ _

end Target

end Browsing

/-! ## Writing -/

/-- A property of computations that holds besides of all those that write: that call functions with
any arguments, attempt what may fail and undo it, look at the locks and change the database. No
fault for metrics strikes such a computation. -/
structure Writing (P : ∀ α : Type, Run α → Prop) : Prop extends Browsing P where
  strike {α : Type} {x : Run α} {point : FaultPoint} (key : Option Term) :
    point ≠ .metrics → P α x → P α (Run.faulty point key x)
  ask (f : FunctionRef) (arguments : List Term) : P _ (Run.call f arguments)
  attempt {α : Type} {x : Run α} : P α x → P _ (attempt x)
  transaction {α : Type} {x : Run α} (commits : α → Bool) : P α x → P α (transaction commits x)
  locks {α : Type} (next : LockTable → Run α) :
    (∀ locks, P α (next locks)) → P α (MonadState.get >>= fun s : StoreState => next s.locks)
  update (change : Database → Database) : P _ (Session.update change)

/-- What counting operations, logging calls, generating keys and changing the database leave alone
is left alone by all that writes. -/
theorem writing_moves [IsPreorder StoreState R] (tick : ∀ s, R s s.tick)
    (restored : ∀ s t : StoreState, R s t → R s { t with database := s.database })
    (call : ∀ f arguments, Moves R (call f arguments)) (freshKey : Moves R freshKey)
    (update : ∀ change, Moves R (Session.update change)) : Writing fun _ x => Moves R x where
  toBrowsing := browsing_moves tick restored (fun f document => call f [document]) freshKey
  strike _ _ h := .faulty tick h
  ask := call
  attempt := .attempt
  transaction _ h := h.transaction restored
  locks _ h := .get fun s => h s.locks
  update := update

theorem writing_written : Writing fun _ x => Moves Written x :=
  writing_moves written_tick (fun _ _ h => ⟨h.hooks, h.locks, h.faults⟩)
    (fun f arguments => (call_quiet f arguments).mono fun _ _ h => h.written)
    (freshKey_browsed.mono fun _ _ h => h.quiet.written) fun _ _ _ => ⟨rfl, rfl, rfl⟩

section Writing

variable {P : ∀ α : Type, Run α → Prop} (w : Writing P)
include w

theorem Session.put_writes (table : String) (key : Term) (document : Option Document) :
    P _ (Session.put table key document) := by
  refine w.strike _ (by decide) (w.bind (codeOf_browses w.toBrowsing key) fun code => ?_)
  cases document with
  | none =>
    exact w.get_of (fun s t db _ => by rw [db]) fun _ => w.bind (w.update _) fun _ => w.pure _
  | some body => exact w.bind (w.update _) fun _ => w.pure _

theorem Slot.read_writes (slot : Slot) : P _ slot.read :=
  w.strike _ (by decide) (Session.fetch_browses w.toBrowsing _ _)

theorem Slot.write_writes (slot : Slot) (document : Option Document) :
    P _ (slot.write document) :=
  w.strike _ (by decide) (w.bind (Session.put_writes w _ _ document) fun _ => w.pure _)

namespace Commit

theorem applyPatch_writes (existing patch : Term) : P _ (applyPatch existing patch) := by
  refine w.bind ?_ fun _ => w.pure _
  unfold evaluatePatch
  split
  · exact w.bind (w.ask _ _) fun _ => w.bind (w.ofExcept _) fun _ => w.ofExcept _
  · exact w.ofExcept _

theorem resolve_writes (policy : ConflictPolicy) (field : String) (key : Term)
    (existing : Option (List (Term × Term))) (incoming : Term) :
    P _ (resolve policy field key existing incoming) := by
  cases existing with
  | none => exact w.pure _
  | some old =>
    rcases policy with (_ | _ | _) | f | p
    · exact w.pure _
    · exact w.pure _
    · exact w.bind (applyPatch_writes w _ incoming) fun _ => w.pure _
    · exact w.bind (w.ask _ _) fun _ => w.pure _
    · exact w.bind (w.ask _ _) fun _ => w.pure _

theorem intercept_writes (hook : Option FunctionRef) (table field : String) (key : Term)
    (old new : Option Document) : P _ (intercept hook table field key old new) := by
  cases hook with
  | none => exact w.pure _
  | some f => exact w.bind (w.ask _ _) fun _ => w.ofExcept _

theorem commit_writes (request : Request) (slot : Slot) (task : Task)
    (existing candidate : Option Document) :
    P _ (commit request slot task existing candidate) := by
  refine w.bind (w.ofExcept _) fun _ => ?_
  refine w.bind (intercept_writes w _ _ _ _ existing candidate) fun final => ?_
  cases final with
  | none =>
    cases existing with
    | none => exact w.pure _
    | some old => exact w.bind (Slot.write_writes w slot none) fun _ => w.pure _
  | some d =>
    dsimp only
    split
    · exact w.pure _
    · exact w.bind (Slot.write_writes w slot _) fun _ => w.pure _

theorem decide_writes (request : Request) (slot : Slot) (task : Task)
    (existing : Option Document) : P _ (decide request slot task existing) := by
  unfold decide
  cases task.work with
  | insert document generated =>
    refine w.bind (resolve_writes w _ _ _ _ _) fun resolution => ?_
    cases resolution with
    | reject cause => exact w.throw _
    | keep => exact w.pure _
    | commit value => exact w.bind (w.ofExcept _) fun _ => commit_writes w _ _ _ _ _
  | update patch =>
    cases existing with
    | none => exact w.pure _
    | some old =>
      refine w.bind (applyPatch_writes w _ patch) fun patched => ?_
      exact w.bind (w.ofExcept _) fun _ => commit_writes w _ _ _ _ _
  | delete =>
    cases existing with
    | none => exact w.pure _
    | some old => exact commit_writes w _ _ _ _ _

/-- What is done with a locked target writes. -/
theorem attempt_writes (request : Request) (task : Task) (slot : Slot) : P _ (do
    let existing ← slot.read
    match ← Run.attempt (decide request slot task existing) with
    | .ok outcome => return Attempted.done outcome
    | .error cause => return Attempted.failed existing cause.reported) := by
  refine w.bind (Slot.read_writes w slot) fun existing => ?_
  refine w.bind (w.attempt (decide_writes w request slot task existing)) fun result => ?_
  cases result <;> exact w.pure _

end Commit

end Writing

/-! ## Working under a lock -/

theorem kept_of_quiet {x : Run α} (h : Moves Quiet x) : Moves Kept x := h.mono fun _ _ k => k.kept

theorem steady_of_kept {x : Run α} (h : Moves Kept x) : Moves Steady x :=
  h.mono fun _ _ k => k.steady

theorem steady_of_quiet {x : Run α} (h : Moves Quiet x) : Moves Steady x :=
  steady_of_kept (kept_of_quiet h)

theorem Slot.read_quiet (slot : Slot) : Moves Quiet slot.read :=
  .faulty quiet_tick (Session.fetch_browses browsing_quiet _ _)

namespace Store

/-- Locks stay sound when a key is to be locked, whether that succeeds or not. -/
theorem hold_kept (table : String) (key timeout : Term) : Moves Kept (hold table key timeout) := by
  intro setup s
  refine Ensures.bind (P := fun _ t => Quiet s t) (Q := fun _ t => Kept s t)
    (Session.codeOf_browses browsing_quiet key setup s) (fun code t hq => ?_)
    fun _ _ hq => hq.kept
  refine ensures_get ?_
  have sound : s.locks.Sound → (t.locks.checkOut (table, code)).2.Sound ∧
      (t.locks.checkOut (table, code)).1 < (t.locks.checkOut (table, code)).2.next := by
    intro h
    rw [hq.locks]
    exact h.checkOut _
  generalize t.locks.checkOut (table, code) = out at sound ⊢
  obtain ⟨object, locks⟩ := out
  refine ensures_modify ?_
  split
  · exact ⟨⟨hq.hooks, hq.faults, fun h => (sound h).1⟩, hq.database⟩
  · split
    · rename_i acquired ha
      have taken : s.locks.Sound → acquired.Sound := fun h => (sound h).1.acquire? (sound h).2 ha
      refine ensures_modify (ensures_reach (fun _ _ _ => ?_) ?_)
      · exact ⟨⟨hq.hooks, hq.faults, taken⟩, hq.database⟩
      · exact ⟨⟨hq.hooks, hq.faults, taken⟩, hq.database⟩
    · have returned : s.locks.Sound → (locks.checkIn (table, code)).Sound := fun h =>
        (sound h).1.checkIn _
      refine ensures_modify (ensures_reach (fun _ _ _ => ?_) ?_)
      · exact ⟨⟨hq.hooks, hq.faults, returned⟩, hq.database⟩
      · exact ⟨⟨hq.hooks, hq.faults, returned⟩, hq.database⟩

theorem release_kept (hold : Hold) : Moves Kept (release hold) := fun _ _ =>
  ⟨⟨rfl, rfl, fun h => h.finish hold⟩, rfl⟩

/-- What the work on a locked document leaves alone is left alone by all of it. -/
theorem lockedWhen_moves [IsPreorder StoreState R] {commits : α → Bool} {table : String}
    {key : Term} {body : Slot → Run α} (kept : ∀ s t, Kept s t → R s t)
    (restored : ∀ s t : StoreState, R s t → R s { t with database := s.database })
    (h : ∀ slot, Moves R (body slot)) : Moves R (lockedWhen commits table key body) := by
  refine Moves.bind (.faulty (fun s => kept s _ (quiet_tick s).kept) .pure) fun _ =>
    .read fun setup => ?_
  refine ((hold_kept table key _).mono kept).bind fun held => ?_
  have work : Moves R (Run.attempt (Run.reporting (Run.transaction commits
      (body ⟨table, key⟩)))) :=
    (((h _).transaction restored).reporting).attempt
  exact work.bind fun result => ((release_kept held).mono kept).bind fun _ => .ofExcept

theorem lockedWhen_steady {commits : α → Bool} {table : String} {key : Term}
    {body : Slot → Run α} (h : ∀ slot, Moves Steady (body slot)) :
    Moves Steady (lockedWhen commits table key body) :=
  lockedWhen_moves (fun _ _ k => k.steady) (fun _ _ k => k.restored) h

theorem locked_kept {table : String} {key : Term} {body : Slot → Run α}
    (h : ∀ slot, Moves Kept (body slot)) : Moves Kept (locked table key body) :=
  lockedWhen_moves (fun _ _ k => k) (fun _ _ k => k.restored) h

end Store

/-! ## Processing -/

/-- A property of computations that holds of all those that only count events, and requests, where a
fault may strike. -/
structure Counting (P : ∀ α : Type, Run α → Prop) : Prop where
  pure {α : Type} (a : α) : P α (pure a)
  bind {α β : Type} {x : Run α} {next : α → Run β} :
    P α x → (∀ a, P β (next a)) → P β (x >>= next)
  observe (sample : Sample) : P _ (observe sample)
  mutation (table operation status : String) : P _ (Writer.observeMutation table operation status)

theorem counting_moves [IsPreorder StoreState R] (tick : ∀ s, R s s.tick)
    (observe : ∀ sample, Moves R (observe sample)) : Counting fun _ x => Moves R x where
  pure _ := .pure
  bind := .bind
  observe := observe
  mutation _ _ _ := Moves.bind (Moves.attempt (.faulty tick
    ((observe _).bind fun _ => observe _))) fun _ => .pure

theorem counting_quiet : Counting fun _ x => Moves Quiet x :=
  counting_moves quiet_tick observe_quiet

/-- A property of computations that holds of all those that process targets: of what browses or
counts, of the attempt on a target under its lock, and of what is put together from such steps. -/
structure Working (P : ∀ α : Type, Run α → Prop) : Prop extends Counting P where
  browses {α : Type} {x : Run α} :
    (∀ Q : ∀ α : Type, Run α → Prop, Browsing Q → Q α x) → P α x
  attempt {α : Type} {x : Run α} : P α x → P _ (attempt x)
  hooks {α : Type} (next : Entries String FunctionRef → Run α) :
    (∀ hooks, P α (next hooks)) → P α (get >>= fun s => next s.hooks)
  read {α : Type} {next : Setup → Run α} : (∀ setup, P α (next setup)) → P α (read >>= next)
  target (request : Request) (task : Task) : P _ (Commit.attempt request task)

theorem working_steady : Working fun _ x => Moves Steady x where
  toCounting := counting_moves steady_tick fun sample => steady_of_quiet (observe_quiet sample)
  browses h := steady_of_quiet (h _ browsing_quiet)
  attempt := .attempt
  hooks _ h := .get fun s => h s.hooks
  read := .read
  target request task := Store.lockedWhen_steady fun slot =>
    (Commit.attempt_writes writing_written request task slot).mono fun _ _ k => k.steady

namespace Writer

section Counting

variable {P : ∀ α : Type, Run α → Prop} (c : Counting P)
include c

theorem observeOutcomes_counts (table operation : String) (outcomes : List DocumentOutcome) :
    P _ (observeOutcomes table operation outcomes) := by
  induction outcomes with
  | nil => exact c.pure _
  | cons outcome rest ih => exact c.bind (c.observe _) fun _ => ih

end Counting

end Writer

section Working

variable {P : ∀ α : Type, Run α → Prop} (w : Working P)
include w

theorem Commit.process_works (request : Request) (task : Task) : P _ (process request task) := by
  have settled : ∀ existing cause, P _ (Commit.settle task existing cause) := by
    intro existing cause
    unfold settle
    split
    · exact w.pure _
    · split
      · exact w.pure _
      · exact w.browses fun _ b => b.throw _
  refine w.bind (w.attempt (w.target request task)) fun result => ?_
  rcases result with cause | (outcome | ⟨existing, cause⟩)
  · exact settled none cause
  · exact w.pure _
  · exact settled existing cause

namespace Writer

theorem processAll_works (request : Request) (tasks : List Task) :
    P _ (processAll request tasks) := by
  induction tasks with
  | nil => exact w.pure _
  | cons task rest ih =>
    exact w.bind (Commit.process_works w request task) fun _ => w.bind ih fun _ => w.pure _

theorem processGroups_works (request : Request) (groups : List (List Task)) :
    P _ (processGroups request groups) := by
  induction groups with
  | nil => exact w.pure _
  | cons group rest ih =>
    exact w.bind (w.attempt (processAll_works w request group)) fun _ =>
      w.bind ih fun _ => w.pure _

theorem processTasks_works (request : Request) (tasks : List Task) :
    P _ (processTasks request tasks) := by
  refine w.read fun setup => ?_
  split
  · exact w.bind (processGroups_works w request _) fun _ =>
      w.browses fun _ b => b.bind (b.ofExcept _) fun _ => b.pure _
  · exact processAll_works w request _

end Writer

end Working

namespace Writer

theorem observeOutcomes_quiet (table operation : String) (outcomes : List DocumentOutcome) :
    Moves Quiet (observeOutcomes table operation outcomes) :=
  observeOutcomes_counts counting_quiet table operation outcomes

theorem observeMutation_quiet (table operation status : String) :
    Moves Quiet (observeMutation table operation status) :=
  counting_quiet.mutation table operation status

section Working

variable {P : ∀ α : Type, Run α → Prop} (w : Working P)
include w

theorem perform_works (selector : Selector Term) (mutation : Mutation Term) (options : Options) :
    P _ (perform selector mutation options) := by
  refine w.bind (w.browses fun _ b => Store.keyField_browses b _) fun field =>
    w.hooks (fun hooks => do
      let request : Request :=
        ⟨selector.tableName, field, options, Entries.find? hooks selector.tableName⟩
      let tasks ← Target.tasks request selector mutation
      let outcomes ← processTasks request tasks
      observeOutcomes selector.tableName mutation.operation (inOrder outcomes)
      return Report.ofOutcomes options.detail (inOrder outcomes)) fun hooks => ?_
  refine w.bind (w.browses fun _ b => Target.tasks_browses b _ selector mutation) fun tasks => ?_
  refine w.bind (processTasks_works w _ tasks) fun outcomes => ?_
  exact w.bind (observeOutcomes_counts w.toCounting _ _ _) fun _ => w.pure _

theorem execute_works (selector : Selector Term) (mutation : Mutation Term) (options : Options) :
    P _ (execute selector mutation options) := by
  refine w.bind (w.attempt (perform_works w selector mutation options)) fun result => ?_
  cases result with
  | ok report => exact w.bind (w.mutation _ _ _) fun _ => w.pure _
  | error cause => exact w.bind (w.mutation _ _ _) fun _ => w.browses fun _ b => b.throw _

theorem mutate_works (selector mutation : Term) (options : Options) :
    P _ (mutate selector mutation options) :=
  w.bind (w.browses fun _ b => b.ofExcept _) fun _ =>
    w.bind (w.browses fun _ b => b.ofExcept _) fun _ => execute_works w _ _ _

end Working

end Writer

/-- Processing a target leaves hooks and faults alone, and the locks sound. -/
theorem Commit.process_steady (request : Request) (task : Task) :
    Moves Steady (process request task) := process_works working_steady request task

namespace Writer

theorem processAll_steady (request : Request) (tasks : List Task) :
    Moves Steady (processAll request tasks) := processAll_works working_steady request tasks

/-- A request leaves hooks and faults alone, and the locks sound. -/
theorem mutate_steady (selector mutation : Term) (options : Options) :
    Moves Steady (mutate selector mutation options) :=
  mutate_works working_steady selector mutation options

end Writer

end Folio
