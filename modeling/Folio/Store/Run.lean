import Folio.Config
import Folio.Store.Database
import Folio.Store.Locks
import Folio.Store.Metrics
/-!
# Running against a store

A computation on a store reads a setup, changes the store's state, and answers or fails. The
state survives a failure; what a failure undoes is undone by transactions alone. Each call of a
function of the caller is logged, and the function may answer by all the calls so far. Injected
faults make single operations fail.
-/

namespace Folio

/-- The operations at which faults can be injected. -/
inductive FaultPoint where
  /-- Locking a key for a write. -/
  | locked
  /-- Reading the document of a locked key. -/
  | read
  /-- Writing the document of a locked key. -/
  | write
  /-- Recording the metrics of a request. -/
  | metrics
  /-- Recording whether a lock was had, and after which time. -/
  | lockMetrics
  /-- Connecting to the database, and beginning a transaction. -/
  | connect
  /-- Committing a transaction. -/
  | commit
  | fetch
  | fetchPage
  | put
  | addTable
  | removeTable
  | tableNames
  | keyField
  deriving DecidableEq

/-- An injected fault: where it strikes, for which key if for one only, at which of the operations
so far, what it raises, and whether the operation is done first. -/
structure Fault where
  point : FaultPoint
  key : Option Term
  due : Nat → Bool
  kind : ErrorKind
  message : String
  after : Bool

/-- A call of a function with its arguments. -/
structure Call where
  function : FunctionRef
  arguments : List Term

/-- The state of a store. -/
structure StoreState where
  database : Database
  hooks : Entries String FunctionRef
  locks : LockTable
  metrics : Metrics
  faults : List Fault
  /-- The number of operations so far at which faults can strike. -/
  operations : Nat
  /-- The calls of functions so far, in order. -/
  calls : List Call
  /-- The number of keys generated so far. -/
  generated : Nat

/-- What a store is run with: its settings, the size of the pages of a scan, the functions of the
caller, which know the calls before and the one that they answer, and the source of new keys. What a
function does to its arguments stays with it: it is handed copies of the documents, and leaves alone
what these share with the originals. -/
structure Setup where
  config : Config
  pageSize : Nat
  functions : List Call → FunctionRef → List Term → Except Failure Term
  freshKey : Nat → String

/-- A computation on a store. -/
abbrev Run := ReaderT Setup (ExceptT Failure (StateM StoreState))

namespace StoreState

/-- A store without tables. -/
def empty : StoreState := ⟨.empty, [], .empty, [], [], 0, [], 0⟩

/-- Counts an operation. -/
def tick (s : StoreState) : StoreState := { s with operations := s.operations + 1 }

@[simp] theorem tick_database (s : StoreState) : s.tick.database = s.database := rfl

end StoreState

namespace Fault

/-- What the fault raises. -/
def failure (f : Fault) : Failure := .raised f.kind f.message

/-- Whether the fault strikes an operation on a key, by its number. -/
def strikes (f : Fault) (point : FaultPoint) (key : Option Term) (operation : Nat) : Bool :=
  f.point == point && f.due operation &&
    match f.key, key with
    | none, _ => true
    | some wanted, some key => wanted.equal key
    | some _, none => false

end Fault

/-- What the first fault raises that strikes an operation, by its number. -/
def StoreState.strike? (s : StoreState) (point : FaultPoint) (key : Option Term)
    (operation : Nat) : Option Failure :=
  (s.faults.find? fun f => f.strikes point key operation).map Fault.failure

namespace Run

variable {α : Type}

/-- The outcome of a computation that starts in a state, and the state after it. -/
def exec (x : Run α) (setup : Setup) (s : StoreState) : Except Failure α × StoreState :=
  ((x setup).run).run s

/-- Runs a computation to its end, failed or not. -/
def attempt (x : Run α) : Run (Except Failure α) := fun setup =>
  ExceptT.mk do
    let result ← (x setup).run
    return .ok result

/-- The answer or failure of a finished computation. -/
def ofExcept : Except Failure α → Run α
  | .ok a => pure a
  | .error f => throw f

/-- Calls a function and logs the call. -/
def call (f : FunctionRef) (arguments : List Term) : Run (Except Failure Term) := do
  let calls := (← get).calls ++ [⟨f, arguments⟩]
  modify fun s => { s with calls }
  return (← read).functions calls f arguments

/-- A key that was not used before. -/
def freshKey : Run String := do
  let s ← get
  set { s with generated := s.generated + 1 }
  return (← read).freshKey s.generated

/-- Counts an event. -/
def observe (sample : Sample) : Run Unit :=
  modify fun s => { s with metrics := s.metrics.observe sample }

/-- Runs an operation at which a fault may strike. The first fault that does decides. -/
def faulty (point : FaultPoint) (key : Option Term) (operation : Run α) : Run α := do
  let s ← get
  set s.tick
  match s.faults.find? fun f => f.strikes point key s.operations with
  | none => operation
  | some f =>
    if f.after then let _ ← operation
    throw f.failure

/-- Comes to a point between two operations at which a fault may strike, instead of what follows. It
has the number of the operation to come. -/
def reach (point : FaultPoint) (key : Option Term) : Run Unit := do
  let s ← get
  match s.strike? point key s.operations with
  | none => return ()
  | some f => throw f

/-- Puts a database back. -/
def restore (db : Database) : Run Unit := modify fun s => { s with database := db }

/-- Commits what a computation wrote, if its answer is to be committed. -/
def committing (commits : α → Bool) (body : Run α) : Run α := do
  let a ← body
  if commits a then reach .commit none
  return a

/-- Runs a computation as one transaction on the database. What it wrote stays if it answers
with something that is to be committed; otherwise the database is as before. A transaction that
cannot be committed has written nothing, and neither undoing a transaction nor closing its
connection fails. -/
def transaction (commits : α → Bool) (body : Run α) : Run α := do
  reach .connect none
  let before := (← get).database
  match ← attempt (committing commits body) with
  | .ok a =>
    if !commits a then restore before
    return a
  | .error f =>
    restore before
    throw f

/-- Reports a failure of the database as one of transport. -/
def reporting (x : Run α) : Run α := do
  match ← attempt x with
  | .ok a => return a
  | .error f => throw f.reported

/-- Runs a computation as a transaction that every answer commits. -/
def session (body : Run α) : Run α := reporting (transaction (fun _ => true) body)

/-! ## What computations do to a state -/

variable {β : Type} (setup : Setup) (s : StoreState)

@[simp] theorem exec_pure (a : α) : exec (pure a) setup s = (.ok a, s) := rfl

@[simp] theorem exec_throw (f : Failure) : exec (throw f : Run α) setup s = (.error f, s) := rfl

@[simp] theorem exec_get : exec (get : Run StoreState) setup s = (.ok s, s) := rfl

@[simp] theorem exec_read : exec (read : Run Setup) setup s = (.ok setup, s) := rfl

@[simp] theorem exec_modify (change : StoreState → StoreState) :
    exec (modify change : Run Unit) setup s = (.ok (), change s) := rfl

theorem exec_bind (x : Run α) (next : α → Run β) :
    exec (x >>= next) setup s = match exec x setup s with
      | (.ok a, t) => exec (next a) setup t
      | (.error f, t) => (.error f, t) := by
  simp only [exec, bind, ReaderT.bind, ExceptT.bind, ExceptT.run, ExceptT.mk, StateT.bind,
    StateT.run]
  rcases x setup s with ⟨r, t⟩
  cases r <;> rfl

@[simp] theorem exec_ofExcept (r : Except Failure α) : exec (ofExcept r) setup s = (r, s) := by
  cases r <;> rfl

@[simp] theorem exec_attempt (x : Run α) :
    exec (attempt x) setup s = (.ok (exec x setup s).1, (exec x setup s).2) := rfl

@[simp] theorem exec_reach (point : FaultPoint) (key : Option Term) :
    exec (reach point key) setup s =
      (match s.strike? point key s.operations with
        | none => .ok ()
        | some f => .error f, s) := by
  unfold reach
  simp only [exec_bind, exec_get]
  cases s.strike? point key s.operations <;> rfl

/-- What is to be committed is, unless a fault strikes. -/
theorem exec_committing (commits : α → Bool) (body : Run α) :
    exec (committing commits body) setup s = match exec body setup s with
      | (.ok a, t) =>
        match if commits a then t.strike? .commit none t.operations else none with
        | none => (.ok a, t)
        | some f => (.error f, t)
      | (.error f, t) => (.error f, t) := by
  unfold committing
  rw [exec_bind]
  rcases exec body setup s with ⟨f | a, t⟩
  · rfl
  · cases hc : commits a with
    | false =>
      simp only [hc]
      rfl
    | true =>
      simp only [hc, if_true, exec_bind, exec_reach]
      cases t.strike? .commit none t.operations <;> rfl

/-- A transaction keeps the database of an answer that is committed, and nothing else of what
was done to the database. -/
theorem exec_transaction (commits : α → Bool) (body : Run α) :
    exec (transaction commits body) setup s = match s.strike? .connect none s.operations with
      | some f => (.error f, s)
      | none =>
        match exec (committing commits body) setup s with
        | (.ok a, t) => (.ok a, if commits a then t else { t with database := s.database })
        | (.error f, t) => (.error f, { t with database := s.database }) := by
  unfold transaction
  simp only [exec_bind, exec_reach, exec_get, exec_attempt]
  cases s.strike? .connect none s.operations with
  | some f => rfl
  | none =>
    dsimp only
    rcases exec (committing commits body) setup s with ⟨r, t⟩
    cases r with
    | ok a =>
      cases hc : commits a
      · simp only [hc]
        rfl
      · simp only [hc]
        rfl
    | error f => rfl

end Run

end Folio
