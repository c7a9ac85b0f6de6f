import Folio.Proofs.Soundness
/-!
# What operations leave alone

Tables and hooks are operated on by changing the database and the hooks, and nothing else of a
store. What holds of such changes, and of all that writes, holds of each of these operations and of
the actions on a locked document. So a command runs in one of few ways: it submits a request, works
on a document under its lock, or operates on the store, unless it is about faults or counts.
-/

namespace Folio

open Run StoreState

variable {R : StoreState → StoreState → Prop}

/-- A property of computations that holds of all those that write, or change the hooks. -/
structure Operating (P : ∀ α : Type, Run α → Prop) : Prop extends Writing P where
  rehook (change : Entries String FunctionRef → Entries String FunctionRef) :
    P _ (modify fun s : StoreState => { s with hooks := change s.hooks })

theorem operating_moves [IsPreorder StoreState R] (writing : Writing fun _ x => Moves R x)
    (rehook : ∀ (s : StoreState) hooks, R s { s with hooks }) :
    Operating fun _ x => Moves R x where
  toWriting := writing
  rehook _ _ s := rehook s _

variable {P : ∀ α : Type, Run α → Prop}

section Writing

variable (w : Writing P)
include w

theorem Command.actAll_writes (slot : Slot) (actions : List SlotAction) :
    P _ (actAll slot actions) := by
  induction actions with
  | nil => exact w.pure _
  | cons action rest ih =>
    refine w.bind ?_ fun _ => w.bind ih fun _ => w.pure _
    cases action with
    | read => exact w.bind (Slot.read_writes w slot) fun _ => w.pure _
    | write value =>
      exact w.bind (w.ofExcept _) fun _ => w.bind (Slot.write_writes w slot _) fun _ => w.pure _
    | locks => exact w.locks (fun locks => pure (Term.int locks.size)) fun _ => w.pure _
    | raise kind message => exact w.throw _

namespace Store

theorem createTable_writes (table keyField : Term) : P _ (createTable table keyField) := by
  have named : ∀ t, P _ (fieldName t) := by
    intro t
    unfold fieldName
    split <;> first | exact w.pure _ | exact w.throw _
  have added : ∀ name field, P _ (Session.addTable name field) := by
    intro name field
    refine w.strike _ (by decide) (w.get_of (fun s t db _ => by rw [db]) fun s => ?_)
    cases s.database.addTable? name field with
    | some next => exact w.update fun _ => next
    | none => exact w.throw _
  unfold createTable
  split
  · dsimp only
    split
    · exact w.throw _
    · refine w.read fun setup => w.bind (named _) fun field => ?_
      refine w.bind (w.attempt (w.transaction _ (added _ field))) fun result => ?_
      rcases result with f | ⟨⟩
      · dsimp only
        split <;> exact w.throw _
      · exact w.pure _
  · exact w.throw _

end Store

end Writing

section Operating

variable (o : Operating P)
include o

namespace Store

theorem dropTable_operates (table : String) : P _ (dropTable table) := by
  have removed : P _ (Session.removeTable table) :=
    o.strike _ (by decide) (o.get_of (fun s t db _ => by rw [db]) fun _ =>
      o.bind (o.update _) fun _ => o.pure _)
  refine o.bind (o.session removed) fun count => ?_
  dsimp only
  split
  · exact o.throw _
  · exact o.rehook fun hooks => Entries.erase hooks table

theorem setHook_operates (table : String) (hook : Term) : P _ (setHook table hook) := by
  refine o.bind (keyField_browses o.toBrowsing table) fun _ => ?_
  refine o.get_of (fun s t _ hooks => by simp only [hooks]) fun s => ?_
  dsimp only
  split
  · exact o.bind (o.rehook fun hooks => Entries.erase hooks table) fun _ => o.pure _
  · split
    · exact o.bind (o.rehook fun hooks => Entries.put hooks table _) fun _ => o.pure _
    · exact o.throw _

end Store

end Operating

/-! ## Commands -/

/-- The terms of a selector, of a mutation and of options, as they are submitted to the writer. -/
structure Submission where
  selector : Term
  mutation : Term
  conflict : Term
  durability : Term
  returnChanges : Term

/-- Submits the terms of a request. -/
def Submission.submit (terms : Submission) : Run WriteReport :=
  Writer.submit terms.selector terms.mutation terms.conflict terms.durability terms.returnChanges

theorem Submission.submit_works (w : Working P) (terms : Submission) : P _ terms.submit :=
  w.bind (w.browses fun _ b => b.ofExcept _) fun _ => Writer.mutate_works w _ _ _

namespace Command

/-- What a command submits, if it is a request of the writer. -/
def submission? : Command → Option Submission
  | .insert target payload conflict durability returnChanges =>
    some ⟨Writer.target target, .mutation (.insert payload), conflict, durability, returnChanges⟩
  | .update target patch durability returnChanges =>
    some ⟨Writer.target target, .mutation (.update patch), .text "error", durability, returnChanges⟩
  | .delete target durability returnChanges =>
    some ⟨Writer.target target, .mutation .delete, .text "error", durability, returnChanges⟩
  | .mutate selector mutation conflict durability returnChanges =>
    some ⟨selector, mutation, conflict, durability, returnChanges⟩
  | _ => none

/-- The document that a command works on under its lock. -/
def worksOn? : Command → Option Slot
  | .put table key _ => some ⟨table, key⟩
  | .locked table key _ => some ⟨table, key⟩
  | _ => none

/-- The ways in which commands run. -/
inductive Runs : Command → Prop
  | submits {command : Command} {terms : Submission} (asks : command.submission? = some terms)
      (free : command.worksOn? = none)
      (run : command.run = do return .report (← terms.submit)) : Runs command
  | locks {command : Command} {β : Type} {slot : Slot} {body : Slot → Run β} (answer : β → Answer)
      (asks : command.submission? = none) (works : command.worksOn? = some slot)
      (writes : ∀ P, Writing P → ∀ slot, P _ (body slot))
      (run : command.run = do return answer (← Store.locked slot.table slot.key body)) :
      Runs command
  | operates {command : Command} (asks : command.submission? = none)
      (free : command.worksOn? = none) (operates : ∀ P, Operating P → P _ command.run) :
      Runs command
  | addFault (fault : Fault) : Runs (.addFault fault)
  | clearFaults : Runs .clearFaults
  | metrics : Runs .metrics

/-- Every command runs in one of these ways. -/
theorem runs (command : Command) : command.Runs := by
  cases command with
  | create table field =>
    exact .operates rfl rfl fun _ o => o.bind (Store.createTable_writes o.toWriting table field)
      fun _ => o.pure _
  | drop table =>
    exact .operates rfl rfl fun _ o => o.bind (Store.dropTable_operates o table) fun _ => o.pure _
  | tables =>
    exact .operates rfl rfl fun _ o => o.bind (Store.tableNames_browses o.toBrowsing)
      fun _ => o.pure _
  | keyField table =>
    exact .operates rfl rfl fun _ o => o.bind (Store.keyField_browses o.toBrowsing table)
      fun _ => o.pure _
  | find table key =>
    exact .operates rfl rfl fun _ o => o.bind (Store.find?_browses o.toBrowsing table key)
      fun _ => o.pure _
  | scan table predicate =>
    exact .operates rfl rfl fun _ o => o.bind (Cursor.collect_browses o.toBrowsing _ _)
      fun _ => o.pure _
  | keys table =>
    exact .operates rfl rfl fun _ o => o.bind (Store.keys_browses o.toBrowsing table)
      fun _ => o.pure _
  | put table key value =>
    exact .locks (fun _ => .nothing) rfl rfl (fun _ w slot => w.bind (w.ofExcept _) fun _ =>
      Slot.write_writes w slot _) rfl
  | insert target payload conflict durability returnChanges => exact .submits rfl rfl rfl
  | update target patch durability returnChanges => exact .submits rfl rfl rfl
  | delete target durability returnChanges => exact .submits rfl rfl rfl
  | mutate selector mutation conflict durability returnChanges =>
    exact .submits rfl rfl (run_mutate ..)
  | setHook table hook =>
    exact .operates rfl rfl fun _ o => o.bind (Store.setHook_operates o table hook)
      fun _ => o.pure _
  | getHook table =>
    exact .operates rfl rfl fun _ o => o.bind (o.bind (Store.keyField_browses o.toBrowsing table)
      fun _ => o.get_of (fun _ _ _ hooks => by rw [hooks]) fun _ => o.pure _) fun _ => o.pure _
  | locks =>
    exact .operates rfl rfl fun _ o => o.locks (fun locks => pure (Answer.count locks.size))
      fun _ => o.pure _
  | locked table key actions =>
    exact .locks .actions rfl rfl (fun _ w slot => actAll_writes w slot actions) rfl
  | addFault fault => exact .addFault fault
  | clearFaults => exact .clearFaults
  | metrics => exact .metrics

end Command

end Folio
