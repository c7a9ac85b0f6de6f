import Folio.Proofs.Operating
import Folio.Proofs.Reachability
/-!
# What is counted is not looked at

Without its counts, and without the faults that strike when a request is counted, a store does the
same. A computation is *blind* if it comes to the same from stores that are the same but for these,
and leaves stores that are. All that reads a store, writes to it and processes requests is blind,
although a fault may strike a request when it is counted. Only the counts themselves tell such
stores apart. Main statement: a session is answered as it is without the faults of counting, and
leaves the same documents, hooks, locks, holds and scans.
-/

namespace Folio

open Run StoreState

/-- Whether the fault strikes when a request is counted. -/
def Fault.isOfMetrics (f : Fault) : Bool := f.point == .metrics

/-- A state without counts and without faults of counting. -/
def StoreState.unmetered (s : StoreState) : StoreState :=
  { s with metrics := [], faults := s.faults.filter fun f => !f.isOfMetrics }

/-- What is seen of a state without its counts is the same of states that are the same without
them. -/
theorem StoreState.eq_of_unmetered {s t : StoreState} {β : Type} (seen : StoreState → β)
    (own : ∀ s, seen s.unmetered = seen s) (same : s.unmetered = t.unmetered) : seen s = seen t := by
  rw [← own s, same, own t]

/-- A computation comes to the same from states that are the same without their counts and the
faults of counting, and leaves states that are. -/
def Run.Blind {α : Type} (x : Run α) : Prop :=
  ∀ setup s t, s.unmetered = t.unmetered →
    (x.exec setup s).1 = (x.exec setup t).1 ∧
      (x.exec setup s).2.unmetered = (x.exec setup t).2.unmetered

variable {α β : Type} {setup : Setup} {s t : StoreState}

/-- A fault of counting strikes no other operation. -/
theorem StoreState.find?_faults {point : FaultPoint} (other : point ≠ .metrics)
    (key : Option Term) (n : Nat) :
    s.faults.find? (fun f => f.strikes point key n) =
      s.unmetered.faults.find? fun f => f.strikes point key n := by
  rw [unmetered, List.find?_filter]
  congr 1
  funext f
  -- A fault that is filtered out is one of counting, and strikes at no other point.
  by_cases here : f.point = point
  · have : f.isOfMetrics = false := by
      rw [Fault.isOfMetrics, here]
      exact beq_false_of_ne other
    simp [this]
  · simp [Fault.strikes, here]

namespace Run

theorem blind_pure (a : α) : Blind (pure a : Run α) := fun _ _ _ h => ⟨rfl, h⟩

theorem blind_throw (f : Failure) : Blind (throw f : Run α) := fun _ _ _ h => ⟨rfl, h⟩

theorem blind_modify {change : StoreState → StoreState}
    (own : ∀ s, change s.unmetered = (change s).unmetered) : Blind (modify change) :=
  fun _ s t same => ⟨rfl, show (change s).unmetered = (change t).unmetered by
    rw [← own, ← own, same]⟩

theorem Blind.get {next : StoreState → Run α} (own : ∀ s, next s.unmetered = next s)
    (h : ∀ s, Blind (next s)) : Blind (MonadState.get >>= next) := by
  intro setup s t same
  rw [exec_bind, exec_bind, exec_get, exec_get]
  dsimp only
  rw [eq_of_unmetered next own same]
  exact h t setup s t same

theorem Blind.bind {x : Run α} {next : α → Run β} (hx : Blind x) (hn : ∀ a, Blind (next a)) :
    Blind (x >>= next) := by
  intro setup s t h
  obtain ⟨same, after⟩ := hx setup s t h
  rw [exec_bind, exec_bind]
  generalize x.exec setup s = ended at same after
  generalize x.exec setup t = others at same after
  obtain ⟨r, u⟩ := ended
  obtain ⟨_, v⟩ := others
  cases same
  cases r with
  | error f => exact ⟨rfl, after⟩
  | ok a => exact hn a setup u v after

theorem Blind.read {next : Setup → Run α} (h : ∀ setup, Blind (next setup)) :
    Blind (MonadReader.read >>= next) := fun setup s t same => h setup setup s t same

theorem Blind.attempt {x : Run α} (h : Blind x) : Blind (attempt x) := fun setup s t same =>
  ⟨congrArg Except.ok (h setup s t same).1, (h setup s t same).2⟩

/-- No fault of counting strikes between other operations. -/
theorem blind_reach {point : FaultPoint} (key : Option Term) (other : point ≠ .metrics) :
    Blind (reach point key) := by
  intro setup s t same
  have struck : s.strike? point key s.operations = t.strike? point key t.operations := by
    unfold strike?
    rw [eq_of_unmetered operations (fun _ => rfl) same, find?_faults other, same,
      ← find?_faults other]
  rw [exec_reach, exec_reach, struck]
  exact ⟨rfl, same⟩

theorem blind_restore (db : Database) : Blind (restore db) := blind_modify fun _ => rfl

theorem Blind.committing {x : Run α} (h : Blind x) (commits : α → Bool) :
    Blind (committing commits x) := by
  refine h.bind fun a => ?_
  cases commits a with
  | true => exact (blind_reach none (by decide)).bind fun _ => blind_pure a
  | false => exact (blind_pure ()).bind fun _ => blind_pure a

theorem Blind.transaction {x : Run α} (h : Blind x) (commits : α → Bool) :
    Blind (transaction commits x) := by
  refine (blind_reach none (by decide)).bind fun _ => .get (fun _ => rfl) fun s =>
    (h.committing commits).attempt.bind fun r => ?_
  cases r with
  | error f => exact (blind_restore _).bind fun _ => blind_throw f
  | ok a =>
    dsimp only
    split
    · exact (blind_restore _).bind fun _ => blind_pure a
    · exact blind_pure a

theorem Blind.reporting {x : Run α} (h : Blind x) : Blind (reporting x) :=
  h.attempt.bind fun r => match r with
    | .ok _ => blind_pure _
    | .error _ => blind_throw _

/-- No fault of counting strikes elsewhere. -/
theorem Blind.faulty {x : Run α} {point : FaultPoint} (key : Option Term)
    (other : point ≠ .metrics) (h : Blind x) : Blind (faulty point key x) := by
  intro setup s t same
  have ticked : s.tick.unmetered = t.tick.unmetered := congrArg tick same
  have struck : s.faults.find? (fun f => f.strikes point key s.operations) =
      t.faults.find? fun f => f.strikes point key t.operations := by
    rw [eq_of_unmetered operations (fun _ => rfl) same, find?_faults other, same,
      ← find?_faults other]
  have struck_blind : ∀ f : Fault, Blind (do
      if f.after then let _ ← x
      throw f.failure : Run α) := by
    intro f
    cases f.after with
    | true => exact h.bind fun _ => blind_throw _
    | false => exact blind_throw _
  unfold Run.faulty
  rw [exec_bind, exec_bind, exec_get, exec_get]
  dsimp only
  rw [struck]
  cases t.faults.find? fun f => f.strikes point key t.operations with
  | none => exact h setup _ _ ticked
  | some f => exact struck_blind f setup _ _ ticked

theorem blind_call (f : FunctionRef) (arguments : List Term) : Blind (call f arguments) := by
  refine .get (fun _ => rfl) fun s => ?_
  refine Blind.bind (blind_modify ?_) fun _ => .read fun _ => blind_pure _
  exact fun _ => rfl

theorem blind_freshKey : Blind freshKey := fun setup _ _ same =>
  ⟨eq_of_unmetered (fun s => Except.ok (setup.freshKey s.generated)) (fun _ => rfl) same,
    congrArg (fun u => { u with generated := u.generated + 1 }) same⟩

end Run

/-! ## What is blind -/

theorem operating_blind : Operating fun _ x => Blind x where
  pure := blind_pure
  throw := blind_throw
  bind := .bind
  get _ h := .get (fun _ => rfl) fun s => h s.database s.hooks
  read := .read
  faulty key _ _ other h := h.faulty key other
  session h := (h.transaction _).reporting
  call _ _ := blind_call _ _
  freshKey := blind_freshKey
  strike key other h := h.faulty key other
  ask _ _ := blind_call _ _
  attempt := .attempt
  transaction commits h := h.transaction commits
  locks _ h := .get (fun _ => rfl) fun s => h s.locks
  update _ := blind_modify fun _ => rfl
  rehook _ := blind_modify fun _ => rfl

theorem Run.blind_observe (sample : Sample) : Blind (observe sample) := fun _ _ _ same =>
  ⟨rfl, same⟩

/-- A request is counted or not, and nothing else becomes of it. -/
theorem Writer.observeMutation_unmetered (table operation status : String) :
    Ensures setup s (observeMutation table operation status) fun r t =>
      r = .ok () ∧ t.unmetered = s.tick.unmetered := by
  refine Ensures.attempt (P := fun _ t => t.unmetered = s.tick.unmetered) ?_ fun _ _ h =>
    ensures_pure ⟨rfl, h⟩
  exact Ensures.faulty rfl (fun _ _ _ => rfl) fun _ _ _ _ _ _ h => h

namespace Store

theorem hold_blind (table : String) (key timeout : Term) : Blind (hold table key timeout) := by
  refine Blind.bind (Session.codeOf_browses operating_blind.toBrowsing key) fun code => ?_
  refine .get (fun _ => rfl) fun s => ?_
  generalize s.locks.checkOut (table, code) = out
  obtain ⟨object, locks⟩ := out
  refine Blind.bind (blind_modify ?_) fun _ => ?_
  · exact fun _ => rfl
  cases Timeout.check timeout with
  | error fault => exact blind_throw _
  | ok waits =>
    dsimp only
    cases locks.acquire? object with
    | none =>
      refine Blind.bind (blind_modify ?_) fun _ =>
        (blind_reach _ (by decide)).bind fun _ => blind_throw _
      exact fun _ => rfl
    | some taken =>
      refine Blind.bind (blind_modify ?_) fun _ =>
        (blind_reach _ (by decide)).bind fun _ => (blind_observe _).bind fun _ => blind_pure _
      exact fun _ => rfl

theorem release_blind (hold : Hold) : Blind (release hold) := blind_modify fun _ => rfl

theorem lockedWhen_blind {commits : α → Bool} {table : String} {key : Term} {body : Slot → Run α}
    (h : ∀ slot, Blind (body slot)) : Blind (lockedWhen commits table key body) := by
  refine Blind.bind (Blind.faulty _ (by decide) (blind_pure _)) fun _ => .read fun setup => ?_
  refine (hold_blind table key _).bind fun held => ?_
  exact ((h _).transaction commits).reporting.attempt.bind fun result =>
    (release_blind held).bind fun _ => operating_blind.ofExcept result

end Store

theorem working_blind : Working fun _ x => Blind x where
  pure := blind_pure
  bind := .bind
  observe := blind_observe
  mutation table operation status setup s t same := by
    obtain ⟨ended, here⟩ := @Writer.observeMutation_unmetered setup s table operation status
    obtain ⟨other, there⟩ := @Writer.observeMutation_unmetered setup t table operation status
    rw [ended, other, here, there]
    exact ⟨rfl, congrArg tick same⟩
  browses h := h _ operating_blind.toBrowsing
  attempt := .attempt
  hooks _ h := .get (fun _ => rfl) fun s => h s.hooks
  read := .read
  target request task := Store.lockedWhen_blind fun slot =>
    Commit.attempt_writes operating_blind.toWriting request task slot

/-- Every command is blind, but for the one that reads the counts. -/
theorem Command.run_blind {command : Command} (other : command ≠ .metrics) :
    Blind command.run := by
  cases command.runs with
  | submits _ _ run =>
    rw [run]
    exact Blind.bind (Submission.submit_works working_blind _) fun _ => blind_pure _
  | locks answer _ _ writes run =>
    rw [run]
    exact (Store.lockedWhen_blind (writes _ operating_blind.toWriting)).bind fun _ => blind_pure _
  | operates _ _ operates => exact operates _ operating_blind
  | addFault fault =>
    have added : ∀ u : StoreState, { u with faults := u.faults ++ [fault] : StoreState }.unmetered =
        { u.unmetered with
          faults := u.unmetered.faults ++ [fault].filter fun f => !f.isOfMetrics } := fun u => by
      simp [unmetered]
    refine Blind.bind (fun _ s t same => ⟨rfl, ?_⟩) fun _ => blind_pure _
    exact (added s).trans (same ▸ (added t).symm)
  | clearFaults => exact Blind.bind (blind_modify fun _ => rfl) fun _ => blind_pure _
  | metrics => exact absurd rfl other

/-! ## Sessions -/

namespace Entry

/-- Whether the entry adds a fault of counting. -/
def faultsMetrics : Entry → Bool
  | .command (.addFault fault) => fault.isOfMetrics
  | _ => false

/-- Whether the entry reads the counts. -/
def readsMetrics : Entry → Bool
  | .command .metrics => true
  | _ => false

/-- Whether the entry adds a fault of counting or reads the counts. -/
def isOfMetrics (entry : Entry) : Bool := entry.faultsMetrics || entry.readsMetrics

end Entry

namespace Console

/-- A console without counts, the faults of counting and the log of the last entry. -/
def unmetered (c : Console) : Console := { c with state := c.state.fresh.unmetered }

/-- The console after entries, each run with a setup of its own. -/
def play (c : Console) (moves : List (Setup × Entry)) : Console :=
  moves.foldl (fun c move => (c.step move.1 move.2).2) c

/-- The entries with what they are answered, in turn. -/
def record : Console → List (Setup × Entry) → List (Entry × Except Failure Answer)
  | _, [] => []
  | c, (setup, entry) :: rest =>
    (entry, (c.step setup entry).1) :: record (c.step setup entry).2 rest

/-- An entry is answered the same where only counts and faults of counting differ, unless it reads
the counts, and it leaves no other difference. -/
theorem execute_blind (same : s.unmetered = t.unmetered) (holds : Entries String Hold)
    (scans : Entries String (Option Cursor)) (entry : Entry) :
    (entry ≠ .command .metrics →
        (execute setup ⟨s, holds, scans⟩ entry).1 = (execute setup ⟨t, holds, scans⟩ entry).1) ∧
      (execute setup ⟨s, holds, scans⟩ entry).2.unmetered =
        (execute setup ⟨t, holds, scans⟩ entry).2.unmetered := by
  have kept : ∀ {u v : StoreState} holds scans, u.unmetered = v.unmetered →
      Console.unmetered ⟨u, holds, scans⟩ = Console.unmetered ⟨v, holds, scans⟩ :=
    fun holds scans h => congrArg (fun u => Console.mk u.fresh holds scans) h
  cases entry with
  | command command =>
    by_cases other : command = .metrics
    · subst other
      exact ⟨fun h => absurd rfl h, kept _ _ same⟩
    · obtain ⟨ended, after⟩ := Command.run_blind other setup s t same
      exact ⟨fun _ => ended, kept _ _ after⟩
  | openScan name table predicate => exact ⟨fun _ => rfl, kept _ _ same⟩
  | hold name table key timeout =>
    obtain ⟨ended, after⟩ := Store.hold_blind table key timeout setup s t same
    unfold execute run
    dsimp only
    generalize (Store.hold table key timeout).exec setup s = here at ended after
    generalize (Store.hold table key timeout).exec setup t = there at ended after
    obtain ⟨r, u⟩ := here
    obtain ⟨_, v⟩ := there
    cases ended
    cases r <;> exact ⟨fun _ => rfl, kept _ _ after⟩
  | release name =>
    unfold execute
    dsimp only
    cases Entries.find? holds name with
    | none => exact ⟨fun _ => rfl, kept _ _ same⟩
    | some hold => exact ⟨fun _ => rfl, kept _ _ (Store.release_blind hold setup s t same).2⟩
  | pull name count =>
    unfold execute
    dsimp only
    rcases Entries.find? scans name with _ | _ | cursor
    · exact ⟨fun _ => rfl, kept _ _ same⟩
    · exact ⟨fun _ => rfl, kept _ _ same⟩
    · obtain ⟨ended, after⟩ := pullMany_browses operating_blind.toBrowsing count cursor setup s t same
      unfold run
      dsimp only
      generalize (pullMany count cursor).exec setup s = here at ended after
      generalize (pullMany count cursor).exec setup t = there at ended after
      obtain ⟨r, u⟩ := here
      obtain ⟨_, v⟩ := there
      cases ended
      cases r <;> exact ⟨fun _ => rfl, kept _ _ after⟩

variable {c d : Console}

theorem step_blind (same : c.unmetered = d.unmetered) (setup : Setup) (entry : Entry) :
    (entry ≠ .command .metrics → (c.step setup entry).1 = (d.step setup entry).1) ∧
      (c.step setup entry).2.unmetered = (d.step setup entry).2.unmetered := by
  obtain ⟨s, holds, scans⟩ := c
  obtain ⟨t, _, _⟩ := d
  cases congrArg Console.holds same
  cases congrArg Console.scans same
  exact execute_blind (congrArg Console.state same) holds scans entry

/-- To add a fault of counting changes nothing else. -/
theorem unmetered_step_of_faultsMetrics {entry : Entry} (h : entry.faultsMetrics = true)
    (setup : Setup) : (c.step setup entry).2.unmetered = c.unmetered := by
  unfold Entry.faultsMetrics at h
  split at h
  · rename_i fault
    have added : (c.state.faults ++ [fault]).filter (fun f => !f.isOfMetrics) =
        c.state.faults.filter fun f => !f.isOfMetrics := by
      simp [h]
    exact congrArg (fun faults => Console.mk { c.state.fresh.unmetered with faults } c.holds c.scans)
      added
  · cases h

/-- The faults of counting show in the counts only. -/
theorem record_blind (same : c.unmetered = d.unmetered) (moves : List (Setup × Entry)) :
    (c.record moves).filter (fun e => !e.1.isOfMetrics) =
        (d.record (moves.filter fun move => !move.2.faultsMetrics)).filter
          (fun e => !e.1.isOfMetrics) ∧
      (c.play moves).unmetered =
        (d.play (moves.filter fun move => !move.2.faultsMetrics)).unmetered := by
  induction moves generalizing c d with
  | nil => exact ⟨rfl, same⟩
  | cons move rest ih =>
    obtain ⟨setup, entry⟩ := move
    rw [record]
    cases faults : entry.faultsMetrics with
    | true =>
      -- The entry is made in one of the sessions only, and is left out of its record.
      rw [List.filter_cons_of_neg (by simp [Entry.isOfMetrics, faults]),
        List.filter_cons_of_neg (by simp [faults])]
      exact ih ((unmetered_step_of_faultsMetrics faults setup).trans same)
    | false =>
      obtain ⟨answered, after⟩ := step_blind same setup entry
      obtain ⟨records, left⟩ := ih after
      have kept : ((setup, entry) :: rest).filter (fun move => !move.2.faultsMetrics) =
          (setup, entry) :: rest.filter fun move => !move.2.faultsMetrics :=
        List.filter_cons_of_pos (by simp [faults])
      rw [kept, record]
      refine ⟨?_, left⟩
      cases reads : entry.readsMetrics with
      | true =>
        -- The counts may differ, and are left out of both records.
        rw [List.filter_cons_of_neg (by simp [Entry.isOfMetrics, reads]),
          List.filter_cons_of_neg (by simp [Entry.isOfMetrics, reads])]
        exact records
      | false =>
        have other : entry ≠ .command .metrics := by
          rintro rfl
          cases reads
        rw [List.filter_cons_of_pos (by simp [Entry.isOfMetrics, faults, reads]),
          List.filter_cons_of_pos (by simp [Entry.isOfMetrics, faults, reads]), answered other,
          records]

end Console

end Folio
