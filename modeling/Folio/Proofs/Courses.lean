import Folio.Proofs.Landing
import Folio.Proofs.Verdicts
/-!
# The course of one target

What may stand in the way of a target is the lock of its key, which somebody else may hold, and a
database exception when its document is read or written. The course of a target follows from these
obstacles, from the verdict on its document and from nothing else. Main statement: processing a
target ends as its course does, writes what the course writes, calls what judging the target calls,
and leaves every other key as free or as held as it was.
-/

namespace Folio

open Run StoreState

/-! ## Obstacles -/

/-- A fault that strikes locked documents when they are read or written, as an exception of the
database. -/
def Fault.IsOfSlot (f : Fault) : Prop :=
  (f.point = .read ∨ f.point = .write) ∧ f.kind.isDatabase = true

/-- Only documents under their locks are struck by faults, and the locks are sound. -/
structure StoreState.Orderly (s : StoreState) : Prop where
  faults : ∀ f ∈ s.faults, f.IsOfSlot
  locks : s.locks.Sound

/-- What stands in the way of a target, as the failure that it is reported as. -/
structure Obstacles where
  lock : Option Failure
  read : Option Failure
  write : Option Failure

/-- The obstacle before the document is known. -/
def Obstacles.first (o : Obstacles) : Option Failure := o.lock.or o.read

/-- What stands in the way of a key's document at the start of its processing. Locking is the first
operation, reading the second, and when it is written the document was fetched in between. -/
def StoreState.obstacles (s : StoreState) (setup : Setup) (table : String) (key : Value) :
    Obstacles where
  lock := if s.locks.isHeld (table, key.code) then
    some (.lockTimeout table key.toTerm setup.config.lockTimeout) else none
  read := (s.strike? .read (some key.toTerm) (s.operations + 1)).map Failure.reported
  write := (s.strike? .write (some key.toTerm) (s.operations + 3)).map Failure.reported

/-- The database after what is to be written under a key was written. -/
def Database.enact (db : Database) (table code : String) :
    Option (Option Document) → Database
  | none => db
  | some (some d) => db.write table code d
  | some none => db.remove table code

/-- The database after a verdict, or after a failure. -/
def Database.follow (db : Database) (table code : String) : Except Failure Verdict → Database
  | .ok v => db.enact table code v.writes
  | .error _ => db

namespace Database

variable {db : Database} {table code : String} {course : Except Failure Verdict}

@[simp] theorem tables_enact (writes : Option (Option Document)) :
    (db.enact table code writes).tables = db.tables := by
  rcases writes with _ | _ | d
  · rfl
  · rfl
  · exact tables_write

theorem find?_enact_self (writes : Option (Option Document)) :
    (db.enact table code writes).find? table code = writes.getD (db.find? table code) := by
  rcases writes with _ | _ | d
  · rfl
  · exact find?_remove_self db table code
  · exact find?_write_self db table code d

theorem find?_enact_of_ne {t c : String} (ne : t = table → c ≠ code)
    (writes : Option (Option Document)) :
    (db.enact table code writes).find? t c = db.find? t c := by
  have apart : ∀ r : Row, r.isAt table code = true → r.isAt t c = false := by
    intro r hr
    obtain ⟨rfl, rfl⟩ := (isAt_iff r table code).1 hr
    refine Bool.eq_false_iff.2 fun at_c => ?_
    obtain ⟨ht, hc⟩ := (isAt_iff r t c).1 at_c
    exact ne ht.symm hc.symm
  rcases writes with _ | _ | d
  · rfl
  · exact find?_eq_of_filter (filter_remove apart)
  · exact find?_eq_of_filter (filter_write apart)

@[simp] theorem tables_follow : (db.follow table code course).tables = db.tables := by
  cases course with
  | ok v => exact tables_enact v.writes
  | error f => rfl

theorem find?_follow_self {v : Verdict} :
    (db.follow table code (.ok v)).find? table code = v.leaves (db.find? table code) :=
  find?_enact_self v.writes

theorem find?_follow_of_ne {t c : String} (ne : t = table → c ≠ code) :
    (db.follow table code course).find? t c = db.find? t c := by
  cases course with
  | ok v => exact find?_enact_of_ne ne v.writes
  | error f => rfl

end Database

namespace Commit

/-- The outcome after a failure that was settled, or the failure if it is none of a document. -/
def settled (task : Task) (existing : Option Document) (cause : Failure) :
    Except Failure DocumentOutcome :=
  if cause.kind = .targetNotFound && !task.isInsert then .ok (task.outcome .skipped none none)
  else if cause.kind.isDocumentWrite then .ok (task.failure existing cause)
  else .error cause

/-- The end of a target after an attempt. -/
def concluded (task : Task) : Except Failure Attempted → Except Failure DocumentOutcome
  | .ok (.done outcome) => .ok outcome
  | .ok (.failed existing cause) => settled task existing cause
  | .error cause => settled task none cause

/-- The end of a target that was judged: a failure is settled, and what the verdict writes may meet
an obstacle. -/
def ended (obstacle : Option Failure) (task : Task) (existing : Option Document) :
    Except Failure Verdict → Except Failure Verdict
  | .error cause => (settled task existing cause.reported).map fun o => ⟨o, none⟩
  | .ok v =>
    match v.writes, obstacle with
    | some _, some f => .ok ⟨task.failure existing f, none⟩
    | _, _ => .ok v

/-- The course of a target: an obstacle that it meets is its failure, otherwise it is judged. -/
def course (obstacles : Obstacles) (task : Task) (existing : Option Document)
    (judged : Except Failure Verdict) : Except Failure Verdict :=
  match obstacles.first with
  | some f => .ok ⟨task.failure none f, none⟩
  | none => ended obstacles.write task existing judged

/-- The course of a target in a state. -/
def courseIn (setup : Setup) (s : StoreState) (request : Request) (task : Task) :
    Except Failure Verdict :=
  let existing := s.database.find? request.table task.key.code
  course (s.obstacles setup request.table task.key) task existing
    (judge setup s.calls request task existing)

/-- The course of a target by pure functions, with some obstacles. -/
def pureCourse (setup : Setup) (request : Request) (obstacles : Obstacles) (task : Task)
    (existing : Option Document) : Except Failure Verdict :=
  course obstacles task existing (judge setup [] request task existing)

/-- The calls of a target on its course. -/
def courseCalls (setup : Setup) (s : StoreState) (request : Request) (task : Task) : List Call :=
  match (s.obstacles setup request.table task.key).first with
  | some _ => []
  | none => judgeCalls setup s.calls request task (s.database.find? request.table task.key.code)

end Commit

section Courses

variable {setup : Setup} {s t u : StoreState} {request : Request} {task : Task} {table : String}
variable {key : Value}

theorem exec_settle (existing : Option Document) (cause : Failure) :
    (Commit.settle task existing cause).exec setup s =
      (Commit.settled task existing cause, s) := by
  unfold Commit.settle Commit.settled
  split
  · rfl
  · split <;> rfl

/-- A failure of transport is the outcome of its document. -/
theorem settled_of_transport (existing : Option Document) {cause : Failure}
    (h : cause.kind = .transport ∨ cause.kind = .lockTimeout) :
    Commit.settled task existing cause = .ok (task.failure existing cause) := by
  unfold Commit.settled
  rcases h with h | h <;> simp [h, ErrorKind.isDocumentWrite]

/-- A failure of the document is its outcome. -/
theorem settled_of_isDocumentWrite (existing : Option Document) {cause : Failure}
    (h : cause.kind.isDocumentWrite = true) :
    Commit.settled task existing cause.reported = .ok (task.failure existing cause) := by
  have kind : cause.kind ≠ .targetNotFound := by
    intro eq
    rw [eq] at h
    cases h
  rw [Failure.reported_of_isDocumentWrite h]
  unfold Commit.settled
  simp [kind, h]

/-! ## Faults -/

theorem StoreState.Orderly.strike?_of_ne (h : s.Orderly) {point : FaultPoint} (read : point ≠ .read)
    (write : point ≠ .write) (k : Option Term) (n : Nat) : s.strike? point k n = none := by
  refine strike?_eq_none fun f hf => ?_
  rintro rfl
  exact (h.faults f hf).1.elim read write

/-- Where only locked documents are struck by faults, transactions are begun and committed. -/
theorem connects_of_slot (h : ∀ f ∈ s.faults, f.IsOfSlot) : s.Connects := by
  intro f hf
  constructor <;> intro point <;> rcases (h f hf).1 with slot | slot <;>
    cases point.symm.trans slot

theorem Fault.IsOfSlot.kind_reported {f : Fault} (h : f.IsOfSlot) :
    f.failure.reported.kind = .transport := by
  unfold Failure.reported
  rw [if_pos (by exact h.2)]
  rfl

theorem StoreState.orderly_of_nil (faults : s.faults = []) (sound : s.locks.Sound) : s.Orderly where
  faults f hf := by
    rw [faults] at hf
    cases hf
  locks := sound

/-- What strikes a slot is reported as a failure of transport. -/
theorem StoreState.Orderly.kind_of_strike? (h : s.Orderly) {point : FaultPoint} {k : Option Term}
    {n : Nat} {f : Failure} (hf : s.strike? point k n = some f) : f.reported.kind = .transport := by
  obtain ⟨fault, found, rfl⟩ := Option.map_eq_some_iff.1 hf
  exact (h.faults fault (List.mem_of_find?_eq_some found)).kind_reported

/-- An operation that a fault strikes fails, perhaps after it was done. -/
theorem ensures_faulty_of_some {α : Type} {point : FaultPoint} {k : Option Term} {f : Failure}
    {x : Run α} {Q : Except Failure α → StoreState → Prop}
    (h : s.strike? point k s.operations = some f) (before : Q (.error f) s.tick)
    (after : Ensures setup s.tick x fun r t => ∃ a, r = .ok a ∧ Q (.error f) t) :
    Ensures setup s (faulty point k x) Q := by
  obtain ⟨fault, found, rfl⟩ := Option.map_eq_some_iff.1 h
  unfold faulty
  refine ensures_get (ensures_modify ?_)
  rw [found]
  dsimp only
  split
  · refine after.bind ?_ fun g t ht => nomatch ht.choose_spec.1
    rintro a t ⟨-, -, failed⟩
    exact ensures_throw failed
  · exact ensures_throw before

theorem StoreState.Orderly.tick (h : s.Orderly) : s.tick.Orderly := ⟨h.faults, h.locks⟩

theorem exec_fetch (h : s.Orderly) :
    (Session.fetch table key.toTerm).exec setup s =
      (.ok (s.database.find? table key.code), s.tick) := by
  unfold Session.fetch
  rw [exec_faulty_of_none (h.strike?_of_ne (by decide) (by decide) _ _)]
  simp only [exec_bind, Session.exec_codeOf, exec_get, exec_pure]
  rfl

/-- A document is read unless a fault strikes. -/
theorem slot_read_course (h : s.Orderly) :
    Ensures setup s (Slot.read ⟨table, key.toTerm⟩) fun r t =>
      match s.strike? .read (some key.toTerm) s.operations with
      | none => r = .ok (s.database.find? table key.code) ∧
        t = { s with operations := s.operations + 2 }
      | some f => r = .error f ∧ Ticked s t := by
  unfold Slot.read
  cases hs : s.strike? .read (some key.toTerm) s.operations with
  | none =>
    rw [Ensures, exec_faulty_of_none hs, exec_fetch h.tick]
    exact ⟨rfl, rfl⟩
  | some f =>
    refine ensures_faulty_of_some hs ⟨rfl, ticked_tick s⟩ ?_
    rw [Ensures, exec_fetch h.tick]
    exact ⟨_, rfl, rfl, ⟨_, rfl⟩⟩

/-- What the work on a locked document leaves as it was: all but the document, calls and counts. -/
structure StoreState.Worked (s t : StoreState) : Prop where
  hooks : t.hooks = s.hooks
  locks : t.locks = s.locks
  faults : t.faults = s.faults
  generated : t.generated = s.generated

instance : IsPreorder StoreState Worked where
  refl _ := ⟨rfl, rfl, rfl, rfl⟩
  trans _ _ _ h k :=
    ⟨k.hooks.trans h.hooks, k.locks.trans h.locks, k.faults.trans h.faults,
      k.generated.trans h.generated⟩

theorem StoreState.Ticked.worked (h : Ticked s t) : Worked s t := by
  obtain ⟨n, rfl⟩ := h
  exact ⟨rfl, rfl, rfl, rfl⟩

theorem exec_put (h : s.Orderly) (document : Option Document) :
    ∃ n, (Session.put table key.toTerm document).exec setup s =
      (.ok n, { s with
        database := s.database.enact table key.code (some document)
        operations := s.operations + 1 }) := by
  unfold Session.put
  rw [exec_faulty_of_none (h.strike?_of_ne (by decide) (by decide) _ _)]
  cases document with
  | none =>
    refine ⟨s.database.count table key.code, ?_⟩
    simp only [exec_bind, Session.exec_codeOf, Session.update, exec_get, exec_modify, exec_pure]
    rfl
  | some d =>
    refine ⟨1, ?_⟩
    simp only [exec_bind, Session.exec_codeOf, Session.update, exec_modify, exec_pure]
    rfl

/-- A document is written unless a fault strikes. -/
theorem slot_write_course (h : s.Orderly) (document : Option Document) :
    Ensures setup s (Slot.write ⟨table, key.toTerm⟩ document) fun r t =>
      (Worked s t ∧ t.calls = s.calls) ∧ match s.strike? .write (some key.toTerm) s.operations with
      | none => r = .ok () ∧ t.database = s.database.enact table key.code (some document)
      | some f => r = .error f := by
  obtain ⟨n, put⟩ := @exec_put setup s.tick table key h.tick document
  have write : (do
      let _ ← Session.put table key.toTerm document : Run Unit).exec setup s.tick =
        (.ok (), { s.tick with
          database := s.tick.database.enact table key.code (some document)
          operations := s.tick.operations + 1 }) := by
    rw [exec_bind, put]
    rfl
  unfold Slot.write
  cases hs : s.strike? .write (some key.toTerm) s.operations with
  | none =>
    rw [Ensures, exec_faulty_of_none hs, write]
    exact ⟨⟨⟨rfl, rfl, rfl, rfl⟩, rfl⟩, rfl, rfl⟩
  | some f =>
    refine ensures_faulty_of_some hs ⟨⟨⟨rfl, rfl, rfl, rfl⟩, rfl⟩, rfl⟩ ?_
    rw [Ensures, write]
    exact ⟨(), rfl, ⟨⟨rfl, rfl, rfl, rfl⟩, rfl⟩, rfl⟩

/-! ## Working under a lock -/

/-- What processing a target leaves as it was, all but the document, calls and counts: the locks are
as free or as held as before, though perhaps not the same. -/
structure StoreState.Onward (s t : StoreState) : Prop where
  hooks : t.hooks = s.hooks
  faults : t.faults = s.faults
  generated : t.generated = s.generated
  sound : t.locks.Sound
  held : ∀ identity, t.locks.isHeld identity = s.locks.isHeld identity

theorem StoreState.Orderly.onward (h : s.Orderly) (k : s.Onward t) : t.Orderly :=
  ⟨fun f hf => h.faults f (k.faults ▸ hf), k.sound⟩

/-- Only locks and metrics may differ. -/
structure StoreState.Began (s u : StoreState) : Prop where
  database : u.database = s.database
  hooks : u.hooks = s.hooks
  faults : u.faults = s.faults
  calls : u.calls = s.calls
  generated : u.generated = s.generated
  operations : u.operations = s.operations

theorem StoreState.Orderly.began (h : s.Orderly) (k : s.Began u) (sound : u.locks.Sound) :
    u.Orderly :=
  ⟨fun f hf => h.faults f (k.faults ▸ hf), sound⟩

/-- Nothing strikes while the time that a lock took is recorded. -/
theorem StoreState.Orderly.not_lockMetrics (h : s.Orderly) :
    ∀ f ∈ s.faults, f.point ≠ .lockMetrics := by
  rintro f hf point
  rcases (h.faults f hf).1 with slot | slot <;> cases point.symm.trans slot

/-- A held lock is waited for in vain. -/
theorem hold_of_isHeld (h : s.Orderly) (held : s.locks.isHeld (table, key.code) = true)
    {timeout : Term} (ht : Timeout.check timeout = .ok ()) :
    Ensures setup s (Store.hold table key.toTerm timeout) fun r t =>
      r = .error (.lockTimeout table key.toTerm timeout) ∧ Onward s t ∧
        t.database = s.database ∧ t.calls = s.calls := by
  have refused := LockTable.acquire?_of_isHeld held
  have sound := (h.locks.checkOut (table, key.code)).1.checkIn (table, key.code)
  have same := LockTable.isHeld_checkIn h.locks held
  unfold Store.hold
  refine Session.ensures_codeOf (ensures_get ?_)
  generalize s.locks.checkOut (table, key.code) = out at refused sound same ⊢
  obtain ⟨object, locks⟩ := out
  simp only at refused sound same ⊢
  refine ensures_modify ?_
  simp only [ht, refused]
  refine ensures_modify (ensures_pass h.not_lockMetrics ?_)
  exact ⟨rfl, ⟨rfl, rfl, rfl, sound, same⟩, rfl, rfl⟩

/-- Nothing strikes the locking of a key, so it starts with the hold. -/
theorem ensures_lockedWhen {α : Type} {commits : α → Bool} {body : Slot → Run α}
    {Q : Except Failure α → StoreState → Prop} (h : s.Orderly)
    (hold : Ensures setup s.tick (do
      let held ← Store.hold table key.toTerm setup.config.lockTimeout
      let result ← Run.attempt (Run.reporting (Run.transaction commits
        (body ⟨table, key.toTerm⟩)))
      Store.release held
      Run.ofExcept result) Q) :
    Ensures setup s (Store.lockedWhen commits table key.toTerm body) Q := by
  have unstruck : s.strike? .locked (some key.toTerm) s.operations = none :=
    h.strike?_of_ne (by decide) (by decide) _ _
  unfold Store.lockedWhen
  refine Ensures.bind (P := fun r t => r = .ok () ∧ t = s.tick) ?_ ?_ (fun f t h => nomatch h.1)
  · rw [Ensures, exec_faulty_of_none unstruck]
    exact ⟨rfl, rfl⟩
  · rintro _ _ ⟨-, rfl⟩
    exact ensures_read hold

theorem lockedWhen_of_isHeld {α : Type} {commits : α → Bool} {body : Slot → Run α}
    (h : s.Orderly) (held : s.locks.isHeld (table, key.code) = true)
    (ht : Timeout.check setup.config.lockTimeout = .ok ()) :
    Ensures setup s (Store.lockedWhen commits table key.toTerm body) fun r t =>
      r = .error (.lockTimeout table key.toTerm setup.config.lockTimeout) ∧ Onward s t ∧
        t.database = s.database ∧ t.calls = s.calls := by
  refine ensures_lockedWhen h ?_
  refine (hold_of_isHeld h.tick held ht).bind (fun _ _ ended => nomatch ended.1) ?_
  rintro f t ⟨failed, ⟨hooks, faults, generated, sound, same⟩, db, calls⟩
  exact ⟨congrArg Except.error (Except.error.inj failed),
    ⟨hooks, faults, generated, sound, same⟩, db, calls⟩

/-- A free key is locked, and after the release every key is as free or as held as before. -/
theorem hold_of_isFree (h : s.Orderly) (free : s.locks.IsFree (table, key.code))
    {timeout : Term} (ht : Timeout.check timeout = .ok ()) :
    Ensures setup s (Store.hold table key.toTerm timeout) fun r u => ∃ hold, r = .ok hold ∧
      Began s u ∧ u.locks.Sound ∧
        (u.locks.finish hold).Sound ∧
          ∀ identity, (u.locks.finish hold).isHeld identity = s.locks.isHeld identity := by
  have acquired := LockTable.acquire?_of_isFree h.locks free
  have sound := h.locks.checkOut (table, key.code)
  have finish := fun locks => @LockTable.isHeld_finish s.locks locks _ h.locks free
  unfold Store.hold
  refine Session.ensures_codeOf (ensures_get ?_)
  generalize s.locks.checkOut (table, key.code) = out at acquired sound finish ⊢
  obtain ⟨object, locks⟩ := out
  simp only at acquired sound finish ⊢
  have taken := sound.1.acquire? sound.2 acquired
  refine ensures_modify ?_
  simp only [ht, acquired]
  refine ensures_modify (ensures_pass h.not_lockMetrics ?_)
  exact ⟨_, rfl, ⟨rfl, rfl, rfl, rfl, rfl, rfl⟩, taken, taken.finish _,
    finish _ acquired⟩

/-- The work on a document whose key is free: what it comes to stays if it is committed. -/
theorem lockedWhen_of_isFree {α : Type} {commits : α → Bool} {body : Slot → Run α}
    {Q : Except Failure α → Database → List Call → Prop} (h : s.Orderly)
    (free : s.locks.IsFree (table, key.code))
    (ht : Timeout.check setup.config.lockTimeout = .ok ())
    (hbody : ∀ u, Began s.tick u → u.locks.Sound →
      Ensures setup u (body ⟨table, key.toTerm⟩) fun r v => Worked u v ∧ match r with
        | .ok a => Q (.ok a) (if commits a then v.database else s.database) v.calls
        | .error f => Q (.error f.reported) s.database v.calls) :
    Ensures setup s (Store.lockedWhen commits table key.toTerm body) fun r t =>
      Onward s t ∧ Q r t.database t.calls := by
  refine ensures_lockedWhen h ?_
  refine (hold_of_isFree h.tick free ht).bind ?_ fun f t ended => nomatch ended.choose_spec.1
  rintro hold u ⟨_, ⟨⟩, began, locked, sound, same⟩
  have same_database : u.database = s.database := began.database
  refine Ensures.attempt (P := fun r v => Worked u v ∧ Q r v.database v.calls) ?_ ?_
  · have connects : u.Connects := connects_of_slot (h.tick.began began locked).faults
    refine Ensures.reporting (Ensures.transaction
      (fun f hf point => absurd point (connects f hf).1)
      ((hbody u began locked).mono ?_))
    rw [same_database]
    rintro (f | a) v ⟨worked, hq⟩
    · exact ⟨⟨worked.hooks, worked.locks, worked.faults, worked.generated⟩, hq⟩
    · refine ⟨?_, fun f hf point => absurd point (connects f (worked.faults ▸ hf)).2⟩
      dsimp only at hq ⊢
      split at hq
      · rename_i hc
        rw [if_pos hc]
        exact ⟨worked, hq⟩
      · rename_i hc
        rw [if_neg hc]
        exact ⟨⟨worked.hooks, worked.locks, worked.faults, worked.generated⟩, hq⟩
  · rintro r v ⟨worked, hq⟩
    refine ensures_modify (ensures_ofExcept ⟨⟨?_, ?_, ?_, ?_, ?_⟩, hq⟩)
    · exact worked.hooks.trans began.hooks
    · exact worked.faults.trans began.faults
    · exact worked.generated.trans began.generated
    · show (v.locks.finish hold).Sound
      rw [worked.locks]
      exact sound
    · show ∀ identity, (v.locks.finish hold).isHeld identity = _
      rw [worked.locks]
      exact same

/-! ## One target -/

/-- What a verdict writes is written unless a fault strikes. -/
theorem enact_course (h : s.Orderly) (v : Verdict) :
    Ensures setup s (Commit.enact ⟨table, key.toTerm⟩ v) fun r t =>
      (Worked s t ∧ t.calls = s.calls) ∧
        match v.writes, s.strike? .write (some key.toTerm) s.operations with
        | some _, some f => r = .error f
        | writes, _ => r = .ok v.outcome ∧ t.database = s.database.enact table key.code writes := by
  obtain ⟨outcome, writes⟩ := v
  cases writes with
  | none => exact ⟨⟨refl s, rfl⟩, rfl, rfl⟩
  | some document =>
    refine (slot_write_course h document).bind ?_ ?_
    · rintro ⟨⟩ t ⟨worked, ended⟩
      refine ensures_pure ⟨worked, ?_⟩
      cases hs : s.strike? .write (some key.toTerm) s.operations with
      | none =>
        rw [hs] at ended
        exact ⟨rfl, ended.2⟩
      | some f =>
        rw [hs] at ended
        cases ended
    · rintro f t ⟨worked, ended⟩
      refine ⟨worked, ?_⟩
      cases hs : s.strike? .write (some key.toTerm) s.operations with
      | none =>
        rw [hs] at ended
        cases ended.1
      | some g =>
        rw [hs] at ended
        exact congrArg Except.error (Except.error.inj ended)

theorem exec_process : (Commit.process request task).exec setup s =
    (Commit.concluded task ((Commit.attempt request task).exec setup s).1,
      ((Commit.attempt request task).exec setup s).2) := by
  unfold Commit.process
  rw [exec_bind, exec_attempt]
  rcases (Commit.attempt request task).exec setup s with ⟨f | (o | ⟨existing, f⟩), t⟩
  · exact exec_settle none f
  · rfl
  · exact exec_settle existing f

/-- What an attempt comes to: the end of its course, the database after it, and the calls. -/
def OnCourse (setup : Setup) (s : StoreState) (request : Request) (task : Task)
    (r : Except Failure Attempted) (db : Database) (calls : List Call) : Prop :=
  Commit.concluded task r = (Commit.courseIn setup s request task).map Verdict.outcome ∧
    db = s.database.follow request.table task.key.code (Commit.courseIn setup s request task) ∧
      calls = s.calls ++ Commit.courseCalls setup s request task

/-- An obstacle before the document is known is the failure of the target. -/
theorem onCourse_of_obstacle {f : Failure}
    (obstacle : (s.obstacles setup request.table task.key).first = some f)
    (kind : f.kind = .transport ∨ f.kind = .lockTimeout) :
    OnCourse setup s request task (.error f) s.database s.calls := by
  have failed : Commit.courseIn setup s request task = .ok ⟨task.failure none f, none⟩ := by
    simp only [Commit.courseIn, Commit.course, obstacle]
  have silent : Commit.courseCalls setup s request task = [] := by
    simp only [Commit.courseCalls, obstacle]
  refine ⟨?_, ?_, ?_⟩
  · rw [failed]
    exact settled_of_transport none kind
  · rw [failed]
    rfl
  · rw [silent, List.append_nil]

/-- A decision concludes a course: its outcome is that of the course, and its failure is settled as
on the course. -/
def Concludes (db : Database) (table : String) (task : Task) (existing : Option Document)
    (course : Except Failure Verdict) : Except Failure DocumentOutcome → Database → Prop
  | .ok o, after =>
    course.map Verdict.outcome = .ok o ∧ after = db.follow table task.key.code course
  | .error cause, _ =>
    course.map Verdict.outcome = Commit.settled task existing cause.reported ∧
      db.follow table task.key.code course = db

theorem concludes_of_error (db : Database) (existing : Option Document) (cause : Failure)
    (obstacle : Option Failure) (after : Database) :
    Concludes db table task existing (Commit.ended obstacle task existing (.error cause))
      (.error cause) after := by
  unfold Concludes Commit.ended
  dsimp only
  generalize Commit.settled task existing cause.reported = settled
  constructor
  · cases settled <;> rfl
  · cases settled <;> rfl

/-- What deciding comes to where nothing stands in the way before. -/
theorem decide_course {v : StoreState} (orderly : v.Orderly) (database : v.database = s.database)
    (calls : v.calls = s.calls) (faults : v.faults = s.faults)
    (operations : v.operations = s.operations + 3) (existing : Option Document) :
    Ensures setup v (Commit.decide request ⟨request.table, task.key.toTerm⟩ task existing)
      fun r w => (Worked v w ∧
          w.calls = s.calls ++ Commit.judgeCalls setup s.calls request task existing) ∧
        Concludes s.database request.table task existing
          (Commit.ended (s.obstacles setup request.table task.key).write task existing
            (Commit.judge setup s.calls request task existing)) r w.database := by
  have write : (v.log (Commit.judgeCalls setup s.calls request task existing)).strike? .write
      (some task.key.toTerm) v.operations =
        s.strike? .write (some task.key.toTerm) (s.operations + 3) := by
    rw [operations]
    unfold strike?
    rw [show (v.log _).faults = s.faults from faults]
  have obstacle : (s.obstacles setup request.table task.key).write =
      (s.strike? .write (some task.key.toTerm) (s.operations + 3)).map Failure.reported := rfl
  refine Commit.ensures_decide ?_ ?_
  · rw [calls]
    intro verdict hj
    rw [hj]
    have logged : (v.log (Commit.judgeCalls setup s.calls request task existing)).Orderly :=
      ⟨orderly.faults, orderly.locks⟩
    refine (enact_course logged verdict).mono ?_
    rintro r w ⟨⟨worked, same⟩, written⟩
    refine ⟨⟨⟨worked.hooks, worked.locks, worked.faults, worked.generated⟩, ?_⟩, ?_⟩
    · rw [same, calls_log, calls]
    rw [show (v.log _).operations = v.operations from rfl, write,
      show (v.log _).database = s.database from database] at written
    rw [obstacle]
    obtain ⟨outcome, writes⟩ := verdict
    cases hs : s.strike? .write (some task.key.toTerm) (s.operations + 3) with
    | none =>
      rw [hs] at written
      have plain : Commit.ended (Option.map Failure.reported none) task existing
          (.ok ⟨outcome, writes⟩) = .ok ⟨outcome, writes⟩ := by
        cases writes <;> rfl
      rw [plain]
      cases writes <;> obtain ⟨rfl, after⟩ := written <;> exact ⟨rfl, after⟩
    | some f =>
      rw [hs] at written
      cases writes with
      | none =>
        obtain ⟨rfl, after⟩ := written
        exact ⟨rfl, after⟩
      | some document =>
        cases written
        have transport : f.reported.kind = .transport := by
          obtain ⟨fault, found, rfl⟩ := Option.map_eq_some_iff.1 hs
          have mem := List.mem_of_find?_eq_some found
          exact Fault.IsOfSlot.kind_reported (orderly.faults fault (faults ▸ mem))
        exact ⟨(settled_of_transport existing (.inl transport)).symm, rfl⟩
  · rw [calls]
    intro cause hj
    rw [hj]
    exact ⟨⟨⟨rfl, rfl, rfl, rfl⟩, congrArg (· ++ _) calls⟩, concludes_of_error _ _ _ _ _⟩

/-- An attempt on a free key is on course. -/
theorem attempt_of_isFree (h : s.Orderly) (free : s.locks.IsFree (request.table, task.key.code))
    (ht : Timeout.check setup.config.lockTimeout = .ok ()) :
    Ensures setup s (Commit.attempt request task) fun r t =>
      Onward s t ∧ OnCourse setup s request task r t.database t.calls := by
  have first : (s.obstacles setup request.table task.key).first =
      (s.strike? .read (some task.key.toTerm) (s.operations + 1)).map Failure.reported := by
    unfold obstacles Obstacles.first
    rw [LockTable.isHeld_eq_false_iff.2 free]
    rfl
  refine lockedWhen_of_isFree h free ht fun u began sound => ?_
  have orderly : u.Orderly := h.tick.began began sound
  have read : u.strike? .read (some task.key.toTerm) u.operations =
      s.strike? .read (some task.key.toTerm) (s.operations + 1) := by
    rw [began.operations]
    unfold strike?
    rw [began.faults]
    rfl
  refine (slot_read_course orderly).bind ?_ ?_
  · rintro existing v ended
    rw [read] at ended
    cases hs : s.strike? .read (some task.key.toTerm) (s.operations + 1) with
    | some g =>
      rw [hs] at ended
      cases ended.1
    | none =>
      rw [hs] at ended first
      obtain ⟨found, rfl⟩ := ended
      obtain rfl : existing = s.database.find? request.table task.key.code := by
        rw [Except.ok.inj found, began.database]
        rfl
      have operations : u.operations + 2 = s.operations + 3 := by
        rw [began.operations]
        rfl
      refine Ensures.attempt (decide_course (s := s)
        (v := { u with operations := u.operations + 2 })
        ⟨orderly.faults, orderly.locks⟩ began.database began.calls began.faults operations _) ?_
      have course : Commit.courseIn setup s request task =
          Commit.ended (s.obstacles setup request.table task.key).write task
            (s.database.find? request.table task.key.code)
            (Commit.judge setup s.calls request task
              (s.database.find? request.table task.key.code)) := by
        simp only [Commit.courseIn, Commit.course, first, Option.map_none]
      have called : Commit.courseCalls setup s request task = Commit.judgeCalls setup s.calls
          request task (s.database.find? request.table task.key.code) := by
        simp only [Commit.courseCalls, first, Option.map_none]
      rw [← course, ← called]
      -- A failure after the document was read is kept with it, and is not committed.
      rintro (cause | o) w ⟨⟨worked, log⟩, outcome, after⟩
      · exact ⟨⟨worked.hooks, worked.locks, worked.faults, worked.generated⟩, outcome.symm,
          after.symm, log⟩
      · exact ⟨⟨worked.hooks, worked.locks, worked.faults, worked.generated⟩, outcome.symm, after,
          log⟩
  · rintro f v ended
    rw [read] at ended
    cases hs : s.strike? .read (some task.key.toTerm) (s.operations + 1) with
    | none =>
      rw [hs] at ended
      cases ended.1
    | some g =>
      rw [hs] at ended first
      obtain ⟨same, n, rfl⟩ := ended
      cases same
      refine ⟨⟨rfl, rfl, rfl, rfl⟩, ?_⟩
      rw [show ({ u with operations := n } : StoreState).calls = s.calls from began.calls]
      exact onCourse_of_obstacle first (.inl (h.kind_of_strike? hs))

/-- Processing a target ends as its course does and leaves what the course writes. -/
theorem process_course (h : s.Orderly) (ht : Timeout.check setup.config.lockTimeout = .ok ()) :
    Ensures setup s (Commit.process request task) fun r t => Onward s t ∧
      r = (Commit.courseIn setup s request task).map Verdict.outcome ∧
        t.database =
          s.database.follow request.table task.key.code (Commit.courseIn setup s request task) ∧
            t.calls = s.calls ++ Commit.courseCalls setup s request task := by
  have attempted : Ensures setup s (Commit.attempt request task) fun r t =>
      Onward s t ∧ OnCourse setup s request task r t.database t.calls := by
    cases held : s.locks.isHeld (request.table, task.key.code) with
    | true =>
      refine (lockedWhen_of_isHeld h held ht).mono ?_
      rintro _ t ⟨rfl, onward, database, calls⟩
      refine ⟨onward, ?_⟩
      rw [database, calls]
      refine onCourse_of_obstacle ?_ (.inr rfl)
      unfold obstacles Obstacles.first
      rw [held]
      rfl
    | false => exact attempt_of_isFree h (LockTable.isHeld_eq_false_iff.1 held) ht
  rw [Ensures, exec_process]
  exact attempted

end Courses

end Folio
