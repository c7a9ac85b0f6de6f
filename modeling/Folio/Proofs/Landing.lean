import Folio.Proofs.Deciding
import Folio.Proofs.Frames
import Folio.Proofs.Rows
/-!
# How one document lands

Processing one target ends in one of three ways: the database is as it was, a document that holds
the target's key was written under that key, or the document under the key was removed. The outcome
says which, and shows the document before and after. This is all that batches, replays and
invariants have to know about policies, hooks, transactions and faults.
-/

namespace Folio

/-- All that a document is made of is settled. -/
structure Careful (setup : Setup) (task : Task) (db : Database) : Prop where
  setup : setup.IsSettled
  task : task.IsSettled
  database : db.IsSettled

/-- An outcome and the database that it leaves: nothing was written, or a document was written
under its key, or the document under the key was removed. -/
inductive Landed (setup : Setup) (request : Request) (task : Task) (db : Database)
    (o : DocumentOutcome) : Database → Prop
  | kept (kind : o.kind.isWrite = false) : Landed setup request task db o db
  | wrote (d : Document)
      (kind : o.kind =
        if (db.find? request.table task.key.code).isNone then .inserted else .replaced)
      (before : o.before = db.find? request.table task.key.code)
      (after : o.after = some d)
      (keyed : d.IsKeyed request.keyField task.key.code)
      (settled : Careful setup task db → d.IsSettled) :
      Landed setup request task db o (db.write request.table task.key.code d)
  | removed (old : Document) (kind : o.kind = .deleted)
      (found : db.find? request.table task.key.code = some old)
      (before : o.before = some old) (after : o.after = none) :
      Landed setup request task db o (db.remove request.table task.key.code)

/-- An outcome of a task stands in its place and has its key. -/
structure IsOutcomeOf (task : Task) (o : DocumentOutcome) : Prop where
  index : o.index = task.index
  key : o.key = task.key

section Frame

variable {setup : Setup} {request : Request} {task : Task} {db after : Database}
variable {o : DocumentOutcome}

/-- Rows that a landing does not write stay as they are and where they are. -/
theorem Landed.filter (h : Landed setup request task db o after) {p : Row → Bool}
    (hp : o.kind.isWrite = true → ∀ r, r.isAt request.table task.key.code = true → p r = false) :
    after.rows.filter p = db.rows.filter p := by
  cases h with
  | kept _ => rfl
  | wrote d kind =>
    refine Database.filter_write (hp ?_)
    rw [kind]
    split <;> rfl
  | removed old kind =>
    refine Database.filter_remove (hp ?_)
    rw [kind]
    rfl

theorem Landed.find?_of_ne (h : Landed setup request task db o after) {code : String}
    (ne : code ≠ task.key.code) :
    after.find? request.table code = db.find? request.table code := by
  refine Database.find?_eq_of_filter (h.filter fun _ r hr => ?_)
  rw [Row.isAt, ((Database.isAt_iff _ _ _).1 hr).2]
  simpa using fun _ => ne.symm

end Frame

/-! ## One document under its lock -/

section Landing

open Run StoreState

variable {setup : Setup} {s : StoreState} {request : Request} {task : Task} {table : String}
variable {key : Value}

theorem slot_read (table : String) (key : Value) :
    Ensures setup s (Slot.read ⟨table, key.toTerm⟩) fun r t => Ticked s t ∧ match r with
      | .ok existing => existing = s.database.find? table key.code
      | .error f => f.OfStore s.faults := by
  refine Ensures.faulty (Ensures.faulty ?_ ?_ ?_) ?_ ?_
  · unfold Ensures
    simp only [exec_bind, Session.exec_codeOf, exec_get, exec_pure]
    exact ⟨⟨_, rfl⟩, rfl⟩
  all_goals first
    | exact fun f hf _ => ⟨⟨_, rfl⟩, .raised hf⟩
    | exact fun f hf _ _ _ _ h => ⟨h.1, .raised hf⟩

theorem slot_write (table : String) (key : Value) (document : Option Document) :
    Ensures setup s (Slot.write ⟨table, key.toTerm⟩ document) fun r t => match r with
      | .ok () => t.database = match document with
        | some d => s.database.write table key.code d
        | none => s.database.remove table key.code
      | .error f => f.OfStore s.faults := by
  refine Ensures.faulty (Ensures.bind (Ensures.faulty (Q := fun r t => match r with
      | .ok _ => t.database = match document with
        | some d => s.database.write table key.code d
        | none => s.database.remove table key.code
      | .error f => f.OfStore s.faults) ?_ ?_ ?_) ?_ ?_) ?_ ?_
  · unfold Ensures
    cases document <;> simp [exec_bind, Session.update, tick, Except.map]
  all_goals first
    | exact fun f hf _ => .raised hf
    | exact fun f hf _ _ _ _ _ => .raised hf
    | exact fun _ _ h => h

/-- What is to become of one document: an outcome and how it landed, or what went wrong. -/
def Lands (setup : Setup) (request : Request) (task : Task) (s : StoreState) :
    Except Failure DocumentOutcome → StoreState → Prop
  | .ok o, t => IsOutcomeOf task o ∧ Landed setup request task s.database o t.database
  | .error f, _ => f.Arises setup request.options.conflict s.faults

theorem Lands.of_kept {u t : StoreState} {r : Except Failure DocumentOutcome} (hq : Kept s u)
    (h : Lands setup request task u r t) : Lands setup request task s r t := by
  unfold Lands at h ⊢
  rw [hq.database, hq.steady.faults] at h
  exact h

/-- A candidate that passes is written under its key, and nothing else happens. -/
theorem commit_lands (hk : task.key.isKey = true) {existing candidate : Option Document}
    (he : s.database.find? request.table task.key.code = existing)
    (hc : Careful setup task s.database → ∀ d ∈ candidate, d.IsSettled) :
    Ensures setup s (Commit.commit request ⟨request.table, task.key.toTerm⟩ task existing candidate)
      (Lands setup request task s) := by
  unfold Commit.commit
  refine ensures_ofExcept_bind ?_ fun f h => .ofDocument (isDocumentWrite_of_checkKey h)
  rintro ⟨⟩ hcheck
  refine Ensures.bind (intercept_ends request.hook request.table request.keyField hk existing
    candidate) ?_ (fun f t h => .ofDocument h.2)
  rintro final t ⟨hq, hfinal⟩
  have write := @slot_write setup t request.table task.key
  have arises : ∀ (f : Failure) (u : StoreState), f.OfStore t.faults →
      Lands setup request task s (.error f) u := by
    intro f u h
    unfold Lands
    rw [← hq.faults]
    exact h.arises
  -- What is to be written now is what the hook has let through.
  cases final with
  | none =>
    cases existing with
    | none =>
      refine ensures_pure ⟨⟨rfl, rfl⟩, ?_⟩
      rw [hq.database]
      exact .kept rfl
    | some old =>
      refine Ensures.bind (write none) ?_ arises
      intro _ u hu
      refine ensures_pure ⟨⟨rfl, rfl⟩, ?_⟩
      rw [hu, hq.database]
      exact .removed old rfl he rfl rfl
  | some d =>
    obtain ⟨hsame, hsettled⟩ := hfinal
    have keyed : d.reread.IsKeyed request.keyField task.key.code := by
      refine (Document.isKeyed_of_same hk ?_).reread
      exact hsame.elim (same_of_checkKey hcheck) id
    have settled : Careful setup task s.database → d.reread.IsSettled := fun careful =>
      (hsettled careful.setup (fun old ho => careful.database.find? (he.trans ho))
        (hc careful)).reread
    dsimp only
    split
    · refine ensures_pure ⟨⟨rfl, rfl⟩, ?_⟩
      rw [hq.database]
      exact .kept rfl
    · refine Ensures.bind (write (some d.reread)) ?_ arises
      intro _ u hu
      refine ensures_pure ⟨⟨rfl, rfl⟩, ?_⟩
      rw [hu, hq.database]
      exact .wrote d.reread (by rw [he]; rfl) he.symm rfl keyed settled

/-- What is committed in a state that was quietly reached lands as seen from the state before. -/
theorem commit_lands_of_quiet (hk : task.key.isKey = true) {u : StoreState} (quiet : Quiet s u)
    {existing candidate : Option Document}
    (he : s.database.find? request.table task.key.code = existing)
    (hc : Careful setup task s.database → ∀ d ∈ candidate, d.IsSettled) :
    Ensures setup u (Commit.commit request ⟨request.table, task.key.toTerm⟩ task existing candidate)
      (Lands setup request task s) := by
  refine (commit_lands hk (quiet.database ▸ he) ?_).mono fun r t h => h.of_kept quiet.kept
  rw [quiet.database]
  exact hc

theorem kept_lands {u : StoreState} {o : DocumentOutcome} (quiet : Quiet s u)
    (ho : IsOutcomeOf task o) (kind : o.kind.isWrite = false) :
    Lands setup request task s (.ok o) u := by
  refine ⟨ho, ?_⟩
  rw [quiet.database]
  exact .kept kind

/-- The insert of a document is decided by the conflict policy, and lands as decided. -/
theorem insert_lands (hk : task.key.isKey = true) {existing : Option Document}
    (he : s.database.find? request.table task.key.code = existing) {document : Document}
    {generated : Bool} (hw : task.work = .insert document generated) :
    Ensures setup s (Commit.decide request ⟨request.table, task.key.toTerm⟩ task existing)
      (Lands setup request task s) := by
  unfold Commit.decide
  rw [hw]
  refine Ensures.bind (resolve_ends request.options.conflict request.keyField hk existing
    document) ?_ (fun f t h => h.2.elim)
  rintro resolution t ⟨quiet, resolved⟩
  cases resolution with
  | reject f => exact resolved.elim Failure.Arises.ofDocument Failure.Arises.refused
  | keep => exact kept_lands quiet ⟨rfl, rfl⟩ rfl
  | commit value =>
    obtain ⟨d, rfl, settled⟩ := resolved
    have hd : Commit.documentOf .malformed d.toTerm = .ok d := by
      unfold Commit.documentOf
      rw [Term.validateDocument_toTerm]
    dsimp only
    rw [hd]
    refine ensures_ofExcept_bind ?_ (fun f h => nomatch h)
    rintro _ ⟨⟩
    refine commit_lands_of_quiet hk quiet he ?_
    rintro careful _ ⟨⟩
    have incoming := careful.task
    unfold Task.IsSettled at incoming
    rw [hw] at incoming
    exact settled careful.setup (fun old ho => careful.database.find? (he.trans ho)) incoming

/-- A patched document lands if it is still a document. -/
theorem update_lands (hk : task.key.isKey = true) {old : Document}
    (he : s.database.find? request.table task.key.code = some old) {patch : Term}
    (hw : task.work = .update patch) :
    Ensures setup s (Commit.decide request ⟨request.table, task.key.toTerm⟩ task (some old))
      (Lands setup request task s) := by
  unfold Commit.decide
  rw [hw]
  refine Ensures.bind (applyPatch_ends old patch) ?_ (fun f t h => h.2 request.options.conflict)
  rintro patched t ⟨quiet, settled⟩
  refine ensures_ofExcept_bind (fun candidate hd => ?_) fun f h =>
    .ofDocument (isDocumentWrite_of_documentOf h)
  refine commit_lands_of_quiet hk quiet he ?_
  rintro careful _ ⟨⟩
  have merged := careful.task
  unfold Task.IsSettled at merged
  rw [hw] at merged
  exact Term.isSettled_validateDocument
    (settled careful.setup (careful.database.find? he) merged) (validate_of_documentOf hd)

/-- Whatever is to be done with a document, it lands. -/
theorem decide_lands (hk : task.key.isKey = true) {existing : Option Document}
    (he : s.database.find? request.table task.key.code = existing) :
    Ensures setup s (Commit.decide request ⟨request.table, task.key.toTerm⟩ task existing)
      (Lands setup request task s) := by
  -- Where no document exists, an update or a deletion is skipped.
  have skipped : Ensures setup s (pure (task.outcome .skipped none none))
      (Lands setup request task s) := kept_lands (refl s) ⟨rfl, rfl⟩ rfl
  cases hw : task.work with
  | insert document generated => exact insert_lands hk he hw
  | update patch =>
    cases existing with
    | none =>
      unfold Commit.decide
      rw [hw]
      exact skipped
    | some old => exact update_lands hk he hw
  | delete =>
    unfold Commit.decide
    rw [hw]
    cases existing with
    | none => exact skipped
    | some old => exact commit_lands_of_quiet hk (refl s) he fun _ _ h => nomatch h

/-! ## Locks and transactions -/

/-- A key has a code. -/
theorem Session.ensures_codeOf {α : Type} {Q : Except Failure α → StoreState → Prop} {key : Value}
    {next : String → Run α} (h : Ensures setup s (next key.code) Q) :
    Ensures setup s (Session.codeOf key.toTerm >>= next) Q := by
  unfold Ensures
  rw [exec_bind, Session.exec_codeOf]
  exact h

theorem hold_ofStore (table : String) (key : Value) (timeout : Term) :
    Ensures setup s (Store.hold table key.toTerm timeout) fun r _ =>
      ∀ f, r = .error f → f.OfStore s.faults := by
  unfold Store.hold
  refine Session.ensures_codeOf (ensures_get ?_)
  generalize s.locks.checkOut (table, key.code) = out
  obtain ⟨object, locks⟩ := out
  refine ensures_modify ?_
  split
  · rintro _ ⟨⟩
    exact .waiting _
  -- What strikes while the time is recorded is raised as it is.
  · split
    · refine ensures_modify (ensures_reach ?_ fun f h => nomatch h)
      rintro f hf - _ ⟨⟩
      exact .raised hf
    · refine ensures_modify (ensures_reach ?_ ?_)
      · rintro f hf - _ ⟨⟩
        exact .raised hf
      · rintro _ ⟨⟩
        exact .locked ..

/-- Work on a locked document: what a body comes to stays if it is committed, and otherwise the
database is as it was. -/
theorem lockedWhen_ensures {α : Type} {commits : α → Bool} {body : Slot → Run α}
    {Q : Except Failure α → Database → Prop} (table : String) (key : Value)
    (written : ∀ slot, Moves Written (body slot))
    (hbody : ∀ u, Kept s u → Ensures setup u (body ⟨table, key.toTerm⟩) fun r t => match r with
      | .ok a => Q (.ok a) (if commits a then t.database else s.database)
      | .error f => Q (.error f.reported) s.database)
    (herror : ∀ f, f.OfStore s.faults → Q (.error f) s.database) :
    Ensures setup s (Store.lockedWhen commits table key.toTerm body) fun r t => Q r t.database := by
  unfold Store.lockedWhen
  refine Ensures.bind (P := fun r t => Ticked s t ∧ ∀ f, r = .error f → f.OfStore s.faults) ?_ ?_ ?_
  -- A fault strikes before the lock is taken.
  · refine Ensures.faulty ⟨ticked_tick s, fun f h => nomatch h⟩ ?_ ?_
    · rintro f hf -
      exact ⟨ticked_tick s, fun g hg => by cases hg; exact .raised hf⟩
    · rintro f hf - - _ t ⟨ht, -⟩
      exact ⟨ht, fun g hg => by cases hg; exact .raised hf⟩
  · rintro _ t ⟨ticked, -⟩
    have started := ticked.quiet.kept
    have hold := (@hold_ofStore setup t table key setup.config.lockTimeout).and
      (Store.hold_kept table key.toTerm setup.config.lockTimeout).ensures
    refine ensures_read (hold.bind ?_ ?_)
    -- The transaction decides what stays of the body, and the release of the lock writes nothing.
    · rintro held u ⟨-, hu⟩
      replace hu := IsTrans.trans _ _ _ started hu
      refine Ensures.attempt (P := fun r t => Q r t.database) ?_ ?_
      · have undone : ∀ t : StoreState, t.faults = s.faults → ∀ f ∈ t.faults,
            Q (.error f.failure.reported) u.database := fun t same f hf => by
          rw [hu.database]
          exact herror _ (.reported (.raised (same ▸ hf)))
        refine Ensures.reporting (Ensures.transaction (fun f hf _ => undone u hu.steady.faults f hf)
          (((hbody u hu).and (written _).ensures).mono fun r t ⟨h, frame⟩ => ?_))
        cases r with
        | ok a =>
          refine ⟨?_, fun f hf _ => undone t (frame.faults.trans hu.steady.faults) f hf⟩
          dsimp only at h ⊢
          split at h
          · rename_i hc
            rw [if_pos hc]
            exact h
          · rename_i hc
            rw [if_neg hc]
            exact hu.database ▸ h
        | error f => exact hu.database ▸ h
      · intro r t h
        refine ensures_modify (ensures_ofExcept ?_)
        exact h
    · rintro f u ⟨hf, hk⟩
      rw [hk.database, started.database]
      exact herror f (started.steady.faults ▸ hf f rfl)
  · rintro f t ⟨ticked, hf⟩
    rw [ticked.quiet.database]
    exact herror f (hf f rfl)

/-! ## One target -/

/-- What an attempt comes to, and the database that it leaves. -/
def Attempts (setup : Setup) (request : Request) (task : Task) (s : StoreState) :
    Except Failure Attempted → Database → Prop
  | .ok (.done o), db => IsOutcomeOf task o ∧ Landed setup request task s.database o db
  | .ok (.failed _ f), db => f.Arises setup request.options.conflict s.faults ∧ db = s.database
  | .error f, db => f.Arises setup request.options.conflict s.faults ∧ db = s.database

theorem attempt_lands (hk : task.key.isKey = true) :
    Ensures setup s (Commit.attempt request task) fun r t =>
      Attempts setup request task s r t.database := by
  refine lockedWhen_ensures request.table task.key
    (Commit.attempt_writes writing_written request task) ?_ (fun f hf => ⟨hf.arises, rfl⟩)
  intro u hu
  refine Ensures.bind (slot_read request.table task.key) ?_ ?_
  · rintro existing _ ⟨⟨n, rfl⟩, he⟩
    -- A failure after the read is kept, and its transaction is not committed.
    refine Ensures.attempt (decide_lands hk he.symm) fun r t h => ?_
    replace h := Lands.of_kept hu h
    cases r with
    | ok o => exact h
    | error f => exact ⟨.reported h, rfl⟩
  · rintro f _ ⟨-, hf⟩
    exact ⟨.reported (hu.steady.faults ▸ hf.arises), rfl⟩

/-- What processing a target comes to, and the database that it leaves: an outcome that says how the
target landed, or a failure that is none of the document, after which the database is as before. -/
def Ends (setup : Setup) (request : Request) (task : Task) (s : StoreState) :
    Except Failure DocumentOutcome → Database → Prop
  | .ok o, db => IsOutcomeOf task o ∧ Landed setup request task s.database o db
  | .error f, db => f.kind.isDocumentWrite = false ∧
    f.Arises setup request.options.conflict s.faults ∧ db = s.database

theorem settle_ends {t : StoreState} {existing : Option Document} {f : Failure}
    (hf : f.Arises setup request.options.conflict s.faults) (hdb : t.database = s.database) :
    Ensures setup t (Commit.settle task existing f) fun r t =>
      Ends setup request task s r t.database := by
  unfold Commit.settle
  split
  · exact ⟨⟨rfl, rfl⟩, hdb ▸ .kept rfl⟩
  · split
    · exact ⟨⟨rfl, rfl⟩, hdb ▸ .kept rfl⟩
    · rename_i hkind
      exact ⟨Bool.not_eq_true _ ▸ hkind, hf, hdb⟩

theorem process_ends (hk : task.key.isKey = true) :
    Ensures setup s (Commit.process request task) fun r t =>
      Ends setup request task s r t.database := by
  refine Ensures.attempt (attempt_lands hk) fun r t h => ?_
  rcases r with f | (o | ⟨existing, f⟩)
  · exact settle_ends h.1 h.2
  · exact h
  · exact settle_ends h.1 h.2

end Landing

end Folio
