import Folio.Proofs.Batches
import Folio.Proofs.Courses
import Mathlib.Data.List.Forall2
/-!
# Undisturbed documents

Where no fault strikes and nobody else holds a key, a target of an update by a mapping goes wrong in
two ways only. Either it is a failure of the document, which becomes its outcome, or a number was
out of range while the patch was evaluated, which is no failure of the document and ends the
request. So a batch of documents with different keys comes to all its outcomes, unless a number is
out of range for one of the documents as they were at the start.
-/

namespace Folio

open Run StoreState

/-! ## Evaluation on a document -/

namespace Patch

/-- Whether the patch cannot be evaluated on a document. -/
def fails (patch : Term) (d : Document) : Bool :=
  match evaluate d.toTerm patch with
  | .ok _ => false
  | .error _ => true

/-- Whether a number is out of range while the patch is evaluated on a document. -/
def overflows (patch : Term) (d : Document) : Bool :=
  match evaluate d.toTerm patch with
  | .ok _ => false
  | .error f => f.kind == .overflow

variable {patch : Term} {d : Document} {f : Failure}

theorem fails_of_ok {entries : List (Term × Term)} (h : evaluate d.toTerm patch = .ok entries) :
    fails patch d = false := by
  unfold fails
  rw [h]

theorem overflows_of_ok {entries : List (Term × Term)}
    (h : evaluate d.toTerm patch = .ok entries) : overflows patch d = false := by
  unfold overflows
  rw [h]

theorem overflows_of_error (h : evaluate d.toTerm patch = .error f) :
    overflows patch d = (f.kind == .overflow) := by
  unfold overflows
  rw [h]

/-- A mapping fails for nothing but its expressions. -/
theorem evaluation_of_mapping {existing : Term} {entries : List (Term × Term)}
    (h : evaluate existing (.mapping entries) = .error f) : ∃ fault, f = .evaluation fault :=
  of_lift_error (r := Term.evaluatePatchEntries existing entries) h

end Patch

namespace ErrorKind

variable {kind : ErrorKind}

/-- An expression that cannot be evaluated is a failure of its document, and no other. -/
theorem of_isExpression (h : kind.isExpression = true) :
    kind.isDocumentWrite = true ∧ kind ≠ .targetNotFound ∧ kind ≠ .overflow := by
  refine ⟨?_, ?_, ?_⟩
  · cases kind <;> first | rfl | cases h
  all_goals
    rintro rfl
    cases h

end ErrorKind

namespace Failure

/-- An evaluation fails for the expression, or for a number out of range. -/
theorem kind_evaluation (fault : EvaluationFault) :
    (evaluation fault).kind = .overflow ∨ (evaluation fault).kind.isExpression = true := by
  cases fault <;> first | exact .inl rfl | exact .inr rfl

theorem reported_evaluation (fault : EvaluationFault) :
    (evaluation fault).reported = .evaluation fault := by
  refine if_neg (Bool.not_eq_true _ ▸ ?_)
  rcases kind_evaluation fault with h | h
  · rw [h]
    rfl
  · exact ErrorKind.isDatabase_of_isDocumentWrite (ErrorKind.of_isExpression h).1

end Failure

/-- What goes wrong is a failure of the document. -/
def FailsForDocument {α : Type} (r : Except Failure α) : Prop :=
  ∀ f, r = .error f → f.kind.isDocumentWrite = true

/-! ## The state around documents -/

/-- No fault strikes, and nobody holds the keys with the codes. -/
structure StoreState.Undisturbed (table : String) (codes : List String) (s : StoreState) :
    Prop where
  faults : s.faults = []
  locks : s.locks.Sound
  free : ∀ code ∈ codes, s.locks.IsFree (table, code)

section Undisturbed

variable {setup : Setup} {s t : StoreState} {request : Request} {task : Task} {table : String}
variable {codes : List String} {key : Value} {entries : List (Term × Term)}

/-- A free key is locked at once. -/
theorem hold_undisturbed (faults : s.faults = []) (sound : s.locks.Sound)
    (free : s.locks.IsFree (table, key.code)) {timeout : Term}
    (ht : Timeout.check timeout = .ok ()) :
    Ensures setup s (Store.hold table key.toTerm timeout) fun r t =>
      ∃ locks, (s.locks.checkOut (table, key.code)).2.acquire?
          (s.locks.checkOut (table, key.code)).1 = some locks ∧
        r = .ok ⟨(table, key.code), (s.locks.checkOut (table, key.code)).1⟩ ∧
          t.locks = locks := by
  have acquired : (s.locks.checkOut (table, key.code)).2.acquire?
      (s.locks.checkOut (table, key.code)).1 = some
        { (s.locks.checkOut (table, key.code)).2 with
          held := (s.locks.checkOut (table, key.code)).1 ::
            (s.locks.checkOut (table, key.code)).2.held } := by
    refine if_neg fun held => free.not_held sound ?_
    rwa [List.contains_iff_mem] at held
  unfold Store.hold
  refine Session.ensures_codeOf (ensures_get ?_)
  generalize s.locks.checkOut (table, key.code) = out at acquired ⊢
  obtain ⟨object, locks⟩ := out
  refine ensures_modify ?_
  rw [ht]
  dsimp only at acquired ⊢
  rw [acquired]
  exact ensures_modify (ensures_pass (fun f hf => absurd hf (faults ▸ List.not_mem_nil))
    ⟨_, rfl, rfl, rfl⟩)

/-- A free key is locked and released again, whatever is done to the document meanwhile. -/
theorem lockedWhen_undisturbed {α : Type} {commits : α → Bool} {body : Slot → Run α}
    {P : Except Failure α → Prop} (h : s.Undisturbed table codes) (hc : key.code ∈ codes)
    (timeout : Timeout.check setup.config.lockTimeout = .ok ())
    (hbody : ∀ u, Kept s u → Ensures setup u (body ⟨table, key.toTerm⟩) fun r t =>
      Written u t ∧ match r with
        | .ok a => P (.ok a)
        | .error f => P (.error f.reported)) :
    Ensures setup s (Store.lockedWhen commits table key.toTerm body) fun r t =>
      t.Undisturbed table codes ∧ P r := by
  unfold Store.lockedWhen
  refine Ensures.bind (P := fun r t => r = .ok () ∧ t = s.tick) ?_ ?_ (fun f t h => nomatch h.1)
  · unfold Ensures
    rw [exec_faulty_of_nil h.faults]
    exact ⟨rfl, rfl⟩
  rintro _ _ ⟨-, rfl⟩
  have hold := (@hold_undisturbed setup s.tick table key h.faults h.locks (h.free _ hc) _
    timeout).and (Store.hold_kept table key.toTerm setup.config.lockTimeout).ensures
  refine ensures_read (hold.bind ?_ fun f u hu => nomatch hu.1.choose_spec.2.1)
  rintro _ u ⟨⟨locks, acquired, ⟨⟩, hlocks⟩, kept⟩
  have kept : Kept s u := IsTrans.trans _ _ _ (quiet_tick s).kept kept
  refine Ensures.attempt (P := fun r t => Written u t ∧ P r) ?_ ?_
  · have faults : u.faults = [] := kept.steady.faults.trans h.faults
    refine Ensures.reporting (Ensures.transaction (fun f hf => absurd hf (faults ▸ List.not_mem_nil))
      ((hbody u kept).mono fun r t ended => ?_))
    cases r with
    | ok a =>
      refine ⟨⟨?_, ended.2⟩, fun f hf => ?_⟩
      · split
        · exact ended.1
        · exact ⟨ended.1.hooks, ended.1.locks, ended.1.faults⟩
      · rw [ended.1.faults, faults] at hf
        cases hf
    | error f => exact ⟨⟨ended.1.hooks, ended.1.locks, ended.1.faults⟩, ended.2⟩
  · rintro r t ⟨written, hr⟩
    refine ensures_modify (ensures_ofExcept ⟨⟨?_, ?_, ?_⟩, hr⟩)
    · exact written.faults.trans (kept.steady.faults.trans h.faults)
    · show (t.locks.finish _).Sound
      rw [written.locks]
      exact (kept.steady.locks h.locks).finish _
    · -- Only the key of this hold was locked, and it is free again.
      intro code hm
      show (t.locks.finish _).IsFree _
      rw [written.locks, hlocks]
      exact (h.free code hm).finish h.locks acquired

/-! ## One document -/

theorem slot_read_undisturbed (h : s.faults = []) :
    Ensures setup s (Slot.read ⟨table, key.toTerm⟩) fun r t =>
      Ticked s t ∧ r = .ok (s.database.find? table key.code) := by
  unfold Slot.read Session.fetch Ensures
  rw [exec_faulty_of_nil h, exec_faulty_of_nil (s := s.tick) h]
  simp only [exec_bind, Session.exec_codeOf, exec_get, exec_pure]
  exact ⟨⟨_, rfl⟩, rfl⟩

theorem slot_write_undisturbed (h : s.faults = []) (document : Option Document) :
    Ensures setup s (Slot.write ⟨table, key.toTerm⟩ document) fun r t => r = .ok () ∧
      Worked s t ∧ t.database = s.database.enact table key.code (some document) := by
  unfold Slot.write Session.put Ensures
  rw [exec_faulty_of_nil h, exec_bind, exec_faulty_of_nil (s := s.tick) h]
  simp only [exec_bind, Session.exec_codeOf, Session.update]
  cases document <;> exact ⟨rfl, ⟨rfl, rfl, rfl, rfl⟩, rfl⟩

/-- What is committed fails for the document only. -/
theorem commit_undisturbed (hk : task.key.isKey = true) (h : s.faults = [])
    (existing candidate : Option Document) :
    Ensures setup s (Commit.commit request ⟨request.table, task.key.toTerm⟩ task existing candidate)
      fun r _ => FailsForDocument r := by
  have write : ∀ {u : StoreState} (document : Option Document) (o : DocumentOutcome),
      u.faults = [] → Ensures setup u (do
        Slot.write ⟨request.table, task.key.toTerm⟩ document
        return o) fun r _ => FailsForDocument r := by
    intro u document o hu
    refine Ensures.bind (slot_write_undisturbed hu document) ?_ (fun f t h => nomatch h.1)
    exact fun _ _ _ f hf => nomatch hf
  unfold Commit.commit
  refine ensures_ofExcept_bind (fun _ _ => ?_) ?_
  · refine Ensures.bind (intercept_ends request.hook request.table request.keyField hk existing
      candidate) ?_ ?_
    · rintro final t ⟨quiet, -⟩
      have ht : t.faults = [] := quiet.faults.trans h
      cases final with
      | none =>
        cases existing with
        | none => exact fun f hf => nomatch hf
        | some old => exact write none _ ht
      | some d =>
        dsimp only
        split
        · exact fun f hf => nomatch hf
        · exact write (some d.reread) _ ht
    · rintro f t ⟨-, hf⟩ _ ⟨⟩
      exact hf
  · rintro f hf _ ⟨⟩
    exact isDocumentWrite_of_checkKey hf

/-- How a target with a patch is decided on: a patch that cannot be evaluated fails as it does, and
everything after its evaluation fails for the document only. -/
structure Decided (patch : Term) (existing : Option Document)
    (r : Except Failure DocumentOutcome) : Prop where
  absent : existing = none → ∃ o, r = .ok o
  failed : ∀ old ∈ existing, ∀ f, Patch.evaluate old.toTerm patch = .error f → r = .error f
  evaluated : ∀ old ∈ existing, ∀ entries, Patch.evaluate old.toTerm patch = .ok entries →
    FailsForDocument r

theorem applyPatch_mapping (existing : Term) :
    Ensures setup s (Commit.applyPatch existing (.mapping entries)) fun r t => t = s ∧
      r = (Patch.evaluate existing (.mapping entries)).map fun patch =>
        .mapping (Patch.merge existing.entries patch) := by
  unfold Commit.applyPatch Commit.evaluatePatch
  refine ensures_ofExcept_bind (fun patch hp => ?_) fun f hf => ?_
  · rw [hp]
    exact ⟨rfl, rfl⟩
  · rw [hf]
    exact ⟨rfl, rfl⟩

theorem decide_undisturbed (hk : task.key.isKey = true)
    (hw : task.work = .update (.mapping entries)) (h : s.faults = [])
    (existing : Option Document) :
    Ensures setup s (Commit.decide request ⟨request.table, task.key.toTerm⟩ task existing)
      fun r _ => Decided (.mapping entries) existing r := by
  unfold Commit.decide
  rw [hw]
  cases existing with
  | none => exact ⟨fun _ => ⟨_, rfl⟩, fun _ h => (nomatch h), fun _ h => (nomatch h)⟩
  | some old =>
    refine (applyPatch_mapping old.toTerm).bind ?_ ?_
    · rintro patched t ⟨same, hpatched⟩
      rw [same]
      have committed : Ensures setup s (do
          let candidate ← Run.ofExcept (Commit.documentOf .patchedInvalid patched)
          Commit.commit request ⟨request.table, task.key.toTerm⟩ task (some old) (some candidate))
          fun r _ => FailsForDocument r := by
        refine ensures_ofExcept_bind (fun candidate _ => ?_) ?_
        · exact commit_undisturbed hk h (some old) (some candidate)
        · rintro f hf _ ⟨⟩
          exact isDocumentWrite_of_documentOf hf
      -- The patch was evaluated, or there would be nothing to commit.
      refine committed.mono fun r t hr => ⟨fun h => (nomatch h), ?_, fun _ _ _ _ => hr⟩
      rintro _ ⟨⟩ f hf
      rw [hf] at hpatched
      cases hpatched
    · rintro f t ⟨-, hf⟩
      refine ⟨fun h => (nomatch h), ?_, ?_⟩
      · rintro _ ⟨⟩ g hg
        rw [hg] at hf
        cases hf
        rfl
      · rintro _ ⟨⟩ patch hp
        rw [hp] at hf
        cases hf

/-- What processing a target with a patch comes to: an outcome, which is an error if the patch
cannot be evaluated, or a failure for a number out of range. -/
def Patched (patch : Term) (existing : Option Document) : Except Failure DocumentOutcome → Prop
  | .ok o => ∀ old ∈ existing, Patch.overflows patch old = false ∧
      (Patch.fails patch old = true → o.kind = .error)
  | .error f => f.kind = .overflow ∧ ∃ old ∈ existing, Patch.overflows patch old = true

theorem patched_of_ok {old : Document} {patch : Term} {merged : List (Term × Term)}
    (hp : Patch.evaluate old.toTerm patch = .ok merged) (o : DocumentOutcome) :
    Patched patch (some old) (.ok o) := by
  rintro _ ⟨⟩
  rw [Patch.overflows_of_ok hp, Patch.fails_of_ok hp]
  exact ⟨rfl, fun h => nomatch h⟩

/-- A failure of the document is settled by an outcome, a number out of range is not. -/
theorem settle_undisturbed {existing : Option Document} {f : Failure}
    (h : Decided (.mapping entries) existing (.error f)) :
    Ensures setup t (Commit.settle task existing f.reported) fun r u =>
      u = t ∧ Patched (.mapping entries) existing r := by
  cases existing with
  | none => exact nomatch (h.absent rfl).choose_spec
  | some old =>
    cases hp : Patch.evaluate old.toTerm (.mapping entries) with
    | ok patch =>
      have kind : f.kind.isDocumentWrite = true := h.evaluated old rfl patch hp f rfl
      rw [Failure.reported_of_isDocumentWrite kind]
      unfold Commit.settle
      split
      · exact ⟨rfl, patched_of_ok hp _⟩
      · exact ⟨rfl, patched_of_ok hp _⟩
    | error g =>
      cases h.failed old rfl g hp
      obtain ⟨fault, rfl⟩ := Patch.evaluation_of_mapping hp
      rw [Failure.reported_evaluation]
      -- Only an overflow is none of the failures that are settled.
      unfold Commit.settle
      rcases Failure.kind_evaluation fault with kind | kind
      · rw [kind]
        refine ⟨rfl, kind, old, rfl, ?_⟩
        rw [Patch.overflows_of_error hp, kind]
        rfl
      · obtain ⟨write, found, range⟩ := ErrorKind.of_isExpression kind
        rw [if_neg (by simp [found]), if_pos write]
        refine ⟨rfl, ?_⟩
        rintro _ ⟨⟩
        rw [Patch.overflows_of_error hp]
        exact ⟨by simpa using range, fun _ => rfl⟩

theorem process_undisturbed (hk : task.key.isKey = true)
    (hw : task.work = .update (.mapping entries)) (h : s.Undisturbed request.table codes)
    (hc : task.key.code ∈ codes) (timeout : Timeout.check setup.config.lockTimeout = .ok ()) :
    Ensures setup s (Commit.process request task) fun r t => t.Undisturbed request.table codes ∧
      Patched (.mapping entries) (s.database.find? request.table task.key.code) r := by
  have attempt : Ensures setup s (Commit.attempt request task) fun r t =>
      t.Undisturbed request.table codes ∧ ∃ ended, Decided (.mapping entries)
        (s.database.find? request.table task.key.code) ended ∧ r = .ok (match ended with
          | .ok outcome => .done outcome
          | .error cause => .failed (s.database.find? request.table task.key.code)
              cause.reported) := by
    refine lockedWhen_undisturbed h hc timeout fun u kept => ?_
    have faults : u.faults = [] := kept.steady.faults.trans h.faults
    -- Taking the lock leaves the document as it was.
    refine (slot_read_undisturbed faults).bind ?_ (fun f v hv => nomatch hv.2)
    rintro _ v ⟨ticked, ⟨⟩⟩
    rw [kept.database]
    have decided := (@decide_undisturbed setup v request task entries hk hw
      (ticked.quiet.faults.trans faults) (s.database.find? request.table task.key.code)).and
        (Commit.decide_writes writing_written request ⟨request.table, task.key.toTerm⟩ task
          _).ensures
    refine Ensures.attempt decided fun r w ended => ?_
    have written := IsTrans.trans _ _ _ ticked.quiet.written ended.2
    cases r with
    | ok o => exact ⟨written, .ok o, ended.1, rfl⟩
    | error f => exact ⟨written, .error f, ended.1, rfl⟩
  refine Ensures.attempt attempt ?_
  rintro _ t ⟨undisturbed, ended, decided, rfl⟩
  cases ended with
  | ok o =>
    refine ⟨undisturbed, fun old found => ?_⟩
    cases hp : Patch.evaluate old.toTerm (.mapping entries) with
    | ok patch => exact patched_of_ok hp o old rfl
    | error f => exact nomatch decided.failed old found f hp
  | error f =>
    refine (settle_undisturbed decided).mono fun r u settled => ?_
    rw [settled.1]
    exact ⟨undisturbed, settled.2⟩

/-! ## Batches -/

/-- Tasks that merge one mapping into documents with different keys, which are locked for it. -/
structure Merges (entries : List (Term × Term)) (codes : List String) (tasks : List Task) :
    Prop where
  keys : ∀ task ∈ tasks, task.key.isKey = true
  work : ∀ task ∈ tasks, task.work = .update (.mapping entries)
  listed : ∀ task ∈ tasks, task.key.code ∈ codes
  nodup : (tasks.map fun task => task.key.code).Nodup

/-- What a batch comes to, as against the documents in a database: each target comes to what it
should, under its key, or for one of them a number is out of range. -/
def PatchedAll (patch : Term) (table : String) (db : Database) (tasks : List Task) :
    Except Failure (List DocumentOutcome) → Prop
  | .ok os =>
    List.Forall₂ (fun task o => o.key = task.key ∧
      Patched patch (db.find? table task.key.code) (.ok o)) tasks os
  | .error f => ∃ task ∈ tasks, Patched patch (db.find? table task.key.code) (.error f)

variable {tasks more : List Task} {db : Database} {patch : Term}

theorem Merges.of_append (h : Merges entries codes (tasks ++ more)) :
    Merges entries codes tasks ∧ Merges entries codes more ∧
      ∀ task ∈ more, task.key.code ∉ tasks.map fun task => task.key.code := by
  have nodup := h.nodup
  rw [List.map_append, List.nodup_append] at nodup
  obtain ⟨first, second, apart⟩ := nodup
  refine ⟨⟨fun task ht => ?_, fun task ht => ?_, fun task ht => ?_, first⟩,
    ⟨fun task ht => ?_, fun task ht => ?_, fun task ht => ?_, second⟩, fun task ht hm => ?_⟩
  · exact h.keys task (List.mem_append_left _ ht)
  · exact h.work task (List.mem_append_left _ ht)
  · exact h.listed task (List.mem_append_left _ ht)
  · exact h.keys task (List.mem_append_right _ ht)
  · exact h.work task (List.mem_append_right _ ht)
  · exact h.listed task (List.mem_append_right _ ht)
  · exact apart _ hm _ (List.mem_map_of_mem ht) rfl

theorem Merges.of_cons (h : Merges entries codes (task :: tasks)) :
    Merges entries codes [task] ∧ Merges entries codes tasks ∧
      ∀ other ∈ tasks, other.key.code ≠ task.key.code := by
  have h : Merges entries codes ([task] ++ tasks) := h
  obtain ⟨first, rest, apart⟩ := h.of_append
  exact ⟨first, rest, fun other ho eq => apart other ho (List.mem_singleton.2 eq)⟩

theorem Merges.perm (h : Merges entries codes tasks) (perm : more.Perm tasks) :
    Merges entries codes more :=
  ⟨fun task ht => h.keys task (perm.subset ht), fun task ht => h.work task (perm.subset ht),
    fun task ht => h.listed task (perm.subset ht), (perm.map _).nodup_iff.2 h.nodup⟩

/-- Batches one after the other are one batch, as far as the first failure of one of them. -/
theorem PatchedAll.flatten {groups : List (List Task)}
    {results : List (Except Failure (List DocumentOutcome))}
    (h : List.Forall₂ (PatchedAll patch table db) groups results) :
    PatchedAll patch table db groups.flatten ((results.mapM id).map List.flatten) := by
  induction h with
  | nil => exact .nil
  | @cons group result groups results first _ ih =>
    rw [List.flatten_cons, List.mapM_cons]
    cases result with
    | error f =>
      obtain ⟨task, ht, hf⟩ := first
      exact ⟨task, List.mem_append_left _ ht, hf⟩
    | ok os =>
      cases hr : results.mapM id with
      | error f =>
        rw [hr] at ih
        obtain ⟨task, ht, hf⟩ := ih
        exact ⟨task, List.mem_append_right _ ht, hf⟩
      | ok oss =>
        rw [hr] at ih
        exact List.rel_append first ih

/-- The documents of a batch are still as they were when it comes to them. -/
theorem processAll_undisturbed (hm : Merges entries codes tasks)
    (h : s.Undisturbed request.table codes)
    (timeout : Timeout.check setup.config.lockTimeout = .ok ())
    (same : ∀ task ∈ tasks, s.database.find? request.table task.key.code =
      db.find? request.table task.key.code) :
    Ensures setup s (Writer.processAll request tasks) fun r t =>
      t.Undisturbed request.table codes ∧
        PatchedAll (.mapping entries) request.table db tasks r := by
  induction tasks generalizing s with
  | nil => exact ⟨h, .nil⟩
  | cons task rest ih =>
    obtain ⟨first, others, apart⟩ := hm.of_cons
    have here := List.mem_singleton_self task
    have key := first.keys task here
    have processed := (@process_undisturbed setup s request task codes entries key
      (first.work task here) h (first.listed task here) timeout).and
        (@process_ends setup s request task key)
    rw [same task List.mem_cons_self] at processed
    refine processed.bind ?_ ?_
    · rintro o t ⟨⟨undisturbed, patched⟩, outcome, landed⟩
      have later : ∀ other ∈ rest, t.database.find? request.table other.key.code =
          db.find? request.table other.key.code := fun other ho =>
        (landed.find?_of_ne (apart other ho)).trans (same other (List.mem_cons_of_mem _ ho))
      refine (ih others undisturbed later).bind ?_ ?_
      · rintro os u ⟨undisturbed, all⟩
        exact ⟨undisturbed, .cons ⟨outcome.key, patched⟩ all⟩
      · rintro f u ⟨undisturbed, other, ho, hf⟩
        exact ⟨undisturbed, other, List.mem_cons_of_mem _ ho, hf⟩
    · rintro f t ⟨⟨undisturbed, patched⟩, -⟩
      exact ⟨undisturbed, task, List.mem_cons_self, patched⟩

theorem processGroups_undisturbed {groups : List (List Task)}
    (hm : Merges entries codes groups.flatten) (h : s.Undisturbed request.table codes)
    (timeout : Timeout.check setup.config.lockTimeout = .ok ())
    (same : ∀ task ∈ groups.flatten, s.database.find? request.table task.key.code =
      db.find? request.table task.key.code) :
    Ensures setup s (Writer.processGroups request groups) fun r _ => ∃ results, r = .ok results ∧
      List.Forall₂ (PatchedAll (.mapping entries) request.table db) groups results := by
  induction groups generalizing s with
  | nil => exact ⟨[], rfl, .nil⟩
  | cons group rest ih =>
    rw [List.flatten_cons] at hm same
    -- The documents of the groups behind this one have other keys.
    obtain ⟨first, others, apart⟩ := hm.of_append
    have processed := (processAll_undisturbed first h timeout
      fun task ht => same task (List.mem_append_left _ ht)).and
        (Writer.processAll_ends first.keys)
    refine Ensures.attempt processed ?_
    rintro r t ⟨⟨undisturbed, patched⟩, ended⟩
    have later : ∀ task ∈ rest.flatten, t.database.find? request.table task.key.code =
        db.find? request.table task.key.code := fun task ht =>
      (ended.find?_of_not_mem (apart task ht)).trans (same task (List.mem_append_right _ ht))
    refine (ih others undisturbed later).bind ?_ (fun f u h => nomatch h.choose_spec.1)
    rintro _ u ⟨results, ⟨⟩, all⟩
    exact ⟨_, rfl, .cons patched all⟩

/-- Whoever processes the groups, a batch comes to what its documents at the start make of it. -/
theorem processTasks_undisturbed (hm : Merges entries codes tasks)
    (h : s.Undisturbed request.table codes)
    (timeout : Timeout.check setup.config.lockTimeout = .ok ()) :
    Ensures setup s (Writer.processTasks request tasks) fun r _ =>
      PatchedAll (.mapping entries) request.table s.database (Writer.inTurn tasks) r := by
  have hm := hm.perm (Writer.inTurn_perm tasks)
  refine ensures_read ?_
  split
  · refine (processGroups_undisturbed hm h timeout fun _ _ => rfl).bind ?_
      (fun f t h => nomatch h.choose_spec.1)
    rintro _ t ⟨results, ⟨⟩, all⟩
    have flat := PatchedAll.flatten all
    refine ensures_ofExcept_bind (fun oss ho => ?_) fun f hf => ?_
    · rw [ho] at flat
      exact flat
    · rw [hf] at flat
      exact flat
  · exact (processAll_undisturbed hm h timeout fun _ _ => rfl).mono fun _ _ h => h.2

end Undisturbed

end Folio
