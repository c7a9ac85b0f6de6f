import Folio.Proofs.Courses
import Folio.Proofs.Outcomes
import Folio.Proofs.Reachability
import Folio.Proofs.Visits
/-!
# Hooks

Nothing is written past the hook of a table. A target offers a document to be written or a deletion,
or it comes to its end before that; an offer that keeps the key is shown to the hook, once, with the
document as it is stored at that moment, and nothing else is. What becomes of the row is decided by
the hook's answer alone.
-/

namespace Folio

open Run StoreState

/-! ## What is shown to a hook -/

/-- The document keeps the key of its target. -/
def Keeps (request : Request) (task : Task) (d : Document) : Prop :=
  (d.fieldOrNull request.keyField).toTerm.same task.key.toTerm = true

/-- The document that a target offers to be written in the place of the existing one, by the answers
to its calls: an insert offers its own document, or the one that the conflict policy makes of both,
and an update the existing document with the patch merged into it. -/
inductive Offers (answer : Call → Except Failure Term) (request : Request) (task : Task) :
    Option Document → Document → Prop
  | fresh {document : Document} {generated : Bool} (work : task.work = .insert document generated) :
    Offers answer request task none document
  | replacing {document old : Document} {generated : Bool}
      (work : task.work = .insert document generated)
      (policy : request.options.conflict = .builtin .replace) :
    Offers answer request task (some old) document
  | merging {document old : Document} {generated : Bool}
      (work : task.work = .insert document generated)
      (policy : request.options.conflict = .builtin .update) :
    Offers answer request task (some old) (old.merge document)
  | resolved {document old d : Document} {generated : Bool} {f : FunctionRef} {t : Term}
      (work : task.work = .insert document generated)
      (policy : request.options.conflict = .custom f)
      (answered : answer ⟨f, [task.key.toTerm, old.toTerm, document.toTerm]⟩ = .ok t)
      (valid : t.validateDocument "conflict resolution result" = .ok d) :
    Offers answer request task (some old) d
  | chosen {document old d : Document} {generated : Bool} {p : FunctionRef} {t : Term}
      (work : task.work = .insert document generated)
      (policy : request.options.conflict = .own p)
      (answered : answer ⟨p, [.text request.keyField, task.key.toTerm, old.toTerm,
        document.toTerm]⟩ = .ok t)
      (valid : t.validateDocument "conflict resolution result" = .ok d) :
    Offers answer request task (some old) d
  | patched {patch merged : Term} {old d : Document} (work : task.work = .update patch)
      (merged_eq : Commit.patched answer old patch = .ok merged)
      (valid : merged.validateDocument "document" = .ok d) :
    Offers answer request task (some old) d

/-- What a target comes to before the hook: it is shown to the hook as a document that keeps the key
or as a deletion, or it has ended already, with an outcome or a failure. -/
inductive Proposed (answer : Call → Except Failure Term) (request : Request) (task : Task) :
    Option Document → Except Failure Proposal → Prop
  | offer {existing : Option Document} {d : Document}
    (offers : Offers answer request task existing d)
      (keeps : Keeps request task d) :
    Proposed answer request task existing (.ok (.candidate (some d)))
  | deletion {old : Document} (work : task.work = .delete) :
    Proposed answer request task (some old) (.ok (.candidate none))
  | changedKey {existing : Option Document} {d : Document}
      (offers : Offers answer request task existing d) (changed : ¬ Keeps request task d) :
    Proposed answer request task existing (.error (.keyChanged request.keyField task.key.toTerm
      (d.fieldOrNull request.keyField).toTerm))
  | missing (work : task.isInsert = false) :
    Proposed answer request task none (.ok (.settled (task.outcome .skipped none none)))
  | occupied {document old : Document} {generated : Bool}
      (work : task.work = .insert document generated)
      (policy : request.options.conflict = .builtin .error) :
    Proposed answer request task (some old)
      (.error (.duplicateKey request.keyField task.key.toTerm))
  | keptOld {document old : Document} {generated : Bool} {f : FunctionRef}
      (work : task.work = .insert document generated)
      (policy : request.options.conflict = .custom f)
      (answered : answer ⟨f, [task.key.toTerm, old.toTerm, document.toTerm]⟩ =
        .ok (.mark .keepOld)) :
    Proposed answer request task (some old)
      (.ok (.settled (task.outcome .unchanged (some old) (some old))))
  | rejected {document old : Document} {generated : Bool} {f : FunctionRef} {cause : Failure}
      (work : task.work = .insert document generated)
      (policy : request.options.conflict = .custom f)
      (refused : ConflictPolicy.ofAnswer request.keyField task.key.toTerm
        (answer ⟨f, [task.key.toTerm, old.toTerm, document.toTerm]⟩) = .reject cause) :
    Proposed answer request task (some old) (.error cause)
  | keptByOwn {document old : Document} {generated : Bool} {p : FunctionRef}
      (work : task.work = .insert document generated)
      (policy : request.options.conflict = .own p)
      (answered : answer ⟨p, [.text request.keyField, task.key.toTerm, old.toTerm,
        document.toTerm]⟩ = .ok (.mark .keepOld)) :
    Proposed answer request task (some old)
      (.ok (.settled (task.outcome .unchanged (some old) (some old))))
  | rejectedByOwn {document old : Document} {generated : Bool} {p : FunctionRef} {cause : Failure}
      (work : task.work = .insert document generated)
      (policy : request.options.conflict = .own p)
      (refused : ConflictPolicy.ofOwnAnswer (answer ⟨p, [.text request.keyField, task.key.toTerm,
        old.toTerm, document.toTerm]⟩) = .reject cause) :
    Proposed answer request task (some old) (.error cause)
  | failedPatch {patch : Term} {old : Document} {cause : Failure} (work : task.work = .update patch)
      (failed : Commit.patched answer old patch = .error cause) :
    Proposed answer request task (some old) (.error cause)
  | invalidPatch {patch merged : Term} {old : Document} {fault : Malformed}
      (work : task.work = .update patch)
      (merged_eq : Commit.patched answer old patch = .ok merged)
      (invalid : merged.validateDocument "document" = .error fault) :
    Proposed answer request task (some old) (.error (.patchedInvalid fault))

/-- What becomes of a target that was shown to the hook, by the hook's answer alone: its outcome and
the document afterwards. -/
inductive Ruled (request : Request) (task : Task) (existing candidate : Option Document) :
    Except Failure Term → DocumentOutcome → Option Document → Prop
  | aborted : Ruled request task existing candidate (.ok (.mark .abort))
      (task.failure existing (.hookVetoed request.table task.key.toTerm)) existing
  | raised (cause : Failure) : Ruled request task existing candidate (.error cause)
      (task.failure existing (if cause.kind = .hookAborted then cause
        else .hookFailed request.table cause)) existing
  | revived {t : Term} (deleting : candidate = none) (mark : t ≠ .mark .abort)
      (value : t.isNull = false) :
    Ruled request task existing candidate (.ok t)
      (task.failure existing (.hookRevived request.table task.key.toTerm)) existing
  | invalid {t : Term} {fault : Malformed} (offered : candidate.isSome) (mark : t ≠ .mark .abort)
      (value : t.isNull = false)
      (refused : t.validateDocument "write hook result" = .error fault) :
    Ruled request task existing candidate (.ok t)
      (task.failure existing (.hookInvalid request.table fault)) existing
  | changedKey {t : Term} {d : Document} (offered : candidate.isSome)
      (valid : t.validateDocument "write hook result" = .ok d)
      (changed : ¬ Keeps request task d) :
    Ruled request task existing candidate (.ok t)
      (task.failure existing (.keyChangedByHook request.keyField task.key.toTerm
        (d.fieldOrNull request.keyField).toTerm)) existing
  | removed {t : Term} {old : Document} (null : t.isNull = true) (found : existing = some old) :
    Ruled request task existing candidate (.ok t) (task.outcome .deleted existing none) none
  | dropped {t : Term} (null : t.isNull = true) (absent : existing = none) :
    Ruled request task existing candidate (.ok t) (task.outcome .skipped none none) none
  | unchanged {t : Term} {d old : Document} (offered : candidate.isSome)
      (valid : t.validateDocument "write hook result" = .ok d) (keeps : Keeps request task d)
      (found : existing = some old) (same : d.same old = true) :
    Ruled request task existing candidate (.ok t) (task.outcome .unchanged existing existing)
      existing
  | inserted {t : Term} {d : Document} (offered : candidate.isSome)
      (valid : t.validateDocument "write hook result" = .ok d) (keeps : Keeps request task d)
      (absent : existing = none) :
    Ruled request task existing candidate (.ok t)
      { task.outcome .inserted none (some d.reread) with generated := task.isGenerated }
      (some d.reread)
  | replaced {t : Term} {d old : Document} (offered : candidate.isSome)
      (valid : t.validateDocument "write hook result" = .ok d) (keeps : Keeps request task d)
      (found : existing = some old) (differs : d.same old = false) :
    Ruled request task existing candidate (.ok t)
      { task.outcome .replaced existing (some d.reread) with generated := task.isGenerated }
      (some d.reread)

/-- The visit of a target whose table has a hook: it is stopped before its document is known, or it
ends before the hook, or it is shown to the hook. In the end the hook was called once or not at
all. -/
inductive HookVisit (setup : Setup) (h : FunctionRef) (request : Request) (task : Task)
    (s : StoreState) (existing : Option Document) :
    Except Failure DocumentOutcome → StoreState → Prop
  | stopped {t : StoreState} {f : Failure}
      (obstacle : (s.obstacles setup request.table task.key).first = some f)
      (calls : t.calls = s.calls) (database : t.database = s.database) :
    HookVisit setup h request task s existing (.ok (task.failure none f)) t
  | settled {t : StoreState} {o : DocumentOutcome}
      (proposed : Proposed (setup.answer s.calls) request task existing (.ok (.settled o)))
      (calls : t.calls = s.calls ++ Commit.questions request task existing)
      (database : t.database = s.database) :
    HookVisit setup h request task s existing (.ok o) t
  | failed {t : StoreState} {f : Failure}
      (proposed : Proposed (setup.answer s.calls) request task existing (.error f))
      (calls : t.calls = s.calls ++ Commit.questions request task existing)
      (database : t.database = s.database) :
    HookVisit setup h request task s existing (Commit.settled task existing f.reported) t
  | shown {t : StoreState} {candidate next : Option Document} {o : DocumentOutcome}
      (proposed : Proposed (setup.answer s.calls) request task existing
        (.ok (.candidate candidate)))
      (calls : t.calls = s.calls ++ Commit.questions request task existing ++
        [Commit.hookCall h task existing candidate])
      (ruled : Ruled request task existing candidate
        (setup.answer (s.calls ++ Commit.questions request task existing)
          (Commit.hookCall h task existing candidate)) o next)
      (row : t.database.find? request.table task.key.code = next)
      (kept : o.kind.isWrite = false → t.database = s.database)
      (others : ∀ table code, (table = request.table → code ≠ task.key.code) →
        t.database.find? table code = s.database.find? table code) :
    HookVisit setup h request task s existing (.ok o) t
  | unwritten {t : StoreState} {candidate next : Option Document} {o : DocumentOutcome}
      {f : Failure}
      (proposed : Proposed (setup.answer s.calls) request task existing
        (.ok (.candidate candidate)))
      (calls : t.calls = s.calls ++ Commit.questions request task existing ++
        [Commit.hookCall h task existing candidate])
      (ruled : Ruled request task existing candidate
        (setup.answer (s.calls ++ Commit.questions request task existing)
          (Commit.hookCall h task existing candidate)) o next)
      (write : o.kind.isWrite = true)
      (obstacle : (s.obstacles setup request.table task.key).write = some f)
      (database : t.database = s.database) :
    HookVisit setup h request task s existing (.ok (task.failure existing f)) t

section Hooking

variable {setup : Setup} {s t : StoreState} {request : Request} {task : Task} {h : FunctionRef}
variable {answer : Call → Except Failure Term} {existing candidate : Option Document}

/-- An offer is shown to the hook if it keeps the key, and fails otherwise. -/
theorem Offers.proposed {d : Document} (offers : Offers answer request task existing d) :
    Proposed answer request task existing (Commit.keeping request task d) := by
  unfold Commit.keeping Commit.checkKey
  by_cases keeps : (d.fieldOrNull request.keyField).toTerm.same task.key.toTerm = true
  · simp only [keeps, if_true]
    exact .offer offers keeps
  · simp only [keeps]
    exact .changedKey offers keeps

theorem answered_of_keep {field : String} {key : Term} {r : Except Failure Term}
    (kept : ConflictPolicy.ofAnswer field key r = .keep) : r = .ok (.mark .keepOld) := by
  unfold ConflictPolicy.ofAnswer at kept
  split at kept
  · cases kept
  · rfl
  · cases kept
  · split at kept
    · cases kept
    · dsimp only at kept
      split at kept
      · cases kept
      · cases kept

/-- A conflict function proposes what its answer resolves to. -/
theorem proposed_of_ofAnswer {document old : Document} {generated : Bool} {f : FunctionRef}
    (work : task.work = .insert document generated)
    (policy : request.options.conflict = .custom f) :
    Proposed answer request task (some old) (Commit.proposed request task (some old)
      (ConflictPolicy.ofAnswer request.keyField task.key.toTerm
        (answer ⟨f, [task.key.toTerm, old.toTerm, document.toTerm]⟩))) := by
  cases resolution : ConflictPolicy.ofAnswer request.keyField task.key.toTerm
      (answer ⟨f, [task.key.toTerm, old.toTerm, document.toTerm]⟩) with
  | reject cause => exact .rejected work policy resolution
  | keep => exact .keptOld work policy (answered_of_keep resolution)
  | commit value =>
    obtain ⟨t, d, answered, valid, rfl⟩ := ConflictPolicy.commit_of_ofAnswer resolution
    rw [Commit.proposed, Commit.documentOf_toTerm]
    exact Offers.proposed (.resolved work policy answered valid)

theorem answered_of_ownKeep {r : Except Failure Term}
    (kept : ConflictPolicy.ofOwnAnswer r = .keep) : r = .ok (.mark .keepOld) := by
  unfold ConflictPolicy.ofOwnAnswer at kept
  split at kept
  · cases kept
  · rfl
  · split at kept
    · cases kept
    · cases kept

/-- A policy of the caller's own proposes what its answer resolves to. -/
theorem proposed_of_ofOwnAnswer {document old : Document} {generated : Bool} {p : FunctionRef}
    (work : task.work = .insert document generated)
    (policy : request.options.conflict = .own p) :
    Proposed answer request task (some old) (Commit.proposed request task (some old)
      (ConflictPolicy.ofOwnAnswer (answer ⟨p, [.text request.keyField, task.key.toTerm, old.toTerm,
        document.toTerm]⟩))) := by
  cases resolution : ConflictPolicy.ofOwnAnswer (answer ⟨p, [.text request.keyField,
      task.key.toTerm, old.toTerm, document.toTerm]⟩) with
  | reject cause => exact .rejectedByOwn work policy resolution
  | keep => exact .keptByOwn work policy (answered_of_ownKeep resolution)
  | commit value =>
    obtain ⟨t, d, answered, valid, rfl⟩ := ConflictPolicy.commit_of_ofOwnAnswer resolution
    rw [Commit.proposed, Commit.documentOf_toTerm]
    exact Offers.proposed (.chosen work policy answered valid)

theorem proposed_of_patch {patch : Term} {old : Document} (work : task.work = .update patch) :
    Proposed answer request task (some old) (do
      let merged ← Commit.patched answer old patch
      Commit.documentOf .patchedInvalid merged >>= Commit.keeping request task) := by
  cases merged : Commit.patched answer old patch with
  | error cause => exact .failedPatch work merged
  | ok value =>
    show Proposed answer request task (some old)
      (Commit.documentOf .patchedInvalid value >>= Commit.keeping request task)
    unfold Commit.documentOf
    cases valid : value.validateDocument "document" with
    | error fault => exact .invalidPatch work merged valid
    | ok d => exact Offers.proposed (.patched work merged valid)

/-- A target is proposed as its work, its policy and the answers to its calls say. -/
theorem proposed_proposal (answer : Call → Except Failure Term) (request : Request) (task : Task)
    (existing : Option Document) :
    Proposed answer request task existing (Commit.proposal answer request task existing) := by
  unfold Commit.proposal
  cases work : task.work with
  | insert document generated =>
    cases existing with
    | none => exact (Offers.fresh work).proposed
    | some old =>
      rcases policy : request.options.conflict with (_ | _ | _) | f | p
      · exact .occupied work policy
      · exact (Offers.replacing work policy).proposed
      · exact (Offers.merging work policy).proposed
      · exact proposed_of_ofAnswer work policy
      · exact proposed_of_ofOwnAnswer work policy
  | update patch =>
    cases existing with
    | none => exact .missing (by simp [Task.isInsert, work])
    | some old => exact proposed_of_patch work
  | delete =>
    cases existing with
    | none => exact .missing (by simp [Task.isInsert, work])
    | some old => exact .deletion work

theorem Hook.decide_of_ne {table field : String} {key t : Term} {deleting : Bool}
    (mark : t ≠ .mark .abort) :
    Hook.decide table field key deleting (.ok t) =
      if t.isNull then .ok none
      else if deleting then .error (.hookRevived table key)
      else
        match t.validateDocument "write hook result" with
        | .error fault => .error (.hookInvalid table fault)
        | .ok d =>
          if (d.fieldOrNull field).toTerm.same key then .ok (some d)
          else .error (.keyChangedByHook field key (d.fieldOrNull field).toTerm) := by
  unfold Hook.decide
  split
  · rename_i h
    cases h
  · rename_i h
    exact absurd (Except.ok.inj h) mark
  · rename_i h
    cases h
    rfl

/-- What becomes of a target by the decision on a hook's answer. -/
def RuledBy (request : Request) (task : Task) (existing candidate : Option Document)
    (r : Except Failure Term) : Except Failure (Option Document) → Prop
  | .ok final => Ruled request task existing candidate r
    (Commit.verdict task existing final).outcome
    ((Commit.verdict task existing final).leaves existing)
  | .error f => Ruled request task existing candidate r (task.failure existing f) existing

theorem ruled_of_null {t : Term} (null : t.isNull = true) :
    RuledBy request task existing candidate (.ok t) (.ok none) := by
  unfold RuledBy Commit.verdict
  cases existing with
  | none => exact .dropped null rfl
  | some old => exact .removed null rfl

theorem ruled_of_document {t : Term} {d : Document} (offered : candidate.isSome)
    (valid : t.validateDocument "write hook result" = .ok d) (keeps : Keeps request task d) :
    RuledBy request task existing candidate (.ok t) (.ok (some d)) := by
  unfold RuledBy Commit.verdict
  cases existing with
  | none => exact .inserted offered valid keeps rfl
  | some old =>
    cases same : d.same old with
    | true =>
      simp only [Commit.isUnchanged, same, if_true]
      exact .unchanged offered valid keeps rfl same
    | false =>
      simp only [Commit.isUnchanged, same]
      exact .replaced offered valid keeps rfl same

/-- The answer of a hook decides alone. -/
theorem ruled_of_decide (r : Except Failure Term) :
    RuledBy request task existing candidate r
      (Hook.decide request.table request.keyField task.key.toTerm candidate.isNone r) := by
  cases r with
  | error cause => exact .raised cause
  | ok t =>
    by_cases mark : t = .mark .abort
    · subst mark
      exact .aborted
    rw [Hook.decide_of_ne mark]
    by_cases null : t.isNull = true
    · rw [if_pos null]
      exact ruled_of_null null
    rw [if_neg null]
    have value : t.isNull = false := Bool.eq_false_iff.2 null
    cases candidate with
    | none => exact .revived rfl mark value
    | some offered =>
      simp only [Option.isNone_some, Bool.false_eq_true, if_false]
      cases valid : t.validateDocument "write hook result" with
      | error fault => exact .invalid rfl mark value valid
      | ok d =>
        by_cases keeps : (d.fieldOrNull request.keyField).toTerm.same task.key.toTerm = true
        · dsimp only
          rw [if_pos keeps]
          exact ruled_of_document rfl valid keeps
        · dsimp only
          rw [if_neg keeps]
          exact .changedKey rfl valid keeps

/-! ## Visits -/

theorem isWrite_verdict (existing final : Option Document) :
    (Commit.verdict task existing final).outcome.kind.isWrite =
      (Commit.verdict task existing final).writes.isSome := by
  unfold Commit.verdict
  split
  · split <;> rfl
  · split
    · rfl
    · cases existing <;> rfl

/-- A target that was shown to the hook ends by its verdict, if what is to be written can be. -/
theorem hookVisit_of_verdict
    (offered : Proposed (setup.answer s.calls) request task existing (.ok (.candidate candidate)))
    (asked : t.calls = s.calls ++ Commit.questions request task existing ++
      [Commit.hookCall h task existing candidate])
    (found : s.database.find? request.table task.key.code = existing) {v : Verdict}
    (ruled : Ruled request task existing candidate
      (setup.answer (s.calls ++ Commit.questions request task existing)
        (Commit.hookCall h task existing candidate)) v.outcome (v.leaves existing))
    (write : v.outcome.kind.isWrite = v.writes.isSome) {ended : Except Failure Verdict}
    (ended_eq : ended = Commit.ended (s.obstacles setup request.table task.key).write task existing
      (.ok v))
    (database : t.database = s.database.follow request.table task.key.code ended) :
    HookVisit setup h request task s existing (ended.map Verdict.outcome) t := by
  obtain ⟨o, writes⟩ := v
  cases writes with
  | none =>
    subst ended_eq
    have same : t.database = s.database := database
    exact .shown offered asked ruled (by rw [same, found]; rfl) (fun _ => same)
      (fun _ _ _ => by rw [same])
  | some document =>
    cases obstacle : (s.obstacles setup request.table task.key).write with
    | some f =>
      rw [obstacle] at ended_eq
      subst ended_eq
      exact .unwritten offered asked ruled write obstacle database
    | none =>
      rw [obstacle] at ended_eq
      subst ended_eq
      refine .shown offered asked ruled ?_ (fun kept => ?_) (fun table code apart => ?_)
      · rw [database, ← found]
        exact Database.find?_follow_self
      · rw [show o.kind.isWrite = true from write] at kept
        cases kept
      · rw [database]
        exact Database.find?_follow_of_ne apart

/-- A target that is shown to the hook ends as the hook's answer says, if it can be written. -/
theorem hookVisit_of_candidate (hook : request.hook = some h)
    (proposed : Commit.proposal (setup.answer s.calls) request task existing =
      .ok (.candidate candidate))
    (found : s.database.find? request.table task.key.code = existing)
    {ended : Except Failure Verdict}
    (ended_eq : ended = Commit.ended (s.obstacles setup request.table task.key).write task existing
      (Commit.judge setup s.calls request task existing))
    (database : t.database = s.database.follow request.table task.key.code ended)
    (calls : t.calls = s.calls ++ Commit.judgeCalls setup s.calls request task existing) :
    HookVisit setup h request task s existing (ended.map Verdict.outcome) t := by
  have offered := proposed_proposal (setup.answer s.calls) request task existing
  have asked : t.calls = s.calls ++ Commit.questions request task existing ++
      [Commit.hookCall h task existing candidate] := by
    rw [calls, Commit.judgeCalls, proposed, Commit.hookCalls, hook, List.append_assoc]
    rfl
  have judged : Commit.judge setup s.calls request task existing =
      (Hook.decide request.table request.keyField task.key.toTerm candidate.isNone
        (setup.answer (s.calls ++ Commit.questions request task existing)
          (Commit.hookCall h task existing candidate))).map (Commit.verdict task existing) := by
    rw [Commit.judge_of_candidate proposed, Commit.allowed, hook]
  have ruled := @ruled_of_decide request task existing candidate
    (setup.answer (s.calls ++ Commit.questions request task existing)
      (Commit.hookCall h task existing candidate))
  rw [proposed] at offered
  rw [judged] at ended_eq
  cases decided : Hook.decide request.table request.keyField task.key.toTerm candidate.isNone
      (setup.answer (s.calls ++ Commit.questions request task existing)
        (Commit.hookCall h task existing candidate)) with
  | error f =>
    have settled : Commit.settled task existing f.reported = .ok (task.failure existing f) :=
      settled_of_isDocumentWrite existing (Hook.isDocumentWrite_of_decide decided)
    rw [decided] at ruled ended_eq
    -- The failure is an outcome that writes nothing.
    refine hookVisit_of_verdict (v := ⟨task.failure existing f, none⟩) offered asked found ruled rfl
      ?_ database
    rw [ended_eq]
    show (Commit.settled task existing f.reported).map _ = _
    rw [settled]
    rfl
  | ok final =>
    rw [decided] at ruled ended_eq
    exact hookVisit_of_verdict offered asked found ruled (isWrite_verdict existing final) ended_eq
      database

/-- Processing a target whose table has a hook is such a visit. -/
theorem hook_steps (hook : request.hook = some h)
    (timeout : Timeout.check setup.config.lockTimeout = .ok ()) {tasks : List Task} :
    Steps setup request tasks Orderly fun task s r t =>
      HookVisit setup h request task s (s.database.find? request.table task.key.code) r t := by
  intro task _ s orderly
  refine (process_course orderly timeout).mono ?_
  rintro _ t ⟨onward, rfl, database, calls⟩
  refine ⟨orderly.onward onward, ?_⟩
  unfold Commit.courseIn Commit.course at database ⊢
  unfold Commit.courseCalls at calls
  cases first : (s.obstacles setup request.table task.key).first with
  | some f =>
    rw [first] at database calls
    exact .stopped first (calls.trans (List.append_nil _)) database
  | none =>
    rw [first] at database calls
    dsimp only at database calls ⊢
    generalize found : s.database.find? request.table task.key.code = existing at database calls ⊢
    have proposed := proposed_proposal (setup.answer s.calls) request task existing
    cases hp : Commit.proposal (setup.answer s.calls) request task existing with
    | error f =>
      rw [hp] at proposed
      have judged := Commit.judge_of_error hp
      have asked : t.calls = s.calls ++ Commit.questions request task existing := by
        rw [calls, Commit.judgeCalls, hp]
        exact congrArg _ (List.append_nil _)
      rw [judged] at database ⊢
      unfold Commit.ended at database ⊢
      dsimp only at database ⊢
      have visit := HookVisit.failed (t := t) (h := h) proposed asked
      generalize Commit.settled task existing f.reported = r at database visit ⊢
      cases r <;> exact visit database
    | ok p =>
      cases p with
      | settled o =>
        rw [hp] at proposed
        have judged := Commit.judge_of_settled hp
        have asked : t.calls = s.calls ++ Commit.questions request task existing := by
          rw [calls, Commit.judgeCalls, hp]
          exact congrArg _ (List.append_nil _)
        rw [judged] at database ⊢
        exact .settled proposed asked database
      | candidate candidate => exact hookVisit_of_candidate hook hp found rfl database calls

end Hooking

namespace Writer

/-- Nothing is written past the hook of a table. In every reachable store, a request on a table with
a hook is refused before any target, having called functions with one document each, or it visits
its targets, or some of them up to one that ends it. At each visit the hook is called once if the
target is shown to it, and not at all otherwise, and what becomes of the row is what the hook's
answer says. -/
theorem hook_governs {c : Console} (hc : c.Reachable) {setup : Setup}
    (timeout : Timeout.check setup.config.lockTimeout = .ok ())
    (faults : ∀ f ∈ c.state.faults, f.IsOfSlot) {selector : Selector Term} {h : FunctionRef}
    (hook : Entries.find? c.state.hooks selector.tableName = some h) (mutation : Mutation Term)
    (conflict durability returnChanges : Term) :
    Ensures setup c.state
      (submit (.selector selector) (.mutation mutation) conflict durability returnChanges)
      fun r t =>
        (∃ f, r = .error f ∧ Browsed c.state t ∧
          (optionsOf conflict durability returnChanges = .error f ∨
            ∃ options, optionsOf conflict durability returnChanges = .ok options ∧
              ((plan selector mutation options).exec setup c.state).1 = .error f)) ∨
        ∃ options request tasks planned ended last,
          optionsOf conflict durability returnChanges = .ok options ∧
          (plan selector mutation options).exec setup c.state = (.ok (request, tasks), planned) ∧
          Browsed c.state planned ∧
          Visited (fun task s r t =>
            HookVisit setup h request task s (s.database.find? request.table task.key.code) r t)
            (inTurn tasks) planned ended last ∧
          r = ended.map (fun os => Report.ofOutcomes options.detail (inOrder os)) ∧
          t.database = last.database ∧ t.calls = last.calls := by
  have orderly : c.state.Orderly := ⟨faults, hc.sound.locks⟩
  unfold submit
  refine ensures_ofExcept_bind (fun options given => ?_) fun f refused =>
    .inl ⟨f, rfl, refl c.state, .inl refused⟩
  have reported := @execute_outcomes setup c.state selector mutation options
  have browsed := plan_browses browsing_browsed selector mutation options setup c.state
  show Ensures setup c.state (execute selector mutation options) _
  refine reported.mono ?_
  rintro _ t ⟨rfl, counted⟩
  generalize planned_eq : (plan selector mutation options).exec setup c.state = planned at browsed
  obtain ⟨f | ⟨request, tasks⟩, planned⟩ := planned
  · have refused : (outcomes selector mutation options).exec setup c.state =
        (.error f, planned) := by
      unfold outcomes
      rw [exec_bind, planned_eq]
    rw [refused] at counted ⊢
    refine .inl ⟨f, rfl, ⟨?_, ?_, ?_, ?_, ?_⟩, .inr ⟨options, given, by rw [planned_eq]⟩⟩
    · exact counted.database.trans browsed.database
    · exact counted.hooks.trans browsed.hooks
    · exact counted.locks.trans browsed.locks
    · exact counted.faults.trans browsed.faults
    · rw [counted.calls]
      exact browsed.calls
  · obtain ⟨-, request_eq, -⟩ := tasks_of_plan orderly planned_eq
    have shown : request.hook = some h := (congrArg Request.hook request_eq).trans hook
    have start : planned.Orderly :=
      ⟨fun f hf => faults f (browsed.faults ▸ hf), browsed.locks ▸ hc.sound.locks⟩
    have steps : Steps setup request tasks Orderly _ := hook_steps shown timeout
    have visited := processTasks_visited steps start
    have ended := ensures_outcomes planned_eq (Q := fun r u => ∃ ended, r = ended.map inOrder ∧
      Visited (fun task s r t =>
        HookVisit setup h request task s (s.database.find? request.table task.key.code) r t)
        (inTurn tasks) planned ended u) ⟨_, rfl, visited.2⟩
    unfold Ensures at ended
    generalize (outcomes selector mutation options).exec setup c.state = run at counted ended ⊢
    obtain ⟨r, last⟩ := run
    obtain ⟨ended, rfl, visited⟩ := ended
    refine .inr ⟨options, request, tasks, planned, ended, last, given, planned_eq, browsed, visited,
      ?_, counted.database, counted.calls⟩
    cases ended <;> rfl

/-- Two documents are to be deleted, one of which does not exist; the hook is called once. -/
theorem hook_governs_people :
    ∃ report t, (submit (.selector (.getAll "people" [.int 1, .int 9])) (.mutation .delete)
        (.text "error") (.text "hard") (.bool true)).exec .echo Console.people.state =
          (.ok report, t) ∧
      t.calls.length = Console.people.state.calls.length + 1 ∧
      ∃ request tasks planned os last,
        Visits (fun task s r t => HookVisit .echo ⟨0, "echo"⟩ request task s
          (s.database.find? request.table task.key.code) r t) (inTurn tasks) planned
          (os.map .ok) last ∧
        report = Report.ofOutcomes .written (inOrder os) ∧ t.calls = last.calls := by
  have deleted : (match (submit (.selector (.getAll "people" [.int 1, .int 9])) (.mutation .delete)
      (.text "error") (.text "hard") (.bool true)).exec .echo Console.people.state with
    | (.ok _, t) => decide (t.calls.length = Console.people.state.calls.length + 1)
    | (.error _, _) => false) = true := by decide +kernel
  have faults : ∀ f ∈ Console.people.state.faults, f.IsOfSlot := by
    rw [Console.faults_people]
    exact List.forall_mem_nil _
  have hook : Entries.find? Console.people.state.hooks "people" = some ⟨0, "echo"⟩ := by
    decide +kernel
  have governed := @hook_governs _ Console.reachable_people .echo rfl faults
    (.getAll "people" [.int 1, .int 9]) _ hook .delete (.text "error") (.text "hard") (.bool true)
  rw [Ensures] at governed
  generalize (submit _ _ _ _ _).exec .echo Console.people.state = run at governed deleted ⊢
  obtain ⟨f | report, t⟩ := run
  · cases deleted
  · obtain ⟨f, ⟨⟩, -⟩ | ⟨options, request, tasks, planned, ended, last, given, -, -, visited, r, -,
      calls⟩ := governed
    cases ended with
    | error f => cases r
    | ok os =>
      cases given
      exact ⟨report, t, rfl, of_decide_eq_true deleted, request, tasks, planned, os, last, visited,
        Except.ok.inj r, calls⟩

end Writer

end Folio
