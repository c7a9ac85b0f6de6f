import Folio.Proofs.Idempotent
/-!
# Causes of failures

Whatever faults strike, a target has two sources of failure: the judgement on its document, and the
store, which locks, reads and writes it. Main statement: a target that comes to an outcome was
judged and ends as its verdict says, or its outcome settles a failure from one of these sources.
-/

namespace Folio

open Run StoreState

variable {setup : Setup} {s : StoreState} {request : Request} {task : Task} {faults : List Fault}

/-- The failure came from the store, or from judging the document that there was. -/
def Failure.IsCauseIn (setup : Setup) (s : StoreState) (request : Request) (task : Task)
    (cause : Failure) : Prop :=
  cause.OfStore s.faults ∨ ∃ calls f, cause = f.reported ∧
    Commit.judge setup calls request task
      (s.database.find? request.table task.key.code) = .error f

namespace Commit

/-- The document was judged, and this is the outcome. -/
def JudgedTo (setup : Setup) (s : StoreState) (request : Request) (task : Task)
    (o : DocumentOutcome) : Prop :=
  ∃ calls v, judge setup calls request task
    (s.database.find? request.table task.key.code) = .ok v ∧ o = v.outcome

/-- What an attempt comes to, by the sources of its failures. -/
def AttemptCaused (setup : Setup) (s : StoreState) (request : Request) (task : Task) :
    Except Failure Attempted → Prop
  | .ok (.done o) => JudgedTo setup s request task o
  | .ok (.failed _ cause) => cause.IsCauseIn setup s request task
  | .error cause => cause.OfStore s.faults

theorem enact_caused (table : String) (key : Value) (v : Verdict) :
    Ensures setup s (enact ⟨table, key.toTerm⟩ v) fun r _ => match r with
      | .ok o => o = v.outcome
      | .error f => f.OfStore s.faults := by
  obtain ⟨outcome, _ | document⟩ := v
  · exact ensures_pure rfl
  · exact (slot_write table key document).bind (fun _ _ _ => ensures_pure rfl) fun _ _ h => h

theorem attempt_caused : Ensures setup s (attempt request task) fun r _ =>
    AttemptCaused setup s request task r := by
  refine lockedWhen_ensures (Q := fun r _ => AttemptCaused setup s request task r) request.table
    task.key (attempt_writes writing_written request task) (fun u kept => ?_) fun f h => h
  refine (slot_read request.table task.key).bind ?_ ?_
  · rintro existing t ⟨ticked, found⟩
    have faults : t.faults = s.faults := ticked.quiet.faults.trans kept.steady.faults
    have found : existing = s.database.find? request.table task.key.code :=
      kept.database ▸ found
    subst found
    refine Ensures.attempt (P := fun r _ => match r with
      | .ok o => JudgedTo setup s request task o
      | .error f => f.OfStore s.faults ∨ ∃ calls, judge setup calls request task
          (s.database.find? request.table task.key.code) = .error f) ?_ ?_
    · refine ensures_decide (fun v judged => ?_) fun f judged => .inr ⟨t.calls, judged⟩
      refine (enact_caused request.table task.key v).mono ?_
      rintro (f | o) _ ended
      · exact .inl (faults ▸ ended)
      · exact ⟨t.calls, v, judged, ended⟩
    · rintro (f | o) _ ended
      · refine ensures_pure (Or.imp (fun h => .reported h) ?_ ended)
        exact fun ⟨calls, judged⟩ => ⟨calls, f, rfl, judged⟩
      · exact ensures_pure ended
  · rintro f t ⟨-, ofStore⟩
    exact .reported (kept.steady.faults ▸ ofStore)

/-- A target that comes to an outcome was judged, or its failure was settled. -/
theorem process_caused : Ensures setup s (process request task) fun r _ => ∀ o, r = .ok o →
    JudgedTo setup s request task o ∨ ∃ existing cause, cause.IsCauseIn setup s request task ∧
      settled task existing cause = .ok o := by
  have attempted := @attempt_caused setup s request task
  rw [Ensures, exec_process]
  unfold Ensures at attempted
  generalize (attempt request task).exec setup s = ended at attempted
  obtain ⟨f | (o | ⟨existing, cause⟩), t⟩ := ended
  · exact fun o ended => .inr ⟨none, f, .inl attempted, ended⟩
  · rintro _ ⟨⟩
    exact .inl attempted
  · exact fun o ended => .inr ⟨existing, cause, attempted, ended⟩

/-- A failure that was settled is the outcome, or the target was skipped for it. -/
theorem of_settled {existing : Option Document} {cause : Failure} {o : DocumentOutcome}
    (h : settled task existing cause = .ok o) :
    (cause.kind = .targetNotFound ∧ o = task.outcome .skipped none none) ∨
      o = task.failure existing cause := by
  unfold settled at h
  split at h
  · rename_i absent
    obtain ⟨kind, -⟩ := Bool.and_eq_true_iff.1 absent
    exact .inl ⟨of_decide_eq_true kind, (Except.ok.inj h).symm⟩
  · split at h
    · exact .inr (Except.ok.inj h).symm
    · cases h

/-- What the decision on an insert settles is left as it is. -/
theorem kind_of_proposed {existing : Option Document} {resolution : Resolution}
    {o : DocumentOutcome} (h : proposed request task existing resolution = .ok (.settled o)) :
    o.kind = .unchanged := by
  cases resolution with
  | commit value =>
    obtain ⟨d, -, kept⟩ := exists_of_bind_ok h
    exact nomatch keeping_eq_ok kept
  | reject cause => cases h
  | keep =>
    cases h
    rfl

/-- What is judged without a candidate is left as it is. -/
theorem kind_of_proposal {answer : Call → Except Failure Term} {existing : Option Document}
    {o : DocumentOutcome} (h : proposal answer request task existing = .ok (.settled o)) :
    o.kind = .unchanged ∨ o.kind = .skipped := by
  have keeps : ∀ d, keeping request task d ≠ .ok (.settled o) := fun d kept =>
    nomatch keeping_eq_ok kept
  unfold proposal at h
  split at h
  · exact absurd h (keeps _)
  · split at h
    · cases h
    · exact absurd h (keeps _)
    · exact absurd h (keeps _)
    · exact .inl (kind_of_proposed h)
    · exact .inl (kind_of_proposed h)
  · obtain ⟨merged, -, h⟩ := exists_of_bind_ok h
    obtain ⟨d, -, kept⟩ := exists_of_bind_ok h
    exact absurd kept (keeps d)
  · cases h
  · cases h
    exact .inr rfl

/-- What is judged to an outcome has not failed. -/
theorem kind_of_judge {calls : List Call} {existing : Option Document} {v : Verdict}
    (h : judge setup calls request task existing = .ok v) : v.outcome.kind ≠ .error := by
  rcases judge_eq_ok h with ⟨outcome, proposed, rfl⟩ | ⟨candidate, final, -, -, rfl⟩
  · rcases kind_of_proposal proposed with kind | kind <;> rw [kind] <;> exact fun h => nomatch h
  · exact kind_verdict task existing final

end Commit

end Folio
