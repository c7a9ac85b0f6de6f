import Folio.Proofs.Merging
import Folio.Proofs.Running
import Folio.Proofs.SettledDocuments
import Folio.Writer.Commit
/-!
# What is decided on one document

A policy, a patch or a hook decides what is to become of a document, and each of them may run a
function of the caller. Whatever the function does, the decision is a document, or a failure of this
one document, and the store is left alone. Only a policy of the caller's own may refuse a document
with a failure of any other kind.
-/

namespace Folio

/-- What the store raises while a document is locked, read or written: that its lock is held, that
nobody can wait for a lock so long, or what a fault raises. -/
inductive Failure.OfStore (faults : List Fault) : Failure → Prop
  | locked (table : String) (key timeout : Term) : OfStore faults (.lockTimeout table key timeout)
  | waiting (fault : TimeoutFault) : OfStore faults (.waiting fault)
  | raised {fault : Fault} (h : fault ∈ faults) : OfStore faults fault.failure
  | reported {f : Failure} (h : OfStore faults f) : OfStore faults f.reported

/-- A policy of the caller's own refuses an insert with the failure. -/
def Failure.OfPolicy (setup : Setup) (policy : ConflictPolicy) (f : Failure) : Prop :=
  ∃ p calls arguments, policy = .own p ∧
    ConflictPolicy.ofOwnAnswer (setup.functions calls p arguments) = .reject f

/-- The policy refuses inserts with failures of documents only, as a refusal is meant to be. All but
the policies of the caller's own do. -/
def ConflictPolicy.IsTame (setup : Setup) (policy : ConflictPolicy) : Prop :=
  ∀ f : Failure, f.OfPolicy setup policy → f.kind.isDocumentWrite = true

theorem ConflictPolicy.isTame_of_ne {setup : Setup} {policy : ConflictPolicy}
    (h : ∀ p, policy ≠ .own p) : policy.IsTame setup := by
  rintro f ⟨p, -, -, own, -⟩
  exact absurd own (h p)

theorem ConflictPolicy.isTame_of_builtin {setup : Setup} {policy : ConflictPolicy}
    {p : BuiltinPolicy} (h : policy = .builtin p) : policy.IsTame setup := by
  refine isTame_of_ne fun q own => ?_
  rw [h] at own
  cases own

/-- What can go wrong with one document, by the policy of the request and the faults that are
injected. -/
inductive Failure.Arises (setup : Setup) (policy : ConflictPolicy) (faults : List Fault) :
    Failure → Prop
  | ofDocument {f : Failure} (h : f.kind.isDocumentWrite = true) : Arises setup policy faults f
  | refused {f : Failure} (h : f.OfPolicy setup policy) : Arises setup policy faults f
  | evaluation (fault : EvaluationFault) : Arises setup policy faults (.evaluation fault)
  | waiting (fault : TimeoutFault) : Arises setup policy faults (.waiting fault)
  | raised {fault : Fault} (h : fault ∈ faults) : Arises setup policy faults fault.failure
  | reported {f : Failure} (h : Arises setup policy faults f) :
    Arises setup policy faults f.reported

section Arising

variable {setup : Setup} {policy : ConflictPolicy} {faults : List Fault} {f : Failure}

theorem Failure.OfStore.arises (h : f.OfStore faults) : f.Arises setup policy faults := by
  induction h with
  | locked table key timeout => exact .ofDocument rfl
  | waiting fault => exact .waiting fault
  | raised h => exact .raised h
  | reported _ ih => exact .reported ih

/-- As long as only the database fails, nothing that goes wrong with a document makes a request
malformed, unless a policy of the caller's own does. -/
theorem Failure.Arises.not_request (h : f.Arises setup policy faults)
    (hf : ∀ fault ∈ faults, fault.kind.isDatabase = true) :
    f.OfPolicy setup policy ∨ f.kind ≠ .structural ∧ f.kind ≠ .tableNotFound := by
  induction h with
  | ofDocument h => exact .inr (by constructor <;> intro hk <;> rw [hk] at h <;> cases h)
  | refused h => exact .inl h
  | evaluation fault => exact .inr (by cases fault <;> simp [Failure.kind, Failure.evaluationKind])
  | waiting fault => exact .inr (by cases fault <;> simp [Failure.kind, TimeoutFault.kind])
  | @raised fault h =>
    have database : fault.failure.kind.isDatabase = true := hf fault h
    exact .inr (by constructor <;> intro hk <;> rw [hk] at database <;> cases database)
  | @reported f h ih =>
    unfold Failure.reported
    split
    · exact .inr ⟨by simp [Failure.kind], by simp [Failure.kind]⟩
    · exact ih

/-- As long as neither a fault nor a policy pretends that a target does not exist, nothing that goes
wrong does. -/
theorem Failure.Arises.kind_ne_targetNotFound (h : f.Arises setup policy faults)
    (hf : ∀ fault ∈ faults, fault.kind ≠ .targetNotFound)
    (hp : ∀ f : Failure, f.OfPolicy setup policy → f.kind ≠ .targetNotFound) :
    f.kind ≠ .targetNotFound := by
  induction h with
  | ofDocument h =>
    intro kind
    rw [kind] at h
    cases h
  | refused h => exact hp _ h
  | evaluation fault => cases fault <;> simp [Failure.kind, Failure.evaluationKind]
  | waiting fault => cases fault <;> simp [Failure.kind, TimeoutFault.kind]
  | raised h => exact hf _ h
  | @reported f h ih =>
    unfold Failure.reported
    split
    · simp [Failure.kind]
    · exact ih

end Arising

/-- The terms of a task are settled. -/
def Task.IsSettled (task : Task) : Prop :=
  match task.work with
  | .insert document _ => document.IsSettled
  | .update patch => patch.IsSettled
  | .delete => True

theorem Value.isSettled_of_isKey {v : Value} (h : v.isKey = true) : v.IsSettled := by
  cases v with
  | scalar s => trivial
  | list items => cases h
  | object fields => cases h

theorem Document.IsSettled.of_toTerm {d : Document} (h : d.toTerm.IsSettled) : d.IsSettled :=
  Term.isSettled_validateDocument h (Term.validateDocument_toTerm "" d)

theorem Document.IsSettled.merge {old new : Document} (h : old.IsSettled) (k : new.IsSettled) :
    (old.merge new).IsSettled := by
  have merged := Term.isSettled_merge h.toTerm k.toTerm.2
  rw [Document.merge_toEntries] at merged
  exact .of_toTerm merged

/-! ## Failures of documents -/

/-- What a document fails for is no exception of the database. -/
theorem ErrorKind.isDatabase_of_isDocumentWrite {kind : ErrorKind}
    (h : kind.isDocumentWrite = true) : kind.isDatabase = false := by
  cases kind <;> first | rfl | cases h

theorem Failure.reported_of_isDocumentWrite {f : Failure} (h : f.kind.isDocumentWrite = true) :
    f.reported = f :=
  if_neg (Bool.not_eq_true _ ▸ ErrorKind.isDatabase_of_isDocumentWrite h)

/-! ## Decisions -/

/-- A hook refuses by its veto, or by a changed key. -/
theorem Hook.kind_of_decide {table field : String} {key : Term} {deleting : Bool}
    {answer : Except Failure Term} {f : Failure}
    (h : Hook.decide table field key deleting answer = .error f) :
    f.kind = .hookAborted ∨ f.kind = .keyChanged := by
  unfold Hook.decide at h
  split at h
  · cases h
    split
    · rename_i hk
      exact .inl hk
    · exact .inl rfl
  · cases h
    exact .inl rfl
  · split at h
    · cases h
    · split at h
      · cases h
        exact .inl rfl
      · split at h
        · cases h
          exact .inl rfl
        · dsimp only at h
          split at h
          · cases h
          · cases h
            exact .inr rfl

theorem Hook.isDocumentWrite_of_decide {table field : String} {key : Term} {deleting : Bool}
    {answer : Except Failure Term} {f : Failure}
    (h : Hook.decide table field key deleting answer = .error f) :
    f.kind.isDocumentWrite = true := by
  rcases kind_of_decide h with kind | kind <;> rw [kind] <;> rfl

/-- What a hook lets be written is an answer that is a document with the same key. -/
theorem Hook.same_of_decide {table field : String} {key : Term} {deleting : Bool}
    {answer : Except Failure Term} {d : Document}
    (h : Hook.decide table field key deleting answer = .ok (some d)) :
    ∃ t, answer = .ok t ∧ t.validateDocument "write hook result" = .ok d ∧
      (d.fieldOrNull field).toTerm.same key = true := by
  unfold Hook.decide at h
  split at h
  · cases h
  · cases h
  · rename_i t _
    split at h
    · cases h
    · split at h
      · cases h
      · split at h
        · cases h
        · rename_i hv
          dsimp only at h
          split at h
          · rename_i hs
            cases h
            exact ⟨t, rfl, hv, hs⟩
          · cases h

namespace ConflictPolicy

theorem isDocumentWrite_of_ofAnswer {field : String} {key : Term} {answer : Except Failure Term}
    {f : Failure} (h : ofAnswer field key answer = .reject f) : f.kind.isDocumentWrite = true := by
  unfold ofAnswer at h
  split at h
  · cases h
    split
    · assumption
    · rfl
  · cases h
  · cases h
    rfl
  · split at h
    · cases h
      rfl
    · dsimp only at h
      split at h
      · cases h
      · cases h
        rfl

/-- What a conflict function has committed is an answer that is a document. -/
theorem commit_of_ofAnswer {field : String} {key value : Term} {answer : Except Failure Term}
    (h : ofAnswer field key answer = .commit value) :
    ∃ t d, answer = .ok t ∧ t.validateDocument "conflict resolution result" = .ok d ∧
      value = d.toTerm := by
  unfold ofAnswer at h
  split at h
  · cases h
  · cases h
  · cases h
  · rename_i t _ _
    split at h
    · cases h
    · rename_i d hv
      dsimp only at h
      split at h
      · cases h
        exact ⟨t, d, rfl, hv, rfl⟩
      · cases h

/-- What a policy of the caller's own has committed is an answer that is a document. -/
theorem commit_of_ofOwnAnswer {value : Term} {answer : Except Failure Term}
    (h : ofOwnAnswer answer = .commit value) :
    ∃ t d, answer = .ok t ∧ t.validateDocument "conflict resolution result" = .ok d ∧
      value = d.toTerm := by
  unfold ofOwnAnswer at h
  split at h
  · cases h
  · cases h
  · rename_i t _
    split at h
    · cases h
    · rename_i d hv
      cases h
      exact ⟨t, d, rfl, hv, rfl⟩

end ConflictPolicy

namespace Patch

variable {existing patch : Term} {entries : List (Term × Term)}

theorem of_lift_ok {α : Type} {r : Except EvaluationFault α} {a : α} (h : lift r = .ok a) :
    r = .ok a := by
  cases r with
  | ok b =>
    cases h
    rfl
  | error fault => cases h

theorem of_lift_error {α : Type} {r : Except EvaluationFault α} {f : Failure}
    (h : lift r = .error f) : ∃ fault, f = .evaluation fault := by
  cases r with
  | ok a => cases h
  | error fault =>
    cases h
    exact ⟨fault, rfl⟩

/-- The entries come from a mapping: the patch itself, or the value of the expression that it is. -/
theorem exists_of_evaluate (h : evaluate existing patch = .ok entries) :
    ∃ source, (patch = .mapping source ∨
      ∃ node e, patch = .expression node e ∧ e.value existing = .ok (.mapping source)) ∧
        Term.evaluatePatchEntries existing source = .ok entries := by
  unfold evaluate at h
  obtain ⟨value, hv, h⟩ := exists_of_bind_ok h
  cases value with
  | mapping source =>
    refine ⟨source, ?_, of_lift_ok h⟩
    cases patch with
    | expression node e => exact .inr ⟨node, e, rfl, of_lift_ok hv⟩
    | _ => cases hv <;> exact .inl rfl
  | _ => cases h

theorem settled_evaluate (h : evaluate existing patch = .ok entries) (he : existing.IsSettled)
    (hp : patch.IsSettled) : Term.SettledEntries entries := by
  obtain ⟨source, rfl | ⟨node, e, rfl, hv⟩, hs⟩ := exists_of_evaluate h
  · exact (Term.settledEntries_evaluatePatchEntries he source hp.2 entries hs).2
  · have := Term.settled_evaluate he e hp [] (by simp [Term.SettledSubstitution]) _ hv
    exact (Term.settledEntries_evaluatePatchEntries he source this.2 entries hs).2

theorem arises_evaluate {setup : Setup} {policy : ConflictPolicy} {faults : List Fault}
    {f : Failure} (h : evaluate existing patch = .error f) : f.Arises setup policy faults := by
  have lifted : ∀ {α : Type} {r : Except EvaluationFault α}, lift r = .error f →
      f.Arises setup policy faults := by
    intro α r hl
    obtain ⟨fault, rfl⟩ := of_lift_error hl
    exact .evaluation fault
  unfold evaluate at h
  cases hx : ofExpression existing patch with
  | error g =>
    rw [hx] at h
    cases h
    unfold ofExpression at hx
    split at hx
    · exact lifted hx
    · cases hx
  | ok value =>
    rw [hx] at h
    cases value with
    | mapping source => exact lifted h
    | _ =>
      cases h
      exact .ofDocument rfl

end Patch

/-! ## Decisions that run functions -/

section Deciding

open Run StoreState

variable {setup : Setup} {s : StoreState} {key : Value}

theorem optionalDocument_settled {o : Option Document} (h : ∀ d ∈ o, d.IsSettled) :
    (optionalDocument o).IsSettled := by
  cases o with
  | none => trivial
  | some d => exact (h d rfl).toTerm

/-- A document is merged without anything to evaluate. -/
theorem applyPatch_document (old incoming : Document) :
    Ensures setup s (Commit.applyPatch old.toTerm incoming.toTerm) fun r t =>
      r = .ok (old.merge incoming).toTerm ∧ t = s := by
  show Ensures setup s (Run.ofExcept (Patch.evaluate old.toTerm incoming.toTerm) >>= fun entries =>
    pure (Term.mapping (Patch.merge old.toEntries entries))) _
  rw [Document.evaluate_toTerm]
  refine ensures_ofExcept_bind ?_ fun f h => nomatch h
  rintro _ ⟨⟩
  rw [Document.merge_toEntries]
  exact ⟨rfl, rfl⟩

/-- The decision on an insert comes to a document, to a failure of the document, or to nothing. -/
theorem resolve_ends (policy : ConflictPolicy) (field : String) (hk : key.isKey = true)
    (existing : Option Document) (incoming : Document) :
    Ensures setup s (Commit.resolve policy field key.toTerm (existing.map Document.toEntries)
      incoming.toTerm) fun r t => Quiet s t ∧ match r with
      | .ok (.commit value) => ∃ d : Document, value = d.toTerm ∧ (setup.IsSettled →
          (∀ old ∈ existing, old.IsSettled) → incoming.IsSettled → d.IsSettled)
      | .ok (.reject f) => f.kind.isDocumentWrite = true ∨ f.OfPolicy setup policy
      | .ok .keep => True
      | .error _ => False := by
  have quiet : Quiet s s := refl s
  cases existing with
  | none => exact ⟨quiet, incoming, rfl, fun _ _ h => h⟩
  | some old =>
    have sk : key.toTerm.IsSettled := Value.isSettled_toTerm key (Value.isSettled_of_isKey hk)
    rcases policy with (_ | _ | _) | f | p
    · exact ⟨quiet, .inl rfl⟩
    · exact ⟨quiet, incoming, rfl, fun _ _ h => h⟩
    · refine Ensures.bind (applyPatch_document old incoming) ?_ (fun f t h => nomatch h.1)
      rintro value t ⟨hv, rfl⟩
      cases hv
      exact ⟨quiet, old.merge incoming, rfl, fun _ ho hi => (ho old rfl).merge hi⟩
    · refine ensures_call fun calls t quiet => ensures_pure ⟨quiet, ?_⟩
      cases hr : ConflictPolicy.ofAnswer field key.toTerm
          (setup.functions calls f [key.toTerm, .mapping old.toEntries, incoming.toTerm]) with
      | keep => trivial
      | reject f => exact .inl (ConflictPolicy.isDocumentWrite_of_ofAnswer hr)
      | commit value =>
        obtain ⟨t, d, ht, hd, rfl⟩ := ConflictPolicy.commit_of_ofAnswer hr
        refine ⟨d, rfl, fun hs ho hi => ?_⟩
        refine Term.isSettled_validateDocument (hs _ _ _ _ ?_ ht) hd
        simpa using ⟨sk, (ho old rfl).toTerm, hi.toTerm⟩
    · refine ensures_call fun calls t quiet => ensures_pure ⟨quiet, ?_⟩
      cases hr : ConflictPolicy.ofOwnAnswer (setup.functions calls p
          [.text field, key.toTerm, .mapping old.toEntries, incoming.toTerm]) with
      | keep => trivial
      | reject f => exact .inr ⟨p, calls, _, rfl, hr⟩
      | commit value =>
        obtain ⟨t, d, ht, hd, rfl⟩ := ConflictPolicy.commit_of_ofOwnAnswer hr
        refine ⟨d, rfl, fun hs ho hi => ?_⟩
        refine Term.isSettled_validateDocument (hs _ _ _ _ ?_ ht) hd
        simpa using ⟨trivial, sk, (ho old rfl).toTerm, hi.toTerm⟩

/-- What a hook lets be written has the key, unless it is what was to be written. -/
theorem intercept_ends (hook : Option FunctionRef) (table field : String) (hk : key.isKey = true)
    (old new : Option Document) :
    Ensures setup s (Commit.intercept hook table field key.toTerm old new) fun r t =>
      Quiet s t ∧ match r with
      | .ok (some d) =>
        (new = some d ∨ (d.fieldOrNull field).toTerm.same key.toTerm = true) ∧
          (setup.IsSettled → (∀ d ∈ old, d.IsSettled) → (∀ d ∈ new, d.IsSettled) → d.IsSettled)
      | .ok none => True
      | .error f => f.kind.isDocumentWrite = true := by
  cases hook with
  | none =>
    refine ensures_pure ⟨refl s, ?_⟩
    cases new with
    | none => trivial
    | some d => exact ⟨.inl rfl, fun _ _ h => h d rfl⟩
  | some f =>
    refine ensures_call fun calls t quiet => ensures_ofExcept ⟨quiet, ?_⟩
    split
    · rename_i d hr
      obtain ⟨t, ht, hd, hsame⟩ := Hook.same_of_decide hr
      refine ⟨.inr hsame, fun hs ho hn => ?_⟩
      refine Term.isSettled_validateDocument (hs _ _ _ _ ?_ ht) hd
      have sk : key.toTerm.IsSettled := Value.isSettled_toTerm key (Value.isSettled_of_isKey hk)
      simpa using ⟨sk, optionalDocument_settled ho, optionalDocument_settled hn⟩
    · trivial
    · rename_i hr
      exact Hook.isDocumentWrite_of_decide hr

/-- The entries that a patch comes to on an existing document. -/
theorem evaluatePatch_ends (old : Document) (patch : Term) :
    Ensures setup s (Commit.evaluatePatch old.toTerm patch) fun r t => Quiet s t ∧ match r with
      | .ok entries =>
        setup.IsSettled → old.IsSettled → patch.IsSettled → Term.SettledEntries entries
      | .error f => ∀ policy, f.Arises setup policy s.faults := by
  unfold Commit.evaluatePatch
  cases hc : patch.callable? with
  | none =>
    refine ensures_ofExcept ⟨refl s, ?_⟩
    cases hr : Patch.evaluate old.toTerm patch with
    | ok entries => exact fun _ ho hp => Patch.settled_evaluate hr ho.toTerm hp
    | error f => exact fun _ => Patch.arises_evaluate hr
  | some f =>
    dsimp only
    rw [Document.copy_toTerm]
    refine ensures_call fun calls t hq => ?_
    cases hr : setup.functions calls f [old.toTerm] with
    | error cause =>
      -- A failure of the function is a failure of the document.
      refine ⟨hq, fun _ => Failure.Arises.ofDocument ?_⟩
      split
      · rename_i hk
        cases hx : cause.kind <;> rw [hx] at hk <;> first | rfl | cases hk
      · rfl
    | ok answer =>
      refine Ensures.bind (P := fun r u => Quiet s u ∧ r = .ok answer) ⟨hq, rfl⟩ ?_
        (fun f t h => nomatch h.2)
      rintro _ u ⟨hu, ⟨⟩⟩
      refine ensures_ofExcept ⟨hu, ?_⟩
      cases hv : Patch.evaluate old.toTerm answer with
      | error f => exact fun _ => Patch.arises_evaluate hv
      | ok entries =>
        refine fun hs ho _ => Patch.settled_evaluate hv ho.toTerm (hs _ _ _ _ ?_ hr)
        simpa using ho.toTerm

/-- What an existing document with a patch comes to. -/
theorem applyPatch_ends (old : Document) (patch : Term) :
    Ensures setup s (Commit.applyPatch old.toTerm patch) fun r t => Quiet s t ∧ match r with
      | .ok patched =>
        setup.IsSettled → old.IsSettled → patch.IsSettled → patched.IsSettled
      | .error f => ∀ policy, f.Arises setup policy s.faults := by
  refine Ensures.bind (evaluatePatch_ends old patch) ?_ fun f t h => h
  rintro entries t ⟨hq, hs⟩
  exact ⟨hq, fun hf ho hp => Term.isSettled_merge ho.toTerm (hs hf ho hp)⟩

end Deciding

/-! ## Candidates -/

theorem same_of_checkKey {field : String} {key : Term} {candidate : Option Document} {d : Document}
    (h : Commit.checkKey field key candidate = .ok ()) (hd : candidate = some d) :
    (d.fieldOrNull field).toTerm.same key = true := by
  subst hd
  unfold Commit.checkKey at h
  dsimp only at h
  split at h
  · assumption
  · cases h

theorem kind_of_checkKey {field : String} {key : Term} {candidate : Option Document} {f : Failure}
    (h : Commit.checkKey field key candidate = .error f) : f.kind = .keyChanged := by
  unfold Commit.checkKey at h
  split at h
  · cases h
  · dsimp only at h
    split at h
    · cases h
    · cases h
      rfl

theorem isDocumentWrite_of_checkKey {field : String} {key : Term} {candidate : Option Document}
    {f : Failure} (h : Commit.checkKey field key candidate = .error f) :
    f.kind.isDocumentWrite = true := by
  rw [kind_of_checkKey h]
  rfl

theorem isDocumentWrite_of_documentOf {t : Term} {f : Failure}
    (h : Commit.documentOf .patchedInvalid t = .error f) : f.kind.isDocumentWrite = true := by
  unfold Commit.documentOf at h
  split at h
  · cases h
  · cases h
    rfl

theorem validate_of_documentOf {t : Term} {d : Document}
    (h : Commit.documentOf .patchedInvalid t = .ok d) : t.validateDocument "document" = .ok d := by
  unfold Commit.documentOf at h
  split at h
  · rename_i hv
    cases h
    exact hv
  · cases h

end Folio
