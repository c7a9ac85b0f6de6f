import Folio.Proofs.Deciding
/-!
# Verdicts

What is to become of a target is decided before anything is written. A proposal comes first: a
candidate, or an outcome that leaves nothing to commit. A candidate is shown to the hook, whose
answer gives the verdict, and a verdict says by itself what is to be written. Up to there only the
log of calls grows, by calls that can be told from the request, the target and the document that
exists. Main statement: deciding on a target is judging it and then writing what the verdict says.
-/

namespace Folio

open Run

/-! ## Calls -/

/-- What a function answers to a call that follows the calls so far. -/
def Setup.answer (setup : Setup) (calls : List Call) (call : Call) : Except Failure Term :=
  setup.functions (calls ++ [call]) call.function call.arguments

/-- The answers of a function do not depend on the calls before. -/
def Setup.IsPure (setup : Setup) (f : FunctionRef) : Prop :=
  ∀ calls others arguments, setup.functions calls f arguments = setup.functions others f arguments

/-- The state with more calls in its log. -/
def StoreState.log (s : StoreState) (calls : List Call) : StoreState :=
  { s with calls := s.calls ++ calls }

theorem StoreState.log_nil (s : StoreState) : s.log [] = s := by
  simp [log]

theorem StoreState.log_append (s : StoreState) (calls more : List Call) :
    s.log (calls ++ more) = (s.log calls).log more := by
  simp [log]

@[simp] theorem StoreState.calls_log (s : StoreState) (calls : List Call) :
    (s.log calls).calls = s.calls ++ calls := rfl

theorem Run.exec_call (f : FunctionRef) (arguments : List Term) (setup : Setup) (s : StoreState) :
    (call f arguments).exec setup s =
      (.ok (setup.answer s.calls ⟨f, arguments⟩), s.log [⟨f, arguments⟩]) := rfl

theorem Setup.IsPure.answer {setup : Setup} {call : Call} (h : setup.IsPure call.function)
    (calls others : List Call) : setup.answer calls call = setup.answer others call :=
  h _ _ _

/-! ## Proposals and verdicts -/

/-- What a target comes to before the hook: an outcome without a commit, or a candidate, where no
document stands for a deletion. -/
inductive Proposal where
  | settled (outcome : DocumentOutcome)
  | candidate (document : Option Document)

/-- The outcome of a target, and what is to be written for it, if anything is; no document stands
for a removal. -/
structure Verdict where
  outcome : DocumentOutcome
  writes : Option (Option Document)

namespace Verdict

/-- The document after the verdict. -/
def leaves (v : Verdict) (existing : Option Document) : Option Document := v.writes.getD existing

end Verdict

namespace Commit

/-- The calls that a patch makes on an existing document. -/
def patchQuestions (old : Document) (patch : Term) : List Call :=
  match patch.callable? with
  | some f => [⟨f, [old.toTerm]⟩]
  | none => []

/-- The calls that a target makes before the hook: of the conflict function or of the caller's own
policy where the key is occupied, of a patch that is a function where there is a document. -/
def questions (request : Request) (task : Task) (existing : Option Document) : List Call :=
  match task.work, existing with
  | .insert document _, some old =>
    match request.options.conflict with
    | .custom f => [⟨f, [task.key.toTerm, old.toTerm, document.toTerm]⟩]
    | .own p => [⟨p, [.text request.keyField, task.key.toTerm, old.toTerm, document.toTerm]⟩]
    | .builtin _ => []
  | .update patch, some old => patchQuestions old patch
  | _, _ => []

/-- The entries of a patch on an existing document, by the answers to calls. -/
def patchEntries (answer : Call → Except Failure Term) (old : Document) (patch : Term) :
    Except Failure (List (Term × Term)) :=
  match patch.callable? with
  | some f => Patch.ofAnswer (answer ⟨f, [old.toTerm]⟩) >>= Patch.evaluate old.toTerm
  | none => Patch.evaluate old.toTerm patch

/-- The existing document with a patch merged into it, by the answers to calls. -/
def patched (answer : Call → Except Failure Term) (old : Document) (patch : Term) :
    Except Failure Term :=
  (patchEntries answer old patch).map fun entries => .mapping (Patch.merge old.toEntries entries)

/-- A document is a candidate if it keeps the key. -/
def keeping (request : Request) (task : Task) (document : Document) : Except Failure Proposal := do
  checkKey request.keyField task.key.toTerm (some document)
  return .candidate (some document)

/-- What the decision on an insert proposes. -/
def proposed (request : Request) (task : Task) (existing : Option Document) :
    Resolution → Except Failure Proposal
  | .reject cause => .error cause
  | .keep => .ok (.settled (task.outcome .unchanged existing existing))
  | .commit value => documentOf .malformed value >>= keeping request task

/-- What is proposed for a target, by the answers to calls. -/
def proposal (answer : Call → Except Failure Term) (request : Request) (task : Task)
    (existing : Option Document) : Except Failure Proposal :=
  match task.work, existing with
  | .insert document _, none => keeping request task document
  | .insert document _, some old =>
    match request.options.conflict with
    | .builtin .error => .error (.duplicateKey request.keyField task.key.toTerm)
    | .builtin .replace => keeping request task document
    | .builtin .update => keeping request task (old.merge document)
    | .custom f => proposed request task existing <| ConflictPolicy.ofAnswer request.keyField
      task.key.toTerm (answer ⟨f, [task.key.toTerm, old.toTerm, document.toTerm]⟩)
    | .own p => proposed request task existing <| ConflictPolicy.ofOwnAnswer
      (answer ⟨p, [.text request.keyField, task.key.toTerm, old.toTerm, document.toTerm]⟩)
  | .update patch, some old => do
    let merged ← patched answer old patch
    documentOf .patchedInvalid merged >>= keeping request task
  | .delete, some _ => .ok (.candidate none)
  | _, none => .ok (.settled (task.outcome .skipped none none))

/-- An update proposes what a patch makes of the document, if this is a document itself. -/
theorem proposal_of_patched {answer : Call → Except Failure Term} {request : Request} {task : Task}
    {patch merged : Term} {old : Document} (work : task.work = .update patch)
    (h : patched answer old patch = .ok merged) :
    proposal answer request task (some old) =
      documentOf .patchedInvalid merged >>= keeping request task := by
  unfold proposal
  rw [work]
  dsimp only
  rw [h]
  rfl

/-- An update of a document that is absent is skipped. -/
theorem proposal_of_absent {answer : Call → Except Failure Term} {request : Request} {task : Task}
    {patch : Term} (work : task.work = .update patch) :
    proposal answer request task none = .ok (.settled (task.outcome .skipped none none)) := by
  unfold proposal
  rw [work]

/-- The call of a hook on a candidate. -/
def hookCall (h : FunctionRef) (task : Task) (existing candidate : Option Document) : Call :=
  ⟨h, [task.key.toTerm, optionalDocument existing, optionalDocument candidate]⟩

/-- The calls of the hook that a proposal leads to. -/
def hookCalls (request : Request) (task : Task) (existing : Option Document) :
    Except Failure Proposal → List Call
  | .ok (.candidate candidate) =>
    request.hook.toList.map fun h => hookCall h task existing candidate
  | _ => []

/-- The verdict on what is to be written in the place of a document. -/
def verdict (task : Task) (existing : Option Document) : Option Document → Verdict
  | none =>
    if existing.isNone then ⟨task.outcome .skipped none none, none⟩
    else ⟨task.outcome .deleted existing none, some none⟩
  | some final =>
    if isUnchanged final existing then ⟨task.outcome .unchanged existing existing, none⟩
    else
      let kept := final.reread
      let kind := if existing.isNone then OutcomeKind.inserted else .replaced
      ⟨{ task.outcome kind existing (some kept) with generated := task.isGenerated },
        some (some kept)⟩

/-- What the hook lets be written in the place of a candidate, if there is a hook. -/
def allowed (answer : Call → Except Failure Term) (request : Request) (task : Task)
    (existing candidate : Option Document) : Except Failure (Option Document) :=
  match request.hook with
  | none => .ok candidate
  | some h => Hook.decide request.table request.keyField task.key.toTerm candidate.isNone
    (answer (hookCall h task existing candidate))

/-- The verdict on a target after some calls. -/
def judge (setup : Setup) (calls : List Call) (request : Request) (task : Task)
    (existing : Option Document) : Except Failure Verdict := do
  match ← proposal (setup.answer calls) request task existing with
  | .settled outcome => return ⟨outcome, none⟩
  | .candidate candidate =>
    let answer := setup.answer (calls ++ questions request task existing)
    let final ← allowed answer request task existing candidate
    return verdict task existing final

/-- The calls that judging a target makes after some calls. -/
def judgeCalls (setup : Setup) (calls : List Call) (request : Request) (task : Task)
    (existing : Option Document) : List Call :=
  questions request task existing ++
    hookCalls request task existing (proposal (setup.answer calls) request task existing)

/-- Writes what a verdict says. -/
def enact (slot : Slot) (v : Verdict) : Run DocumentOutcome :=
  match v.writes with
  | none => return v.outcome
  | some document => do
    slot.write document
    return v.outcome

variable {setup : Setup} {s : StoreState} {request : Request} {slot : Slot} {task : Task}

/-! ## What is judged, by what was proposed -/

section Judging

variable {calls : List Call} {existing candidate : Option Document} {outcome : DocumentOutcome}
variable {d : Document} {p : Proposal} {v : Verdict} {f : Failure}

theorem keeping_of_error (checked : checkKey request.keyField task.key.toTerm (some d) = .error f) :
    keeping request task d = .error f := by
  rw [keeping, checked]
  rfl

theorem keeping_eq_ok (kept : keeping request task d = .ok p) : p = .candidate (some d) := by
  unfold keeping at kept
  obtain ⟨-, -, kept⟩ := exists_of_bind_ok kept
  exact (Except.ok.inj kept).symm

theorem keeping_eq_error (refused : keeping request task d = .error f) :
    checkKey request.keyField task.key.toTerm (some d) = .error f := by
  unfold keeping at refused
  cases checked : checkKey request.keyField task.key.toTerm (some d) with
  | ok _ =>
    rw [checked] at refused
    cases refused
  | error g =>
    rw [checked] at refused
    cases refused
    rfl

theorem judge_of_error (proposed : proposal (setup.answer calls) request task existing = .error f) :
    judge setup calls request task existing = .error f := by
  unfold judge
  rw [proposed]
  rfl

theorem judge_of_settled
    (proposed : proposal (setup.answer calls) request task existing = .ok (.settled outcome)) :
    judge setup calls request task existing = .ok ⟨outcome, none⟩ := by
  unfold judge
  rw [proposed]
  rfl

theorem judge_of_candidate
    (proposed : proposal (setup.answer calls) request task existing = .ok (.candidate candidate)) :
    judge setup calls request task existing =
      (allowed (setup.answer (calls ++ questions request task existing)) request task existing
        candidate).map (verdict task existing) := by
  unfold judge
  rw [proposed]
  rfl

/-- A verdict is on what was settled before the hook, or on what the hook let be written. -/
theorem judge_eq_ok (judged : judge setup calls request task existing = .ok v) :
    (∃ outcome, proposal (setup.answer calls) request task existing = .ok (.settled outcome) ∧
        v = ⟨outcome, none⟩) ∨
      ∃ candidate final,
        proposal (setup.answer calls) request task existing = .ok (.candidate candidate) ∧
        allowed (setup.answer (calls ++ questions request task existing)) request task existing
          candidate = .ok final ∧
        v = verdict task existing final := by
  cases proposed : proposal (setup.answer calls) request task existing with
  | error f => cases (judge_of_error proposed).symm.trans judged
  | ok p =>
    cases p with
    | settled outcome =>
      cases (judge_of_settled proposed).symm.trans judged
      exact .inl ⟨outcome, rfl, rfl⟩
    | candidate candidate =>
      rw [judge_of_candidate proposed] at judged
      obtain ⟨final, passed, rfl⟩ := exists_of_map_ok judged
      exact .inr ⟨candidate, final, rfl, passed, rfl⟩

theorem allowed_eq_error {answer : Call → Except Failure Term}
    (refused : allowed answer request task existing candidate = .error f) :
    ∃ h, request.hook = some h ∧
      Hook.decide request.table request.keyField task.key.toTerm candidate.isNone
        (answer (hookCall h task existing candidate)) = .error f := by
  unfold allowed at refused
  cases hook : request.hook with
  | none =>
    rw [hook] at refused
    cases refused
  | some h =>
    rw [hook] at refused
    exact ⟨h, rfl, refused⟩

/-- Judging fails where nothing can be proposed, or where the hook refuses the candidate. -/
theorem judge_eq_error (judged : judge setup calls request task existing = .error f) :
    proposal (setup.answer calls) request task existing = .error f ∨
      ∃ candidate h,
        proposal (setup.answer calls) request task existing = .ok (.candidate candidate) ∧
        Hook.decide request.table request.keyField task.key.toTerm candidate.isNone
          (setup.answer (calls ++ questions request task existing)
            (hookCall h task existing candidate)) = .error f := by
  cases proposed : proposal (setup.answer calls) request task existing with
  | error g =>
    cases (judge_of_error proposed).symm.trans judged
    exact .inl rfl
  | ok p =>
    cases p with
    | settled outcome => cases (judge_of_settled proposed).symm.trans judged
    | candidate candidate =>
      rw [judge_of_candidate proposed] at judged
      cases passed : allowed (setup.answer (calls ++ questions request task existing)) request task
          existing candidate with
      | ok final =>
        rw [passed] at judged
        cases judged
      | error g =>
        rw [passed] at judged
        cases judged
        obtain ⟨h, -, refused⟩ := allowed_eq_error passed
        exact .inr ⟨candidate, h, rfl, refused⟩

end Judging

/-! ## Deciding by a verdict -/

theorem exec_evaluatePatch (old : Document) (patch : Term) :
    (evaluatePatch old.toTerm patch).exec setup s =
      (patchEntries (setup.answer s.calls) old patch, s.log (patchQuestions old patch)) := by
  unfold evaluatePatch patchEntries patchQuestions
  cases patch.callable? with
  | none => simp [StoreState.log_nil]
  | some f =>
    simp only [exec_bind, exec_call, exec_ofExcept, Document.copy_toTerm]
    cases Patch.ofAnswer (setup.answer s.calls ⟨f, [old.toTerm]⟩) with
    | error cause => rfl
    | ok answer =>
      dsimp only
      rfl

theorem exec_applyPatch (old : Document) (patch : Term) :
    (applyPatch old.toTerm patch).exec setup s =
      (patched (setup.answer s.calls) old patch, s.log (patchQuestions old patch)) := by
  unfold applyPatch
  rw [bind_pure_comp, exec_map, exec_evaluatePatch]
  rfl

theorem exec_intercept (existing candidate : Option Document) :
    (intercept request.hook request.table request.keyField task.key.toTerm existing
      candidate).exec setup s =
        (allowed (setup.answer s.calls) request task existing candidate,
          s.log (hookCalls request task existing (.ok (.candidate candidate)))) := by
  unfold intercept allowed hookCalls
  cases request.hook with
  | none => simp [StoreState.log_nil]
  | some h =>
    simp only [exec_bind, exec_call, exec_ofExcept]
    rfl

/-- Shows a proposal to the hook and writes what follows from it. -/
def conclude (request : Request) (slot : Slot) (task : Task) (existing : Option Document) :
    Proposal → Run DocumentOutcome
  | .settled outcome => return outcome
  | .candidate candidate => do
    let final ← intercept request.hook request.table request.keyField task.key.toTerm existing
      candidate
    enact slot (verdict task existing final)

theorem commit_eq (existing candidate : Option Document) :
    commit request slot task existing candidate = (do
      Run.ofExcept (checkKey request.keyField task.key.toTerm candidate)
      conclude request slot task existing (.candidate candidate)) := by
  unfold commit conclude
  refine bind_congr fun _ => bind_congr fun final => ?_
  cases final with
  | none => cases existing <;> rfl
  | some d =>
    dsimp only [verdict, enact]
    split <;> rfl

theorem exec_conclude (existing candidate : Option Document) :
    (conclude request slot task existing (.candidate candidate)).exec setup s =
      match allowed (setup.answer s.calls) request task existing candidate with
      | .ok final => (enact slot (verdict task existing final)).exec setup
          (s.log (hookCalls request task existing (.ok (.candidate candidate))))
      | .error f =>
        (.error f, s.log (hookCalls request task existing (.ok (.candidate candidate)))) := by
  unfold conclude
  rw [exec_bind, exec_intercept]
  cases allowed (setup.answer s.calls) request task existing candidate <;> rfl

/-- A document is committed if it keeps the key. -/
theorem exec_commit (existing : Option Document) (d : Document) :
    (commit request slot task existing (some d)).exec setup s =
      match keeping request task d with
      | .ok p => (conclude request slot task existing p).exec setup s
      | .error f => (.error f, s) := by
  rw [commit_eq, exec_bind, exec_ofExcept]
  unfold keeping
  cases checkKey request.keyField task.key.toTerm (some d) <;> rfl

/-- A term is committed if it stands for a document that keeps the key. -/
theorem exec_commit_of_term (failure : Malformed → Failure) (existing : Option Document)
    (value : Term) :
    (do
      let candidate ← Run.ofExcept (documentOf failure value)
      commit request slot task existing (some candidate) : Run DocumentOutcome).exec setup s =
      match documentOf failure value >>= keeping request task with
      | .ok p => (conclude request slot task existing p).exec setup s
      | .error f => (.error f, s) := by
  rw [exec_bind, exec_ofExcept]
  cases documentOf failure value with
  | error f => rfl
  | ok d => exact exec_commit existing d

theorem documentOf_toTerm (failure : Malformed → Failure) (d : Document) :
    documentOf failure d.toTerm = .ok d := by
  unfold documentOf
  rw [Term.validateDocument_toTerm]

theorem exec_commit_of_document (failure : Malformed → Failure) (existing : Option Document)
    (d : Document) :
    (do
      let candidate ← Run.ofExcept (documentOf failure d.toTerm)
      commit request slot task existing (some candidate) : Run DocumentOutcome).exec setup s =
      match keeping request task d with
      | .ok p => (conclude request slot task existing p).exec setup s
      | .error f => (.error f, s) := by
  rw [exec_commit_of_term, documentOf_toTerm]
  rfl

/-- The decision on an insert is carried out as what it proposes. -/
theorem exec_resolution (old : Document) (resolution : Resolution) :
    (match resolution with
      | .reject cause => throw cause
      | .keep => return task.outcome .unchanged (some old) (some old)
      | .commit value => do
        let candidate ← Run.ofExcept (documentOf .malformed value)
        commit request slot task (some old) (some candidate) : Run DocumentOutcome).exec setup s =
      match proposed request task (some old) resolution with
      | .ok p => (conclude request slot task (some old) p).exec setup s
      | .error f => (.error f, s) := by
  cases resolution with
  | reject cause => rfl
  | keep => rfl
  | commit value => exact exec_commit_of_term .malformed (some old) value

/-- The insert of a document where there is one already. -/
theorem exec_decide_occupied {document old : Document} {generated : Bool}
    (work : task.work = .insert document generated) :
    (decide request slot task (some old)).exec setup s =
      match proposal (setup.answer s.calls) request task (some old) with
      | .ok p => (conclude request slot task (some old) p).exec setup
          (s.log (questions request task (some old)))
      | .error f => (.error f, s.log (questions request task (some old))) := by
  unfold decide proposal questions
  rw [work]
  simp only [resolve, Option.map_some]
  rcases request.options.conflict with (_ | _ | _) | f | p
  · simp [StoreState.log_nil]
  · simpa [exec_bind, StoreState.log_nil] using
      exec_commit_of_document .malformed (some old) document
  · have merged : (applyPatch (.mapping old.toEntries) document.toTerm).exec setup s =
        (.ok (old.merge document).toTerm, s) :=
      Prod.ext (applyPatch_document old document).1 (applyPatch_document old document).2
    rw [exec_bind, exec_bind, merged, StoreState.log_nil]
    exact exec_commit_of_document .malformed (some old) (old.merge document)
  all_goals
    rw [exec_bind, exec_bind, exec_call]
    exact exec_resolution old _

/-- Deciding on a target is proposing something for it and concluding from that. -/
theorem exec_decide (existing : Option Document) :
    (decide request slot task existing).exec setup s =
      match proposal (setup.answer s.calls) request task existing with
      | .ok p => (conclude request slot task existing p).exec setup
          (s.log (questions request task existing))
      | .error f => (.error f, s.log (questions request task existing)) := by
  cases hw : task.work with
  | insert document generated =>
    cases existing with
    | none =>
      unfold decide proposal questions
      rw [hw]
      simpa [resolve, exec_bind, StoreState.log_nil] using
        exec_commit_of_document .malformed none document
    | some old => exact exec_decide_occupied hw
  | update patch =>
    unfold decide proposal questions
    rw [hw]
    cases existing with
    | none => simp [StoreState.log_nil, conclude]
    | some old =>
      rw [exec_bind, exec_applyPatch]
      dsimp only
      cases patched (setup.answer s.calls) old patch with
      | error f => rfl
      | ok merged => exact exec_commit_of_term .patchedInvalid (some old) merged
  | delete =>
    unfold decide proposal questions
    rw [hw]
    cases existing with
    | none => simp [StoreState.log_nil, conclude]
    | some old =>
      dsimp only
      rw [commit_eq, StoreState.log_nil]
      rfl

/-- Deciding on a target is judging it and then writing what the verdict says. -/
theorem exec_decide_judge (existing : Option Document) :
    (decide request slot task existing).exec setup s =
      match judge setup s.calls request task existing with
      | .ok v => (enact slot v).exec setup
          (s.log (judgeCalls setup s.calls request task existing))
      | .error f => (.error f, s.log (judgeCalls setup s.calls request task existing)) := by
  rw [exec_decide]
  unfold judge judgeCalls
  rcases proposal (setup.answer s.calls) request task existing with f | outcome | candidate
  · simp only [hookCalls, List.append_nil]
    rfl
  · simp only [hookCalls, List.append_nil]
    rfl
  · dsimp only
    rw [exec_conclude, StoreState.log_append]
    show _ = match (allowed (setup.answer (s.log _).calls) request task existing candidate).map
      (verdict task existing) with
      | .ok v => _
      | .error f => _
    cases allowed (setup.answer (s.log _).calls) request task existing candidate <;> rfl

theorem ensures_decide {existing : Option Document}
    {Q : Except Failure DocumentOutcome → StoreState → Prop}
    (ok : ∀ v, judge setup s.calls request task existing = .ok v →
      Ensures setup (s.log (judgeCalls setup s.calls request task existing)) (enact slot v) Q)
    (error : ∀ f, judge setup s.calls request task existing = .error f →
      Q (.error f) (s.log (judgeCalls setup s.calls request task existing))) :
    Ensures setup s (decide request slot task existing) Q := by
  rw [Ensures, exec_decide_judge]
  cases hj : judge setup s.calls request task existing with
  | ok v => exact ok v hj
  | error f => exact error f hj

/-! ## Pure functions -/

/-- The functions that a target can ask are pure. -/
structure AsksPure (setup : Setup) (request : Request) (task : Task) : Prop where
  hook : ∀ h, request.hook = some h → setup.IsPure h
  conflict : ∀ f, request.options.conflict = .custom f → setup.IsPure f
  policy : ∀ p, request.options.conflict = .own p → setup.IsPure p
  patch : ∀ patch f, task.work = .update patch → patch.callable? = some f → setup.IsPure f

/-- Pure functions judge a target by itself and the document that exists. -/
theorem judge_congr (pure : AsksPure setup request task) (calls others : List Call)
    (existing : Option Document) :
    judge setup calls request task existing = judge setup others request task existing := by
  have proposed : proposal (setup.answer calls) request task existing =
      proposal (setup.answer others) request task existing := by
    unfold proposal patched patchEntries
    split <;> try rfl
    · split <;> try rfl
      · rename_i f hf
        rw [(pure.conflict f hf).answer calls others]
      · rename_i p hp
        rw [(pure.policy p hp).answer calls others]
    · rename_i patch old hw
      cases hc : patch.callable? with
      | none => rfl
      | some f =>
        dsimp only
        rw [(pure.patch patch f hw hc).answer calls others]
  have decided : ∀ calls others candidate,
      allowed (setup.answer calls) request task existing candidate =
        allowed (setup.answer others) request task existing candidate := by
    intro calls others candidate
    unfold allowed
    split
    · rfl
    · rename_i h hh
      rw [(pure.hook h hh).answer calls others]
  unfold judge
  rw [proposed]
  simp only [decided (calls ++ _) (others ++ questions request task existing)]

end Commit

end Folio
