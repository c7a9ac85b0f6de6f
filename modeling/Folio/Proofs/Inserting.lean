import Folio.Proofs.Courses
import Folio.Proofs.Outcomes
import Folio.Proofs.Planning
/-!
# Inserts

The tasks of an insert follow from its documents and from the number of keys that were generated
before, one document after the other, so a document is planned the same in a batch and by itself.
Judging an insert never fails otherwise than as the failure of its document, unless a policy of the
caller's own does, and beyond the place that the outcome stands in, the place of a task does not
matter.
-/

namespace Folio

open Run StoreState

variable {setup : Setup} {s t : StoreState} {request : Request} {task : Task} {field : String}

/-- A target of a batch of inserts: it has a key and inserts a document. -/
def Task.Inserts (task : Task) : Prop :=
  task.key.isKey = true ∧ ∃ document generated, task.work = .insert document generated

namespace Target

/-! ## Plans -/

/-- The document with its key in front, and whether the key was generated, after so many keys. -/
def keyed (setup : Setup) (field : String) (count : Nat) (d : Document) : Document × Bool :=
  if Entries.has d field then (d, false)
  else ((field, .scalar (.text (setup.freshKey count))) :: d, true)

/-- The number of keys that were generated once a document has its key. -/
def drawn (field : String) (count : Nat) (d : Document) : Nat :=
  if Entries.has d field then count else count + 1

theorem exec_withKey (d : Document) :
    (withKey field d).exec setup s =
      (.ok (keyed setup field s.generated d),
        { s with generated := drawn field s.generated d }) := by
  unfold withKey keyed drawn
  by_cases h : Entries.has d field
  · simp only [h]
    rfl
  · simp only [h]
    rfl

/-- The task of a document in a place, after so many generated keys. -/
def taskOf (setup : Setup) (field : String) (count place : Nat) (d : Document) : Task :=
  let found := keyed setup field count d
  ⟨place, found.1.fieldOrNull field, .insert found.1 found.2⟩

/-- The first document is planned, and then the others. -/
theorem exec_insertTasks_cons (place : Nat) (d : Document) (rest : List Document) :
    (insertTasks field place (d :: rest)).exec setup s =
      if (taskOf setup field s.generated place d).key.isKey then
        (((insertTasks field (place + 1) rest).exec setup
            { s with generated := drawn field s.generated d }).1.map
              (taskOf setup field s.generated place d :: ·),
          ((insertTasks field (place + 1) rest).exec setup
            { s with generated := drawn field s.generated d }).2)
      else
        (.error (.request (.insertKey field (taskOf setup field s.generated place d).key.toTerm)),
        { s with generated := drawn field s.generated d }) := by
  by_cases hk : (taskOf setup field s.generated place d).key.isKey = true
  · have valid : (!((keyed setup field s.generated d).1.fieldOrNull field).isKey) = false := by
      rw [Bool.not_eq_false']
      exact hk
    rw [if_pos hk, insertTasks, exec_bind, exec_withKey]
    simp only [valid, Bool.false_eq_true, if_false]
    rw [exec_bind]
    rcases (insertTasks field (place + 1) rest).exec setup _ with ⟨f | tasks, t⟩ <;> rfl
  · have invalid : (!((keyed setup field s.generated d).1.fieldOrNull field).isKey) = true := by
      rw [Bool.not_eq_true']
      exact Bool.eq_false_iff.2 hk
    rw [if_neg hk, insertTasks, exec_bind, exec_withKey]
    simp only [invalid, if_true]
    rfl

/-- Documents that were planned together are planned one by one: the first one by itself, wherever
it is to stand, and the others after it. -/
theorem insertTasks_split {place : Nat} {d : Document} {rest : List Document} {tasks : List Task}
    (h : (insertTasks field place (d :: rest)).exec setup s = (.ok tasks, t)) :
    ∃ others, tasks = taskOf setup field s.generated place d :: others ∧
      (taskOf setup field s.generated place d).key.isKey = true ∧
      (insertTasks field (place + 1) rest).exec setup
        { s with generated := drawn field s.generated d } = (.ok others, t) := by
  rw [exec_insertTasks_cons] at h
  split at h
  · rename_i hk
    generalize (insertTasks field (place + 1) rest).exec setup _ = ended at h ⊢
    obtain ⟨r, u⟩ := ended
    cases r with
    | error f => cases h
    | ok others =>
      cases h
      exact ⟨others, rfl, hk, rfl⟩
  · cases h

/-- One document is planned by itself. -/
theorem exec_insertTasks_one {place : Nat} {d : Document}
    (h : (taskOf setup field s.generated place d).key.isKey = true) :
    (insertTasks field place [d]).exec setup s =
      (.ok [taskOf setup field s.generated place d],
        { s with generated := drawn field s.generated d }) := by
  rw [exec_insertTasks_cons, if_pos h]
  rfl

/-- What is planned has keys and inserts documents. -/
theorem insertTasks_inserts {place : Nat} {found : List Document} {tasks : List Task}
    (h : (insertTasks field place found).exec setup s = (.ok tasks, t)) :
    ∀ task ∈ tasks, task.Inserts := by
  induction found generalizing place s tasks with
  | nil =>
    cases h
    exact fun task ht => nomatch ht
  | cons d rest ih =>
    obtain ⟨others, rfl, hk, h⟩ := insertTasks_split h
    intro task ht
    rcases List.mem_cons.1 ht with rfl | ht
    · exact ⟨hk, _, _, rfl⟩
    · exact ih h task ht

/-- Planning inserts only generates keys. -/
theorem insertTasks_generates (place : Nat) (found : List Document) :
    Moves (fun s t => t = { s with generated := t.generated }) (insertTasks field place found) := by
  intro setup s
  induction found generalizing place s with
  | nil => rfl
  | cons d rest ih =>
    rw [exec_insertTasks_cons]
    split
    · exact (ih (place + 1) { s with generated := drawn field s.generated d })
    · rfl

end Target

/-- An insert plans the tasks of the documents in its payload. -/
theorem Target.exec_tasks_insert {name : String} {payload : Term} :
    (tasks request (.table name) (.insert payload)).exec setup s =
      match documents payload with
      | .ok found => (insertTasks request.keyField 0 found).exec setup s
      | .error f => (.error f, s) := by
  rw [tasks, exec_bind, exec_ofExcept]
  cases documents payload <;> rfl

/-- What the plan of an insert of a payload into a table is: the request goes by what the store
knows of the table, the tasks are those of the documents, and only keys were generated. -/
structure InsertPlan (setup : Setup) (s : StoreState) (payload : Term) (request : Request)
    (tasks : List Task) (planned : StoreState) : Prop where
  field : s.database.keyField? request.table = some request.keyField
  hook : Entries.find? s.hooks request.table = request.hook
  documents : ∃ found, Target.documents payload = .ok found ∧
    (Target.insertTasks request.keyField 0 found).exec setup s.tick = (.ok tasks, planned)
  generated : ∃ count, planned = { s.tick with generated := count }
  inserts : ∀ task ∈ tasks, task.Inserts
  places : (tasks.map Task.index).Nodup

theorem Writer.insertPlan {table : String} {payload : Term} {options : Options}
    {tasks : List Task} (h : s.Orderly)
    (planned : (plan (.table table) (.insert payload) options).exec setup s =
      (.ok (request, tasks), t)) :
    request.table = table ∧ request.options = options ∧
      InsertPlan setup s payload request tasks t := by
  obtain ⟨field, eq, planning⟩ := tasks_of_plan h planned
  obtain rfl : table = request.table := congrArg Request.table eq.symm
  refine ⟨rfl, congrArg Request.options eq, ?_⟩
  have hook : Entries.find? s.hooks request.table = request.hook := congrArg Request.hook eq.symm
  rw [Target.exec_tasks_insert] at planning
  cases documents : Target.documents payload with
  | error f =>
    rw [documents] at planning
    cases planning
  | ok found =>
    rw [documents] at planning
    dsimp only at planning
    have generates := @Target.insertTasks_generates request.keyField 0 found setup s.tick
    have shape := @Target.insertTasks_planned setup s.tick request.keyField 0 found
    rw [Ensures, planning] at shape
    rw [planning] at generates
    refine ⟨field, hook, ⟨found, documents, planning⟩, ⟨t.generated, generates⟩,
      Target.insertTasks_inserts planning, ?_⟩
    rw [(shape tasks rfl).1.places]
    exact List.nodup_range'

/-! ## Judgements -/

/-- The task in another place. -/
def Task.placed (task : Task) (place : Nat) : Task := { task with index := place }

/-- The proposal with its outcome, if it is settled, in another place. -/
def Proposal.placed (p : Proposal) (place : Nat) : Proposal :=
  match p with
  | .settled outcome => .settled { outcome with index := place }
  | .candidate document => .candidate document

/-- The verdict with its outcome in another place. -/
def Verdict.placed (v : Verdict) (place : Nat) : Verdict :=
  { v with outcome := { v.outcome with index := place } }

namespace Commit

theorem verdict_placed (place : Nat) (existing final : Option Document) :
    verdict (task.placed place) existing final = (verdict task existing final).placed place := by
  unfold verdict
  split
  · split <;> rfl
  · split <;> rfl

theorem proposal_placed (answer : Call → Except Failure Term) (place : Nat)
    (existing : Option Document) :
    proposal answer request (task.placed place) existing =
      (proposal answer request task existing).map (Proposal.placed · place) := by
  have keep : ∀ d, keeping request (task.placed place) d =
      (keeping request task d).map (Proposal.placed · place) := by
    intro d
    unfold keeping
    rw [show (task.placed place).key = task.key from rfl]
    cases checkKey request.keyField task.key.toTerm (some d) <;> rfl
  have keep_term : ∀ failure value,
      documentOf failure value >>= keeping request (task.placed place) =
      (documentOf failure value >>= keeping request task).map (Proposal.placed · place) := by
    intro failure value
    cases documentOf failure value with
    | error f => rfl
    | ok d => exact keep d
  have decided : ∀ old resolution,
      proposed request (task.placed place) old resolution =
        (proposed request task old resolution).map (Proposal.placed · place) := by
    intro old resolution
    cases resolution with
    | reject cause => rfl
    | keep => rfl
    | commit value => exact keep_term _ value
  unfold proposal
  rw [show (task.placed place).work = task.work from rfl,
    show (task.placed place).key = task.key from rfl]
  split
  · exact keep _
  · split
    · rfl
    · exact keep _
    · exact keep _
    · exact decided _ _
    · exact decided _ _
  · rename_i patch old _
    cases patched answer old patch with
    | error f => rfl
    | ok merged => exact keep_term _ merged
  · rfl
  · rfl

/-- The place of a task does not matter for what it is judged to, but for the outcome's. -/
theorem judge_placed (calls : List Call) (place : Nat) (existing : Option Document) :
    judge setup calls request (task.placed place) existing =
      (judge setup calls request task existing).map (Verdict.placed · place) := by
  unfold judge
  rw [proposal_placed]
  rcases proposal (setup.answer calls) request task existing with f | outcome | candidate
  · rfl
  · rfl
  · have same : ∀ r : Except Failure (Option Document),
        r.map (verdict (task.placed place) existing) =
          (r.map (verdict task existing)).map (Verdict.placed · place) := by
      intro r
      cases r with
      | error f => rfl
      | ok final => exact congrArg Except.ok (verdict_placed place existing final)
    exact same _

theorem settled_placed (place : Nat) (existing : Option Document) (cause : Failure) :
    settled (task.placed place) existing cause =
      (settled task existing cause).map fun o => { o with index := place } := by
  unfold settled
  rw [show (task.placed place).isInsert = task.isInsert from rfl]
  split
  · rfl
  · split <;> rfl

theorem course_placed (obstacles : Obstacles) (place : Nat) (existing : Option Document)
    (judged : Except Failure Verdict) :
    course obstacles (task.placed place) existing (judged.map (Verdict.placed · place)) =
      (course obstacles task existing judged).map (Verdict.placed · place) := by
  unfold course
  cases obstacles.first with
  | some f => rfl
  | none =>
    unfold ended
    rcases judged with f | ⟨outcome, writes⟩
    · dsimp only [Except.map]
      rw [settled_placed]
      cases settled task existing f.reported <;> rfl
    · cases writes <;> cases obstacles.write <;> rfl

/-! ## Failures -/

theorem isDocumentWrite_of_keeping {d : Document} {f : Failure}
    (h : keeping request task d = .error f) : f.kind.isDocumentWrite = true :=
  isDocumentWrite_of_checkKey (keeping_eq_error h)

/-- What a decision proposes for an insert fails as the failure of its document, if the decision
refuses with such a failure and commits a document. -/
theorem isDocumentWrite_of_proposed {resolution : Resolution} {existing : Option Document}
    {f : Failure} (refused : ∀ f, resolution = .reject f → f.kind.isDocumentWrite = true)
    (committed : ∀ value, resolution = .commit value → ∃ d : Document, value = d.toTerm)
    (h : proposed request task existing resolution = .error f) : f.kind.isDocumentWrite = true := by
  cases resolution with
  | reject cause =>
    cases h
    exact refused _ rfl
  | keep => cases h
  | commit value =>
    obtain ⟨d, rfl⟩ := committed value rfl
    have h : documentOf .malformed d.toTerm >>= keeping request task = .error f := h
    rw [documentOf_toTerm] at h
    exact isDocumentWrite_of_keeping h

/-- What is proposed for an insert fails as the failure of its document. -/
theorem isDocumentWrite_of_proposal {document : Document} {generated : Bool} {calls : List Call}
    {existing : Option Document} {f : Failure} (tame : request.options.conflict.IsTame setup)
    (work : task.work = .insert document generated)
    (h : proposal (setup.answer calls) request task existing = .error f) :
    f.kind.isDocumentWrite = true := by
  unfold proposal at h
  rw [work] at h
  cases existing with
  | none => exact isDocumentWrite_of_keeping h
  | some old =>
    dsimp only at h
    split at h
    · cases h
      rfl
    · exact isDocumentWrite_of_keeping h
    · exact isDocumentWrite_of_keeping h
    · refine isDocumentWrite_of_proposed
        (fun f => ConflictPolicy.isDocumentWrite_of_ofAnswer) (fun value committed => ?_) h
      obtain ⟨-, d, -, -, rfl⟩ := ConflictPolicy.commit_of_ofAnswer committed
      exact ⟨d, rfl⟩
    · rename_i p own
      refine isDocumentWrite_of_proposed (fun f refused => tame f ⟨p, _, _, own, refused⟩)
        (fun value committed => ?_) h
      obtain ⟨-, d, -, -, rfl⟩ := ConflictPolicy.commit_of_ofOwnAnswer committed
      exact ⟨d, rfl⟩

/-- Judging an insert fails as the failure of its document. -/
theorem isDocumentWrite_of_judge {document : Document} {generated : Bool} {calls : List Call}
    {existing : Option Document} {f : Failure} (tame : request.options.conflict.IsTame setup)
    (work : task.work = .insert document generated)
    (h : judge setup calls request task existing = .error f) : f.kind.isDocumentWrite = true := by
  rcases judge_eq_error h with unproposed | ⟨candidate, hook, -, refused⟩
  · exact isDocumentWrite_of_proposal tame work unproposed
  · exact Hook.isDocumentWrite_of_decide refused

/-- An insert comes to an outcome, whatever it meets on its course. -/
theorem course_insert {document : Document} {generated : Bool} {calls : List Call}
    {existing : Option Document} (tame : request.options.conflict.IsTame setup)
    (obstacles : Obstacles) (work : task.work = .insert document generated) :
    ∃ v, course obstacles task existing (judge setup calls request task existing) = .ok v := by
  unfold course
  cases obstacles.first with
  | some f => exact ⟨_, rfl⟩
  | none =>
    dsimp only
    unfold ended
    cases hj : judge setup calls request task existing with
    | ok v =>
      dsimp only
      split
      · exact ⟨_, rfl⟩
      · exact ⟨_, rfl⟩
    | error f =>
      dsimp only
      rw [settled_of_isDocumentWrite existing (isDocumentWrite_of_judge tame work hj)]
      exact ⟨_, rfl⟩

end Commit

end Folio
