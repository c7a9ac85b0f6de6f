import Folio.Proofs.Faithful
import Folio.Proofs.OneByOne
/-!
# Targets that are processed again

An insert that replaces or merges, and the merge of a patch of constants, offer for a document what
they offer again for the document that comes of it. So after a batch of them there is nothing left
to write: processed again, each target ends as it did if it wrote nothing, and finds its document
unchanged if it did. The key of a target may be spelt otherwise then, as the document spells it.
-/

namespace Folio

open Run StoreState

/-- The policy writes whatever is there. -/
def ConflictPolicy.Overwrites (policy : ConflictPolicy) : Prop :=
  policy = .builtin .replace ∨ policy = .builtin .update

/-- A target that can be processed again: an insert that replaces or merges, or the merge of a patch
of constants, and nothing of it is NaN. -/
def Task.IsReplayable (request : Request) (task : Task) : Prop :=
  match task.work with
  | .insert document _ => request.options.conflict.Overwrites ∧ document.IsStable
  | .update patch => ∃ entries, patch = .mapping entries ∧ Patch.IsReplayable entries
  | .delete => False

namespace Commit

variable {setup : Setup} {request : Request} {task other : Task} {existing : Option Document}
variable {d document old : Document} {obstacles : Obstacles} {generated : Bool}
variable {entries : List (Term × Term)} {answer : Call → Except Failure Term}

/-! ## What is offered -/

/-- The document that an insert leads to where it replaces or merges. -/
def overwriting (policy : ConflictPolicy) (existing : Option Document) (document : Document) :
    Document :=
  match policy with
  | .builtin .update => existing.elim document fun old => old.merge document
  | _ => document

theorem overwriting_stable {policy : ConflictPolicy} (stable : ∀ d ∈ existing, d.IsStable)
    (incoming : document.IsStable) : (overwriting policy existing document).IsStable := by
  unfold overwriting
  split
  · cases existing with
    | none => exact incoming
    | some old => exact (stable old rfl).merge incoming
  · exact incoming

/-- Inserted again, a document leads to what it has led to. -/
theorem overwriting_again {policy : ConflictPolicy} (stable : ∀ d ∈ existing, d.IsStable)
    (incoming : document.IsStable) :
    overwriting policy (some (overwriting policy existing document)) document =
      overwriting policy existing document := by
  have itself := Document.merge_self incoming.settled
  rcases policy with (_ | _ | _) | f | p
  · rfl
  · rfl
  · cases existing with
    | none => exact itself
    | some old => exact Document.merge_merge (stable old rfl).settled incoming.settled
  · rfl
  · rfl

theorem proposal_insert (work : task.work = .insert document generated)
    (policy : request.options.conflict.Overwrites) :
    proposal answer request task existing =
      keeping request task (overwriting request.options.conflict existing document) := by
  unfold proposal overwriting
  rw [work]
  rcases policy with policy | policy
  · rw [policy]
    cases existing <;> rfl
  · rw [policy]
    cases existing <;> rfl

theorem proposal_update (work : task.work = .update (.mapping entries))
    (constant : Patch.IsReplayable entries) :
    proposal answer request task (some old) =
      documentOf .patchedInvalid
        (.mapping (Patch.merge old.toEntries (Term.listedEntries entries))) >>=
          keeping request task := by
  have merged : patched answer old (.mapping entries) =
      .ok (.mapping (Patch.merge old.toEntries (Term.listedEntries entries))) := by
    unfold patched patchEntries
    rw [show (Term.mapping entries).callable? = none from rfl]
    dsimp only
    rw [constant.evaluate]
    rfl
  exact proposal_of_patched work merged

/-- What a target that can be processed again has to offer: nothing if there is no document to
merge into, no valid document, or a document for which it offers the same again. -/
inductive Offers (request : Request) (task : Task) (existing : Option Document) : Prop
  | nothing (update : task.isInsert = false) (skips : ∀ answer,
      proposal answer request task existing = .ok (.settled (task.outcome .skipped none none)))
  | invalid {f : Failure} (kind : f.kind.isDocumentWrite = true)
    (fails : ∀ answer, proposal answer request task existing = .error f)
  | document {d : Document} (stable : d.IsStable)
    (present : task.isInsert = false → existing.isSome = true)
    (offered : ∀ answer, proposal answer request task existing = keeping request task d)
    (again : ∀ answer (other : Task), other.work = task.work →
      proposal answer request other (some d) = keeping request other d)

theorem offers (replayable : task.IsReplayable request) (stable : ∀ d ∈ existing, d.IsStable) :
    Offers request task existing := by
  unfold Task.IsReplayable at replayable
  cases work : task.work with
  | delete =>
    rw [work] at replayable
    exact replayable.elim
  | insert document generated =>
    rw [work] at replayable
    obtain ⟨policy, incoming⟩ := replayable
    refine .document (overwriting_stable stable incoming) (fun update => ?_)
      (fun _ => proposal_insert work policy) fun _ other same => ?_
    · rw [Task.isInsert, work] at update
      cases update
    · rw [proposal_insert (same.trans work) policy, overwriting_again stable incoming]
  | update patch =>
    rw [work] at replayable
    obtain ⟨entries, rfl, constant⟩ := replayable
    cases existing with
    | none => exact .nothing (by rw [Task.isInsert, work]) fun _ => proposal_of_absent work
    | some old =>
      cases valid : documentOf .patchedInvalid
          (.mapping (Patch.merge old.toEntries (Term.listedEntries entries))) with
      | error f =>
        refine .invalid (isDocumentWrite_of_documentOf valid) fun _ => ?_
        rw [proposal_update work constant, valid]
        rfl
      | ok d =>
        obtain ⟨kept, absorbs⟩ := constant.absorbed (stable old rfl) (validate_of_documentOf valid)
        refine .document kept (fun _ => rfl) (fun _ => ?_) fun _ other same => ?_
        · rw [proposal_update work constant, valid]
          rfl
        · rw [proposal_update (same.trans work) constant, absorbs]
          show documentOf .patchedInvalid d.toTerm >>= _ = _
          rw [documentOf_toTerm]
          rfl

/-! ## Courses that come to the same -/

/-- A course that leaves nothing to write: it wrote nothing, or a document that any target of the
same work leaves unchanged, however it spells the key. -/
inductive Repeats (setup : Setup) (request : Request) (obstacles : Obstacles) (task : Task)
    (existing : Option Document) : Verdict → Prop
  | idle {o : DocumentOutcome} (kind : o.kind.isWrite = false)
    (skips : o.kind = .skipped → task.isInsert = false) :
    Repeats setup request obstacles task existing ⟨o, none⟩
  | wrote {o : DocumentOutcome} {d : Document} (kind : o.kind.isWrite = true) (stable : d.IsStable)
    (present : task.isInsert = false → existing.isSome = true)
    (clear : obstacles.first = none)
    (keeps : checkKey request.keyField task.key.toTerm (some d) = .ok ())
    (again : ∀ (obstacles : Obstacles) (other : Task), obstacles.first = none →
      other.work = task.work → checkKey request.keyField other.key.toTerm (some d) = .ok () →
        pureCourse setup request obstacles other (some d) =
          .ok ⟨other.outcome .unchanged (some d) (some d), none⟩) :
    Repeats setup request obstacles task existing ⟨o, some (some d)⟩

/-- Without a hook a proposal is judged by itself. -/
theorem judge_of_proposal (hook : request.hook = none) (calls : List Call) :
    judge setup calls request task existing =
      (proposal (setup.answer calls) request task existing).map fun
        | .settled outcome => ⟨outcome, none⟩
        | .candidate candidate => verdict task existing candidate := by
  unfold judge allowed
  rw [hook]
  rcases proposal (setup.answer calls) request task existing with f | outcome | candidate <;> rfl

theorem pureCourse_of_keeping (hook : request.hook = none) (clear : obstacles.first = none)
    (proposed : ∀ answer, proposal answer request task existing = keeping request task d)
    (keeps : checkKey request.keyField task.key.toTerm (some d) = .ok ()) :
    pureCourse setup request obstacles task existing =
      ended obstacles.write task existing (.ok (verdict task existing (some d))) := by
  have judged : judge setup [] request task existing = .ok (verdict task existing (some d)) := by
    rw [judge_of_proposal hook, proposed, keeping, keeps]
    rfl
  unfold pureCourse course
  rw [clear, judged]

theorem pureCourse_of_failure (clear : obstacles.first = none) {f : Failure}
    (kind : f.kind.isDocumentWrite = true)
    (fails : ∀ answer, proposal answer request task existing = .error f) :
    pureCourse setup request obstacles task existing = .ok ⟨task.failure existing f, none⟩ := by
  unfold pureCourse course
  rw [clear, judge_of_error (fails _)]
  dsimp only [ended]
  rw [settled_of_isDocumentWrite existing kind]
  rfl

/-- A target that can be processed again takes a course that leaves nothing to write. -/
theorem pureCourse_repeats (hook : request.hook = none) (replayable : task.IsReplayable request)
    (stable : ∀ d ∈ existing, d.IsStable) :
    ∃ v, pureCourse setup request obstacles task existing = .ok v ∧
      Repeats setup request obstacles task existing v := by
  cases clear : obstacles.first with
  | some f =>
    refine ⟨⟨task.failure none f, none⟩, ?_, .idle rfl fun h => nomatch h⟩
    unfold pureCourse course
    rw [clear]
  | none =>
    cases offers replayable stable with
    | nothing update skips =>
      refine ⟨⟨task.outcome .skipped none none, none⟩, ?_, .idle rfl fun _ => update⟩
      unfold pureCourse course
      rw [clear, judge_of_proposal hook, skips]
      rfl
    | invalid kind fails =>
      exact ⟨_, pureCourse_of_failure clear kind fails, .idle rfl fun h => nomatch h⟩
    | @document d kept present offered again =>
      cases keeps : checkKey request.keyField task.key.toTerm (some d) with
      | error f =>
        refine ⟨_, pureCourse_of_failure clear (isDocumentWrite_of_checkKey keeps) fun _ => ?_,
          .idle rfl fun h => nomatch h⟩
        rw [offered, keeping_of_error keeps]
      | ok _ =>
        rw [pureCourse_of_keeping hook clear offered keeps]
        -- What was written has absorbed its target, and is what the same work offers for it.
        have unchanged : ∀ (obstacles : Obstacles) (other : Task), obstacles.first = none →
            other.work = task.work → checkKey request.keyField other.key.toTerm (some d) = .ok () →
              pureCourse setup request obstacles other (some d) =
                .ok ⟨other.outcome .unchanged (some d) (some d), none⟩ := by
          intro obstacles other clear same keeps
          rw [pureCourse_of_keeping hook clear (fun answer => again answer other same) keeps,
            verdict, isUnchanged, kept.same_self]
          rfl
        cases same : isUnchanged d existing with
        | true =>
          refine ⟨⟨task.outcome .unchanged existing existing, none⟩, ?_,
            .idle rfl fun h => nomatch h⟩
          rw [verdict, same]
          rfl
        | false =>
          rw [verdict, same, kept.reread]
          dsimp only [ended]
          cases obstacles.write with
          | some f =>
            exact ⟨_, rfl, .idle rfl fun h => nomatch h⟩
          | none =>
            refine ⟨_, rfl, .wrote ?_ kept present clear keeps unchanged⟩
            cases existing <;> rfl

end Commit

/-! ## Outcomes and reports that come to the same -/

section Reports

variable {κ δ : Type} {detail : ChangeDetail}

/-- How a target ends that is processed again: as it did if it wrote nothing, and otherwise
unchanged. -/
def Outcome.Repeats (o again : Outcome κ δ) : Prop :=
  if o.kind.isWrite then again.kind = .unchanged else again = o

namespace Report

/-- The failures among the changes of a report. -/
def failures (r : Report κ δ) : Option (List String) :=
  r.changes.map fun changes => changes.filterMap Change.error

/-- A report on a request that was repeated: nothing was written, what was left out or failed before
is left out or fails again, and every other document is unchanged. -/
structure Repeats (first second : Report κ δ) : Prop where
  inserted : second.inserted = 0
  replaced : second.replaced = 0
  deleted : second.deleted = 0
  unchanged : second.unchanged =
    first.inserted + first.replaced + first.unchanged + first.deleted
  skipped : second.skipped = first.skipped
  errors : second.errors = first.errors
  firstError : second.firstError = first.firstError
  failures : second.failures = first.failures

theorem failures_ofOutcomes (os : List (Outcome κ δ)) :
    (ofOutcomes detail os).failures = if detail = .hidden then none
      else some (os.filterMap fun o => (o.change? detail).bind Change.error) := by
  unfold failures
  split
  · rename_i hidden
    rw [ofOutcomes, changes_foldl]
    simp [empty, hidden]
  · rename_i shown
    rw [changes_ofOutcomes shown, Option.map_some, List.filterMap_filterMap]

variable {os others : List (Outcome κ δ)}

/-- What is seen of outcomes comes to the same, if nothing is seen of writes and of what is
unchanged. -/
theorem filterMap_eq_of_repeats {α : Type} {f : Outcome κ δ → Option α}
    (h : List.Forall₂ Outcome.Repeats os others)
    (quiet : ∀ o, o.kind.isWrite = true ∨ o.kind = .unchanged → f o = none) :
    others.filterMap f = os.filterMap f := by
  induction h with
  | nil => rfl
  | @cons o again _ _ repeats _ ih =>
    unfold Outcome.Repeats at repeats
    rw [List.filterMap_cons, List.filterMap_cons, ih]
    split at repeats
    · rename_i wrote
      rw [quiet o (.inl wrote), quiet again (.inr repeats)]
    · rw [repeats]

theorem tally_eq_of_repeats (h : List.Forall₂ Outcome.Repeats os others) {kind : OutcomeKind}
    (write : kind.isWrite = false) (changed : kind ≠ .unchanged) :
    (ofOutcomes detail others).tally kind = (ofOutcomes detail os).tally kind := by
  have seen := filterMap_eq_of_repeats h (f := Option.guard fun o => decide (o.kind = kind)) ?_
  · rw [List.filterMap_eq_filter] at seen
    rw [tally_ofOutcomes, tally_ofOutcomes, List.countP_eq_length_filter,
      List.countP_eq_length_filter, seen]
  · intro o quiet
    rw [Option.guard_eq_none_iff, decide_eq_false_iff_not]
    rintro rfl
    exact quiet.elim (fun wrote => Bool.false_ne_true (write.symm.trans wrote)) changed

theorem tally_eq_zero_of_repeats (h : List.Forall₂ Outcome.Repeats os others) {kind : OutcomeKind}
    (write : kind.isWrite = true) : (ofOutcomes detail others).tally kind = 0 := by
  rw [tally_ofOutcomes, List.countP_eq_zero]
  intro again mem
  obtain ⟨o, -, repeats⟩ := exists_of_forall₂ h mem
  rw [decide_eq_true_eq]
  rintro rfl
  unfold Outcome.Repeats at repeats
  split at repeats
  · rw [repeats] at write
    cases write
  · rename_i idle
    exact idle (repeats ▸ write)

/-- The report on repeated outcomes. -/
theorem repeats_ofOutcomes (h : List.Forall₂ Outcome.Repeats os others) :
    Repeats (ofOutcomes detail os) (ofOutcomes detail others) := by
  have written : ∀ kind : OutcomeKind, kind.isWrite = true →
      (ofOutcomes detail others).tally kind = 0 := fun _ => tally_eq_zero_of_repeats h
  have kept : ∀ kind : OutcomeKind, kind.isWrite = false → kind ≠ .unchanged →
      (ofOutcomes detail others).tally kind = (ofOutcomes detail os).tally kind :=
    fun _ => tally_eq_of_repeats h
  have inserted : (ofOutcomes detail others).inserted = 0 := written .inserted rfl
  have replaced : (ofOutcomes detail others).replaced = 0 := written .replaced rfl
  have deleted : (ofOutcomes detail others).deleted = 0 := written .deleted rfl
  have skipped : (ofOutcomes detail others).skipped = (ofOutcomes detail os).skipped :=
    kept .skipped rfl (by decide)
  have errors : (ofOutcomes detail others).errors = (ofOutcomes detail os).errors :=
    kept .error rfl (by decide)
  refine ⟨inserted, replaced, deleted, ?_, skipped, errors, ?_, ?_⟩
  · have total : (ofOutcomes detail others).total = (ofOutcomes detail os).total := by
      rw [total_ofOutcomes, total_ofOutcomes, h.length_eq]
    simp only [Report.total] at total
    omega
  · rw [firstError_ofOutcomes, firstError_ofOutcomes, ← List.head?_filterMap,
      ← List.head?_filterMap]
    refine congrArg _ (filterMap_eq_of_repeats h fun o quiet => if_neg ?_)
    rintro error
    rw [error] at quiet
    rcases quiet with quiet | quiet <;> cases quiet
  · rw [failures_ofOutcomes, failures_ofOutcomes]
    split
    · rfl
    · refine congrArg some (filterMap_eq_of_repeats h fun o quiet => ?_)
      have kind : o.kind ≠ .error := by
        intro error
        rw [error] at quiet
        rcases quiet with quiet | quiet <;> cases quiet
      cases detail <;> cases wrote : o.kind.isWrite <;> simp [Outcome.change?, wrote, kind]

end Report

end Reports

/-! ## Two runs -/

/-- All documents of a table are stable. -/
def Database.IsStable (db : Database) (table : String) : Prop :=
  ∀ code d, db.find? table code = some d → d.IsStable

/-- The numbers and addresses of the rows, in order. -/
def Database.places (db : Database) : List (Nat × String × String) :=
  db.rows.map fun r => (r.seq, r.table, r.code)

theorem Database.places_write {db : Database} {table code : String} {d : Document}
    (h : (db.find? table code).isSome = true) : (db.write table code d).places = db.places := by
  unfold places
  rw [write_of_isSome h, List.map_map]
  exact List.map_congr_left fun r _ => by simp

/-- A key that is found again: the one from before, or as the document spells it that was written
under it in between. -/
structure Respelt (table field : String) (db next : Database) (key spelt : Value) : Prop where
  code : spelt.code = key.code
  spelling : spelt = key ∨ next.find? table key.code ≠ db.find? table key.code ∧
    ∃ d, next.find? table key.code = some d ∧ Entries.find? d field = some spelt

theorem Respelt.refl (table field : String) (db next : Database) (key : Value) :
    Respelt table field db next key key := ⟨rfl, .inl rfl⟩

/-- A target of a repeated request: the same as before, but for the spelling of its key. -/
structure Respells (request : Request) (db next : Database) (task other : Task) : Prop where
  index : other.index = task.index
  work : other.work = task.work
  key : Respelt request.table request.keyField db next task.key other.key

/-- A target that was processed once: it took a course that leaves nothing to write, and what the
course leaves is there. -/
structure Passed (setup : Setup) (base : StoreState) (request : Request) (next : Database)
    (task : Task) (o : DocumentOutcome) : Prop where
  index : o.index = task.index
  course : ∃ v, Commit.pureCourse setup request (base.obstacles setup request.table task.key) task
      (base.database.find? request.table task.key.code) = .ok v ∧
    Commit.Repeats setup request (base.obstacles setup request.table task.key) task
      (base.database.find? request.table task.key.code) v ∧
    o = v.outcome ∧
    next.find? request.table task.key.code =
      v.leaves (base.database.find? request.table task.key.code)

section Runs

variable {setup : Setup} {base s t p q : StoreState} {request : Request} {task other : Task}
variable {tasks others : List Task} {next : Database} {table : String} {o : DocumentOutcome}
variable {os : List DocumentOutcome}

theorem Task.IsReplayable.asksPure (h : task.IsReplayable request)
    (ready : Ready setup base request) : Commit.AsksPure setup request task := by
  refine ⟨ready.hook, ready.conflict, ready.policy, fun patch f work hc => ?_⟩
  unfold IsReplayable at h
  rw [work] at h
  obtain ⟨entries, rfl, -⟩ := h
  cases hc

/-- The visit of a target that can be processed again. -/
structure ReplayableVisit (setup : Setup) (base : StoreState) (request : Request) (task : Task)
    (s : StoreState) (r : Except Failure DocumentOutcome) (t : StoreState) : Prop where
  index : ∀ o, r = .ok o → o.index = task.index
  course : ∃ v, Commit.pureCourse setup request (base.obstacles setup request.table task.key) task
      (s.database.find? request.table task.key.code) = .ok v ∧
    Commit.Repeats setup request (base.obstacles setup request.table task.key) task
      (s.database.find? request.table task.key.code) v ∧
    r = .ok v.outcome ∧
    t.database = s.database.enact request.table task.key.code v.writes

theorem ReplayableVisit.find?_of_ne {r : Except Failure DocumentOutcome}
    (h : ReplayableVisit setup base request task s r t) {code : String}
    (ne : code ≠ task.key.code) :
    t.database.find? request.table code = s.database.find? request.table code := by
  obtain ⟨v, -, -, -, database⟩ := h.course
  rw [database]
  exact Database.find?_enact_of_ne (fun _ => ne) v.writes

theorem ReplayableVisit.stable {r : Except Failure DocumentOutcome}
    (h : ReplayableVisit setup base request task s r t)
    (stable : s.database.IsStable request.table) : t.database.IsStable request.table := by
  obtain ⟨v, -, repeats, -, database⟩ := h.course
  intro code d hd
  by_cases own : code = task.key.code
  · subst own
    rw [database, Database.find?_enact_self] at hd
    cases repeats with
    | idle => exact stable _ _ hd
    | wrote _ written =>
      cases hd
      exact written
  · rw [h.find?_of_ne own] at hd
    exact stable _ _ hd

/-- An update leaves every row in its place. -/
theorem ReplayableVisit.places {r : Except Failure DocumentOutcome}
    (h : ReplayableVisit setup base request task s r t) (update : task.isInsert = false) :
    t.database.places = s.database.places := by
  obtain ⟨v, -, repeats, -, database⟩ := h.course
  rw [database]
  cases repeats with
  | idle => rfl
  | wrote _ _ present => exact Database.places_write (present update)

theorem replayable_steps (ready : ∀ task ∈ tasks, Ready setup base request)
    (hook : request.hook = none)
    (keys : ∀ task ∈ tasks, task.key.isKey = true)
    (replayable : ∀ task ∈ tasks, task.IsReplayable request) :
    Steps setup request tasks
      (fun s => Beside request.table base s ∧ s.database.IsStable request.table)
      (ReplayableVisit setup base request) := by
  rintro task ht s ⟨beside, stable⟩
  have ready := ready task ht
  have visited := (process_beside ready ((replayable task ht).asksPure ready) beside).and
    (@process_ends setup s request task (keys task ht))
  refine visited.mono ?_
  rintro r t ⟨⟨⟨after, -⟩, ended, database⟩, outcome⟩
  obtain ⟨v, hv, repeats⟩ := @Commit.pureCourse_repeats setup request task _
    (base.obstacles setup request.table task.key) hook (replayable task ht) (stable task.key.code)
  rw [hv] at ended database
  have visit : ReplayableVisit setup base request task s r t := by
    refine ⟨?_, v, hv, repeats, ended, database⟩
    rintro o rfl
    exact outcome.1.index
  exact ⟨⟨after, visit.stable stable⟩, visit⟩

/-- The first run: every target passes, and updates leave the rows in their places. -/
theorem processTasks_passed (ready : ∀ task ∈ tasks, Ready setup base request)
    (hook : request.hook = none)
    (keys : ∀ task ∈ tasks, task.key.isKey = true)
    (replayable : ∀ task ∈ tasks, task.IsReplayable request)
    (nodup : (tasks.map fun task => task.key.code).Nodup)
    (places : (tasks.map Task.index).Pairwise (· < ·))
    (stable : base.database.IsStable request.table) (beside : Beside request.table base p)
    (start : p.database = base.database) :
    Ensures setup p (Writer.processTasks request tasks) fun r t =>
      Beside request.table base t ∧
      ((∀ task ∈ tasks, task.isInsert = false) → t.database.places = base.database.places) ∧
      ∃ os, r = .ok os ∧
        List.Forall₂ (Passed setup base request t.database) tasks (Writer.inOrder os) := by
  have steps := replayable_steps ready hook keys replayable
  refine (Writer.processTasks_visited steps ⟨beside, start ▸ stable⟩).mono ?_
  rintro r t ⟨⟨after, -⟩, visited⟩
  obtain ⟨os, rfl, visits⟩ := visited.exists_ok fun _ _ _ _ visit => by
    obtain ⟨v, -, -, ended, -⟩ := visit.course
    exact ⟨_, ended⟩
  refine ⟨after, fun updates => ?_, os, rfl, ?_⟩
  · have kept : Visits (fun _ s _ t => t.database.places = s.database.places) (Writer.inTurn tasks)
        p (os.map .ok) t := visits.mono fun task _ _ _ ht visit =>
      visit.places (updates task ((Writer.inTurn_perm tasks).subset ht))
    rw [← start]
    exact kept.unchanged (fun s => s.database.places) fun _ _ _ _ same => same
  · have alone := visits.alone request.table base.database
      ((((Writer.inTurn_perm tasks).map _).nodup_iff).2 nodup)
      (fun _ _ _ _ visit _ ne => visit.find?_of_ne ne) fun _ _ => by rw [start]
    refine Writer.forall₂_inOrder ?_ (fun _ _ passed => passed.index) places
    rw [List.forall₂_map_right_iff] at alone
    refine alone.imp ?_
    rintro task o ⟨u, v, ⟨index, w, hw, repeats, ended, database⟩, before, after⟩
    refine ⟨index o rfl, w, ?_⟩
    rw [← before]
    refine ⟨hw, repeats, Except.ok.inj ended, ?_⟩
    rw [after, database, Database.find?_enact_self]
    rfl

/-! ### The second run -/

theorem Number.same_congr {m n : Number} (h : m.same n = true) (x : Number) :
    x.same m = x.same n := by
  obtain ⟨p, hm, hn⟩ := Number.same_iff.1 h
  unfold Number.same
  rw [hm, hn]

/-- Spellings of a key are loosely equal to the same scalars. -/
theorem Scalar.equal_congr {a b : Scalar} (hb : b.isKey = true) (h : a.same b = true) (u : Scalar) :
    u.equal a = u.equal b := by
  cases b with
  | text t =>
    cases a with
    | text r => rw [eq_of_beq (show (r == t) = true from h)]
    | _ => cases h
  | number n =>
    cases a with
    | number m =>
      have numbers : ∀ k : Number, k.same m = k.same n := Number.same_congr h
      cases u <;> simp [Scalar.equal, Scalar.toNumber?, numbers]
    | _ => cases h
  | _ => cases hb

/-- Spellings of a key are loosely equal to the same numbers of other types. -/
theorem Foreign.equalScalar_congr {a b : Scalar} (hb : b.isKey = true) (h : a.same b = true)
    (f : Foreign) : f.equalScalar a = f.equalScalar b := by
  have places : a.place? = b.place? := by
    cases b with
    | text t =>
      cases a with
      | text r => rfl
      | _ => cases h
    | number n =>
      cases a with
      | number m =>
        obtain ⟨p, hm, hn⟩ := Number.same_iff.1 h
        simp [Scalar.place?, Scalar.toNumber?, hm, hn]
      | _ => cases h
    | _ => cases hb
  unfold equalScalar ForeignNumber.equalScalar
  rw [places]

theorem Fault.strikes_congr {key spelt : Value} (hk : key.isKey = true)
    (same : spelt.same key = true) (f : Fault) (point : FaultPoint) (n : Nat) :
    f.strikes point (some spelt.toTerm) n = f.strikes point (some key.toTerm) n := by
  have equal : ∀ wanted : Term, wanted.equal spelt.toTerm = wanted.equal key.toTerm := by
    intro wanted
    cases key with
    | scalar t =>
      cases spelt with
      | scalar u =>
        have scalars : u.same t = true := by
          simpa only [Value.same, Value.toTerm, Term.same] using same
        cases wanted with
        | scalar v =>
          simpa only [Term.equal, Term.equalBy, Value.toTerm] using Scalar.equal_congr hk scalars v
        | foreign f =>
          simpa only [Term.equal, Term.equalBy, Value.toTerm] using
            Foreign.equalScalar_congr hk scalars f
        | _ => rfl
      | _ => cases same
    | _ => cases hk
  unfold strikes
  cases f.key with
  | none => rfl
  | some wanted => simp only [equal]

/-- Nothing is in the way of a key that is not in the way of another spelling of it. -/
theorem obstacles_first_of_same {key spelt : Value} (hk : key.isKey = true)
    (same : spelt.same key = true) (clear : (base.obstacles setup table key).first = none) :
    (base.obstacles setup table spelt).first = none := by
  have strike : ∀ n, base.strike? .read (some spelt.toTerm) n =
      base.strike? .read (some key.toTerm) n := by
    intro n
    unfold strike?
    simp only [Fault.strikes_congr hk same]
  have code := (Value.isAddress_of_same hk same).2
  unfold obstacles Obstacles.first at clear ⊢
  dsimp only at clear ⊢
  rw [Option.or_eq_none_iff] at clear ⊢
  rw [code, strike]
  refine ⟨?_, clear.2⟩
  have free := clear.1
  split at free
  · cases free
  · rename_i unheld
    exact if_neg unheld

/-- A target that passed comes to the same once more. -/
theorem Passed.again (h : Passed setup base request next task o) (hk : task.key.isKey = true)
    (spelt : Respells request base.database next task other) :
    ∃ again, Commit.pureCourse setup request (base.obstacles setup request.table other.key) other
        (next.find? request.table other.key.code) = .ok ⟨again, none⟩ ∧
      again.index = other.index ∧ o.Repeats again := by
  obtain ⟨index, v, hv, repeats, rfl, leaves⟩ := h
  rw [spelt.key.code, leaves]
  cases repeats with
  | @idle o kind skips =>
    -- Where nothing was written, no key was respelt.
    obtain rfl : other = task := by
      have key : other.key = task.key := by
        refine spelt.key.spelling.resolve_right fun respelt => respelt.1 ?_
        rw [leaves]
        rfl
      obtain ⟨_, _, _⟩ := other
      obtain ⟨_, _, _⟩ := task
      obtain ⟨rfl, rfl, -⟩ := spelt
      cases key
      rfl
    refine ⟨o, hv, index, ?_⟩
    unfold Outcome.Repeats
    rw [if_neg (by rw [kind]; exact Bool.false_ne_true)]
  | @wrote o d kind stable present clear keeps unchanged =>
    have same : other.key = task.key ∨ Entries.find? d request.keyField = some other.key := by
      refine spelt.key.spelling.imp_right fun ⟨_, d', found, key⟩ => ?_
      rw [leaves] at found
      cases found
      exact key
    -- A key that was respelt is the same value still, and meets the same obstacles.
    have keeps_spelt : Commit.checkKey request.keyField other.key.toTerm (some d) = .ok () ∧
        (base.obstacles setup request.table other.key).first = none := by
      rcases same with same | found
      · rw [same]
        exact ⟨keeps, clear⟩
      · have kept : (d.fieldOrNull request.keyField).toTerm.same task.key.toTerm = true :=
          same_of_checkKey keeps rfl
        rw [Document.fieldOrNull, found] at kept
        refine ⟨?_, obstacles_first_of_same hk kept clear⟩
        unfold Commit.checkKey
        dsimp only
        rw [Document.fieldOrNull, found]
        exact if_pos (stable.find? found)
    refine ⟨_, unchanged _ other keeps_spelt.2 spelt.work keeps_spelt.1, rfl, ?_⟩
    unfold Outcome.Repeats
    rw [if_pos kind]
    rfl

/-- The visit of a target once more: it ends as on its course, and the database stays. -/
def IdleVisit (setup : Setup) (base : StoreState) (request : Request) (next : Database)
    (task : Task) (_ : StoreState) (r : Except Failure DocumentOutcome) (_ : StoreState) : Prop :=
  ∃ o, r = .ok o ∧ o.index = task.index ∧
    Commit.pureCourse setup request (base.obstacles setup request.table task.key) task
      (next.find? request.table task.key.code) = .ok ⟨o, none⟩

/-- The second run: every target ends as it did if it wrote nothing, and finds its document
unchanged if it did; the database stays. -/
theorem processTasks_again (ready : ∀ task ∈ tasks, Ready setup base request)
    (keys : ∀ task ∈ tasks, task.key.isKey = true)
    (replayable : ∀ task ∈ tasks, task.IsReplayable request)
    (places : (tasks.map Task.index).Pairwise (· < ·))
    (passed : List.Forall₂ (Passed setup base request next) tasks os)
    (spelt : List.Forall₂ (Respells request base.database next) tasks others)
    (beside : Beside request.table base q) (start : q.database = next) :
    Ensures setup q (Writer.processTasks request others) fun r t =>
      Beside request.table base t ∧ t.database = next ∧
        ∃ os', r = .ok os' ∧ List.Forall₂ Outcome.Repeats os (Writer.inOrder os') := by
  -- Each target of the second run comes from one of the first, in the same place.
  have again : List.Forall₂ (fun other o => ∃ task ∈ tasks,
      Respells request base.database next task other ∧
        Passed setup base request next task o) others os := forall₂_trans spelt passed
  have steps : Steps setup request others
      (fun s => Beside request.table base s ∧ s.database = next)
      (IdleVisit setup base request next) := by
    rintro other ho s ⟨beside, same⟩
    obtain ⟨o, -, task, ht, spelt, passed⟩ := exists_of_forall₂_left again ho
    obtain ⟨o', course, index, -⟩ := passed.again (keys task ht) spelt
    have pure : Commit.AsksPure setup request other := by
      have pure := (replayable task ht).asksPure (ready task ht)
      exact ⟨pure.hook, pure.conflict, pure.policy,
        fun patch f work => pure.patch patch f (spelt.work ▸ work)⟩
    refine (process_beside (ready task ht) pure beside).mono ?_
    rintro r t ⟨⟨after, -⟩, ended, database⟩
    rw [same, course] at ended database
    exact ⟨⟨after, database⟩, o', ended, index, course⟩
  refine (Writer.processTasks_visited steps ⟨beside, start⟩).mono ?_
  rintro r t ⟨⟨after, database⟩, visited⟩
  obtain ⟨os', rfl, visits⟩ := visited.exists_ok fun _ _ _ _ ⟨o, ended, _⟩ => ⟨o, ended⟩
  refine ⟨after, database, os', rfl, ?_⟩
  have indices : List.Forall₂ (· = ·) (tasks.map Task.index) (others.map Task.index) :=
    List.forall₂_map_left_iff.2 (List.forall₂_map_right_iff.2 (spelt.imp fun _ _ r => r.index.symm))
  rw [List.forall₂_eq_eq_eq] at indices
  have visited := visits.forall₂
  rw [List.forall₂_map_right_iff] at visited
  have ordered := Writer.forall₂_inOrder visited
    (fun _ _ ⟨_, _, _, ended, index, _⟩ => Except.ok.inj ended ▸ index) (indices ▸ places)
  refine (forall₂_trans again ordered).imp ?_
  rintro o o' ⟨other, -, ⟨task, ht, spelt, passed⟩, _, _, _, ⟨⟩, -, course⟩
  obtain ⟨o'', same, -, repeats⟩ := passed.again (keys task ht) spelt
  rw [course] at same
  cases same
  exact repeats

end Runs

end Folio
