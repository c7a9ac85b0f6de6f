import Folio.Proofs.Frames
import Folio.Proofs.Grouping
import Folio.Proofs.Landing
/-!
# Batches

The targets of a request land one after the other, each on the database that the ones before it
left. A request that comes to a report has let all its targets land, in the order of processing; one
that fails on the way has let some of them land, and all of these stay.
-/

namespace Folio

open Run StoreState

/-- Tasks that landed one after the other, with their outcomes and the database they leave. -/
inductive LandedAll (setup : Setup) (request : Request) :
    List Task → Database → List DocumentOutcome → Database → Prop
  | nil (db : Database) : LandedAll setup request [] db [] db
  | cons {task : Task} {tasks : List Task} {o : DocumentOutcome} {os : List DocumentOutcome}
      {db next last : Database} (outcome : IsOutcomeOf task o)
      (landed : Landed setup request task db o next)
      (rest : LandedAll setup request tasks next os last) :
      LandedAll setup request (task :: tasks) db (o :: os) last

/-- What a batch comes to, and the database that it leaves: all of it landed, or some of it did
before a failure that is none of a document. -/
def BatchEnds (setup : Setup) (request : Request) (tasks : List Task) (s : StoreState) :
    Except Failure (List DocumentOutcome) → Database → Prop
  | .ok os, db => LandedAll setup request tasks s.database os db
  | .error f, db =>
    (f.kind.isDocumentWrite = false ∧ f.Arises setup request.options.conflict s.faults) ∧
    ∃ done os, done ⊆ tasks ∧ LandedAll setup request done s.database os db

variable {setup : Setup} {request : Request} {tasks more : List Task} {s : StoreState}
variable {os rest : List DocumentOutcome} {db next last : Database}

theorem LandedAll.append (h : LandedAll setup request tasks db os next)
    (k : LandedAll setup request more next rest last) :
    LandedAll setup request (tasks ++ more) db (os ++ rest) last := by
  induction h with
  | nil db => exact k
  | cons outcome landed _ ih => exact .cons outcome landed (ih k)

/-- Each outcome is that of the task in the same position. -/
theorem LandedAll.outcomes (h : LandedAll setup request tasks db os last) :
    List.Forall₂ IsOutcomeOf tasks os := by
  induction h with
  | nil db => exact .nil
  | cons outcome _ _ ih => exact .cons outcome ih

/-- A relation between databases that every landing has holds of all of them together. -/
theorem LandedAll.relate {R : Database → Database → Prop}
    (h : LandedAll setup request tasks db os last) (refl : ∀ db, R db db)
    (trans : ∀ a b c, R a b → R b c → R a c)
    (step : ∀ task ∈ tasks, ∀ db o next, Landed setup request task db o next → R db next) :
    R db last := by
  induction h with
  | nil db => exact refl db
  | cons _ landed _ ih =>
    exact trans _ _ _ (step _ List.mem_cons_self _ _ _ landed)
      (ih fun task ht => step task (List.mem_cons_of_mem _ ht))

/-- A document with another key than all the tasks have stays as it is. -/
theorem BatchEnds.find?_of_not_mem {r : Except Failure (List DocumentOutcome)}
    (h : BatchEnds setup request tasks s r db) {code : String}
    (hc : code ∉ tasks.map fun task => task.key.code) :
    db.find? request.table code = s.database.find? request.table code := by
  have landed : ∀ {done : List Task} {os : List DocumentOutcome}, done ⊆ tasks →
      LandedAll setup request done s.database os db →
        db.find? request.table code = s.database.find? request.table code := by
    intro done os sub h
    refine h.relate (R := fun a b => b.find? request.table code = a.find? request.table code)
      (fun _ => rfl) (fun _ _ _ h k => k.trans h) fun task ht _ _ _ landed => ?_
    exact landed.find?_of_ne fun eq => hc (List.mem_map.2 ⟨task, sub ht, eq.symm⟩)
  cases r with
  | ok os => exact landed (List.Subset.refl _) h
  | error f =>
    obtain ⟨-, done, os, sub, h⟩ := h
    exact landed sub h

namespace Writer

theorem processAll_ends (hk : ∀ task ∈ tasks, task.key.isKey = true) :
    Ensures setup s (processAll request tasks) fun r t =>
      BatchEnds setup request tasks s r t.database := by
  induction tasks generalizing s with
  | nil => exact .nil s.database
  | cons task rest ih =>
    have first := (@process_ends setup s request task (hk task List.mem_cons_self)).and
      (Commit.process_steady request task).ensures
    refine Ensures.bind first ?_ ?_
    · rintro o t ⟨⟨outcome, landed⟩, steady⟩
      refine Ensures.bind (ih fun task ht => hk task (List.mem_cons_of_mem _ ht)) ?_ ?_
      · intro os u h
        exact .cons outcome landed h
      · rintro f u ⟨escapes, done, os, sub, h⟩
        refine ⟨steady.faults ▸ escapes, task :: done, o :: os, ?_, .cons outcome landed h⟩
        exact List.cons_subset_cons task sub
    -- The first target that fails ends the batch, and nothing of it has landed.
    · rintro f t ⟨⟨kind, arises, hdb⟩, -⟩
      refine ⟨⟨kind, arises⟩, [], [], List.nil_subset _, ?_⟩
      rw [hdb]
      exact .nil s.database

/-- What all groups come to: everything landed, or some of it did and there is a failure; and every
failure is none of a document. -/
structure GroupsEnd (setup : Setup) (request : Request) (groups : List (List Task)) (s : StoreState)
    (results : List (Except Failure (List DocumentOutcome))) (db : Database) : Prop where
  failures : ∀ f, Except.error f ∈ results →
    f.kind.isDocumentWrite = false ∧ f.Arises setup request.options.conflict s.faults
  landed : (∃ oss : List (List DocumentOutcome), results = oss.map Except.ok ∧
      LandedAll setup request groups.flatten s.database oss.flatten db) ∨
    ((∃ f, Except.error f ∈ results) ∧
      ∃ done os, done ⊆ groups.flatten ∧ LandedAll setup request done s.database os db)

theorem processGroups_ends {groups : List (List Task)}
    (hk : ∀ task ∈ groups.flatten, task.key.isKey = true) :
    Ensures setup s (processGroups request groups) fun r t =>
      ∃ results, r = .ok results ∧ GroupsEnd setup request groups s results t.database := by
  induction groups generalizing s with
  | nil =>
    exact ⟨[], rfl, ⟨fun f hf => (nomatch hf), .inl ⟨[], rfl, .nil s.database⟩⟩⟩
  | cons group rest ih =>
    rw [List.flatten_cons] at hk
    have first := (@processAll_ends setup request group s
      fun task ht => hk task (List.mem_append_left _ ht)).and
        (processAll_steady request group).ensures
    refine Ensures.attempt first ?_
    rintro result t ⟨landed, steady⟩
    refine Ensures.bind (ih fun task ht => hk task (List.mem_append_right _ ht)) ?_
      (fun f u h => nomatch h.choose_spec.1)
    rintro _ u ⟨results, ⟨⟩, ⟨failures, h⟩⟩
    refine ensures_pure ⟨_, rfl, ?_⟩
    rw [steady.faults] at failures
    cases result with
    | ok os =>
      refine ⟨fun f hf => failures f ?_, ?_⟩
      · exact (List.mem_cons.1 hf).resolve_left fun h => nomatch h
      · rw [List.flatten_cons]
        rcases h with ⟨oss, rfl, h⟩ | ⟨⟨f, hf⟩, done, os', sub, h⟩
        · exact .inl ⟨os :: oss, rfl, landed.append h⟩
        · refine .inr ⟨⟨f, List.mem_cons_of_mem _ hf⟩, group ++ done, os ++ os', ?_,
            landed.append h⟩
          exact List.append_subset.2 ⟨List.subset_append_left _ _,
            List.Subset.trans sub (List.subset_append_right _ _)⟩
    -- The other groups are processed all the same, whatever has landed of this one.
    | error g =>
      obtain ⟨escapes, done, os, sub, landed⟩ := landed
      refine ⟨fun f hf => ?_, .inr ⟨⟨g, List.mem_cons_self⟩, ?_⟩⟩
      · rcases List.mem_cons.1 hf with hf | hf
        · cases hf
          exact escapes
        · exact failures f hf
      · rw [List.flatten_cons]
        have sub : done ⊆ group ++ rest.flatten :=
          List.Subset.trans sub (List.subset_append_left _ _)
        rcases h with ⟨oss, rfl, h⟩ | ⟨-, more, os', sub', h⟩
        · refine ⟨_, _, ?_, landed.append h⟩
          exact List.append_subset.2 ⟨sub, List.subset_append_right _ _⟩
        · refine ⟨_, _, ?_, landed.append h⟩
          exact List.append_subset.2 ⟨sub, List.Subset.trans sub' (List.subset_append_right _ _)⟩

theorem mapM_ok {oss : List (List DocumentOutcome)} :
    (oss.map Except.ok).mapM id = (.ok oss : Except Failure _) := by
  induction oss with
  | nil => rfl
  | cons os oss ih =>
    rw [List.map_cons, List.mapM_cons, ih]
    rfl

theorem exists_error_of_mapM {results : List (Except Failure (List DocumentOutcome))}
    (h : ∃ f, Except.error f ∈ results) :
    ∃ f, Except.error f ∈ results ∧ results.mapM id = .error f := by
  induction results with
  | nil => exact nomatch h.choose_spec
  | cons result rest ih =>
    cases result with
    | error f => exact ⟨f, List.mem_cons_self, by rw [List.mapM_cons]; rfl⟩
    | ok os =>
      obtain ⟨f, hf⟩ := h
      obtain ⟨g, hg, hr⟩ := ih ⟨f, (List.mem_cons.1 hf).resolve_left fun h => nomatch h⟩
      refine ⟨g, List.mem_cons_of_mem _ hg, ?_⟩
      rw [List.mapM_cons, hr]
      rfl

/-- Whoever processes the groups, the tasks land in the order of processing. -/
theorem processTasks_ends (hk : ∀ task ∈ tasks, task.key.isKey = true) :
    Ensures setup s (processTasks request tasks) fun r t =>
      BatchEnds setup request (inTurn tasks) s r t.database := by
  have hk : ∀ task ∈ inTurn tasks, task.key.isKey = true := fun task ht =>
    hk task ((inTurn_perm tasks).subset ht)
  refine ensures_read ?_
  split
  · refine Ensures.bind (processGroups_ends hk) ?_ (fun f u h => nomatch h.choose_spec.1)
    rintro _ t ⟨results, ⟨⟩, ⟨failures, h⟩⟩
    -- All groups came to their outcomes, or the first failure among them is that of the batch.
    rcases h with ⟨oss, rfl, h⟩ | ⟨failed, h⟩
    · rw [mapM_ok]
      exact h
    · obtain ⟨f, hf, hr⟩ := exists_error_of_mapM failed
      rw [hr]
      exact ⟨failures f hf, h⟩
  · exact processAll_ends hk

end Writer

end Folio
