import Folio.Proofs.Batches
/-!
# Visits

A request visits its targets one after the other. What holds of each visit, as long as a condition
on the state that every visit keeps, holds of all visits of a request: of all targets in turn if it
comes to a report, and otherwise of some of them, one of which has failed. Batches that share their
tasks key by key come to the same outcomes in the end, whatever the order of their visits.
-/

namespace Folio

open Run StoreState

/-- Targets that are visited one after the other, each from the state that the one before it left,
with what each visit came to. -/
inductive Visits (Visit : Task → StoreState → Except Failure DocumentOutcome → StoreState → Prop) :
    List Task → StoreState → List (Except Failure DocumentOutcome) → StoreState → Prop
  | nil (s : StoreState) : Visits Visit [] s [] s
  | cons {task : Task} {tasks : List Task} {s t last : StoreState}
      {r : Except Failure DocumentOutcome} {rs : List (Except Failure DocumentOutcome)}
      (visit : Visit task s r t) (rest : Visits Visit tasks t rs last) :
      Visits Visit (task :: tasks) s (r :: rs) last

variable {Visit Other : Task → StoreState → Except Failure DocumentOutcome → StoreState → Prop}
variable {setup : Setup} {s t u : StoreState} {request : Request} {task : Task}
variable {tasks more : List Task} {r : Except Failure DocumentOutcome}
variable {rs rest : List (Except Failure DocumentOutcome)} {os : List DocumentOutcome}

theorem Visits.append (h : Visits Visit tasks s rs t) (k : Visits Visit more t rest u) :
    Visits Visit (tasks ++ more) s (rs ++ rest) u := by
  induction h with
  | nil s => exact k
  | cons visit _ ih => exact .cons visit (ih k)

theorem Visits.mono (h : Visits Visit tasks s rs t)
    (imp : ∀ task s r t, task ∈ tasks → Visit task s r t → Other task s r t) :
    Visits Other tasks s rs t := by
  induction h with
  | nil s => exact .nil s
  | cons visit _ ih =>
    refine .cons (imp _ _ _ _ List.mem_cons_self visit) (ih ?_)
    exact fun task s r t ht => imp task s r t (List.mem_cons_of_mem _ ht)

theorem Visits.of_cons (h : Visits Visit (task :: tasks) s (os.map .ok) t) :
    ∃ o rest u, os = o :: rest ∧ Visit task s (.ok o) u ∧
      Visits Visit tasks u (rest.map .ok) t := by
  generalize hr : os.map Except.ok = rs at h
  cases h with
  | cons visit rest =>
    obtain ⟨o, os, rfl, rfl, rfl⟩ := List.map_eq_cons_iff.1 hr
    exact ⟨o, os, _, rfl, visit, rest⟩

theorem Visits.of_nil (h : Visits Visit [] s (os.map .ok) t) : os = [] ∧ t = s := by
  generalize hr : os.map Except.ok = rs at h
  cases h with
  | nil => exact ⟨List.map_eq_nil_iff.1 hr, rfl⟩

/-- Each target was visited, in some state. -/
theorem Visits.forall₂ (h : Visits Visit tasks s rs t) :
    List.Forall₂ (fun task r => ∃ u v, Visit task u r v) tasks rs := by
  induction h with
  | nil s => exact .nil
  | cons visit _ ih => exact .cons ⟨_, _, visit⟩ ih

/-- What no visit changes is the same after all of them. -/
theorem Visits.unchanged {β : Type} (observed : StoreState → β) (h : Visits Visit tasks s rs t)
    (same : ∀ task s r t, Visit task s r t → observed t = observed s) :
    observed t = observed s := by
  induction h with
  | nil s => rfl
  | cons visit _ ih => exact ih.trans (same _ _ _ _ visit)

theorem Visits.exists_of_mem (h : Visits Visit tasks s rs t) (hr : r ∈ rs) :
    ∃ task ∈ tasks, ∃ u v, Visit task u r v := by
  induction h with
  | nil s => cases hr
  | cons visit _ ih =>
    rcases List.mem_cons.1 hr with rfl | hr
    · exact ⟨_, List.mem_cons_self, _, _, visit⟩
    · obtain ⟨task, ht, found⟩ := ih hr
      exact ⟨task, List.mem_cons_of_mem _ ht, found⟩

/-- A document that is none of the targets' is left alone, if each visit leaves it alone. -/
theorem Visits.find?_of_not_mem {table code : String} (h : Visits Visit tasks s rs t)
    (others : ∀ task s r t, Visit task s r t → ∀ code, code ≠ task.key.code →
      t.database.find? table code = s.database.find? table code)
    (absent : code ∉ tasks.map fun task => task.key.code) :
    t.database.find? table code = s.database.find? table code := by
  induction h with
  | nil s => rfl
  | cons visit _ ih =>
    rw [List.map_cons, List.mem_cons, not_or] at absent
    exact (ih absent.2).trans (others _ _ _ _ visit code absent.1)

/-- Targets with different keys are visited at their documents as they were at the start, and what
a visit leaves of its document stays, if a visit leaves the documents of the other keys alone. -/
theorem Visits.alone (table : String) (db : Database) (h : Visits Visit tasks s rs t)
    (nodup : (tasks.map fun task => task.key.code).Nodup)
    (others : ∀ task s r t, Visit task s r t → ∀ code, code ≠ task.key.code →
      t.database.find? table code = s.database.find? table code)
    (start : ∀ task ∈ tasks,
      s.database.find? table task.key.code = db.find? table task.key.code) :
    List.Forall₂ (fun task r => ∃ u v, Visit task u r v ∧
      u.database.find? table task.key.code = db.find? table task.key.code ∧
      t.database.find? table task.key.code = v.database.find? table task.key.code) tasks rs := by
  induction h with
  | nil s => exact .nil
  | @cons task tasks s t last r rs visit rest ih =>
    obtain ⟨fresh, nodup⟩ := List.nodup_cons.1 nodup
    refine .cons ⟨_, _, visit, start task List.mem_cons_self, rest.find?_of_not_mem others fresh⟩
      (ih nodup fun other ho => ?_)
    have apart : other.key.code ≠ task.key.code := fun eq => fresh (List.mem_map.2 ⟨other, ho, eq⟩)
    rw [others _ _ _ _ visit _ apart]
    exact start other (List.mem_cons_of_mem _ ho)

/-- Targets with different keys are visited at their documents as they were at the start. -/
theorem Visits.at_start (table : String) (db : Database) (h : Visits Visit tasks s rs t)
    (nodup : (tasks.map fun task => task.key.code).Nodup)
    (others : ∀ task s r t, Visit task s r t → ∀ code, code ≠ task.key.code →
      t.database.find? table code = s.database.find? table code)
    (start : ∀ task ∈ tasks,
      s.database.find? table task.key.code = db.find? table task.key.code) :
    List.Forall₂ (fun task r => ∃ u v, Visit task u r v ∧
      u.database.find? table task.key.code = db.find? table task.key.code) tasks rs :=
  (h.alone table db nodup others start).imp fun _ _ ⟨u, v, visit, same, _⟩ => ⟨u, v, visit, same⟩

/-- What a batch comes to in visits: each of its targets in turn, or some of them with the failure
of the batch among what they came to. -/
def Visited (Visit : Task → StoreState → Except Failure DocumentOutcome → StoreState → Prop)
    (tasks : List Task) (s : StoreState) : Except Failure (List DocumentOutcome) →
      StoreState → Prop
  | .ok os, t => Visits Visit tasks s (os.map .ok) t
  | .error f, t => ∃ done rs, done.Sublist tasks ∧ .error f ∈ rs ∧ Visits Visit done s rs t

/-- A batch comes to a report if each visit comes to an outcome. -/
theorem Visited.exists_ok {r : Except Failure (List DocumentOutcome)}
    (h : Visited Visit tasks s r t)
    (ok : ∀ task s r t, Visit task s r t → ∃ o, r = .ok o) :
    ∃ os, r = .ok os ∧ Visits Visit tasks s (os.map .ok) t := by
  cases r with
  | ok os => exact ⟨os, rfl, h⟩
  | error f =>
    obtain ⟨done, rs, -, mem, visits⟩ := h
    exfalso
    induction visits with
    | nil s => cases mem
    | cons visit _ ih =>
      rcases List.mem_cons.1 mem with rfl | mem
      · obtain ⟨o, h⟩ := ok _ _ _ _ visit
        cases h
      · exact ih mem

/-- A visit of each of some targets keeps a condition on the state, and is as it should be. -/
def Steps (setup : Setup) (request : Request) (tasks : List Task) (Inv : StoreState → Prop)
    (Visit : Task → StoreState → Except Failure DocumentOutcome → StoreState → Prop) : Prop :=
  ∀ task ∈ tasks, ∀ s, Inv s → Ensures setup s (Commit.process request task) fun r t =>
    Inv t ∧ Visit task s r t

variable {Inv : StoreState → Prop}

namespace Writer

theorem processAll_visited (steps : Steps setup request tasks Inv Visit) (h : Inv s) :
    Ensures setup s (processAll request tasks) fun r t => Inv t ∧ Visited Visit tasks s r t := by
  induction tasks generalizing s with
  | nil => exact ⟨h, .nil s⟩
  | cons task rest ih =>
    have steps_rest : Steps setup request rest Inv Visit :=
      fun task ht => steps task (List.mem_cons_of_mem _ ht)
    refine (steps task List.mem_cons_self s h).bind ?_ ?_
    · rintro o t ⟨inv, visit⟩
      refine (ih steps_rest inv).bind ?_ ?_
      · rintro os u ⟨inv, visits⟩
        exact ensures_pure ⟨inv, .cons visit visits⟩
      · rintro f u ⟨inv, done, rs, sub, mem, visits⟩
        exact ⟨inv, task :: done, .ok o :: rs, sub.cons_cons task, List.mem_cons_of_mem _ mem,
          .cons visit visits⟩
    · rintro f t ⟨inv, visit⟩
      exact ⟨inv, [task], [.error f], List.singleton_sublist.2 List.mem_cons_self,
        List.mem_singleton_self _, .cons visit (.nil t)⟩

/-- What the groups of a batch come to in visits. -/
def GroupsVisited (Visit : Task → StoreState → Except Failure DocumentOutcome → StoreState → Prop)
    (groups : List (List Task)) (s : StoreState)
    (results : List (Except Failure (List DocumentOutcome))) (t : StoreState) : Prop :=
  (∃ oss : List (List DocumentOutcome), results = oss.map .ok ∧
      Visits Visit groups.flatten s (oss.flatten.map .ok) t) ∨
    ((∃ f, Except.error f ∈ results) ∧ ∃ done rs, done.Sublist groups.flatten ∧
      (∀ f, Except.error f ∈ results → .error f ∈ rs) ∧ Visits Visit done s rs t)

theorem processGroups_visited {groups : List (List Task)}
    (steps : Steps setup request groups.flatten Inv Visit) (h : Inv s) :
    Ensures setup s (processGroups request groups) fun r t => Inv t ∧ ∃ results, r = .ok results ∧
      GroupsVisited Visit groups s results t := by
  induction groups generalizing s with
  | nil => exact ⟨h, [], rfl, .inl ⟨[], rfl, .nil s⟩⟩
  | cons group rest ih =>
    rw [List.flatten_cons] at steps
    have first := @processAll_visited Visit setup s request group Inv
      (fun task ht => steps task (List.mem_append_left _ ht)) h
    refine Ensures.attempt first ?_
    rintro result t ⟨inv, visited⟩
    refine (ih (fun task ht => steps task (List.mem_append_right _ ht)) inv).bind ?_
      (fun f u h => nomatch h.2.choose_spec.1)
    rintro _ u ⟨inv, results, ⟨⟩, others⟩
    refine ensures_pure ⟨inv, _, rfl, ?_⟩
    unfold GroupsVisited
    rw [List.flatten_cons]
    cases result with
    | ok os =>
      have visited : Visits Visit group s (os.map .ok) t := visited
      rcases others with ⟨oss, rfl, visits⟩ | ⟨⟨f, hf⟩, done, rs, sub, mem, visits⟩
      · refine .inl ⟨os :: oss, rfl, ?_⟩
        rw [List.flatten_cons, List.map_append]
        exact visited.append visits
      · refine .inr ⟨⟨f, List.mem_cons_of_mem _ hf⟩, group ++ done, os.map .ok ++ rs,
          sub.append_left group, ?_, Visits.append visited visits⟩
        intro g hg
        refine List.mem_append_right _ (mem g ?_)
        exact (List.mem_cons.1 hg).resolve_left fun h => nomatch h
    -- The other groups are visited all the same.
    | error f =>
      obtain ⟨done, rs, sub, mem, visits⟩ := visited
      refine .inr ⟨⟨f, List.mem_cons_self⟩, ?_⟩
      rcases others with ⟨oss, rfl, more⟩ | ⟨-, done', rs', sub', mem', more⟩
      · refine ⟨_, _, sub.append (List.Sublist.refl _), ?_, Visits.append visits more⟩
        intro g hg
        rcases List.mem_cons.1 hg with hg | hg
        · cases hg
          exact List.mem_append_left _ mem
        · obtain ⟨os, -, h⟩ := List.mem_map.1 hg
          cases h
      · refine ⟨_, _, sub.append sub', ?_, Visits.append visits more⟩
        intro g hg
        rcases List.mem_cons.1 hg with hg | hg
        · cases hg
          exact List.mem_append_left _ mem
        · exact List.mem_append_right _ (mem' g hg)

/-- Whoever processes the groups, they are visited in the order of processing. -/
theorem processTasks_visited (steps : Steps setup request tasks Inv Visit) (h : Inv s) :
    Ensures setup s (processTasks request tasks) fun r t =>
      Inv t ∧ Visited Visit (inTurn tasks) s r t := by
  have steps : Steps setup request (inTurn tasks) Inv Visit := fun task ht =>
    steps task ((inTurn_perm tasks).subset ht)
  refine ensures_read ?_
  split
  · refine (processGroups_visited steps h).bind ?_ (fun f t h => nomatch h.2.choose_spec.1)
    rintro _ t ⟨inv, results, ⟨⟩, ⟨oss, rfl, visits⟩ | ⟨failed, done, rs, sub, mem, visits⟩⟩
    · rw [mapM_ok]
      exact ⟨inv, visits⟩
    · obtain ⟨f, hf, hr⟩ := exists_error_of_mapM failed
      rw [hr]
      exact ⟨inv, done, rs, sub, mem f hf, visits⟩
  · exact processAll_visited steps h

end Writer

end Folio
