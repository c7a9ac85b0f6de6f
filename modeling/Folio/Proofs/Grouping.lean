import Folio.Writer.Writer
import Mathlib.Data.List.Induction
/-!
# Groups of one key

The tasks of a request are processed group by group, and a group has the tasks of one key in their
order. So the order of processing is another order of the same tasks, in which the tasks of any one
key come as they did. The report sorts the outcomes by their places, which again changes nothing
among the outcomes of one key.
-/

namespace Folio

namespace Writer

/-- The key of a task is addressed by a code. -/
def hasCode (code : String) (task : Task) : Bool := task.key.code == code

theorem groups_concat (tasks : List Task) (task : Task) :
    groups (tasks ++ [task]) = Entries.put (groups tasks) task.key.code
      ((Entries.find? (groups tasks) task.key.code).getD [] ++ [task]) := by
  unfold groups
  rw [List.foldl_append]
  rfl

theorem groups_nodup (tasks : List Task) : ((groups tasks).map Prod.fst).Nodup := by
  induction tasks using List.reverseRecOn with
  | nil => exact List.nodup_nil
  | append_singleton tasks task ih =>
    rw [groups_concat]
    exact Entries.nodup_put ih _ _

/-- The group of a code has the tasks with the code, in order. -/
theorem find?_groups (tasks : List Task) (code : String) :
    (Entries.find? (groups tasks) code).getD [] = tasks.filter (hasCode code) := by
  induction tasks using List.reverseRecOn with
  | nil => rfl
  | append_singleton tasks task ih =>
    rw [groups_concat, List.filter_append]
    by_cases hc : task.key.code = code
    · subst hc
      rw [Entries.find?_put_self, Option.getD_some, ih]
      simp [hasCode]
    · rw [Entries.find?_put_of_ne _ _ hc, ih]
      simp [hasCode, hc]

theorem eq_filter_of_mem_groups {tasks group : List Task} {code : String}
    (h : (code, group) ∈ groups tasks) : group = tasks.filter (hasCode code) := by
  rw [← find?_groups, Entries.find?_of_mem (groups_nodup tasks) h]
  rfl

/-- The tasks in the order in which they are processed. -/
def inTurn (tasks : List Task) : List Task := ((groups tasks).map Prod.snd).flatten

/-- Among entries whose lists are told apart by their keys, those of one key are in one list. -/
theorem filter_flatten {entries : Entries String (List Task)}
    (h : (entries.map Prod.fst).Nodup) (code : String)
    (he : ∀ e ∈ entries, ∀ task ∈ e.2, task.key.code = e.1) :
    ((entries.map Prod.snd).flatten).filter (hasCode code) =
      (Entries.find? entries code).getD [] := by
  induction entries with
  | nil => rfl
  | cons e rest ih =>
    rw [List.map_cons, List.nodup_cons] at h
    have own := he e List.mem_cons_self
    have ih := ih h.2 fun f hf => he f (List.mem_cons_of_mem _ hf)
    rw [List.map_cons, List.flatten_cons, List.filter_append, ih, Entries.find?_cons]
    by_cases hc : e.1 = code
    · subst hc
      have whole : e.2.filter (hasCode e.1) = e.2 :=
        List.filter_eq_self.2 fun task ht => by simp [hasCode, own task ht]
      rw [if_pos (beq_self_eq_true _), whole, Entries.find?_eq_none.2 h.1]
      exact List.append_nil _
    · have none : e.2.filter (hasCode code) = [] :=
        List.filter_eq_nil_iff.2 fun task ht => by simp [hasCode, own task ht, hc]
      rw [if_neg (by simpa using hc), none, List.nil_append]

/-- Processing keeps the order of the tasks of one key. -/
theorem filter_inTurn (tasks : List Task) (code : String) :
    (inTurn tasks).filter (hasCode code) = tasks.filter (hasCode code) := by
  unfold inTurn
  rw [filter_flatten (groups_nodup tasks) code, find?_groups]
  rintro ⟨key, group⟩ he task ht
  rw [eq_filter_of_mem_groups he] at ht
  simpa [hasCode] using (List.mem_filter.1 ht).2

theorem flatten_put_perm (entries : Entries String (List Task)) (code : String) (task : Task) :
    (((Entries.put entries code ((Entries.find? entries code).getD [] ++ [task])).map
      Prod.snd).flatten).Perm (task :: (entries.map Prod.snd).flatten) := by
  induction entries with
  | nil => exact .refl _
  | cons e rest ih =>
    rw [Entries.put, Entries.find?_cons]
    split
    · rw [Option.getD_some, List.map_cons, List.flatten_cons, List.map_cons, List.flatten_cons,
        List.append_assoc]
      exact List.perm_middle
    · rw [List.map_cons, List.flatten_cons, List.map_cons, List.flatten_cons]
      exact (ih.append_left e.2).trans List.perm_middle

/-- Every task is processed once. -/
theorem inTurn_perm (tasks : List Task) : (inTurn tasks).Perm tasks := by
  induction tasks using List.reverseRecOn with
  | nil => exact .refl _
  | append_singleton tasks task ih =>
    unfold inTurn at ih ⊢
    rw [groups_concat]
    refine (flatten_put_perm _ _ task).trans ?_
    exact (ih.cons task).trans (List.perm_append_singleton task tasks).symm

/-- Targets with different keys are processed in their order. -/
theorem inTurn_of_nodup {tasks : List Task}
    (nodup : (tasks.map fun task => task.key.code).Nodup) :
    inTurn tasks = tasks := by
  have single : groups tasks = tasks.map fun task => (task.key.code, [task]) := by
    induction tasks using List.reverseRecOn with
    | nil => rfl
    | append_singleton tasks task ih =>
      rw [List.map_append, List.nodup_append] at nodup
      obtain ⟨nodup, -, apart⟩ := nodup
      have absent : Entries.find? (groups tasks) task.key.code = none := by
        rw [Entries.find?_eq_none, ih nodup, List.map_map]
        exact fun listed => apart _ listed _ List.mem_cons_self rfl
      rw [groups_concat, absent, Entries.put_of_absent _ absent, ih nodup, List.map_append]
      rfl
  rw [inTurn, single, List.map_map]
  exact List.flatMap_singleton' tasks

/-! ## Outcomes in the order of the report -/

theorem inOrder_perm (outcomes : List DocumentOutcome) : (inOrder outcomes).Perm outcomes :=
  List.mergeSort_perm _ _

/-- Outcomes in their places are in order. -/
theorem inOrder_of_places {os : List DocumentOutcome} {place count : Nat}
    (places : os.map Outcome.index = List.range' place count) : inOrder os = os := by
  refine List.mergeSort_of_pairwise ?_
  have ascending : (os.map Outcome.index).Pairwise (· ≤ ·) := by
    rw [places]
    exact List.pairwise_le_range'
  exact (List.pairwise_map.1 ascending).imp fun h => decide_eq_true h

/-- Sorting does not change the order of what is in order already. -/
theorem filter_inOrder {outcomes : List DocumentOutcome} {p : DocumentOutcome → Bool}
    (h : (outcomes.filter p).Pairwise fun a b => a.index ≤ b.index) :
    (inOrder outcomes).filter p = outcomes.filter p := by
  have sorted : (outcomes.filter p).Pairwise fun a b => decide (a.index ≤ b.index) = true :=
    h.imp fun hab => decide_eq_true hab
  have sub : (outcomes.filter p).Sublist (inOrder outcomes) := by
    refine List.sublist_mergeSort ?_ ?_ sorted List.filter_sublist
    · intro a b c hab hbc
      rw [decide_eq_true_eq] at hab hbc ⊢
      omega
    · intro a b
      rw [Bool.or_eq_true, decide_eq_true_eq, decide_eq_true_eq]
      omega
  have sub := sub.filter p
  rw [List.filter_filter] at sub
  simp only [Bool.and_self] at sub
  exact (sub.eq_of_length ((inOrder_perm outcomes).filter p).length_eq.symm).symm

end Writer

end Folio
