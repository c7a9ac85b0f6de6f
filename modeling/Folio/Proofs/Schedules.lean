import Folio.Proofs.Replay
import Folio.Proofs.Visits
import Mathlib.Data.List.Sort
/-!
# Schedules

Targets may be visited in any order that keeps the targets of each key in their order. Seen from one
key, a batch is the turns that its targets take at its document, and turns with one possible end
come to the same outcomes and the same document. So every schedule comes to the same outcomes, in
the order of the report, and to the same documents. The groups of a batch, one after the other in
any order, are such schedules.
-/

namespace Folio

/-- An order of tasks in which those of each key come as they do in the request. -/
def IsSchedule (tasks order : List Task) : Prop :=
  ∀ code, order.filter (Writer.hasCode code) = tasks.filter (Writer.hasCode code)

theorem IsSchedule.mem_iff {tasks order : List Task} (h : IsSchedule tasks order) (task : Task) :
    task ∈ order ↔ task ∈ tasks := by
  have own : ∀ list : List Task, task ∈ list.filter (Writer.hasCode task.key.code) ↔
      task ∈ list := by
    intro list
    simp [Writer.hasCode]
  rw [← own order, h, own tasks]

/-- Targets of one key that take their turns at its document. -/
inductive Turns (Turn : Task → Option Document → DocumentOutcome → Option Document → Prop) :
    List Task → Option Document → List DocumentOutcome → Option Document → Prop
  | nil (d : Option Document) : Turns Turn [] d [] d
  | cons {task : Task} {tasks : List Task} {d next last : Option Document} {o : DocumentOutcome}
      {os : List DocumentOutcome} (turn : Turn task d o next)
      (rest : Turns Turn tasks next os last) : Turns Turn (task :: tasks) d (o :: os) last

variable {Turn : Task → Option Document → DocumentOutcome → Option Document → Prop}
variable {Visit : Task → StoreState → Except Failure DocumentOutcome → StoreState → Prop}
variable {s t u : StoreState} {table code : String} {tasks order : List Task}
variable {os others : List DocumentOutcome} {d last other : Option Document}

/-- Turns with one possible end come to one end. -/
theorem Turns.unique (h : Turns Turn tasks d os last) (k : Turns Turn tasks d others other)
    (one : ∀ task ∈ tasks, ∀ d o next o' next', Turn task d o next → Turn task d o' next' →
      o = o' ∧ next = next') : os = others ∧ last = other := by
  induction h generalizing others other with
  | nil d =>
    cases k
    exact ⟨rfl, rfl⟩
  | @cons task tasks d next last o os turn rest ih =>
    cases k with
    | cons turn' rest' =>
      obtain ⟨rfl, rfl⟩ := one task List.mem_cons_self _ _ _ _ _ turn turn'
      obtain ⟨rfl, rfl⟩ := ih rest' fun task ht => one task (List.mem_cons_of_mem _ ht)
      exact ⟨rfl, rfl⟩

/-- A visit that came to an outcome was a turn at the document of its key, and left the other
documents of the table alone. -/
structure IsTurn (table : String)
    (Turn : Task → Option Document → DocumentOutcome → Option Document → Prop) (task : Task)
    (s : StoreState) (o : DocumentOutcome) (t : StoreState) : Prop where
  outcome : IsOutcomeOf task o
  turn : Turn task (s.database.find? table task.key.code) o
    (t.database.find? table task.key.code)
  others : ∀ code, code ≠ task.key.code → t.database.find? table code = s.database.find? table code

/-- Seen from one key, visits are turns at its document. -/
theorem Visits.turns (h : Visits Visit tasks s (os.map .ok) t)
    (turns : ∀ task s o t, Visit task s (.ok o) t → IsTurn table Turn task s o t) (code : String) :
    Turns Turn (tasks.filter (Writer.hasCode code)) (s.database.find? table code)
      (os.filter (hasKey code)) (t.database.find? table code) := by
  generalize hr : os.map Except.ok = rs at h
  induction h generalizing os with
  | nil s =>
    rw [List.map_eq_nil_iff] at hr
    subst hr
    exact .nil _
  | @cons task tasks s t last r rs visit _ ih =>
    obtain ⟨o, os, rfl, rfl, rfl⟩ := List.map_eq_cons_iff.1 hr
    obtain ⟨outcome, turn, others⟩ := turns _ _ _ _ visit
    have rest := ih rfl
    by_cases hc : task.key.code = code
    · subst hc
      rw [List.filter_cons_of_pos (by simp [Writer.hasCode]),
        List.filter_cons_of_pos (by simp [hasKey, outcome.key])]
      exact .cons turn rest
    · rw [List.filter_cons_of_neg (by simpa [Writer.hasCode] using hc),
        List.filter_cons_of_neg (by simpa [hasKey, outcome.key] using hc)]
      rw [others code (Ne.symm hc)] at rest
      exact rest

theorem Visits.isOutcomeOf (h : Visits Visit tasks s (os.map .ok) t)
    (turns : ∀ task s o t, Visit task s (.ok o) t → IsTurn table Turn task s o t) :
    List.Forall₂ IsOutcomeOf tasks os := by
  have visited := h.forall₂
  rw [List.forall₂_map_right_iff] at visited
  exact visited.imp fun _ _ ⟨_, _, visit⟩ => (turns _ _ _ _ visit).outcome

theorem map_index {R : Task → DocumentOutcome → Prop} (h : List.Forall₂ R tasks os)
    (index : ∀ task o, R task o → o.index = task.index) :
    os.map Outcome.index = tasks.map Task.index := map_eq_of_forall₂ h index

/-! ## Outcomes in order -/

namespace Writer

theorem pairwise_inOrder (os : List DocumentOutcome) :
    (inOrder os).Pairwise fun a b => a.index ≤ b.index := by
  refine (List.pairwise_mergeSort ?_ ?_ os).imp fun h => of_decide_eq_true h
  · intro a b c hab hbc
    simp only [decide_eq_true_eq] at hab hbc ⊢
    omega
  · intro a b
    simp only [Bool.or_eq_true, decide_eq_true_eq]
    omega

/-- There is one order of outcomes with different places. -/
theorem eq_of_perm_of_pairwise (perm : os.Perm others) (places : (os.map Outcome.index).Nodup)
    (h : os.Pairwise fun a b => a.index ≤ b.index)
    (k : others.Pairwise fun a b => a.index ≤ b.index) : os = others := by
  refine List.Perm.eq_of_pairwise ?_ h k perm
  intro a b ha hb hab hba
  exact List.inj_on_of_nodup_map places ha (perm.symm.subset hb) (by omega)

/-- Outcomes that are the same key by key for some of the keys are the same in order as far as those
keys go, if their places differ. -/
theorem filter_inOrder_eq {F : String → Bool}
    (h : ∀ code, F code = false → os.filter (hasKey code) = others.filter (hasKey code))
    (places : (os.map Outcome.index).Nodup) :
    (inOrder os).filter (fun o => !F o.key.code) =
      (inOrder others).filter fun o => !F o.key.code := by
  classical
  have perm : (os.filter fun o => !F o.key.code).Perm
      (others.filter fun o => !F o.key.code) := by
    refine List.perm_iff_count.2 fun o => ?_
    by_cases hF : F o.key.code = false
    · have kept : ∀ os : List DocumentOutcome,
          (os.filter fun o => !F o.key.code).count o = os.count o :=
        fun os => List.count_filter (by simp [hF])
      have own : hasKey o.key.code o = true := by simp [hasKey]
      rw [kept, kept, ← List.count_filter own, h _ hF, List.count_filter own]
    · have out : ∀ os : List DocumentOutcome, o ∉ os.filter fun o => !F o.key.code := by
        intro os ho
        exact hF (by simpa using (List.mem_filter.1 ho).2)
      rw [List.count_eq_zero_of_not_mem (out os), List.count_eq_zero_of_not_mem (out others)]
  have ordered : ∀ os : List DocumentOutcome, ((inOrder os).filter fun o => !F o.key.code).Perm
      (os.filter fun o => !F o.key.code) := fun os => (inOrder_perm os).filter _
  have distinct : (((inOrder os).filter fun o => !F o.key.code).map Outcome.index).Nodup :=
    (((inOrder_perm os).map _).nodup_iff.2 places).sublist (List.filter_sublist.map _)
  exact eq_of_perm_of_pairwise ((ordered os).trans (perm.trans (ordered others).symm)) distinct
    ((pairwise_inOrder os).filter _) ((pairwise_inOrder others).filter _)

/-- Outcomes that are the same key by key are the same in order, if their places differ. -/
theorem inOrder_eq (h : ∀ code, os.filter (hasKey code) = others.filter (hasKey code))
    (places : (os.map Outcome.index).Nodup) : inOrder os = inOrder others := by
  simpa using filter_inOrder_eq (F := fun _ => false) (fun code _ => h code) places

/-- Outcomes in order belong to the tasks in the order of their places. -/
theorem forall₂_inOrder {R : Task → DocumentOutcome → Prop}
    (h : List.Forall₂ R (inTurn tasks) os) (index : ∀ task o, R task o → o.index = task.index)
    (places : (tasks.map Task.index).Pairwise (· < ·)) : List.Forall₂ R tasks (inOrder os) := by
  obtain ⟨placed, hp, perm⟩ : Relation.Comp (List.Forall₂ R) List.Perm tasks os :=
    List.perm_comp_forall₂ (inTurn_perm tasks).symm h
  have ascending : placed.Pairwise fun a b => a.index < b.index :=
    List.pairwise_map.1 (map_index hp index ▸ places)
  have distinct : (placed.map Outcome.index).Nodup :=
    List.pairwise_map.2 (ascending.imp Nat.ne_of_lt)
  rw [eq_of_perm_of_pairwise ((inOrder_perm os).trans perm.symm) ?_ (pairwise_inOrder os)
    (ascending.imp Nat.le_of_lt)]
  · exact hp
  · exact (((inOrder_perm os).trans perm.symm).map _).nodup_iff.2 distinct

end Writer

/-- Batches that share their tasks key by key, and whose turns have one possible end, come to the
same outcomes in order and to the same documents. -/
theorem Visits.agree (h : Visits Visit tasks s (os.map .ok) t)
    (k : Visits Visit order u (others.map .ok) v)
    (turns : ∀ task s o t, Visit task s (.ok o) t → IsTurn table Turn task s o t)
    (one : ∀ task ∈ tasks, ∀ d o next o' next', Turn task d o next → Turn task d o' next' →
      o = o' ∧ next = next')
    (schedule : IsSchedule tasks order)
    (start : ∀ code, u.database.find? table code = s.database.find? table code)
    (places : (tasks.map Task.index).Nodup) :
    Writer.inOrder others = Writer.inOrder os ∧
      ∀ code, v.database.find? table code = t.database.find? table code := by
  have same : ∀ code, os.filter (hasKey code) = others.filter (hasKey code) ∧
      t.database.find? table code = v.database.find? table code := by
    intro code
    have left := h.turns turns code
    have right := k.turns turns code
    rw [schedule code, start code] at right
    exact left.unique right fun task ht => one task (List.mem_filter.1 ht).1
  have indices := map_index (h.isOutcomeOf turns) fun _ _ outcome => outcome.index
  refine ⟨(Writer.inOrder_eq (fun code => (same code).1) (indices ▸ places)).symm, fun code => ?_⟩
  exact (same code).2.symm

end Folio
