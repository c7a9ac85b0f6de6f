import Folio.Failure
import Folio.Proofs.OnePass
import Mathlib.Data.List.Dedup
/-!
# The rounds of a default

A default evaluates what it wraps, puts its fallback in the place of the field that was missing, and
starts again, until a round settles it. Nothing in this bounds the rounds; what does is that every
further round follows on a field node of the wrapped expression that had not been replaced before.
So there is at most one round more than there are different field nodes. What is still missing in
the end is missing in the fallback, and a constant misses nothing.
-/

namespace Folio

namespace Expression

/-! ## Rounds -/

/-- What a round of a default leads to. -/
inductive Turn where
  /-- The default has come to its outcome. -/
  | ends (outcome : Evaluated)
  /-- A further round, under a larger substitution. -/
  | again (known : Substitution)

/-- What a round under a substitution leads to, by the outcome of the round. -/
def turn (fallback : Evaluated) (known : Substitution) : Evaluated → Turn
  | .ok value => .ends (if value.isNull then fallback else .ok value)
  | .error (.missing _ (some node)) =>
    if Entries.has known node then .ends fallback
    else
      match fallback with
      | .ok value => .again (Entries.put known node value)
      | .error fault => .ends (.error fault)
  | .error (.missing _ none) => .ends fallback
  | .error fault => .ends (.error fault)

/-- Round after round, as long as it takes: a default that starts under a substitution comes to an
outcome after a number of rounds. -/
inductive Rounds (run : Substitution → Evaluated) (fallback : Evaluated) :
    Substitution → Nat → Evaluated → Prop
  | ends {known : Substitution} {outcome : Evaluated}
      (settled : turn fallback known (run known) = .ends outcome) :
      Rounds run fallback known 1 outcome
  | again {known more : Substitution} {rounds : Nat} {outcome : Evaluated}
      (missed : turn fallback known (run known) = .again more)
      (rest : Rounds run fallback more rounds outcome) :
      Rounds run fallback known (rounds + 1) outcome

variable {run : Substitution → Evaluated} {fallback : Evaluated} {known more : Substitution}
variable {document : Term} {nodes : List Nat}

/-- A default comes to one outcome, after one number of rounds. -/
theorem Rounds.unique {m n : Nat} {first second : Evaluated}
    (h : Rounds run fallback known m first) (k : Rounds run fallback known n second) :
    n = m ∧ second = first := by
  induction h generalizing n with
  | ends settled =>
    cases k with
    | ends also =>
      rw [settled] at also
      cases also
      exact ⟨rfl, rfl⟩
    | again missed _ =>
      rw [settled] at missed
      cases missed
  | again missed _ ih =>
    cases k with
    | ends settled =>
      rw [missed] at settled
      cases settled
    | again also rest =>
      rw [missed] at also
      cases also
      obtain ⟨rfl, rfl⟩ := ih rest
      exact ⟨rfl, rfl⟩

/-- One round less is left after a round that did not settle the default. -/
theorem recover_succ (fuel : Nat) :
    recover run fallback (fuel + 1) known = match turn fallback known (run known) with
      | .ends outcome => outcome
      | .again more => recover run fallback fuel more := by
  rw [recover]
  rcases run known with fault | value
  · cases fault with
    | missing why node =>
      cases node with
      | none => rfl
      | some node =>
        unfold turn
        dsimp only
        split
        · rfl
        · cases fallback <;> rfl
    | _ => rfl
  · rfl

/-- Nothing is missing: the outcome is a value, or a fault of another kind. -/
inductive IsComplete : Evaluated → Prop
  | value {value : Term} (present : value.isNull = false) : IsComplete (.ok value)
  | fault {fault : EvaluationFault} (other : ∀ why node, fault ≠ .missing why node) :
      IsComplete (.error fault)

/-- A default ends with a round in which nothing is missing, or with its fallback. -/
theorem turn_ends {round outcome : Evaluated} (h : turn fallback known round = .ends outcome) :
    outcome = fallback ∨ IsComplete outcome := by
  unfold turn at h
  split at h
  · cases h
    split
    · exact .inl rfl
    · rename_i present
      exact .inr (.value (Bool.eq_false_iff.2 present))
  · split at h
    · cases h
      exact .inl rfl
    · split at h
      · cases h
      · cases h
        exact .inl rfl
  · cases h
    exact .inl rfl
  · rename_i fault traced untraced
    cases h
    refine .inr (.fault fun why node eq => ?_)
    cases node with
    | none => exact untraced why eq
    | some node => exact traced why node eq

/-- A further round has a node in its substitution that was blamed and not known before. -/
theorem turn_again {round : Evaluated} (h : turn fallback known round = .again more) :
    ∃ why node value, round = .error (.missing why (some node)) ∧
      Entries.has known node = false ∧ more = Entries.put known node value := by
  unfold turn at h
  split at h
  · cases h
  · rename_i why node
    split at h
    · cases h
    · rename_i fresh
      split at h
      · rename_i value
        cases h
        exact ⟨why, node, value, rfl, Bool.eq_false_iff.2 fresh, rfl⟩
      · cases h
  · cases h
  · cases h

/-- With the fuel for every node that is not known yet, a default comes to its outcome before the
fuel is used up. -/
theorem rounds_of_recover (run : Substitution → Evaluated) (fallback : Evaluated)
    (blamed : ∀ known why node, run known = .error (.missing why (some node)) → node ∈ nodes)
    {fuel : Nat} (enough : unknown known nodes < fuel) :
    ∃ rounds, rounds ≤ unknown known nodes + 1 ∧
      Rounds run fallback known rounds (recover run fallback fuel known) := by
  induction fuel generalizing known with
  | zero => omega
  | succ fuel ih =>
    rw [recover_succ]
    cases turned : turn fallback known (run known) with
    | ends outcome => exact ⟨1, by omega, .ends turned⟩
    | again more =>
      -- The blamed node is one that was not known: unknown nodes and fuel decrease together.
      obtain ⟨why, node, value, missed, fresh, rfl⟩ := turn_again turned
      have fewer := unknown_put_lt value (blamed known why node missed) fresh
      obtain ⟨rounds, few, rest⟩ := @ih (Entries.put known node value) (by omega)
      exact ⟨rounds + 1, by omega, .again turned rest⟩

/-- What is missing in the end is missing in the fallback. -/
theorem recover_eq_or (run : Substitution → Evaluated) (fallback : Evaluated) (fuel : Nat)
    (known : Substitution) :
    recover run fallback fuel known = fallback ∨ IsComplete (recover run fallback fuel known) := by
  induction fuel generalizing known with
  | zero => exact .inl rfl
  | succ fuel ih =>
    rw [recover_succ]
    cases turned : turn fallback known (run known) with
    | ends outcome => exact turn_ends turned
    | again more => exact ih more

/-! ## What is blamed -/

theorem blamed_of_applyOperator {op : Operator} {leftNode rightNode : Option Nat}
    {left right : Term} {why : Missing} {node : Nat}
    (h : applyOperator op leftNode rightNode left right = .error (.missing why (some node))) :
    leftNode = some node ∨ rightNode = some node := by
  cases op with
  | arithmetic op =>
    unfold applyOperator at h
    dsimp only at h
    split at h
    · cases h
      exact .inl rfl
    · split at h
      · cases h
        exact .inr rfl
      · exact absurd h (apply_ne_missing op left right why (some node))
  | order relation =>
    unfold applyOperator at h
    dsimp only at h
    split at h <;> cases h
  | _ => cases h

theorem mem_of_fieldNode? {e : Expression Term} {node : Nat} (h : e.fieldNode? = some node) :
    node ∈ e.fieldNodes := by
  cases e with
  | field own base name =>
    cases h
    exact List.mem_cons_self
  | _ => cases h

/-- The failure of one computation after another is one of the first or of what came next. -/
theorem error_of_bind {first : Evaluated} {next : Term → Evaluated} {fault : EvaluationFault}
    (h : (first >>= next) = .error fault) :
    first = .error fault ∨ ∃ value, next value = .error fault := by
  cases first with
  | error other => exact .inl h
  | ok value => exact .inr ⟨value, h⟩

/-- A fault of an operation is one of an operand, or of the operator on two values. -/
theorem fault_of_operation {op : Operator} {left right : Expression Term}
    {fault : EvaluationFault}
    (h : (operation op left right).evaluate document known = .error fault) :
    left.evaluate document known = .error fault ∨ right.evaluate document known = .error fault ∨
      ∃ l r, applyOperator op left.fieldNode? right.fieldNode? l r = .error fault := by
  unfold evaluate at h
  split at h
  · refine (error_of_bind h).imp_right fun ⟨l, h⟩ => .inl ?_
    split at h
    · exact h
    · cases h
  · refine (error_of_bind h).imp_right fun ⟨l, h⟩ => .inl ?_
    split at h
    · cases h
    · exact h
  · refine (error_of_bind h).imp_right fun ⟨l, h⟩ => ?_
    exact (error_of_bind h).imp_right fun ⟨r, h⟩ => ⟨l, r, h⟩

/-- A field that is read blames itself. -/
theorem blamed_of_field {own : Nat} {base : Expression Term} {name : String} {why : Missing}
    {node : Nat}
    (h : (field own base name).evaluate document known = .error (.missing why (some node))) :
    own = node := by
  rw [evaluate] at h
  split at h
  · cases h
  · split at h
    · unfold readField at h
      split at h
      · cases h
        rfl
      · split at h
        · cases h
        · cases h
          rfl
      · cases h
    · rename_i fault _
      cases fault with
      | missing why other =>
        cases h
        rfl
      | _ => cases h

/-- The node that a missing field is blamed on is one of the expression's own. -/
theorem mem_of_missing {e : Expression Term} {why : Missing} {node : Nat}
    (h : e.evaluate document known = .error (.missing why (some node))) :
    node ∈ e.fieldNodes := by
  induction e generalizing known why with
  | row => cases h
  | const value => cases h
  | field own base name _ =>
    rw [← blamed_of_field h]
    exact List.mem_cons_self
  | operation op left right ihl ihr =>
    refine List.mem_append.2 ?_
    rcases fault_of_operation h with h | h | ⟨l, r, h⟩
    · exact .inl (ihl h)
    · exact .inr (ihr h)
    · exact (blamed_of_applyOperator h).imp mem_of_fieldNode? mem_of_fieldNode?
  | not inner ih =>
    rcases error_of_bind h with h | ⟨value, h⟩
    · exact ih h
    · cases h
  | default inner fallback _ ihf =>
    -- What the wrapped expression misses is made good; the blame is the fallback's.
    refine List.mem_append_right _ ?_
    rcases recover_eq_or (fun more => inner.evaluate document more)
      (fallback.evaluate document known) (inner.fieldNodes.length + 1) known with same | complete
    · exact ihf (same.symm.trans h)
    · rw [evaluate] at h
      rw [h] at complete
      cases complete with
      | fault other => exact absurd rfl (other why (some node))
  | hasFields base names ih =>
    rcases error_of_bind h with h | ⟨value, h⟩
    · exact ih h
    · cases h
  | branch condition value otherwise ihc ihv iho =>
    refine List.mem_append.2 ?_
    rcases error_of_bind h with h | ⟨c, h⟩
    · exact .inl (List.mem_append_left _ (ihc h))
    · split at h
      · exact .inl (List.mem_append_right _ (ihv h))
      · exact .inr (iho h)

/-! ## Defaults -/

/-- Under every substitution, a default comes to its outcome after a number of rounds, which is at
most one more than there are different field nodes in what it wraps; and with a fallback that is a
constant other than null, it comes neither to null nor to a missing field. -/
theorem default_rounds (inner fallback : Expression Term) (document : Term)
    (known : Substitution) :
    (∃ rounds, rounds ≤ inner.fieldNodes.dedup.length + 1 ∧ ∀ n outcome,
      Rounds (fun more => inner.evaluate document more) (fallback.evaluate document known) known n
        outcome ↔
          n = rounds ∧ outcome = (Expression.default inner fallback).evaluate document known) ∧
    ∀ constant : Term, constant.isNull = false →
      (∀ value, (Expression.default inner (.const constant)).evaluate document known = .ok value →
        value.isNull = false) ∧
      ∀ fault, (Expression.default inner (.const constant)).evaluate document known =
        .error fault → Failure.evaluationKind fault ≠ .fieldMissing := by
  constructor
  · have enough : unknown known inner.fieldNodes.dedup < inner.fieldNodes.length + 1 :=
      Nat.lt_succ_of_le (Nat.le_trans List.countP_le_length (List.dedup_sublist _).length_le)
    obtain ⟨rounds, few, ended⟩ := rounds_of_recover
      (fun more => inner.evaluate document more) (fallback.evaluate document known)
      (fun known why node missed => List.mem_dedup.2 (mem_of_missing missed)) enough
    refine ⟨rounds, Nat.le_trans few (Nat.succ_le_succ List.countP_le_length), fun n outcome => ?_⟩
    constructor
    · exact ended.unique
    · rintro ⟨rfl, rfl⟩
      exact ended
  · intro constant present
    have complete : IsComplete ((Expression.default inner (.const constant)).evaluate document
        known) := by
      rw [evaluate]
      rcases recover_eq_or (fun more => inner.evaluate document more) (.ok constant)
        (inner.fieldNodes.length + 1) known with same | complete
      · rw [evaluate, same]
        exact .value present
      · exact complete
    refine ⟨fun value h => ?_, fun fault h kind => ?_⟩
    · rw [h] at complete
      cases complete with
      | value present => exact present
    · rw [h] at complete
      cases complete with
      | fault other =>
        cases fault with
        | missing why node => exact other why node rfl
        | _ => cases kind

/-- The sum of two fields, one of them read twice, with one for each that is missing. -/
def visits : Expression Term :=
  .operation (.arithmetic .add)
    (.operation (.arithmetic .add) (.field 0 .row "views") (.field 1 .row "likes"))
    (.field 0 .row "views")

/-- On the empty document, the sum of two fields takes all three rounds. -/
theorem default_rounds_visits :
    (Term.int 1).isNull = false ∧ visits.fieldNodes.dedup.length + 1 = 3 ∧
      (∀ n outcome, Rounds (fun more => visits.evaluate (.mapping []) more) (.ok (.int 1)) [] n
        outcome ↔ n = 3 ∧ outcome = .ok (.int 3)) ∧
      ∀ fault, (Expression.default visits (.const (.int 1))).value (.mapping []) = .error fault →
        Failure.evaluationKind fault ≠ .fieldMissing := by
  obtain ⟨⟨rounds, few, ended⟩, complete⟩ :=
    default_rounds visits (.const (.int 1)) (.mapping []) []
  have three : Rounds (fun more => visits.evaluate (.mapping []) more) (.ok (.int 1)) [] 3
      (.ok (.int 3)) := .again rfl (.again rfl (.ends rfl))
  obtain ⟨rfl, outcome⟩ := (ended 3 _).1 three
  rw [← outcome] at ended
  exact ⟨rfl, rfl, ended, (complete (.int 1) rfl).2⟩

end Expression

end Folio
