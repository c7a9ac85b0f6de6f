import Folio.Proofs.Outcomes
import Folio.Proofs.Reporting
/-!
# Accepted options

Options are built from three terms, each of which is accepted by itself: a term that asks for a
policy, a name of a durability, and a term that says which changes to show. The last one is compared
loosely with false and true, and only integers are sorted out afterwards, so any other number that
is 0 or 1 is accepted as well: a binary64, a decimal, a fraction, a complex number. From then on it
is no boolean: whatever is not the boolean false shows changes.
-/

namespace Folio

open Run

/-- The term asks for the policy: it is the policy, it names it, or it can be called. -/
inductive ConflictPolicy.IsAskedBy : Term → ConflictPolicy → Prop
  | builtin (p : BuiltinPolicy) (identity : Nat) : IsAskedBy (.policy p identity) (.builtin p)
  | resolver (f : FunctionRef) (identity : Nat) : IsAskedBy (.resolver f identity) (.custom f)
  | own (p : FunctionRef) (identity : Nat) : IsAskedBy (.ownPolicy p identity) (.own p)
  | named (p : BuiltinPolicy) : IsAskedBy (.text p.name) (.builtin p)
  | function {t : Term} {f : FunctionRef} (callable : t.callable? = some f) :
    IsAskedBy t (.custom f)

/-- The term is one of those that are meant to say which changes are shown. -/
def ChangeDetail.IsNamedBy (t : Term) : Prop :=
  t = .bool false ∨ t = .bool true ∨ t = .text "always"

/-- The term is a number that is equal to false or true, and no integer. -/
inductive Term.IsNumericBool : Term → Prop
  | float {x : Binary64} (b : Bool)
      (same : (Number.float x).same (.int (if b then 1 else 0)) = true) :
    IsNumericBool (.scalar (.number (.float x)))
  | foreign {n : ForeignNumber} (identity : Nat) (b : Bool) (real : n.imaginary = (0, 0))
      (place : n.place = (0, if b then (Binary64.one : Rat) else 0)) :
    IsNumericBool (.foreign ⟨.number n, identity⟩)

/-! ## Option by option -/

theorem BuiltinPolicy.ofName?_eq_some {name : String} {p : BuiltinPolicy} :
    ofName? name = some p ↔ name = p.name := by
  constructor
  · intro h
    unfold ofName? at h
    split at h <;> cases h <;> rfl
  · rintro rfl
    cases p <;> rfl

theorem ConflictPolicy.ofOption_eq_ok {t : Term} {policy : ConflictPolicy} :
    ofOption t = .ok policy ↔ IsAskedBy t policy := by
  constructor
  · intro h
    unfold ofOption at h
    split at h
    · cases h
      exact .builtin _ _
    · cases h
      exact .resolver _ _
    · cases h
      exact .own _ _
    · split at h
      · rename_i p named
        cases h
        rw [BuiltinPolicy.ofName?_eq_some.1 named]
        exact .named p
      · cases h
    · split at h
      · rename_i f callable
        cases h
        exact .function callable
      · cases h
  · intro h
    cases h with
    | builtin p identity => rfl
    | resolver f identity => rfl
    | own p identity => rfl
    | named p => cases p <;> rfl
    | @function t f callable =>
      -- What can be called is no policy and names none.
      unfold ofOption
      split
      · cases callable
      · cases callable
      · cases callable
      · cases callable
      · rw [callable]

theorem Durability.ofOption_eq_ok {t : Term} {durability : Durability} :
    ofOption t = .ok durability ↔ t = .text durability.name := by
  constructor
  · intro h
    unfold ofOption at h
    split at h <;> cases h <;> rfl
  · rintro rfl
    cases durability <;> rfl

theorem Term.equal_scalar_iff {t : Term} {u : Scalar} :
    t.equal (.scalar u) = true ↔
      (∃ s, t = .scalar s ∧ s.equal u = true) ∨ ∃ f, t = .foreign f ∧ f.equalScalar u = true := by
  constructor
  · intro h
    cases t with
    | scalar s => exact .inl ⟨s, rfl, h⟩
    | foreign f => exact .inr ⟨f, rfl, h⟩
    | _ => cases h
  · rintro (⟨s, rfl, h⟩ | ⟨f, rfl, h⟩)
    · exact h
    · exact h

/-- A number of another type is equal to a boolean where it lies on the number line, at the
boolean's place. -/
theorem ForeignNumber.equalScalar_bool {n : ForeignNumber} {b : Bool} :
    n.equalScalar (.bool b) = true ↔
      n.imaginary = (0, 0) ∧ n.place = (0, if b then (Binary64.one : Rat) else 0) := by
  have place : (Scalar.bool b).place? = some (0, if b then (Binary64.one : Rat) else 0) := by
    cases b with
    | false => simp only [Scalar.place?, Scalar.toNumber?, Bool.false_eq_true, ↓reduceIte,
        Option.bind_some, Number.place_int, zero_mul, Option.map_some, Int.cast_zero]
    | true => simp only [Scalar.place?, Scalar.toNumber?, ↓reduceIte, Option.bind_some,
        Number.place_int, one_mul, Option.map_some, Int.cast_natCast]
  rw [equalScalar, place, Bool.and_eq_true, beq_iff_eq, beq_iff_eq, Option.some_inj]
  exact and_congr_right fun _ => eq_comm

/-- Apart from the booleans and the integers, what is equal to a boolean is another number. -/
theorem Term.isNumericBool_of_equal {t : Term} {b : Bool}
    (no_bool : ∀ c, t = .scalar (.bool c) → False)
    (no_int : ∀ i, t = .scalar (.number (.int i)) → False) (h : t.equal (.bool b) = true) :
    t.IsNumericBool := by
  obtain ⟨s, rfl, equal⟩ | ⟨⟨kind, identity⟩, rfl, equal⟩ := equal_scalar_iff.1 h
  · rcases s with _ | c | (i | x) | text
    · cases equal
    · exact (no_bool c rfl).elim
    · exact (no_int i rfl).elim
    · exact .float b equal
    · cases equal
  · cases kind with
    | number n =>
      obtain ⟨real, place⟩ := ForeignNumber.equalScalar_bool.1 equal
      exact .foreign identity b real place
    | _ => cases equal

theorem Term.IsNumericBool.accepted {t : Term} (h : t.IsNumericBool) :
    ChangeDetail.accepts t = true := by
  have named : ∀ b, Term.bool b ∈ [Term.bool false, Term.bool true, Term.text "always"] := by
    rintro (_ | _) <;> simp
  cases h with
  | float b same => exact List.any_eq_true.2 ⟨.bool b, named b, same⟩
  | foreign identity b real place =>
    exact List.any_eq_true.2 ⟨.bool b, named b, ForeignNumber.equalScalar_bool.2 ⟨real, place⟩⟩

theorem ChangeDetail.accepts_iff {t : Term} :
    accepts t = true ↔ IsNamedBy t ∨ t.IsNumericBool := by
  constructor
  · intro h
    unfold accepts at h
    split at h
    · rename_i b
      cases b
      · exact .inl (.inl rfl)
      · exact .inl (.inr (.inl rfl))
    · cases h
    · rename_i no_bool no_int
      obtain ⟨named, mem, equal⟩ := List.any_eq_true.1 h
      have known : named = .bool false ∨ named = .bool true ∨ named = .text "always" := by
        simpa using mem
      rcases known with rfl | rfl | rfl
      · exact .inr (Term.isNumericBool_of_equal no_bool no_int equal)
      · exact .inr (Term.isNumericBool_of_equal no_bool no_int equal)
      · -- Only the text itself is equal to a text.
        obtain ⟨s, rfl, literal⟩ | ⟨f, -, literal⟩ := Term.equal_scalar_iff.1 equal
        · rcases s with _ | b | (i | x) | text
          · cases literal
          · cases b <;> cases literal
          · cases literal
          · cases literal
          · rw [show text = "always" from beq_iff_eq.1 literal]
            exact .inl (.inr (.inr rfl))
        · rw [Foreign.equalScalar_text] at literal
          cases literal
  · rintro ((rfl | rfl | rfl) | numeric)
    · rfl
    · rfl
    · decide
    · exact numeric.accepted

/-- Only the boolean false asks for no changes. -/
theorem ChangeDetail.ofOption_eq_hidden {t : Term} : ofOption t = .hidden ↔ t = .bool false := by
  constructor
  · intro h
    unfold ofOption at h
    split at h
    · rfl
    · cases h
    · cases h
  · rintro rfl
    rfl

/-! ## All of them -/

theorem Options.ofTerms_eq_ok {conflict durability returnChanges : Term} {options : Options} :
    ofTerms conflict durability returnChanges = .ok options ↔
      durability = .text options.durability.name ∧
        ChangeDetail.accepts returnChanges = true ∧
          ConflictPolicy.IsAskedBy conflict options.conflict ∧
            options.returnChanges = returnChanges := by
  unfold ofTerms
  constructor
  · intro h
    obtain ⟨level, hd, h⟩ := exists_of_bind_ok h
    split at h
    · cases h
    · rename_i accepted
      obtain ⟨policy, hp, h⟩ := exists_of_bind_ok h
      cases h
      exact ⟨Durability.ofOption_eq_ok.1 hd, by simpa using accepted,
        ConflictPolicy.ofOption_eq_ok.1 hp, rfl⟩
  · obtain ⟨policy, level, changes⟩ := options
    rintro ⟨hd, accepted, asked, rfl⟩
    rw [Durability.ofOption_eq_ok.2 hd, ConflictPolicy.ofOption_eq_ok.2 asked, accepted]
    rfl

namespace Writer

theorem optionsOf_eq_ok {conflict durability returnChanges : Term} {options : Options} :
    optionsOf conflict durability returnChanges = .ok options ↔
      durability = .text options.durability.name ∧
        ChangeDetail.accepts returnChanges = true ∧
          ConflictPolicy.IsAskedBy conflict options.conflict ∧
            options.returnChanges = returnChanges := by
  rw [← Options.ofTerms_eq_ok]
  unfold optionsOf
  cases Options.ofTerms conflict durability returnChanges <;> simp

theorem structural_of_optionsOf {conflict durability returnChanges : Term} {f : Failure}
    (h : optionsOf conflict durability returnChanges = .error f) : f.kind = .structural := by
  unfold optionsOf at h
  split at h
  · cases h
  · cases h
    rfl

/-- A report has changes exactly when its options are not built from the boolean false. -/
theorem isSome_changes_of_execute {setup : Setup} {s t : StoreState} {selector : Selector Term}
    {mutation : Mutation Term} {options : Options} {report : WriteReport}
    (h : (execute selector mutation options).exec setup s = (.ok report, t)) :
    report.changes.isSome = true ↔ options.returnChanges ≠ .bool false := by
  have ended := @execute_outcomes setup s selector mutation options
  rw [Ensures, h] at ended
  cases ho : ((outcomes selector mutation options).exec setup s).1 with
  | error f =>
    rw [ho] at ended
    cases ended.1
  | ok os =>
    rw [ho] at ended
    cases ended.1
    rw [Report.isSome_changes_ofOutcomes, decide_eq_true_iff, Options.detail, Ne,
      ChangeDetail.ofOption_eq_hidden]

/-- Options are built exactly when the policy is asked for, the durability has its name, and the
changes are named or given as a number, other than an integer, that is equal to a boolean; else the
request is ill-formed. Whatever is accepted, only the boolean false asks for no changes, and the
reports follow. -/
theorem options_accepted (conflict durability returnChanges : Term) :
    ((∃ options, optionsOf conflict durability returnChanges = .ok options) ↔
      (∃ policy, ConflictPolicy.IsAskedBy conflict policy) ∧
        (∃ level : Durability, durability = .text level.name) ∧
          (ChangeDetail.IsNamedBy returnChanges ∨ returnChanges.IsNumericBool)) ∧
      (∀ f, optionsOf conflict durability returnChanges = .error f → f.kind = .structural) ∧
      ∀ options, optionsOf conflict durability returnChanges = .ok options →
        ConflictPolicy.IsAskedBy conflict options.conflict ∧
          durability = .text options.durability.name ∧
            (options.wantsChanges = true ↔ returnChanges ≠ .bool false) ∧
              ∀ setup s selector mutation report t,
                (execute selector mutation options).exec setup s = (.ok report, t) →
                  (report.changes.isSome = true ↔ returnChanges ≠ .bool false) := by
  refine ⟨⟨?_, ?_⟩, fun f => structural_of_optionsOf, ?_⟩
  · rintro ⟨options, h⟩
    obtain ⟨hd, accepted, asked, -⟩ := optionsOf_eq_ok.1 h
    exact ⟨⟨_, asked⟩, ⟨_, hd⟩, ChangeDetail.accepts_iff.1 accepted⟩
  · rintro ⟨⟨policy, asked⟩, ⟨level, hd⟩, named⟩
    exact ⟨⟨policy, level, returnChanges⟩,
      optionsOf_eq_ok.2 ⟨hd, ChangeDetail.accepts_iff.2 named, asked, rfl⟩⟩
  · intro options h
    obtain ⟨hd, -, asked, rfl⟩ := optionsOf_eq_ok.1 h
    refine ⟨asked, hd, ?_, fun setup s selector mutation report t => isSome_changes_of_execute⟩
    rw [Options.wantsChanges, bne_iff_ne, Ne, Options.detail, ChangeDetail.ofOption_eq_hidden]

/-- The decimal 1 is accepted, and the imaginary unit is not. -/
example :
    ChangeDetail.accepts (.foreign ⟨.number
        ⟨"Decimal", "decimal.Decimal", "Decimal('1')", (0, Binary64.one), none⟩, 0⟩) = true ∧
      ChangeDetail.accepts (.foreign ⟨.number
        ⟨"complex", "complex", "1j", (0, 0), some (0, Binary64.one)⟩, 0⟩) = false := by
  decide +kernel

/-- The binary64 0 is accepted though it is none of the names, and shows changes though it is equal
to false. -/
theorem options_accept_zero :
    (∃ options, optionsOf (.text "error") (.text "hard")
        (.scalar (.number (.float (.zero false)))) = .ok options ∧ options.wantsChanges = true) ∧
      ¬ ChangeDetail.IsNamedBy (.scalar (.number (.float (.zero false)))) ∧
        Term.equal (.scalar (.number (.float (.zero false)))) (.bool false) = true := by
  refine ⟨⟨⟨.builtin .error, .hard, _⟩,
    optionsOf_eq_ok.2 ⟨rfl, by decide +kernel, .named .error, rfl⟩, rfl⟩, ?_, by decide +kernel⟩
  rintro (h | h | h) <;> cases h

end Writer

end Folio
