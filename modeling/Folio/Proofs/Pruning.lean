import Folio.Proofs.Formulas
import Folio.Proofs.Merging
import Folio.Proofs.SettledDocuments
/-!
# Documents without null fields

A field that is null counts as missing where a default is around it. So a formula with a default
should not tell a document from the same without its null fields, those of objects inside objects
included. Arithmetic does not, and neither does a comparison of fields that are not null; a null
operand of a comparison is a fault where an absent one is replaced.
-/

namespace Folio

/-! ## Pruned documents -/

namespace Value

/-- Whether a value is null. -/
def isNull : Value → Bool
  | .scalar .null => true
  | _ => false

mutual

/-- The value without the null fields of its objects. The items of a list stay as they are. -/
def pruned : Value → Value
  | .scalar s => .scalar s
  | .list items => .list items
  | .object fields => .object (prunedFields fields)

/-- The fields that are not null, with their values pruned. -/
def prunedFields : List (String × Value) → List (String × Value)
  | [] => []
  | (label, value) :: rest =>
    if value.isNull then prunedFields rest else (label, value.pruned) :: prunedFields rest

end

theorem isNull_toTerm (v : Value) : v.toTerm.isNull = v.isNull := by
  rcases v with s | items | fields
  · cases s <;> rfl
  · rfl
  · rfl

theorem eq_null_of_isNull {v : Value} (h : v.isNull = true) : v = .scalar .null := by
  rcases v with s | items | fields
  · cases s <;> first | rfl | cases h
  · cases h
  · cases h

theorem isNull_pruned (v : Value) : v.pruned.isNull = v.isNull := by
  cases v <;> rfl

theorem mem_of_mem_prunedFields {fields : List (String × Value)} {label : String} :
    label ∈ (prunedFields fields).map Prod.fst → label ∈ fields.map Prod.fst := by
  induction fields with
  | nil => exact id
  | cons field rest ih =>
    obtain ⟨name, value⟩ := field
    rw [prunedFields]
    split
    · exact fun h => List.mem_cons_of_mem _ (ih h)
    · intro h
      rcases List.mem_cons.1 h with rfl | h
      · exact List.mem_cons_self
      · exact List.mem_cons_of_mem _ (ih h)

/-- A pruned object has the fields that are not null, pruned. -/
theorem find?_prunedFields {fields : List (String × Value)} (h : (fields.map Prod.fst).Nodup)
    (label : String) :
    Entries.find? (prunedFields fields) label =
      (Entries.find? fields label).bind fun v => if v.isNull then none else some v.pruned := by
  induction fields with
  | nil => rfl
  | cons field rest ih =>
    obtain ⟨name, value⟩ := field
    obtain ⟨absent, apart⟩ := List.nodup_cons.1 h
    rw [prunedFields, Entries.find?_cons]
    by_cases hn : name = label
    · subst hn
      rw [if_pos (beq_self_eq_true _), Option.bind_some]
      split
      · exact Entries.find?_eq_none.2 fun mem => absent (mem_of_mem_prunedFields mem)
      · rw [Entries.find?_cons, if_pos (beq_self_eq_true _)]
    · have other : ¬ (name == label) = true := by simpa using hn
      rw [if_neg other, ← ih apart]
      split
      · rfl
      · rw [Entries.find?_cons, if_neg other]

end Value

/-- The document without its null fields, at any depth of objects in objects. -/
def Document.pruned (d : Document) : Document := Value.prunedFields d

/-! ## Paths in pruned documents -/

namespace Path

/-- What a path leads to in a value, and what it leads to in the pruned value. -/
inductive Prunes : Except EvaluationFault (Option Term) → Except EvaluationFault (Option Term) →
    Prop where
  | fault (f : EvaluationFault) : Prunes (.error f) (.error f)
  | nothing : Prunes (.ok none) (.ok none)
  | null : Prunes (.ok (some .null)) (.ok none)
  | value (v : Value) (present : v.isNull = false) :
    Prunes (.ok (some v.toTerm)) (.ok (some v.pruned.toTerm))

theorem follow_null (names : List String) :
    Prunes (follow names (Value.scalar .null).toTerm) (.ok none) := by
  cases names with
  | nil => exact .null
  | cons name rest => exact .nothing

theorem follow_object (name : String) (rest : List String) (fields : List (String × Value)) :
    follow (name :: rest) (Value.object fields).toTerm =
      match Entries.find? fields name with
      | some v => follow rest v.toTerm
      | none => .ok none := by
  have entered : enter name (Value.object fields).toTerm =
      .ok ((Entries.find? fields name).map Value.toTerm) :=
    congrArg Except.ok (Value.find?_fieldsToEntries fields name)
  rw [follow, entered]
  cases Entries.find? fields name <;> rfl

/-- A path leads to the same in the pruned value, but to nothing where it led to null. -/
theorem follow_pruned (names : List String) {v : Value} (settled : v.IsSettled)
    (present : v.isNull = false) :
    Prunes (follow names v.toTerm) (follow names v.pruned.toTerm) := by
  induction names generalizing v with
  | nil => exact .value v present
  | cons name rest ih =>
    rcases v with s | items | fields
    · cases s with
      | null => cases present
      | _ => exact .fault _
    · exact .fault _
    · obtain ⟨once, inside⟩ := settled
      rw [Value.pruned, follow_object, follow_object, Value.find?_prunedFields once]
      cases hf : Entries.find? fields name with
      | none => exact .nothing
      | some v =>
        rw [Option.bind_some]
        cases hn : v.isNull with
        | false => exact ih (Value.isSettled_of_find? inside hf) hn
        | true =>
          rw [Value.eq_null_of_isNull hn]
          exact follow_null rest

theorem isNullIn_pruned (p : Path) {d : Document} (settled : d.IsSettled) :
    p.isNullIn d.pruned.toTerm = false := by
  have pruned := follow_pruned p.names settled (rfl : (Value.object d).isNull = false)
  rw [isNullIn, show d.pruned.toTerm = (Value.object d).pruned.toTerm from rfl]
  generalize follow p.names (Value.object d).toTerm = found at pruned
  generalize follow p.names (Value.object d).pruned.toTerm = kept at pruned ⊢
  cases pruned with
  | value v present => exact (Value.isNull_toTerm _).trans ((Value.isNull_pruned v).trans present)
  | _ => rfl

end Path

/-! ## Operators on pruned values -/

namespace Term

/-- Terms that no operator of a formula tells apart: they are equal, or both are mappings. -/
inductive Indistinct : Term → Term → Prop where
  | same (t : Term) : Indistinct t t
  | mappings (xs ys : List (Term × Term)) : Indistinct (.mapping xs) (.mapping ys)

theorem Indistinct.typeName {x y : Term} (h : Indistinct x y) : x.typeName = y.typeName := by
  cases h <;> rfl

theorem Indistinct.operandName {x y : Term} (h : Indistinct x y) :
    x.operandName = y.operandName := by
  cases h <;> rfl

theorem indistinct_pruned (v : Value) : Indistinct v.toTerm v.pruned.toTerm := by
  cases v with
  | object fields => exact .mappings _ _
  | _ => exact .same _

theorem apply_mapping_left (op : Arithmetic) (xs : List (Term × Term)) (right : Term) :
    op.apply (.mapping xs) right = .error (.unsupportedOperands op "dict" right.typeName) := by
  cases op <;> cases right <;> rfl

theorem apply_mapping_right (op : Arithmetic) (left : Term) (ys : List (Term × Term)) :
    op.apply left (.mapping ys) = .error (.unsupportedOperands op left.typeName "dict") := by
  cases left with
  | scalar s => cases op <;> cases s <;> rfl
  | _ => cases op <;> rfl

/-- Arithmetic does not look into a mapping. -/
theorem Indistinct.apply {x x' y y' : Term} (hx : Indistinct x x') (hy : Indistinct y y')
    (op : Arithmetic) : op.apply x y = op.apply x' y' := by
  cases hx with
  | mappings xs ys => rw [apply_mapping_left, apply_mapping_left, hy.typeName]
  | same x =>
    cases hy with
    | same y => rfl
    | mappings xs ys => rw [apply_mapping_right, apply_mapping_right]

theorem compare_mapping_left (xs : List (Term × Term)) (right : Term) :
    compare (.mapping xs) right = .error ("dict", right.operandName) := by
  cases right <;> rfl

theorem compare_mapping_right (left : Term) (ys : List (Term × Term)) :
    compare left (.mapping ys) = .error (left.operandName, "dict") := by
  cases left with
  | scalar s => exact compareByPlace_of_orderPlace?_eq_none _ rfl
  | foreign f => exact compareByPlace_of_orderPlace?_eq_none _ rfl
  | _ => rfl

/-- No comparison looks into a mapping. -/
theorem Indistinct.compare {x x' y y' : Term} (hx : Indistinct x x') (hy : Indistinct y y') :
    x.compare y = x'.compare y' := by
  cases hx with
  | mappings xs ys => rw [compare_mapping_left, compare_mapping_left, hy.operandName]
  | same x =>
    cases hy with
    | same y => rfl
    | mappings xs ys => rw [compare_mapping_right, compare_mapping_right]

/-- Null is comparable with nothing. -/
theorem compare_null_left (right : Term) :
    compare .null right = .error ("NoneType", right.operandName) := by
  cases right with
  | scalar s => cases s <;> rfl
  | _ => rfl

theorem compare_null_right (left : Term) :
    compare left .null = .error (left.operandName, "NoneType") := by
  cases left with
  | scalar s => cases s <;> rfl
  | foreign f => exact compareByPlace_of_orderPlace?_eq_none _ rfl
  | _ => rfl

end Term

/-! ## Formulas on pruned documents -/

namespace Formula

open Expression

variable {fallback : Term} {d : Document}

/-- Whether a formula is an operation. -/
def isOperation : Formula → Bool
  | .arithmetic _ _ _ => true
  | .comparison _ _ _ => true
  | _ => false

/-- Outcomes that no operator tells apart. -/
inductive Matches : Evaluated → Evaluated → Prop where
  | fault (f : EvaluationFault) : Matches (.error f) (.error f)
  | value {x y : Term} (h : Term.Indistinct x y) : Matches (.ok x) (.ok y)

theorem Matches.bind_eq {l l' r r' : Evaluated} (hl : Matches l l') (hr : Matches r r')
    {next : Term → Term → Evaluated} (same : ∀ {x x' y y'}, Term.Indistinct x x' →
      Term.Indistinct y y' → next x y = next x' y') : (do
        let x ← l
        let y ← r
        next x y) = (do
        let x ← l'
        let y ← r'
        next x y) := by
  cases hl with
  | fault f => rfl
  | value hx =>
    cases hr with
    | fault f => rfl
    | value hy => exact same hx hy

theorem matches_refl (outcome : Evaluated) : Matches outcome outcome := by
  cases outcome with
  | error f => exact .fault f
  | ok value => exact .value (.same value)

theorem matches_path (p : Path) (settled : d.IsSettled) :
    Matches (p.valueOr fallback d.toTerm) (p.valueOr fallback d.pruned.toTerm) := by
  have pruned := Path.follow_pruned p.names settled (rfl : (Value.object d).isNull = false)
  unfold Path.valueOr
  change Matches (Path.follow p.names (Value.object d).toTerm >>= _)
    (Path.follow p.names (Value.object d).pruned.toTerm >>= _)
  generalize Path.follow p.names (Value.object d).toTerm = found at pruned ⊢
  generalize Path.follow p.names (Value.object d).pruned.toTerm = kept at pruned ⊢
  cases pruned with
  | fault f => exact .fault f
  | nothing => exact .value (.same fallback)
  | null => exact .value (.same fallback)
  | value v present =>
    change Matches (.ok (if v.toTerm.isNull then fallback else v.toTerm))
      (.ok (if v.pruned.toTerm.isNull then fallback else v.pruned.toTerm))
    rw [Value.isNull_toTerm, Value.isNull_toTerm, Value.isNull_pruned, present]
    exact .value (Term.indistinct_pruned v)

theorem order_eq (relation : OrderRelation) {x x' y y' : Term} (hx : Term.Indistinct x x')
    (hy : Term.Indistinct y y') :
    applyOperator (.order relation) none none x y =
      applyOperator (.order relation) none none x' y' := by
  unfold applyOperator Term.holds
  rw [hx.compare hy]

theorem matches_valueOr (fallback : Term) (f : Formula) (settled : d.IsSettled) :
    Matches (f.valueOr fallback d.toTerm) (f.valueOr fallback d.pruned.toTerm) := by
  induction f with
  | const value isPresent => exact matches_refl _
  | path p => exact matches_path p settled
  | arithmetic op left right ihl ihr =>
    rw [valueOr, valueOr, ihl.bind_eq ihr fun hx hy => hx.apply hy op]
    exact matches_refl _
  | comparison relation left right ihl ihr =>
    rw [valueOr, valueOr, ihl.bind_eq ihr (order_eq relation)]
    exact matches_refl _

/-- The value of an operation does not depend on null fields. -/
theorem valueOr_pruned {f : Formula} (operation : f.isOperation = true) (settled : d.IsSettled) :
    f.valueOr fallback d.pruned.toTerm = f.valueOr fallback d.toTerm := by
  cases f with
  | const value isPresent => cases operation
  | path p => cases operation
  | arithmetic op left right =>
    have l := matches_valueOr fallback left settled
    have r := matches_valueOr fallback right settled
    exact (l.bind_eq r fun hx hy => hx.apply hy op).symm
  | comparison relation left right =>
    have l := matches_valueOr fallback left settled
    have r := matches_valueOr fallback right settled
    exact (l.bind_eq r (order_eq relation)).symm

theorem comparesNull_pruned (f : Formula) (settled : d.IsSettled) :
    f.comparesNull d.pruned.toTerm = false := by
  have present (f : Formula) : f.isNullIn d.pruned.toTerm = false := by
    cases f with
    | path p => exact p.isNullIn_pruned settled
    | _ => rfl
  induction f with
  | const value isPresent => rfl
  | path p => rfl
  | arithmetic op left right ihl ihr =>
    rw [comparesNull, ihl, ihr]
    rfl
  | comparison relation left right ihl ihr =>
    rw [comparesNull, present, present, ihl, ihr]
    rfl

/-! ## Comparisons with null -/

variable {document : Term}

theorem order_null (relation : OrderRelation) {x y : Term}
    (h : x.isNull = true ∨ y.isNull = true) :
    ∃ f, f.isMissing = false ∧ applyOperator (.order relation) none none x y = .error f := by
  unfold applyOperator Term.holds
  rcases h with h | h <;> rw [eq_null_of_isNull h]
  · rw [Term.compare_null_left]
    exact ⟨_, rfl, rfl⟩
  · rw [Term.compare_null_right]
    exact ⟨_, rfl, rfl⟩

theorem Passes.own {mayBeNull : Bool} {f : EvaluationFault} {value : Evaluated}
    (h : Passes fallback mayBeNull (.error f) value) : f.isMissing = false := by
  cases h with
  | fault own => exact own

/-- Nothing is missing in the pass over a formula, and only a null path comes to null. -/
theorem exists_passes (document : Term) (given : fallback.isNull = false) (f : Formula) :
    ∃ value, Passes fallback (f.isNullIn document)
      (f.expression.onePass document (some (.ok fallback))) value := by
  induction f with
  | const value isPresent => exact ⟨_, .value isPresent⟩
  | path p => exact ⟨_, path_passes given p⟩
  | arithmetic op left right ihl ihr =>
    obtain ⟨l, hl⟩ := ihl
    obtain ⟨r, hr⟩ := ihr
    exact ⟨_, arithmetic_passes given hl hr op⟩
  | comparison relation left right ihl ihr =>
    obtain ⟨l, hl⟩ := ihl
    obtain ⟨r, hr⟩ := ihr
    rw [onePass_comparison]
    generalize left.expression.onePass document (some (.ok fallback)) = passl at hl ⊢
    generalize right.expression.onePass document (some (.ok fallback)) = passr at hr ⊢
    rcases passl with f | x
    · exact ⟨_, .fault hl.own⟩
    rcases passr with f | y
    · exact ⟨_, .fault hr.own⟩
    exact ⟨_, order_passes relation x y⟩

theorem onePass_of_isNullIn {f : Formula} (h : f.isNullIn document = true) :
    f.expression.onePass document (some (.ok fallback)) = .ok .null := by
  cases f with
  | path p => exact Path.onePass_of_isNullIn h fallback
  | _ => cases h

/-- An operation fails, if one of its operands does. -/
theorem fault_of_operand {passl passr : Evaluated} {next : Term → Term → Evaluated}
    (own : ∀ f, passl = .error f → f.isMissing = false)
    (h : (∃ f, f.isMissing = false ∧ passl = .error f) ∨
      ∃ f, f.isMissing = false ∧ passr = .error f) :
    ∃ f, f.isMissing = false ∧ (passl >>= fun x => passr >>= next x) = .error f := by
  rcases passl with f | x
  · exact ⟨f, own f rfl, rfl⟩
  · obtain ⟨f, -, hf⟩ | ⟨f, own, rfl⟩ := h
    · cases hf
    · exact ⟨f, own, rfl⟩

/-- Where a comparison meets null, the pass over a formula comes to a fault. -/
theorem fault_of_comparesNull (given : fallback.isNull = false) {f : Formula}
    (h : f.comparesNull document = true) : ∃ fault, fault.isMissing = false ∧
      f.expression.onePass document (some (.ok fallback)) = .error fault := by
  have own (f : Formula) (fault : EvaluationFault)
      (h : f.expression.onePass document (some (.ok fallback)) = .error fault) :
      fault.isMissing = false := by
    obtain ⟨value, passes⟩ := exists_passes document given f
    rw [h] at passes
    exact passes.own
  induction f with
  | const value isPresent => cases h
  | path p => cases h
  | arithmetic op left right ihl ihr =>
    rw [comparesNull, Bool.or_eq_true] at h
    exact fault_of_operand (own left) (h.imp ihl ihr)
  | comparison relation left right ihl ihr =>
    simp only [comparesNull, Bool.or_eq_true] at h
    rw [onePass_comparison]
    obtain (null | failed) | failed := h
    · -- One side is null: if both sides pass, that side passes as null, which cannot be ordered.
      cases hl : left.expression.onePass document (some (.ok fallback)) with
      | error f => exact ⟨f, own left f hl, rfl⟩
      | ok x =>
        cases hr : right.expression.onePass document (some (.ok fallback)) with
        | error f => exact ⟨f, own right f hr, rfl⟩
        | ok y =>
          refine order_null relation (null.imp ?_ ?_)
          · intro null
            rw [onePass_of_isNullIn null] at hl
            cases hl
            rfl
          · intro null
            rw [onePass_of_isNullIn null] at hr
            cases hr
            rfl
    · exact fault_of_operand (own left) (.inl (ihl failed))
    · exact fault_of_operand (own left) (.inr (ihr failed))

theorem withDefault_of_fault {f : Formula} (apart : f.expression.fieldNodes.Nodup)
    (given : fallback.isNull = false) (h : f.comparesNull document = true) :
    ∃ fault, (f.withDefault fallback).value document = .error fault := by
  obtain ⟨fault, own, failed⟩ := fault_of_comparesNull given h
  have same := withDefault_value f apart fallback document
  have passes : Passes fallback false (.error fault) (.error fault) := .fault own
  rw [failed, passes.fallBack] at same
  exact ⟨fault, eq_of_unnamed same passes⟩

/-- On a document without null fields, an operation with a default has its value with the fallback.
On the document with them it has the same outcome, unless a comparison meets one of them: then it
comes to a fault. -/
theorem withDefault_pruned (f : Formula) (operation : f.isOperation = true)
    (apart : f.expression.fieldNodes.Nodup) (fallback : Term) (given : fallback.isNull = false)
    {d : Document} (settled : d.IsSettled) :
    (f.withDefault fallback).value d.pruned.toTerm = f.valueOr fallback d.toTerm ∧
      (f.comparesNull d.toTerm = false →
        (f.withDefault fallback).value d.toTerm = (f.withDefault fallback).value d.pruned.toTerm) ∧
      (f.comparesNull d.toTerm = true →
        ∃ fault, (f.withDefault fallback).value d.toTerm = .error fault) := by
  have pruned : (f.withDefault fallback).value d.pruned.toTerm = f.valueOr fallback d.toTerm := by
    rw [withDefault_of_comparesNull f apart given (comparesNull_pruned f settled),
      valueOr_pruned operation settled]
  refine ⟨pruned, fun none => ?_, withDefault_of_fault apart given⟩
  rw [pruned, withDefault_of_comparesNull f apart given none]

/-- Whether the author's name, after a letter, comes before the title. -/
def sorted : Formula :=
  .comparison .lt (.arithmetic .add (.const (.text "a") rfl) (ofNames 0 ["author"] "name"))
    (ofNames 2 [] "title")

/-- The name is null, and the title is not. -/
def unnamedAuthor : Document :=
  [("title", .scalar (.text "b")), ("author", .object [("name", .scalar .null)])]

theorem withDefault_pruned_sorted :
    sorted.isOperation = true ∧ sorted.expression.fieldNodes.Nodup ∧
      (Term.text "n").isNull = false ∧ unnamedAuthor.IsSettled ∧
      sorted.comparesNull unnamedAuthor.toTerm = false ∧
      (sorted.withDefault (.text "n")).value unnamedAuthor.toTerm =
        (sorted.withDefault (.text "n")).value unnamedAuthor.pruned.toTerm ∧
      (sorted.withDefault (.text "n")).value unnamedAuthor.pruned.toTerm = .ok (.bool true) := by
  have settled : unnamedAuthor.IsSettled := by
    simp [unnamedAuthor, Document.IsSettled, Value.IsSettled, Value.SettledFields]
  obtain ⟨value, same, -⟩ := withDefault_pruned sorted rfl (by decide) (.text "n") rfl settled
  exact ⟨rfl, by decide, rfl, settled, rfl, same rfl, value.trans rfl⟩

/-- Whether the title comes before a letter. -/
def early : Formula := .comparison .lt (ofNames 0 [] "title") (.const (.text "m") rfl)

/-- A null title is compared as it is, and an absent one is replaced. -/
theorem early_differs :
    (early.withDefault (.text "a")).value (Document.toTerm [("title", .scalar .null)]) =
        .error (.incomparable .lt "NoneType" "str") ∧
      (early.withDefault (.text "a")).value
        (Document.pruned [("title", .scalar .null)]).toTerm = .ok (.bool true) :=
  ⟨rfl, rfl⟩

end Formula

end Folio
