import Folio.Proofs.Sharing
import Mathlib.Data.List.Induction
/-!
# Formulas with a default

A formula is built with arithmetic and comparisons by order from constants that are not null and
paths of fields from the document. A default around one replaces a path where it leads nowhere or to
null, and a formula in which this is done has a plain meaning: its value from left to right, with
the fallback for such paths. That meaning is what the default comes to, except that a comparison
does not take a null operand for a missing one.
-/

namespace Folio

/-- Whether the fault is a missing field. -/
def EvaluationFault.isMissing : EvaluationFault → Bool
  | .missing _ _ => true
  | _ => false

/-- A path of at least one field from the document, each field with its node. -/
structure Path where
  inner : List (Nat × String)
  node : Nat
  name : String

/-- A formula over constants that are not null and paths. -/
inductive Formula where
  | const (value : Term) (isPresent : value.isNull = false)
  | path (p : Path)
  | arithmetic (op : Arithmetic) (left right : Formula)
  | comparison (relation : OrderRelation) (left right : Formula)

/-! ## Paths -/

namespace Path

/-- The fields of a path as an expression. -/
def fields (inner : List (Nat × String)) : Expression Term :=
  inner.foldl (fun base (node, name) => .field node base name) .row

/-- A path as an expression. -/
def expression (p : Path) : Expression Term := .field p.node (fields p.inner) p.name

/-- The names on a path. -/
def names (p : Path) : List String := p.inner.map Prod.snd ++ [p.name]

/-- The field of a container; there is none in null, and only objects have any. -/
def enter (name : String) : Term → Except EvaluationFault (Option Term)
  | .scalar .null => .ok none
  | .mapping entries => .ok (Entries.find? entries (.text name))
  | container => .error (.notObject name container.typeName)

/-- What names lead to, one after the other; nothing, where a name is absent or what comes before it
is null. -/
def follow : List String → Term → Except EvaluationFault (Option Term)
  | [], value => .ok (some value)
  | name :: rest, container => do
    match ← enter name container with
    | some value => follow rest value
    | none => return none

/-- The value at the end of a path; the fallback, where the path leads nowhere or to null. -/
def valueOr (fallback document : Term) (p : Path) : Evaluated := do
  match ← follow p.names document with
  | some value => return if value.isNull then fallback else value
  | none => return fallback

/-- Whether a path leads to null. -/
def isNullIn (document : Term) (p : Path) : Bool :=
  match follow p.names document with
  | .ok (some value) => value.isNull
  | _ => false

end Path

/-! ## Formulas -/

namespace Formula

/-- A formula as an expression. -/
def expression : Formula → Expression Term
  | .const value _ => .const value
  | .path p => p.expression
  | .arithmetic op left right => .operation (.arithmetic op) left.expression right.expression
  | .comparison relation left right => .operation (.order relation) left.expression right.expression

/-- The value of a formula from left to right, with the fallback for each path that leads nowhere or
to null. -/
def valueOr (fallback document : Term) : Formula → Evaluated
  | .const value _ => .ok value
  | .path p => p.valueOr fallback document
  | .arithmetic op left right => do
    let l ← left.valueOr fallback document
    let r ← right.valueOr fallback document
    op.apply l r
  | .comparison relation left right => do
    let l ← left.valueOr fallback document
    let r ← right.valueOr fallback document
    Expression.applyOperator (.order relation) none none l r

/-- A formula inside a default. -/
def withDefault (f : Formula) (fallback : Term) : Expression Term :=
  .default f.expression (.const fallback)

/-- Whether a formula is arithmetic only. -/
def isArithmetic : Formula → Bool
  | .const _ _ => true
  | .path _ => true
  | .arithmetic _ left right => left.isArithmetic && right.isArithmetic
  | .comparison _ _ _ => false

/-- Whether a formula is a path that leads to null. -/
def isNullIn (document : Term) : Formula → Bool
  | .path p => p.isNullIn document
  | _ => false

/-- Whether an operand of a comparison is a path that leads to null. -/
def comparesNull (document : Term) : Formula → Bool
  | .const _ _ => false
  | .path _ => false
  | .arithmetic _ left right => left.comparesNull document || right.comparesNull document
  | .comparison _ left right => left.isNullIn document || right.isNullIn document ||
    left.comparesNull document || right.comparesNull document

end Formula

/-! ## The pass over a path -/

namespace Path

open Expression

variable {document : Term}

theorem follow_append (names : List String) (name : String) (value : Term) :
    follow (names ++ [name]) value = (do
      match ← follow names value with
      | some container => enter name container
      | none => return none) := by
  induction names generalizing value with
  | nil =>
    change (enter name value >>= _) = enter name value
    rcases enter name value with fault | _ | found <;> rfl
  | cons first rest ih =>
    rw [List.cons_append, follow, follow]
    rcases enter first value with fault | _ | found
    · rfl
    · rfl
    · exact ih found

theorem own_of_follow {names : List String} {value : Term} {f : EvaluationFault}
    (h : follow names value = .error f) : f.isMissing = false := by
  induction names generalizing value with
  | nil => cases h
  | cons name rest ih =>
    rw [follow] at h
    unfold enter at h
    split at h
    · cases h
    · rename_i entries
      cases hf : Entries.find? entries (.text name) with
      | none =>
        rw [hf] at h
        cases h
      | some found =>
        rw [hf] at h
        exact ih h
    · cases h
      rfl

/-- What a path leads to, as the outcome of a pass over it. -/
inductive Finds : Evaluated → Except EvaluationFault (Option Term) → Prop where
  | value (v : Term) : Finds (.ok v) (.ok (some v))
  | nothing (why : Missing) : Finds (.error (.missing why none)) (.ok none)
  | fault {f : EvaluationFault} (own : f.isMissing = false) : Finds (.error f) (.error f)

theorem finds_enter (name : String) (container : Term) :
    Finds (unnamed (readField 0 name container)) (enter name container) := by
  cases container with
  | scalar s => cases s with
    | null => exact .nothing _
    | _ => exact .fault rfl
  | mapping entries =>
    change Finds
      (unnamed (match Entries.find? entries (.text name) with
        | some value => .ok value
        | none => .error (.missing (.absent name) (some 0))))
      (.ok (Entries.find? entries (.text name)))
    cases Entries.find? entries (.text name) with
    | none => exact .nothing _
    | some value => exact .value value
  | _ => exact .fault rfl

/-- Reading one more field of what was found. -/
theorem Finds.enter {outcome : Evaluated} {found : Except EvaluationFault (Option Term)}
    (h : Finds (unnamed outcome) found) (name : String) :
    Finds (unnamed (outcome >>= readField 0 name)) (do
      match ← found with
      | some container => Path.enter name container
      | none => return none) := by
  rw [← unnamed_bind]
  generalize unnamed outcome = outcome at h
  cases h with
  | value container => exact finds_enter name container
  | nothing why => exact .nothing why
  | @fault f own =>
    cases f
    case missing => cases own
    all_goals exact .fault own

theorem finds_fields (document : Term) (inner : List (Nat × String)) :
    Finds (unnamed ((fields inner).onePass document none))
      (follow (inner.map Prod.snd) document) := by
  induction inner using List.reverseRecOn with
  | nil => exact .value document
  | append_singleton inner step ih =>
    rw [List.map_append, List.map_singleton, follow_append, fields, List.foldl_append]
    change Finds (unnamed (fillIn none ((fields inner).onePass document none >>=
      readField 0 step.2))) _
    rw [fillIn_none, unnamed_unnamed]
    exact ih.enter step.2

/-- A pass over a path fills it in where it leads nowhere. -/
theorem onePass_expression (fallback : Term) (p : Path) :
    p.expression.onePass document (some (.ok fallback)) = (do
      match ← follow p.names document with
      | some value => return value
      | none => return fallback) := by
  have found := (finds_fields document p.inner).enter p.name
  rw [← follow_append, ← names] at found
  change fillIn _ ((fields p.inner).onePass document none >>= readField 0 p.name) = _
  rw [← fillIn_unnamed]
  generalize unnamed ((fields p.inner).onePass document none >>= readField 0 p.name) = outcome
    at found ⊢
  generalize follow p.names document = reached at found ⊢
  cases found with
  | value v => rfl
  | nothing why => rfl
  | @fault f own =>
    cases f
    case missing => cases own
    all_goals rfl

/-- The pass over a path that leads to null finds null, which is not filled in yet. -/
theorem onePass_of_isNullIn {p : Path} (h : p.isNullIn document = true) (fallback : Term) :
    p.expression.onePass document (some (.ok fallback)) = .ok .null := by
  rw [onePass_expression]
  unfold isNullIn at h
  split at h
  · rename_i value found
    rw [found]
    exact congrArg Except.ok (eq_null_of_isNull h)
  · cases h

end Path

/-! ## The pass over a formula -/

namespace Formula

open Expression

variable {document fallback : Term}

theorem isField_of_isNullIn {f : Formula} (h : f.isNullIn document = true) :
    f.expression.isField = true := by
  cases f <;> first | rfl | cases h

/-- What the pass over a formula comes to, as against its value. Only a null path is not filled in
yet, and nothing is missing. -/
inductive Passes (fallback : Term) (mayBeNull : Bool) : Evaluated → Evaluated → Prop where
  | fault {f : EvaluationFault} (own : f.isMissing = false) :
    Passes fallback mayBeNull (.error f) (.error f)
  | value {v : Term} (present : v.isNull = false) : Passes fallback mayBeNull (.ok v) (.ok v)
  | null (h : mayBeNull = true) : Passes fallback mayBeNull (.ok .null) (.ok fallback)

theorem Passes.eq {pass value : Evaluated} (h : Passes fallback false pass value) :
    pass = value := by
  cases h with
  | fault own => rfl
  | value present => rfl
  | null h => cases h

/-- An operand is filled in where it is null. -/
theorem Passes.fillOperand {mayBeNull isField : Bool} {passed value : Term}
    (h : Passes fallback mayBeNull (.ok passed) (.ok value))
    (field : mayBeNull = true → isField = true) (given : fallback.isNull = false)
    (op : Arithmetic) :
    Expression.fillOperand (some (.ok fallback)) op isField passed = .ok value := by
  cases h with
  | value present =>
    rw [Expression.fillOperand, present, Bool.and_false]
    exact present_of_not_isNull present
  | null h =>
    rw [field h]
    exact present_of_not_isNull given

theorem Passes.fallBack {mayBeNull : Bool} {pass value : Evaluated}
    (h : Passes fallback mayBeNull pass value) :
    Expression.fallBack (.ok fallback) pass = value := by
  cases h with
  | @fault f own =>
    cases f
    case missing => cases own
    all_goals rfl
  | value present => exact if_neg (by rw [present]; exact Bool.false_ne_true)
  | null h => rfl

theorem apply_passes {mayBeNull : Bool} (op : Arithmetic) (left right : Term) :
    Passes fallback mayBeNull (op.apply left right) (op.apply left right) := by
  unfold Arithmetic.apply
  split
  · split
    · exact .value rfl
    · rename_i cause _
      cases cause <;> exact .fault rfl
  · split
    · exact .value rfl
    · exact .value rfl
    · exact .fault rfl

theorem order_passes {mayBeNull : Bool} (relation : OrderRelation) (left right : Term) :
    Passes fallback mayBeNull (applyOperator (.order relation) none none left right)
      (applyOperator (.order relation) none none left right) := by
  unfold applyOperator
  dsimp only
  split
  · exact .value rfl
  · exact .fault rfl

theorem path_passes (given : fallback.isNull = false) (p : Path) :
    Passes fallback (p.isNullIn document)
      (p.expression.onePass document (some (.ok fallback))) (p.valueOr fallback document) := by
  rw [Path.onePass_expression, Path.valueOr, Path.isNullIn]
  cases hf : Path.follow p.names document with
  | error f => exact .fault (Path.own_of_follow hf)
  | ok found =>
    cases found with
    | none => exact .value given
    | some value =>
      change Passes _ value.isNull (.ok value) (.ok (if value.isNull then fallback else value))
      cases hn : value.isNull with
      | false => exact .value hn
      | true =>
        rw [eq_null_of_isNull hn]
        exact .null rfl

theorem arithmetic_passes {left right : Formula} {l r : Evaluated}
    (given : fallback.isNull = false)
    (hl : Passes fallback (left.isNullIn document)
      (left.expression.onePass document (some (.ok fallback))) l)
    (hr : Passes fallback (right.isNullIn document)
      (right.expression.onePass document (some (.ok fallback))) r) (op : Arithmetic) :
    Passes fallback false
      ((arithmetic op left right).expression.onePass document (some (.ok fallback))) (do
        let x ← l
        let y ← r
        op.apply x y) := by
  rw [expression]
  unfold onePass
  generalize left.expression.onePass document (some (.ok fallback)) = passl at hl ⊢
  generalize right.expression.onePass document (some (.ok fallback)) = passr at hr ⊢
  rcases passl with f | passedl
  · cases hl with
    | fault own => exact .fault own
  rcases passr with f | passedr
  · cases hl <;> cases hr with
    | fault own => exact .fault own
  -- Both sides have passed, so that an operand is a value or a null to be filled in.
  obtain ⟨x, rfl⟩ : ∃ x, l = .ok x := by cases hl <;> exact ⟨_, rfl⟩
  obtain ⟨y, rfl⟩ : ∃ y, r = .ok y := by cases hr <;> exact ⟨_, rfl⟩
  change Passes _ _ (Expression.fillOperand _ op left.expression.isField passedl >>= fun x =>
    Expression.fillOperand _ op right.expression.isField passedr >>= fun y => op.apply x y)
      (op.apply x y)
  rw [hl.fillOperand isField_of_isNullIn given, hr.fillOperand isField_of_isNullIn given]
  exact apply_passes op x y

theorem onePass_comparison (relation : OrderRelation) (left right : Formula)
    (fill : Option Evaluated) :
    (comparison relation left right).expression.onePass document fill = (do
      let l ← left.expression.onePass document fill
      let r ← right.expression.onePass document fill
      applyOperator (.order relation) none none l r) := rfl

theorem comparison_passes {left right : Formula} {l r : Evaluated} {mayBeNull : Bool}
    (hl : Passes fallback false (left.expression.onePass document (some (.ok fallback))) l)
    (hr : Passes fallback false (right.expression.onePass document (some (.ok fallback))) r)
    (relation : OrderRelation) :
    Passes fallback mayBeNull
      ((comparison relation left right).expression.onePass document (some (.ok fallback))) (do
        let x ← l
        let y ← r
        applyOperator (.order relation) none none x y) := by
  rw [← hl.eq, ← hr.eq, onePass_comparison]
  generalize left.expression.onePass document (some (.ok fallback)) = passl at hl ⊢
  generalize right.expression.onePass document (some (.ok fallback)) = passr at hr ⊢
  rcases passl with f | x
  · cases hl with
    | fault own => exact .fault own
  rcases passr with f | y
  · cases hr with
    | fault own => exact .fault own
  exact order_passes relation x y

/-- Where no comparison meets null, the pass over a formula comes to its value. -/
theorem passes (given : fallback.isNull = false) (f : Formula)
    (h : f.comparesNull document = false) :
    Passes fallback (f.isNullIn document) (f.expression.onePass document (some (.ok fallback)))
      (f.valueOr fallback document) := by
  induction f with
  | const value isPresent => exact .value isPresent
  | path p => exact path_passes given p
  | arithmetic op left right ihl ihr =>
    rw [comparesNull, Bool.or_eq_false_iff] at h
    exact arithmetic_passes given (ihl h.1) (ihr h.2) op
  | comparison relation left right ihl ihr =>
    simp only [comparesNull, Bool.or_eq_false_iff] at h
    obtain ⟨⟨⟨nulll, nullr⟩, hl⟩, hr⟩ := h
    have l := ihl hl
    have r := ihr hr
    rw [nulll] at l
    rw [nullr] at r
    exact comparison_passes l r relation

theorem eq_of_unnamed {outcome value : Evaluated} {mayBeNull : Bool} {pass : Evaluated}
    (h : unnamed outcome = value) (passes : Passes fallback mayBeNull pass value) :
    outcome = value := by
  subst h
  rcases outcome with f | v
  · cases f
    case missing =>
      generalize hu : unnamed _ = named at passes
      cases passes with
      | fault own =>
        cases hu
        cases own
      | value => cases hu
      | null => cases hu
    all_goals rfl
  · rfl

theorem withDefault_value (f : Formula) (apart : f.expression.fieldNodes.Nodup)
    (fallback document : Term) :
    unnamed ((f.withDefault fallback).value document) =
      Expression.fallBack (.ok fallback)
        (f.expression.onePass document (some (.ok fallback))) := by
  refine unnamed_value (isClear_of_nodup ?_)
  rw [withDefault, fieldNodes, fieldNodes, List.append_nil]
  exact apart

/-- Where no comparison meets null, a formula inside a default has its value with the fallback. -/
theorem withDefault_of_comparesNull (f : Formula) (apart : f.expression.fieldNodes.Nodup)
    (given : fallback.isNull = false) (h : f.comparesNull document = false) :
    (f.withDefault fallback).value document = f.valueOr fallback document := by
  have passes := passes given f h
  refine eq_of_unnamed ?_ passes
  rw [withDefault_value f apart, passes.fallBack]

theorem comparesNull_of_isArithmetic {f : Formula} (h : f.isArithmetic = true) :
    f.comparesNull document = false := by
  induction f with
  | const value isPresent => rfl
  | path p => rfl
  | arithmetic op left right ihl ihr =>
    rw [isArithmetic, Bool.and_eq_true] at h
    rw [comparesNull, ihl h.1, ihr h.2]
    rfl
  | comparison relation left right _ _ => cases h

/-- A default around arithmetic is one evaluation from left to right, with the fallback in the place
of each path that leads nowhere or to null. -/
theorem arithmetic_withDefault (f : Formula) (plain : f.isArithmetic = true)
    (apart : f.expression.fieldNodes.Nodup) (fallback : Term) (given : fallback.isNull = false)
    (document : Term) : (f.withDefault fallback).value document = f.valueOr fallback document :=
  withDefault_of_comparesNull f apart given (comparesNull_of_isArithmetic plain)

/-- A path with a node for each of its names, from a first number on. -/
def ofNames (first : Nat) (inner : List String) (name : String) : Formula :=
  .path ⟨inner.zipIdx.map fun (name, i) => (first + i, name), first + inner.length, name⟩

/-- The views plus one, times the likes in the statistics, and a bonus. -/
def rating : Formula :=
  .arithmetic .add
    (.arithmetic .mul (.arithmetic .add (ofNames 0 [] "views") (.const (.int 1) rfl))
      (ofNames 1 ["stats"] "likes"))
    (ofNames 3 [] "bonus")

/-- The views are zero and count as they are; the statistics are null, and the bonus is absent. -/
theorem arithmetic_withDefault_rating :
    rating.isArithmetic = true ∧ rating.expression.fieldNodes.Nodup ∧
      (Term.int 5).isNull = false ∧
      (rating.withDefault (.int 5)).value
          (.mapping [(.text "views", .int 0), (.text "stats", .null)]) =
        rating.valueOr (.int 5) (.mapping [(.text "views", .int 0), (.text "stats", .null)]) ∧
      rating.valueOr (.int 5) (.mapping [(.text "views", .int 0), (.text "stats", .null)]) =
        .ok (.int 10) :=
  ⟨rfl, by decide, rfl, arithmetic_withDefault _ rfl (by decide) _ rfl _, rfl⟩

end Formula

end Folio
