import Folio.Term.Basic
/-!
# Equality and order of terms

`Term.equal` is the loose equality: booleans count as numbers, a list differs from a tuple,
functions and expressions are equal only to themselves. `Term.alike` is the relation
between parts of containers, by which mappings find their keys: it also relates what is not a
number to what has its payload, so that a list is always equal to itself. `Term.same` is the
equality of document values: booleans and numbers never mix, a tuple is as good as a list, and
mappings are compared without regard to order. `Term.compare` is the partial order behind the
comparison operators.
-/

namespace Folio

/-- The place of a scalar that is a number, among those of all numbers. -/
def Scalar.place? (s : Scalar) : Option (Int × Rat) :=
  (s.toNumber?.bind Number.place).map fun p => (p.1, p.2)

namespace ForeignNumber

/-- How far from the number line a number lies. -/
def imaginary (n : ForeignNumber) : Int × Rat := n.imaginary?.getD (0, 0)

/-- Numbers are equal by where they are, whatever their types. -/
def equal (m n : ForeignNumber) : Bool := m.place == n.place && m.imaginary == n.imaginary

/-- Whether a number is equal to a scalar, with true and false as 1 and 0. -/
def equalScalar (n : ForeignNumber) (s : Scalar) : Bool :=
  n.imaginary == (0, 0) && s.place? == some n.place

/-- The order of two places. -/
def comparePlaces (p q : Int × Rat) : Ordering :=
  (compare p.1 q.1).then (compareOfLessAndEq p.2 q.2)

end ForeignNumber

namespace Foreign

/-- Foreign values are equal by what they are, unless they are equal only to themselves. -/
def equal (a b : Foreign) : Bool :=
  match a.kind, b.kind with
  | .number m, .number n => m.equal n
  | .type, .type => true
  | k, l => k == l && a.identity == b.identity

/-- Only a number is equal to a scalar. -/
def equalScalar (f : Foreign) (s : Scalar) : Bool :=
  match f.kind with
  | .number n => n.equalScalar s
  | _ => false

@[simp] theorem equalScalar_text (f : Foreign) (s : String) : f.equalScalar (.text s) = false := by
  unfold equalScalar
  split
  · exact Bool.and_false _
  · rfl

/-- Whether a foreign value is the same as a scalar, which booleans never are. -/
def sameScalar (f : Foreign) : Scalar → Bool
  | .bool _ => false
  | s => f.equalScalar s

/-- The order of two values of a type that is no type of numbers, if it has one. Of different sets
none is below another. -/
def order? (a b : Foreign) : Option (Option Ordering) :=
  match a.kind, b.kind with
  | .bytes _, .bytes _ => some (some (compare a.identity b.identity))
  | .date _, .date _ => some (some (compare a.identity b.identity))
  | .set _, .set _ => some (if a.identity = b.identity then some .eq else none)
  | _, _ => none

end Foreign

namespace Term

mutual

/-- Loose equality, with a relation for scalars that are no parts of containers. -/
def equalBy (onScalars : Scalar → Scalar → Bool) (a b : Term) : Bool :=
  match a with
  | .scalar s => match b with
    | .scalar t => onScalars s t
    | .foreign g => g.equalScalar s
    | _ => false
  | .list xs => match b with | .list ys => alikeItems xs ys | _ => false
  | .tuple xs => match b with | .tuple ys => alikeItems xs ys | _ => false
  | .mapping xs => match b with
    | .mapping ys => xs.length == ys.length && alikeEntries xs ys
    | _ => false
  | .mark m => match b with | .mark n => m == n | _ => false
  | .literal v => match b with | .literal w => equalBy onScalars v w | _ => false
  | .expression node e => match b with
    | .expression other f => node == other && e.typeName == f.typeName
    | _ => false
  | .record xs i => match b with | .record ys j => i == j && alikeFields xs ys | _ => false
  | .function f => match b with | .function g => f.handle == g.handle | _ => false
  | .policy _ i => match b with | .policy _ j => i == j | _ => false
  | .resolver _ i => match b with | .resolver _ j => i == j | _ => false
  | .ownPolicy _ i => match b with | .ownPolicy _ j => i == j | _ => false
  | .selector s => match b with | .selector t => alikeSelectors s t | _ => false
  | .mutation m => match b with | .mutation n => alikeMutations m n | _ => false
  | .foreign f => match b with
    | .scalar t => f.equalScalar t
    | .foreign g => f.equal g
    | _ => false
termination_by structural a

/-- Whether the items at the same positions are alike. -/
def alikeItems (xs ys : List Term) : Bool :=
  match xs with
  | [] => ys.isEmpty
  | x :: xs => match ys with
    | [] => false
    | y :: ys => equalBy Scalar.alike x y && alikeItems xs ys
termination_by structural xs

/-- Whether each entry has one with an alike key and an alike value. -/
def alikeEntries (xs ys : List (Term × Term)) : Bool :=
  match xs with
  | [] => true
  | (key, value) :: xs =>
    (match ys.find? fun entry => equalBy Scalar.alike key entry.1 with
      | some entry => equalBy Scalar.alike value entry.2
      | none => false) && alikeEntries xs ys
termination_by structural xs

/-- Whether the fields at the same positions are alike. -/
def alikeFields (xs ys : List (String × Term)) : Bool :=
  match xs with
  | [] => ys.isEmpty
  | (name, x) :: xs => match ys with
    | [] => false
    | (other, y) :: ys => name == other && equalBy Scalar.alike x y && alikeFields xs ys
termination_by structural xs

/-- Whether selectors of one kind are alike part by part. -/
def alikeSelectors (s t : Selector Term) : Bool :=
  match s with
  | .table a => match t with | .table b => a == b | _ => false
  | .get a k => match t with | .get b l => a == b && equalBy Scalar.alike k l | _ => false
  | .getAll a ks => match t with | .getAll b ls => a == b && alikeItems ks ls | _ => false
  | .filter a p => match t with | .filter b q => a == b && equalBy Scalar.alike p q | _ => false
termination_by structural s

/-- Whether mutations of one kind are alike part by part. -/
def alikeMutations (m n : Mutation Term) : Bool :=
  match m with
  | .insert p => match n with | .insert q => equalBy Scalar.alike p q | _ => false
  | .update p => match n with | .update q => equalBy Scalar.alike p q | _ => false
  | .delete => match n with | .delete => true | _ => false
termination_by structural m

end

/-- Loose equality. -/
def equal (a b : Term) : Bool := equalBy Scalar.equal a b

/-- Whether two terms may stand for each other inside a list or a mapping. -/
def alike (a b : Term) : Bool := equalBy Scalar.alike a b

instance : BEq Term := ⟨alike⟩

/-- Whether a term is a list, a tuple or a mapping. -/
def isContainer : Term → Bool
  | .list _ => true
  | .tuple _ => true
  | .mapping _ => true
  | _ => false

mutual

/-- The equality of document values; what no document can hold is compared loosely. -/
def same (a b : Term) : Bool :=
  match a with
  | .scalar s => match b with
    | .scalar t => s.same t
    | .foreign g => g.sameScalar s
    | _ => false
  | .list xs => match b with
    | .list ys => sameItems xs ys
    | .tuple ys => sameItems xs ys
    | _ => false
  | .tuple xs => match b with
    | .list ys => sameItems xs ys
    | .tuple ys => sameItems xs ys
    | _ => false
  | .mapping xs => match b with
    | .mapping ys => xs.length == ys.length && sameEntries xs ys
    | _ => false
  | .foreign f => match b with
    | .scalar t => f.sameScalar t
    | b => equal (.foreign f) b
  | a => equal a b
termination_by structural a

/-- Sameness of items at the same positions. -/
def sameItems (xs ys : List Term) : Bool :=
  match xs with
  | [] => ys.isEmpty
  | x :: xs => match ys with
    | [] => false
    | y :: ys => same x y && sameItems xs ys
termination_by structural xs

/-- Whether each entry has one with an alike key and the same value. -/
def sameEntries (xs ys : List (Term × Term)) : Bool :=
  match xs with
  | [] => true
  | (key, value) :: xs =>
    (match ys.find? fun entry => alike key entry.1 with
      | some entry => same value entry.2
      | none => false) && sameEntries xs ys
termination_by structural xs

end

/-! ## Order -/

/-- The order of two scalars: numbers and booleans by place, texts by code points. -/
def compareScalars (s t : Scalar) : Except (String × String) (Option Ordering) :=
  match s, t with
  | .text x, .text y => .ok (some (Ord.compare x y))
  | s, t =>
    match s.toNumber?, t.toNumber? with
    | some m, some n =>
      .ok (match m.place, n.place with
        | some p, some q => some (Number.comparePlaces p q)
        | _, _ => none)
    | _, _ => .error (s.typeName, t.typeName)

/-- The place of a term in the order of numbers and booleans, of which it may be no part. What is
not a number is a part of it without a place. -/
def orderPlace? : Term → Option (Option (Int × Rat))
  | .scalar s => s.toNumber?.map fun _ => s.place?
  | .foreign ⟨.number n, _⟩ => if n.imaginary?.isNone then some (some n.place) else none
  | _ => none

/-- The order of two terms as numbers, of which one is of a type that no document can hold. -/
def compareByPlace (a b : Term) : Except (String × String) (Option Ordering) :=
  match a.orderPlace?, b.orderPlace? with
  | some p, some q => .ok (do return ForeignNumber.comparePlaces (← p) (← q))
  | _, _ => .error (a.operandName, b.operandName)

/-- What is no part of the order is comparable with nothing in it. -/
theorem compareByPlace_of_orderPlace?_eq_none (a : Term) {b : Term} (h : b.orderPlace? = none) :
    compareByPlace a b = .error (a.operandName, b.operandName) := by
  unfold compareByPlace
  rw [h]
  cases a.orderPlace? <;> rfl

mutual

/-- The order of two terms. An error names the types of the parts that have none; nothing stands
for numbers without a place, which are comparable and in no relation. -/
def compare (a b : Term) : Except (String × String) (Option Ordering) :=
  match a with
  | .scalar s => match b with
    | .scalar t => compareScalars s t
    | b => compareByPlace (.scalar s) b
  | .list xs => match b with
    | .list ys => compareItems xs ys
    | b => .error ("list", b.operandName)
  | .tuple xs => match b with
    | .tuple ys => compareItems xs ys
    | b => .error ("tuple", b.operandName)
  | .foreign f => match b with
    | .foreign g =>
      match f.order? g with
      | some order => .ok order
      | none => compareByPlace (.foreign f) (.foreign g)
    | b => compareByPlace (.foreign f) b
  | a => .error (a.typeName, b.operandName)
termination_by structural a

/-- The order of the first items that are not alike; else the shorter list comes first. -/
def compareItems (xs ys : List Term) : Except (String × String) (Option Ordering) :=
  match xs with
  | [] => .ok (some (if ys.isEmpty then .eq else .lt))
  | x :: xs => match ys with
    | [] => .ok (some .gt)
    | y :: ys => if alike x y then compareItems xs ys else compare x y
termination_by structural xs

end

/-- Whether a comparison holds; it never does without a place. -/
def holds (relation : OrderRelation) (a b : Term) : Except (String × String) Bool :=
  (compare a b).map fun order => order.any relation.holds

end Term

end Folio
