import Folio.Number.Binary64
/-!
# Numbers

A number is an integer of any size or a binary64. Both kinds are compared by their exact place
on the number line, so an integer equals a binary64 only where they denote the same number.
Arithmetic stays on integers where it can; beside a binary64 an integer is rounded first.
-/

namespace Folio

/-- A number of a document. -/
inductive Number where
  | int (i : Int)
  | float (x : Binary64)
  deriving DecidableEq

/-- What can go wrong in arithmetic on two numbers. -/
inductive ArithmeticFault where
  | zeroDivisor
  | operandTooLarge
  | quotientTooLarge
  deriving DecidableEq

/-- The four comparisons by order. -/
inductive OrderRelation where
  | lt | le | gt | ge
  deriving DecidableEq

namespace OrderRelation

/-- Whether the relation holds between things in the given order. -/
def holds : OrderRelation → Ordering → Bool
  | .lt, o => o == .lt
  | .le, o => o != .gt
  | .gt, o => o == .gt
  | .ge, o => o != .lt

end OrderRelation

namespace Number

/-- The place on the number line, infinities at its ends; what is not a number has none. The
second component counts units of 2⁻¹⁰⁷⁴. -/
def place : Number → Option (Int × Int)
  | .int i => some (0, i * Binary64.one)
  | .float (.nan _) => none
  | .float (.infinite negative) => some (if negative then -1 else 1, 0)
  | .float (.finite negative significand exponent _) =>
    some (0, Binary64.signed negative significand exponent)

@[simp] theorem place_int (i : Int) : (int i).place = some (0, i * Binary64.one) := rfl

@[simp] theorem place_nan (payload : Nat) : (float (.nan payload)).place = none := rfl

@[simp] theorem place_infinite (negative : Bool) :
    (float (.infinite negative)).place = some (if negative then -1 else 1, 0) := rfl

@[simp] theorem place_finite (s : Bool) (m e : Nat) (h : Canonical m e) :
    (float (.finite s m e h)).place = some (0, Binary64.signed s m e) := rfl

/-- Numeric equality: the same place. -/
def same (a b : Number) : Bool :=
  match a.place, b.place with
  | some p, some q => p == q
  | _, _ => false

/-- The order of two places. -/
def comparePlaces (p q : Int × Int) : Ordering := (compare p.1 q.1).then (compare p.2 q.2)

/-- Whether two numbers may stand for each other as items: they have the same place, or neither is
a number and both have the same payload. -/
def alike (a b : Number) : Bool :=
  match a, b with
  | .float (.nan m), .float (.nan n) => m == n
  | a, b => a.same b

/-- Comparison by place; it fails for what is not a number. -/
def holds (r : OrderRelation) (a b : Number) : Bool :=
  match a.place, b.place with
  | some p, some q => r.holds (comparePlaces p q)
  | _, _ => false

/-- The number as a binary64, if it is not too large for one. -/
def toFloat : Number → Except ArithmeticFault Binary64
  | .int i =>
    match Binary64.ofInt? i with
    | some x => .ok x
    | none => .error .operandTooLarge
  | .float x => .ok x

/-- Lifts an operation on binary64 numbers, rounding integer operands first. -/
def onFloats (f : Binary64 → Binary64 → Except ArithmeticFault Binary64) (a b : Number) :
    Except ArithmeticFault Number := do
  let x ← a.toFloat
  let y ← b.toFloat
  return .float (← f x y)

/-- An operation that a zero divisor has no result for. -/
def byDivisor (f : Binary64 → Binary64 → Option Binary64) (x y : Binary64) :
    Except ArithmeticFault Binary64 :=
  match f x y with
  | some z => .ok z
  | none => .error .zeroDivisor

/-- The sum. -/
def add : Number → Number → Except ArithmeticFault Number
  | .int i, .int j => .ok (.int (i + j))
  | a, b => onFloats (fun x y => .ok (x.add y)) a b

/-- The difference. -/
def sub : Number → Number → Except ArithmeticFault Number
  | .int i, .int j => .ok (.int (i - j))
  | a, b => onFloats (fun x y => .ok (x.sub y)) a b

/-- The product. -/
def mul : Number → Number → Except ArithmeticFault Number
  | .int i, .int j => .ok (.int (i * j))
  | a, b => onFloats (fun x y => .ok (x.mul y)) a b

/-- The quotient, always a binary64. Two integers are divided exactly and rounded once, so only
the quotient has to fit. -/
def div : Number → Number → Except ArithmeticFault Number
  | .int i, .int j =>
    if j = 0 then .error .zeroDivisor
    else match Binary64.ofUnits (decide (i < 0) != decide (j < 0))
        (i.natAbs * Binary64.one) j.natAbs with
      | .infinite _ => .error .quotientTooLarge
      | x => .ok (.float x)
  | a, b => onFloats (byDivisor Binary64.div?) a b

/-- The remainder with the sign of the divisor. -/
def mod : Number → Number → Except ArithmeticFault Number
  | .int i, .int j => if j = 0 then .error .zeroDivisor else .ok (.int (i.fmod j))
  | a, b => onFloats (byDivisor Binary64.mod?) a b

/-- The number that a written form of this one is read as. -/
def reread : Number → Number
  | .int i => .int i
  | .float x => .float x.reread

/-- An integral binary64 becomes the integer it is; every other number stays. -/
def collapse : Number → Number
  | .int i => .int i
  | .float x =>
    match x.toInt? with
    | some i => .int i
    | none => .float x

end Number

end Folio
