/-!
# Binary64 numbers

The double-precision numbers a document may hold, as exact values. A finite number is a whole
multiple of the smallest positive one, 2⁻¹⁰⁷⁴, which this module calls the *unit*: its magnitude
is `significand * 2 ^ exponent` units. Every result of an operation is the exact result, rounded
once to the nearest number with ties to the even significand. What is not a number carries a
payload, which tells values of different origin apart; no written form shows it.
-/

namespace Folio

/-- A significand and an exponent in the one form that each magnitude has: the significand fits
in 53 bits, and only the lowest exponent takes a significand below 2⁵². -/
def Canonical (significand exponent : Nat) : Prop :=
  significand < Nat.pow 2 53 ∧ exponent ≤ 2045 ∧ (exponent = 0 ∨ Nat.pow 2 52 ≤ significand)

instance (significand exponent : Nat) : Decidable (Canonical significand exponent) := by
  unfold Canonical; infer_instance

/-- A double-precision number; zeros are finite and keep their sign. -/
inductive Binary64 where
  | nan (payload : Nat)
  | infinite (negative : Bool)
  | finite (negative : Bool) (significand exponent : Nat)
      (canonical : Canonical significand exponent)
  deriving DecidableEq

namespace Binary64

/-- The number of units in one. -/
def one : Nat := Nat.pow 2 1074

/-- The zero of a sign. -/
def zero (negative : Bool) : Binary64 := .finite negative 0 0 (by decide)

instance : Inhabited Binary64 := ⟨zero false⟩

/-- What an operation without a result answers. -/
def invalid : Binary64 := .nan 0

/-- What a written form that stands for no number is read as. -/
def unreadable : Binary64 := .nan 1

/-! ## Rounding -/

/-- The natural number nearest to `num / den`; a tie goes to the even neighbour. -/
def roundHalfEven (num den : Nat) : Nat :=
  let q := num / den
  let r := num % den
  if 2 * r < den then q else if den < 2 * r then q + 1 else q + q % 2

/-- The number of a rounded significand: rounding may have carried it to 2⁵³, and what lies
above the largest finite number is infinite. -/
def pack (negative : Bool) (significand exponent : Nat) : Binary64 :=
  if h : Canonical significand exponent then .finite negative significand exponent h
  else if h : Canonical (Nat.pow 2 52) (exponent + 1) then
    .finite negative (Nat.pow 2 52) (exponent + 1) h
  else .infinite negative

/-- The number nearest to `num / den` units. -/
def ofUnits (negative : Bool) (num den : Nat) : Binary64 :=
  let exponent := (num / den).log2 - 52
  pack negative (roundHalfEven num (den * Nat.pow 2 exponent)) exponent

/-- The number nearest to a signed whole number of units that is not zero. -/
def ofSignedUnits (units : Int) : Binary64 := ofUnits (units < 0) units.natAbs 1

/-- The number nearest to `num * 10 ^ exponent`. -/
def ofDecimal (negative : Bool) (num : Nat) (exponent : Int) : Binary64 :=
  ofUnits negative (num * one * Nat.pow 10 exponent.toNat) (Nat.pow 10 (-exponent).toNat)

/-- The number nearest to an integer, if the integer is not too large. -/
def ofInt? (i : Int) : Option Binary64 :=
  match ofUnits (i < 0) (i.natAbs * one) 1 with
  | .infinite _ => none
  | x => some x

/-! ## Reading -/

/-- A signed count of units. -/
def signed (negative : Bool) (significand exponent : Nat) : Int :=
  let magnitude : Int := (significand * Nat.pow 2 exponent : Nat)
  if negative then -magnitude else magnitude

/-- Whether it is not a number. -/
def isNaN : Binary64 → Bool
  | .nan _ => true
  | _ => false

/-- The number that a written form of this one is read as: the payload is lost. -/
def reread : Binary64 → Binary64
  | .nan _ => unreadable
  | x => x

/-- Whether the number is a zero of either sign. -/
def isZero : Binary64 → Bool
  | .finite _ 0 _ _ => true
  | _ => false

/-- The integer that the number is, if it is one. -/
def toInt? : Binary64 → Option Int
  | .finite negative significand exponent _ =>
    let magnitude := significand * Nat.pow 2 exponent
    if magnitude % one = 0 then
      some (if negative then -((magnitude / one : Nat) : Int) else (magnitude / one : Nat))
    else none
  | _ => none

/-! ## Arithmetic -/

/-- The number of opposite sign. -/
def neg : Binary64 → Binary64
  | .nan _ => invalid
  | .infinite negative => .infinite !negative
  | .finite negative significand exponent h => .finite (!negative) significand exponent h

/-- The sum; an exact zero is negative only if both numbers are. -/
def add : Binary64 → Binary64 → Binary64
  | .nan _, _ | _, .nan _ => invalid
  | .infinite s, .infinite t => if s = t then .infinite s else invalid
  | .infinite s, .finite .. => .infinite s
  | .finite .., .infinite t => .infinite t
  | .finite s m e _, .finite t n f _ =>
    let sum := signed s m e + signed t n f
    if sum = 0 then zero (s && t) else ofSignedUnits sum

/-- The difference, as the sum with the opposite number. -/
def sub (x y : Binary64) : Binary64 := add x (neg y)

/-- The product. -/
def mul : Binary64 → Binary64 → Binary64
  | .nan _, _ | _, .nan _ => invalid
  | .infinite s, .infinite t => .infinite (s != t)
  | .infinite s, .finite t n _ _ => if n = 0 then invalid else .infinite (s != t)
  | .finite s m _ _, .infinite t => if m = 0 then invalid else .infinite (s != t)
  | .finite s m e _, .finite t n f _ => ofUnits (s != t) (m * n * Nat.pow 2 (e + f)) one

/-- The quotient; a zero has no quotients. -/
def div? (x y : Binary64) : Option Binary64 :=
  if y.isZero then none
  else some <| match x, y with
    | .nan _, _ | _, .nan _ => invalid
    | .infinite _, .infinite _ => invalid
    | .infinite s, .finite t _ _ _ => .infinite (s != t)
    | .finite s _ _ _, .infinite t => zero (s != t)
    | .finite s m e _, .finite t n f _ => ofUnits (s != t) (m * Nat.pow 2 e * one) (n * Nat.pow 2 f)

/-- The remainder that has the sign of the divisor; a zero has no remainders. The remainder of
the magnitudes comes first, and one divisor is added where the signs differ. -/
def mod? (x y : Binary64) : Option Binary64 :=
  if y.isZero then none
  else some <| match x, y with
    | .nan _, _ | _, .nan _ => invalid
    | .infinite _, _ => invalid
    | .finite s m e h, .infinite t =>
      if m = 0 then zero t else if s = t then .finite s m e h else .infinite t
    | .finite s m e _, .finite t n f _ =>
      let rest := m * Nat.pow 2 e % (n * Nat.pow 2 f)
      if rest = 0 then zero t
      else if s = t then ofUnits s rest 1
      else ofSignedUnits (signed s rest 0 + signed t n f)

end Binary64

end Folio
