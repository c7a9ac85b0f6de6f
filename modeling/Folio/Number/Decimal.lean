import Folio.Number.Number
/-!
# Decimal text of numbers

A binary64 is written with the fewest decimal digits that read back as the same number, and of
those with the digits nearest to it. A style fixes the rest: where positional notation ends,
how an exponent looks, and the words for what is not finite.
-/

namespace Folio

/-- The decisions of a written form for binary64 numbers. -/
structure DecimalStyle where
  /-- Positional notation starts at this decimal exponent. -/
  positionalFrom : Int
  /-- Positional notation ends below this decimal exponent. -/
  positionalBelow : Int
  /-- An exponent has at least this many digits. -/
  exponentWidth : Nat
  /-- The word for what is not a number. -/
  nan : String
  /-- The word for positive infinity. -/
  infinity : String
  deriving DecidableEq

/-- A positive decimal number `digits * 10 ^ exponent`. -/
structure Decimal where
  digits : Nat
  exponent : Int
  deriving DecidableEq

namespace Decimal

/-- The decimal digits of a natural number. -/
def digitText (n : Nat) : String := String.ofList (Nat.toDigits 10 n)

/-- The same number with its trailing zeros moved to the exponent. The fuel bounds the number
of zeros. -/
def trim : Nat → Decimal → Decimal
  | 0, d => d
  | fuel + 1, d =>
    if d.digits % 10 = 0 then trim fuel ⟨d.digits / 10, d.exponent + 1⟩ else d

/-- A text padded on the left with zeros to a width. -/
def padLeft (width : Nat) (s : String) : String :=
  String.ofList (List.replicate (width - s.length) '0') ++ s

/-- The written form of a positive number: positional inside the style's range, with at least
one digit on each side of the point, and with an exponent outside of it. -/
def render (style : DecimalStyle) (d : Decimal) : String :=
  let digits := Nat.toDigits 10 d.digits
  let point : Int := digits.length + d.exponent
  if style.positionalFrom ≤ point - 1 ∧ point - 1 < style.positionalBelow then
    if point ≤ 0 then
      "0." ++ String.ofList (List.replicate (-point).toNat '0') ++ String.ofList digits
    else if digits.length ≤ point.toNat then
      let zeros := List.replicate (point.toNat - digits.length) '0'
      String.ofList digits ++ String.ofList zeros ++ ".0"
    else
      String.ofList (digits.take point.toNat) ++ "." ++ String.ofList (digits.drop point.toNat)
  else
    let power := point - 1
    let fraction := digits.drop 1
    String.ofList (digits.take 1)
      ++ (if fraction.isEmpty then "" else "." ++ String.ofList fraction)
      ++ (if power < 0 then "e-" else "e+")
      ++ padLeft style.exponentWidth (digitText power.natAbs)

end Decimal

namespace Binary64

/-! ## The shortest digits

Distances are counted in quarter units, so that the ends of the interval of reals that round to
a number are whole. -/

/-- The quarter units in one. -/
def quarters : Nat := 4 * one

/-- The interval of reals that round to a magnitude, in quarter units: its lower end, the
magnitude and its upper end. The gap below a power of two is half as wide. -/
def interval (significand exponent : Nat) : Nat × Nat × Nat :=
  let center := 4 * significand * Nat.pow 2 exponent
  let gap := Nat.pow 2 exponent
  let below := if significand = Nat.pow 2 52 ∧ exponent ≠ 0 then gap else 2 * gap
  (center - below, center, center + 2 * gap)

/-- The number of decimal digits before the point; zero or negative for numbers below one. -/
def integerDigits (center : Nat) : Int :=
  ((Nat.toDigits 10 (center * Nat.pow 10 400 / quarters)).length : Int) - 400

/-- The neighbours of a magnitude on the grid of multiples of `10 ^ k` that round to it, nearest
first; `even` says whether the ends of the interval round to it too. -/
def onGrid (low center high : Nat) (even : Bool) (k : Int) : List Nat :=
  let scale := quarters * Nat.pow 10 k.toNat
  let stretch := Nat.pow 10 (-k).toNat
  let down := center * stretch / scale
  let hit (d : Nat) : Bool :=
    if even then decide (low * stretch ≤ d * scale ∧ d * scale ≤ high * stretch)
    else decide (low * stretch < d * scale ∧ d * scale < high * stretch)
  let rest := center * stretch - down * scale
  let up := down + 1
  let nearest := if 2 * rest < scale then [down, up]
    else if scale < 2 * rest then [up, down]
    else if down % 2 = 0 then [down, up] else [up, down]
  nearest.filter hit

/-- The nearest multiple of `10 ^ k` that rounds to a magnitude with an interval, if there is
one. -/
def nearest? (ends : Nat × Nat × Nat) (even : Bool) (k : Int) : Option Decimal :=
  ((onGrid ends.1 ends.2.1 ends.2.2 even k).head?).map fun d => ⟨d, k⟩

/-- The shortest decimal that reads back as a positive magnitude, and the nearest of those.
Seventeen digits always suffice. -/
def shortest (significand exponent : Nat) : Decimal :=
  let ends := interval significand exponent
  let point := integerDigits ends.2.1
  let found := (List.range 17).findSome? fun (n : Nat) =>
    nearest? ends (significand % 2 = 0) (point - ((n : Int) + 1))
  (found.map (Decimal.trim 17)).getD ⟨significand * Nat.pow 2 exponent, -1074⟩

/-- The written form in a style. -/
def render (style : DecimalStyle) : Binary64 → String
  | .nan _ => style.nan
  | .infinite negative => (if negative then "-" else "") ++ style.infinity
  | .finite negative significand exponent _ =>
    (if negative then "-" else "") ++
      (if significand = 0 then "0.0" else (shortest significand exponent).render style)

/-! ## Reading -/

/-- The value of a run of decimal digits. -/
def digitsValue (cs : List Char) : Nat := cs.foldl (fun n c => 10 * n + (c.toNat - 48)) 0

/-- The value of an optionally signed run of digits; nothing stands for zero. -/
def exponentValue? : List Char → Option Int
  | '-' :: cs => if cs.all Char.isDigit && !cs.isEmpty then some (-(digitsValue cs : Int)) else none
  | '+' :: cs => if cs.all Char.isDigit && !cs.isEmpty then some (digitsValue cs) else none
  | cs => if cs.all Char.isDigit && !cs.isEmpty then some (digitsValue cs) else none

/-- Reads digits with an optional fraction and an optional exponent. -/
def readDecimal? (negative : Bool) (cs : List Char) : Option Binary64 := do
  let whole := cs.takeWhile Char.isDigit
  let rest := cs.dropWhile Char.isDigit
  let (fraction, rest) := match rest with
    | '.' :: more => (more.takeWhile Char.isDigit, more.dropWhile Char.isDigit)
    | more => ([], more)
  let power ← match rest with
    | [] => some 0
    | 'e' :: more => exponentValue? more
    | _ => none
  if whole.isEmpty && fraction.isEmpty then none
  else some (ofDecimal negative (digitsValue (whole ++ fraction)) (power - fraction.length))

/-- Reads a written number back; the words for what is not finite are those of a style. -/
def read? (style : DecimalStyle) (s : String) : Option Binary64 :=
  let (negative, cs) := match s.toList with
    | '-' :: cs => (true, cs)
    | cs => (false, cs)
  if String.ofList cs = style.nan then some unreadable
  else if String.ofList cs = style.infinity then some (.infinite negative)
  else readDecimal? negative cs

end Binary64

namespace Number

/-- The written form of a number in a style. Integers of any size have one; no limit on the digits
of a text is in force. -/
def render (style : DecimalStyle) : Number → String
  | .int i => toString i
  | .float x => x.render style

end Number

end Folio
