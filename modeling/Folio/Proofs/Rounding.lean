import Folio.Number.Decimal
import Mathlib.Tactic.Linarith
import Mathlib.Tactic.Positivity
import Mathlib.Tactic.Ring
/-!
# Rounding

A fraction of units is rounded to the number whose interval it lies in: between the midpoints to
the neighbours, where a midpoint goes to the even significand. The lower gap of a power of two is
half as wide as the upper one, and what is rounded up to it carries into the next exponent.
-/

namespace Folio

namespace Binary64

section Rounding

variable {num den m e : Nat} {negative : Bool}

/-- Nearest is the natural number whose distance is at most a half, and less unless it is even. -/
theorem roundHalfEven_of_near (pos : 0 < den) (low : 2 * m * den ≤ 2 * num + den)
    (high : 2 * num ≤ 2 * m * den + den)
    (tie : m % 2 = 1 → 2 * m * den ≠ 2 * num + den ∧ 2 * num ≠ 2 * m * den + den) :
    roundHalfEven num den = m := by
  have split := Nat.div_add_mod num den
  have rest := Nat.mod_lt num pos
  unfold roundHalfEven
  generalize num / den = q at split ⊢
  generalize num % den = r at split rest ⊢
  subst split
  -- A distance of two or more would take more than one denominator.
  have floor : m ≤ q + 1 := by
    by_contra far
    have := Nat.mul_le_mul_right den (show q + 2 ≤ m by omega)
    nlinarith
  have ceil : q ≤ m := by
    by_contra far
    have := Nat.mul_le_mul_right den (show m + 1 ≤ q by omega)
    nlinarith
  obtain rfl | rfl : m = q ∨ m = q + 1 := by omega
  · have even : 2 * r = den → m % 2 = 0 := by
      intro half
      by_contra odd
      exact (tie (by omega)).2 (by nlinarith)
    have small : 2 * r ≤ den := by nlinarith
    dsimp only
    split_ifs <;> omega
  · have even : 2 * r = den → (q + 1) % 2 = 0 := by
      intro half
      by_contra odd
      exact (tie (by omega)).1 (by nlinarith)
    have large : den ≤ 2 * r := by nlinarith
    dsimp only
    split_ifs <;> omega

/-- The exponent of a number of units is the one whose significands are large enough. -/
theorem log2_sub_of_lt {n : Nat} (high : n < 2 ^ (53 + e)) (low : e = 0 ∨ 2 ^ (52 + e) ≤ n) :
    n.log2 - 52 = e := by
  by_cases zero : n = 0
  · have : ¬ 2 ^ (52 + e) ≤ n := by
      have : 0 < 2 ^ (52 + e) := by positivity
      omega
    simp [zero, low.resolve_right this]
  have below : n.log2 < 53 + e := (Nat.log2_lt zero).2 high
  rcases low with rfl | low
  · omega
  · have above : ¬ n.log2 < 52 + e := fun h => absurd ((Nat.log2_lt zero).1 h) (by omega)
    omega

theorem pack_of_canonical (h : Canonical m e) : pack negative m e = .finite negative m e h := by
  simp [pack, h]

/-- A significand that rounding has carried to 2⁵³ is the smallest one of the next exponent. -/
theorem pack_carried (h : Canonical (2 ^ 52) (e + 1)) :
    pack negative (2 ^ 53) e = .finite negative (2 ^ 52) (e + 1) h := by
  have large : ¬ Canonical (2 ^ 53) e := fun h => absurd h.1 (by decide)
  unfold pack
  rw [dif_neg large, dif_pos]
  rfl

/-- The fractions of units that round to a magnitude: those in its interval, with the ends if the
significand is even. -/
def RoundsTo (m e num den : Nat) : Prop :=
  (interval m e).1 * den ≤ 4 * num ∧ 4 * num ≤ (interval m e).2.2 * den ∧
    (m % 2 = 1 → (interval m e).1 * den ≠ 4 * num ∧ 4 * num ≠ (interval m e).2.2 * den)

theorem RoundsTo.quotient_lt (h : Canonical m e) (pos : 0 < den) (near : RoundsTo m e num den) :
    num / den < 2 ^ (53 + e) := by
  obtain ⟨-, high, -⟩ := near
  unfold interval at high
  simp only [Nat.pow_eq] at high
  have gap : 0 < 2 ^ e := by positivity
  have m_lt : m < 2 ^ 53 := h.1
  refine (Nat.div_lt_iff_lt_mul pos).2 ?_
  rw [pow_add]
  have := Nat.mul_le_mul_right (2 ^ e) (show m + 1 ≤ 2 ^ 53 from m_lt)
  have := Nat.mul_le_mul_right den this
  nlinarith [Nat.mul_pos gap pos]

/-- What lies in the interval of a number has its exponent, unless the number is a power of two and
it lies below it. -/
theorem RoundsTo.exponent (h : Canonical m e) (pos : 0 < den) (near : RoundsTo m e num den)
    (regular : ¬ (m = 2 ^ 52 ∧ e ≠ 0 ∧ num / den < 2 ^ (52 + e))) :
    (num / den).log2 - 52 = e := by
  refine log2_sub_of_lt (near.quotient_lt h pos) ?_
  obtain ⟨low, -, -⟩ := near
  unfold interval at low
  simp only [Nat.pow_eq] at low
  by_contra least
  obtain ⟨positive, least⟩ := not_or.1 least
  have apart : m ≠ 2 ^ 52 := fun eq => regular ⟨eq, positive, by omega⟩
  have above : 2 ^ 52 + 1 ≤ m := by
    have : 2 ^ 52 ≤ m := h.2.2.resolve_left positive
    omega
  rw [if_neg fun both => apart both.1] at low
  refine least ((Nat.le_div_iff_mul_le pos).2 ?_)
  rw [pow_add]
  have := Nat.mul_le_mul_right (2 ^ e) above
  have := Nat.mul_le_mul_right den
    (show 4 * (2 ^ 52 * 2 ^ e) ≤ 4 * m * 2 ^ e - 2 * 2 ^ e by rw [Nat.mul_assoc]; omega)
  nlinarith

/-- In gaps of its exponent, what lies in the interval of a number is nearest to it. -/
theorem RoundsTo.nearest (pos : 0 < den) (near : RoundsTo m e num den) :
    roundHalfEven num (den * 2 ^ e) = m := by
  obtain ⟨low, high, tie⟩ := near
  unfold interval at low high tie
  simp only [Nat.pow_eq] at low high tie
  have gap : 0 < 2 ^ e := by positivity
  refine roundHalfEven_of_near (Nat.mul_pos pos gap) ?_ ?_ ?_
  · have := Nat.mul_le_mul_right den (show 4 * m * 2 ^ e ≤ 4 * m * 2 ^ e -
      (if m = 2 ^ 52 ∧ e ≠ 0 then 2 ^ e else 2 * 2 ^ e) + 2 * 2 ^ e by split <;> omega)
    nlinarith
  · nlinarith
  · intro odd
    have apart : m ≠ 2 ^ 52 := fun eq => absurd (eq ▸ odd) (by decide)
    rw [if_neg fun both => apart both.1] at tie
    obtain ⟨lower, upper⟩ := tie odd
    constructor
    · intro eq
      apply lower
      have := Nat.mul_le_mul_right (2 ^ e) (show 1 ≤ m by omega)
      rw [Nat.sub_mul]
      have : 4 * m * 2 ^ e * den = 2 * (2 * m * (den * 2 ^ e)) := by ring
      have : 2 * 2 ^ e * den = 2 * (den * 2 ^ e) := by ring
      omega
    · intro eq
      apply upper
      nlinarith

/-- Below a power of two the gaps are those of the exponent before, and rounding carries. -/
theorem RoundsTo.carried (h : Canonical (2 ^ 52) (e + 1)) (pos : 0 < den)
    (near : RoundsTo (2 ^ 52) (e + 1) num den) (below : num / den < 2 ^ (52 + (e + 1))) :
    ofUnits negative num den = .finite negative (2 ^ 52) (e + 1) h := by
  obtain ⟨low, -, -⟩ := near
  unfold interval at low
  simp only [Nat.pow_eq] at low
  rw [if_pos ⟨trivial, e.succ_ne_zero⟩] at low
  have half : 0 < 2 ^ e := by positivity
  have twice : 2 ^ (e + 1) = 2 * 2 ^ e := by rw [pow_succ, Nat.mul_comm]
  have num_lt : num < 2 ^ (52 + (e + 1)) * den := (Nat.div_lt_iff_lt_mul pos).1 below
  rw [pow_add, twice] at num_lt
  rw [twice, show 4 * 2 ^ 52 * (2 * 2 ^ e) - 2 * 2 ^ e = 36028797018963966 * 2 ^ e by omega,
    Nat.mul_assoc, Nat.mul_comm _ den] at low
  have exponent : (num / den).log2 - 52 = e := by
    refine log2_sub_of_lt ?_ (.inr ((Nat.le_div_iff_mul_le pos).2 ?_))
    · rw [show 53 + e = 52 + (e + 1) by omega]
      exact below
    · rw [pow_add, Nat.mul_assoc, Nat.mul_comm _ den]
      omega
  have nearest : roundHalfEven num (den * 2 ^ e) = 2 ^ 53 := by
    refine roundHalfEven_of_near (Nat.mul_pos pos half) ?_ ?_ fun odd => absurd odd (by decide)
    · omega
    · rw [Nat.mul_assoc, Nat.mul_comm _ den, Nat.mul_left_comm den] at num_lt
      omega
  unfold ofUnits
  simp only [Nat.pow_eq, exponent, nearest]
  exact pack_carried h

/-- What lies in the interval of a number is rounded to that number. -/
theorem ofUnits_of_roundsTo (h : Canonical m e) (pos : 0 < den) (near : RoundsTo m e num den) :
    ofUnits negative num den = .finite negative m e h := by
  by_cases carried : m = 2 ^ 52 ∧ e ≠ 0 ∧ num / den < 2 ^ (52 + e)
  · obtain ⟨rfl, positive, below⟩ := carried
    obtain ⟨f, rfl⟩ := Nat.exists_eq_add_one_of_ne_zero positive
    exact near.carried h pos below
  · unfold ofUnits
    simp only [Nat.pow_eq, near.exponent h pos carried, near.nearest pos]
    exact pack_of_canonical h

/-! ## Decimals -/

/-- Only the fraction counts. -/
theorem ofUnits_scale {factor : Nat} (pos : 0 < factor) :
    ofUnits negative (factor * num) (factor * den) = ofUnits negative num den := by
  have nearest (step : Nat) : roundHalfEven (factor * num) (factor * den * step) =
      roundHalfEven num (den * step) := by
    unfold roundHalfEven
    rw [Nat.mul_assoc, Nat.mul_div_mul_left _ _ pos, Nat.mul_mod_mul_left]
    simp only [Nat.mul_left_comm 2, Nat.mul_lt_mul_left pos]
  unfold ofUnits
  rw [Nat.mul_div_mul_left _ _ pos]
  dsimp only
  rw [nearest]

/-- A zero behind the digits moves to the exponent. -/
theorem ofDecimal_shift (digits : Nat) (exponent : Int) :
    ofDecimal negative (10 * digits) (exponent - 1) = ofDecimal negative digits exponent := by
  unfold ofDecimal
  simp only [Nat.pow_eq]
  generalize one = units
  by_cases positive : 0 < exponent
  · obtain ⟨k, rfl⟩ : ∃ k : Nat, exponent = k + 1 := ⟨(exponent - 1).toNat, by omega⟩
    rw [show ((k : Int) + 1 - 1).toNat = k by omega, show ((k : Int) + 1).toNat = k + 1 by omega,
      show (-((k : Int) + 1 - 1)).toNat = 0 by omega, show (-((k : Int) + 1)).toNat = 0 by omega,
      pow_succ]
    congr 1
    ring
  · obtain ⟨k, rfl⟩ : ∃ k : Nat, exponent = -k := ⟨(-exponent).toNat, by omega⟩
    rw [show (-(k : Int) - 1).toNat = 0 by omega, show (-(k : Int)).toNat = 0 by omega,
      show (-(-(k : Int) - 1)).toNat = k + 1 by omega, show (- -(k : Int)).toNat = k by omega,
      pow_succ, Nat.mul_comm _ 10, Nat.mul_assoc 10, Nat.mul_assoc 10]
    exact ofUnits_scale (by decide)

theorem ofDecimal_shiftMany (zeros digits : Nat) (exponent : Int) :
    ofDecimal negative (10 ^ zeros * digits) (exponent - zeros) =
      ofDecimal negative digits exponent := by
  induction zeros with
  | zero => simp
  | succ zeros ih =>
    rw [pow_succ, Nat.mul_comm _ 10, Nat.mul_assoc,
      show exponent - ((zeros + 1 : Nat) : Int) = exponent - zeros - 1 by omega, ofDecimal_shift,
      ih]

end Rounding

end Binary64

end Folio
