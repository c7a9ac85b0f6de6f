import Folio.Proofs.Keys
import Folio.Proofs.Rounding
import Mathlib.Data.List.TakeWhile
/-!
# Written numbers

The written form of a binary64 number is read back as that number. The digits are those of a
decimal in the number's interval: seventeen of them always suffice, since the grid that they make is
finer than the interval is wide. In each of the four layouts of a decimal, the digits before and
behind the point with the exponent are that decimal.
-/

namespace Folio

namespace Binary64

section Shortest

variable {m e d : Nat} {k : Int} {negative : Bool}

theorem quarters_pos : 0 < quarters := Nat.mul_pos (Nat.zero_lt_succ 3) one_pos

/-- The candidates on a grid are the neighbours of the magnitude, and those in its interval are
kept. -/
theorem mem_onGrid {low center high : Nat} {even : Bool} : d ∈ onGrid low center high even k ↔
    (d = center * 10 ^ (-k).toNat / (quarters * 10 ^ k.toNat) ∨
      d = center * 10 ^ (-k).toNat / (quarters * 10 ^ k.toNat) + 1) ∧
    if even then
      low * 10 ^ (-k).toNat ≤ d * (quarters * 10 ^ k.toNat) ∧
        d * (quarters * 10 ^ k.toNat) ≤ high * 10 ^ (-k).toNat
    else
      low * 10 ^ (-k).toNat < d * (quarters * 10 ^ k.toNat) ∧
        d * (quarters * 10 ^ k.toNat) < high * 10 ^ (-k).toNat := by
  unfold onGrid
  simp only [Nat.pow_eq]
  generalize quarters * 10 ^ k.toNat = scale
  rw [List.mem_filter]
  apply and_congr
  · split_ifs <;> simp [or_comm]
  · cases even <;> simp

/-- A grid point that is kept rounds to the magnitude. -/
theorem roundsTo_of_mem_onGrid {low center high : Nat} (ends : interval m e = (low, center, high))
    (h : d ∈ onGrid low center high (m % 2 = 0) k) :
    RoundsTo m e (d * one * 10 ^ k.toNat) (10 ^ (-k).toNat) := by
  have regroup (a b : Nat) : d * (4 * a * b) = 4 * (d * a * b) := by ring
  have hit := (mem_onGrid.1 h).2
  rw [show quarters * 10 ^ k.toNat = 4 * one * 10 ^ k.toNat from rfl, regroup] at hit
  unfold RoundsTo
  rw [ends]
  by_cases even : m % 2 = 0
  · rw [if_pos (decide_eq_true even)] at hit
    exact ⟨hit.1, hit.2, fun odd => by omega⟩
  · rw [if_neg (by simpa using even)] at hit
    exact ⟨hit.1.le, hit.2.le, fun _ => ⟨hit.1.ne, hit.2.ne⟩⟩

theorem ofDecimal_of_mem_onGrid {low center high : Nat} (h : Canonical m e)
    (ends : interval m e = (low, center, high))
    (kept : d ∈ onGrid low center high (m % 2 = 0) k) :
    ofDecimal negative d k = .finite negative m e h := by
  unfold ofDecimal
  simp only [Nat.pow_eq]
  exact ofUnits_of_roundsTo h (by positivity) (roundsTo_of_mem_onGrid ends kept)

/-- A grid that is finer than the interval has a point in it. -/
theorem onGrid_ne_nil {low center high : Nat} (inside : low < center ∧ center < high)
    (fine : quarters * 10 ^ k.toNat < (high - low) * 10 ^ (-k).toNat) (even : Bool) :
    onGrid low center high even k ≠ [] := by
  have pos : 0 < quarters * 10 ^ k.toNat := Nat.mul_pos quarters_pos (by positivity)
  have stretch_pos : 0 < 10 ^ (-k).toNat := by positivity
  suffices found : ∃ d, d ∈ onGrid low center high even k from
    List.ne_nil_of_mem found.choose_spec
  simp only [mem_onGrid]
  generalize quarters * 10 ^ k.toNat = scale at fine pos ⊢
  generalize 10 ^ (-k).toNat = stretch at fine stretch_pos ⊢
  have split := Nat.div_add_mod (center * stretch) scale
  have rest := Nat.mod_lt (center * stretch) pos
  have above := (Nat.mul_lt_mul_right stretch_pos).2 inside.1
  have below := (Nat.mul_lt_mul_right stretch_pos).2 inside.2
  rw [Nat.sub_mul] at fine
  generalize center * stretch / scale = down at split ⊢
  rw [Nat.mul_comm] at split
  by_cases lower : low * stretch < down * scale
  · refine ⟨down, .inl rfl, ?_⟩
    split_ifs <;> omega
  · refine ⟨down + 1, .inr rfl, ?_⟩
    rw [Nat.add_mul]
    split_ifs <;> omega

/-- A number has as many digits as its size takes. -/
theorem pow_length_toDigits_le {n : Nat} (pos : 0 < n) :
    10 ^ ((Nat.toDigits 10 n).length - 1) ≤ n := by
  by_cases single : (Nat.toDigits 10 n).length - 1 = 0
  · rw [single]
    exact pos
  · have longer : ¬ (Nat.toDigits 10 n).length ≤ (Nat.toDigits 10 n).length - 1 := by omega
    rw [Nat.length_toDigits_le_iff (by decide) (Nat.pos_of_ne_zero single)] at longer
    exact not_lt.1 longer

theorem one_le : one ≤ 10 ^ 400 := by
  have bits_le : ∀ n digits, n ≤ 3 * digits → Nat.pow 2 n ≤ 10 ^ digits := by
    intro n digits h
    calc 2 ^ n ≤ 2 ^ (3 * digits) := Nat.pow_le_pow_right (by decide) h
      _ = 8 ^ digits := pow_mul 2 3 digits
      _ ≤ 10 ^ digits := Nat.pow_le_pow_left (by decide) digits
  exact bits_le 1074 400 (by decide)

/-- The grid of seventeen digits is sixteen orders of magnitude finer than the number. -/
theorem grid_le (center : Nat) (pos : 4 ≤ center) (hk : k = integerDigits center - 17) :
    quarters * 10 ^ k.toNat * 10 ^ 16 ≤ center * 10 ^ (-k).toNat := by
  unfold integerDigits at hk
  have large : quarters ≤ center * 10 ^ 400 := Nat.mul_le_mul pos one_le
  have least := pow_length_toDigits_le (Nat.div_pos large quarters_pos)
  have some : 0 < (Nat.toDigits 10 (center * 10 ^ 400 / quarters)).length := Nat.length_toDigits_pos
  rw [Nat.le_div_iff_mul_le quarters_pos] at least
  simp only [Nat.pow_eq] at hk
  generalize (Nat.toDigits 10 (center * 10 ^ 400 / quarters)).length = length at *
  obtain ⟨rest, rfl⟩ : ∃ rest, length = rest + 1 := ⟨length - 1, by omega⟩
  rw [Nat.add_sub_cancel] at least
  -- Both exponents are natural numbers, of which one is zero.
  have balance : k.toNat + 416 = rest + (-k).toNat := by omega
  refine Nat.le_of_mul_le_mul_right ?_ (show 0 < 10 ^ 400 by positivity)
  calc quarters * 10 ^ k.toNat * 10 ^ 16 * 10 ^ 400
      = quarters * 10 ^ (k.toNat + 416) := by
        rw [Nat.mul_assoc, ← pow_add, Nat.mul_assoc, ← pow_add]
    _ = 10 ^ rest * quarters * 10 ^ (-k).toNat := by
        rw [balance, pow_add, ← Nat.mul_assoc, Nat.mul_comm quarters]
    _ ≤ center * 10 ^ 400 * 10 ^ (-k).toNat := Nat.mul_le_mul_right _ least
    _ = center * 10 ^ (-k).toNat * 10 ^ 400 := Nat.mul_right_comm _ _ _

/-- Seventeen digits suffice. -/
theorem onGrid_seventeen {low center high : Nat} (h : Canonical m e) (pos : 0 < m)
    (ends : interval m e = (low, center, high)) (hk : k = integerDigits center - 17) (even : Bool) :
    onGrid low center high even k ≠ [] := by
  have gap : 0 < 2 ^ e := by positivity
  have large : 2 ^ e ≤ m * 2 ^ e := Nat.le_mul_of_pos_left _ pos
  unfold interval at ends
  simp only [Nat.pow_eq, Prod.mk.injEq] at ends
  obtain ⟨rfl, rfl, rfl⟩ := ends
  have wide : 4 * m * 2 ^ e < (4 * m * 2 ^ e + 2 * 2 ^ e -
      (4 * m * 2 ^ e - if m = 2 ^ 52 ∧ e ≠ 0 then 2 ^ e else 2 * 2 ^ e)) * 10 ^ 16 := by
    have short : m * 2 ^ e < 2 ^ 53 * 2 ^ e := (Nat.mul_lt_mul_right gap).2 h.1
    rw [Nat.mul_assoc]
    split
    · rename_i power
      rw [power.1]
      omega
    · omega
  have fine := grid_le (k := k) (4 * m * 2 ^ e) (by rw [Nat.mul_assoc]; omega) hk
  refine onGrid_ne_nil ⟨?_, by omega⟩ ?_ even
  · rw [Nat.mul_assoc] at wide ⊢
    split <;> omega
  · have stretched := (Nat.mul_lt_mul_right (show 0 < 10 ^ (-k).toNat by positivity)).2 wide
    rw [Nat.mul_right_comm _ (10 ^ 16)] at stretched
    exact Nat.lt_of_mul_lt_mul_right (fine.trans_lt stretched)

/-- Trailing zeros do not count. -/
theorem ofDecimal_trim (fuel : Nat) (d : Decimal) :
    ofDecimal negative (d.trim fuel).digits (d.trim fuel).exponent =
      ofDecimal negative d.digits d.exponent := by
  induction fuel generalizing d with
  | zero => rfl
  | succ fuel ih =>
    unfold Decimal.trim
    split
    · rename_i zero
      rw [ih, ← ofDecimal_shift, show 10 * (d.digits / 10) = d.digits by omega,
        Int.add_sub_cancel]
    · rfl

/-- The shortest decimal is a grid point in the interval, without its trailing zeros. -/
theorem shortest_onGrid (h : Canonical m e) (pos : 0 < m) {low center high : Nat}
    (ends : interval m e = (low, center, high)) :
    ∃ d k, d ∈ onGrid low center high (m % 2 = 0) k ∧ shortest m e = (Decimal.mk d k).trim 17 := by
  unfold shortest
  rw [ends]
  cases found : (List.range 17).findSome? fun (n : Nat) =>
      nearest? (low, center, high) (m % 2 = 0) (integerDigits center - ((n : Int) + 1)) with
  | none =>
    have last := List.findSome?_eq_none_iff.1 found 16 (by decide)
    unfold nearest? at last
    rw [Option.map_eq_none_iff, List.head?_eq_none_iff] at last
    exact absurd last (onGrid_seventeen h pos ends (by norm_num) _)
  | some decimal =>
    obtain ⟨n, -, kept⟩ := List.exists_of_findSome?_eq_some found
    obtain ⟨digits, first, rfl⟩ := Option.map_eq_some_iff.1 kept
    refine ⟨digits, _, List.mem_of_mem_head? first, ?_⟩
    simp only [found, Option.map_some, Option.getD_some]

/-- The shortest digits of a number are read back as that number. -/
theorem ofDecimal_shortest (h : Canonical m e) (pos : 0 < m) :
    ofDecimal negative (shortest m e).digits (shortest m e).exponent = .finite negative m e h := by
  obtain ⟨d, k, kept, found⟩ := shortest_onGrid h pos rfl
  rw [found, ofDecimal_trim]
  exact ofDecimal_of_mem_onGrid h rfl kept

end Shortest

/-! ## Layouts -/

section Reading

variable {negative : Bool} {ds rest : List Char} {power : Int}

@[simp] theorem digitsValue_toDigits (n : Nat) : digitsValue (Nat.toDigits 10 n) = n :=
  Nat.ofDigitChars_toDigits (by decide) (by decide)

theorem digitsValue_zeros_append (k : Nat) (cs : List Char) :
    digitsValue (List.replicate k '0' ++ cs) = digitsValue cs := by
  induction k with
  | zero => rfl
  | succ k ih =>
    rw [List.replicate_succ, List.cons_append]
    exact ih

theorem digitsValue_append_zeros (cs : List Char) (k : Nat) :
    digitsValue (cs ++ List.replicate k '0') = 10 ^ k * digitsValue cs := by
  induction k with
  | zero => simp
  | succ k ih =>
    rw [List.replicate_succ', ← List.append_assoc, digitsValue, List.foldl_append, ← digitsValue,
      ih, pow_succ', Nat.mul_assoc]
    rfl

/-- Digits are taken up to the first character that is none. -/
theorem takeWhile_digits (digits : ∀ c ∈ ds, c.isDigit = true)
    (stop : ∀ c ∈ rest.head?, c.isDigit = false) :
    (ds ++ rest).takeWhile Char.isDigit = ds ∧ (ds ++ rest).dropWhile Char.isDigit = rest := by
  rw [List.takeWhile_append_of_pos digits, List.dropWhile_append_of_pos digits]
  cases rest with
  | nil => simp
  | cons c rest =>
    have none := stop c rfl
    simp [none]

/-- What may stand behind the digits of a written number: a power of ten, or nothing. -/
inductive IsPower : Int → List Char → Prop
  | absent : IsPower 0 []
  | written {power : Int} {cs : List Char} : exponentValue? cs = some power →
      IsPower power ('e' :: cs)

theorem IsPower.stop (h : IsPower power rest) : ∀ c ∈ rest.head?, c.isDigit = false := by
  intro c hc
  cases h with
  | absent => cases hc
  | written _ =>
    cases hc
    rfl

/-- Digits with a point in them. -/
theorem readDecimal?_fraction {fraction : List Char} (whole : ∀ c ∈ ds, c.isDigit = true)
    (some : ds ≠ []) (behind : ∀ c ∈ fraction, c.isDigit = true) (h : IsPower power rest) :
    readDecimal? negative (ds ++ '.' :: (fraction ++ rest)) =
      .some (ofDecimal negative (digitsValue (ds ++ fraction)) (power - fraction.length)) := by
  have stop : ∀ c ∈ ('.' :: (fraction ++ rest)).head?, c.isDigit = false := by
    intro c hc
    cases hc
    rfl
  have front := takeWhile_digits whole stop
  have back := takeWhile_digits behind h.stop
  unfold readDecimal?
  simp only [front.1, front.2, back.1, back.2]
  cases h with
  | absent => simp [some]
  | written value => simp [some, value]

/-- Digits without a point. -/
theorem readDecimal?_whole (whole : ∀ c ∈ ds, c.isDigit = true) (some : ds ≠ [])
    (h : IsPower power rest) :
    readDecimal? negative (ds ++ rest) = .some (ofDecimal negative (digitsValue ds) power) := by
  have front := takeWhile_digits whole h.stop
  unfold readDecimal?
  simp only [front.1, front.2]
  cases h with
  | absent => simp [some]
  | written value => simp [some, value]

end Reading

end Binary64

namespace Decimal

open Binary64

/-- The forms of a written decimal: digits around a point, a power of ten behind them or not, and
digits without a point but with a power of ten. What is denoted is the decimal. -/
inductive Layout (d : Decimal) : List Char → Prop
  | point {ds fraction rest : List Char} {power : Int} (whole : ∀ c ∈ ds, c.isDigit = true)
      (filled : ds ≠ []) (behind : ∀ c ∈ fraction, c.isDigit = true) (tail : IsPower power rest)
      (denoted : ∀ negative, ofDecimal negative (digitsValue (ds ++ fraction))
        (power - fraction.length) = ofDecimal negative d.digits d.exponent) :
      Layout d (ds ++ '.' :: (fraction ++ rest))
  | power {ds cs : List Char} {power : Int} (whole : ∀ c ∈ ds, c.isDigit = true)
      (filled : ds ≠ []) (value : exponentValue? cs = some power)
      (denoted : ∀ negative, ofDecimal negative (digitsValue ds) power =
        ofDecimal negative d.digits d.exponent) :
      Layout d (ds ++ 'e' :: cs)

theorem isDigit_of_mem_toDigits {n : Nat} : ∀ c ∈ Nat.toDigits 10 n, c.isDigit = true :=
  fun _ => Nat.isDigit_of_mem_toDigits (by decide) (by decide)

theorem isDigit_of_mem_zeros {k : Nat} : ∀ c ∈ List.replicate k '0', c.isDigit = true := by
  intro c hc
  rw [List.eq_of_mem_replicate hc]
  rfl

theorem isDigit_of_mem_zero : ∀ c ∈ ['0'], c.isDigit = true := by
  intro c hc
  rw [List.mem_singleton.1 hc]
  rfl

theorem isDigit_of_mem_append {ds es : List Char} (hd : ∀ c ∈ ds, c.isDigit = true)
    (he : ∀ c ∈ es, c.isDigit = true) : ∀ c ∈ ds ++ es, c.isDigit = true := by
  intro c hc
  exact (List.mem_append.1 hc).elim (hd c) (he c)

/-- An exponent with its sign and its padding. -/
def powerText (width : Nat) (power : Int) : List Char :=
  (if power < 0 then '-' else '+') :: (padLeft width (digitText power.natAbs)).toList

/-- The digits of an exponent, padded or not, are its magnitude. -/
theorem exponentValue?_powerText (width : Nat) (power : Int) :
    exponentValue? (powerText width power) = some power := by
  have padded : ∃ k, (padLeft width (digitText power.natAbs)).toList =
      List.replicate k '0' ++ Nat.toDigits 10 power.natAbs :=
    ⟨_, by rw [padLeft, digitText, String.toList_append, String.toList_ofList,
      String.toList_ofList]⟩
  obtain ⟨k, padded⟩ := padded
  have digits : (List.replicate k '0' ++ Nat.toDigits 10 power.natAbs).all Char.isDigit = true :=
    List.all_eq_true.2 (isDigit_of_mem_append isDigit_of_mem_zeros isDigit_of_mem_toDigits)
  have filled : (List.replicate k '0' ++ Nat.toDigits 10 power.natAbs).isEmpty = false := by
    simp
  have value := digitsValue_zeros_append k (Nat.toDigits 10 power.natAbs)
  rw [digitsValue_toDigits] at value
  unfold powerText
  rw [padded]
  split <;> simp only [exponentValue?, digits, filled, value, Bool.not_false, Bool.and_self,
    if_true, Option.some.injEq] <;> omega

section Digits

variable {d : Decimal} {ds : List Char} {point : Int} (digits : ∀ c ∈ ds, c.isDigit = true)
  (value : digitsValue ds = d.digits)

include digits value

/-- All digits stand behind the point. -/
theorem layout_behind (hp : (ds.length : Int) + d.exponent = point) (low : point ≤ 0) :
    d.Layout (['0'] ++ '.' :: ((List.replicate (-point).toNat '0' ++ ds) ++ [])) :=
  .point isDigit_of_mem_zero (by decide) (isDigit_of_mem_append isDigit_of_mem_zeros digits)
    .absent fun negative => by
    have zeros := digitsValue_zeros_append ((-point).toNat + 1) ds
    rw [List.replicate_succ, List.cons_append] at zeros
    rw [List.singleton_append, zeros, value]
    congr 1
    simp only [List.length_append, List.length_replicate]
    omega

/-- All digits stand before the point, and zeros behind them. -/
theorem layout_before (filled : ds ≠ []) {k : Nat} (hk : (k : Int) = d.exponent) :
    d.Layout ((ds ++ List.replicate k '0') ++ '.' :: (['0'] ++ [])) :=
  .point (isDigit_of_mem_append digits isDigit_of_mem_zeros) (by simp [filled])
    isDigit_of_mem_zero .absent fun negative => by
    have zeros := digitsValue_append_zeros ds (k + 1)
    rw [List.replicate_succ', ← List.append_assoc] at zeros
    rw [zeros, value, ← ofDecimal_shiftMany (k + 1) d.digits d.exponent]
    congr 1
    simp only [List.length_singleton]
    omega

/-- The point stands between the digits. -/
theorem layout_between (filled : ds ≠ []) (hp : (ds.length : Int) + d.exponent = point)
    (low : 0 < point) (high : point.toNat < ds.length) :
    d.Layout (ds.take point.toNat ++ '.' :: (ds.drop point.toNat ++ [])) := by
  have before : ds.take point.toNat ≠ [] := by
    rw [Ne, List.take_eq_nil_iff, not_or]
    exact ⟨by omega, filled⟩
  refine .point (fun c hc => digits c (List.mem_of_mem_take hc)) before
    (fun c hc => digits c (List.mem_of_mem_drop hc)) .absent fun negative => ?_
  rw [List.take_append_drop, value]
  congr 1
  rw [List.length_drop]
  omega

/-- One digit stands before the point, if there is one, and the power is written. -/
theorem layout_power (filled : ds ≠ []) (hp : (ds.length : Int) + d.exponent = point)
    (width : Nat) :
    d.Layout (ds.take 1 ++ (if (ds.drop 1).isEmpty then [] else '.' :: ds.drop 1) ++
      'e' :: powerText width (point - 1)) := by
  obtain ⟨first, behind, rfl⟩ := List.exists_cons_of_ne_nil filled
  have value? := exponentValue?_powerText width (point - 1)
  cases behind with
  | nil =>
    have form : d.Layout ([first] ++ 'e' :: powerText width (point - 1)) :=
      .power digits filled value? fun negative => by
        rw [value, ← hp]
        congr 1
        simp
    exact form
  | cons second behind =>
    have form : d.Layout ([first] ++ '.' :: ((second :: behind) ++
        'e' :: powerText width (point - 1))) := .point
      (fun c hc => digits c (List.mem_append_left _ hc)) (List.cons_ne_nil _ _)
      (fun c hc => digits c (List.mem_cons_of_mem _ hc)) (.written value?) fun negative => by
        rw [List.singleton_append, value]
        congr 1
        simp only [List.length_cons] at hp ⊢
        omega
    simpa using form

end Digits

/-- Every decimal is written in one of the forms. -/
theorem render_layout (style : DecimalStyle) (d : Decimal) : d.Layout (d.render style).toList := by
  have digits : ∀ c ∈ Nat.toDigits 10 d.digits, c.isDigit = true := isDigit_of_mem_toDigits
  have filled : Nat.toDigits 10 d.digits ≠ [] := List.ne_nil_of_length_pos Nat.length_toDigits_pos
  have value := digitsValue_toDigits d.digits
  unfold render
  simp only []
  generalize Nat.toDigits 10 d.digits = ds at digits filled value ⊢
  generalize hp : (ds.length : Int) + d.exponent = point
  split
  · split
    · rename_i low
      simpa using layout_behind digits value hp low
    · split
      · have form := layout_before digits value filled (k := point.toNat - ds.length) (by omega)
        simpa using form
      · simpa using layout_between digits value filled hp (by omega) (by omega)
  · have mark : (if point - 1 < 0 then "e-" else "e+").toList ++
        (padLeft style.exponentWidth (digitText (point - 1).natAbs)).toList =
          'e' :: powerText style.exponentWidth (point - 1) := by
      unfold powerText
      split <;> rfl
    have form := layout_power digits value filled hp style.exponentWidth
    rw [← mark] at form
    simp only [String.toList_append, String.toList_ofList, ← List.append_assoc] at form ⊢
    convert form using 3
    split <;> simp

section Layouts

variable {d : Decimal} {text : List Char}

theorem Layout.read? (h : d.Layout text) (negative : Bool) :
    readDecimal? negative text = some (ofDecimal negative d.digits d.exponent) := by
  cases h with
  | point whole filled behind tail denoted =>
    rw [readDecimal?_fraction whole filled behind tail, denoted]
  | power whole filled value denoted =>
    rw [readDecimal?_whole whole filled (.written value), denoted]

/-- A written decimal begins with a digit. -/
theorem Layout.starts (h : d.Layout text) : ∃ c ∈ text.head?, c.isDigit = true := by
  cases h with
  | point whole filled _ _ _ =>
    obtain ⟨c, rest, rfl⟩ := List.exists_cons_of_ne_nil filled
    exact ⟨c, rfl, whole c List.mem_cons_self⟩
  | power whole filled _ _ =>
    obtain ⟨c, rest, rfl⟩ := List.exists_cons_of_ne_nil filled
    exact ⟨c, rfl, whole c List.mem_cons_self⟩

/-- A written decimal has a point or a power of ten, and so is no integer's digits. -/
theorem Layout.marked (h : d.Layout text) : '.' ∈ text ∨ 'e' ∈ text := by
  cases h <;> simp

end Layouts

end Decimal

/-! ## Numbers -/

namespace Binary64

theorem ofDecimal_zero (negative : Bool) (exponent : Int) :
    ofDecimal negative 0 exponent = zero negative := by
  have rounded (den : Nat) : roundHalfEven 0 den = 0 := by
    unfold roundHalfEven
    simp only [Nat.zero_div, Nat.zero_mod]
    split_ifs <;> omega
  unfold ofDecimal ofUnits
  simp only [Nat.zero_mul, Nat.zero_div, rounded]
  rfl

/-- What a number is written as, without its sign. -/
def magnitudeText (style : DecimalStyle) (m e : Nat) : String :=
  if m = 0 then "0.0" else (shortest m e).render style

/-- The digits of a finite number are in one of the forms of a decimal that is read as it. -/
theorem magnitude_layout (style : DecimalStyle) {m e : Nat} (h : Canonical m e) :
    ∃ d : Decimal, d.Layout (magnitudeText style m e).toList ∧
      ∀ negative, ofDecimal negative d.digits d.exponent = .finite negative m e h := by
  unfold magnitudeText
  split
  · rename_i zero
    subst zero
    obtain rfl : e = 0 := h.2.2.resolve_right (by decide)
    refine ⟨⟨0, 0⟩, ?_, fun negative => ofDecimal_zero negative 0⟩
    have form : (Decimal.mk 0 0).Layout (['0'] ++ '.' :: (['0'] ++ [])) :=
      .point Decimal.isDigit_of_mem_zero (by decide) Decimal.isDigit_of_mem_zero .absent
        fun negative => by
        rw [ofDecimal_zero]
        exact ofDecimal_zero negative _
    exact form
  · exact ⟨_, Decimal.render_layout style _, fun negative =>
      ofDecimal_shortest h (Nat.pos_of_ne_zero ‹_›)⟩

@[simp] theorem render_finite (style : DecimalStyle) {s : Bool} {m e : Nat} (h : Canonical m e) :
    (finite s m e h).render style = (if s then "-" else "") ++ magnitudeText style m e := rfl

/-- What begins with a digit, behind a sign or not, is read as digits. -/
theorem read?_digits {text : List Char} (starts : ∃ c ∈ text.head?, c.isDigit = true)
    (negative : Bool) :
    read? Number.codeStyle ((if negative then "-" else "") ++ String.ofList text) =
      readDecimal? negative text := by
  obtain ⟨c, hc, digit⟩ := starts
  obtain ⟨rest, rfl⟩ : ∃ rest, text = c :: rest := List.head?_eq_some_iff.1 hc
  have word {w : String} (hw : ∀ d ∈ w.toList.head?, d.isDigit = false) :
      String.ofList (c :: rest) ≠ w := by
    rintro rfl
    rw [hw c (by rw [String.toList_ofList]; rfl)] at digit
    exact Bool.false_ne_true digit
  have nan : String.ofList (c :: rest) ≠ Number.codeStyle.nan := word fun d hd => by
    obtain rfl : 'N' = d := Option.some.inj hd
    rfl
  have infinity : String.ofList (c :: rest) ≠ Number.codeStyle.infinity := word fun d hd => by
    obtain rfl : 'I' = d := Option.some.inj hd
    rfl
  have plain : c ≠ '-' := by
    rintro rfl
    exact absurd digit (by decide)
  unfold read?
  rw [String.toList_append, String.toList_ofList]
  cases negative <;>
    simp only [Bool.false_eq_true, if_false, if_true, String.toList_empty, List.nil_append,
      show "-".toList = ['-'] from rfl, List.singleton_append, nan, infinity]
  split
  · rename_i cs same
    exact absurd (List.cons.inj same).1 plain
  · simp only [nan, infinity, if_false]

/-- The written form of a number that is one is read back as that number. -/
theorem read?_render {x : Binary64} (h : x.isNaN = false) :
    read? Number.codeStyle (x.render Number.codeStyle) = some x := by
  rcases x with payload | negative | ⟨negative, m, e, canonical⟩
  · exact absurd h (by simp [isNaN])
  · cases negative <;> rfl
  · obtain ⟨d, layout, denoted⟩ := magnitude_layout Number.codeStyle canonical
    have read := read?_digits layout.starts negative
    rw [String.ofList_toList] at read
    rw [render_finite, read, layout.read?, denoted]

end Binary64

end Folio
