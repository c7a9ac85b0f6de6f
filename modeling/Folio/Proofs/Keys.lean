import Folio.Store.Session
import Mathlib.Tactic.Linarith
import Mathlib.Tactic.Positivity
/-!
# Keys and their codes

Two keys that are the same value have one code, so they address one row. The converse half of that
agreement is a matter of how codes are written; what the store relies on at every write is this
half. The reason is that a magnitude has one canonical form: binary64 numbers at one place are one
number, up to the sign of a zero, and an integral one collapses onto the integer at its place.
-/

namespace Folio

/-! ## Numbers at one place -/

/-- Each magnitude has one canonical form. -/
theorem Canonical.unique {m e n f : Nat} (hm : Canonical m e) (hn : Canonical n f)
    (h : m * 2 ^ e = n * 2 ^ f) : m = n ∧ e = f := by
  -- A lower exponent would need a significand of 54 bits.
  have key : ∀ {m e n f : Nat}, Canonical m e → Canonical n f → m * 2 ^ e = n * 2 ^ f →
      ¬ e < f := by
    intro m e n f hm hn h lt
    obtain ⟨k, rfl⟩ : ∃ k, f = e + (k + 1) := ⟨f - e - 1, by omega⟩
    have hmn : m = n * 2 ^ (k + 1) := by
      rw [pow_add, mul_left_comm, mul_comm m] at h
      exact Nat.eq_of_mul_eq_mul_left (by positivity) h
    have h52 : 2 ^ 52 ≤ n := hn.2.2.resolve_left (by omega)
    have hk : 2 ^ 1 ≤ 2 ^ (k + 1) := Nat.pow_le_pow_right (by decide) (by omega)
    have h53 : m < 2 ^ 53 := hm.1
    have := Nat.mul_le_mul h52 hk
    omega
  have hef : e = f := by
    have := key hm hn h
    have := key hn hm h.symm
    omega
  subst hef
  exact ⟨Nat.eq_of_mul_eq_mul_right (by positivity) h, rfl⟩

namespace Binary64

theorem one_pos : 0 < one := by
  have pos : ∀ n, 0 < Nat.pow 2 n := fun n => Nat.pow_pos Nat.two_pos
  exact pos 1074

/-- Numbers of one sign at one place are one number. -/
theorem eq_of_signed_eq {s : Bool} {m e n f : Nat} {hm : Canonical m e} {hn : Canonical n f}
    (h : signed s m e = signed s n f) : finite s m e hm = finite s n f hn := by
  have hmag : m * 2 ^ e = n * 2 ^ f := by
    simp only [signed, Nat.pow_eq] at h
    cases s
    · simpa only [Bool.false_eq_true, if_false, Nat.cast_inj] using h
    · simpa only [if_true, neg_inj, Nat.cast_inj] using h
  obtain ⟨rfl, rfl⟩ := hm.unique hn hmag
  rfl

/-- Numbers of both signs meet only in zero. -/
theorem magnitude_eq_zero {m e n f : Nat} (h : signed true m e = signed false n f) :
    m * 2 ^ e = 0 ∧ n * 2 ^ f = 0 := by
  simp only [signed, Nat.pow_eq, Bool.false_eq_true, if_true, if_false] at h
  omega

theorem toInt?_of_magnitude {s : Bool} {m e k : Nat} {hm : Canonical m e}
    (h : m * 2 ^ e = k * one) :
    (finite s m e hm).toInt? = some (if s then -(k : Int) else k) := by
  replace h : m * Nat.pow 2 e = k * one := h
  simp only [toInt?, h, Nat.mul_mod_left, Nat.mul_div_cancel _ one_pos, if_true]

end Binary64

namespace Number

theorem same_iff {a b : Number} : a.same b = true ↔ ∃ p, a.place = some p ∧ b.place = some p := by
  unfold same
  cases a.place with
  | none => simp
  | some p =>
    cases b.place with
    | none => simp
    | some q => exact ⟨fun h => ⟨p, rfl, by rw [eq_of_beq h]⟩, fun ⟨r, hp, hq⟩ => by simp_all⟩

/-- A binary64 at the place of an integer is that integer. -/
theorem toInt?_of_place {x : Binary64} {i : Int}
    (h : (float x).place = some (0, i * Binary64.one)) : x.toInt? = some i := by
  rcases x with p | s | ⟨s, m, e, hm⟩
  · rw [place_nan] at h
    exact nomatch h
  · rw [place_infinite] at h
    have ends : (if s then -1 else 1 : Int) = 0 := congrArg Prod.fst (Option.some.inj h)
    cases s <;> cases ends
  · simp only [place_finite, Option.some.injEq, Prod.mk.injEq, true_and] at h
    have hmag : m * 2 ^ e = i.natAbs * Binary64.one := by
      have := congrArg Int.natAbs h
      rw [Int.natAbs_mul, Int.natAbs_natCast] at this
      rw [← this]
      cases s
      · simp only [Binary64.signed, Bool.false_eq_true, if_false, Int.natAbs_natCast, Nat.pow_eq]
      · simp only [Binary64.signed, if_true, Int.natAbs_neg, Int.natAbs_natCast, Nat.pow_eq]
    rw [Binary64.toInt?_of_magnitude hmag, Option.some.injEq]
    have hone : (0 : Int) < Binary64.one := by exact_mod_cast Binary64.one_pos
    cases s
    · simp only [Binary64.signed, Bool.false_eq_true, if_false] at h ⊢
      have : 0 ≤ i := by
        by_contra neg
        have := Int.mul_neg_of_neg_of_pos (not_le.1 neg) hone
        omega
      omega
    · simp only [Binary64.signed, if_true] at h ⊢
      have : i ≤ 0 := by
        by_contra pos
        have := Int.mul_pos (not_le.1 pos) hone
        omega
      omega

/-- Numbers at one place collapse to one number. -/
theorem collapse_eq_of_same {a b : Number} (h : a.same b = true) : a.collapse = b.collapse := by
  obtain ⟨p, ha, hb⟩ := same_iff.1 h
  rcases a with i | x <;> rcases b with j | y
  · simp only [place_int, Option.some.injEq] at ha hb
    have hij := congrArg Prod.snd (ha.trans hb.symm)
    have hone : (Binary64.one : Int) ≠ 0 := by exact_mod_cast Binary64.one_pos.ne'
    rw [Int.eq_of_mul_eq_mul_right hone hij]
  · simp only [place_int, Option.some.injEq] at ha
    simp only [collapse, toInt?_of_place (ha ▸ hb)]
  · simp only [place_int, Option.some.injEq] at hb
    simp only [collapse, toInt?_of_place (hb ▸ ha)]
  · have hxy := ha.trans hb.symm
    rcases x with k | s | ⟨s, m, e, hm⟩
    · simp at ha
    · rcases y with l | t | ⟨t, n, f, hn⟩
      · simp at hb
      · cases s <;> cases t <;> simp at hxy ⊢
      · cases s <;> simp at hxy
    · rcases y with l | t | ⟨t, n, f, hn⟩
      · simp at hb
      · cases t <;> simp at hxy
      · simp only [place_finite, Option.some.injEq, Prod.mk.injEq, true_and] at hxy
        -- The two forms are one unless the signs differ, and then both are zeros.
        cases s <;> cases t
        · rw [Binary64.eq_of_signed_eq hxy]
        · obtain ⟨hn0, hm0⟩ := Binary64.magnitude_eq_zero hxy.symm
          simp only [collapse, Binary64.toInt?_of_magnitude (k := 0) (by rw [hm0, Nat.zero_mul]),
            Binary64.toInt?_of_magnitude (k := 0) (by rw [hn0, Nat.zero_mul])]
          rfl
        · obtain ⟨hm0, hn0⟩ := Binary64.magnitude_eq_zero hxy
          simp only [collapse, Binary64.toInt?_of_magnitude (k := 0) (by rw [hm0, Nat.zero_mul]),
            Binary64.toInt?_of_magnitude (k := 0) (by rw [hn0, Nat.zero_mul])]
          rfl
        · rw [Binary64.eq_of_signed_eq hxy]

end Number

/-! ## Values as keys -/

theorem Scalar.collapse_eq_of_same {s t : Scalar} (h : s.same t = true) :
    s.collapse = t.collapse := by
  cases s <;> cases t <;> simp only [Scalar.same, Bool.false_eq_true, beq_iff_eq] at h
  case null.null => rfl
  case bool.bool => rw [h]
  case number.number => simp only [Scalar.collapse, Number.collapse_eq_of_same h]
  case text.text => rw [h]

namespace Value

/-- Whether a value can address a document: a text, or a number other than what is not one. -/
def isAddress : Value → Bool
  | .scalar (.text _) => true
  | .scalar (.number (.int _)) => true
  | .scalar (.number (.float x)) => !x.isNaN
  | _ => false

theorem isKey_of_isAddress {v : Value} (h : v.isAddress = true) : v.isKey = true := by
  rcases v with s | items | fields
  · rcases s with _ | b | n | t
    · exact h
    · exact h
    · rfl
    · rfl
  · exact h
  · exact h

/-- What is the same as a key is a key that addresses a document, and has its code. -/
theorem isAddress_of_same {v key : Value} (hk : key.isKey = true) (h : v.same key = true) :
    v.isAddress = true ∧ v.code = key.code := by
  rcases key with t | items | fields
  · rcases v with s | items | fields
    · have hst : s.same t = true := by simpa only [Value.same, toTerm, Term.same] using h
      refine ⟨?_, by simp only [code, collapse, Scalar.collapse_eq_of_same hst]⟩
      cases s <;> cases t <;> simp only [Scalar.same, Bool.false_eq_true] at hst
      case null.null => exact absurd hk (by decide)
      case bool.bool => exact absurd hk (by simp [isKey, Scalar.isKey])
      case number.number m n =>
        obtain ⟨p, hm, -⟩ := Number.same_iff.1 hst
        rcases m with i | x | s | ⟨s, k, e, hx⟩
        · rfl
        · simp at hm
        · rfl
        · rfl
      case text.text => rfl
    · simp [Value.same, toTerm, Term.same] at h
    · simp [Value.same, toTerm, Term.same] at h
  · exact absurd hk (by simp [isKey])
  · exact absurd hk (by simp [isKey])

/-- A key that addresses a document comes back from the store as it is. -/
theorem reread_of_isAddress {v : Value} (h : v.isAddress = true) : v.reread = v := by
  rcases v with s | items | fields
  · rcases s with _ | b | n | t
    · rfl
    · rfl
    · rcases n with i | x
      · rfl
      · cases x <;> first | rfl | exact absurd h (by simp [isAddress, Binary64.isNaN])
    · rfl
  · exact absurd h (by simp [isAddress])
  · exact absurd h (by simp [isAddress])

mutual

/-- A document value is written as it is. -/
theorem toValue_toTerm : (v : Value) → v.toTerm.toValue = .ok v
  | .scalar s => by simp [toTerm, Term.toValue]
  | .list items => by simp [toTerm, Term.toValue, toValues_itemsToTerms items, Except.map]
  | .object fields => by simp [toTerm, Term.toValue, toFields_fieldsToEntries fields, Except.map]

theorem toValues_itemsToTerms : (items : List Value) →
    Term.toValues (itemsToTerms items) = .ok items
  | [] => by simp [itemsToTerms, Term.toValues]
  | item :: rest => by
    simp only [itemsToTerms, Term.toValues, toValue_toTerm item, toValues_itemsToTerms rest]
    rfl

theorem toFields_fieldsToEntries : (fields : List (String × Value)) →
    Term.toFields (fieldsToEntries fields) = .ok fields
  | [] => by simp [fieldsToEntries, Term.toFields]
  | (label, value) :: rest => by
    simp only [fieldsToEntries, Term.text, Term.toFields, toValue_toTerm value,
      toFields_fieldsToEntries rest]
    rfl

end

@[simp] theorem encodeKey_toTerm (v : Value) : v.toTerm.encodeKey = .ok v.code := by
  simp [Term.encodeKey, toValue_toTerm v, Except.map]

end Value

@[simp] theorem Session.exec_codeOf (v : Value) (setup : Setup) (s : StoreState) :
    (Session.codeOf v.toTerm).exec setup s = (.ok v.code, s) := by
  simp [Session.codeOf]

/-! ## Documents with their key -/

namespace Document

/-- Whether a field holds a key that addresses the document under a code. -/
def IsKeyed (field code : String) (d : Document) : Prop :=
  ∃ key, Entries.find? d field = some key ∧ key.isAddress = true ∧ key.code = code

variable {field code : String} {d : Document} {key : Value}

/-- The check that a write makes: the field is the same as the key. -/
theorem isKeyed_of_same (hk : key.isKey = true)
    (h : (d.fieldOrNull field).toTerm.same key.toTerm = true) : d.IsKeyed field key.code := by
  obtain ⟨ha, hc⟩ := Value.isAddress_of_same hk h
  unfold fieldOrNull at ha hc
  cases hd : Entries.find? d field with
  | none =>
    rw [hd] at ha
    exact absurd ha (by decide)
  | some v =>
    rw [hd] at ha hc
    exact ⟨v, hd, ha, hc⟩

theorem IsKeyed.reread (h : d.IsKeyed field code) : d.reread.IsKeyed field code := by
  obtain ⟨v, hv, ha, hc⟩ := h
  exact ⟨v, by rw [find?_reread, hv, Option.map_some, Value.reread_of_isAddress ha], ha, hc⟩

end Document

end Folio
