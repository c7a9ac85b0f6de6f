import Folio.Proofs.Written
/-!
# Codes tell keys apart

Two keys that address documents have one code exactly when they are the same value. Texts are told
apart because an escaped text is read back, character by character: no escape is the beginning of
another. Numbers are told apart because a written binary64 is read back, and because its point, its
power of ten or its word is in no integer's digits. So one code never stands for two keys, and a
row, a lock or a group belongs to one of them.
-/

namespace Folio

/-! ## Escaped texts -/

namespace Escaped

/-- The value of a lower-case hexadecimal digit. -/
def hexDigit (c : Char) : Nat := if c.isDigit then c.toNat - 48 else c.toNat - 87

/-- The value of a run of hexadecimal digits. -/
def hexValue (cs : List Char) : Nat := cs.foldl (fun n c => 16 * n + hexDigit c) 0

/-- The code point behind the letter of a short escape. -/
def shortCode : Char → Nat
  | 'n' => 10
  | 'r' => 13
  | 't' => 9
  | 'b' => 8
  | 'f' => 12
  | c => c.toNat

/-- Reads the first code point of an escaped text; a unit of the upper surrogates stands with the
one behind it. -/
def readFirst : List Char → Option (Nat × List Char)
  | '\\' :: 'u' :: rest =>
    let unit := hexValue (rest.take 4)
    if 0xD800 ≤ unit ∧ unit < 0xDC00 then
      some (0x10000 + (unit - 0xD800) * 0x400 + (hexValue ((rest.drop 6).take 4) - 0xDC00),
        rest.drop 10)
    else some (unit, rest.drop 4)
  | '\\' :: c :: rest => some (shortCode c, rest)
  | c :: rest => some (c.toNat, rest)
  | [] => none

theorem hexDigit_digitChar {n : Nat} (h : n < 16) : hexDigit n.digitChar = n := by
  decide +revert

theorem hexValue_toDigits (n : Nat) : hexValue (Nat.toDigits 16 n) = n := by
  induction n using Nat.strong_induction_on with
  | _ n ih =>
    by_cases small : n < 16
    · rw [Nat.toDigits_of_lt_base small]
      simpa [hexValue] using hexDigit_digitChar small
    · have last := ih (n / 16) (by omega)
      rw [Nat.toDigits_of_base_le (by decide) (by omega), hexValue, List.foldl_append, ← hexValue,
        last, List.foldl_cons, List.foldl_nil, hexDigit_digitChar (by omega)]
      omega

theorem hexValue_zeros_append (k : Nat) (cs : List Char) :
    hexValue (List.replicate k '0' ++ cs) = hexValue cs := by
  induction k with
  | zero => rfl
  | succ k ih =>
    rw [List.replicate_succ, List.cons_append]
    exact ih

theorem hexValue_hexText (width n : Nat) : hexValue (hexText width n).toList = n := by
  unfold hexText
  rw [String.toList_ofList, hexValue_zeros_append, hexValue_toDigits]

theorem length_hexText {n : Nat} (h : n < 0x10000) : (hexText 4 n).toList.length = 4 := by
  have short : (Nat.toDigits 16 n).length ≤ 4 :=
    (Nat.length_toDigits_le_iff (by decide) (by decide)).2 h
  unfold hexText
  rw [String.toList_ofList, List.length_append, List.length_replicate]
  omega

theorem readFirst_unit {n : Nat} (h : n < 0x10000) (plain : ¬ (0xD800 ≤ n ∧ n < 0xDC00))
    (rest : List Char) : readFirst ((unit n).toList ++ rest) = some (n, rest) := by
  have digits := length_hexText h
  have value := hexValue_hexText 4 n
  unfold unit
  rw [String.toList_append]
  generalize (hexText 4 n).toList = ds at digits value ⊢
  show readFirst ('\\' :: 'u' :: (ds ++ rest)) = _
  simp only [readFirst, List.take_left' digits, List.drop_left' digits, value, plain, if_false]

/-- A character outside of the basic plane is read back from its two units. -/
theorem readFirst_pair {n : Nat} (low : 0x10000 ≤ n) (high : n < 0x110000) (rest : List Char) :
    readFirst ((units n).toList ++ rest) = some (n, rest) := by
  obtain ⟨first, hf⟩ : ∃ first, 0xD800 + (n - 0x10000) / 0x400 = first := ⟨_, rfl⟩
  obtain ⟨second, hs⟩ : ∃ second, 0xDC00 + (n - 0x10000) % 0x400 = second := ⟨_, rfl⟩
  have upper : 0xD800 ≤ first ∧ first < 0xDC00 := by omega
  have firstDigits := length_hexText (n := first) (by omega)
  have secondDigits := length_hexText (n := second) (by omega)
  have firstValue := hexValue_hexText 4 first
  have secondValue := hexValue_hexText 4 second
  unfold units
  rw [if_neg (by omega), hf, hs]
  unfold unit
  simp only [String.toList_append, List.append_assoc]
  generalize (hexText 4 first).toList = ds at firstDigits firstValue ⊢
  generalize (hexText 4 second).toList = es at secondDigits secondValue ⊢
  have behind : (ds ++ '\\' :: 'u' :: (es ++ rest)).drop 6 = es ++ rest := by
    rw [List.drop_append, firstDigits, List.drop_of_length_le (by omega)]
    rfl
  have done : (ds ++ '\\' :: 'u' :: (es ++ rest)).drop 10 = rest := by
    rw [show 10 = 6 + 4 from rfl, ← List.drop_drop, behind, List.drop_left' secondDigits]
  show readFirst ('\\' :: 'u' :: (ds ++ '\\' :: 'u' :: (es ++ rest))) = _
  simp only [readFirst, List.take_left' firstDigits, behind, done, List.take_left' secondDigits,
    firstValue, secondValue, upper, and_self, if_true, Option.some.injEq, Prod.mk.injEq, and_true]
  omega

theorem toNat_lt (c : Char) : c.toNat < 0x110000 ∧ ¬ (0xD800 ≤ c.toNat ∧ c.toNat < 0xE000) := by
  have valid := c.valid
  unfold UInt32.isValidChar Nat.isValidChar at valid
  have same : c.toNat = c.val.toNat := rfl
  omega

/-- The first character of an escaped text is read back. -/
theorem readFirst_escape (c : Char) (rest : List Char) :
    readFirst ((escape c).toList ++ rest) = some (c.toNat, rest) := by
  unfold escape
  by_cases quote : c = '"' ∨ c = '\\'
  · rw [if_pos quote, String.toList_ofList]
    rcases quote with rfl | rfl <;> rfl
  rw [if_neg quote]
  split_ifs with newline ret tab backspace feed printable
  · rw [newline]
    rfl
  · rw [ret]
    rfl
  · rw [tab]
    rfl
  · rw [backspace]
    rfl
  · rw [feed]
    rfl
  · rw [String.toList_singleton]
    have plain : c ≠ '\\' := fun h => quote (.inr h)
    show readFirst (c :: rest) = _
    simp [readFirst, plain]
  · have valid := toNat_lt c
    by_cases basic : c.toNat < 0x10000
    · unfold units
      rw [if_pos basic]
      exact readFirst_unit basic (by omega) rest
    · exact readFirst_pair (by omega) valid.1 rest

/-- The written form of a run of characters. -/
def text (cs : List Char) : List Char := cs.flatMap fun c => (escape c).toList

@[simp] theorem text_cons (c : Char) (cs : List Char) :
    text (c :: cs) = (escape c).toList ++ text cs := List.flatMap_cons

/-- No written form is that of two runs, since the first character is read back from it. -/
theorem text_inj {cs ds : List Char} (h : text cs = text ds) : cs = ds := by
  induction cs generalizing ds with
  | nil =>
    cases ds with
    | nil => rfl
    | cons d ds =>
      have first := readFirst_escape d (text ds)
      rw [← text_cons, ← h] at first
      exact nomatch first
  | cons c cs ih =>
    have first := readFirst_escape c (text cs)
    rw [← text_cons, h] at first
    cases ds with
    | nil => exact nomatch first
    | cons d ds =>
      rw [text_cons, readFirst_escape, Option.some.injEq, Prod.mk.injEq] at first
      rw [ih first.2.symm, Char.toNat_inj.1 first.1]

end Escaped

theorem escaped_toList (s : String) :
    (escaped s).toList = '"' :: (Escaped.text s.toList ++ ['"']) := by
  unfold escaped Escaped.text
  simp [String.toList_join, List.flatMap_map]

theorem escaped_inj {s t : String} (h : escaped s = escaped t) : s = t := by
  have chars := congrArg String.toList h
  rw [escaped_toList, escaped_toList, List.cons.injEq] at chars
  exact String.toList_inj.1 (Escaped.text_inj (List.append_cancel_right chars.2))

/-! ## Numbers -/

namespace Binary64

/-- An integral number stands at the place of its integer. -/
theorem place_of_toInt? {x : Binary64} {i : Int} (h : x.toInt? = some i) :
    (Number.float x).place = some (0, i * one) := by
  rcases x with p | s | ⟨s, m, e, canonical⟩
  · cases h
  · cases h
  · simp only [toInt?] at h
    split at h
    · rename_i whole
      obtain ⟨k, hk⟩ := Nat.dvd_of_mod_eq_zero whole
      rw [hk, Nat.mul_div_cancel_left _ one_pos, Option.some.injEq] at h
      rw [Number.place_finite, signed, hk, ← h, Nat.cast_mul, mul_comm (one : ℤ)]
      cases s with
      | false => rw [if_neg Bool.false_ne_true, if_neg Bool.false_ne_true]
      | true => rw [if_pos rfl, if_pos rfl, neg_mul]
    · cases h

/-- The written form of a number has a character that is in no integer's digits. -/
theorem render_marked {x : Binary64} (h : x.isNaN = false) :
    ∃ c ∈ (x.render Number.codeStyle).toList, c.isDigit = false ∧ c ≠ '-' := by
  rcases x with p | negative | ⟨negative, m, e, canonical⟩
  · exact absurd h (by simp [isNaN])
  · cases negative <;> exact ⟨'I', by decide, rfl, by decide⟩
  · obtain ⟨d, layout, -⟩ := magnitude_layout Number.codeStyle canonical
    rw [render_finite, String.toList_append]
    rcases layout.marked with point | power
    · exact ⟨'.', List.mem_append_right _ point, rfl, by decide⟩
    · exact ⟨'e', List.mem_append_right _ power, rfl, by decide⟩

end Binary64

namespace Number

/-- Whether it is not a number. -/
def isNaN : Number → Bool
  | .int _ => false
  | .float x => x.isNaN

theorem place_collapse (n : Number) : n.collapse.place = n.place := by
  rcases n with i | x
  · rfl
  · cases h : x.toInt? with
    | none => simp only [collapse, h]
    | some i =>
      simp only [collapse, h]
      exact (Binary64.place_of_toInt? h).symm

theorem same_collapse (a b : Number) : a.collapse.same b.collapse = a.same b := by
  simp only [same, place_collapse]

theorem isNaN_collapse (n : Number) : n.collapse.isNaN = n.isNaN := by
  rcases n with i | x
  · rfl
  · rcases x with p | s | ⟨s, m, e, canonical⟩
    · rfl
    · rfl
    · cases h : (Binary64.finite s m e canonical).toInt? with
      | none => simp only [collapse, h]
      | some i =>
        simp only [collapse, h]
        rfl

/-- What is a number is the same as itself. -/
theorem same_self {n : Number} (h : n.isNaN = false) : n.same n = true := by
  rw [same_iff]
  rcases n with i | p | s | ⟨s, m, e, canonical⟩
  · exact ⟨_, rfl, rfl⟩
  · exact absurd h (by simp [isNaN, Binary64.isNaN])
  · exact ⟨_, rfl, rfl⟩
  · exact ⟨_, rfl, rfl⟩

/-- An integer is written with its digits, and a sign if it is negative. -/
theorem toList_toString (i : Int) : (toString i).toList =
    if i < 0 then '-' :: Nat.toDigits 10 i.natAbs else Nat.toDigits 10 i.natAbs := by
  have digits (n : Nat) : (Nat.repr n).toList = Nat.toDigits 10 n := String.toList_ofList
  cases i with
  | ofNat n => exact digits n
  | negSucc n =>
    rw [if_pos (Int.negSucc_lt_zero n)]
    show ("-" ++ Nat.repr (n + 1)).toList = _
    rw [String.toList_append, digits]
    rfl

theorem mem_toString {i : Int} : ∀ c ∈ (toString i).toList, c.isDigit = true ∨ c = '-' := by
  intro c hc
  rw [toList_toString] at hc
  split at hc
  · exact (List.mem_cons.1 hc).symm.imp (Decimal.isDigit_of_mem_toDigits c) id
  · exact .inl (Decimal.isDigit_of_mem_toDigits c hc)

theorem toString_inj {i j : Int} (h : toString i = toString j) : i = j := by
  have sign {n : Nat} {rest : List Char} : Nat.toDigits 10 n ≠ '-' :: rest := by
    intro same
    have digit := Decimal.isDigit_of_mem_toDigits '-' (same ▸ List.mem_cons_self)
    exact absurd digit (by decide)
  have magnitude {m n : Nat} (same : Nat.toDigits 10 m = Nat.toDigits 10 n) : m = n := by
    rw [← Binary64.digitsValue_toDigits m, same, Binary64.digitsValue_toDigits]
  have chars := congrArg String.toList h
  rw [toList_toString, toList_toString] at chars
  split_ifs at chars
  · have := magnitude (List.cons.inj chars).2
    omega
  · exact absurd chars.symm sign
  · exact absurd chars sign
  · have := magnitude chars
    omega

/-- The written form of a number tells it from every other. -/
theorem render_inj {a b : Number} (ha : a.isNaN = false) (hb : b.isNaN = false)
    (h : a.render codeStyle = b.render codeStyle) : a = b := by
  -- An integer's text lacks what a binary64's text has.
  have apart {i : Int} {x : Binary64} (hx : x.isNaN = false) :
      toString i ≠ x.render codeStyle := by
    intro same
    obtain ⟨c, hc, digit, sign⟩ := Binary64.render_marked hx
    rw [← same] at hc
    rcases mem_toString c hc with isDigit | isSign
    · exact absurd (digit.symm.trans isDigit) Bool.false_ne_true
    · exact sign isSign
  rcases a with i | x <;> rcases b with j | y
  · rw [toString_inj h]
  · exact absurd h (apart hb)
  · exact absurd h.symm (apart ha)
  · have read := Binary64.read?_render ha
    rw [show x.render codeStyle = y.render codeStyle from h, Binary64.read?_render hb] at read
    rw [Option.some.inj read]

/-- A written number begins with a digit or a sign, unless it is infinite. -/
theorem head_render {n : Number} (h : n.isNaN = false) {first : Char}
    (digit : first.isDigit = false) (sign : first ≠ '-') (infinity : first ≠ 'I') :
    first ∉ (n.render codeStyle).toList.head? := by
  rcases n with i | p | negative | ⟨negative, m, e, canonical⟩
  · intro head
    rcases mem_toString _ (List.mem_of_mem_head? head) with isDigit | isSign
    · exact absurd (digit.symm.trans isDigit) Bool.false_ne_true
    · exact sign isSign
  · exact absurd h (by simp [isNaN, Binary64.isNaN])
  · cases negative
    · exact fun head => infinity (Option.some.inj head).symm
    · exact fun head => sign (Option.some.inj head).symm
  · obtain ⟨d, layout, -⟩ := Binary64.magnitude_layout codeStyle canonical
    obtain ⟨c, hc, isDigit⟩ := layout.starts
    show first ∉ ((Binary64.finite negative m e canonical).render codeStyle).toList.head?
    rw [Binary64.render_finite, String.toList_append]
    cases negative
    · intro head
      obtain rfl : c = first := Option.some.inj (hc.symm.trans head)
      exact absurd (digit.symm.trans isDigit) Bool.false_ne_true
    · exact fun head => sign (Option.some.inj head).symm

end Number

/-! ## Keys -/

namespace Value

theorem isAddress_cases {v : Value} (h : v.isAddress = true) :
    (∃ s, v = .scalar (.text s)) ∨ ∃ n : Number, n.isNaN = false ∧ v = .scalar (.number n) := by
  rcases v with s | items | fields
  · rcases s with _ | b | n | t
    · cases h
    · cases h
    · refine .inr ⟨n, ?_, rfl⟩
      rcases n with i | x
      · rfl
      · simpa [isAddress, Number.isNaN] using h
    · exact .inl ⟨t, rfl⟩
  · cases h
  · cases h

/-- A number's code is no text's, which begins with a quote. -/
theorem code_number_ne_escaped {n : Number} (h : n.isNaN = false) (s : String) :
    (Value.scalar (.number n)).code ≠ escaped s := by
  intro same
  apply Number.head_render (n.isNaN_collapse.trans h) (by decide : '"'.isDigit = false) (by decide)
    (by decide)
  rw [show n.collapse.render Number.codeStyle = escaped s from same, escaped_toList]
  rfl

/-- Two keys have one code exactly when they are the same value. -/
theorem code_eq_iff {a b : Value} (ha : a.isAddress = true) (hb : b.isAddress = true) :
    a.code = b.code ↔ a.same b = true := by
  refine ⟨fun h => ?_, fun h => (isAddress_of_same (isKey_of_isAddress hb) h).2⟩
  obtain ⟨s, rfl⟩ | ⟨m, hm, rfl⟩ := isAddress_cases ha <;>
    obtain ⟨t, rfl⟩ | ⟨n, hn, rfl⟩ := isAddress_cases hb
  · obtain rfl : s = t := escaped_inj h
    simp [same, toTerm, Term.same, Scalar.same]
  · exact absurd h.symm (code_number_ne_escaped hn s)
  · exact absurd h (code_number_ne_escaped hm t)
  · have one : m.collapse = n.collapse :=
      Number.render_inj (m.isNaN_collapse.trans hm) (n.isNaN_collapse.trans hn) h
    have same : m.same n = true := by
      rw [← Number.same_collapse, one]
      exact Number.same_self (n.isNaN_collapse.trans hn)
    simpa [Value.same, toTerm, Term.same, Scalar.same] using same

/-- What is not a number does not have the code of a key that addresses a document. -/
theorem isAddress_of_code {v key : Value} (hv : v.isAddress = true) (hk : key.isKey = true)
    (h : v.code = key.code) : key.isAddress = true := by
  have invalid : ∀ p, v.code ≠ (Value.scalar (.number (.float (.nan p)))).code := by
    intro p same
    have first : 'N' ∈ v.code.toList.head? := by
      rw [same]
      exact (rfl : "NaN".toList.head? = some 'N')
    obtain ⟨s, rfl⟩ | ⟨n, hn, rfl⟩ := isAddress_cases hv
    · rw [show (Value.scalar (.text s)).code = escaped s from rfl, escaped_toList] at first
      exact absurd (Option.some.inj first) (by decide)
    · exact Number.head_render (n.isNaN_collapse.trans hn) (by decide : 'N'.isDigit = false)
        (by decide) (by decide) first
  rcases key with (_ | b | (i | p | s | x) | t) | items | fields
  · exact hk
  · exact hk
  · rfl
  · exact absurd h (invalid p)
  · rfl
  · rfl
  · rfl
  · exact hk
  · exact hk

end Value

end Folio
