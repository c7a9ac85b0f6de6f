import Folio.Proofs.Grammar
import Folio.Proofs.Sameness
import Mathlib.Data.EReal.Basic
/-!
# What values say

The content of a document value is what it says: null, a boolean, a number that is exactly this or
that, a text, one content after another, or contents under labels. It does not know how a number was
written, whether a row of items was a list or a tuple, and in which order the fields came. Values
without NaN are the same exactly if they have one content. So sameness is an equivalence, validation
leaves a value what it says, and in the middle of a value a part may be exchanged for the same.
-/

namespace Folio

/-! ## Numbers -/

namespace Number

/-- The exact value of a number, infinities included; what is not a number has none. -/
noncomputable def value? : Number → Option EReal
  | .int i => some ((i : ℝ) : EReal)
  | .float (.nan _) => none
  | .float (.infinite negative) => some (if negative then ⊥ else ⊤)
  | .float (.finite negative significand exponent _) =>
    some (((if negative then -1 else 1) * significand * 2 ^ ((exponent : ℤ) - 1074) : ℝ) : EReal)

/-- The value at a place. -/
noncomputable def valueAt (p : Int × Int) : EReal :=
  if p.1 < 0 then ⊥ else if 0 < p.1 then ⊤ else ((p.2 * 2 ^ (-1074 : ℤ) : ℝ) : EReal)

theorem valueAt_units (units : Int) :
    valueAt (0, units) = ((units * 2 ^ (-1074 : ℤ) : ℝ) : EReal) := by
  simp only [valueAt, lt_self_iff_false, if_false]

/-- There are as many units in one as a unit is small. -/
theorem one_mul_unit : (Binary64.one : ℝ) * 2 ^ (-1074 : ℤ) = 1 := by
  have inverse : ∀ k : Nat, ((Nat.pow 2 k : Nat) : ℝ) * 2 ^ (-(k : ℤ)) = 1 := by
    intro k
    rw [Nat.pow_eq, Nat.cast_pow, Nat.cast_two, zpow_neg, zpow_natCast]
    exact mul_inv_cancel₀ (pow_ne_zero _ two_ne_zero)
  exact inverse 1074

theorem value?_eq (n : Number) : n.value? = n.place.map valueAt := by
  rcases n with i | p | negative | ⟨negative, m, e, canonical⟩
  · rw [value?, place_int, Option.map_some, valueAt_units, Int.cast_mul, Int.cast_natCast,
      mul_assoc, one_mul_unit, mul_one]
  · rfl
  · cases negative <;> simp [value?, valueAt]
  · have units : (Binary64.signed negative m e : ℝ) * 2 ^ (-1074 : ℤ) =
        (if negative then -1 else 1) * m * 2 ^ ((e : ℤ) - 1074) := by
      rw [sub_eq_add_neg, zpow_add₀ two_ne_zero, zpow_natCast]
      cases negative <;> simp [Binary64.signed, Nat.pow_eq, mul_assoc]
    rw [value?, place_finite, Option.map_some, valueAt_units, units]

/-- The places are those of the finite numbers and the two ends. -/
theorem place_cases {n : Number} {p : Int × Int} (h : n.place = some p) :
    p = (-1, 0) ∨ p = (1, 0) ∨ ∃ units, p = (0, units) := by
  rcases n with i | payload | negative | ⟨negative, m, e, canonical⟩
  · cases h
    exact .inr (.inr ⟨_, rfl⟩)
  · cases h
  · cases h
    cases negative
    · exact .inr (.inl rfl)
    · exact .inl rfl
  · cases h
    exact .inr (.inr ⟨_, rfl⟩)

/-- Values tell places apart. -/
theorem eq_of_valueAt {m n : Number} {p q : Int × Int} (hp : m.place = some p)
    (hq : n.place = some q) (h : valueAt p = valueAt q) : p = q := by
  have bot : valueAt (-1, 0) = ⊥ := rfl
  have top : valueAt (1, 0) = ⊤ := rfl
  rcases place_cases hp with rfl | rfl | ⟨u, rfl⟩ <;>
    rcases place_cases hq with rfl | rfl | ⟨v, rfl⟩ <;>
    simp only [bot, top, valueAt_units, bot_ne_top, top_ne_bot, EReal.bot_ne_coe, EReal.coe_ne_bot,
      EReal.top_ne_coe, EReal.coe_ne_top, EReal.coe_eq_coe_iff] at h
  · rfl
  · rfl
  · rw [Int.cast_inj.1 (mul_right_cancel₀ (zpow_ne_zero _ two_ne_zero) h)]

/-- Numbers are the same exactly if they have one value, at any magnitude and in either form. -/
theorem same_iff_value {m n : Number} :
    m.same n = true ↔ ∃ x, m.value? = some x ∧ n.value? = some x := by
  rw [same_iff]
  constructor
  · rintro ⟨p, hm, hn⟩
    exact ⟨valueAt p, by rw [value?_eq, hm]; rfl, by rw [value?_eq, hn]; rfl⟩
  · rintro ⟨x, hm, hn⟩
    rw [value?_eq, Option.map_eq_some_iff] at hm hn
    obtain ⟨p, hp, rfl⟩ := hm
    obtain ⟨q, hq, h⟩ := hn
    exact ⟨p, hp, by rw [hq, eq_of_valueAt hq hp h]⟩

theorem exists_value {n : Number} (h : n.isNaN = false) : ∃ x, n.value? = some x := by
  obtain ⟨x, own, -⟩ := same_iff_value.1 (same_self h)
  exact ⟨x, own⟩

/-- But for NaN, numbers are the same exactly if their values agree. -/
theorem same_iff_value_eq {m n : Number} (h : m.isNaN = false) :
    m.same n = true ↔ m.value? = n.value? := by
  obtain ⟨x, own⟩ := exists_value h
  rw [same_iff_value, own]
  exact ⟨fun ⟨y, eq, hn⟩ => eq.trans hn.symm, fun hn => ⟨x, rfl, hn.symm⟩⟩

end Number

/-! ## Contents -/

/-- What a document value says. -/
inductive Content where
  | null
  | bool (b : Bool)
  | number (x : Option EReal)
  | text (s : String)
  | list (items : List Content)
  | object (fields : String → Option Content)

/-- What a scalar says. -/
noncomputable def Scalar.content : Scalar → Content
  | .null => .null
  | .bool b => .bool b
  | .number n => .number n.value?
  | .text s => .text s

theorem Scalar.same_iff_content {s t : Scalar} (h : s.isNaN = false) :
    s.same t = true ↔ s.content = t.content := by
  cases s <;> cases t <;> simp only [same, content, Bool.false_eq_true, beq_iff_eq, reduceCtorEq,
    Content.bool.injEq, Content.number.injEq, Content.text.injEq]
  exact Number.same_iff_value_eq h

namespace Term

mutual

/-- What a term says as a document value; what no document holds says nothing. -/
noncomputable def content : Term → Content
  | .scalar s => s.content
  | .list items => .list (contents items)
  | .tuple items => .list (contents items)
  | .mapping entries => .object (contentUnder entries)
  | _ => .null

/-- What the items say. -/
noncomputable def contents : List Term → List Content
  | [] => []
  | item :: rest => item.content :: contents rest

/-- What entries say under a label. -/
noncomputable def contentUnder : List (Term × Term) → String → Option Content
  | [], _ => none
  | (key, value) :: rest, label =>
    if key == text label then some value.content else contentUnder rest label

end

/-- A document value without NaN: scalars, lists and tuples, and mappings with labels, each once. -/
inductive IsComparable : Term → Prop
  | scalar {s : Scalar} (number : s.isNaN = false) : IsComparable (.scalar s)
  | list {items : List Term} (each : ∀ t ∈ items, IsComparable t) : IsComparable (.list items)
  | tuple {items : List Term} (each : ∀ t ∈ items, IsComparable t) : IsComparable (.tuple items)
  | mapping {entries : List (Term × Term)} (keyed : AreKeyed entries)
      (each : ∀ e ∈ entries, IsComparable e.2) : IsComparable (.mapping entries)

variable {a b t : Term} {items others : List Term} {entries xs ys : List (Term × Term)}

theorem contents_eq (items : List Term) : contents items = items.map content := by
  induction items with
  | nil => rfl
  | cons item rest ih => rw [contents, ih, List.map_cons]

theorem contentUnder_eq (entries : List (Term × Term)) (label : String) :
    contentUnder entries label = (Entries.find? entries (text label)).map content := by
  induction entries with
  | nil => rfl
  | cons e rest ih =>
    rw [contentUnder, Entries.find?_cons, ih]
    split <;> rfl

/-- Entries say the same if they have the same keys and say the same there. -/
theorem contentUnder_congr (h : (xs.map fun e => (e.1, e.2.content)) =
    ys.map fun e => (e.1, e.2.content)) : contentUnder xs = contentUnder ys := by
  have found : ∀ entries label, contentUnder entries label =
      Entries.find? (entries.map fun e => (e.1, e.2.content)) (text label) := by
    intro entries label
    induction entries with
    | nil => rfl
    | cons e rest ih => rw [contentUnder, List.map_cons, Entries.find?_cons, ih]
  funext label
  rw [found, found, h]

/-! ## Sameness is having one content -/

@[simp] theorem same_tuple_left (items : List Term) (b : Term) :
    (tuple items).same b = (list items).same b := by
  cases b <;> rfl

@[simp] theorem same_tuple_right (a : Term) (items : List Term) :
    a.same (tuple items) = a.same (list items) := by
  cases a <;> rfl

theorem sameItems_iff_contents (each : ∀ t ∈ items, ∀ b : Term, b.IsComparable →
      (t.same b = true ↔ t.content = b.content))
    (comparable : ∀ t ∈ others, t.IsComparable) :
    sameItems items others = true ↔ contents items = contents others := by
  induction items generalizing others with
  | nil => cases others <;> simp [sameItems, contents]
  | cons item rest ih =>
    cases others with
    | nil => simp [sameItems, contents]
    | cons other more =>
      obtain ⟨first, later⟩ := List.forall_mem_cons.1 each
      obtain ⟨here, there⟩ := List.forall_mem_cons.1 comparable
      rw [sameItems, contents, contents, List.cons.injEq, Bool.and_eq_true_iff, first other here,
        ih later there]

theorem same_list_iff_content (each : ∀ t ∈ items, ∀ b : Term, b.IsComparable →
      (t.same b = true ↔ t.content = b.content)) (hb : b.IsComparable) :
    (list items).same b = true ↔ (list items).content = b.content := by
  cases hb with
  | @scalar s => cases s <;> simp [same, content, Scalar.content]
  | list comparable =>
    rw [content, content, Content.list.injEq]
    exact sameItems_iff_contents each comparable
  | tuple comparable =>
    rw [same_tuple_right, content, content, Content.list.injEq]
    exact sameItems_iff_contents each comparable
  | mapping => simp [same, content]

theorem same_mapping_iff_content (keyed : AreKeyed entries)
    (each : ∀ e ∈ entries, ∀ b : Term, b.IsComparable →
      (e.2.same b = true ↔ e.2.content = b.content)) (hb : b.IsComparable) :
    (mapping entries).same b = true ↔ (mapping entries).content = b.content := by
  cases hb with
  | @scalar s => cases s <;> simp [same, content, Scalar.content]
  | @mapping others others_keyed comparable =>
    rw [same_mapping_iff keyed others_keyed, content, content, Content.object.injEq, funext_iff]
    refine forall_congr' fun label => ?_
    rw [contentUnder_eq, contentUnder_eq]
    cases one : Entries.find? entries (text label) <;>
      cases other : Entries.find? others (text label)
    case some.some s t =>
      rw [SameAt, Option.rel_some_some, Option.map_some, Option.map_some, Option.some.injEq]
      exact each _ (mem_of_find? one) t (comparable _ (mem_of_find? other))
    all_goals simp
  | _ => simp [same, content]

/-- Values without NaN are the same exactly if they say the same. -/
theorem same_iff_content (ha : a.IsComparable) (hb : b.IsComparable) :
    a.same b = true ↔ a.content = b.content := by
  induction ha generalizing b with
  | @scalar s number =>
    cases hb with
    | scalar => exact Scalar.same_iff_content number
    | _ => cases s <;> simp [same, content, Scalar.content]
  | list _ ih => exact same_list_iff_content (fun t ht b hb => ih t ht hb) hb
  | tuple _ ih =>
    rw [same_tuple_left]
    exact same_list_iff_content (fun t ht b hb => ih t ht hb) hb
  | mapping keyed _ ih => exact same_mapping_iff_content keyed (fun e he b hb => ih e he hb) hb

theorem same_equivalence :
    Equivalence fun a b : {t : Term // t.IsComparable} => a.1.same b.1 = true where
  refl a := (same_iff_content a.2 a.2).2 rfl
  symm {a b} h := (same_iff_content b.2 a.2).2 ((same_iff_content a.2 b.2).1 h).symm
  trans {a b c} h k := (same_iff_content a.2 c.2).2
    (((same_iff_content a.2 b.2).1 h).trans ((same_iff_content b.2 c.2).1 k))

/-! ## What makes no difference -/

theorem find?_perm (nodup : (labels xs).Nodup) (order : xs.Perm ys) (label : String) :
    Entries.find? xs (text label) = Entries.find? ys (text label) := by
  have others_nodup : (labels ys).Nodup := (order.filterMap _).nodup_iff.1 nodup
  refine Option.ext fun value => ?_
  rw [find?_eq_some_iff nodup, find?_eq_some_iff others_nodup, order.mem_iff]

theorem AreKeyed.perm (h : AreKeyed xs) (order : xs.Perm ys) : AreKeyed ys where
  keys e he := h.keys e (order.mem_iff.2 he)
  nodup := (order.filterMap _).nodup_iff.1 h.nodup

/-- Fields in another order say the same. -/
theorem same_perm (h : (mapping xs).IsComparable) (order : xs.Perm ys) :
    (mapping ys).IsComparable ∧ (mapping xs).same (mapping ys) = true := by
  cases id h with
  | mapping keyed each =>
    have there : (mapping ys).IsComparable :=
      .mapping (keyed.perm order) fun e he => each e (order.mem_iff.2 he)
    refine ⟨there, (same_iff_content h there).2 (congrArg Content.object (funext fun label => ?_))⟩
    rw [contentUnder_eq, contentUnder_eq, find?_perm keyed.nodup order]

theorem same_scalar_container (s : Scalar) (h : t.isContainer = true) :
    (scalar s).same t = false ∧ t.same (scalar s) = false := by
  cases t with
  | list | tuple | mapping => exact ⟨rfl, rfl⟩
  | _ => cases h

/-! ## Validation -/

theorem IsComparable.isDocumentary (h : t.IsComparable) : t.IsDocumentary := by
  induction h with
  | scalar _ => exact .scalar _
  | list _ ih => exact .list ih
  | tuple _ ih => exact .tuple ih
  | mapping keyed _ ih => exact .mapping keyed.keys ih

theorem AreKeyed.listed (h : AreKeyed entries) : AreKeyed (listedEntries entries) := by
  refine ⟨?_, (labels_listedEntries entries).symm ▸ h.nodup⟩
  rw [listedEntries_eq, List.forall_mem_map]
  exact h.keys

/-- With lists for tuples a value is one without NaN again, and says the same. -/
theorem IsComparable.listed (h : t.IsComparable) :
    t.listed.IsComparable ∧ t.listed.content = t.content := by
  induction h with
  | scalar number => exact ⟨.scalar number, rfl⟩
  | @list items _ ih | @tuple items _ ih =>
    have each : ∀ t ∈ listedItems items, t.IsComparable := by
      rw [listedItems_eq, List.forall_mem_map]
      exact fun t ht => (ih t ht).1
    refine ⟨.list each, congrArg Content.list ?_⟩
    rw [listedItems_eq, contents_eq, contents_eq, List.map_map]
    exact List.map_congr_left fun t ht => (ih t ht).2
  | @mapping entries keyed _ ih =>
    have each : ∀ e ∈ listedEntries entries, e.2.IsComparable := by
      rw [listedEntries_eq, List.forall_mem_map]
      exact fun e he => (ih e he).1
    refine ⟨.mapping keyed.listed each, congrArg Content.object (contentUnder_congr ?_)⟩
    rw [listedEntries_eq, List.map_map]
    exact List.map_congr_left fun e he => Prod.ext rfl (ih e he).2

/-- A value without NaN is accepted, and what it is accepted as says the same. -/
theorem IsComparable.validate (h : t.IsComparable) (path : String) :
    ∃ v, t.validate path = .ok v ∧ v.toTerm.IsComparable ∧ v.toTerm.content = t.content := by
  obtain ⟨v, hv⟩ := h.isDocumentary.isValid path
  refine ⟨v, hv, ?_⟩
  rw [(accepted_of_validate t path v hv).2]
  exact h.listed

/-! ## Replacing a part -/

/-- A term with a gap in it, at any depth. -/
inductive Gapped where
  | gap
  | list (before : List Term) (inner : Gapped) (after : List Term)
  | tuple (before : List Term) (inner : Gapped) (after : List Term)
  | mapping (before : List (Term × Term)) (key : Term) (inner : Gapped)
      (after : List (Term × Term))

/-- The term with another one in the gap. -/
def Gapped.fill (t : Term) : Gapped → Term
  | .gap => t
  | .list before inner after => .list (before ++ inner.fill t :: after)
  | .tuple before inner after => .tuple (before ++ inner.fill t :: after)
  | .mapping before key inner after => .mapping (before ++ (key, inner.fill t) :: after)

/-- What a term says as a whole depends on what its parts say. -/
theorem Gapped.content_fill (c : Gapped) (h : a.content = b.content) :
    (c.fill a).content = (c.fill b).content := by
  induction c with
  | gap => exact h
  | list before inner after ih | tuple before inner after ih =>
    refine congrArg Content.list ?_
    simp only [contents_eq, List.map_append, List.map_cons, ih]
  | mapping before key inner after ih =>
    refine congrArg Content.object (contentUnder_congr ?_)
    simp only [List.map_append, List.map_cons, ih]

theorem forall_mem_around {α : Type} {p : α → Prop} {before after : List α} {x : α} :
    (∀ t ∈ before ++ x :: after, p t) ↔ (∀ t ∈ before, p t) ∧ p x ∧ ∀ t ∈ after, p t := by
  rw [List.forall_mem_append, List.forall_mem_cons]

theorem AreKeyed.replace {before after : List (Term × Term)} {key value : Term}
    (h : AreKeyed (before ++ (key, value) :: after)) (t : Term) :
    AreKeyed (before ++ (key, t) :: after) where
  keys := by
    have keys := h.keys
    rw [forall_mem_around] at keys ⊢
    exact keys
  nodup := by
    simpa only [labels, List.filterMap_append, List.filterMap_cons] using h.nodup

/-- A part of a value without NaN is one, and may be exchanged for another. -/
theorem Gapped.isComparable_fill (c : Gapped) (h : (c.fill a).IsComparable) :
    a.IsComparable ∧ (b.IsComparable → (c.fill b).IsComparable) := by
  induction c with
  | gap => exact ⟨h, id⟩
  | list before inner after ih =>
    cases h with
    | list each =>
      obtain ⟨left, here, right⟩ := forall_mem_around.1 each
      obtain ⟨ha, filled⟩ := ih here
      exact ⟨ha, fun hb => .list (forall_mem_around.2 ⟨left, filled hb, right⟩)⟩
  | tuple before inner after ih =>
    cases h with
    | tuple each =>
      obtain ⟨left, here, right⟩ := forall_mem_around.1 each
      obtain ⟨ha, filled⟩ := ih here
      exact ⟨ha, fun hb => .tuple (forall_mem_around.2 ⟨left, filled hb, right⟩)⟩
  | mapping before key inner after ih =>
    cases h with
    | mapping keyed each =>
      obtain ⟨left, here, right⟩ := forall_mem_around.1 each
      obtain ⟨ha, filled⟩ := ih here
      exact ⟨ha, fun hb =>
        .mapping (keyed.replace _) (forall_mem_around.2 ⟨left, filled hb, right⟩)⟩

/-- A part may be exchanged for the same anywhere inside. -/
theorem same_fill (c : Gapped) (h : (c.fill a).IsComparable) (hb : b.IsComparable)
    (same : a.same b = true) :
    (c.fill b).IsComparable ∧ (c.fill a).same (c.fill b) = true := by
  obtain ⟨ha, filled⟩ := c.isComparable_fill (b := b) h
  refine ⟨filled hb, (same_iff_content h (filled hb)).2 (c.content_fill ?_)⟩
  exact (same_iff_content ha hb).1 same

/-! ## The whole relation -/

/-- Among document values without NaN, sameness is an equivalence. It takes no notice of the order
of fields and of tuples as against lists, keeps booleans from numbers and scalars from containers,
and tells numbers by their exact values. A value with a part exchanged for the same is the same. A
value is the same as the one that it is accepted as, and it does not matter which is compared. -/
theorem same_equates :
    (Equivalence fun a b : {t : Term // t.IsComparable} => a.1.same b.1 = true) ∧
      (∀ xs ys : List (Term × Term), (mapping xs).IsComparable → xs.Perm ys →
        (mapping xs).same (mapping ys) = true) ∧
      (∀ (items : List Term) (t : Term), (tuple items).same t = (list items).same t ∧
        t.same (tuple items) = t.same (list items)) ∧
      (∀ (b : Bool) (n : Number), (scalar (.bool b)).same (scalar (.number n)) = false ∧
        (scalar (.number n)).same (scalar (.bool b)) = false) ∧
      (∀ (s : Scalar) (t : Term), t.isContainer = true →
        (scalar s).same t = false ∧ t.same (scalar s) = false) ∧
      (∀ m n : Number, (scalar (.number m)).same (scalar (.number n)) = true ↔
        ∃ x, m.value? = some x ∧ n.value? = some x) ∧
      (∀ (c : Gapped) (a b : Term), (c.fill a).IsComparable → b.IsComparable → a.same b = true →
        (c.fill b).IsComparable ∧ (c.fill a).same (c.fill b) = true) ∧
      ∀ a b : Term, a.IsComparable → b.IsComparable → ∀ here there, ∃ v w,
        a.validate here = .ok v ∧ b.validate there = .ok w ∧
        a.same v.toTerm = true ∧ v.same w = a.same b := by
  refine ⟨same_equivalence, fun xs ys h order => (same_perm h order).2,
    fun items t => ⟨same_tuple_left items t, same_tuple_right t items⟩, fun _ _ => ⟨rfl, rfl⟩,
    fun s t => same_scalar_container s, fun m n => Number.same_iff_value,
    fun c a b => same_fill c, fun a b ha hb here there => ?_⟩
  obtain ⟨v, hv, comparable, alike⟩ := ha.validate here
  obtain ⟨w, hw, others_comparable, others_alike⟩ := hb.validate there
  refine ⟨v, w, hv, hw, (same_iff_content ha comparable).2 alike.symm, Bool.eq_iff_iff.2 ?_⟩
  rw [Value.same, same_iff_content comparable others_comparable, alike, others_alike,
    same_iff_content ha hb]

example : (mapping [(text "stars", int 1), (text "tags", tuple [null])]).same
    (mapping [(text "tags", list [null]),
      (text "stars", .scalar (.number (.float (.finite false (2 ^ 52) 1022 (by decide)))))]) =
    true := by decide +kernel

end Term

end Folio
