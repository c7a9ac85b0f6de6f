import Folio.Proofs.Sameness
import Folio.Proofs.Verdicts
/-!
# Partial matches and merges

A pattern is a mapping of document values. As a predicate it asks whether a document has all of it,
as a patch it sees to that. The two agree: a document has all of a pattern exactly if merging the
pattern leaves the document the same, and what comes of the merge has all of it. Objects inside
objects are taken apart by both; anything else, lists of objects included, is taken as a whole.
-/

namespace Folio

namespace Value

variable {old fields : List (String × Value)} {label : String} {value : Value}

/-! ## Fields after a merge -/

/-- What a value makes of a field, by what the field held. -/
def laid (old : Option Value) : Value → Value
  | .object fields =>
    match old with
    | some (.object inner) => .object (mergeFields inner fields)
    | _ => .object fields
  | value => value

theorem mergeField_eq (old : List (String × Value)) (label : String) (value : Value) :
    mergeField old label value = Entries.put old label (laid (Entries.find? old label) value) := by
  cases value with
  | object fields =>
    rw [mergeField]
    rcases Entries.find? old label with _ | (s | items | inner) <;> rfl
  | _ => rfl

/-- A field after a merge, by what it held and what the other object has for it. -/
theorem find?_mergeFields (nodup : (fields.map Prod.fst).Nodup) (old : List (String × Value))
    (label : String) :
    Entries.find? (mergeFields old fields) label =
      (Entries.find? fields label).elim (Entries.find? old label)
        fun value => some (laid (Entries.find? old label) value) := by
  induction fields generalizing old with
  | nil => rfl
  | cons e rest ih =>
    obtain ⟨name, value⟩ := e
    obtain ⟨fresh, rest_nodup⟩ := List.nodup_cons.1 nodup
    rw [mergeFields, ih rest_nodup, mergeField_eq, Entries.find?_cons]
    by_cases eq : name = label
    · subst eq
      rw [if_pos (beq_self_eq_true name), Entries.find?_eq_none.2 fresh, Entries.find?_put_self]
      rfl
    · rw [if_neg (by simpa using eq), Entries.find?_put_of_ne _ _ eq]

/-! ## Matches -/

theorem matchEntries_iff {fields entries : List (String × Value)} :
    Predicate.matchEntries (fieldsToEntries fields) (fieldsToEntries entries) = true ↔
      ∀ e ∈ fields, ∃ actual, Entries.find? entries e.1 = some actual ∧
        Predicate.matchValue e.2.toTerm actual.toTerm = true := by
  induction fields with
  | nil => simp [fieldsToEntries, Predicate.matchEntries]
  | cons e rest ih =>
    rw [List.forall_mem_cons, ← ih, fieldsToEntries, Predicate.matchEntries, find?_fieldsToEntries]
    cases Entries.find? entries e.1 with
    | none => simp
    | some actual => simp

/-- An object is left the same by a merge if each of the merged values is one that leaves its field
the same. -/
theorem same_mergeFields_iff (h : (object old).IsSettled) (lacks : fieldsLackNaN old = true)
    (k : (object fields).IsSettled) :
    (object (mergeFields old fields)).same (object old) = true ↔
      ∀ e ∈ fields, ∃ actual, Entries.find? old e.1 = some actual ∧
        (laid (some actual) e.2).same actual = true := by
  have merged : (object (mergeFields old fields)).IsSettled :=
    @Document.IsSettled.merge old fields h k
  rw [same_object_iff merged.1 h.1]
  constructor
  · intro each e he
    have there := each e.1
    rw [find?_mergeFields k.1, Entries.find?_of_mem k.1 he] at there
    cases hf : Entries.find? old e.1 with
    | none =>
      rw [hf] at there
      cases there
    | some actual =>
      rw [hf] at there
      cases there with
      | some same => exact ⟨actual, rfl, same⟩
  · intro each label
    rw [find?_mergeFields k.1]
    cases hv : Entries.find? fields label with
    | some value =>
      obtain ⟨actual, hf, same⟩ := each _ (Entries.mem_of_find? hv)
      rw [show Entries.find? old label = some actual from hf]
      exact .some same
    | none =>
      cases hf : Entries.find? old label with
      | none => exact .none
      | some actual =>
        -- A field that the pattern does not name stays; with NaN in it, it would not be the same.
        exact .some (same_self actual (lacksNaN_of_find? lacks hf) (isSettled_of_find? h.2 hf))

mutual

/-- A value has all of a pattern exactly if the pattern leaves it the same. -/
theorem matchValue_iff : (pattern : Value) → pattern.IsSettled → ∀ actual : Value,
    actual.IsSettled → actual.lacksNaN = true →
      (Predicate.matchValue pattern.toTerm actual.toTerm = true ↔
        (laid (some actual) pattern).same actual = true)
  | .scalar _, h, actual, k, _ => ⟨same_symm _ k _ h, same_symm _ h _ k⟩
  | .list _, h, actual, k, _ => ⟨same_symm _ k _ h, same_symm _ h _ k⟩
  | .object fields, h, actual, k, lacks => by
    cases actual with
    | object inner =>
      show Predicate.matchEntries (fieldsToEntries fields) (fieldsToEntries inner) = true ↔ _
      rw [matchEntries_iff]
      refine Iff.trans ?_ (same_mergeFields_iff k lacks h).symm
      exact matchFields_iff fields h.2 inner k.2 lacks
    | _ => exact ⟨fun h => (nomatch h), fun h => (nomatch h)⟩

theorem matchFields_iff : (fields : List (String × Value)) → SettledFields fields →
    ∀ inner : List (String × Value), SettledFields inner → fieldsLackNaN inner = true →
      ((∀ e ∈ fields, ∃ actual, Entries.find? inner e.1 = some actual ∧
          Predicate.matchValue e.2.toTerm actual.toTerm = true) ↔
        ∀ e ∈ fields, ∃ actual, Entries.find? inner e.1 = some actual ∧
          (laid (some actual) e.2).same actual = true)
  | [], _, _, _, _ => by simp
  | (label, value) :: rest, h, inner, k, lacks => by
    rw [List.forall_mem_cons, List.forall_mem_cons, matchFields_iff rest h.2 inner k lacks]
    refine and_congr_left fun _ => exists_congr fun actual => and_congr_right fun hf => ?_
    exact matchValue_iff value h.1 actual (isSettled_of_find? k hf) (lacksNaN_of_find? lacks hf)

end

end Value

namespace Document

variable {d pattern : Document}

/-- A document has all of a pattern exactly if merging the pattern leaves it the same. -/
theorem match_iff (h : d.IsStable) (k : pattern.IsSettled) :
    Predicate.matchValue pattern.toTerm d.toTerm = true ↔ (d.merge pattern).same d = true :=
  Value.matchValue_iff (.object pattern) k (.object d) h.settled h.lacksNaN

/-- What comes of merging a pattern has all of it. -/
theorem match_merge (h : d.IsStable) (k : pattern.IsStable) :
    Predicate.matchValue pattern.toTerm (d.merge pattern).toTerm = true := by
  have merged := h.merge k
  rw [match_iff merged k.settled, merge_merge h.settled k.settled]
  exact merged.same_self

end Document

namespace Term

/-! ## Patterns as they are given -/

mutual

/-- A pattern asks for the value that it stands for. -/
theorem matchValue_validate : (t : Term) → ∀ path v, t.validate path = .ok v →
    ∀ actual, Predicate.matchValue t actual = Predicate.matchValue v.toTerm actual
  | .scalar _, _, _, rfl, _ => rfl
  | .list items, path, v, h, actual => by
    have same := same_validate (.list items) path v h actual
    obtain ⟨values, -, rfl⟩ := exists_of_map_ok h
    exact same
  | .tuple items, path, v, h, actual => by
    have same := same_validate (.tuple items) path v h actual
    obtain ⟨values, -, rfl⟩ := exists_of_map_ok h
    exact same
  | .mapping entries, path, v, h, actual => by
    obtain ⟨fields, hr, rfl⟩ := exists_of_map_ok h
    cases actual with
    | mapping others => exact matchEntries_validateEntries entries path fields hr others
    | _ => rfl
  | .mark _, _, _, h, _ => nomatch h
  | .literal _, _, _, h, _ => nomatch h
  | .expression .., _, _, h, _ => nomatch h
  | .record .., _, _, h, _ => nomatch h
  | .function _, _, _, h, _ => nomatch h
  | .policy .., _, _, h, _ => nomatch h
  | .resolver .., _, _, h, _ => nomatch h
  | .ownPolicy .., _, _, h, _ => nomatch h
  | .selector _, _, _, h, _ => nomatch h
  | .mutation _, _, _, h, _ => nomatch h
  | .foreign _, _, _, h, _ => nomatch h

theorem matchEntries_validateEntries : (entries : List (Term × Term)) → ∀ path fields,
    validateEntries path entries = .ok fields → ∀ others,
      Predicate.matchEntries entries others =
        Predicate.matchEntries (Value.fieldsToEntries fields) others
  | [], _, _, rfl, _ => rfl
  | (.scalar (.text label), value) :: rest, path, fields, h, others => by
    obtain ⟨r, hr, h⟩ := exists_of_bind_ok h
    obtain ⟨rs, hs, h⟩ := exists_of_bind_ok h
    cases h
    rw [Value.fieldsToEntries, Predicate.matchEntries, Predicate.matchEntries, text,
      matchEntries_validateEntries rest path rs hs]
    simp only [matchValue_validate value _ r hr]

end

mutual

/-- A pattern is evaluated to the value that it stands for. -/
theorem evaluatePatch_validate (existing : Term) : (t : Term) → ∀ path v,
    t.validate path = .ok v → evaluatePatch existing t = .ok v.toTerm
  | .scalar _, _, _, rfl => rfl
  | .list items, path, v, h => by
    obtain ⟨values, hr, rfl⟩ := exists_of_map_ok h
    rw [evaluatePatch, evaluatePatchItems_validateItems existing items path 0 values hr]
    rfl
  | .tuple items, path, v, h => by
    obtain ⟨values, hr, rfl⟩ := exists_of_map_ok h
    rw [evaluatePatch, evaluatePatchItems_validateItems existing items path 0 values hr]
    rfl
  | .mapping entries, path, v, h => by
    obtain ⟨fields, hr, rfl⟩ := exists_of_map_ok h
    rw [evaluatePatch, evaluatePatchEntries_validateEntries existing entries path fields hr]
    rfl
  | .mark _, _, _, h => nomatch h
  | .literal _, _, _, h => nomatch h
  | .expression .., _, _, h => nomatch h
  | .record .., _, _, h => nomatch h
  | .function _, _, _, h => nomatch h
  | .policy .., _, _, h => nomatch h
  | .resolver .., _, _, h => nomatch h
  | .ownPolicy .., _, _, h => nomatch h
  | .selector _, _, _, h => nomatch h
  | .mutation _, _, _, h => nomatch h
  | .foreign _, _, _, h => nomatch h

theorem evaluatePatchItems_validateItems (existing : Term) : (items : List Term) →
    ∀ path index values, validateItems path index items = .ok values →
      evaluatePatchItems existing items = .ok (Value.itemsToTerms values)
  | [], _, _, _, rfl => rfl
  | item :: rest, path, index, values, h => by
    obtain ⟨r, hr, h⟩ := exists_of_bind_ok h
    obtain ⟨rs, hs, h⟩ := exists_of_bind_ok h
    cases h
    rw [evaluatePatchItems, evaluatePatch_validate existing item _ r hr,
      evaluatePatchItems_validateItems existing rest _ _ rs hs]
    rfl

theorem evaluatePatchEntries_validateEntries (existing : Term) : (entries : List (Term × Term)) →
    ∀ path fields, validateEntries path entries = .ok fields →
      evaluatePatchEntries existing entries = .ok (Value.fieldsToEntries fields)
  | [], _, _, rfl => rfl
  | (.scalar (.text label), value) :: rest, path, fields, h => by
    obtain ⟨r, hr, h⟩ := exists_of_bind_ok h
    obtain ⟨rs, hs, h⟩ := exists_of_bind_ok h
    cases h
    rw [evaluatePatchEntries, evaluatePatch_validate existing value _ r hr,
      evaluatePatchEntries_validateEntries existing rest path rs hs]
    rfl

end

end Term

end Folio
