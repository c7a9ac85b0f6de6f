import Folio.Proofs.Commuting
import Folio.Proofs.Faithful
/-!
# Sameness of values

Sameness takes no notice of the order of fields, of tuples as against lists, and of how a number is
written. On settled values it is what one would write down: objects are the same if under every
label both have the same or neither has anything. So it is symmetric, and a term that stands for a
value is the same as whatever that value is the same as.
-/

namespace Folio

namespace Term

/-! ## Mappings -/

/-- Whether entries have the same as a value under a key. -/
def sameUnder (key value : Term) (entries : List (Term × Term)) : Bool :=
  match entries.find? fun e => alike key e.1 with
  | some e => same value e.2
  | none => false

theorem sameUnder_cons (key value name first : Term) (rest : List (Term × Term)) :
    sameUnder key value ((name, first) :: rest) =
      if alike key name then same value first else sameUnder key value rest := by
  unfold sameUnder
  rw [List.find?_cons]
  cases alike key name <;> rfl

theorem sameEntries_eq_all (xs ys : List (Term × Term)) :
    sameEntries xs ys = xs.all fun e => sameUnder e.1 e.2 ys := by
  induction xs with
  | nil => rfl
  | cons e rest ih =>
    rw [List.all_cons, ← ih]
    rfl

variable {xs ys : List (Term × Term)}

/-- Among keys that are labels, entries have the same under a label as is found there. -/
theorem sameUnder_text (keys : ∀ e ∈ ys, ∃ label, e.1 = text label) (label : String)
    (value : Term) : sameUnder (text label) value ys = true ↔
      ∃ other, Entries.find? ys (text label) = some other ∧ value.same other = true := by
  induction ys with
  | nil => simp [sameUnder]
  | cons e rest ih =>
    obtain ⟨key, first⟩ := e
    obtain ⟨⟨name, rfl⟩, rest_keys⟩ := List.forall_mem_cons.1 keys
    rw [sameUnder_cons, Entries.find?_cons, show alike (text label) (text name) = (label == name)
      from rfl]
    by_cases eq : label = name
    · subst eq
      simp [text_beq_self]
    · rw [beq_false_of_ne eq, text_beq_of_ne (Ne.symm eq)]
      exact ih rest_keys

theorem AreKeyed.length_labels (h : AreKeyed xs) : (labels xs).length = xs.length := by
  obtain ⟨keys, -⟩ := h
  induction xs with
  | nil => rfl
  | cons e rest ih =>
    obtain ⟨key, value⟩ := e
    obtain ⟨⟨label, rfl⟩, rest_keys⟩ := List.forall_mem_cons.1 keys
    exact congrArg (· + 1) (ih rest_keys)

/-- Two optional terms are both absent, or the same. -/
abbrev SameAt : Option Term → Option Term → Prop := Option.Rel fun s t => s.same t = true

/-- Mappings are the same if they have as many entries, and what the one has is found in the
other. -/
theorem same_mapping_iff_found (hx : AreKeyed xs) (hy : AreKeyed ys) :
    (mapping xs).same (mapping ys) = true ↔ xs.length = ys.length ∧
      ∀ label value, (text label, value) ∈ xs → ∃ other,
        Entries.find? ys (text label) = some other ∧ value.same other = true := by
  show (xs.length == ys.length && sameEntries xs ys) = true ↔ _
  rw [Bool.and_eq_true_iff, beq_iff_eq, sameEntries_eq_all, List.all_eq_true]
  refine and_congr_right fun _ => ⟨fun each label value he => ?_, fun each e he => ?_⟩
  · exact (sameUnder_text hy.keys label value).1 (each _ he)
  · obtain ⟨label, hk⟩ := hx.keys e he
    rw [hk]
    exact (sameUnder_text hy.keys label e.2).2 (each label e.2 (hk ▸ he))

/-- Mappings are the same if they are so under every label. -/
theorem same_mapping_iff (hx : AreKeyed xs) (hy : AreKeyed ys) :
    (mapping xs).same (mapping ys) = true ↔
      ∀ label, SameAt (Entries.find? xs (text label)) (Entries.find? ys (text label)) := by
  rw [same_mapping_iff_found hx hy]
  constructor
  · rintro ⟨length, each⟩ label
    cases hf : Entries.find? xs (text label) with
    | some value =>
      obtain ⟨other, ho, same⟩ := each label value (mem_of_find? hf)
      rw [ho]
      exact .some same
    | none =>
      -- As many labels, and all of the one among the others: there is no other label.
      have sub : labels xs ⊆ labels ys := by
        intro name hm
        obtain ⟨value, here⟩ := Option.isSome_iff_exists.1 (find?_of_mem_labels hm)
        obtain ⟨other, ho, -⟩ := each name value (mem_of_find? here)
        by_contra absent
        rw [find?_eq_none_iff.2 absent] at ho
        cases ho
      have perm : (labels xs).Perm (labels ys) :=
        (List.subperm_of_subset hx.nodup sub).perm_of_length_le
          (by rw [hx.length_labels, hy.length_labels, length])
      rw [find?_eq_none_iff.2 fun hm => find?_eq_none_iff.1 hf (perm.mem_iff.2 hm)]
      exact .none
  · intro each
    refine ⟨?_, fun label value he => ?_⟩
    · have perm : (labels xs).Perm (labels ys) := by
        refine (List.perm_ext_iff_of_nodup hx.nodup hy.nodup).2 fun name => ?_
        rw [← not_iff_not, ← find?_eq_none_iff, ← find?_eq_none_iff]
        have there := each name
        generalize Entries.find? xs (text name) = one at there ⊢
        generalize Entries.find? ys (text name) = other at there ⊢
        cases there <;> simp
      rw [← hx.length_labels, ← hy.length_labels, perm.length_eq]
    · have there := each label
      rw [find?_of_mem hx.nodup he] at there
      cases hf : Entries.find? ys (text label) with
      | none =>
        rw [hf] at there
        cases there
      | some other =>
        rw [hf] at there
        cases there with
        | some same => exact ⟨other, rfl, same⟩

end Term

namespace Value

variable {v w : Value} {fields others : List (String × Value)} {label : String}

/-! ## Objects -/

theorem areKeyed_fieldsToEntries (nodup : (fields.map Prod.fst).Nodup) :
    Term.AreKeyed (fieldsToEntries fields) := by
  refine ⟨?_, (labels_fieldsToEntries fields).symm ▸ nodup⟩
  clear nodup
  induction fields with
  | nil => exact List.forall_mem_nil _
  | cons e rest ih => exact List.forall_mem_cons.2 ⟨⟨e.1, rfl⟩, ih⟩

/-- Two optional values are both absent, or the same. -/
abbrev SameAt : Option Value → Option Value → Prop := Option.Rel fun v w => v.same w = true

/-- Objects are the same if they are so under every label. -/
theorem same_object_iff (nodup : (fields.map Prod.fst).Nodup)
    (others_nodup : (others.map Prod.fst).Nodup) :
    (Value.object fields).same (.object others) = true ↔
      ∀ label, SameAt (Entries.find? fields label) (Entries.find? others label) := by
  have under : ∀ label,
      Term.SameAt (Entries.find? (fieldsToEntries fields) (.text label))
        (Entries.find? (fieldsToEntries others) (.text label)) ↔
      SameAt (Entries.find? fields label) (Entries.find? others label) := by
    intro label
    rw [find?_fieldsToEntries, find?_fieldsToEntries]
    cases Entries.find? fields label <;> cases Entries.find? others label <;>
      simp [same]
  exact (Term.same_mapping_iff (areKeyed_fieldsToEntries nodup)
    (areKeyed_fieldsToEntries others_nodup)).trans (forall_congr' under)

theorem lacksNaN_of_find? (lacks : fieldsLackNaN fields = true)
    (hf : Entries.find? fields label = some v) : v.lacksNaN = true := by
  induction fields with
  | nil => cases hf
  | cons e rest ih =>
    obtain ⟨first, later⟩ := Bool.and_eq_true_iff.1 lacks
    rw [Entries.find?_cons] at hf
    split at hf
    · cases hf
      exact first
    · exact ih later hf

/-! ## Symmetry -/

end Value

namespace Scalar

theorem same_symm {s t : Scalar} (h : s.same t = true) : t.same s = true := by
  cases s <;> cases t <;> simp only [same, Bool.false_eq_true, beq_iff_eq] at h ⊢
  case bool.bool => exact h.symm
  case number.number =>
    obtain ⟨p, hs, ht⟩ := Number.same_iff.1 h
    exact Number.same_iff.2 ⟨p, ht, hs⟩
  case text.text => exact h.symm

end Scalar

namespace Value

mutual

/-- Sameness of settled values is symmetric. -/
theorem same_symm : (v : Value) → v.IsSettled → ∀ w : Value, w.IsSettled →
    v.same w = true → w.same v = true
  | .scalar s, _, w, _, h => by
    cases w with
    | scalar t => exact Scalar.same_symm h
    | _ => cases h
  | .list items, hv, w, hw, h => by
    cases w with
    | list others => exact sameItems_symm items hv others hw h
    | _ => cases h
  | .object fields, hv, w, hw, h => by
    cases w with
    | object others =>
      rw [same_object_iff hv.1 hw.1] at h
      refine (same_object_iff hw.1 hv.1).2 fun label => ?_
      exact same_fields_symm fields hv.2 label _ (fun w hf => isSettled_of_find? hw.2 hf) (h label)
    | _ => cases h

theorem sameItems_symm : (items : List Value) → SettledItems items → ∀ others : List Value,
    SettledItems others → Term.sameItems (itemsToTerms items) (itemsToTerms others) = true →
      Term.sameItems (itemsToTerms others) (itemsToTerms items) = true
  | [], _, [], _, _ => rfl
  | [], _, _ :: _, _, h => nomatch h
  | _ :: _, _, [], _, h => nomatch h
  | item :: rest, hv, other :: more, hw, h => by
    obtain ⟨first, later⟩ := Bool.and_eq_true_iff.1 h
    exact Bool.and_eq_true_iff.2 ⟨same_symm item hv.1 other hw.1 first,
      sameItems_symm rest hv.2 more hw.2 later⟩

theorem same_fields_symm : (fields : List (String × Value)) → SettledFields fields → ∀ label,
    ∀ other : Option Value, (∀ w ∈ other, w.IsSettled) →
      SameAt (Entries.find? fields label) other → SameAt other (Entries.find? fields label)
  | [], _, _, other, _, h => by
    cases other with
    | none => exact .none
    | some w => cases h
  | (name, value) :: rest, hv, label, other, hw, h => by
    rw [Entries.find?_cons] at h ⊢
    split at h
    · rename_i own
      rw [if_pos own]
      cases other with
      | none => cases h
      | some w =>
        cases h with
        | some same => exact .some (same_symm value hv.1 w (hw w rfl) same)
    · rename_i apart
      rw [if_neg apart]
      exact same_fields_symm rest hv.2 label other hw h

end

end Value

/-! ## Terms that stand for values -/

namespace Term

theorem sameEntries_congr {entries others : List (Term × Term)}
    (h : ∀ key value, sameUnder key value entries = sameUnder key value others)
    (xs : List (Term × Term)) : sameEntries xs entries = sameEntries xs others := by
  rw [sameEntries_eq_all, sameEntries_eq_all]
  simp only [h]

/-- A list, or a tuple, with items that cannot be told from others. -/
theorem same_list_congr {a : Term} {items others : List Term}
    (h : ∀ xs, sameItems xs items = sameItems xs others) :
    a.same (.list items) = a.same (.list others) ∧
      a.same (.tuple items) = a.same (.list others) := by
  cases a with
  | list xs => exact ⟨h xs, h xs⟩
  | tuple xs => exact ⟨h xs, h xs⟩
  | _ => exact ⟨rfl, rfl⟩

mutual

/-- Nothing tells a term from the value that it stands for. -/
theorem same_validate : (t : Term) → ∀ path v, t.validate path = .ok v →
    ∀ a : Term, a.same t = a.same v.toTerm
  | .scalar _, _, _, rfl, _ => rfl
  | .list items, path, v, h, a => by
    obtain ⟨values, hr, rfl⟩ := exists_of_map_ok h
    exact (same_list_congr (sameItems_validateItems items path 0 values hr)).1
  | .tuple items, path, v, h, a => by
    obtain ⟨values, hr, rfl⟩ := exists_of_map_ok h
    exact (same_list_congr (sameItems_validateItems items path 0 values hr)).2
  | .mapping entries, path, v, h, a => by
    obtain ⟨fields, hr, rfl⟩ := exists_of_map_ok h
    obtain ⟨length, each⟩ := sameUnder_validateEntries entries path fields hr
    cases a with
    | mapping xs =>
      show (xs.length == entries.length && sameEntries xs entries) =
        (xs.length == (Value.fieldsToEntries fields).length &&
          sameEntries xs (Value.fieldsToEntries fields))
      rw [length, sameEntries_congr each]
    | _ => rfl
  | .mark _, _, _, h, _ => nomatch h
  | .literal _, _, _, h, _ => nomatch h
  | .expression .., _, _, h, _ => nomatch h
  | .record .., _, _, h, _ => nomatch h
  | .function _, _, _, h, _ => nomatch h
  | .policy .., _, _, h, _ => nomatch h
  | .resolver .., _, _, h, _ => nomatch h
  | .ownPolicy .., _, _, h, _ => nomatch h
  | .selector _, _, _, h, _ => nomatch h
  | .mutation _, _, _, h, _ => nomatch h
  | .foreign _, _, _, h, _ => nomatch h

theorem sameItems_validateItems : (items : List Term) → ∀ path index values,
    validateItems path index items = .ok values →
      ∀ xs, sameItems xs items = sameItems xs (Value.itemsToTerms values)
  | [], _, _, _, rfl, _ => rfl
  | item :: rest, path, index, values, h, xs => by
    obtain ⟨r, hr, h⟩ := exists_of_bind_ok h
    obtain ⟨rs, hs, h⟩ := exists_of_bind_ok h
    cases h
    cases xs with
    | nil => rfl
    | cons x xs =>
      rw [Value.itemsToTerms, sameItems, sameItems, same_validate item _ r hr,
        sameItems_validateItems rest _ _ rs hs]

theorem sameUnder_validateEntries : (entries : List (Term × Term)) → ∀ path fields,
    validateEntries path entries = .ok fields →
      entries.length = (Value.fieldsToEntries fields).length ∧
        ∀ key value, sameUnder key value entries =
          sameUnder key value (Value.fieldsToEntries fields)
  | [], _, _, rfl => ⟨rfl, fun _ _ => rfl⟩
  | (.scalar (.text label), first) :: rest, path, fields, h => by
    obtain ⟨r, hr, h⟩ := exists_of_bind_ok h
    obtain ⟨rs, hs, h⟩ := exists_of_bind_ok h
    cases h
    obtain ⟨length, each⟩ := sameUnder_validateEntries rest path rs hs
    refine ⟨congrArg (· + 1) length, fun key value => ?_⟩
    rw [Value.fieldsToEntries, sameUnder_cons, sameUnder_cons, each,
      same_validate first _ r hr value]
    rfl

end

end Term

end Folio
