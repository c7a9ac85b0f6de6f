import Folio.Proofs.Settled
import Folio.Store.Run
/-!
# Documents whose labels occur once

What is written starts as a settled term: a payload, a patch, or the answer of a function. Merging,
validation and reading back keep each label single, so the documents of a store are settled as long
as callers hand in settled terms.
-/

namespace Folio

namespace Term

/-! ## Merging -/

theorem labels_stripEntries_sublist (entries : List (Term × Term)) :
    (labels (stripEntries entries)).Sublist (labels entries) := by
  induction entries with
  | nil => exact .refl _
  | cons e rest ih =>
    obtain ⟨k, v⟩ := e
    simp only [stripEntries]
    split
    · rw [labels_cons]
      exact ih.trans (List.sublist_append_right _ _)
    · rw [labels_cons, labels_cons]
      exact ih.append_left _

mutual

theorem isSettled_strip : (t : Term) → t.IsSettled → t.strip.IsSettled
  | .literal value, h => isSettled_strip value h
  | .mapping entries, h =>
    ⟨h.1.sublist (labels_stripEntries_sublist entries), settledEntries_stripEntries entries h.2⟩
  | .list items, h => settledItems_stripItems items h
  | .tuple items, h => settledItems_stripItems items h
  | .scalar _, _ => trivial
  | .mark m, _ => isSettled_copy (.mark m) trivial
  | .expression node e, h => isSettled_copy (.expression node e) h
  | .record fields identity, h => isSettled_copy (.record fields identity) h
  | .function _, _ => trivial
  | .policy .., _ => trivial
  | .resolver .., _ => trivial
  | .ownPolicy .., _ => trivial
  | .selector s, h => isSettled_copy (.selector s) h
  | .mutation m, h => isSettled_copy (.mutation m) h
  | .foreign _, _ => trivial

theorem settledEntries_stripEntries : (entries : List (Term × Term)) → SettledEntries entries →
    SettledEntries (stripEntries entries)
  | [], _ => trivial
  | (key, value) :: rest, h => by
    simp only [stripEntries]
    split
    · exact settledEntries_stripEntries rest h.2
    · exact ⟨isSettled_strip value h.1, settledEntries_stripEntries rest h.2⟩

theorem settledItems_stripItems : (items : List Term) → SettledItems items →
    SettledItems (stripItems items)
  | [], _ => trivial
  | item :: rest, h => ⟨isSettled_strip item h.1, settledItems_stripItems rest h.2⟩

end

theorem IsSettled.put {entries : List (Term × Term)} (key : Term) {value : Term}
    (h : (mapping entries).IsSettled) (hv : value.IsSettled) :
    (mapping (Entries.put entries key value)).IsSettled :=
  ⟨labels_put_nodup h.1, settledEntries_put h.2 hv⟩

theorem IsSettled.erase {entries : List (Term × Term)} (key : Term)
    (h : (mapping entries).IsSettled) : (mapping (Entries.erase entries key)).IsSettled :=
  ⟨h.1.sublist (labels_erase_sublist entries key), settledEntries_erase h.2⟩

mutual

/-- Merging a settled patch into settled entries gives settled entries. -/
theorem isSettled_mergeEntries : (entries existing : List (Term × Term)) →
    SettledEntries entries → (mapping existing).IsSettled →
      (mapping (Patch.mergeEntries existing entries)).IsSettled
  | [], _, _, h => h
  | (key, value) :: rest, existing, hs, h =>
    isSettled_mergeEntries rest _ hs.2 (isSettled_mergeEntry value key existing hs.1 h)

theorem isSettled_mergeEntry : (value key : Term) → (existing : List (Term × Term)) →
    value.IsSettled → (mapping existing).IsSettled →
      (mapping (Patch.mergeEntry existing key value)).IsSettled
  | .mark .remove, key, _, _, h => h.erase key
  | .mapping entries, key, existing, hv, h => by
    simp only [Patch.mergeEntry]
    split
    · rename_i old hf
      exact h.put key (isSettled_mergeEntries entries old hv.2 (settled_of_find? h.2 hf))
    · exact h.put key (isSettled_strip (.mapping entries) hv)
  | .literal value, key, _, hv, h => h.put key (isSettled_strip value hv)
  | .list items, key, _, hv, h => h.put key (settledItems_stripItems items hv)
  | .tuple items, key, _, hv, h => h.put key (settledItems_stripItems items hv)
  | .scalar s, key, _, hv, h => h.put key (isSettled_copy (.scalar s) hv)
  | .mark .keepOld, key, _, hv, h => h.put key (isSettled_copy (.mark .keepOld) hv)
  | .mark .reject, key, _, hv, h => h.put key (isSettled_copy (.mark .reject) hv)
  | .mark .abort, key, _, hv, h => h.put key (isSettled_copy (.mark .abort) hv)
  | .expression node e, key, _, hv, h => h.put key (isSettled_copy (.expression node e) hv)
  | .record fields i, key, _, hv, h => h.put key (isSettled_copy (.record fields i) hv)
  | .function f, key, _, hv, h => h.put key (isSettled_copy (.function f) hv)
  | .policy p i, key, _, hv, h => h.put key (isSettled_copy (.policy p i) hv)
  | .resolver f i, key, _, hv, h => h.put key (isSettled_copy (.resolver f i) hv)
  | .ownPolicy f i, key, _, hv, h => h.put key (isSettled_copy (.ownPolicy f i) hv)
  | .selector s, key, _, hv, h => h.put key (isSettled_copy (.selector s) hv)
  | .mutation m, key, _, hv, h => h.put key (isSettled_copy (.mutation m) hv)
  | .foreign f, key, _, hv, h => h.put key (isSettled_copy (.foreign f) hv)

end

/-- The existing entries with a patch merged into them. -/
theorem isSettled_merge {existing entries : List (Term × Term)}
    (h : (mapping existing).IsSettled) (hs : SettledEntries entries) :
    (mapping (Patch.merge existing entries)).IsSettled :=
  isSettled_mergeEntries entries _ hs (isSettled_copy (.mapping existing) h)

/-! ## Evaluated patches -/

mutual

theorem isSettled_evaluatePatch {existing : Term} (he : existing.IsSettled) :
    (t : Term) → t.IsSettled → ∀ value, evaluatePatch existing t = .ok value → value.IsSettled
  | .expression _ e, h, value, hv => by
    rw [evaluatePatch] at hv
    obtain ⟨r, hr, rfl⟩ := exists_of_map_ok hv
    exact isSettled_copy r (settled_evaluate he e h [] (by simp [SettledSubstitution]) r hr)
  | .literal inner, h, value, hv => by
    rw [evaluatePatch] at hv
    obtain ⟨r, hr, rfl⟩ := exists_of_map_ok hv
    exact isSettled_evaluatePatch he inner h r hr
  | .mapping entries, h, value, hv => by
    rw [evaluatePatch] at hv
    obtain ⟨r, hr, rfl⟩ := exists_of_map_ok hv
    obtain ⟨labels, settled⟩ := settledEntries_evaluatePatchEntries he entries h.2 r hr
    exact ⟨labels ▸ h.1, settled⟩
  | .list items, h, value, hv => by
    rw [evaluatePatch] at hv
    obtain ⟨r, hr, rfl⟩ := exists_of_map_ok hv
    exact settledItems_evaluatePatchItems he items h r hr
  | .tuple items, h, value, hv => by
    rw [evaluatePatch] at hv
    obtain ⟨r, hr, rfl⟩ := exists_of_map_ok hv
    exact settledItems_evaluatePatchItems he items h r hr
  | .scalar _, h, _, rfl => h
  | .mark _, h, _, rfl => h
  | .record .., h, _, rfl => h
  | .function _, h, _, rfl => h
  | .policy .., h, _, rfl => h
  | .resolver .., h, _, rfl => h
  | .ownPolicy .., h, _, rfl => h
  | .selector _, h, _, rfl => h
  | .mutation _, h, _, rfl => h
  | .foreign _, h, _, rfl => h

/-- Evaluating the values of entries leaves their labels. -/
theorem settledEntries_evaluatePatchEntries {existing : Term} (he : existing.IsSettled) :
    (entries : List (Term × Term)) → SettledEntries entries →
      ∀ results, evaluatePatchEntries existing entries = .ok results →
        labels results = labels entries ∧ SettledEntries results
  | [], _, _, rfl => ⟨rfl, trivial⟩
  | (key, value) :: rest, h, results, hv => by
    rw [evaluatePatchEntries] at hv
    obtain ⟨r, hr, hv⟩ := exists_of_bind_ok hv
    obtain ⟨rs, hs, hv⟩ := exists_of_bind_ok hv
    cases hv
    obtain ⟨labels, settled⟩ := settledEntries_evaluatePatchEntries he rest h.2 rs hs
    exact ⟨by rw [labels_cons, labels_cons, labels],
      isSettled_evaluatePatch he value h.1 r hr, settled⟩

theorem settledItems_evaluatePatchItems {existing : Term} (he : existing.IsSettled) :
    (items : List Term) → SettledItems items →
      ∀ results, evaluatePatchItems existing items = .ok results → SettledItems results
  | [], _, _, rfl => trivial
  | item :: rest, h, results, hv => by
    rw [evaluatePatchItems] at hv
    obtain ⟨r, hr, hv⟩ := exists_of_bind_ok hv
    obtain ⟨rs, hs, hv⟩ := exists_of_bind_ok hv
    cases hv
    exact ⟨isSettled_evaluatePatch he item h.1 r hr,
      settledItems_evaluatePatchItems he rest h.2 rs hs⟩

end

/-! ## Validation -/

mutual

/-- The value that a settled term stands for is settled. -/
theorem isSettled_validate : (t : Term) → t.IsSettled → ∀ path value,
    t.validate path = .ok value → value.IsSettled
  | .scalar _, _, _, _, rfl => trivial
  | .list items, h, path, value, hv => by
    rw [validate] at hv
    obtain ⟨values, hr, rfl⟩ := exists_of_map_ok hv
    exact settledItems_validateItems items h path 0 values hr
  | .tuple items, h, path, value, hv => by
    rw [validate] at hv
    obtain ⟨values, hr, rfl⟩ := exists_of_map_ok hv
    exact settledItems_validateItems items h path 0 values hr
  | .mapping entries, h, path, value, hv => by
    rw [validate] at hv
    obtain ⟨fields, hr, rfl⟩ := exists_of_map_ok hv
    obtain ⟨labels, settled⟩ := settledFields_validateEntries entries h.2 path fields hr
    exact ⟨labels ▸ h.1, settled⟩
  | .mark _, _, _, _, h => nomatch h
  | .literal _, _, _, _, h => nomatch h
  | .expression .., _, _, _, h => nomatch h
  | .record .., _, _, _, h => nomatch h
  | .function _, _, _, _, h => nomatch h
  | .policy .., _, _, _, h => nomatch h
  | .resolver .., _, _, _, h => nomatch h
  | .ownPolicy .., _, _, _, h => nomatch h
  | .selector _, _, _, _, h => nomatch h
  | .mutation _, _, _, _, h => nomatch h
  | .foreign _, _, _, _, h => nomatch h

theorem settledItems_validateItems : (items : List Term) → SettledItems items →
    ∀ path index values, validateItems path index items = .ok values →
      Value.SettledItems values
  | [], _, _, _, _, rfl => trivial
  | item :: rest, h, path, index, values, hv => by
    rw [validateItems] at hv
    obtain ⟨r, hr, hv⟩ := exists_of_bind_ok hv
    obtain ⟨rs, hs, hv⟩ := exists_of_bind_ok hv
    cases hv
    exact ⟨isSettled_validate item h.1 _ r hr,
      settledItems_validateItems rest h.2 _ _ rs hs⟩

/-- Where validation accepts entries, all their keys are labels. -/
theorem settledFields_validateEntries : (entries : List (Term × Term)) → SettledEntries entries →
    ∀ path fields, validateEntries path entries = .ok fields →
      labels entries = fields.map Prod.fst ∧ Value.SettledFields fields
  | [], _, _, _, rfl => ⟨rfl, trivial⟩
  | (.scalar (.text label), value) :: rest, h, path, fields, hv => by
    rw [validateEntries] at hv
    obtain ⟨r, hr, hv⟩ := exists_of_bind_ok hv
    obtain ⟨rs, hs, hv⟩ := exists_of_bind_ok hv
    cases hv
    obtain ⟨labels, settled⟩ := settledFields_validateEntries rest h.2 path rs hs
    exact ⟨by rw [labels_cons, labels]; rfl, isSettled_validate value h.1 _ r hr, settled⟩

end

theorem isSettled_validateDocument {t : Term} (h : t.IsSettled) {what : String} {d : Document}
    (hd : t.validateDocument what = .ok d) : d.IsSettled := by
  cases t with
  | mapping entries =>
    obtain ⟨labels, settled⟩ := settledFields_validateEntries entries h.2 "" d hd
    exact ⟨labels ▸ h.1, settled⟩
  | _ => cases hd

/-! ## Records -/

theorem label?_unfold (t : Term) : t.unfold.label? = t.label? := by
  cases t with
  | selector s => cases s <;> rfl
  | mutation m => cases m <;> rfl
  | _ => rfl

theorem labels_unfoldEntries (entries : List (Term × Term)) :
    labels (unfoldEntries entries) = labels entries := by
  induction entries with
  | nil => rfl
  | cons e rest ih =>
    obtain ⟨k, v⟩ := e
    simp only [unfoldEntries, labels_cons, label?_unfold, ih]

theorem labels_unfoldFields (fields : List (String × Term)) :
    labels (unfoldFields fields) = fields.map Prod.fst := by
  induction fields with
  | nil => rfl
  | cons e rest ih =>
    obtain ⟨name, v⟩ := e
    rw [unfoldFields, labels_cons, ih]
    rfl

mutual

theorem isSettled_unfold : (t : Term) → t.IsSettled → t.unfold.IsSettled
  | .list items, h => settledItems_unfoldItems items h
  | .tuple items, h => settledItems_unfoldItems items h
  | .mapping entries, h => by
    simp only [unfold, IsSettled, labels_unfoldEntries]
    exact ⟨h.1, settledEntries_unfoldEntries entries h.2⟩
  | .record fields _, h => by
    simp only [unfold, IsSettled, labels_unfoldFields]
    exact ⟨h.1, settledEntries_unfoldFields fields h.2⟩
  | .selector s, h => isSettled_unfoldSelector s h
  | .mutation m, h => isSettled_unfoldMutation m h
  | .scalar _, h => h
  | .mark _, h => h
  | .literal _, h => h
  | .expression .., h => h
  | .function _, h => h
  | .policy .., h => h
  | .resolver .., h => h
  | .ownPolicy .., h => h
  | .foreign _, h => h

theorem settledItems_unfoldItems : (items : List Term) → SettledItems items →
    SettledItems (unfoldItems items)
  | [], _ => trivial
  | item :: rest, h => ⟨isSettled_unfold item h.1, settledItems_unfoldItems rest h.2⟩

theorem settledEntries_unfoldEntries : (entries : List (Term × Term)) → SettledEntries entries →
    SettledEntries (unfoldEntries entries)
  | [], _ => trivial
  | (_, value) :: rest, h => ⟨isSettled_unfold value h.1, settledEntries_unfoldEntries rest h.2⟩

theorem settledEntries_unfoldFields : (fields : List (String × Term)) → SettledFields fields →
    SettledEntries (unfoldFields fields)
  | [], _ => trivial
  | (_, value) :: rest, h => ⟨isSettled_unfold value h.1, settledEntries_unfoldFields rest h.2⟩

theorem isSettled_unfoldSelector : (s : Selector Term) → SettledSelector s →
    (unfoldSelector s).IsSettled
  | .table _, _ => ⟨List.nodup_singleton "name", trivial, trivial⟩
  | .get _ key, h =>
    ⟨(by decide : ["table", "key"].Nodup), trivial, isSettled_unfold key h, trivial⟩
  | .getAll _ keys, h =>
    ⟨(by decide : ["table", "keys"].Nodup), trivial, settledItems_unfoldItems keys h, trivial⟩
  | .filter _ predicate, h =>
    ⟨(by decide : ["table", "predicate"].Nodup), trivial, isSettled_unfold predicate h, trivial⟩

theorem isSettled_unfoldMutation : (m : Mutation Term) → SettledMutation m →
    (unfoldMutation m).IsSettled
  | .insert payload, h => ⟨List.nodup_singleton "payload", isSettled_unfold payload h, trivial⟩
  | .update patch, h => ⟨List.nodup_singleton "patch", isSettled_unfold patch h, trivial⟩
  | .delete, _ => ⟨List.nodup_nil, trivial⟩

end

theorem isSettled_recordAsMapping {t : Term} (h : t.IsSettled) : t.recordAsMapping.IsSettled := by
  unfold recordAsMapping
  split
  · exact isSettled_unfold t h
  · exact h

end Term

/-! ## Documents -/

namespace Value

theorem labels_fieldsToEntries (fields : List (String × Value)) :
    Term.labels (fieldsToEntries fields) = fields.map Prod.fst := by
  induction fields with
  | nil => rfl
  | cons e rest ih =>
    obtain ⟨label, v⟩ := e
    rw [fieldsToEntries, Term.labels_cons, ih]
    rfl

mutual

theorem isSettled_toTerm : (v : Value) → v.IsSettled → v.toTerm.IsSettled
  | .scalar _, _ => trivial
  | .list items, h => settledItems_itemsToTerms items h
  | .object fields, h => by
    simp only [toTerm, Term.IsSettled, labels_fieldsToEntries]
    exact ⟨h.1, settledEntries_fieldsToEntries fields h.2⟩

theorem settledItems_itemsToTerms : (items : List Value) → SettledItems items →
    Term.SettledItems (itemsToTerms items)
  | [], _ => trivial
  | item :: rest, h => ⟨isSettled_toTerm item h.1, settledItems_itemsToTerms rest h.2⟩

theorem settledEntries_fieldsToEntries : (fields : List (String × Value)) →
    SettledFields fields → Term.SettledEntries (fieldsToEntries fields)
  | [], _ => trivial
  | (_, value) :: rest, h =>
    ⟨isSettled_toTerm value h.1, settledEntries_fieldsToEntries rest h.2⟩

end

theorem map_fst_rereadFields (fields : List (String × Value)) :
    (rereadFields fields).map Prod.fst = fields.map Prod.fst := by
  induction fields with
  | nil => rfl
  | cons e rest ih => simp [rereadFields, ih]

mutual

theorem isSettled_reread : (v : Value) → v.IsSettled → v.reread.IsSettled
  | .scalar _, _ => trivial
  | .list items, h => settledItems_rereadItems items h
  | .object fields, h => by
    simp only [reread, IsSettled, map_fst_rereadFields]
    exact ⟨h.1, settledFields_rereadFields fields h.2⟩

theorem settledItems_rereadItems : (items : List Value) → SettledItems items →
    SettledItems (rereadItems items)
  | [], _ => trivial
  | item :: rest, h => ⟨isSettled_reread item h.1, settledItems_rereadItems rest h.2⟩

theorem settledFields_rereadFields : (fields : List (String × Value)) → SettledFields fields →
    SettledFields (rereadFields fields)
  | [], _ => trivial
  | (_, value) :: rest, h => ⟨isSettled_reread value h.1, settledFields_rereadFields rest h.2⟩

end

mutual

/-- Where each label occurs once already, there is nothing to settle. -/
theorem settle_of_isSettled : (v : Value) → v.IsSettled → v.settle = v
  | .scalar _, _ => rfl
  | .list items, h => congrArg Value.list (settleItems_of_settledItems items h)
  | .object fields, h => congrArg Value.object (settleFields_of_settledFields fields h.1 h.2)

theorem settleItems_of_settledItems : (items : List Value) → SettledItems items →
    settleItems items = items
  | [], _ => rfl
  | item :: rest, h => by
    rw [settleItems, settle_of_isSettled item h.1, settleItems_of_settledItems rest h.2]

theorem settleFields_of_settledFields : (fields : List (String × Value)) →
    (fields.map Prod.fst).Nodup → SettledFields fields → settleFields fields = fields
  | [], _, _ => rfl
  | (label, value) :: rest, nodup, h => by
    obtain ⟨fresh, nodup⟩ := List.nodup_cons.1 nodup
    rw [settleFields, settleFields_of_settledFields rest nodup h.2,
      settle_of_isSettled value h.1]
    simp only [Entries.find?_eq_none.2 fresh]

end

theorem isSettled_of_find? {fields : List (String × Value)} {label : String} {v : Value}
    (h : SettledFields fields) (hf : Entries.find? fields label = some v) : v.IsSettled := by
  induction fields with
  | nil => cases hf
  | cons field rest ih =>
    rw [Entries.find?_cons] at hf
    split at hf
    · cases hf
      exact h.1
    · exact ih h.2 hf

end Value

namespace Document

variable {d : Document}

theorem IsSettled.toTerm (h : d.IsSettled) : d.toTerm.IsSettled :=
  Value.isSettled_toTerm (.object d) h

theorem IsSettled.reread (h : d.IsSettled) : d.reread.IsSettled :=
  Value.isSettled_reread (.object d) h

/-- A new field in front of a document that lacks it. -/
theorem IsSettled.cons {field : String} {v : Value} (h : d.IsSettled) (hv : v.IsSettled)
    (absent : Entries.find? d field = none) : IsSettled ((field, v) :: d) :=
  ⟨List.nodup_cons.2 ⟨Entries.find?_eq_none.1 absent, h.1⟩, hv, h.2⟩

theorem IsSettled.settle (h : d.IsSettled) : d.settle = d :=
  Value.settleFields_of_settledFields d h.1 h.2

end Document

/-- The functions of the caller answer settled arguments with settled terms. -/
def Setup.IsSettled (setup : Setup) : Prop :=
  ∀ calls f arguments answer, (∀ argument ∈ arguments, argument.IsSettled) →
    setup.functions calls f arguments = .ok answer → answer.IsSettled

end Folio
