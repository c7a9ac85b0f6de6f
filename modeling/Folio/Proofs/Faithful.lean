import Folio.Patch.Validation
import Folio.Proofs.Absorbing
import Folio.Proofs.Codes
import Folio.Proofs.Deciding
/-!
# Values that are kept as they are

A value without NaN equals itself and is read back as it was written. A patch that holds neither an
expression nor NaN is evaluated to the same entries on every document, and what it is merged into is
such a value again, unless it is no document. So the patch is absorbed by the document that is kept:
merged again, it comes to the same document.
-/

namespace Folio

/-- Whether a scalar is not a number although it is a float. -/
def Scalar.isNaN : Scalar → Bool
  | .number n => n.isNaN
  | _ => false

namespace Value

mutual

/-- Whether no number inside the value is NaN. -/
def lacksNaN : Value → Bool
  | .scalar s => !s.isNaN
  | .list items => itemsLackNaN items
  | .object fields => fieldsLackNaN fields

/-- Whether no number inside the items is NaN. -/
def itemsLackNaN : List Value → Bool
  | [] => true
  | item :: rest => item.lacksNaN && itemsLackNaN rest

/-- Whether no number inside the fields is NaN. -/
def fieldsLackNaN : List (String × Value) → Bool
  | [] => true
  | (_, value) :: rest => value.lacksNaN && fieldsLackNaN rest

end

end Value

/-- Whether no number inside the document is NaN. -/
def Document.lacksNaN (d : Document) : Bool := Value.fieldsLackNaN d

namespace Term

mutual

/-- Whether a part of a patch holds neither an expression nor NaN. -/
def isConstant : Term → Bool
  | .scalar s => !s.isNaN
  | .expression .. => false
  | .literal value => value.isConstant
  | .list items => areConstant items
  | .tuple items => areConstant items
  | .mapping entries => haveConstants entries
  | _ => true

/-- Whether the items hold neither an expression nor NaN. -/
def areConstant : List Term → Bool
  | [] => true
  | item :: rest => item.isConstant && areConstant rest

/-- Whether the values of the entries hold neither an expression nor NaN. -/
def haveConstants : List (Term × Term) → Bool
  | [] => true
  | (_, value) :: rest => value.isConstant && haveConstants rest

end

mutual

/-- A part of a patch whose tuples have become lists. -/
def listed : Term → Term
  | .literal value => .literal value.listed
  | .mapping entries => .mapping (listedEntries entries)
  | .list items => .list (listedItems items)
  | .tuple items => .list (listedItems items)
  | t => t

/-- The items of a list in a patch, without tuples. -/
def listedItems : List Term → List Term
  | [] => []
  | item :: rest => item.listed :: listedItems rest

/-- The entries of a patch, without tuples. -/
def listedEntries : List (Term × Term) → List (Term × Term)
  | [] => []
  | (key, value) :: rest => (key, value.listed) :: listedEntries rest

end

mutual

/-- Whether nothing in a term would be another in the document that it stands for, or in what is
read back of that: there is no tuple and no NaN. -/
def isFaithful : Term → Bool
  | .scalar s => !s.isNaN
  | .tuple _ => false
  | .list items => areFaithful items
  | .mapping entries => haveFaithful entries
  | _ => true

/-- Whether the items hold no tuple and no NaN. -/
def areFaithful : List Term → Bool
  | [] => true
  | item :: rest => item.isFaithful && areFaithful rest

/-- Whether the values of the entries hold no tuple and no NaN. -/
def haveFaithful : List (Term × Term) → Bool
  | [] => true
  | (_, value) :: rest => value.isFaithful && haveFaithful rest

end

end Term

/-! ## Values without NaN -/

namespace Scalar

theorem same_self {s : Scalar} (h : s.isNaN = false) : s.same s = true := by
  cases s with
  | number n => exact Number.same_self h
  | null => rfl
  | bool b => exact beq_self_eq_true b
  | text t => exact beq_self_eq_true t

theorem reread_of_not_isNaN {s : Scalar} (h : s.isNaN = false) : s.reread = s := by
  cases s with
  | number n =>
    rcases n with i | p | negative | ⟨negative, m, e, canonical⟩
    · rfl
    · cases h
    · rfl
    · rfl
  | _ => rfl

end Scalar

namespace Value

mutual

theorem reread_of_lacksNaN : (v : Value) → v.lacksNaN = true → v.reread = v
  | .scalar s, h => congrArg Value.scalar (Scalar.reread_of_not_isNaN (by simpa [lacksNaN] using h))
  | .list items, h => congrArg Value.list (rereadItems_of_lackNaN items h)
  | .object fields, h => congrArg Value.object (rereadFields_of_lackNaN fields h)

theorem rereadItems_of_lackNaN : (items : List Value) → itemsLackNaN items = true →
    rereadItems items = items
  | [], _ => rfl
  | item :: rest, h => by
    obtain ⟨first, rest_lacks⟩ := Bool.and_eq_true_iff.1 h
    rw [rereadItems, reread_of_lacksNaN item first, rereadItems_of_lackNaN rest rest_lacks]

theorem rereadFields_of_lackNaN : (fields : List (String × Value)) →
    fieldsLackNaN fields = true → rereadFields fields = fields
  | [], _ => rfl
  | (label, value) :: rest, h => by
    obtain ⟨first, rest_lacks⟩ := Bool.and_eq_true_iff.1 h
    rw [rereadFields, reread_of_lacksNaN value first, rereadFields_of_lackNaN rest rest_lacks]

end

/-- What the fields of an object have under a label, as the comparison of entries finds it. -/
theorem find?_alike (fields : List (String × Value)) (label : String) :
    (fieldsToEntries fields).find? (fun e => Term.alike (.text label) e.1) =
      (Entries.find? fields label).map fun value => (.text label, value.toTerm) := by
  induction fields with
  | nil => rfl
  | cons e rest ih =>
    obtain ⟨name, first⟩ := e
    rw [fieldsToEntries, List.find?_cons, Entries.find?_cons, ih, show
      Term.alike (.text label) (.text name) = (label == name) from rfl]
    by_cases eq : label = name
    · subst eq
      simp
    · rw [beq_false_of_ne eq, beq_false_of_ne (Ne.symm eq)]
      rfl

/-- Fields are among others if each is found there with the same value. -/
theorem sameEntries_iff {fields others : List (String × Value)} :
    Term.sameEntries (fieldsToEntries fields) (fieldsToEntries others) = true ↔
      ∀ e ∈ fields, ∃ other, Entries.find? others e.1 = some other ∧ e.2.same other = true := by
  induction fields with
  | nil => exact ⟨fun _ _ he => (nomatch he), fun _ => rfl⟩
  | cons e rest ih =>
    obtain ⟨label, value⟩ := e
    rw [fieldsToEntries, Term.sameEntries, find?_alike, List.forall_mem_cons, ← ih,
      Bool.and_eq_true_iff]
    cases Entries.find? others label with
    | none => simp
    | some other => simp [Value.same]

mutual

/-- A settled value without NaN is the same as itself. -/
theorem same_self : (v : Value) → v.lacksNaN = true → v.IsSettled → v.same v = true
  | .scalar s, h, _ => Scalar.same_self (by simpa [lacksNaN] using h)
  | .list items, h, settled => sameItems_self items h settled
  | .object fields, h, settled => by
    have each := same_selves fields h settled.2
    refine Bool.and_eq_true_iff.2 ⟨beq_self_eq_true _, sameEntries_iff.2 fun e he => ?_⟩
    exact ⟨e.2, Entries.find?_of_mem settled.1 he, each e he⟩

theorem sameItems_self : (items : List Value) → itemsLackNaN items = true →
    SettledItems items → Term.sameItems (itemsToTerms items) (itemsToTerms items) = true
  | [], _, _ => rfl
  | item :: rest, h, settled => by
    obtain ⟨first, rest_lacks⟩ := Bool.and_eq_true_iff.1 h
    exact Bool.and_eq_true_iff.2
      ⟨same_self item first settled.1, sameItems_self rest rest_lacks settled.2⟩

theorem same_selves : (fields : List (String × Value)) → fieldsLackNaN fields = true →
    SettledFields fields → ∀ e ∈ fields, e.2.same e.2 = true
  | [], _, _, _, he => nomatch he
  | (_, value) :: rest, h, settled, e, he => by
    obtain ⟨first, rest_lacks⟩ := Bool.and_eq_true_iff.1 h
    rcases List.mem_cons.1 he with rfl | he
    · exact same_self value first settled.1
    · exact same_selves rest rest_lacks settled.2 e he

end

end Value

/-! ## Patches without expressions -/

namespace Term

mutual

/-- Without an expression a part of a patch is evaluated to itself, on every document. -/
theorem evaluatePatch_of_isConstant (existing : Term) : (t : Term) → t.isConstant = true →
    evaluatePatch existing t = .ok t.listed
  | .literal value, h => by
    rw [evaluatePatch, evaluatePatch_of_isConstant existing value h]
    rfl
  | .mapping entries, h => by
    rw [evaluatePatch, evaluatePatchEntries_of_haveConstants existing entries h]
    rfl
  | .list items, h => by
    rw [evaluatePatch, evaluatePatchItems_of_areConstant existing items h]
    rfl
  | .tuple items, h => by
    rw [evaluatePatch, evaluatePatchItems_of_areConstant existing items h]
    rfl
  | .scalar _, _ => rfl
  | .mark _, _ => rfl
  | .record .., _ => rfl
  | .function _, _ => rfl
  | .policy .., _ => rfl
  | .resolver .., _ => rfl
  | .ownPolicy .., _ => rfl
  | .selector _, _ => rfl
  | .mutation _, _ => rfl
  | .foreign _, _ => rfl

theorem evaluatePatchEntries_of_haveConstants (existing : Term) :
    (entries : List (Term × Term)) → haveConstants entries = true →
      evaluatePatchEntries existing entries = .ok (listedEntries entries)
  | [], _ => rfl
  | (key, value) :: rest, h => by
    obtain ⟨first, rest_constant⟩ := Bool.and_eq_true_iff.1 h
    rw [evaluatePatchEntries, evaluatePatch_of_isConstant existing value first,
      evaluatePatchEntries_of_haveConstants existing rest rest_constant]
    rfl

theorem evaluatePatchItems_of_areConstant (existing : Term) : (items : List Term) →
    areConstant items = true → evaluatePatchItems existing items = .ok (listedItems items)
  | [], _ => rfl
  | item :: rest, h => by
    obtain ⟨first, rest_constant⟩ := Bool.and_eq_true_iff.1 h
    rw [evaluatePatchItems, evaluatePatch_of_isConstant existing item first,
      evaluatePatchItems_of_areConstant existing rest rest_constant]
    rfl

end

mutual

theorem isConstant_listed : (t : Term) → t.isConstant = true → t.listed.isConstant = true
  | .literal value, h => isConstant_listed value h
  | .mapping entries, h => haveConstants_listedEntries entries h
  | .list items, h => areConstant_listedItems items h
  | .tuple items, h => areConstant_listedItems items h
  | .scalar _, h => h
  | .mark _, h => h
  | .record .., h => h
  | .function _, h => h
  | .policy .., h => h
  | .resolver .., h => h
  | .ownPolicy .., h => h
  | .selector _, h => h
  | .mutation _, h => h
  | .foreign _, h => h

theorem haveConstants_listedEntries : (entries : List (Term × Term)) →
    haveConstants entries = true → haveConstants (listedEntries entries) = true
  | [], _ => rfl
  | (_, value) :: rest, h => by
    obtain ⟨first, rest_constant⟩ := Bool.and_eq_true_iff.1 h
    exact Bool.and_eq_true_iff.2
      ⟨isConstant_listed value first, haveConstants_listedEntries rest rest_constant⟩

theorem areConstant_listedItems : (items : List Term) → areConstant items = true →
    areConstant (listedItems items) = true
  | [], _ => rfl
  | item :: rest, h => by
    obtain ⟨first, rest_constant⟩ := Bool.and_eq_true_iff.1 h
    exact Bool.and_eq_true_iff.2
      ⟨isConstant_listed item first, areConstant_listedItems rest rest_constant⟩

end

theorem listedItems_eq (items : List Term) : listedItems items = items.map listed := by
  induction items with
  | nil => rfl
  | cons item rest ih => rw [listedItems, ih, List.map_cons]

theorem listedEntries_eq (entries : List (Term × Term)) :
    listedEntries entries = entries.map fun e => (e.1, e.2.listed) := by
  induction entries with
  | nil => rfl
  | cons e rest ih => rw [listedEntries, ih, List.map_cons]

theorem labels_listedEntries (entries : List (Term × Term)) :
    labels (listedEntries entries) = labels entries := by
  induction entries with
  | nil => rfl
  | cons e rest ih =>
    obtain ⟨k, v⟩ := e
    simp only [listedEntries, labels_cons, ih]

mutual

/-- What validation accepts has labels, and each of them once if it is settled. -/
theorem isLabelled_listed : (t : Term) → t.IsSettled → ∀ path,
    t.validatePatch path = .ok () → Patch.IsLabelled t.listed
  | .mapping entries, settled, path, h => by
    refine ⟨?_, labelledEntries_listedEntries entries settled.2 path h⟩
    rw [labels_listedEntries]
    exact settled.1
  | .literal _, _, _, _ => trivial
  | .list _, _, _, _ => trivial
  | .tuple _, _, _, _ => trivial
  | .scalar _, _, _, _ => trivial
  | .mark _, _, _, _ => trivial
  | .expression .., _, _, _ => trivial
  | .record .., _, _, _ => trivial
  | .function _, _, _, _ => trivial
  | .policy .., _, _, _ => trivial
  | .resolver .., _, _, _ => trivial
  | .ownPolicy .., _, _, _ => trivial
  | .selector _, _, _, _ => trivial
  | .mutation _, _, _, _ => trivial
  | .foreign _, _, _, _ => trivial

theorem labelledEntries_listedEntries : (entries : List (Term × Term)) →
    SettledEntries entries → ∀ path, validatePatchEntries path entries = .ok () →
      Patch.LabelledEntries (listedEntries entries)
  | [], _, _, _ => trivial
  | (.scalar (.text label), value) :: rest, settled, path, h => by
    rw [validatePatchEntries] at h
    obtain ⟨⟨⟩, first, rest_valid⟩ := exists_of_bind_ok h
    exact ⟨⟨label, rfl⟩, isLabelled_listed value settled.1 _ first,
      labelledEntries_listedEntries rest settled.2 path rest_valid⟩

end

/-! ## What stands for itself -/

variable {entries : List (Term × Term)} {key value : Term}

theorem haveFaithful_put (h : haveFaithful entries = true) (hv : value.isFaithful = true) :
    haveFaithful (Entries.put entries key value) = true := by
  induction entries with
  | nil => simp [Entries.put, haveFaithful, hv]
  | cons e rest ih =>
    obtain ⟨first, rest_faithful⟩ := Bool.and_eq_true_iff.1 h
    rw [Entries.put]
    split
    · exact Bool.and_eq_true_iff.2 ⟨hv, rest_faithful⟩
    · exact Bool.and_eq_true_iff.2 ⟨first, ih rest_faithful⟩

theorem haveFaithful_erase (h : haveFaithful entries = true) :
    haveFaithful (Entries.erase entries key) = true := by
  induction entries with
  | nil => rfl
  | cons e rest ih =>
    obtain ⟨first, rest_faithful⟩ := Bool.and_eq_true_iff.1 h
    rw [Entries.erase]
    split
    · exact rest_faithful
    · exact Bool.and_eq_true_iff.2 ⟨first, ih rest_faithful⟩

theorem isFaithful_of_find? (h : haveFaithful entries = true)
    (hf : Entries.find? entries key = some value) : value.isFaithful = true := by
  induction entries with
  | nil => cases hf
  | cons e rest ih =>
    obtain ⟨k, v⟩ := e
    obtain ⟨first, rest_faithful⟩ := Bool.and_eq_true_iff.1 h
    rw [Entries.find?_cons] at hf
    split at hf
    · cases hf
      exact first
    · exact ih rest_faithful hf

mutual

/-- Written as a whole, a constant stands for itself. -/
theorem isFaithful_strip : (t : Term) → t.isConstant = true → t.strip.isFaithful = true
  | .literal value, h => isFaithful_strip value h
  | .mapping entries, h => haveFaithful_stripEntries entries h
  | .list items, h => areFaithful_stripItems items h
  | .tuple items, h => areFaithful_stripItems items h
  | .scalar _, h => h
  | .mark m, _ => by cases m <;> rfl
  | .record .., _ => rfl
  | .function _, _ => rfl
  | .policy .., _ => rfl
  | .resolver .., _ => rfl
  | .ownPolicy .., _ => rfl
  | .selector _, _ => rfl
  | .mutation _, _ => rfl
  | .foreign _, _ => rfl

theorem haveFaithful_stripEntries : (entries : List (Term × Term)) →
    haveConstants entries = true → haveFaithful (stripEntries entries) = true
  | [], _ => rfl
  | (_, value) :: rest, h => by
    obtain ⟨first, rest_constant⟩ := Bool.and_eq_true_iff.1 h
    rw [stripEntries]
    split
    · exact haveFaithful_stripEntries rest rest_constant
    · exact Bool.and_eq_true_iff.2
        ⟨isFaithful_strip value first, haveFaithful_stripEntries rest rest_constant⟩

theorem areFaithful_stripItems : (items : List Term) → areConstant items = true →
    areFaithful (stripItems items) = true
  | [], _ => rfl
  | item :: rest, h => by
    obtain ⟨first, rest_constant⟩ := Bool.and_eq_true_iff.1 h
    exact Bool.and_eq_true_iff.2
      ⟨isFaithful_strip item first, areFaithful_stripItems rest rest_constant⟩

end

mutual

/-- What a constant makes of a field stands for itself if the field did. -/
theorem isFaithful_effect : (t : Term) → t.isConstant = true → ∀ old : Option Term,
    (∀ v ∈ old, v.isFaithful = true) → ∀ v ∈ Patch.effect old t, v.isFaithful = true
  | .mapping entries, h, old, faithful, v, hv => by
    have written : v = .mapping (stripEntries entries) → v.isFaithful = true := by
      rintro rfl
      exact haveFaithful_stripEntries entries h
    -- Only an object that meets an object keeps old fields; all else is written stripped.
    rcases old with _ | old
    · exact written (Option.some.inj hv).symm
    · cases old with
      | mapping inner =>
        cases hv
        exact haveFaithful_mergeEntries entries h inner (faithful _ rfl)
      | _ => exact written (Option.some.inj hv).symm
  | .mark .remove, _, _, _, _, hv => nomatch hv
  | .mark .keepOld, h, _, _, _, hv => Option.some.inj hv ▸ isFaithful_strip _ h
  | .mark .reject, h, _, _, _, hv => Option.some.inj hv ▸ isFaithful_strip _ h
  | .mark .abort, h, _, _, _, hv => Option.some.inj hv ▸ isFaithful_strip _ h
  | .scalar _, h, _, _, _, hv => Option.some.inj hv ▸ isFaithful_strip _ h
  | .list _, h, _, _, _, hv => Option.some.inj hv ▸ isFaithful_strip _ h
  | .tuple _, h, _, _, _, hv => Option.some.inj hv ▸ isFaithful_strip _ h
  | .literal _, h, _, _, _, hv => Option.some.inj hv ▸ isFaithful_strip _ h
  | .record .., h, _, _, _, hv => Option.some.inj hv ▸ isFaithful_strip _ h
  | .function _, h, _, _, _, hv => Option.some.inj hv ▸ isFaithful_strip _ h
  | .policy .., h, _, _, _, hv => Option.some.inj hv ▸ isFaithful_strip _ h
  | .resolver .., h, _, _, _, hv => Option.some.inj hv ▸ isFaithful_strip _ h
  | .ownPolicy .., h, _, _, _, hv => Option.some.inj hv ▸ isFaithful_strip _ h
  | .selector _, h, _, _, _, hv => Option.some.inj hv ▸ isFaithful_strip _ h
  | .mutation _, h, _, _, _, hv => Option.some.inj hv ▸ isFaithful_strip _ h
  | .foreign _, h, _, _, _, hv => Option.some.inj hv ▸ isFaithful_strip _ h

/-- Merging constants into what stands for itself gives what stands for itself. -/
theorem haveFaithful_mergeEntries : (entries : List (Term × Term)) →
    haveConstants entries = true → ∀ existing, haveFaithful existing = true →
      haveFaithful (Patch.mergeEntries existing entries) = true
  | [], _, _, faithful => faithful
  | (key, value) :: rest, h, existing, faithful => by
    obtain ⟨first, rest_constant⟩ := Bool.and_eq_true_iff.1 h
    rw [Patch.mergeEntries]
    refine haveFaithful_mergeEntries rest rest_constant _ ?_
    have made := isFaithful_effect value first (Entries.find? existing key) fun v hv =>
      isFaithful_of_find? faithful hv
    rw [Patch.mergeEntry_eq]
    cases hm : Patch.effect (Entries.find? existing key) value with
    | none => exact haveFaithful_erase faithful
    | some v => exact haveFaithful_put faithful (made v hm)

end

mutual

/-- What stands for itself is the value that validation accepts. -/
theorem toTerm_of_validate : (t : Term) → t.isFaithful = true → ∀ path value,
    t.validate path = .ok value → value.toTerm = t
  | .scalar _, _, _, _, rfl => rfl
  | .list items, h, path, value, hv => by
    rw [validate] at hv
    obtain ⟨values, hr, rfl⟩ := exists_of_map_ok hv
    exact congrArg Term.list (itemsToTerms_of_validateItems items h path 0 values hr)
  | .mapping entries, h, path, value, hv => by
    rw [validate] at hv
    obtain ⟨fields, hr, rfl⟩ := exists_of_map_ok hv
    exact congrArg Term.mapping (fieldsToEntries_of_validateEntries entries h path fields hr)
  | .tuple _, h, _, _, _ => nomatch h
  | .mark _, _, _, _, h => nomatch h
  | .literal _, _, _, _, h => nomatch h
  | .expression .., _, _, _, h => nomatch h
  | .record .., _, _, _, h => nomatch h
  | .function _, _, _, _, h => nomatch h
  | .policy .., _, _, _, h => nomatch h
  | .resolver .., _, _, _, h => nomatch h
  | .ownPolicy .., _, _, _, h => nomatch h
  | .selector _, _, _, _, h => nomatch h
  | .mutation _, _, _, _, h => nomatch h
  | .foreign _, _, _, _, h => nomatch h

theorem itemsToTerms_of_validateItems : (items : List Term) → areFaithful items = true →
    ∀ path index values, validateItems path index items = .ok values →
      Value.itemsToTerms values = items
  | [], _, _, _, _, rfl => rfl
  | item :: rest, h, path, index, values, hv => by
    obtain ⟨first, rest_faithful⟩ := Bool.and_eq_true_iff.1 h
    rw [validateItems] at hv
    obtain ⟨r, hr, hv⟩ := exists_of_bind_ok hv
    obtain ⟨rs, hs, hv⟩ := exists_of_bind_ok hv
    cases hv
    rw [Value.itemsToTerms, toTerm_of_validate item first _ r hr,
      itemsToTerms_of_validateItems rest rest_faithful _ _ rs hs]

theorem fieldsToEntries_of_validateEntries : (entries : List (Term × Term)) →
    haveFaithful entries = true → ∀ path fields, validateEntries path entries = .ok fields →
      Value.fieldsToEntries fields = entries
  | [], _, _, _, rfl => rfl
  | (.scalar (.text label), value) :: rest, h, path, fields, hv => by
    obtain ⟨first, rest_faithful⟩ := Bool.and_eq_true_iff.1 h
    rw [validateEntries] at hv
    obtain ⟨r, hr, hv⟩ := exists_of_bind_ok hv
    obtain ⟨rs, hs, hv⟩ := exists_of_bind_ok hv
    cases hv
    rw [Value.fieldsToEntries, toTerm_of_validate value first _ r hr,
      fieldsToEntries_of_validateEntries rest rest_faithful _ rs hs]
    rfl

end

end Term

namespace Value

mutual

/-- A value without NaN stands for itself. -/
theorem isFaithful_toTerm : (v : Value) → v.toTerm.isFaithful = v.lacksNaN
  | .scalar _ => rfl
  | .list items => areFaithful_itemsToTerms items
  | .object fields => haveFaithful_fieldsToEntries fields

theorem areFaithful_itemsToTerms : (items : List Value) →
    Term.areFaithful (itemsToTerms items) = itemsLackNaN items
  | [] => rfl
  | item :: rest => by
    rw [itemsToTerms, Term.areFaithful, isFaithful_toTerm item, areFaithful_itemsToTerms rest,
      itemsLackNaN]

theorem haveFaithful_fieldsToEntries : (fields : List (String × Value)) →
    Term.haveFaithful (fieldsToEntries fields) = fieldsLackNaN fields
  | [] => rfl
  | (_, value) :: rest => by
    rw [fieldsToEntries, Term.haveFaithful, isFaithful_toTerm value,
      haveFaithful_fieldsToEntries rest, fieldsLackNaN]

end

mutual

/-- A value without NaN is a constant. -/
theorem isConstant_toTerm : (v : Value) → v.toTerm.isConstant = v.lacksNaN
  | .scalar _ => rfl
  | .list items => areConstant_itemsToTerms items
  | .object fields => haveConstants_fieldsToEntries fields

theorem areConstant_itemsToTerms : (items : List Value) →
    Term.areConstant (itemsToTerms items) = itemsLackNaN items
  | [] => rfl
  | item :: rest => by
    rw [itemsToTerms, Term.areConstant, isConstant_toTerm item, areConstant_itemsToTerms rest,
      itemsLackNaN]

theorem haveConstants_fieldsToEntries : (fields : List (String × Value)) →
    Term.haveConstants (fieldsToEntries fields) = fieldsLackNaN fields
  | [] => rfl
  | (_, value) :: rest => by
    rw [fieldsToEntries, Term.haveConstants, isConstant_toTerm value,
      haveConstants_fieldsToEntries rest, fieldsLackNaN]

end

mutual

theorem isLabelled_toTerm : (v : Value) → v.IsSettled → Patch.IsLabelled v.toTerm
  | .scalar _, _ => trivial
  | .list _, _ => trivial
  | .object fields, h =>
    ⟨labels_fieldsToEntries fields ▸ h.1, labelledEntries_fieldsToEntries fields h.2⟩

theorem labelledEntries_fieldsToEntries : (fields : List (String × Value)) →
    SettledFields fields → Patch.LabelledEntries (fieldsToEntries fields)
  | [], _ => trivial
  | (label, value) :: rest, h =>
    ⟨⟨label, rfl⟩, isLabelled_toTerm value h.1, labelledEntries_fieldsToEntries rest h.2⟩

end

end Value

/-! ## Documents that are kept -/

namespace Document

variable {old new d : Document} {entries : List (Term × Term)}

theorem toEntries_inj (h : old.toEntries = new.toEntries) : old = new := by
  have valid := Term.validateDocument_toTerm "" old
  rw [toTerm, h] at valid
  exact Except.ok.inj (valid.symm.trans (Term.validateDocument_toTerm "" new))

/-- A document whose labels occur once and that lacks NaN. -/
structure IsStable (d : Document) : Prop where
  settled : d.IsSettled
  lacksNaN : d.lacksNaN = true

/-- A stable document is read back as it was written. -/
theorem IsStable.reread (h : d.IsStable) : d.reread = d :=
  Value.rereadFields_of_lackNaN d h.lacksNaN

theorem IsStable.same_self (h : d.IsStable) : d.same d = true :=
  Value.same_self (.object d) h.lacksNaN h.settled

theorem IsStable.find? {label : String} {value : Value} (h : d.IsStable)
    (hf : Entries.find? d label = some value) : value.same value = true := by
  obtain ⟨settled, lacks⟩ := h
  obtain ⟨-, settled⟩ := settled
  unfold Document.lacksNaN at lacks
  induction d with
  | nil => cases hf
  | cons e rest ih =>
    obtain ⟨k, v⟩ := e
    obtain ⟨first, rest_lacks⟩ := Bool.and_eq_true_iff.1 lacks
    rw [Entries.find?_cons] at hf
    split at hf
    · cases hf
      exact Value.same_self _ first settled.1
    · exact ih hf rest_lacks settled.2

theorem merge_eq (old : Document) (entries : List (Term × Term)) :
    Patch.merge old.toEntries entries = Patch.mergeEntries old.toEntries entries := by
  unfold Patch.merge toEntries
  rw [Value.copyEntries_fieldsToEntries]

theorem IsStable.merge (h : old.IsStable) (k : new.IsStable) : (old.merge new).IsStable := by
  have merged := Term.haveFaithful_mergeEntries new.toEntries
    ((Value.haveConstants_fieldsToEntries new).trans k.lacksNaN) old.toEntries
    ((Value.haveFaithful_fieldsToEntries old).trans h.lacksNaN)
  rw [← merge_eq, merge_toEntries] at merged
  exact ⟨h.settled.merge k.settled,
    (Value.haveFaithful_fieldsToEntries (old.merge new)).symm.trans merged⟩

/-- A document that was merged is absorbed. -/
theorem merge_merge (h : old.IsSettled) (k : new.IsSettled) :
    (old.merge new).merge new = old.merge new := by
  refine toEntries_inj ?_
  rw [← merge_toEntries, merge_eq, ← merge_toEntries, merge_eq]
  exact Patch.mergeEntries_again (Value.isLabelled_toTerm (.object new) k) h.toTerm

/-- A document absorbs itself. -/
theorem merge_self (h : d.IsSettled) : d.merge d = d := by
  refine toEntries_inj ?_
  have again := Patch.effect_effect d.toTerm (Value.isLabelled_toTerm (.object d) h) none
    fun _ hv => nomatch hv
  have stripped : Patch.effect none d.toTerm = some d.toTerm :=
    congrArg (fun entries => some (Term.mapping entries)) (Value.stripEntries_fieldsToEntries d)
  rw [stripped] at again
  rw [← merge_toEntries, merge_eq]
  exact Term.mapping.inj (Option.some.inj again)

/-- The key that a merged document brings along is the one of the result. -/
theorem find?_merge {label : String} {s : Scalar} (h : old.IsSettled) (k : new.IsSettled)
    (hf : Entries.find? new label = some (.scalar s)) :
    Entries.find? (old.merge new) label = some (.scalar s) := by
  have labelled : Patch.IsLabelled (.mapping new.toEntries) :=
    Value.isLabelled_toTerm (.object new) k
  have entry : Entries.find? new.toEntries (.text label) = some (.scalar s) := by
    rw [toEntries, Value.find?_fieldsToEntries, hf]
    rfl
  have found : Entries.find? (Patch.mergeEntries old.toEntries new.toEntries) (.text label) =
      some (.scalar s) := by
    rw [Patch.find?_mergeEntries (fun e he => (labelled.2.of_mem he).1) labelled.1 h.toTerm.1,
      entry]
    rfl
  rw [← merge_eq, merge_toEntries, toEntries, Value.find?_fieldsToEntries] at found
  obtain ⟨value, hv, scalar⟩ := Option.map_eq_some_iff.1 found
  rw [hv]
  cases value with
  | scalar t =>
    cases scalar
    rfl
  | _ => cases scalar

end Document

/-! ## Patches that are absorbed -/

namespace Patch

variable {old d : Document} {entries : List (Term × Term)}

/-- A patch that was given as a mapping and accepted, of constants. -/
structure IsReplayable (entries : List (Term × Term)) : Prop where
  valid : (Term.mapping entries).validatePatch "" = .ok ()
  settled : (Term.mapping entries).IsSettled
  constants : Term.haveConstants entries = true

theorem IsReplayable.evaluate (h : IsReplayable entries) (existing : Term) :
    evaluate existing (.mapping entries) = .ok (Term.listedEntries entries) := by
  show lift (Term.evaluatePatchEntries existing entries) = _
  rw [Term.evaluatePatchEntries_of_haveConstants existing entries h.constants]
  rfl

/-- What the patch makes of a stable document is one that absorbs the patch. -/
theorem IsReplayable.absorbed (h : IsReplayable entries) (stable : old.IsStable) {what : String}
    (hd : (Term.mapping (merge old.toEntries (Term.listedEntries entries))).validateDocument what =
      .ok d) :
    d.IsStable ∧ merge d.toEntries (Term.listedEntries entries) = d.toEntries := by
  have labelled : IsLabelled (Term.mapping entries).listed :=
    Term.isLabelled_listed _ h.settled _ h.valid
  have listed := @Term.settledEntries_evaluatePatchEntries .null trivial
    entries h.settled.2 _ (Term.evaluatePatchEntries_of_haveConstants _ _ h.constants)
  have faithful := Term.haveFaithful_mergeEntries _
    (Term.haveConstants_listedEntries entries h.constants) old.toEntries
    ((Value.haveFaithful_fieldsToEntries old).trans stable.lacksNaN)
  rw [← Document.merge_eq] at faithful
  have whole : d.toEntries = merge old.toEntries (Term.listedEntries entries) :=
    Term.fieldsToEntries_of_validateEntries _ faithful "" d hd
  refine ⟨⟨?_, ?_⟩, ?_⟩
  · exact Term.isSettled_validateDocument (Term.isSettled_merge stable.settled.toTerm listed.2) hd
  · rw [← whole] at faithful
    exact (Value.haveFaithful_fieldsToEntries d).symm.trans faithful
  · rw [Document.merge_eq, whole, Document.merge_eq]
    exact mergeEntries_again labelled stable.settled.toTerm

end Patch

end Folio
