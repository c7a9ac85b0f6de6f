import Folio.Proofs.Causes
import Folio.Proofs.Grammar
import Folio.Proofs.Isolation
/-!
# Removal marks that stay

A patch without expressions that is accepted as a mapping can be merged into every document. A
literal never outlives this, and neither does a removal mark that is the value of a field. A mark
anywhere else, as an item of a list or inside of a literal, is written as it stands, so that no
document comes of it. Main statement: whether a patch keeps such a mark can be told from the patch
alone. If it keeps none, its results are documents and a target can only fail for its key, by the
hook or by the store; if it keeps one, the patch changes nothing and fails on every document.
-/

namespace Folio

open Run StoreState

namespace Term

mutual

/-- Whether a part of a patch holds no expression. -/
def isFixed : Term → Bool
  | .expression .. => false
  | .literal value => value.isFixed
  | .list items => areFixed items
  | .tuple items => areFixed items
  | .mapping entries => haveFixed entries
  | _ => true

/-- Whether the items hold no expression. -/
def areFixed : List Term → Bool
  | [] => true
  | item :: rest => item.isFixed && areFixed rest

/-- Whether the values of the entries hold no expression. -/
def haveFixed : List (Term × Term) → Bool
  | [] => true
  | (_, value) :: rest => value.isFixed && haveFixed rest

end

mutual

/-- Whether a mark stays when a part of a patch is written as a whole: a mark that is not the value
of a field. -/
def keepsMark : Term → Bool
  | .mark _ => true
  | .literal value => value.keepsMark
  | .list items => itemsKeepMark items
  | .tuple items => itemsKeepMark items
  | .mapping entries => entriesKeepMark entries
  | _ => false

/-- Whether a mark stays in one of the items. -/
def itemsKeepMark : List Term → Bool
  | [] => false
  | item :: rest => item.keepsMark || itemsKeepMark rest

/-- Whether a mark stays in one of the fields that are not removed. -/
def entriesKeepMark : List (Term × Term) → Bool
  | [] => false
  | (_, value) :: rest => (!value.isRemoval && value.keepsMark) || entriesKeepMark rest

end

/-- What validation lets a part of a patch be, expressions left out. -/
inductive IsPlain : Term → Prop
  | scalar (s : Scalar) : IsPlain (.scalar s)
  | remove : IsPlain (.mark .remove)
  | literal {value : Term} (plain : IsPlain value) : IsPlain (.literal value)
  | list {items : List Term} (plain : ∀ t ∈ items, IsPlain t) : IsPlain (.list items)
  | tuple {items : List Term} (plain : ∀ t ∈ items, IsPlain t) : IsPlain (.tuple items)
  | mapping {entries : List (Term × Term)} (keys : ∀ e ∈ entries, ∃ label, e.1 = .text label)
      (plain : ∀ e ∈ entries, IsPlain e.2) : IsPlain (.mapping entries)

/-- A term that is refused for a removal mark wherever it is. -/
def IsMarked (t : Term) : Prop :=
  ∀ path, ∃ place, t.validate path = .error (.unsupported "_Remove" place)

variable {t value key : Term} {items : List Term} {entries existing : List (Term × Term)}

/-! ## Plain patches -/

mutual

theorem isPlain_of_validatePatch : (t : Term) → ∀ path, t.validatePatch path = .ok () →
    t.isFixed = true → t.IsPlain
  | .scalar s, _, _, _ => .scalar s
  | .mark .remove, _, _, _ => .remove
  | .literal value, path, h, fixed => .literal (isPlain_of_validatePatch value path h fixed)
  | .list items, path, h, fixed => .list (plain_of_validatePatchItems items path 0 h fixed)
  | .tuple items, path, h, fixed => .tuple (plain_of_validatePatchItems items path 0 h fixed)
  | .mapping entries, path, h, fixed =>
    .mapping (fun e he => (plain_of_validatePatchEntries entries path h fixed e he).1)
      fun e he => (plain_of_validatePatchEntries entries path h fixed e he).2
  | .mark .keepOld, _, h, _ => nomatch h
  | .mark .reject, _, h, _ => nomatch h
  | .mark .abort, _, h, _ => nomatch h
  | .expression .., _, _, fixed => nomatch fixed
  | .record .., _, h, _ => nomatch h
  | .function _, _, h, _ => nomatch h
  | .policy .., _, h, _ => nomatch h
  | .resolver .., _, h, _ => nomatch h
  | .ownPolicy .., _, h, _ => nomatch h
  | .selector _, _, h, _ => nomatch h
  | .mutation _, _, h, _ => nomatch h
  | .foreign _, _, h, _ => nomatch h

theorem plain_of_validatePatchItems : (items : List Term) → ∀ path index,
    validatePatchItems path index items = .ok () → areFixed items = true → ∀ t ∈ items, t.IsPlain
  | [], _, _, _, _ => fun _ ht => nomatch ht
  | item :: rest, path, index, h, fixed => by
    obtain ⟨first, rest_fixed⟩ := Bool.and_eq_true_iff.1 fixed
    obtain ⟨⟨⟩, valid, rest_valid⟩ := exists_of_bind_ok h
    exact List.forall_mem_cons.2 ⟨isPlain_of_validatePatch item _ valid first,
      plain_of_validatePatchItems rest path _ rest_valid rest_fixed⟩

theorem plain_of_validatePatchEntries : (entries : List (Term × Term)) → ∀ path,
    validatePatchEntries path entries = .ok () → haveFixed entries = true →
      ∀ e ∈ entries, (∃ label, e.1 = .text label) ∧ e.2.IsPlain
  | [], _, _, _ => fun _ he => nomatch he
  | (.scalar (.text label), value) :: rest, path, h, fixed => by
    obtain ⟨first, rest_fixed⟩ := Bool.and_eq_true_iff.1 fixed
    obtain ⟨⟨⟩, valid, rest_valid⟩ := exists_of_bind_ok h
    exact List.forall_mem_cons.2 ⟨⟨⟨label, rfl⟩, isPlain_of_validatePatch value _ valid first⟩,
      plain_of_validatePatchEntries rest path rest_valid rest_fixed⟩

end

theorem itemsKeepMark_iff :
    itemsKeepMark items = true ↔ ∃ t ∈ items, t.keepsMark = true := by
  induction items with
  | nil => simp [itemsKeepMark]
  | cons item rest ih => rw [itemsKeepMark, Bool.or_eq_true_iff, ih, List.exists_mem_cons_iff]

theorem entriesKeepMark_iff : entriesKeepMark entries = true ↔
    ∃ e ∈ entries, e.2.isRemoval = false ∧ e.2.keepsMark = true := by
  induction entries with
  | nil => simp [entriesKeepMark]
  | cons e rest ih =>
    rw [entriesKeepMark, Bool.or_eq_true_iff, Bool.and_eq_true_iff, Bool.not_eq_true', ih,
      List.exists_mem_cons_iff]

theorem evaluatePatchItems_eq {existing : Term}
    (h : ∀ t ∈ items, evaluatePatch existing t = .ok t.listed) :
    evaluatePatchItems existing items = .ok (listedItems items) := by
  induction items with
  | nil => rfl
  | cons item rest ih =>
    rw [evaluatePatchItems, h item List.mem_cons_self,
      ih fun t ht => h t (List.mem_cons_of_mem _ ht)]
    rfl

theorem evaluatePatchEntries_eq {existing : Term}
    (h : ∀ e ∈ entries, evaluatePatch existing e.2 = .ok e.2.listed) :
    evaluatePatchEntries existing entries = .ok (listedEntries entries) := by
  induction entries with
  | nil => rfl
  | cons e rest ih =>
    rw [evaluatePatchEntries, h e List.mem_cons_self,
      ih fun e he => h e (List.mem_cons_of_mem _ he)]
    rfl

theorem forall_listedItems {p : Term → Prop} (h : ∀ t ∈ items, p t.listed) :
    ∀ t ∈ listedItems items, p t := by
  rw [listedItems_eq]
  intro t ht
  obtain ⟨item, hi, rfl⟩ := List.mem_map.1 ht
  exact h item hi

theorem isRemoval_listed (t : Term) : t.listed.isRemoval = t.isRemoval := by
  cases t <;> rfl

theorem itemsKeepMark_listedItems (h : ∀ t ∈ items, t.listed.keepsMark = t.keepsMark) :
    itemsKeepMark (listedItems items) = itemsKeepMark items := by
  induction items with
  | nil => rfl
  | cons item rest ih =>
    rw [listedItems, itemsKeepMark, itemsKeepMark, h item List.mem_cons_self,
      ih fun t ht => h t (List.mem_cons_of_mem _ ht)]

theorem entriesKeepMark_listedEntries
    (h : ∀ e ∈ entries, e.2.listed.keepsMark = e.2.keepsMark) :
    entriesKeepMark (listedEntries entries) = entriesKeepMark entries := by
  induction entries with
  | nil => rfl
  | cons e rest ih =>
    rw [listedEntries, entriesKeepMark, entriesKeepMark, h e List.mem_cons_self,
      isRemoval_listed, ih fun e he => h e (List.mem_cons_of_mem _ he)]

/-- A plain part of a patch is evaluated to itself, on every document, but for its tuples. -/
theorem IsPlain.evaluated (h : t.IsPlain) (existing : Term) :
    evaluatePatch existing t = .ok t.listed ∧ t.listed.IsPlain ∧
      t.listed.keepsMark = t.keepsMark := by
  induction h with
  | scalar s => exact ⟨rfl, .scalar s, rfl⟩
  | remove => exact ⟨rfl, .remove, rfl⟩
  | literal _ ih =>
    refine ⟨?_, .literal ih.2.1, ih.2.2⟩
    rw [evaluatePatch, ih.1]
    rfl
  | list _ ih =>
    refine ⟨?_, .list ?_, ?_⟩
    · rw [evaluatePatch, evaluatePatchItems_eq fun t ht => (ih t ht).1]
      rfl
    · exact forall_listedItems fun t ht => (ih t ht).2.1
    · exact itemsKeepMark_listedItems fun t ht => (ih t ht).2.2
  | tuple _ ih =>
    refine ⟨?_, .list ?_, ?_⟩
    · rw [evaluatePatch, evaluatePatchItems_eq fun t ht => (ih t ht).1]
      rfl
    · exact forall_listedItems fun t ht => (ih t ht).2.1
    · exact itemsKeepMark_listedItems fun t ht => (ih t ht).2.2
  | @mapping entries keys _ ih =>
    have entry : ∀ e ∈ listedEntries entries, (∃ label, e.1 = .text label) ∧ e.2.IsPlain := by
      rw [listedEntries_eq]
      intro e he
      obtain ⟨old, ho, rfl⟩ := List.mem_map.1 he
      exact ⟨keys old ho, (ih old ho).2.1⟩
    refine ⟨?_, .mapping (fun e he => (entry e he).1) fun e he => (entry e he).2, ?_⟩
    · rw [evaluatePatch, evaluatePatchEntries_eq fun e he => (ih e he).1]
      rfl
    · exact entriesKeepMark_listedEntries fun e he => (ih e he).2.2

/-! ## Valid and marked terms -/

/-- The first marked item of a list is what it is refused for. -/
theorem isMarked_list (h : ∀ t ∈ items, t.IsValid ∨ t.IsMarked) (found : ∃ t ∈ items, t.IsMarked) :
    (list items).IsMarked := by
  -- Along the items that are left; the index only shows in the place of the error.
  have first : ∀ path index, ∃ place,
      validateItems path index items = .error (.unsupported "_Remove" place) := by
    intro path
    induction items with
    | nil => exact nomatch found.choose_spec.1
    | cons item rest ih =>
      intro index
      obtain ⟨here, others⟩ := List.forall_mem_cons.1 h
      rw [validateItems]
      rcases here with valid | marked
      · obtain ⟨v, hv⟩ := valid (itemPath path index)
        have later : ∃ t ∈ rest, t.IsMarked := by
          refine ((List.exists_mem_cons_iff _ _ _).1 found).resolve_left fun marked => ?_
          obtain ⟨place, refused⟩ := marked (itemPath path index)
          cases hv.symm.trans refused
        obtain ⟨place, refused⟩ := ih others later (index + 1)
        rw [hv, refused]
        exact ⟨place, rfl⟩
      · obtain ⟨place, refused⟩ := marked (itemPath path index)
        rw [refused]
        exact ⟨place, rfl⟩
  intro path
  obtain ⟨place, refused⟩ := first path 0
  rw [validate, refused]
  exact ⟨place, rfl⟩

/-- The first marked field of a mapping is what it is refused for. -/
theorem exists_refused (keys : ∀ e ∈ entries, ∃ label, e.1 = .text label)
    (h : ∀ e ∈ entries, e.2.IsValid ∨ e.2.IsMarked) (found : ∃ e ∈ entries, e.2.IsMarked)
    (path : String) :
    ∃ place, validateEntries path entries = .error (.unsupported "_Remove" place) := by
  induction entries with
  | nil => exact nomatch found.choose_spec.1
  | cons e rest ih =>
    obtain ⟨key, value⟩ := e
    obtain ⟨⟨label, rfl⟩, rest_keys⟩ := List.forall_mem_cons.1 keys
    obtain ⟨here, others⟩ := List.forall_mem_cons.1 h
    rw [text, validateEntries]
    rcases here with valid | marked
    · obtain ⟨v, hv⟩ := valid (fieldPath path label)
      have later : ∃ e ∈ rest, e.2.IsMarked := by
        refine ((List.exists_mem_cons_iff _ _ _).1 found).resolve_left fun marked => ?_
        obtain ⟨place, refused⟩ := marked (fieldPath path label)
        cases hv.symm.trans refused
      obtain ⟨place, refused⟩ := ih rest_keys others later
      rw [hv, refused]
      exact ⟨place, rfl⟩
    · obtain ⟨place, refused⟩ := marked (fieldPath path label)
      rw [refused]
      exact ⟨place, rfl⟩

theorem isMarked_mapping (keys : ∀ e ∈ entries, ∃ label, e.1 = .text label)
    (h : ∀ e ∈ entries, e.2.IsValid ∨ e.2.IsMarked) (found : ∃ e ∈ entries, e.2.IsMarked) :
    (mapping entries).IsMarked := by
  intro path
  obtain ⟨place, refused⟩ := exists_refused keys h found path
  rw [validate, refused]
  exact ⟨place, rfl⟩

/-- Whether a term stands for a value, or is refused for a mark. -/
def Comes (marked : Bool) (t : Term) : Prop := if marked then t.IsMarked else t.IsValid

theorem Comes.or {marked : Bool} (h : t.Comes marked) : t.IsValid ∨ t.IsMarked := by
  cases marked
  · exact .inl h
  · exact .inr h

/-- A list comes to what the first of its items does that is no value. -/
theorem comes_list {source : List Term} {f : Term → Term}
    (h : ∀ t ∈ source, (f t).Comes t.keepsMark) :
    (list (source.map f)).Comes (itemsKeepMark source) := by
  cases keeps : itemsKeepMark source with
  | false =>
    refine isValid_list fun t ht => ?_
    obtain ⟨item, hi, rfl⟩ := List.mem_map.1 ht
    have clean : item.keepsMark = false := Bool.eq_false_iff.2 fun kept =>
      Bool.false_ne_true (keeps.symm.trans (itemsKeepMark_iff.2 ⟨item, hi, kept⟩))
    have comes := h item hi
    rwa [clean] at comes
  | true =>
    refine isMarked_list (fun t ht => ?_) ?_
    · obtain ⟨item, hi, rfl⟩ := List.mem_map.1 ht
      exact (h item hi).or
    · obtain ⟨item, hi, kept⟩ := itemsKeepMark_iff.1 keeps
      have comes := h item hi
      rw [kept] at comes
      exact ⟨f item, List.mem_map_of_mem hi, comes⟩

/-- A mapping comes to what the fields do that a patch has written, if the others are values. -/
theorem comes_mapping {source : List (Term × Term)}
    (keys : ∀ e ∈ entries, ∃ label, e.1 = .text label)
    (written : ∀ e ∈ entries, e.2.IsValid ∨
      ∃ f ∈ source, f.2.isRemoval = false ∧ e.2.Comes f.2.keepsMark)
    (present : ∀ f ∈ source, f.2.isRemoval = false →
      ∃ e ∈ entries, e.2.Comes f.2.keepsMark) :
    (mapping entries).Comes (entriesKeepMark source) := by
  cases keeps : entriesKeepMark source with
  | false =>
    refine isValid_mapping keys fun e he => ?_
    rcases written e he with valid | ⟨f, hf, stays, comes⟩
    · exact valid
    · have clean : f.2.keepsMark = false := Bool.eq_false_iff.2 fun kept =>
        Bool.false_ne_true (keeps.symm.trans (entriesKeepMark_iff.2 ⟨f, hf, stays, kept⟩))
      rwa [clean] at comes
  | true =>
    refine isMarked_mapping keys (fun e he => ?_) ?_
    · rcases written e he with valid | ⟨f, hf, stays, comes⟩
      · exact .inl valid
      · exact comes.or
    · obtain ⟨f, hf, stays, kept⟩ := entriesKeepMark_iff.1 keeps
      obtain ⟨e, he, comes⟩ := present f hf stays
      rw [kept] at comes
      exact ⟨e, he, comes⟩

/-! ## Written as a whole -/

theorem stripItems_eq_map (items : List Term) : stripItems items = items.map strip := by
  induction items with
  | nil => rfl
  | cons item rest ih => rw [stripItems, ih, List.map_cons]

theorem mem_stripEntries {e : Term × Term} : e ∈ stripEntries entries ↔
    ∃ f ∈ entries, f.2.isRemoval = false ∧ e = (f.1, f.2.strip) := by
  induction entries with
  | nil => simp [stripEntries]
  | cons f rest ih =>
    rw [stripEntries, List.exists_mem_cons_iff]
    split
    · rename_i removed
      simp [removed, ih]
    · rename_i stays
      rw [List.mem_cons, ih, Bool.eq_false_iff.2 stays]
      simp

/-- What a plain part of a patch is written as is a value, or keeps a mark. -/
theorem IsPlain.comes_strip (h : t.IsPlain) : t.strip.Comes t.keepsMark := by
  induction h with
  | scalar s => exact fun path => ⟨.scalar s, rfl⟩
  | remove => exact fun path => ⟨path, rfl⟩
  | literal _ ih => exact ih
  | @list items _ ih =>
    rw [strip, stripItems_eq_map]
    exact comes_list ih
  | @tuple items _ ih =>
    rw [strip, stripItems_eq_map]
    exact comes_list ih
  | @mapping entries keys _ ih =>
    refine comes_mapping (fun e he => ?_) (fun e he => ?_) fun f hf stays => ?_
    · obtain ⟨f, hf, -, rfl⟩ := mem_stripEntries.1 he
      exact keys f hf
    · obtain ⟨f, hf, stays, rfl⟩ := mem_stripEntries.1 he
      exact .inr ⟨f, hf, stays, ih f hf⟩
    · exact ⟨_, mem_stripEntries.2 ⟨f, hf, stays, rfl⟩, ih f hf⟩

/-! ## Merged into documents -/

variable {label : String}

theorem keys_put (h : ∀ e ∈ entries, ∃ label, e.1 = .text label) :
    ∀ e ∈ Entries.put entries (text label) value, ∃ label, e.1 = .text label := by
  induction entries with
  | nil => exact List.forall_mem_singleton.2 ⟨label, rfl⟩
  | cons e rest ih =>
    obtain ⟨here, others⟩ := List.forall_mem_cons.1 h
    rw [Entries.put]
    split
    · exact List.forall_mem_cons.2 ⟨here, others⟩
    · exact List.forall_mem_cons.2 ⟨here, ih others⟩

end Term

namespace Patch

open Term

variable {entries existing : List (Term × Term)} {fields : List (String × Value)} {t value : Term}

theorem keys_mergeEntries (keys : ∀ e ∈ entries, ∃ label, e.1 = .text label)
    (h : ∀ e ∈ existing, ∃ label, e.1 = .text label) :
    ∀ e ∈ mergeEntries existing entries, ∃ label, e.1 = .text label := by
  induction entries generalizing existing with
  | nil => exact h
  | cons e rest ih =>
    obtain ⟨key, value⟩ := e
    obtain ⟨⟨label, rfl⟩, rest_keys⟩ := List.forall_mem_cons.1 keys
    refine ih rest_keys ?_
    rw [mergeEntry_eq]
    cases effect (Entries.find? existing (text label)) value with
    | none => exact fun e he => h e ((Entries.erase_sublist _ _).subset he)
    | some v => exact keys_put h

theorem effect_eq_none (old : Option Term) : effect old value = none ↔ value.isRemoval = true := by
  cases value with
  | mark m => cases m <;> simp [effect, isRemoval]
  | mapping entries =>
    rcases old with _ | old
    · simp [effect, isRemoval]
    · cases old <;> simp [effect, isRemoval]
  | _ => simp [effect, isRemoval]

/-- Merged into the fields of an object, entries come to what they make of the fields. -/
theorem comes_mergeEntries (keys : ∀ e ∈ entries, ∃ label, e.1 = .text label)
    (settled : (mapping entries).IsSettled) (object : (Value.object fields).IsSettled)
    (made : ∀ e ∈ entries, ∀ old : Option Value, (∀ v ∈ old, v.IsSettled) →
      ∀ v ∈ effect (old.map Value.toTerm) e.2, v.Comes e.2.keepsMark) :
    (mapping (mergeEntries (Value.fieldsToEntries fields) entries)).Comes
      (entriesKeepMark entries) := by
  have before := Value.isSettled_toTerm (.object fields) object
  have after := isSettled_mergeEntries entries _ settled.2 before
  have found := fun label => find?_mergeEntries keys settled.1 before.1 label
  have fieldsSettled : ∀ label, ∀ v ∈ Entries.find? fields label, v.IsSettled := fun label v hv =>
    Value.isSettled_of_find? object.2 hv
  have merged_keys : ∀ e ∈ mergeEntries (Value.fieldsToEntries fields) entries,
      ∃ label, e.1 = .text label := by
    have labelled := Value.labelledEntries_fieldsToEntries fields object.2
    exact keys_mergeEntries keys fun e he => (labelled.of_mem he).1
  -- A field of the result was there before or is made of an entry, and no entry that stays is lost.
  refine comes_mapping merged_keys ?_ ?_
  · rintro ⟨key, v⟩ he
    obtain ⟨label, rfl⟩ := merged_keys _ he
    have held := find?_of_mem after.1 he
    rw [found, Value.find?_fieldsToEntries] at held
    cases entry : Entries.find? entries (text label) with
    | none =>
      rw [entry] at held
      obtain ⟨old, -, rfl⟩ := Option.map_eq_some_iff.1 held
      exact .inl (isValid_toTerm old)
    | some value =>
      rw [entry] at held
      have mem := mem_of_find? entry
      have stays : value.isRemoval = false := by
        refine Bool.eq_false_iff.2 fun removal => ?_
        cases held.symm.trans ((effect_eq_none _).2 removal)
      exact .inr ⟨_, mem, stays, made _ mem _ (fieldsSettled label) v held⟩
  · rintro ⟨key, value⟩ hf stays
    obtain ⟨label, rfl⟩ := keys _ hf
    have held := found label
    rw [Value.find?_fieldsToEntries, find?_of_mem settled.1 hf] at held
    cases result : effect ((Entries.find? fields label).map Value.toTerm) value with
    | none =>
      rw [(effect_eq_none _).1 result] at stays
      cases stays
    | some v =>
      refine ⟨(text label, v), mem_of_find? (held.trans result), ?_⟩
      exact made _ hf _ (fieldsSettled label) v result

theorem comes_of_strip {old : Option Term} (h : t.IsPlain) (made : effect old t = some t.strip) :
    ∀ v ∈ effect old t, v.Comes t.keepsMark := by
  rw [made]
  rintro v ⟨⟩
  exact h.comes_strip

/-- What a plain part of a patch makes of a field is a value, or keeps a mark. -/
theorem comes_effect (h : t.IsPlain) (settled : t.IsSettled) (old : Option Value)
    (old_settled : ∀ v ∈ old, v.IsSettled) :
    ∀ v ∈ effect (old.map Value.toTerm) t, v.Comes t.keepsMark := by
  induction h generalizing old with
  | scalar s => exact comes_of_strip (.scalar s) rfl
  | remove => exact fun v hv => nomatch hv
  | literal plain _ => exact comes_of_strip (.literal plain) rfl
  | list plain _ => exact comes_of_strip (.list plain) rfl
  | tuple plain _ => exact comes_of_strip (.tuple plain) rfl
  | @mapping entries keys plain ih =>
    rcases old with _ | (s | items | fields)
    · exact comes_of_strip (.mapping keys plain) rfl
    · exact comes_of_strip (.mapping keys plain) rfl
    · exact comes_of_strip (.mapping keys plain) rfl
    · rintro v ⟨⟩
      refine comes_mergeEntries keys settled (old_settled _ rfl) fun e he old old_settled => ?_
      obtain ⟨label, key⟩ := keys e he
      have held : Entries.find? entries e.1 = some e.2 := by
        rw [key]
        exact find?_of_mem settled.1 (key ▸ he)
      exact ih e he (settled_of_find? settled.2 held) old old_settled

/-! ## Accepted patches -/

/-- A patch without expressions that was given as a mapping and accepted. -/
structure IsFixed (entries : List (Term × Term)) : Prop where
  valid : (mapping entries).validatePatch "" = .ok ()
  settled : (mapping entries).IsSettled
  fixed : haveFixed entries = true

variable {d : Document} {what : String}

theorem exists_document (h : (mapping entries).Comes false) :
    ∃ candidate, (mapping entries).validateDocument what = .ok candidate := by
  obtain ⟨v, valid⟩ := h ""
  obtain ⟨fields, valid, -⟩ := exists_of_map_ok valid
  exact ⟨fields, valid⟩

theorem exists_place (h : (mapping entries).Comes true) : ∃ place,
    (mapping entries).validateDocument what = .error (.unsupported "_Remove" place) := by
  obtain ⟨place, refused⟩ := h ""
  refine ⟨place, ?_⟩
  rw [validate] at refused
  rw [validateDocument]
  cases valid : validateEntries "" entries with
  | ok fields =>
    rw [valid] at refused
    cases refused
  | error fault =>
    rw [valid] at refused
    cases refused
    rfl

/-- On every document the patch comes to entries, and what it keeps decides what they stand for. -/
theorem IsFixed.patched (h : IsFixed entries) (settled : d.IsSettled) :
    ∃ merged, (∀ answer, Commit.patched answer d (.mapping entries) = .ok (.mapping merged)) ∧
      (mapping merged).Comes (entriesKeepMark entries) := by
  obtain ⟨evaluated, plain, keeps⟩ :=
    (isPlain_of_validatePatch _ "" h.valid h.fixed).evaluated d.toTerm
  rw [evaluatePatch] at evaluated
  obtain ⟨results, evaluated, same⟩ := exists_of_map_ok evaluated
  obtain rfl : results = listedEntries entries := mapping.inj same
  have listed : (mapping (listedEntries entries)).IsSettled := by
    obtain ⟨labels, settled⟩ :=
      settledEntries_evaluatePatchEntries settled.toTerm entries h.settled.2 _ evaluated
    exact ⟨labels ▸ h.settled.1, settled⟩
  refine ⟨merge d.toEntries (listedEntries entries), fun answer => ?_, ?_⟩
  · have lifted : Patch.evaluate d.toTerm (.mapping entries) = .ok (listedEntries entries) := by
      show lift (evaluatePatchEntries d.toTerm entries) = _
      rw [evaluated]
      rfl
    unfold Commit.patched Commit.patchEntries
    dsimp only [callable?]
    rw [lifted]
    rfl
  · have made := comes_effect plain listed (some (.object d)) (by rintro _ ⟨⟩; exact settled) _ rfl
    have same : entriesKeepMark (listedEntries entries) = entriesKeepMark entries := keeps
    rw [Document.merge_eq, ← same]
    exact made

end Patch

/-! ## Targets -/

namespace Patch.IsFixed

open Commit Term

variable {setup : Setup} {s : StoreState} {request : Request} {task : Task} {d : Document}
variable {entries : List (Term × Term)} {calls : List Call}

/-- A patch that keeps a mark is refused for it on every document. -/
theorem judge_of_marked (h : IsFixed entries) (marked : entriesKeepMark entries = true)
    (settled : d.IsSettled) (work : task.work = .update (.mapping entries)) :
    ∃ place, judge setup calls request task (some d) =
      .error (.patchedInvalid (.unsupported "_Remove" place)) := by
  obtain ⟨merged, patched, comes⟩ := h.patched settled
  rw [marked] at comes
  obtain ⟨place, refused⟩ := @exists_place _ "document" comes
  refine ⟨place, judge_of_error ?_⟩
  rw [proposal_of_patched work (patched _)]
  unfold documentOf
  rw [refused]
  rfl

/-- A patch that keeps no mark is refused for a changed key, or by the hook. -/
theorem kind_of_judge (h : IsFixed entries) (clean : entriesKeepMark entries = false)
    (settled : d.IsSettled) (work : task.work = .update (.mapping entries)) {f : Failure}
    (failed : judge setup calls request task (some d) = .error f) :
    f.kind = .keyChanged ∨ f.kind = .hookAborted := by
  obtain ⟨merged, patched, comes⟩ := h.patched settled
  rw [clean] at comes
  obtain ⟨candidate, valid⟩ := @exists_document _ "document" comes
  have proposed : proposal (setup.answer calls) request task (some d) =
      keeping request task candidate := by
    rw [proposal_of_patched work (patched _)]
    unfold documentOf
    rw [valid]
    rfl
  rcases judge_eq_error failed with unproposed | ⟨offered, hook, -, refused⟩
  · rw [proposed] at unproposed
    exact .inl (kind_of_checkKey (keeping_eq_error unproposed))
  · exact (Hook.kind_of_decide refused).symm

end Patch.IsFixed

/-- The failure of a result that holds a mark. -/
def Failure.IsOfMark (cause : Failure) : Prop :=
  ∃ place, cause = .patchedInvalid (.unsupported "_Remove" place)

/-- An outcome failed for a cause of some sort, or for one that came from the store. -/
def FailedFor (faults : List Fault) (sort : Failure → Prop) (o : DocumentOutcome) : Prop :=
  ∃ cause : Failure, o.error = some cause.message ∧ (sort cause ∨ cause.OfStore faults)

/-- What is left when the patch of an update keeps no mark: a target can only fail for its key, by
the hook or by the store. -/
def EndsClean (faults : List Fault) (o : DocumentOutcome) : Prop :=
  o.kind = .error →
    FailedFor faults (fun cause => cause.kind = .keyChanged ∨ cause.kind = .hookAborted) o

/-- What is left when it keeps one: every target fails for the mark, or for what the store raised,
and one is only skipped if its document is absent or said to be absent by the store. -/
def EndsMarked (faults : List Fault) (db : Database) (table : String) (o : DocumentOutcome) :
    Prop :=
  (o.kind = .error ∧ FailedFor faults Failure.IsOfMark o) ∨
    o.kind = .skipped ∧ (db.find? table o.key.code = none ∨
      ∃ cause : Failure, cause.kind = .targetNotFound ∧ cause.OfStore faults)

namespace Patch.IsFixed

open Commit Term

variable {setup : Setup} {s : StoreState} {request : Request} {task : Task}
variable {entries : List (Term × Term)}

theorem judge_of_absent {patch : Term} {calls : List Call} (work : task.work = .update patch) :
    judge setup calls request task none = .ok ⟨task.outcome .skipped none none, none⟩ :=
  judge_of_settled (proposal_of_absent work)

/-- A patch that keeps no mark leaves few causes. -/
theorem cause_of_clean (h : IsFixed entries) (clean : entriesKeepMark entries = false)
    (settled : s.database.IsSettled) (work : task.work = .update (.mapping entries))
    {cause : Failure} (source : cause.IsCauseIn setup s request task) :
    (cause.kind = .keyChanged ∨ cause.kind = .hookAborted) ∨ cause.OfStore s.faults := by
  rcases source with ofStore | ⟨calls, f, rfl, judged⟩
  · exact .inr ofStore
  · cases found : s.database.find? request.table task.key.code with
    | none =>
      rw [found, judge_of_absent work] at judged
      cases judged
    | some d =>
      rw [found] at judged
      have kind := h.kind_of_judge clean (settled.find? found) work judged
      have write : f.kind.isDocumentWrite = true := by
        rcases kind with kind | kind <;> rw [kind] <;> rfl
      rw [Failure.reported_of_isDocumentWrite write]
      exact .inl kind

/-- A patch that keeps a mark fails for it, unless the store fails before. -/
theorem cause_of_marked (h : IsFixed entries) (marked : entriesKeepMark entries = true)
    (settled : s.database.IsSettled) (work : task.work = .update (.mapping entries))
    {cause : Failure} (source : cause.IsCauseIn setup s request task) :
    cause.IsOfMark ∨ cause.OfStore s.faults := by
  rcases source with ofStore | ⟨calls, f, rfl, judged⟩
  · exact .inr ofStore
  · cases found : s.database.find? request.table task.key.code with
    | none =>
      rw [found, judge_of_absent work] at judged
      cases judged
    | some d =>
      rw [found] at judged
      obtain ⟨place, refused⟩ := h.judge_of_marked marked (settled.find? found) work
      cases judged.symm.trans refused
      exact .inl ⟨place, rfl⟩

/-- A target of a patch that keeps no mark. -/
theorem process_clean (h : IsFixed entries) (clean : entriesKeepMark entries = false)
    (settled : s.database.IsSettled) (work : task.work = .update (.mapping entries)) :
    Ensures setup s (process request task) fun r _ => ∀ o, r = .ok o → EndsClean s.faults o := by
  refine process_caused.mono fun r t caused o ended failed => ?_
  rcases caused o ended with ⟨calls, v, judged, rfl⟩ | ⟨existing, cause, source, concluded⟩
  · exact absurd failed (Commit.kind_of_judge judged)
  · rcases of_settled concluded with ⟨-, rfl⟩ | rfl
    · cases failed
    · exact ⟨cause, rfl, h.cause_of_clean clean settled work source⟩

/-- A target of a patch that keeps a mark. -/
theorem process_marked (h : IsFixed entries) (marked : entriesKeepMark entries = true)
    (settled : s.database.IsSettled) (key : task.key.isKey = true)
    (work : task.work = .update (.mapping entries)) :
    Ensures setup s (process request task) fun r t => t.database = s.database ∧
      ∀ o, r = .ok o → EndsMarked s.faults s.database request.table o := by
  refine (process_caused.and (process_ends key)).mono ?_
  rintro r t ⟨caused, ends⟩
  have each : ∀ o, r = .ok o → EndsMarked s.faults s.database request.table o := by
    intro o ended
    -- A verdict is reached for an absent document only: any other is refused for the mark.
    rcases caused o ended with ⟨calls, v, judged, rfl⟩ | ⟨existing, cause, source, concluded⟩
    · cases found : s.database.find? request.table task.key.code with
      | none =>
        rw [found, judge_of_absent work] at judged
        cases judged
        exact .inr ⟨rfl, .inl found⟩
      | some d =>
        rw [found] at judged
        obtain ⟨place, refused⟩ := h.judge_of_marked marked (settled.find? found) work
        cases judged.symm.trans refused
    · have cause_eq := h.cause_of_marked marked settled work source
      rcases of_settled concluded with ⟨kind, rfl⟩ | rfl
      · refine .inr ⟨rfl, .inr ⟨cause, kind, cause_eq.resolve_left ?_⟩⟩
        rintro ⟨place, rfl⟩
        cases kind
      · exact .inl ⟨rfl, cause, rfl, cause_eq⟩
  refine ⟨?_, each⟩
  cases r with
  | error f => exact ends.2.2
  | ok o =>
    obtain ⟨-, landed⟩ := ends
    have kind : o.kind.isWrite = false := by
      rcases each o rfl with ⟨kind, -⟩ | ⟨kind, -⟩ <;> rw [kind] <;> rfl
    generalize t.database = after at landed ⊢
    cases landed with
    | kept _ => rfl
    | wrote d written =>
      rw [written] at kind
      split at kind <;> cases kind
    | removed old written =>
      rw [written] at kind
      cases kind

/-- How a target ends, by what the patch keeps. -/
def TargetEnds (entries : List (Term × Term)) (s : StoreState) (table : String)
    (o : DocumentOutcome) : Prop :=
  (entriesKeepMark entries = false → EndsClean s.faults o) ∧
    (entriesKeepMark entries = true → EndsMarked s.faults s.database table o)

/-- What every target leaves as it was: the faults, documents whose labels occur once, and the
whole database if the patch keeps a mark. -/
structure Before (entries : List (Term × Term)) (s u : StoreState) : Prop where
  faults : u.faults = s.faults
  settled : u.database.IsSettled
  database : entriesKeepMark entries = true → u.database = s.database

theorem steps (h : IsFixed entries) (functions : setup.IsSettled) {tasks : List Task}
    (keys : ∀ task ∈ tasks, task.key.isKey = true)
    (work : ∀ task ∈ tasks, task.work = .update (.mapping entries)) :
    Steps setup request tasks (Before entries s) fun _ _ r _ =>
      ∀ o, r = .ok o → TargetEnds entries s request.table o := by
  intro task ht u before
  have moved := (Commit.process_steady request task).ensures.and
    (@process_ends setup u request task (keys task ht))
  have settled : ∀ r (t : StoreState), Ends setup request task u r t.database →
      t.database.IsSettled := by
    rintro (f | o) t ends
    · rw [ends.2.2]
      exact before.settled
    · refine ends.2.isSettled ⟨functions, ?_, before.settled⟩
      rw [Task.IsSettled, work task ht]
      exact h.settled
  -- A marked patch leaves the database, so that each target still meets the rows of the start.
  cases marked : entriesKeepMark entries with
  | false =>
    refine (moved.and (h.process_clean marked before.settled (work task ht))).mono ?_
    rintro r t ⟨⟨steady, ends⟩, clean⟩
    refine ⟨⟨steady.faults.trans before.faults, settled r t ends, fun kept => ?_⟩, ?_⟩
    · cases marked.symm.trans kept
    · intro o ended
      refine ⟨fun _ => before.faults ▸ clean o ended, fun kept => ?_⟩
      cases marked.symm.trans kept
  | true =>
    refine (moved.and
      (h.process_marked marked before.settled (keys task ht) (work task ht))).mono ?_
    rintro r t ⟨⟨steady, ends⟩, same, refused⟩
    refine ⟨⟨steady.faults.trans before.faults, settled r t ends, fun _ => ?_⟩, ?_⟩
    · exact same.trans (before.database marked)
    · intro o ended
      refine ⟨fun kept => ?_, fun _ => ?_⟩
      · cases marked.symm.trans kept
      · rw [← before.faults, ← before.database marked]
        exact refused o ended

/-- The outcomes of an update by such a patch. -/
theorem outcomes_end (h : IsFixed entries) (sound : s.Sound) (pages : 0 < setup.pageSize)
    (functions : setup.IsSettled) {selector : Selector Term} {options : Options}
    {os : List DocumentOutcome} {t : StoreState}
    (came : (Writer.outcomes selector (.update (.mapping entries)) options).exec setup s =
      (.ok os, t)) :
    (entriesKeepMark entries = true → t.database = s.database) ∧
      ∀ o ∈ os, TargetEnds entries s selector.tableName o := by
  obtain ⟨⟨request, tasks⟩, p, planned, rest⟩ := exists_of_exec_bind came
  have plans := @Writer.plan_ends setup s pages sound.rows selector (.update (.mapping entries))
    options
  rw [Ensures, planned] at plans
  obtain ⟨quiet, plans⟩ := plans
  obtain ⟨name, -, -, ⟨keys, -⟩, ⟨found, -, rfl⟩, -⟩ := plans request tasks rfl
  obtain ⟨outcomes, u, processed, ended⟩ := exists_of_exec_bind rest
  cases ended
  have before : Before entries s p :=
    ⟨quiet.faults, quiet.database ▸ sound.settled, fun _ => quiet.database⟩
  have visited := Writer.processTasks_visited (@steps setup s request entries h functions _ keys
    fun task ht => (Target.mem_tasksOn ht).2) before
  rw [Ensures, processed] at visited
  obtain ⟨after, visits⟩ := visited
  refine ⟨after.database, fun o ho => ?_⟩
  have mem : (.ok o : Except Failure DocumentOutcome) ∈ outcomes.map .ok :=
    List.mem_map_of_mem ((Writer.inOrder_perm outcomes).mem_iff.1 ho)
  obtain ⟨_, -, _, _, visit⟩ := Visits.exists_of_mem visits mem
  rw [← name]
  exact visit o rfl

end Patch.IsFixed

/-- What an accepted patch without expressions keeps decides what comes of it. It can be merged into
every document. If it keeps no mark, the result is a document, and a target of an update can only
fail because its key would change, by the hook, or by the store. If it keeps one, the result is
refused for the mark, so that an update fails on every document, unless the store fails before, and
changes nothing. -/
theorem Patch.IsFixed.decided_by_marks {entries : List (Term × Term)} (h : IsFixed entries) :
    (∀ d : Document, d.IsSettled → ∃ merged : Term,
      (∀ setup s, (Commit.applyPatch d.toTerm (.mapping entries)).exec setup s =
        (.ok merged, s)) ∧
      (Term.entriesKeepMark entries = false →
        ∃ candidate, merged.validateDocument "document" = .ok candidate) ∧
      (Term.entriesKeepMark entries = true →
        ∃ place, merged.validateDocument "document" = .error (.unsupported "_Remove" place))) ∧
    ∀ (c : Console) (setup : Setup), c.Reachable → 0 < setup.pageSize → setup.IsSettled →
      ∀ selector options report t,
      (Writer.execute selector (.update (.mapping entries)) options).exec setup c.state =
        (.ok report, t) →
      ∃ os, report = Report.ofOutcomes options.detail os ∧
        (Term.entriesKeepMark entries = false → ∀ o ∈ os, EndsClean c.state.faults o) ∧
        (Term.entriesKeepMark entries = true → t.database = c.state.database ∧ ∀ o ∈ os,
          EndsMarked c.state.faults c.state.database selector.tableName o) := by
  constructor
  · intro d settled
    obtain ⟨merged, patched, comes⟩ := h.patched settled
    refine ⟨.mapping merged, fun setup s => ?_, fun clean => ?_, fun marked => ?_⟩
    · rw [Commit.exec_applyPatch, patched]
      exact congrArg (Prod.mk _) s.log_nil
    · exact exists_document (clean ▸ comes)
    · exact exists_place (marked ▸ comes)
  · intro c setup reachable pages functions selector options report t came
    have reported :=
      @Writer.execute_outcomes setup c.state selector (.update (.mapping entries)) options
    rw [Ensures, came] at reported
    obtain ⟨reported, counted⟩ := reported
    generalize ended : (Writer.outcomes _ _ _).exec setup c.state = run at reported counted
    obtain ⟨f | os, last⟩ := run
    · cases reported
    · obtain ⟨same, each⟩ := h.outcomes_end reachable.sound pages functions ended
      refine ⟨os, Except.ok.inj reported, fun clean o ho => (each o ho).1 clean, fun marked => ?_⟩
      exact ⟨counted.database.trans (same marked), fun o ho => (each o ho).2 marked⟩

/-- A patch that replaces a list by one that holds a mark. -/
def untagging : List (Term × Term) := [(.text "tags", .list [.mark .remove, .int 1])]

theorem Patch.isFixed_untagging : IsFixed untagging where
  valid := rfl
  settled := by
    simp [untagging, Term.IsSettled, Term.SettledEntries, Term.SettledItems, Term.labels,
      Term.label?, Term.text, Term.int]
  fixed := rfl

/-- The update of one document of a small store by that patch fails for the mark and leaves the
store as it is. -/
theorem Patch.IsFixed.decided_by_marks_untagging :
    IsFixed untagging ∧ Term.entriesKeepMark untagging = true ∧ ∃ report t os,
      (Writer.execute (.get "people" (.int 2)) (.update (.mapping untagging)) .standard).exec .echo
        Console.people.state = (.ok report, t) ∧
      report = Report.ofOutcomes .hidden os ∧ t.database = Console.people.state.database ∧
      ∀ o ∈ os,
        EndsMarked Console.people.state.faults Console.people.state.database "people" o := by
  have processed : (Writer.processed? .echo Console.people.state (.get "people" (.int 2))
      (.update (.mapping untagging)) .standard).isSome = true := by decide +kernel
  obtain ⟨⟨found, last⟩, processed⟩ := Option.isSome_iff_exists.1 processed
  obtain ⟨-, t, came, -⟩ := Writer.execute_of_processed? processed
  obtain ⟨os, reported, -, marked⟩ := (decided_by_marks isFixed_untagging).2 Console.people .echo
    Console.reachable_people (by decide) Setup.isSettled_echo _ _ _ _ came
  exact ⟨isFixed_untagging, rfl, _, t, os, came, reported, marked rfl⟩

/-- Accepting a patch does not mean that documents come of it: the update of a document by a patch
that holds no expression and is accepted ends in an error. -/
theorem Console.accepted_patch_fails :
    (Term.mapping untagging).validatePatch "" = .ok () ∧ Term.haveFixed untagging = true ∧
    people.Reachable ∧ ∃ report t,
      (Writer.execute (.get "people" (.int 2)) (.update (.mapping untagging)) .standard).exec .echo
        people.state = (.ok report, t) ∧
      report.errors = 1 ∧ report.replaced = 0 ∧
      report.firstError = some "Unsupported value of type _Remove at tags[0]" := by
  have shown : (Writer.processed? .echo people.state (.get "people" (.int 2))
      (.update (.mapping untagging)) .standard).map (fun processed =>
        processed.1.map fun o => (o.kind, o.error)) =
      some [(.error, some "Unsupported value of type _Remove at tags[0]")] := by decide +kernel
  obtain ⟨⟨found, last⟩, processed, listed⟩ := Option.map_eq_some_iff.1 shown
  obtain ⟨-, t, came, -⟩ := Writer.execute_of_processed? processed
  obtain ⟨⟨index, kind, key, before, after, generated, error⟩, rfl, ended⟩ :=
    List.map_eq_singleton_iff.1 listed
  cases ended
  rw [Writer.inOrder, List.mergeSort_singleton] at came
  exact ⟨rfl, rfl, reachable_people, _, t, came, rfl, rfl, rfl⟩

end Folio
