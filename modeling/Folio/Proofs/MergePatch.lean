import Folio.Proofs.Absorbing
import Folio.Proofs.Merging
/-!
# Merging as one recursion

The merge goes through a patch in two ways: it changes entries that stand already, looking at what
has become of them so far, and it strips what is written as a whole. Both come to one recursion over
the patch and what stood in its place before: a mapping goes field by field over the old mapping, or
over none; a literal and a list take no notice of what was there. As the labels of a patch occur
once, a field that is looked up late still holds what it held in the beginning.
-/

namespace Folio

namespace Term

variable {entries : List (Term × Term)} {key value : Term} {label : String} {path : List String}

/-! ## Keys of patches -/

mutual

/-- The keys of a mapping are labels, each once; also in lists and under wrappers. -/
def HasLabels : Term → Prop
  | .list items => ItemsHaveLabels items
  | .tuple items => ItemsHaveLabels items
  | .mapping entries => (labels entries).Nodup ∧ EntriesHaveLabels entries
  | .literal value => value.HasLabels
  | _ => True

/-- The mappings among the items have labels. -/
def ItemsHaveLabels : List Term → Prop
  | [] => True
  | item :: rest => item.HasLabels ∧ ItemsHaveLabels rest

/-- The keys of the entries are labels, and so are those of the mappings in them. -/
def EntriesHaveLabels : List (Term × Term) → Prop
  | [] => True
  | (key, value) :: rest => (∃ label, key = .text label) ∧ value.HasLabels ∧ EntriesHaveLabels rest

end

theorem EntriesHaveLabels.find? (h : EntriesHaveLabels entries)
    (hf : Entries.find? entries key = some value) : value.HasLabels := by
  induction entries with
  | nil => cases hf
  | cons e rest ih =>
    rw [Entries.find?_cons] at hf
    split at hf
    · cases hf
      exact h.2.1
    · exact ih h.2.2 hf

theorem labels_erase_text (entries : List (Term × Term)) (label : String) :
    labels (Entries.erase entries (text label)) = (labels entries).erase label := by
  induction entries with
  | nil => rfl
  | cons e rest ih =>
    obtain ⟨k, v⟩ := e
    rw [Entries.erase, labels_cons]
    split
    · rename_i hk
      rw [eq_text_of_beq hk]
      exact (List.erase_cons_head label _).symm
    · rename_i hk
      rw [labels_cons, ih]
      cases hl : k.label? with
      | none => rfl
      | some other =>
        have ne : other ≠ label := by
          rintro rfl
          exact hk (eq_text_of_label? hl ▸ text_beq_self other)
        exact (List.erase_cons_tail (by simpa using ne)).symm

/-! ## Copies under labels -/

theorem copy_beq_text (t : Term) (label : String) : (t.copy == text label) = (t == text label) := by
  cases t with
  | mark m => cases m <;> rfl
  | foreign f => exact (f.copy.equalScalar_text label).trans (f.equalScalar_text label).symm
  | _ => rfl

theorem isRemoval_copy (t : Term) : t.copy.isRemoval = t.isRemoval := by
  cases t with
  | mark m => cases m <;> rfl
  | _ => rfl

theorem copyEntries_append (xs ys : List (Term × Term)) :
    copyEntries (xs ++ ys) = copyEntries xs ++ copyEntries ys := by
  induction xs with
  | nil => rfl
  | cons e rest ih => rw [List.cons_append, copyEntries, copyEntries, ih, List.cons_append]

theorem find?_copyEntries (entries : List (Term × Term)) (label : String) :
    Entries.find? (copyEntries entries) (text label) =
      (Entries.find? entries (text label)).map copy := by
  induction entries with
  | nil => rfl
  | cons e rest ih =>
    rw [copyEntries, Entries.find?_cons, Entries.find?_cons, copy_beq_text, ih]
    split <;> rfl

theorem put_copyEntries (entries : List (Term × Term)) (label : String) (value : Term) :
    Entries.put (copyEntries entries) (text label) value.copy =
      copyEntries (Entries.put entries (text label) value) := by
  induction entries with
  | nil => rfl
  | cons e rest ih =>
    rw [copyEntries, Entries.put, Entries.put, copy_beq_text, ih]
    split <;> rfl

theorem erase_copyEntries (entries : List (Term × Term)) (label : String) :
    Entries.erase (copyEntries entries) (text label) =
      copyEntries (Entries.erase entries (text label)) := by
  induction entries with
  | nil => rfl
  | cons e rest ih =>
    rw [copyEntries, Entries.erase, Entries.erase, copy_beq_text, ih]
    split <;> rfl

/-! ## Values along paths -/

/-- What stands at the end of a path of labels. -/
def fieldAt? : List String → Term → Option Term
  | [], t => some t
  | label :: path, .mapping entries =>
    (Entries.find? entries (.text label)).bind fun value => fieldAt? path value
  | _ :: _, _ => none

theorem fieldAt?_copy (path : List String) (t : Term) :
    fieldAt? path t.copy = (fieldAt? path t).map copy := by
  induction path generalizing t with
  | nil => rfl
  | cons label path ih =>
    cases t with
    | mapping entries =>
      simp only [copy, fieldAt?, find?_copyEntries]
      cases Entries.find? entries (text label) with
      | none => rfl
      | some value => exact ih value
    | mark m => cases m <;> rfl
    | _ => rfl

end Term

namespace Patch

open Term

variable {old : Option Term} {inner result fields entries : List (Term × Term)} {value : Term}
variable {label : String}

/-! ## The recursion -/

/-- The entries of what stood in a place, if that was a mapping. -/
def entriesOf : Option Term → List (Term × Term)
  | some (.mapping entries) => entries
  | _ => []

mutual

/-- What a part of a patch makes of what stood in its place. -/
def mergePatch (old : Option Term) : Term → Term
  | .literal value => mergePatch none value
  | .mapping entries => .mapping (mergePatchEntries (entriesOf old) (entriesOf old) entries)
  | .list items => .list (mergePatchItems items)
  | .tuple items => .list (mergePatchItems items)
  | other => other

/-- What the entries of a patch make of a mapping, one field after the other. A field becomes what
its entry makes of the old field, whatever was written in between. -/
def mergePatchEntries (old result : List (Term × Term)) : List (Term × Term) → List (Term × Term)
  | [] => result
  | (key, value) :: rest =>
    mergePatchEntries old
      (if value.isRemoval then Entries.erase result key
        else Entries.put result key (mergePatch (Entries.find? old key) value)) rest

/-- What the items of a list make of nothing. -/
def mergePatchItems : List Term → List Term
  | [] => []
  | item :: rest => mergePatch none item :: mergePatchItems rest

end

/-! ## Stripping -/

mutual

/-- What is written as a whole is what the recursion makes of nothing. -/
theorem strip_eq : (t : Term) → t.HasLabels → t.strip = (mergePatch none t).copy
  | .literal value, h => strip_eq value h
  | .mapping entries, h => by
    have whole := stripEntries_eq entries h.2 h.1 [] fun _ _ => rfl
    exact congrArg Term.mapping whole
  | .list items, h => congrArg Term.list (stripItems_eq items h)
  | .tuple items, h => congrArg Term.list (stripItems_eq items h)
  | .scalar _, _ => rfl
  | .mark _, _ => rfl
  | .expression .., _ => rfl
  | .record .., _ => rfl
  | .function _, _ => rfl
  | .policy .., _ => rfl
  | .resolver .., _ => rfl
  | .ownPolicy .., _ => rfl
  | .selector _, _ => rfl
  | .mutation _, _ => rfl
  | .foreign _, _ => rfl

/-- Stripped entries are those that come to entries without their labels. -/
theorem stripEntries_eq : (entries : List (Term × Term)) → EntriesHaveLabels entries →
    (labels entries).Nodup → ∀ result,
    (∀ label ∈ labels entries, Entries.find? result (text label) = none) →
      copyEntries result ++ stripEntries entries = copyEntries (mergePatchEntries [] result entries)
  | [], _, _, result, _ => by rw [stripEntries, mergePatchEntries, List.append_nil]
  | (_, value) :: rest, ⟨⟨label, rfl⟩, hv, hrest⟩, nodup, result, absent => by
    obtain ⟨fresh, rest_nodup⟩ := nodup_labels_cons.1 nodup
    have none_here := absent label List.mem_cons_self
    have none_there := fun other h => absent other (List.mem_cons_of_mem _ h)
    rw [stripEntries, mergePatchEntries]
    split
    · rw [erase_of_find? none_here]
      exact stripEntries_eq rest hrest rest_nodup result none_there
    · rw [Entries.find?_nil, Entries.put_of_absent _ none_here, strip_eq value hv]
      have still : ∀ other ∈ labels rest,
          Entries.find? (result ++ [(text label, mergePatch none value)]) (text other) = none := by
        intro other h
        have ne : label ≠ other := fun eq => fresh (eq ▸ h)
        rw [← Entries.put_of_absent _ none_here, find?_put_text_of_ne ne, none_there other h]
      rw [← stripEntries_eq rest hrest rest_nodup _ still, copyEntries_append, List.append_assoc]
      rfl

theorem stripItems_eq : (items : List Term) → ItemsHaveLabels items →
    stripItems items = copyItems (mergePatchItems items)
  | [], _ => rfl
  | item :: rest, h => by
    rw [stripItems, mergePatchItems, copyItems, strip_eq item h.1, stripItems_eq rest h.2]

end

/-! ## Merging -/

mutual

/-- What an entry makes of a field is what the recursion makes of it. -/
theorem effect_eq : (t : Term) → t.HasLabels → ∀ old : Option Term,
    effect (old.map copy) t = if t.isRemoval then none else some (mergePatch old t).copy
  | .mapping entries, h, old => by
    have written : some (Term.mapping (stripEntries entries)) =
        some (Term.mapping (mergePatchEntries [] [] entries)).copy :=
      congrArg some (strip_eq (.mapping entries) h)
    rcases old with _ | old
    · exact written
    · cases old with
      | mapping inner =>
        have merged := mergeEntries_eq entries h.2 h.1 inner inner fun _ _ => rfl
        exact congrArg (fun after => some (Term.mapping after)) merged
      | mark m => cases m <;> exact written
      | _ => exact written
  | .mark .remove, _, _ => rfl
  | .mark .keepOld, _, _ => rfl
  | .mark .reject, _, _ => rfl
  | .mark .abort, _, _ => rfl
  | .literal value, h, _ => congrArg some (strip_eq value h)
  | .list items, h, _ => congrArg some (strip_eq (.list items) h)
  | .tuple items, h, _ => congrArg some (strip_eq (.tuple items) h)
  | .scalar _, _, _ => rfl
  | .expression .., _, _ => rfl
  | .record .., _, _ => rfl
  | .function _, _, _ => rfl
  | .policy .., _, _ => rfl
  | .resolver .., _, _ => rfl
  | .ownPolicy .., _, _ => rfl
  | .selector _, _, _ => rfl
  | .mutation _, _, _ => rfl
  | .foreign _, _, _ => rfl

/-- Entries that hold the old fields wherever the rest of the patch will look are merged as the old
ones would be. -/
theorem mergeEntries_eq : (entries : List (Term × Term)) → EntriesHaveLabels entries →
    (labels entries).Nodup → ∀ inner result,
    (∀ label ∈ labels entries,
      Entries.find? result (text label) = Entries.find? inner (text label)) →
      mergeEntries (copyEntries result) entries =
        copyEntries (mergePatchEntries inner result entries)
  | [], _, _, _, _, _ => rfl
  | (_, value) :: rest, ⟨⟨label, rfl⟩, hv, hrest⟩, nodup, inner, result, held => by
    obtain ⟨fresh, rest_nodup⟩ := nodup_labels_cons.1 nodup
    have entry : mergeEntry (copyEntries result) (text label) value = copyEntries
        (if value.isRemoval then Entries.erase result (text label)
          else Entries.put result (text label)
            (mergePatch (Entries.find? inner (text label)) value)) := by
      rw [mergeEntry_eq, find?_copyEntries, effect_eq value hv, held label List.mem_cons_self]
      cases value.isRemoval
      · exact put_copyEntries result label _
      · exact erase_copyEntries result label
    rw [mergeEntries, mergePatchEntries, entry]
    -- The rest looks under other labels, where this entry has changed nothing.
    refine mergeEntries_eq rest hrest rest_nodup inner _ fun other h => ?_
    have ne : label ≠ other := fun eq => fresh (eq ▸ h)
    rw [← held other (List.mem_cons_of_mem _ h)]
    split
    · exact find?_erase_text_of_ne ne
    · exact find?_put_text_of_ne ne

end

/-! ## Patches that are their own copies -/

mutual

/-- A copied patch makes copies out of copies. -/
theorem copy_mergePatch : (t : Term) → t.HasLabels → ∀ old : Option Term,
    (mergePatch old t).copy = mergePatch (old.map copy) t.copy
  | .literal value, h, _ => copy_mergePatch value h none
  | .mapping entries, h, old => by
    have whole := copy_mergePatchEntries entries h.2 (entriesOf old) (entriesOf old)
    have copied : entriesOf (old.map copy) = copyEntries (entriesOf old) := by
      rcases old with _ | old
      · rfl
      · cases old with
        | mark m => cases m <;> rfl
        | _ => rfl
    rw [copy, mergePatch, mergePatch, copied, ← whole, copy]
  | .list items, h, _ => congrArg Term.list (copyItems_mergePatchItems items h)
  | .tuple items, h, _ => congrArg Term.list (copyItems_mergePatchItems items h)
  | .mark m, _, _ => by cases m <;> rfl
  | .scalar _, _, _ => rfl
  | .expression .., _, _ => rfl
  | .record .., _, _ => rfl
  | .function _, _, _ => rfl
  | .policy .., _, _ => rfl
  | .resolver .., _, _ => rfl
  | .ownPolicy .., _, _ => rfl
  | .selector _, _, _ => rfl
  | .mutation _, _, _ => rfl
  | .foreign _, _, _ => rfl

theorem copy_mergePatchEntries : (entries : List (Term × Term)) → EntriesHaveLabels entries →
    ∀ inner result, copyEntries (mergePatchEntries inner result entries) =
      mergePatchEntries (copyEntries inner) (copyEntries result) (copyEntries entries)
  | [], _, _, _ => rfl
  | (_, value) :: rest, ⟨⟨label, rfl⟩, hv, hrest⟩, inner, result => by
    rw [mergePatchEntries, copy_mergePatchEntries rest hrest, copyEntries, mergePatchEntries,
      isRemoval_copy, show (Term.text label).copy = .text label from rfl, find?_copyEntries,
      ← copy_mergePatch value hv, erase_copyEntries, put_copyEntries]
    split <;> rfl

theorem copyItems_mergePatchItems : (items : List Term) → ItemsHaveLabels items →
    copyItems (mergePatchItems items) = mergePatchItems (copyItems items)
  | [], _ => rfl
  | item :: rest, h => by
    have first := copy_mergePatch item h.1 none
    rw [mergePatchItems, copyItems, copyItems, mergePatchItems, first,
      copyItems_mergePatchItems rest h.2]
    rfl

end

/-! ## The order of fields -/

/-- Labels without the removed ones, as they stood, and behind them those written that are new. -/
def follow (old removed written : List String) : List String :=
  old.filter (· ∉ removed) ++ written.filter (· ∉ old)

theorem follow_erase {old removed written : List String} (nodup : old.Nodup)
    (fresh : label ∉ written) :
    follow (old.erase label) removed written = follow old (label :: removed) written := by
  unfold follow
  rw [nodup.erase_eq_filter, List.filter_filter]
  refine congrArg₂ (· ++ ·) (List.filter_congr fun other _ => ?_)
    (List.filter_congr fun other h => ?_)
  · simp only [List.mem_cons, not_or, Bool.decide_and, decide_not]
    rw [Bool.and_comm]
    rfl
  · have ne : other ≠ label := fun eq => fresh (eq ▸ h)
    simp [ne]

theorem follow_append {old removed written : List String} (absent : label ∉ old)
    (stays : label ∉ removed) (fresh : label ∉ written) :
    follow (old ++ [label]) removed written = follow old removed (label :: written) := by
  have later : written.filter (· ∉ old ++ [label]) = written.filter (· ∉ old) := by
    refine List.filter_congr fun other h => ?_
    have ne : other ≠ label := fun eq => fresh (eq ▸ h)
    simp [ne]
  unfold follow
  rw [later, List.filter_append, List.filter_cons_of_pos (by simpa using stays),
    List.filter_cons_of_pos (by simpa using absent), List.append_assoc]
  rfl

theorem follow_present {old removed written : List String} (present : label ∈ old) :
    follow old removed (label :: written) = follow old removed written := by
  unfold follow
  rw [List.filter_cons_of_neg (by simpa using present)]

/-- The labels under which entries remove. -/
def removedLabels (entries : List (Term × Term)) : List String :=
  labels (entries.filter fun e => e.2.isRemoval)

/-- The labels under which entries write. -/
def writtenLabels (entries : List (Term × Term)) : List String :=
  labels (entries.filter fun e => !e.2.isRemoval)

/-- The labels of a mapping after a patch. -/
def labelsAfter (inner entries : List (Term × Term)) : List String :=
  follow (labels inner) (removedLabels entries) (writtenLabels entries)

theorem labels_mergePatchEntries (inner : List (Term × Term)) (h : EntriesHaveLabels entries)
    (nodup : (labels entries).Nodup) (result_nodup : (labels result).Nodup) :
    labels (mergePatchEntries inner result entries) = labelsAfter result entries := by
  induction entries generalizing result with
  | nil => simp [mergePatchEntries, labelsAfter, follow, removedLabels, writtenLabels]
  | cons e rest ih =>
    obtain ⟨key, value⟩ := e
    obtain ⟨⟨label, rfl⟩, -, hrest⟩ := h
    obtain ⟨fresh, rest_nodup⟩ := nodup_labels_cons.1 nodup
    have not_removed : label ∉ removedLabels rest := fun h =>
      fresh ((List.filter_sublist.filterMap _).subset h)
    have not_written : label ∉ writtenLabels rest := fun h =>
      fresh ((List.filter_sublist.filterMap _).subset h)
    rw [mergePatchEntries]
    cases hv : value.isRemoval with
    | true =>
      have after : labelsAfter result ((text label, value) :: rest) =
          follow (labels result) (label :: removedLabels rest) (writtenLabels rest) := by
        simp [labelsAfter, removedLabels, writtenLabels, hv, labels_cons, label?, text]
      rw [if_pos rfl, ih hrest rest_nodup (result_nodup.sublist (labels_erase_sublist result _)),
        after, labelsAfter, labels_erase_text, follow_erase result_nodup not_written]
    | false =>
      have after : labelsAfter result ((text label, value) :: rest) =
          follow (labels result) (removedLabels rest) (label :: writtenLabels rest) := by
        simp [labelsAfter, removedLabels, writtenLabels, hv, labels_cons, label?, text]
      rw [if_neg Bool.false_ne_true, ih hrest rest_nodup (labels_put_nodup result_nodup), after,
        labelsAfter, labels_put]
      by_cases present : label ∈ labels result
      · have has : Entries.has result (text label) = true := find?_of_mem_labels present
        rw [if_pos has, List.append_nil, follow_present present]
      · rw [Entries.has, find?_eq_none_of_not_mem present]
        exact follow_append present not_removed not_written

/-- Later entries leave a field alone that none of them names. -/
theorem find?_mergePatchEntries_of_not_mem (inner : List (Term × Term))
    (h : EntriesHaveLabels entries) (absent : label ∉ labels entries) :
    Entries.find? (mergePatchEntries inner result entries) (text label) =
      Entries.find? result (text label) := by
  induction entries generalizing result with
  | nil => rfl
  | cons e rest ih =>
    obtain ⟨key, value⟩ := e
    obtain ⟨⟨other, rfl⟩, -, hrest⟩ := h
    rw [labels_cons, List.mem_append, not_or] at absent
    have ne : other ≠ label := fun eq => absent.1 (eq ▸ List.mem_singleton_self other)
    rw [mergePatchEntries, ih hrest absent.2]
    split
    · exact find?_erase_text_of_ne ne
    · exact find?_put_text_of_ne ne

/-- A field that stays holds what its entry makes of the old field. -/
theorem find?_mergePatchEntries (inner : List (Term × Term)) (h : EntriesHaveLabels entries)
    (nodup : (labels entries).Nodup) (hf : Entries.find? entries (text label) = some value)
    (stays : value.isRemoval = false) :
    Entries.find? (mergePatchEntries inner result entries) (text label) =
      some (mergePatch (Entries.find? inner (text label)) value) := by
  induction entries generalizing result with
  | nil => cases hf
  | cons e rest ih =>
    obtain ⟨key, first⟩ := e
    obtain ⟨⟨other, rfl⟩, -, hrest⟩ := h
    obtain ⟨fresh, rest_nodup⟩ := nodup_labels_cons.1 nodup
    rw [Entries.find?_cons] at hf
    rw [mergePatchEntries]
    split at hf
    · rename_i same
      cases hf
      cases eq_text_of_beq same
      rw [find?_mergePatchEntries_of_not_mem inner hrest fresh, if_neg (by rw [stays]; decide),
        find?_put_text]
    · exact ih hrest rest_nodup hf

theorem entriesOf_nodup (settled : ∀ v ∈ old, v.IsSettled) : (labels (entriesOf old)).Nodup := by
  rcases old with _ | old
  · exact List.nodup_nil
  · cases old with
    | mapping inner => exact (settled _ rfl).1
    | _ => exact List.nodup_nil

/-- What stands under a label, if anything does, is settled. -/
theorem settled_entriesOf (settled : ∀ v ∈ old, v.IsSettled) :
    ∀ v ∈ Entries.find? (entriesOf old) (text label), v.IsSettled := by
  rcases old with _ | old
  · exact fun _ hv => nomatch hv
  · cases old with
    | mapping inner => exact fun v hv => settled_of_find? (settled _ rfl).2 hv
    | _ => exact fun _ hv => nomatch hv

theorem fieldAt?_cons (path : List String) :
    (old.bind fun t => fieldAt? (label :: path) t) =
      (Entries.find? (entriesOf old) (text label)).bind fun t => fieldAt? path t := by
  rcases old with _ | old
  · rfl
  · cases old <;> rfl

/-- At the end of every path on which the patch has mappings, the fields are those that stood there
and then the new ones. -/
theorem labels_mergePatch {path : List String} {t : Term} (old : Option Term) (h : t.HasLabels)
    (settled : ∀ v ∈ old, v.IsSettled) (there : fieldAt? path t = some (.mapping fields)) :
    ∃ after, fieldAt? path (mergePatch old t) = some (.mapping after) ∧
      labels after = labelsAfter (entriesOf (old.bind fun t => fieldAt? path t)) fields := by
  induction path generalizing old t with
  | nil =>
    cases there
    refine ⟨_, rfl, ?_⟩
    rw [labels_mergePatchEntries _ h.2 h.1 (entriesOf_nodup settled)]
    cases old <;> rfl
  | cons label path ih =>
    cases t with
    | mapping entries =>
      obtain ⟨value, hf, there⟩ := Option.bind_eq_some_iff.1 there
      have stays : value.isRemoval = false := by
        cases value with
        | mark m => cases path <;> cases there
        | _ => rfl
      obtain ⟨after, reached, order⟩ :=
        ih _ (h.2.find? hf) (settled_entriesOf settled) there
      refine ⟨after, ?_, ?_⟩
      · rw [mergePatch, fieldAt?, find?_mergePatchEntries _ h.2 h.1 hf stays]
        exact reached
      · rw [order, fieldAt?_cons]
    | _ => cases there

/-- Merging a patch into a document is one recursion over the patch and the document, up to copies
of objects that tell their copies apart; and at every depth the fields that survive keep their
order, with the new ones behind them in the order of the patch. -/
theorem merge_eq_mergePatch (d : Document) (entries : List (Term × Term)) (hd : d.IsSettled)
    (h : (Term.mapping entries).HasLabels) :
    Term.mapping (merge d.toEntries entries) =
        (mergePatch (some d.toTerm) (.mapping entries)).copy ∧
      (copyEntries entries = entries →
        Term.mapping (merge d.toEntries entries) = mergePatch (some d.toTerm) (.mapping entries)) ∧
      ∀ path fields, fieldAt? path (.mapping entries) = some (.mapping fields) →
        ∃ after, fieldAt? path (.mapping (merge d.toEntries entries)) = some (.mapping after) ∧
          labels after = labelsAfter (entriesOf (fieldAt? path d.toTerm)) fields := by
  have whole : Term.mapping (merge d.toEntries entries) =
      (mergePatch (some d.toTerm) (.mapping entries)).copy :=
    congrArg Term.mapping (mergeEntries_eq entries h.2 h.1 d.toEntries d.toEntries fun _ _ => rfl)
  refine ⟨whole, fun own => ?_, fun path fields there => ?_⟩
  · have copied := copy_mergePatch (.mapping entries) h (some d.toTerm)
    rw [Option.map_some, Document.copy_toTerm, copy, own] at copied
    rw [whole, copied]
  · obtain ⟨after, reached, order⟩ :=
      labels_mergePatch (some d.toTerm) h (fun v hv => Option.some.inj hv ▸ hd.toTerm) there
    refine ⟨copyEntries after, ?_, ?_⟩
    · rw [whole, fieldAt?_copy, reached]
      rfl
    · rw [labels_copyEntries, order]
      rfl

/-- An article with contact data, whose phone number comes before its fax number. -/
def article : Document :=
  [("id", .scalar (.number (.int 1))),
    ("contact", .object [("phone", .scalar (.text "1")), ("fax", .scalar (.text "2"))]),
    ("views", .scalar (.number (.int 5)))]

/-- A patch that removes inside an object, puts an object in the place of a number, and leaves out
what is removed in a wrapper in a list. -/
def revision : List (Term × Term) :=
  [(.text "views", .mapping [(.text "today", .int 5), (.text "total", .mark .remove)]),
    (.text "contact", .mapping [(.text "mail", .null), (.text "phone", .mark .remove)]),
    (.text "tags", .list [.literal (.mapping
      [(.text "name", .text "a"), (.text "old", .mark .remove)])])]

/-- The number that gave way to an object keeps its place, and the new mail address comes behind the
fax number. -/
theorem merge_revision :
    article.IsSettled ∧ (Term.mapping revision).HasLabels ∧ copyEntries revision = revision ∧
      mergePatch (some article.toTerm) (.mapping revision) =
        .mapping (merge article.toEntries revision) ∧
      merge article.toEntries revision =
        [(.text "id", .int 1),
          (.text "contact", .mapping [(.text "fax", .text "2"), (.text "mail", .null)]),
          (.text "views", .mapping [(.text "today", .int 5)]),
          (.text "tags", .list [.mapping [(.text "name", .text "a")]])] ∧
      ∃ after, fieldAt? ["contact"] (.mapping (merge article.toEntries revision)) =
          some (.mapping after) ∧ labels after = ["fax", "mail"] := by
  have settled : article.IsSettled := ⟨by decide, trivial, ⟨by decide, trivial, trivial, trivial⟩,
    trivial, trivial⟩
  have labelled : (Term.mapping revision).HasLabels :=
    ⟨by decide, ⟨_, rfl⟩, ⟨by decide, ⟨_, rfl⟩, trivial, ⟨_, rfl⟩, trivial, trivial⟩,
      ⟨_, rfl⟩, ⟨by decide, ⟨_, rfl⟩, trivial, ⟨_, rfl⟩, trivial, trivial⟩,
      ⟨_, rfl⟩, ⟨⟨by decide, ⟨_, rfl⟩, trivial, ⟨_, rfl⟩, trivial, trivial⟩, trivial⟩, trivial⟩
  obtain ⟨-, exact, order⟩ := merge_eq_mergePatch article revision settled labelled
  exact ⟨settled, labelled, rfl, (exact rfl).symm, rfl, order ["contact"] _ rfl⟩

end Patch

end Folio
