import Folio.Proofs.SettledDocuments
/-!
# Patches merged twice

What an entry of a patch makes of a field depends on the patch and on what the field holds, and on
nothing else. Making it once more changes nothing, at any depth: a removed field stays away, what is
written as a whole is written again, and a mapping merges into what it has merged into before. So a
patch whose labels occur once is absorbed by what it was merged into.
-/

namespace Folio

namespace Term

variable {entries : List (Term × Term)} {key value : Term} {label other : String}

/-! ## Entries under labels -/

theorem eq_text_of_beq (h : (key == text label) = true) : key = text label := by
  have h : equalBy Scalar.alike key (text label) = true := h
  cases key with
  | scalar s =>
    have h : Scalar.alike s (.text label) = true := by simpa [text, equalBy] using h
    cases s with
    | text other =>
      rw [eq_of_beq (show (other == label) = true from h)]
      rfl
    | _ => simp [Scalar.alike, Scalar.equal, Scalar.toNumber?] at h
  | _ => simp [text, equalBy] at h

theorem text_beq_of_ne (h : label ≠ other) : (text label == text other) = false := by
  refine Bool.eq_false_iff.2 fun eq => h ?_
  cases eq_text_of_beq eq
  rfl

/-- A label stands in front of others that differ from it. -/
theorem nodup_labels_cons {rest : List (Term × Term)} :
    (labels ((text label, value) :: rest)).Nodup ↔ label ∉ labels rest ∧ (labels rest).Nodup := by
  rw [labels_cons]
  exact List.nodup_cons

/-- Where each label occurs once, an entry is found under its label. -/
theorem find?_of_mem (nodup : (labels entries).Nodup) (h : (text label, value) ∈ entries) :
    Entries.find? entries (text label) = some value := by
  induction entries with
  | nil => cases h
  | cons e rest ih =>
    obtain ⟨k, v⟩ := e
    rw [labels_cons, List.nodup_append] at nodup
    obtain ⟨-, rest_nodup, apart⟩ := nodup
    rw [Entries.find?_cons]
    rcases List.mem_cons.1 h with h | h
    · cases h
      rw [if_pos (text_beq_self label)]
    · rw [if_neg, ih rest_nodup h]
      intro hk
      refine apart label ?_ label (List.mem_filterMap.2 ⟨_, h, rfl⟩) rfl
      rw [eq_text_of_beq hk]
      exact List.mem_singleton_self label

theorem mem_of_find? (h : Entries.find? entries (text label) = some value) :
    (text label, value) ∈ entries := by
  induction entries with
  | nil => cases h
  | cons e rest ih =>
    rw [Entries.find?_cons] at h
    split at h
    · rename_i here
      cases h
      rw [← eq_text_of_beq here]
      exact List.mem_cons_self
    · exact List.mem_cons_of_mem _ (ih h)

/-- Where each label occurs once, what is found under a label is what stands under it. -/
theorem find?_eq_some_iff (nodup : (labels entries).Nodup) :
    Entries.find? entries (text label) = some value ↔ (text label, value) ∈ entries :=
  ⟨mem_of_find?, find?_of_mem nodup⟩

theorem find?_eq_none_of_not_mem (h : label ∉ labels entries) :
    Entries.find? entries (text label) = none := by
  induction entries with
  | nil => rfl
  | cons e rest ih =>
    obtain ⟨k, v⟩ := e
    rw [labels_cons, List.mem_append, not_or] at h
    rw [Entries.find?_cons, if_neg, ih h.2]
    intro hk
    refine h.1 (Option.mem_toList.2 ?_)
    rw [eq_text_of_beq hk]
    rfl

theorem find?_eq_none_iff :
    Entries.find? entries (text label) = none ↔ label ∉ labels entries := by
  refine ⟨fun absent here => ?_, find?_eq_none_of_not_mem⟩
  have found := find?_of_mem_labels here
  rw [absent] at found
  cases found

@[simp] theorem find?_put_text :
    Entries.find? (Entries.put entries (text label) value) (text label) = some value := by
  induction entries with
  | nil => rw [Entries.put, Entries.find?_cons, if_pos (text_beq_self label)]
  | cons e rest ih =>
    obtain ⟨k, v⟩ := e
    rw [Entries.put]
    split
    · rename_i hk
      rw [Entries.find?_cons, if_pos hk]
    · rename_i hk
      rw [Entries.find?_cons, if_neg hk, ih]

theorem find?_put_text_of_ne (h : label ≠ other) :
    Entries.find? (Entries.put entries (text label) value) (text other) =
      Entries.find? entries (text other) := by
  have apart : ¬ (text label == text other) = true := Bool.eq_false_iff.1 (text_beq_of_ne h)
  induction entries with
  | nil => rw [Entries.put, Entries.find?_cons, if_neg apart]
  | cons e rest ih =>
    obtain ⟨k, v⟩ := e
    rw [Entries.put]
    split
    · rename_i hk
      rw [eq_text_of_beq hk, Entries.find?_cons, Entries.find?_cons, if_neg apart, if_neg apart]
    · rw [Entries.find?_cons, Entries.find?_cons, ih]

theorem find?_erase_text (h : (labels entries).Nodup) :
    Entries.find? (Entries.erase entries (text label)) (text label) = none := by
  induction entries with
  | nil => rfl
  | cons e rest ih =>
    obtain ⟨k, v⟩ := e
    rw [labels_cons, List.nodup_append] at h
    rw [Entries.erase]
    split
    · rename_i hk
      refine find?_eq_none_of_not_mem fun hm => h.2.2 label ?_ label hm rfl
      rw [eq_text_of_beq hk]
      exact List.mem_singleton_self label
    · rename_i hk
      rw [Entries.find?_cons, if_neg hk, ih h.2.1]

theorem find?_erase_text_of_ne (h : label ≠ other) :
    Entries.find? (Entries.erase entries (text label)) (text other) =
      Entries.find? entries (text other) := by
  have apart : ¬ (text label == text other) = true := Bool.eq_false_iff.1 (text_beq_of_ne h)
  induction entries with
  | nil => rfl
  | cons e rest ih =>
    obtain ⟨k, v⟩ := e
    rw [Entries.erase]
    split
    · rename_i hk
      rw [eq_text_of_beq hk, Entries.find?_cons, if_neg apart]
    · rw [Entries.find?_cons, Entries.find?_cons, ih]

/-- Writing what is there changes nothing. -/
theorem put_of_find? (h : Entries.find? entries key = some value) :
    Entries.put entries key value = entries := by
  induction entries with
  | nil => cases h
  | cons e rest ih =>
    obtain ⟨k, v⟩ := e
    rw [Entries.find?_cons] at h
    rw [Entries.put]
    split
    · rename_i hk
      rw [if_pos hk] at h
      rw [Option.some.inj h]
    · rename_i hk
      rw [if_neg hk] at h
      rw [ih h]

/-- Removing what is not there changes nothing. -/
theorem erase_of_find? (h : Entries.find? entries key = none) :
    Entries.erase entries key = entries := by
  induction entries with
  | nil => rfl
  | cons e rest ih =>
    obtain ⟨k, v⟩ := e
    rw [Entries.find?_cons] at h
    rw [Entries.erase]
    split
    · rename_i hk
      rw [if_pos hk] at h
      cases h
    · rename_i hk
      rw [if_neg hk] at h
      rw [ih h]

/-- Without wrappers a field holds its value without wrappers, unless it was to be removed. -/
theorem find?_stripEntries (nodup : (labels entries).Nodup) (h : (text label, value) ∈ entries) :
    Entries.find? (stripEntries entries) (text label) =
      if value.isRemoval then none else some value.strip := by
  induction entries with
  | nil => cases h
  | cons e rest ih =>
    obtain ⟨k, v⟩ := e
    rw [labels_cons, List.nodup_append] at nodup
    obtain ⟨-, rest_nodup, apart⟩ := nodup
    rw [stripEntries]
    rcases List.mem_cons.1 h with h | h
    · cases h
      have absent : label ∉ labels (stripEntries rest) := fun hm =>
        apart label (List.mem_singleton_self label) label
          ((labels_stripEntries_sublist rest).subset hm) rfl
      split
      · exact find?_eq_none_of_not_mem absent
      · rw [Entries.find?_cons, if_pos (text_beq_self label)]
    · have ne : ¬ (k == text label) = true := by
        intro hk
        refine apart label ?_ label (List.mem_filterMap.2 ⟨_, h, rfl⟩) rfl
        rw [eq_text_of_beq hk]
        exact List.mem_singleton_self label
      split
      · exact ih rest_nodup h
      · rw [Entries.find?_cons, if_neg ne]
        exact ih rest_nodup h

end Term

namespace Patch

open Term

variable {existing entries : List (Term × Term)} {value : Term} {label other : String}

/-! ## What an entry makes of a field -/

/-- What a field holds after an entry was merged, by what it held before. -/
def effect (old : Option Term) : Term → Option Term
  | .mark .remove => none
  | .mapping entries =>
    match old with
    | some (.mapping inner) => some (.mapping (mergeEntries inner entries))
    | _ => some (.mapping (stripEntries entries))
  | value => some value.strip

theorem effect_none (value : Term) :
    effect none value = if value.isRemoval then none else some value.strip := by
  cases value with
  | mark m => cases m <;> rfl
  | _ => rfl

theorem mergeEntry_eq (existing : List (Term × Term)) (key value : Term) :
    mergeEntry existing key value = match effect (Entries.find? existing key) value with
      | some v => Entries.put existing key v
      | none => Entries.erase existing key := by
  cases value with
  | mark m => cases m <;> rfl
  | mapping entries =>
    rw [mergeEntry]
    rcases Entries.find? existing key with _ | t
    · rfl
    · cases t <;> rfl
  | _ => rfl

theorem find?_mergeEntry (h : (labels existing).Nodup) (value : Term) :
    Entries.find? (mergeEntry existing (text label) value) (text label) =
      effect (Entries.find? existing (text label)) value := by
  rw [mergeEntry_eq]
  cases effect (Entries.find? existing (text label)) value with
  | none => exact find?_erase_text h
  | some v => exact find?_put_text

theorem find?_mergeEntry_of_ne (h : label ≠ other) (value : Term) :
    Entries.find? (mergeEntry existing (text label) value) (text other) =
      Entries.find? existing (text other) := by
  rw [mergeEntry_eq]
  cases effect (Entries.find? existing (text label)) value with
  | none => exact find?_erase_text_of_ne h
  | some v => exact find?_put_text_of_ne h

theorem labels_mergeEntry_nodup (h : (labels existing).Nodup) (key value : Term) :
    (labels (mergeEntry existing key value)).Nodup := by
  rw [mergeEntry_eq]
  cases effect (Entries.find? existing key) value with
  | none => exact h.sublist (labels_erase_sublist existing key)
  | some v => exact labels_put_nodup h

/-! ## Patches with labels that occur once -/

mutual

/-- The mappings that would be merged have labels, each once. -/
def IsLabelled : Term → Prop
  | .mapping entries => (labels entries).Nodup ∧ LabelledEntries entries
  | _ => True

/-- The keys of the entries are labels, and so are those of the mappings in them. -/
def LabelledEntries : List (Term × Term) → Prop
  | [] => True
  | (key, value) :: rest => (∃ label, key = .text label) ∧ IsLabelled value ∧ LabelledEntries rest

end

theorem LabelledEntries.of_mem {e : Term × Term} (h : LabelledEntries entries) (he : e ∈ entries) :
    (∃ label, e.1 = .text label) ∧ IsLabelled e.2 := by
  induction entries with
  | nil => cases he
  | cons f rest ih =>
    rcases List.mem_cons.1 he with rfl | he
    · exact ⟨h.1, h.2.1⟩
    · exact ih h.2.2 he

/-- A field after a patch: what the entry with its label makes of it, if there is one. -/
theorem find?_mergeEntries (keys : ∀ e ∈ entries, ∃ label, e.1 = .text label)
    (nodup : (labels entries).Nodup) (hx : (labels existing).Nodup) (label : String) :
    Entries.find? (mergeEntries existing entries) (text label) =
      (Entries.find? entries (text label)).elim (Entries.find? existing (text label))
        (effect (Entries.find? existing (text label))) := by
  induction entries generalizing existing with
  | nil => rfl
  | cons e rest ih =>
    obtain ⟨key, value⟩ := e
    obtain ⟨⟨first, rfl⟩, rest_keys⟩ := List.forall_mem_cons.1 keys
    obtain ⟨fresh, rest_nodup⟩ := nodup_labels_cons.1 nodup
    rw [mergeEntries, ih rest_keys rest_nodup (labels_mergeEntry_nodup hx _ _), Entries.find?_cons]
    by_cases eq : first = label
    · subst eq
      rw [if_pos (text_beq_self first), find?_eq_none_of_not_mem fresh, find?_mergeEntry hx]
      rfl
    · rw [if_neg (Bool.eq_false_iff.1 (text_beq_of_ne eq)), find?_mergeEntry_of_ne eq]

/-- A patch is absorbed where each field holds what its entry makes of it. -/
theorem mergeEntries_absorbed (h : ∀ e ∈ entries,
    Entries.find? existing e.1 = effect (Entries.find? existing e.1) e.2) :
    mergeEntries existing entries = existing := by
  induction entries with
  | nil => rfl
  | cons e rest ih =>
    obtain ⟨key, value⟩ := e
    have same : mergeEntry existing key value = existing := by
      have held := h _ List.mem_cons_self
      rw [mergeEntry_eq, ← held]
      cases hf : Entries.find? existing key with
      | none => exact erase_of_find? hf
      | some v => exact put_of_find? hf
    rw [mergeEntries, same]
    exact ih fun e he => h e (List.mem_cons_of_mem _ he)

/-- What a mapping makes of a field is absorbed, if what its entries make of the fields inside
is. -/
theorem effect_mapping (h : LabelledEntries entries) (nodup : (labels entries).Nodup)
    (again : ∀ e ∈ entries, ∀ old : Option Term, (∀ v ∈ old, v.IsSettled) →
      effect (effect old e.2) e.2 = effect old e.2)
    {old : Option Term} (settled : ∀ v ∈ old, v.IsSettled) :
    effect (effect old (.mapping entries)) (.mapping entries) = effect old (.mapping entries) := by
  have merged : ∀ inner, (mapping inner).IsSettled →
      mergeEntries (mergeEntries inner entries) entries = mergeEntries inner entries := by
    rintro inner hi
    refine mergeEntries_absorbed fun ⟨key, value⟩ he => ?_
    obtain ⟨⟨label, rfl⟩, -⟩ := h.of_mem he
    rw [find?_mergeEntries (fun e he => (h.of_mem he).1) nodup hi.1, find?_of_mem nodup he]
    exact (again _ he _ fun v hv => settled_of_find? hi.2 hv).symm
  have written : mergeEntries (stripEntries entries) entries = stripEntries entries := by
    refine mergeEntries_absorbed fun ⟨key, value⟩ he => ?_
    obtain ⟨⟨label, rfl⟩, -⟩ := h.of_mem he
    rw [find?_stripEntries nodup he, ← effect_none]
    exact (again _ he none fun _ hv => nomatch hv).symm
  have wrap := fun {xs ys : List (Term × Term)} (eq : xs = ys) =>
    congrArg (fun inner => some (mapping inner)) eq
  rcases old with _ | t
  · exact wrap written
  · cases t with
    | mapping inner => exact wrap (merged inner (settled _ rfl))
    | _ => exact wrap written

mutual

/-- Making the same of a field again changes nothing. -/
theorem effect_effect : (value : Term) → IsLabelled value → ∀ old : Option Term,
    (∀ v ∈ old, v.IsSettled) → effect (effect old value) value = effect old value
  | .mapping entries, h, _, settled => effect_mapping h.2 h.1 (effects_effect entries h.2) settled
  | .mark m, _, _, _ => by cases m <;> rfl
  | .scalar _, _, _, _ => rfl
  | .list _, _, _, _ => rfl
  | .tuple _, _, _, _ => rfl
  | .literal _, _, _, _ => rfl
  | .expression .., _, _, _ => rfl
  | .record .., _, _, _ => rfl
  | .function _, _, _, _ => rfl
  | .policy .., _, _, _ => rfl
  | .resolver .., _, _, _ => rfl
  | .ownPolicy .., _, _, _ => rfl
  | .selector _, _, _, _ => rfl
  | .mutation _, _, _, _ => rfl
  | .foreign _, _, _, _ => rfl

theorem effects_effect : (entries : List (Term × Term)) → LabelledEntries entries →
    ∀ e ∈ entries, ∀ old : Option Term, (∀ v ∈ old, v.IsSettled) →
      effect (effect old e.2) e.2 = effect old e.2
  | [], _, _, he => nomatch he
  | (_, value) :: rest, h, e, he => by
    rcases List.mem_cons.1 he with rfl | he
    · exact effect_effect value h.2.1
    · exact effects_effect rest h.2.2 e he

end

/-- Merging a patch a second time changes nothing. -/
theorem mergeEntries_again (h : IsLabelled (.mapping entries))
    (settled : (mapping existing).IsSettled) :
    mergeEntries (mergeEntries existing entries) entries = mergeEntries existing entries := by
  have again := effect_effect (.mapping entries) h (some (.mapping existing)) fun v hv => by
    cases hv
    exact settled
  exact (Term.mapping.inj (Option.some.inj again))

end Patch

end Folio
