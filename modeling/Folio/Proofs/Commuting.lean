import Folio.Proofs.MergePatch
/-!
# Patches that do not meet

Two patches are disjoint if, wherever both have a field, both go into a mapping there, and are
disjoint inside. Then it does not matter which of them is merged first: the results differ in the
order of their fields at most. Field by field, either one patch alone decides, or both merge into
one mapping; where that mapping did not exist, the first patch writes it and the second finds it.
-/

namespace Folio

namespace Term

variable {alike : Term → Term → Prop} {xs ys : List (Term × Term)} {label : String}

/-! ## Equality up to the order of fields -/

mutual

/-- One term with the fields of its mappings in another order, at every depth, and with other parts
in a relation. -/
inductive Rearranged (alike : Term → Term → Prop) : Term → Term → Prop
  | part {s t : Term} (h : alike s t) : Rearranged alike s t
  | mapping {xs ys zs : List (Term × Term)} (order : xs.Perm zs)
      (fields : RearrangedFields alike zs ys) : Rearranged alike (.mapping xs) (.mapping ys)

/-- Entries with the same keys at the same places, and values that are rearranged. -/
inductive RearrangedFields (alike : Term → Term → Prop) :
    List (Term × Term) → List (Term × Term) → Prop
  | nil : RearrangedFields alike [] []
  | cons {key s t : Term} {xs ys : List (Term × Term)} (first : Rearranged alike s t)
      (rest : RearrangedFields alike xs ys) :
      RearrangedFields alike ((key, s) :: xs) ((key, t) :: ys)

end

/-- One is the other, or a copy of it. -/
def IsCopy (s t : Term) : Prop := s = t ∨ s = t.copy ∨ t = s.copy

/-- Entries are their own copies if each of them is. -/
theorem copyEntries_eq_self :
    copyEntries xs = xs ↔ ∀ e ∈ xs, e.1.copy = e.1 ∧ e.2.copy = e.2 := by
  induction xs with
  | nil => simp [copyEntries]
  | cons e rest ih =>
    rw [List.forall_mem_cons, ← ih, copyEntries, List.cons.injEq, Prod.ext_iff]

mutual

/-- Among terms that are their own copies, copies are the same. -/
theorem Rearranged.of_copies {s t : Term} :
    Rearranged IsCopy s t → s.copy = s → t.copy = t → Rearranged Eq s t
  | .part h, hs, ht => by
    refine .part ?_
    rcases h with h | h | h
    · exact h
    · rw [h, ht]
    · rw [h, hs]
  | .mapping order fields, hs, ht => by
    have own := copyEntries_eq_self.1 (Term.mapping.inj hs)
    refine .mapping order (fields.of_copies ?_ (Term.mapping.inj ht))
    exact copyEntries_eq_self.2 fun e he => own e (order.mem_iff.2 he)

theorem RearrangedFields.of_copies {xs ys : List (Term × Term)} :
    RearrangedFields IsCopy xs ys → copyEntries xs = xs → copyEntries ys = ys →
      RearrangedFields Eq xs ys
  | .nil, _, _ => .nil
  | .cons first rest, hx, hy => by
    obtain ⟨⟨-, hs⟩, hx⟩ := List.forall_mem_cons.1 (copyEntries_eq_self.1 hx)
    obtain ⟨⟨-, ht⟩, hy⟩ := List.forall_mem_cons.1 (copyEntries_eq_self.1 hy)
    exact .cons (first.of_copies hs ht)
      (rest.of_copies (copyEntries_eq_self.2 hx) (copyEntries_eq_self.2 hy))

end

/-- The keys of entries are labels, each once. -/
structure AreKeyed (entries : List (Term × Term)) : Prop where
  keys : ∀ e ∈ entries, ∃ label, e.1 = text label
  nodup : (labels entries).Nodup

theorem EntriesHaveLabels.keys (h : EntriesHaveLabels xs) :
    ∀ e ∈ xs, ∃ label, e.1 = text label := by
  induction xs with
  | nil => exact List.forall_mem_nil _
  | cons f rest ih => exact List.forall_mem_cons.2 ⟨h.1, ih h.2.2⟩

theorem AreKeyed.put (h : AreKeyed xs) (label : String) (value : Term) :
    AreKeyed (Entries.put xs (text label) value) := by
  refine ⟨?_, labels_put_nodup h.nodup⟩
  obtain ⟨keys, -⟩ := h
  induction xs with
  | nil => simp [Entries.put]
  | cons e rest ih =>
    rw [Entries.put]
    split
    · exact List.forall_mem_cons.2 ⟨keys e List.mem_cons_self, (List.forall_mem_cons.1 keys).2⟩
    · exact List.forall_mem_cons.2
        ⟨keys e List.mem_cons_self, ih (List.forall_mem_cons.1 keys).2⟩

theorem AreKeyed.erase (h : AreKeyed xs) (key : Term) : AreKeyed (Entries.erase xs key) where
  keys e he := h.keys e ((Entries.erase_sublist xs key).subset he)
  nodup := h.nodup.sublist (labels_erase_sublist xs key)

theorem AreKeyed.copy (h : AreKeyed xs) : AreKeyed (copyEntries xs) := by
  refine ⟨?_, (labels_copyEntries xs).symm ▸ h.nodup⟩
  obtain ⟨keys, -⟩ := h
  induction xs with
  | nil => exact keys
  | cons e rest ih =>
    obtain ⟨⟨label, hk⟩, rest_keys⟩ := List.forall_mem_cons.1 keys
    refine List.forall_mem_cons.2 ⟨⟨label, ?_⟩, ih rest_keys⟩
    rw [hk]
    rfl

/-- An entry can be brought to the front. -/
theorem perm_erase {value : Term} (hf : Entries.find? xs (text label) = some value) :
    xs.Perm ((text label, value) :: Entries.erase xs (text label)) := by
  induction xs with
  | nil => cases hf
  | cons e rest ih =>
    obtain ⟨k, v⟩ := e
    rw [Entries.find?_cons] at hf
    rw [Entries.erase]
    split at hf
    · rename_i hk
      cases hf
      rw [if_pos hk, eq_text_of_beq hk]
    · rename_i hk
      rw [if_neg hk]
      exact ((ih hf).cons (k, v)).trans (.swap ..)

/-- Mappings are rearranged if they are label by label. -/
theorem rearranged_of_find? (hx : AreKeyed xs) (hy : AreKeyed ys)
    (each : ∀ label, Option.Rel (Rearranged alike) (Entries.find? xs (text label))
      (Entries.find? ys (text label))) :
    Rearranged alike (.mapping xs) (.mapping ys) := by
  have fields : ∃ zs, xs.Perm zs ∧ RearrangedFields alike zs ys := by
    induction ys generalizing xs with
    | nil =>
      cases xs with
      | nil => exact ⟨[], .nil, .nil⟩
      | cons e rest =>
        obtain ⟨label, hk⟩ := hx.keys e List.mem_cons_self
        have found := each label
        rw [Entries.find?_cons, hk, if_pos (text_beq_self label)] at found
        cases found
    | cons f rest ih =>
      obtain ⟨key, t⟩ := f
      obtain ⟨⟨label, rfl⟩, keys⟩ := List.forall_mem_cons.1 hy.keys
      obtain ⟨fresh, nodup⟩ := nodup_labels_cons.1 hy.nodup
      have found := each label
      rw [Entries.find?_cons, if_pos (text_beq_self label)] at found
      cases hs : Entries.find? xs (text label) with
      | none =>
        rw [hs] at found
        cases found
      | some s =>
        rw [hs] at found
        cases found with
        | some first =>
          -- Behind the first entry, the rest has what is left once the label is erased.
          obtain ⟨zs, order, values⟩ := ih (hx.erase (text label)) ⟨keys, nodup⟩ fun other => by
            by_cases eq : label = other
            · subst eq
              rw [find?_erase_text hx.nodup, find?_eq_none_of_not_mem fresh]
              exact .none
            · have there := each other
              rwa [Entries.find?_cons, if_neg (Bool.eq_false_iff.1 (text_beq_of_ne eq)),
                ← find?_erase_text_of_ne eq] at there
          exact ⟨_, (perm_erase hs).trans (order.cons _), .cons first values⟩
  obtain ⟨zs, order, values⟩ := fields
  exact .mapping order values

end Term

namespace Value

mutual

theorem hasLabels_toTerm : (v : Value) → v.IsSettled → v.toTerm.HasLabels
  | .scalar _, _ => trivial
  | .list items, h => itemsHaveLabels_itemsToTerms items h
  | .object fields, h =>
    ⟨labels_fieldsToEntries fields ▸ h.1, entriesHaveLabels_fieldsToEntries fields h.2⟩

theorem itemsHaveLabels_itemsToTerms : (items : List Value) → SettledItems items →
    Term.ItemsHaveLabels (itemsToTerms items)
  | [], _ => trivial
  | item :: rest, h => ⟨hasLabels_toTerm item h.1, itemsHaveLabels_itemsToTerms rest h.2⟩

theorem entriesHaveLabels_fieldsToEntries : (fields : List (String × Value)) →
    SettledFields fields → Term.EntriesHaveLabels (fieldsToEntries fields)
  | [], _ => trivial
  | (label, value) :: rest, h =>
    ⟨⟨label, rfl⟩, hasLabels_toTerm value h.1, entriesHaveLabels_fieldsToEntries rest h.2⟩

end

end Value

namespace Patch

open Term

variable {old : Option Term} {x p q : List (Term × Term)} {label : String}

/-! ## Disjoint patches -/

mutual

/-- Both go into a mapping, and are disjoint inside. -/
def ValuesDisjoint : Term → Term → Prop
  | .mapping p, .mapping q => FieldsDisjoint p q
  | _, _ => False

/-- Under a label of both stand disjoint values. -/
def FieldsDisjoint : List (Term × Term) → List (Term × Term) → Prop
  | [], _ => True
  | (key, value) :: rest, q =>
    (∀ other ∈ Entries.find? q key, ValuesDisjoint value other) ∧ FieldsDisjoint rest q

end

/-! ## What a patch makes of a field -/

theorem areKeyed_mergeEntries (hx : AreKeyed x) (hp : EntriesHaveLabels p) :
    AreKeyed (mergeEntries x p) := by
  induction p generalizing x with
  | nil => exact hx
  | cons e rest ih =>
    obtain ⟨key, value⟩ := e
    obtain ⟨⟨label, rfl⟩, -, hrest⟩ := hp
    refine ih ?_ hrest
    rw [mergeEntry_eq]
    cases effect (Entries.find? x (text label)) value with
    | none => exact hx.erase _
    | some v => exact hx.put label v

/-- Two patches in turn, the second on a copy of what the first has made. -/
def inTurn (x p q : List (Term × Term)) : List (Term × Term) :=
  mergeEntries (copyEntries (mergeEntries x p)) q

/-- What two values in turn make of a field. -/
def effectInTurn (old : Option Term) (v w : Term) : Option Term :=
  effect ((effect old v).map copy) w

theorem areKeyed_inTurn (hx : AreKeyed x) (hp : EntriesHaveLabels p) (hq : EntriesHaveLabels q) :
    AreKeyed (inTurn x p q) :=
  areKeyed_mergeEntries (areKeyed_mergeEntries hx hp).copy hq

theorem find?_inTurn (hx : AreKeyed x) (hp : (Term.mapping p).HasLabels)
    (hq : (Term.mapping q).HasLabels) (label : String) :
    Entries.find? (inTurn x p q) (text label) =
      (Entries.find? q (text label)).elim
        (((Entries.find? p (text label)).elim (Entries.find? x (text label))
          (effect (Entries.find? x (text label)))).map copy)
        (effect (((Entries.find? p (text label)).elim (Entries.find? x (text label))
          (effect (Entries.find? x (text label)))).map copy)) := by
  have merged := (areKeyed_mergeEntries hx hp.2).copy
  rw [inTurn, find?_mergeEntries hq.2.keys hq.1 merged.nodup, find?_copyEntries,
    find?_mergeEntries hp.2.keys hp.1 hx.nodup]

/-- A copy of a term in the one place, and the term in the other. -/
theorem rel_copy (t : Option Term) : Option.Rel (Rearranged IsCopy) (t.map copy) t ∧
    Option.Rel (Rearranged IsCopy) t (t.map copy) := by
  cases t with
  | none => exact ⟨.none, .none⟩
  | some t => exact ⟨.some (.part (.inr (.inl rfl))), .some (.part (.inr (.inr rfl)))⟩

/-- In turn, disjoint patches make the same of a mapping in either order, if disjoint values under
one label do. -/
theorem rearranged_inTurn (hx : AreKeyed x) (own : copyEntries x = x)
    (hp : (Term.mapping p).HasLabels) (hq : (Term.mapping q).HasLabels)
    (both : ∀ label, ∀ v ∈ Entries.find? p (text label), ∀ w ∈ Entries.find? q (text label),
      Option.Rel (Rearranged IsCopy) (effectInTurn (Entries.find? x (text label)) v w)
        (effectInTurn (Entries.find? x (text label)) w v)) :
    Rearranged IsCopy (.mapping (inTurn x p q)) (.mapping (inTurn x q p)) := by
  refine rearranged_of_find? (areKeyed_inTurn hx hp.2 hq.2) (areKeyed_inTurn hx hq.2 hp.2)
    fun label => ?_
  have held : (Entries.find? x (text label)).map copy = Entries.find? x (text label) := by
    rw [← find?_copyEntries, own]
  rw [find?_inTurn hx hp hq, find?_inTurn hx hq hp]
  -- Where one patch alone names the label, the orders differ in when the field is copied.
  cases hv : Entries.find? p (text label) with
  | none =>
    cases hw : Entries.find? q (text label) with
    | none =>
      have same := (rel_copy (Entries.find? x (text label))).1
      simp only [Option.elim_none, held] at same ⊢
      exact same
    | some w =>
      simp only [Option.elim_none, Option.elim_some, held]
      exact (rel_copy _).2
  | some v =>
    cases hw : Entries.find? q (text label) with
    | none =>
      simp only [Option.elim_none, Option.elim_some, held]
      exact (rel_copy _).1
    | some w => exact both label v hv w hw

/-- What is written as a whole is what is merged into nothing. -/
theorem stripEntries_eq_mergeEntries (hp : (Term.mapping p).HasLabels) :
    stripEntries p = mergeEntries [] p :=
  (stripEntries_eq p hp.2 hp.1 [] fun _ _ => rfl).trans
    (mergeEntries_eq p hp.2 hp.1 [] [] fun _ _ => rfl).symm

/-- Two mappings in turn are merged into the mapping that was there, or into none. -/
theorem effectInTurn_mapping (hp : (Term.mapping p).HasLabels) (q : List (Term × Term)) :
    effectInTurn old (.mapping p) (.mapping q) = some (.mapping (inTurn (entriesOf old) p q)) := by
  have first : effect old (.mapping p) = some (.mapping (mergeEntries (entriesOf old) p)) := by
    rcases old with _ | old
    · exact congrArg (fun z => some (Term.mapping z)) (stripEntries_eq_mergeEntries hp)
    · cases old with
      | mapping inner => rfl
      | _ => exact congrArg (fun z => some (Term.mapping z)) (stripEntries_eq_mergeEntries hp)
  rw [effectInTurn, first]
  rfl

/-- What stands in a place has labels, and is its own copy. -/
def IsKept (old : Option Term) : Prop := ∀ t ∈ old, t.HasLabels ∧ t.copy = t

theorem IsKept.entriesOf (h : IsKept old) :
    (Term.mapping (entriesOf old)).HasLabels ∧
      copyEntries (Patch.entriesOf old) = Patch.entriesOf old := by
  rcases old with _ | old
  · exact ⟨⟨List.nodup_nil, trivial⟩, rfl⟩
  · cases old with
    | mapping inner => exact ⟨(h _ rfl).1, Term.mapping.inj (h _ rfl).2⟩
    | _ => exact ⟨⟨List.nodup_nil, trivial⟩, rfl⟩

theorem IsKept.find? (hx : (Term.mapping x).HasLabels) (own : copyEntries x = x) (label : String) :
    IsKept (Entries.find? x (text label)) := by
  intro t ht
  have copied := find?_copyEntries x label
  rw [own, ht] at copied
  exact ⟨hx.2.find? ht, (Option.some.inj copied).symm⟩

mutual

/-- Disjoint values make the same of a field, whichever comes first. -/
theorem rel_effectInTurn : (v : Term) → v.HasLabels → ∀ w : Term, w.HasLabels →
    ValuesDisjoint v w → ∀ old, IsKept old →
      Option.Rel (Rearranged IsCopy) (effectInTurn old v w) (effectInTurn old w v)
  | .mapping p, hp, w, hq, disjoint, old, kept => by
    cases w with
    | mapping q =>
      obtain ⟨hx, own⟩ := kept.entriesOf
      rw [effectInTurn_mapping hp, effectInTurn_mapping hq]
      refine .some (rearranged_inTurn ⟨hx.2.keys, hx.1⟩ own hp hq fun label v hv w hw => ?_)
      exact rel_fields p hp.2 q hq.2 disjoint label v hv w hw _ (.find? hx own label)
    | _ => cases disjoint
  | .scalar _, _, _, _, disjoint, _, _ => nomatch disjoint
  | .list _, _, _, _, disjoint, _, _ => nomatch disjoint
  | .tuple _, _, _, _, disjoint, _, _ => nomatch disjoint
  | .mark _, _, _, _, disjoint, _, _ => nomatch disjoint
  | .literal _, _, _, _, disjoint, _, _ => nomatch disjoint
  | .expression .., _, _, _, disjoint, _, _ => nomatch disjoint
  | .record .., _, _, _, disjoint, _, _ => nomatch disjoint
  | .function _, _, _, _, disjoint, _, _ => nomatch disjoint
  | .policy .., _, _, _, disjoint, _, _ => nomatch disjoint
  | .resolver .., _, _, _, disjoint, _, _ => nomatch disjoint
  | .ownPolicy .., _, _, _, disjoint, _, _ => nomatch disjoint
  | .selector _, _, _, _, disjoint, _, _ => nomatch disjoint
  | .mutation _, _, _, _, disjoint, _, _ => nomatch disjoint
  | .foreign _, _, _, _, disjoint, _, _ => nomatch disjoint

theorem rel_fields : (p : List (Term × Term)) → EntriesHaveLabels p → ∀ q, EntriesHaveLabels q →
    FieldsDisjoint p q → ∀ label, ∀ v ∈ Entries.find? p (text label),
      ∀ w ∈ Entries.find? q (text label), ∀ old, IsKept old →
        Option.Rel (Rearranged IsCopy) (effectInTurn old v w) (effectInTurn old w v)
  | [], _, _, _, _, _, _, hv, _, _, _, _ => nomatch hv
  | (_, value) :: rest, ⟨⟨first, rfl⟩, hvalue, hrest⟩, q, hq, disjoint, label, v, hv, w, hw, old,
      kept => by
    rw [Entries.find?_cons] at hv
    split at hv
    · rename_i same
      cases hv
      rw [← eq_text_of_beq same] at hw
      exact rel_effectInTurn value hvalue w (hq.find? hw) (disjoint.1 w hw) old kept
    · exact rel_fields rest hrest q hq disjoint.2 label v hv w hw old kept

end

/-! ## Either order -/

/-- What is merged from own copies is its own copy. -/
theorem copyEntries_mergeEntries (own : copyEntries x = x) (hp : (Term.mapping p).HasLabels)
    (copied : copyEntries p = p) : copyEntries (mergeEntries x p) = mergeEntries x p := by
  have made := mergeEntries_eq p hp.2 hp.1 x x fun _ _ => rfl
  have again := copy_mergePatchEntries p hp.2 x x
  rw [own] at made
  rw [own, copied] at again
  rw [made, again, again]

theorem merge_merge_eq (d : Document) (p q : List (Term × Term)) :
    merge (merge d.toEntries p) q = inTurn d.toEntries p q := by
  have own : copyEntries d.toEntries = d.toEntries := Value.copyEntries_fieldsToEntries d
  rw [merge, merge, own]
  rfl

/-- Disjoint patches may be merged in either order: the results differ in the order of fields at
most, at every depth; objects that tell their copies apart are copies of one another. -/
theorem merge_comm (d : Document) (p q : List (Term × Term)) (hd : d.IsSettled)
    (hp : (Term.mapping p).HasLabels) (hq : (Term.mapping q).HasLabels)
    (disjoint : FieldsDisjoint p q) :
    Rearranged IsCopy (.mapping (merge (merge d.toEntries p) q))
        (.mapping (merge (merge d.toEntries q) p)) ∧
      (copyEntries p = p → copyEntries q = q →
        Rearranged Eq (.mapping (merge (merge d.toEntries p) q))
          (.mapping (merge (merge d.toEntries q) p))) := by
  have kept : IsKept (some d.toTerm) := by
    rintro t ⟨⟩
    exact ⟨Value.hasLabels_toTerm (.object d) hd, Document.copy_toTerm d⟩
  obtain ⟨hx, own⟩ := kept.entriesOf
  have either : Rearranged IsCopy (.mapping (merge (merge d.toEntries p) q))
      (.mapping (merge (merge d.toEntries q) p)) := by
    rw [merge_merge_eq, merge_merge_eq]
    refine rearranged_inTurn ⟨hx.2.keys, hx.1⟩ own hp hq fun label v hv w hw => ?_
    exact rel_fields p hp.2 q hq.2 disjoint label v hv w hw _ (.find? hx own label)
  refine ⟨either, fun hcp hcq => either.of_copies ?_ ?_⟩
  · have first := copyEntries_mergeEntries own hp hcp
    rw [merge_merge_eq, inTurn]
    exact congrArg Term.mapping (copyEntries_mergeEntries (congrArg copyEntries first) hq hcq)
  · have first := copyEntries_mergeEntries own hq hcq
    rw [merge_merge_eq, inTurn]
    exact congrArg Term.mapping (copyEntries_mergeEntries (congrArg copyEntries first) hp hcp)

/-- An entry in an address book with a remark where its contact data should be. -/
def remarked : Document := [("name", .scalar (.text "a")), ("contact", .scalar (.text "unknown"))]

/-- A patch that adds a telephone number. -/
def phoned : List (Term × Term) := [(.text "contact", .mapping [(.text "phone", .text "1")])]

/-- A patch that adds a mail address and takes the name away. -/
def mailed : List (Term × Term) :=
  [(.text "contact", .mapping [(.text "mail", .null)]), (.text "name", .mark .remove)]

/-- Whichever patch comes first puts an object in the place of the remark, and its field first. -/
theorem merge_comm_remarked :
    remarked.IsSettled ∧ (Term.mapping phoned).HasLabels ∧ (Term.mapping mailed).HasLabels ∧
      FieldsDisjoint phoned mailed ∧ copyEntries phoned = phoned ∧ copyEntries mailed = mailed ∧
      merge (merge remarked.toEntries phoned) mailed =
        [(.text "contact", .mapping [(.text "phone", .text "1"), (.text "mail", .null)])] ∧
      merge (merge remarked.toEntries mailed) phoned =
        [(.text "contact", .mapping [(.text "mail", .null), (.text "phone", .text "1")])] ∧
      Rearranged Eq (.mapping (merge (merge remarked.toEntries phoned) mailed))
        (.mapping (merge (merge remarked.toEntries mailed) phoned)) := by
  have settled : remarked.IsSettled := ⟨by decide, trivial, trivial, trivial⟩
  have hp : (Term.mapping phoned).HasLabels :=
    ⟨by decide, ⟨_, rfl⟩, ⟨by decide, ⟨_, rfl⟩, trivial, trivial⟩, trivial⟩
  have hq : (Term.mapping mailed).HasLabels :=
    ⟨by decide, ⟨_, rfl⟩, ⟨by decide, ⟨_, rfl⟩, trivial, trivial⟩, ⟨_, rfl⟩, trivial, trivial⟩
  have disjoint : FieldsDisjoint phoned mailed := by
    refine ⟨fun other found => ?_, trivial⟩
    cases found
    refine ⟨fun other found => ?_, trivial⟩
    cases found
  exact ⟨settled, hp, hq, disjoint, rfl, rfl, rfl, rfl,
    (merge_comm remarked phoned mailed settled hp hq disjoint).2 rfl rfl⟩

end Patch

end Folio
