import Folio.Proofs.Faithful
/-!
# The grammar of documents

Validation accepts a grammar: scalars, lists and tuples of values, and mappings from texts to values.
The value that it makes of a term is the term with lists for tuples, and nothing else changed. Where
it refuses a term, the parts of the term decide, in the order in which they are read: it is the first
one of a type that does not belong there, and a key is read before its value.
-/

namespace Folio

namespace Malformed

/-- The fault of a computation, if it has failed. -/
def of? {α : Type} : Except Malformed α → Option Malformed
  | .ok _ => none
  | .error fault => some fault

theorem of?_map {α β : Type} (x : Except Malformed α) (f : α → β) : of? (x.map f) = of? x := by
  cases x <;> rfl

end Malformed

namespace Term

/-- A value as documents have it, with tuples for lists as one likes. -/
inductive IsDocumentary : Term → Prop
  | scalar (s : Scalar) : IsDocumentary (.scalar s)
  | list {items : List Term} (each : ∀ t ∈ items, IsDocumentary t) : IsDocumentary (.list items)
  | tuple {items : List Term} (each : ∀ t ∈ items, IsDocumentary t) : IsDocumentary (.tuple items)
  | mapping {entries : List (Term × Term)} (keys : ∀ e ∈ entries, ∃ label, e.1 = .text label)
      (each : ∀ e ∈ entries, IsDocumentary e.2) : IsDocumentary (.mapping entries)

/-- A part of a term, where it stands: a value, or a key of the mapping there. -/
inductive Part where
  | value (path : String) (t : Term)
  | key (path : String) (t : Term)

namespace Part

/-- What is wrong with a part, whatever is inside of it: a key is a text, and a value is a scalar, a
list, a tuple or a mapping. -/
def fault? : Part → Option Malformed
  | .value _ (.scalar _) => none
  | .value _ (.list _) => none
  | .value _ (.tuple _) => none
  | .value _ (.mapping _) => none
  | .value path t => some (.unsupported t.typeName path)
  | .key _ (.scalar (.text _)) => none
  | .key path t => some (.label t.typeName path)

/-- Whether a part is a tuple. -/
def isTuple : Part → Bool
  | .value _ (.tuple _) => true
  | .key _ (.tuple _) => true
  | _ => false

/-- The part with lists for tuples; a key stays what it is. -/
def listed : Part → Part
  | .value path t => .value path t.listed
  | .key path t => .key path t

end Part

mutual

/-- The parts of a term from left to right, each of them before what is inside of it. Nothing inside
of a key is a part. -/
def parts (path : String) : Term → List Part
  | .list items => .value path (.list items) :: partsOfItems path 0 items
  | .tuple items => .value path (.tuple items) :: partsOfItems path 0 items
  | .mapping entries => .value path (.mapping entries) :: partsOfEntries path entries
  | t => [.value path t]

/-- The parts of the items from a position on. -/
def partsOfItems (path : String) (index : Nat) : List Term → List Part
  | [] => []
  | item :: rest => item.parts (itemPath path index) ++ partsOfItems path (index + 1) rest

/-- The keys of the entries, each of them before the parts of its value. -/
def partsOfEntries (path : String) : List (Term × Term) → List Part
  | [] => []
  | (key, value) :: rest =>
    .key path key :: (value.parts (fieldPath path key.plain) ++ partsOfEntries path rest)

end

variable {t : Term} {items : List Term} {entries : List (Term × Term)}

/-! ## What is refused -/

theorem Part.fault?_key {key : Term} (h : ¬ ∃ label, key = .text label) (path : String) :
    (Part.key path key).fault? = some (.label key.typeName path) := by
  unfold fault?
  split
  case h_6 => rename_i same; exact absurd ⟨_, (Part.key.inj same).2⟩ h
  case h_7 => rename_i same; cases same; rfl
  all_goals rename_i same; cases same

theorem validateEntries_of_label {key : Term} (h : ¬ ∃ label, key = .text label) (path : String)
    (value : Term) (rest : List (Term × Term)) :
    validateEntries path ((key, value) :: rest) = .error (.label key.typeName path) := by
  unfold validateEntries
  split
  · exact absurd ⟨_, rfl⟩ h
  · rfl

mutual

/-- A term is refused for the first of its parts that has a fault. -/
theorem findSome?_parts : (t : Term) → ∀ path,
    (t.parts path).findSome? Part.fault? = Malformed.of? (t.validate path)
  | .scalar _, _ => rfl
  | .list items, path => by
    rw [validate, Malformed.of?_map, ← findSome?_partsOfItems items path 0]
    rfl
  | .tuple items, path => by
    rw [validate, Malformed.of?_map, ← findSome?_partsOfItems items path 0]
    rfl
  | .mapping entries, path => by
    rw [validate, Malformed.of?_map, ← findSome?_partsOfEntries entries path]
    rfl
  | .mark _, _ => rfl
  | .literal _, _ => rfl
  | .expression .., _ => rfl
  | .record .., _ => rfl
  | .function _, _ => rfl
  | .policy .., _ => rfl
  | .resolver .., _ => rfl
  | .ownPolicy .., _ => rfl
  | .selector _, _ => rfl
  | .mutation _, _ => rfl
  | .foreign _, _ => rfl

theorem findSome?_partsOfItems : (items : List Term) → ∀ path index,
    (partsOfItems path index items).findSome? Part.fault? =
      Malformed.of? (validateItems path index items)
  | [], _, _ => rfl
  | item :: rest, path, index => by
    rw [partsOfItems, List.findSome?_append, findSome?_parts item,
      findSome?_partsOfItems rest path, validateItems]
    cases item.validate (itemPath path index) with
    | error f => rfl
    | ok v => cases validateItems path (index + 1) rest <;> rfl

theorem findSome?_partsOfEntries : (entries : List (Term × Term)) → ∀ path,
    (partsOfEntries path entries).findSome? Part.fault? =
      Malformed.of? (validateEntries path entries)
  | [], _ => rfl
  | (key, value) :: rest, path => by
    by_cases text : ∃ label, key = .text label
    · obtain ⟨label, rfl⟩ := text
      rw [partsOfEntries, List.findSome?_cons, List.findSome?_append, findSome?_parts value,
        findSome?_partsOfEntries rest path, Term.text, validateEntries]
      show ((Malformed.of? (value.validate (fieldPath path label))).or _) = _
      cases value.validate (fieldPath path label) with
      | error f => rfl
      | ok v => cases validateEntries path rest <;> rfl
    · rw [partsOfEntries, List.findSome?_cons, Part.fault?_key text,
        validateEntries_of_label text]
      rfl

end

/-! ## What is accepted -/

/-- A term that stands for a value wherever it is. -/
def IsValid (t : Term) : Prop := ∀ path, ∃ v, t.validate path = .ok v

theorem isValid_toTerm (v : Value) : v.toTerm.IsValid := fun path => ⟨v, validate_toTerm path v⟩

theorem isValid_list (h : ∀ t ∈ items, t.IsValid) : (list items).IsValid := by
  have each : ∀ path index, ∃ values, validateItems path index items = .ok values := by
    intro path
    induction items with
    | nil => exact fun _ => ⟨[], rfl⟩
    | cons item rest ih =>
      intro index
      obtain ⟨v, hv⟩ := h item List.mem_cons_self (itemPath path index)
      obtain ⟨vs, hvs⟩ := ih (fun t ht => h t (List.mem_cons_of_mem _ ht)) (index + 1)
      refine ⟨v :: vs, ?_⟩
      rw [validateItems, hv, hvs]
      rfl
  intro path
  obtain ⟨values, hv⟩ := each path 0
  refine ⟨.list values, ?_⟩
  rw [validate, hv]
  rfl

theorem exists_validateEntries (keys : ∀ e ∈ entries, ∃ label, e.1 = .text label)
    (h : ∀ e ∈ entries, e.2.IsValid) (path : String) :
    ∃ fields, validateEntries path entries = .ok fields := by
  induction entries with
  | nil => exact ⟨[], rfl⟩
  | cons e rest ih =>
    obtain ⟨key, value⟩ := e
    obtain ⟨⟨label, rfl⟩, rest_keys⟩ := List.forall_mem_cons.1 keys
    obtain ⟨here, others⟩ := List.forall_mem_cons.1 h
    obtain ⟨v, hv⟩ := here (fieldPath path label)
    obtain ⟨fields, hf⟩ := ih rest_keys others
    refine ⟨(label, v) :: fields, ?_⟩
    rw [text, validateEntries, hv, hf]
    rfl

theorem isValid_mapping (keys : ∀ e ∈ entries, ∃ label, e.1 = .text label)
    (h : ∀ e ∈ entries, e.2.IsValid) : (mapping entries).IsValid := by
  intro path
  obtain ⟨fields, hf⟩ := exists_validateEntries keys h path
  refine ⟨.object fields, ?_⟩
  rw [validate, hf]
  rfl

/-- Terms of the grammar are accepted. -/
theorem IsDocumentary.isValid (h : t.IsDocumentary) : t.IsValid := by
  induction h with
  | scalar s => exact fun _ => ⟨.scalar s, rfl⟩
  | list _ ih => exact isValid_list ih
  | tuple _ ih => exact isValid_list ih
  | mapping keys _ ih => exact isValid_mapping keys ih

mutual

/-- What is accepted belongs to the grammar, and its value is the term with lists for tuples. -/
theorem accepted_of_validate : (t : Term) → ∀ path v, t.validate path = .ok v →
    t.IsDocumentary ∧ v.toTerm = t.listed
  | .scalar s, _, _, rfl => ⟨.scalar s, rfl⟩
  | .list items, path, v, h => by
    obtain ⟨values, hv, rfl⟩ := exists_of_map_ok h
    obtain ⟨each, listed⟩ := accepted_of_validateItems items path 0 values hv
    exact ⟨.list each, congrArg Term.list listed⟩
  | .tuple items, path, v, h => by
    obtain ⟨values, hv, rfl⟩ := exists_of_map_ok h
    obtain ⟨each, listed⟩ := accepted_of_validateItems items path 0 values hv
    exact ⟨.tuple each, congrArg Term.list listed⟩
  | .mapping entries, path, v, h => by
    obtain ⟨fields, hf, rfl⟩ := exists_of_map_ok h
    obtain ⟨each, listed⟩ := accepted_of_validateEntries entries path fields hf
    exact ⟨.mapping (fun e he => (each e he).1) fun e he => (each e he).2,
      congrArg Term.mapping listed⟩
  | .mark _, _, _, h => nomatch h
  | .literal _, _, _, h => nomatch h
  | .expression .., _, _, h => nomatch h
  | .record .., _, _, h => nomatch h
  | .function _, _, _, h => nomatch h
  | .policy .., _, _, h => nomatch h
  | .resolver .., _, _, h => nomatch h
  | .ownPolicy .., _, _, h => nomatch h
  | .selector _, _, _, h => nomatch h
  | .mutation _, _, _, h => nomatch h
  | .foreign _, _, _, h => nomatch h

theorem accepted_of_validateItems : (items : List Term) → ∀ path index values,
    validateItems path index items = .ok values →
      (∀ t ∈ items, t.IsDocumentary) ∧ Value.itemsToTerms values = listedItems items
  | [], _, _, _, rfl => ⟨List.forall_mem_nil _, rfl⟩
  | item :: rest, path, index, values, h => by
    obtain ⟨v, hv, h⟩ := exists_of_bind_ok h
    obtain ⟨vs, hvs, h⟩ := exists_of_bind_ok h
    cases h
    obtain ⟨first, first_listed⟩ := accepted_of_validate item _ v hv
    obtain ⟨each, rest_listed⟩ := accepted_of_validateItems rest path _ vs hvs
    refine ⟨List.forall_mem_cons.2 ⟨first, each⟩, ?_⟩
    rw [Value.itemsToTerms, listedItems, first_listed, rest_listed]

theorem accepted_of_validateEntries : (entries : List (Term × Term)) → ∀ path fields,
    validateEntries path entries = .ok fields →
      (∀ e ∈ entries, (∃ label, e.1 = .text label) ∧ e.2.IsDocumentary) ∧
        Value.fieldsToEntries fields = listedEntries entries
  | [], _, _, rfl => ⟨List.forall_mem_nil _, rfl⟩
  | (.scalar (.text label), value) :: rest, path, fields, h => by
    obtain ⟨v, hv, h⟩ := exists_of_bind_ok h
    obtain ⟨vs, hvs, h⟩ := exists_of_bind_ok h
    cases h
    obtain ⟨first, first_listed⟩ := accepted_of_validate value _ v hv
    obtain ⟨each, rest_listed⟩ := accepted_of_validateEntries rest path vs hvs
    refine ⟨List.forall_mem_cons.2 ⟨⟨⟨label, rfl⟩, first⟩, each⟩, ?_⟩
    rw [Value.fieldsToEntries, listedEntries, first_listed, rest_listed]
    rfl

end

/-! ## What becomes of the parts -/

theorem partsOfItems_listed (h : ∀ t ∈ items, ∀ path,
    t.listed.parts path = (t.parts path).map Part.listed) (path : String) (index : Nat) :
    partsOfItems path index (listedItems items) =
      (partsOfItems path index items).map Part.listed := by
  induction items generalizing index with
  | nil => rfl
  | cons item rest ih =>
    obtain ⟨first, later⟩ := List.forall_mem_cons.1 h
    rw [listedItems, partsOfItems, partsOfItems, first, ih later, List.map_append]

theorem partsOfEntries_listed (h : ∀ e ∈ entries, ∀ path,
    e.2.listed.parts path = (e.2.parts path).map Part.listed) (path : String) :
    partsOfEntries path (listedEntries entries) =
      (partsOfEntries path entries).map Part.listed := by
  induction entries with
  | nil => rfl
  | cons e rest ih =>
    obtain ⟨first, later⟩ := List.forall_mem_cons.1 h
    rw [listedEntries, partsOfEntries, partsOfEntries, first, ih later, List.map_cons,
      List.map_append]
    rfl

/-- With lists for tuples a term has the same parts in the same places. -/
theorem IsDocumentary.parts_listed (h : t.IsDocumentary) (path : String) :
    t.listed.parts path = (t.parts path).map Part.listed := by
  induction h generalizing path with
  | scalar => rfl
  | list _ ih => exact congrArg _ (partsOfItems_listed (fun t ht path => ih t ht path) path 0)
  | tuple _ ih => exact congrArg _ (partsOfItems_listed (fun t ht path => ih t ht path) path 0)
  | mapping _ _ ih => exact congrArg _ (partsOfEntries_listed (fun e he path => ih e he path) path)

/-- A part without a fault is no tuple, once it has a list for it. -/
theorem Part.isTuple_listed {p : Part} (h : p.listed.fault? = none) : p.listed.isTuple = false := by
  cases p with
  | value path t => cases t <;> rfl
  | key path t =>
    cases t with
    | tuple items => cases h
    | _ => rfl

/-- No part of a document value is a tuple. -/
theorem isTuple_of_mem_parts {v : Value} (documentary : t.IsDocumentary)
    (listed : v.toTerm = t.listed) (path : String) :
    ∀ p ∈ v.toTerm.parts path, p.isTuple = false := by
  intro p hp
  have sound : (v.toTerm.parts path).findSome? Part.fault? = none := by
    rw [findSome?_parts, validate_toTerm]
    rfl
  have fault := List.findSome?_eq_none_iff.1 sound p hp
  rw [listed, documentary.parts_listed, List.mem_map] at hp
  obtain ⟨q, -, rfl⟩ := hp
  exact Part.isTuple_listed fault

/-! ## The whole gate -/

/-- A term is accepted exactly if it belongs to the grammar. Its value is the term with lists for
tuples: the same parts in the same places, no tuple among them, and accepted again as it is. A term
is refused for the first of its parts that has a fault, from left to right and a key before what is
inside of its value. -/
theorem validate_exact (t : Term) (path : String) :
    ((∃ v, t.validate path = .ok v) ↔ t.IsDocumentary) ∧
      (∀ v, t.validate path = .ok v →
        v.toTerm = t.listed ∧
          v.toTerm.parts path = (t.parts path).map Part.listed ∧
          (∀ p ∈ v.toTerm.parts path, p.isTuple = false) ∧
          ∀ again, v.toTerm.validate again = .ok v) ∧
      ∀ fault, t.validate path = .error fault ↔
        ∃ before part after, t.parts path = before ++ part :: after ∧
          (∀ p ∈ before, p.fault? = none) ∧ part.fault? = some fault := by
  refine ⟨⟨?_, fun documentary => documentary.isValid path⟩, ?_, ?_⟩
  · rintro ⟨v, h⟩
    exact (accepted_of_validate t path v h).1
  · intro v h
    obtain ⟨documentary, listed⟩ := accepted_of_validate t path v h
    refine ⟨listed, ?_, isTuple_of_mem_parts documentary listed path,
      fun again => validate_toTerm again v⟩
    rw [listed, documentary.parts_listed]
  · intro fault
    have refused : t.validate path = .error fault ↔
        (t.parts path).findSome? Part.fault? = some fault := by
      rw [findSome?_parts]
      cases t.validate path <;> simp [Malformed.of?]
    rw [refused, List.findSome?_eq_some_iff]
    constructor
    · rintro ⟨before, part, after, parts, found, clean⟩
      exact ⟨before, part, after, parts, clean, found⟩
    · rintro ⟨before, part, after, parts, clean, found⟩
      exact ⟨before, part, after, parts, found, clean⟩

end Term

end Folio
