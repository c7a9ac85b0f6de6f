import Folio.Patch.Evaluation
import Folio.Patch.Merge
/-!
# Documents merged into documents

An insert that updates merges a document into the stored one. A document as a patch has nothing to
evaluate, to remove or to unwrap, so the merge is one of plain values: objects merge into objects,
and every other value takes its place. The result is a document again, whatever the two hold.
-/

namespace Folio

namespace Value

mutual

/-- Fields with other fields merged into them, one after the other. -/
def mergeFields (old : List (String × Value)) : List (String × Value) → List (String × Value)
  | [] => old
  | (label, value) :: rest => mergeFields (mergeField old label value) rest

/-- Fields with a value merged into one of them. -/
def mergeField (old : List (String × Value)) (label : String) : Value → List (String × Value)
  | .object fields =>
    match Entries.find? old label with
    | some (.object inner) => Entries.put old label (.object (mergeFields inner fields))
    | _ => Entries.put old label (.object fields)
  | .list items => Entries.put old label (.list items)
  | .scalar s => Entries.put old label (.scalar s)

end

/-! ## Fields as entries -/

theorem text_beq (k l : String) : (Term.text k == Term.text l) = (k == l) := rfl

theorem find?_fieldsToEntries (fields : List (String × Value)) (label : String) :
    Entries.find? (fieldsToEntries fields) (.text label) =
      (Entries.find? fields label).map toTerm := by
  induction fields with
  | nil => simp [fieldsToEntries]
  | cons e rest ih =>
    obtain ⟨k, v⟩ := e
    rw [fieldsToEntries, Entries.find?_cons, Entries.find?_cons, text_beq, ih]
    split <;> rfl

theorem put_fieldsToEntries (fields : List (String × Value)) (label : String) (v : Value) :
    Entries.put (fieldsToEntries fields) (.text label) v.toTerm =
      fieldsToEntries (Entries.put fields label v) := by
  induction fields with
  | nil => rfl
  | cons e rest ih =>
    obtain ⟨k, w⟩ := e
    simp only [fieldsToEntries, Entries.put]
    by_cases h : (k == label) = true
    · rw [if_pos h, if_pos ((text_beq k label).trans h)]
      rfl
    · rw [if_neg h, if_neg (text_beq k label ▸ h), ih]
      rfl

/-! ## Documents as patches -/

theorem isRemoval_toTerm (v : Value) : v.toTerm.isRemoval = false := by
  cases v <;> rfl

mutual

@[simp] theorem strip_toTerm : (v : Value) → v.toTerm.strip = v.toTerm
  | .scalar s => by simp [toTerm, Term.strip, Term.copy]
  | .list items => by simp [toTerm, Term.strip, stripItems_itemsToTerms items]
  | .object fields => by simp [toTerm, Term.strip, stripEntries_fieldsToEntries fields]

theorem stripItems_itemsToTerms : (items : List Value) →
    Term.stripItems (itemsToTerms items) = itemsToTerms items
  | [] => rfl
  | item :: rest => by
    simp [itemsToTerms, Term.stripItems, strip_toTerm item, stripItems_itemsToTerms rest]

theorem stripEntries_fieldsToEntries : (fields : List (String × Value)) →
    Term.stripEntries (fieldsToEntries fields) = fieldsToEntries fields
  | [] => rfl
  | (label, value) :: rest => by
    simp [fieldsToEntries, Term.stripEntries, isRemoval_toTerm value, strip_toTerm value,
      stripEntries_fieldsToEntries rest]

end

mutual

/-- A document value has nothing to evaluate. -/
theorem evaluatePatch_toTerm (existing : Term) : (v : Value) →
    Term.evaluatePatch existing v.toTerm = .ok v.toTerm
  | .scalar s => rfl
  | .list items => by
    simp [toTerm, Term.evaluatePatch, evaluatePatchItems_itemsToTerms existing items, Except.map]
  | .object fields => by
    simp [toTerm, Term.evaluatePatch, evaluatePatchEntries_fieldsToEntries existing fields,
      Except.map]

theorem evaluatePatchItems_itemsToTerms (existing : Term) : (items : List Value) →
    Term.evaluatePatchItems existing (itemsToTerms items) = .ok (itemsToTerms items)
  | [] => rfl
  | item :: rest => by
    simp only [itemsToTerms, Term.evaluatePatchItems, evaluatePatch_toTerm existing item,
      evaluatePatchItems_itemsToTerms existing rest]
    rfl

theorem evaluatePatchEntries_fieldsToEntries (existing : Term) :
    (fields : List (String × Value)) →
      Term.evaluatePatchEntries existing (fieldsToEntries fields) = .ok (fieldsToEntries fields)
  | [] => rfl
  | (label, value) :: rest => by
    simp only [fieldsToEntries, Term.evaluatePatchEntries, evaluatePatch_toTerm existing value,
      evaluatePatchEntries_fieldsToEntries existing rest]
    rfl

end

mutual

theorem mergeEntries_fieldsToEntries : (fields old : List (String × Value)) →
    Patch.mergeEntries (fieldsToEntries old) (fieldsToEntries fields) =
      fieldsToEntries (mergeFields old fields)
  | [], old => by simp [fieldsToEntries, Patch.mergeEntries, mergeFields]
  | (label, value) :: rest, old => by
    rw [fieldsToEntries, Patch.mergeEntries, mergeFields,
      mergeEntry_fieldsToEntries value label old, mergeEntries_fieldsToEntries rest]

theorem mergeEntry_fieldsToEntries : (value : Value) → (label : String) →
    (old : List (String × Value)) →
      Patch.mergeEntry (fieldsToEntries old) (.text label) value.toTerm =
        fieldsToEntries (mergeField old label value)
  | .scalar s, label, old => put_fieldsToEntries old label (.scalar s)
  | .list items, label, old => by
    rw [mergeField, ← put_fieldsToEntries, toTerm, Patch.mergeEntry,
      stripItems_itemsToTerms items]
  | .object fields, label, old => by
    rw [mergeField, toTerm, Patch.mergeEntry, find?_fieldsToEntries,
      stripEntries_fieldsToEntries fields]
    -- The fields merge only into an object.
    rcases Entries.find? old label with _ | (s | items | inner)
    · exact put_fieldsToEntries old label (.object fields)
    · exact put_fieldsToEntries old label (.object fields)
    · exact put_fieldsToEntries old label (.object fields)
    · show Entries.put (fieldsToEntries old) (.text label)
        (.mapping (Patch.mergeEntries (fieldsToEntries inner) (fieldsToEntries fields))) = _
      rw [mergeEntries_fieldsToEntries fields inner]
      exact put_fieldsToEntries old label (.object (mergeFields inner fields))

end

end Value

namespace Document

/-- A document with another one merged into it. -/
def merge (old new : Document) : Document := Value.mergeFields old new

/-- A document as a patch is evaluated to its own entries. -/
@[simp] theorem evaluate_toTerm (existing : Term) (d : Document) :
    Patch.evaluate existing d.toTerm = .ok d.toEntries := by
  show Patch.lift (Term.evaluatePatchEntries existing (Value.fieldsToEntries d)) = _
  rw [Value.evaluatePatchEntries_fieldsToEntries]
  rfl

/-- Merging a document into a document gives a document. -/
@[simp] theorem merge_toEntries (old new : Document) :
    Patch.merge old.toEntries new.toEntries = (old.merge new).toEntries := by
  unfold Patch.merge toEntries merge
  rw [Value.copyEntries_fieldsToEntries, Value.mergeEntries_fieldsToEntries]

end Document

end Folio
