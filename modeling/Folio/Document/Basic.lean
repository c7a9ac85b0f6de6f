import Folio.Term.Copy
import Folio.Term.Equality
/-!
# Documents

The values that a store holds: scalars, lists of values and objects with text labels. A document
is an object's fields, in order. Every document is a term; which terms are documents is decided
by validation. A store keeps a document in its written form, so what comes back is the document
`reread`: the same but for the payloads of what is not a number.
-/

namespace Folio

/-- A value inside a document. -/
inductive Value where
  | scalar (s : Scalar)
  | list (items : List Value)
  | object (fields : List (String × Value))

instance : Inhabited Value := ⟨.scalar .null⟩

/-- The fields of a stored object, in order. -/
abbrev Document := Entries String Value

namespace Value

mutual

/-- A document value as a term. -/
def toTerm : Value → Term
  | .scalar s => .scalar s
  | .list items => .list (itemsToTerms items)
  | .object fields => .mapping (fieldsToEntries fields)

/-- The items of a list as terms. -/
def itemsToTerms : List Value → List Term
  | [] => []
  | item :: rest => item.toTerm :: itemsToTerms rest

/-- The fields of an object as the entries of a mapping. -/
def fieldsToEntries : List (String × Value) → List (Term × Term)
  | [] => []
  | (label, value) :: rest => (.text label, value.toTerm) :: fieldsToEntries rest

end

mutual

/-- The value that a written form of this one is read as. -/
def reread : Value → Value
  | .scalar s => .scalar s.reread
  | .list items => .list (rereadItems items)
  | .object fields => .object (rereadFields fields)

/-- The items of a list as they are read back. -/
def rereadItems : List Value → List Value
  | [] => []
  | item :: rest => item.reread :: rereadItems rest

/-- The fields of an object as they are read back. -/
def rereadFields : List (String × Value) → List (String × Value)
  | [] => []
  | (label, value) :: rest => (label, value.reread) :: rereadFields rest

end

mutual

/-- The value in which each label of an object occurs once, in its first place and with its last
value. -/
def settle : Value → Value
  | .scalar s => .scalar s
  | .list items => .list (settleItems items)
  | .object fields => .object (settleFields fields)

/-- The items of a list with labels that occur once. -/
def settleItems : List Value → List Value
  | [] => []
  | item :: rest => item.settle :: settleItems rest

/-- The fields of an object, each label once. -/
def settleFields : List (String × Value) → List (String × Value)
  | [] => []
  | (label, value) :: rest =>
    let settled := settleFields rest
    match Entries.find? settled label with
    | some last => (label, last) :: Entries.erase settled label
    | none => (label, value.settle) :: settled

end

/-- The equality of document values. -/
def same (v w : Value) : Bool := v.toTerm.same w.toTerm

end Value

namespace Document

/-- The fields as the entries of a mapping. -/
def toEntries (d : Document) : List (Term × Term) := Value.fieldsToEntries d

/-- The document that a written form of this one is read as. -/
def reread (d : Document) : Document := Value.rereadFields d

/-- The document in which each label occurs once, in its first place and with its last value. -/
def settle (d : Document) : Document := Value.settleFields d

/-- A document as a term. -/
def toTerm (d : Document) : Term := .mapping d.toEntries

/-- The value of a field; a field that is absent counts as null. -/
def fieldOrNull (d : Document) (label : String) : Value := (Entries.find? d label).getD default

/-- The equality of documents, which ignores the order of fields. -/
def same (d e : Document) : Bool := d.toTerm.same e.toTerm

/-- Reading back changes no field but its own value. -/
@[simp] theorem find?_reread (d : Document) (label : String) :
    Entries.find? d.reread label = (Entries.find? d label).map Value.reread := by
  unfold reread
  induction d with
  | nil => rfl
  | cons field rest ih =>
    obtain ⟨name, value⟩ := field
    simp only [Value.rereadFields, Entries.find?_cons, ih]
    split <;> rfl

end Document

/-! ## Copies

A document has nothing that a copy could lack.
-/

namespace Value

mutual

@[simp] theorem copy_toTerm : (v : Value) → v.toTerm.copy = v.toTerm
  | .scalar s => by simp [toTerm, Term.copy]
  | .list items => by simp [toTerm, Term.copy, copyItems_itemsToTerms items]
  | .object fields => by simp [toTerm, Term.copy, copyEntries_fieldsToEntries fields]

theorem copyItems_itemsToTerms : (items : List Value) →
    Term.copyItems (itemsToTerms items) = itemsToTerms items
  | [] => by simp [itemsToTerms, Term.copyItems]
  | item :: rest => by
    simp [itemsToTerms, Term.copyItems, copy_toTerm item, copyItems_itemsToTerms rest]

theorem copyEntries_fieldsToEntries : (fields : List (String × Value)) →
    Term.copyEntries (fieldsToEntries fields) = fieldsToEntries fields
  | [] => by simp [fieldsToEntries, Term.copyEntries]
  | (label, value) :: rest => by
    simp [fieldsToEntries, Term.copyEntries, Term.text, Term.copy, copy_toTerm value,
      copyEntries_fieldsToEntries rest]

end

end Value

namespace Document

@[simp] theorem copy_toTerm (d : Document) : d.toTerm.copy = d.toTerm := by
  simp [toTerm, toEntries, Term.copy, Value.copyEntries_fieldsToEntries d]

end Document

/-- An optional document as a term; its absence is null. -/
def optionalDocument : Option Document → Term
  | some d => d.toTerm
  | none => .null

end Folio
