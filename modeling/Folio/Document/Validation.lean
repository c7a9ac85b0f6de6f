import Folio.Document.Basic
/-!
# Validation

The gate that every stored document passes: null, booleans, numbers, texts, lists or tuples of
valid values, and mappings from texts to valid values. It answers with the value in normal form,
where a tuple has become a list, or with the first offending part in reading order. A record
counts as the mapping of its fields only where a document is inserted.
-/

namespace Folio

/-- Why a term is no document. -/
inductive Malformed where
  /-- The whole is no mapping; `what` is what was expected to be one. -/
  | notMapping (what type : String)
  /-- A label is no text. -/
  | label (type path : String)
  /-- A label of a patch is no text. -/
  | patchLabel (type : String)
  /-- A part is of a type that no document holds. -/
  | unsupported (type path : String)
  deriving DecidableEq

namespace Malformed

/-- The wording of the fault. -/
def message : Malformed → String
  | .notMapping what type => "Expected " ++ what ++ " to be a mapping, got " ++ type
  | .label type path => "Document keys must be strings, got " ++ type ++ " at " ++ path
  | .patchLabel type => "Document keys must be strings, got " ++ type
  | .unsupported type path =>
    "Unsupported value of type " ++ type ++ " at " ++ if path.isEmpty then "<root>" else path

end Malformed

/-- The path of an item. -/
def itemPath (path : String) (index : Nat) : String := path ++ "[" ++ toString index ++ "]"

/-- The path of a field. -/
def fieldPath (path label : String) : String :=
  if path.isEmpty then label else path ++ "." ++ label

namespace Term

mutual

/-- The value that a term stands for, at a path. -/
def validate (path : String) : Term → Except Malformed Value
  | .scalar s => .ok (.scalar s)
  | .list items => (validateItems path 0 items).map .list
  | .tuple items => (validateItems path 0 items).map .list
  | .mapping entries => (validateEntries path entries).map .object
  | t => .error (.unsupported t.typeName path)

/-- The values of the items from a position on. -/
def validateItems (path : String) (index : Nat) : List Term → Except Malformed (List Value)
  | [] => .ok []
  | item :: rest => do
    let value ← item.validate (itemPath path index)
    let values ← validateItems path (index + 1) rest
    return value :: values

/-- The fields of the entries; a bad label is reported before anything inside its value. -/
def validateEntries (path : String) :
    List (Term × Term) → Except Malformed (List (String × Value))
  | [] => .ok []
  | (key, value) :: rest =>
    match key with
    | .scalar (.text label) => do
      let field ← value.validate (fieldPath path label)
      let fields ← validateEntries path rest
      return (label, field) :: fields
    | key => .error (.label key.typeName path)

end

/-- The document that a term stands for; `what` names it in the message. -/
def validateDocument (what : String) : Term → Except Malformed Document
  | .mapping entries => validateEntries "" entries
  | t => .error (.notMapping what t.typeName)

/-! ## Normal form

A document value is in normal form already: it is accepted as it is. -/

mutual

theorem validate_toTerm (path : String) : (v : Value) → v.toTerm.validate path = .ok v
  | .scalar s => by simp [Value.toTerm, validate]
  | .list items => by
    simp [Value.toTerm, validate, validateItems_itemsToTerms path 0 items, Except.map]
  | .object fields => by
    simp [Value.toTerm, validate, validateEntries_fieldsToEntries path fields, Except.map]

theorem validateItems_itemsToTerms (path : String) (index : Nat) : (items : List Value) →
    validateItems path index (Value.itemsToTerms items) = .ok items
  | [] => by simp [Value.itemsToTerms, validateItems]
  | item :: rest => by
    simp only [Value.itemsToTerms, validateItems, validate_toTerm (itemPath path index) item,
      validateItems_itemsToTerms path (index + 1) rest]
    rfl

theorem validateEntries_fieldsToEntries (path : String) : (fields : List (String × Value)) →
    validateEntries path (Value.fieldsToEntries fields) = .ok fields
  | [] => by simp [Value.fieldsToEntries, validateEntries]
  | (label, value) :: rest => by
    simp only [Value.fieldsToEntries, Term.text, validateEntries,
      validate_toTerm (fieldPath path label) value, validateEntries_fieldsToEntries path rest]
    rfl

end

@[simp] theorem validateDocument_toTerm (what : String) (d : Document) :
    d.toTerm.validateDocument what = .ok d :=
  validateEntries_fieldsToEntries "" d

/-! ## Records -/

mutual

/-- A term with every record inside it, at any depth, replaced by the mapping of its fields.
Selectors and mutations have fields too. -/
def unfold : Term → Term
  | .list items => .list (unfoldItems items)
  | .tuple items => .tuple (unfoldItems items)
  | .mapping entries => .mapping (unfoldEntries entries)
  | .record fields _ => .mapping (unfoldFields fields)
  | .selector s => unfoldSelector s
  | .mutation m => unfoldMutation m
  | t => t

/-- The items of a list without records. -/
def unfoldItems : List Term → List Term
  | [] => []
  | item :: rest => item.unfold :: unfoldItems rest

/-- The entries of a mapping without records. -/
def unfoldEntries : List (Term × Term) → List (Term × Term)
  | [] => []
  | (key, value) :: rest => (key.unfold, value.unfold) :: unfoldEntries rest

/-- Named fields as entries without records. -/
def unfoldFields : List (String × Term) → List (Term × Term)
  | [] => []
  | (name, value) :: rest => (.text name, value.unfold) :: unfoldFields rest

/-- The fields of a selector as a mapping. -/
def unfoldSelector : Selector Term → Term
  | .table name => .mapping [(.text "name", .text name)]
  | .get table key => .mapping [(.text "table", .text table), (.text "key", key.unfold)]
  | .getAll table keys =>
    .mapping [(.text "table", .text table), (.text "keys", .tuple (unfoldItems keys))]
  | .filter table predicate =>
    .mapping [(.text "table", .text table), (.text "predicate", predicate.unfold)]

/-- The fields of a mutation as a mapping. -/
def unfoldMutation : Mutation Term → Term
  | .insert payload => .mapping [(.text "payload", payload.unfold)]
  | .update patch => .mapping [(.text "patch", patch.unfold)]
  | .delete => .mapping []

end

/-- Whether a term has named fields of its own. -/
def isRecord : Term → Bool
  | .record .. => true
  | .selector _ => true
  | .mutation _ => true
  | _ => false

/-- A record as the mapping of its fields; any other term, whatever it holds, as it is. -/
def recordAsMapping (t : Term) : Term := if t.isRecord then t.unfold else t

end Term

end Folio
