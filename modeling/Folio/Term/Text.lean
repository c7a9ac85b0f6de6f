import Folio.Term.Basic
/-!
# Readable form of terms

How messages show a term: lists in square brackets, tuples in round ones with a comma after a
single item, mappings in braces, and everything with fields as a call of its type. Where a value
stands inside a sentence of its own, as an option does, a text is shown without quotes.
-/

namespace Folio

/-- The text between two ends, items separated by commas. -/
def enclosed (opening closing : String) (items : List String) : String :=
  opening ++ String.intercalate ", " items ++ closing

/-- A call of a named type with named parts. -/
def callText (name : String) (parts : List (String × String)) : String :=
  enclosed (name ++ "(") ")" (parts.map fun part => part.1 ++ "=" ++ part.2)

/-- The written form of a tuple; one item alone is followed by a comma. -/
def tupleText : List String → String
  | [item] => "(" ++ item ++ ",)"
  | items => enclosed "(" ")" items

namespace Term

mutual

/-- The readable form of a term. -/
def render : Term → String
  | .scalar s => s.render
  | .list items => enclosed "[" "]" (renderItems items)
  | .tuple items => tupleText (renderItems items)
  | .mapping entries => enclosed "\x7b" "\x7d" (renderEntries entries)
  | .mark m => m.render
  | .literal value => "literal(" ++ value.render ++ ")"
  | .expression _ e => renderExpression e
  | .record fields _ => callText "Rec" (renderFields fields)
  | .function f => "<function " ++ f.name ++ ">"
  | .policy p _ => p.typeName ++ "()"
  | .resolver f _ => "CustomConflict(" ++ quoted f.name ++ ")"
  | .ownPolicy f _ => f.name ++ "()"
  | .selector s => renderSelector s
  | .mutation m => renderMutation m
  | .foreign f => f.kind.render

/-- The readable forms of the items of a list. -/
def renderItems : List Term → List String
  | [] => []
  | item :: rest => item.render :: renderItems rest

/-- The readable forms of the entries of a mapping. -/
def renderEntries : List (Term × Term) → List String
  | [] => []
  | (key, value) :: rest => (key.render ++ ": " ++ value.render) :: renderEntries rest

/-- The readable forms of named fields, each beside its name. -/
def renderFields : List (String × Term) → List (String × String)
  | [] => []
  | (name, value) :: rest => (name, value.render) :: renderFields rest

/-- The readable form of an expression. -/
def renderExpression : Expression Term → String
  | .row => "row"
  | .const value => "const(" ++ value.render ++ ")"
  | .field _ base name => renderExpression base ++ ".field(" ++ quoted name ++ ")"
  | .operation op left right =>
    renderExpression left ++ "." ++ op.name ++ "(" ++ renderExpression right ++ ")"
  | .not _ => "<Not>"
  | .default inner fallback =>
    renderExpression inner ++ ".default(" ++ renderExpression fallback ++ ")"
  | .hasFields .. => "<HasFields>"
  | .branch .. => "<Branch>"

/-- The readable form of a selector. -/
def renderSelector : Selector Term → String
  | .table name => callText "Table" [("name", quoted name)]
  | .get table key => callText "Get" [("table", quoted table), ("key", key.render)]
  | .getAll table keys =>
    callText "GetAll" [("table", quoted table), ("keys", tupleText (renderItems keys))]
  | .filter table predicate =>
    callText "Filter" [("table", quoted table), ("predicate", predicate.render)]

/-- The readable form of a mutation. -/
def renderMutation : Mutation Term → String
  | .insert payload => callText "Insert" [("payload", payload.render)]
  | .update patch => callText "Update" [("patch", patch.render)]
  | .delete => "Delete()"

end

/-- The form of a term inside a sentence: a text is shown as it is. -/
def plain : Term → String
  | .scalar (.text s) => s
  | t => t.render

end Term

end Folio
