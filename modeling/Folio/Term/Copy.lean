import Folio.Term.Basic
/-!
# Copies

An operation copies what it must not share. The copy of a value is the value, and so is the copy
of a function or of the removal mark, of which there is only one. What is equal only to itself
differs from its copy, and a copy of any other mark looks like the mark and means nothing.
`Document.copy_toTerm` says that documents are their own copies.
-/

namespace Folio

/-- The identity of a copy. New identities are even, so that a copy is never taken for something
that was not copied. -/
def copyIdentity (identity : Nat) : Nat := 2 * identity + 1

namespace Mark

/-- The copy of a mark. -/
def copy : Mark → Term
  | .remove => .mark .remove
  | m => .foreign ⟨.lookalike m, copyIdentity 0⟩

end Mark

namespace Foreign

/-- The copy of a foreign value. -/
def copy (f : Foreign) : Foreign :=
  if f.kind.hasIdentity then { f with identity := copyIdentity f.identity } else f

end Foreign

namespace Term

mutual

/-- The copy of a term. -/
def copy : Term → Term
  | .scalar s => .scalar s
  | .list items => .list (copyItems items)
  | .tuple items => .tuple (copyItems items)
  | .mapping entries => .mapping (copyEntries entries)
  | .mark m => m.copy
  | .literal value => .literal value.copy
  | .expression node e => .expression (copyIdentity node) (copyExpression e)
  | .record fields identity => .record (copyFields fields) identity
  | .function f => .function f
  | .policy p identity => .policy p (copyIdentity identity)
  | .resolver f identity => .resolver f (copyIdentity identity)
  | .ownPolicy f identity => .ownPolicy f (copyIdentity identity)
  | .selector s => .selector (copySelector s)
  | .mutation m => .mutation (copyMutation m)
  | .foreign f => .foreign f.copy

/-- The copies of the items of a list. -/
def copyItems : List Term → List Term
  | [] => []
  | item :: rest => item.copy :: copyItems rest

/-- The copies of the entries of a mapping, keys included. -/
def copyEntries : List (Term × Term) → List (Term × Term)
  | [] => []
  | (key, value) :: rest => (key.copy, value.copy) :: copyEntries rest

/-- The copies of named fields. -/
def copyFields : List (String × Term) → List (String × Term)
  | [] => []
  | (name, value) :: rest => (name, value.copy) :: copyFields rest

/-- The copy of an expression. Field nodes that were one stay one. -/
def copyExpression : Expression Term → Expression Term
  | .row => .row
  | .const value => .const value.copy
  | .field node base name => .field (copyIdentity node) (copyExpression base) name
  | .operation op left right => .operation op (copyExpression left) (copyExpression right)
  | .not inner => .not (copyExpression inner)
  | .default inner fallback => .default (copyExpression inner) (copyExpression fallback)
  | .hasFields base names => .hasFields (copyExpression base) names
  | .branch condition value otherwise =>
    .branch (copyExpression condition) (copyExpression value) (copyExpression otherwise)

/-- The copy of a selector. -/
def copySelector : Selector Term → Selector Term
  | .table name => .table name
  | .get table key => .get table key.copy
  | .getAll table keys => .getAll table (copyItems keys)
  | .filter table predicate => .filter table predicate.copy

/-- The copy of a mutation. -/
def copyMutation : Mutation Term → Mutation Term
  | .insert payload => .insert payload.copy
  | .update patch => .update patch.copy
  | .delete => .delete

end

end Term

end Folio
