import Folio.Term.Copy
import Folio.Term.Equality
/-!
# Merging

An evaluated patch is merged into the existing entries one entry at a time. A mapping merges
into a mapping, the removal mark deletes, and every other value replaces what was there. A value
that is written as a whole loses its wrappers: literals are unwrapped, removed fields are left
out and tuples become lists. Present fields keep their positions, new ones follow in the order
of the patch. The result shares nothing with the existing entries or the patch.
-/

namespace Folio

namespace Term

/-- Whether a term is the removal mark. -/
def isRemoval : Term → Bool
  | .mark .remove => true
  | _ => false

mutual

/-- A copy of a value that is written as a whole, without its wrappers. -/
def strip : Term → Term
  | .literal value => value.strip
  | .mapping entries => .mapping (stripEntries entries)
  | .list items => .list (stripItems items)
  | .tuple items => .list (stripItems items)
  | t => t.copy

/-- The entries that are not removed, without wrappers. -/
def stripEntries : List (Term × Term) → List (Term × Term)
  | [] => []
  | (key, value) :: rest =>
    if value.isRemoval then stripEntries rest else (key, value.strip) :: stripEntries rest

/-- The items of a list without wrappers. -/
def stripItems : List Term → List Term
  | [] => []
  | item :: rest => item.strip :: stripItems rest

end

end Term

namespace Patch

mutual

/-- Merges the entries of an evaluated patch into copied ones. -/
def mergeEntries (existing : List (Term × Term)) : List (Term × Term) → List (Term × Term)
  | [] => existing
  | (key, value) :: rest => mergeEntries (mergeEntry existing key value) rest

/-- Merges one entry of an evaluated patch. -/
def mergeEntry (existing : List (Term × Term)) (key : Term) : Term → List (Term × Term)
  | .mark .remove => Entries.erase existing key
  | .mapping entries =>
    match Entries.find? existing key with
    | some (.mapping old) => Entries.put existing key (.mapping (mergeEntries old entries))
    | _ => Entries.put existing key (.mapping (Term.stripEntries entries))
  | .literal value => Entries.put existing key value.strip
  | .list items => Entries.put existing key (.list (Term.stripItems items))
  | .tuple items => Entries.put existing key (.list (Term.stripItems items))
  | value => Entries.put existing key value.copy

end

/-- Merges the entries of an evaluated patch into existing ones. -/
def merge (existing entries : List (Term × Term)) : List (Term × Term) :=
  mergeEntries (Term.copyEntries existing) entries

end Patch

end Folio
