import Folio.Document.Validation
/-!
# Validation of patches

What a patch may hold besides document values: expressions, the removal mark and literals. A
patch given as a mapping is checked before any document is read.
-/

namespace Folio

namespace Term

mutual

/-- Checks a part of a patch at a path. -/
def validatePatch (path : String) : Term → Except Malformed Unit
  | .expression .. => .ok ()
  | .mark .remove => .ok ()
  | .literal value => value.validatePatch path
  | .mapping entries => validatePatchEntries path entries
  | .list items => validatePatchItems path 0 items
  | .tuple items => validatePatchItems path 0 items
  | .scalar _ => .ok ()
  | t => .error (.unsupported t.typeName path)

/-- Checks the entries of a mapping inside a patch. -/
def validatePatchEntries (path : String) : List (Term × Term) → Except Malformed Unit
  | [] => .ok ()
  | (key, value) :: rest =>
    match key with
    | .scalar (.text label) => do
      value.validatePatch (fieldPath path label)
      validatePatchEntries path rest
    | key => .error (.patchLabel key.typeName)

/-- Checks the items of a list inside a patch, from a position on. -/
def validatePatchItems (path : String) (index : Nat) : List Term → Except Malformed Unit
  | [] => .ok ()
  | item :: rest => do
    item.validatePatch (itemPath path index)
    validatePatchItems path (index + 1) rest

end

end Term

end Folio
