import Folio.Failure
/-!
# Write hooks

A table may have one hook, a function of the key, the stored document and the document to be
written. Its answer decides the write: a document with the same key is written instead, null
drops the write, the abort mark or a failure vetoes it. A deletion can only be confirmed or
vetoed.
-/

namespace Folio

namespace Hook

/-- The write that a hook's answer allows; nothing stands for no document. `deleting` says that
there was no document to be written. -/
def decide (table field : String) (key : Term) (deleting : Bool) :
    Except Failure Term → Except Failure (Option Document)
  | .error cause =>
    .error (if cause.kind = .hookAborted then cause else .hookFailed table cause)
  | .ok (.mark .abort) => .error (.hookVetoed table key)
  | .ok answer =>
    if answer.isNull then .ok none
    else if deleting then .error (.hookRevived table key)
    else
      match answer.validateDocument "write hook result" with
      | .error fault => .error (.hookInvalid table fault)
      | .ok document =>
        let after := (document.fieldOrNull field).toTerm
        if after.same key then .ok (some document)
        else .error (.keyChangedByHook field key after)

end Hook

/-- What became of a table's hook. -/
inductive HookChange where
  | created
  | replaced
  | deleted
  | none
  deriving DecidableEq

namespace HookChange

/-- The change from one hook to the next. -/
def between {α : Type} : Option α → Option α → HookChange
  | Option.none, Option.none => .none
  | Option.none, some _ => .created
  | some _, some _ => .replaced
  | some _, Option.none => .deleted

end HookChange

end Folio
