import Folio.Document.Basic
import Folio.Text.Escaped
/-!
# Keys

A document's key is a text or a number. It is addressed by its code: the compact text of the
value, in which texts are quoted, so that 1 and "1" stay apart, and an integral binary64 is
written as the integer it is, so that 1 and 1.0 are one key. Other values have codes too; what
has no written form has none.
-/

namespace Folio

/-- Codes write numbers as messages do, with their own words for what is not finite. -/
def Number.codeStyle : DecimalStyle := ⟨-4, 16, 2, "NaN", "Infinity"⟩

/-- Why a term has no code. -/
inductive EncodingFault where
  | unsupported (type : String)
  | label (type : String)
  deriving DecidableEq

namespace EncodingFault

/-- The wording of the fault. -/
def message : EncodingFault → String
  | .unsupported type => "Object of type " ++ type ++ " is not JSON serializable"
  | .label type => "keys must be str, int, float, bool or None, not " ++ type

end EncodingFault

namespace Scalar

/-- Keys are texts and numbers; a boolean is no number. -/
def isKey : Scalar → Bool
  | .number _ => true
  | .text _ => true
  | _ => false

/-- The code of a scalar. -/
def encode : Scalar → String
  | .null => "null"
  | .bool true => "true"
  | .bool false => "false"
  | .number n => n.render Number.codeStyle
  | .text s => escaped s

theorem encode_reread (s : Scalar) : s.reread.encode = s.encode := by
  rcases s with _ | b | n | t
  · rfl
  · rfl
  · rcases n with i | x
    · rfl
    · cases x <;> rfl
  · rfl

/-- An integral binary64 becomes the integer it is. -/
def collapse : Scalar → Scalar
  | .number n => .number n.collapse
  | s => s

/-- The label that a scalar becomes where it stands for a field's name. -/
def asLabel : Scalar → String
  | .text s => s
  | s => s.encode

end Scalar

namespace Value

mutual

/-- The compact written form of a value. -/
def encode : Value → String
  | .scalar s => s.encode
  | .list items => "[" ++ String.intercalate "," (encodeItems items) ++ "]"
  | .object fields => "\x7b" ++ String.intercalate "," (encodeFields fields) ++ "\x7d"

/-- The written forms of the items of a list. -/
def encodeItems : List Value → List String
  | [] => []
  | item :: rest => item.encode :: encodeItems rest

/-- The written forms of the fields of an object. -/
def encodeFields : List (String × Value) → List String
  | [] => []
  | (label, value) :: rest => (escaped label ++ ":" ++ value.encode) :: encodeFields rest

end

/-! A written form is read back as a value that has the same written form. -/

mutual

@[simp] theorem encode_reread : (v : Value) → v.reread.encode = v.encode
  | .scalar s => by simp [reread, encode, Scalar.encode_reread]
  | .list items => by simp [reread, encode, encodeItems_rereadItems items]
  | .object fields => by simp [reread, encode, encodeFields_rereadFields fields]

theorem encodeItems_rereadItems : (items : List Value) →
    encodeItems (rereadItems items) = encodeItems items
  | [] => rfl
  | item :: rest => by
    simp [rereadItems, encodeItems, encode_reread item, encodeItems_rereadItems rest]

theorem encodeFields_rereadFields : (fields : List (String × Value)) →
    encodeFields (rereadFields fields) = encodeFields fields
  | [] => rfl
  | (label, value) :: rest => by
    simp [rereadFields, encodeFields, encode_reread value, encodeFields_rereadFields rest]

end

/-- Whether a value can be a document's key. -/
def isKey : Value → Bool
  | .scalar s => s.isKey
  | _ => false

/-- An integral binary64 becomes the integer it is; parts of a value stay as they are. -/
def collapse : Value → Value
  | .scalar s => .scalar s.collapse
  | v => v

/-- The code by which a key is addressed. -/
def code (v : Value) : String := v.collapse.encode

end Value

namespace Term

/-- Whether a term can be a document's key. -/
def isKey : Term → Bool
  | .scalar s => s.isKey
  | _ => false

mutual

/-- The value that a term is written as: tuples become lists and scalar labels texts. -/
def toValue : Term → Except EncodingFault Value
  | .scalar s => .ok (.scalar s)
  | .list items => (toValues items).map .list
  | .tuple items => (toValues items).map .list
  | .mapping entries => (toFields entries).map .object
  | t => .error (.unsupported t.typeName)

/-- The values that items are written as. -/
def toValues : List Term → Except EncodingFault (List Value)
  | [] => .ok []
  | item :: rest => do
    let value ← item.toValue
    let values ← toValues rest
    return value :: values

/-- The fields that entries are written as. -/
def toFields : List (Term × Term) → Except EncodingFault (List (String × Value))
  | [] => .ok []
  | (key, value) :: rest =>
    match key with
    | .scalar s => do
      let field ← value.toValue
      let fields ← toFields rest
      return (s.asLabel, field) :: fields
    | key => .error (.label key.typeName)

end

/-- The code by which a key is addressed. -/
def encodeKey (t : Term) : Except EncodingFault String := t.toValue.map Value.code

end Term

end Folio
