import Folio.Text.Quoted
/-!
# Escaped text

The form of a text inside an encoded key: between double quotes and in ASCII only. A quote, a
backslash and the control characters with a letter of their own take a backslash; every other
character outside of the printable ASCII range is written by its UTF-16 units.
-/

namespace Folio

namespace Escaped

/-- One UTF-16 unit as an escape. -/
def unit (n : Nat) : String := "\\u" ++ hexText 4 n

/-- The escapes of a code point: one unit, or a surrogate pair above the basic plane. -/
def units (n : Nat) : String :=
  if n < 0x10000 then unit n
  else unit (0xD800 + (n - 0x10000) / 0x400) ++ unit (0xDC00 + (n - 0x10000) % 0x400)

/-- The written form of one character. -/
def escape (c : Char) : String :=
  if c = '"' ∨ c = '\\' then String.ofList ['\\', c]
  else if c = '\n' then "\\n"
  else if c = '\r' then "\\r"
  else if c = '\t' then "\\t"
  else if c.toNat = 8 then "\\b"
  else if c.toNat = 12 then "\\f"
  else if 32 ≤ c.toNat ∧ c.toNat < 127 then String.singleton c
  else units c.toNat

end Escaped

/-- The escaped form of a text. -/
def escaped (s : String) : String :=
  "\"" ++ String.join (s.toList.map Escaped.escape) ++ "\""

end Folio
