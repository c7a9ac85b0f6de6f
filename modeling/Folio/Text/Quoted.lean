import Folio.Text.Printable
/-!
# Quoted text

The readable form of a text in messages. It stands between single quotes, or between double ones
where the text holds a single quote and no double one. A backslash, the quote itself and what is
not printable are escaped.
-/

namespace Folio

/-- A number in lower-case hexadecimal, padded with zeros to a width. -/
def hexText (width n : Nat) : String :=
  let digits := Nat.toDigits 16 n
  String.ofList (List.replicate (width - digits.length) '0' ++ digits)

namespace Quoted

/-- The quote that a text takes. -/
def quoteOf (cs : List Char) : Char :=
  if cs.contains '\'' && !cs.contains '"' then '"' else '\''

/-- The written form of one character between the given quotes. -/
def escape (quote c : Char) : String :=
  if c = quote ∨ c = '\\' then String.ofList ['\\', c]
  else if c = '\n' then "\\n"
  else if c = '\r' then "\\r"
  else if c = '\t' then "\\t"
  else if isPrintable c then String.singleton c
  else if c.toNat < 0x100 then "\\x" ++ hexText 2 c.toNat
  else if c.toNat < 0x10000 then "\\u" ++ hexText 4 c.toNat
  else "\\U" ++ hexText 8 c.toNat

end Quoted

/-- The quoted form of a text. -/
def quoted (s : String) : String :=
  let quote := Quoted.quoteOf s.toList
  String.singleton quote ++ String.join (s.toList.map (Quoted.escape quote)) ++
    String.singleton quote

end Folio
