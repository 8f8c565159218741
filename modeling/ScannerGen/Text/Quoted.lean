import ScannerGen.Text.Ascii
import ScannerGen.Text.Printable

/-!
# Characters and texts in quotes

Messages show a character in single quotes and a text in double quotes.  The quote around it
and the backslash are escaped, tab, newline, carriage return and NUL have letters, printable
characters stand as they are, and all others are written with their code point in braces.
-/

namespace ScannerGen

/-- The hexadecimal digits of a number without leading zeros. -/
def hexText (n : Nat) : String := String.ofList (Nat.toDigits 16 n)

/-- One character between quotes of a kind. -/
def quotedChar (quote c : Char) : String :=
  if c = '\x00' then "\\0"
  else if c = '\t' then "\\t"
  else if c = '\n' then "\\n"
  else if c = '\x0d' then "\\r"
  else if c = '\x5c' then "\\\\"
  else if c = quote then String.ofList ['\x5c', c]
  else if isPrintable c then String.singleton c
  else s!"\\u\x7b{hexText c.toNat}\x7d"

def charLiteral (c : Char) : String := "'" ++ quotedChar '\x27' c ++ "'"

def textLiteral (text : String) : String :=
  "\"" ++ String.join (text.toList.map (quotedChar '\x22')) ++ "\""

end ScannerGen
