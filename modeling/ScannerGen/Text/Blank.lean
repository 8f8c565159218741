/-!
# White space

The characters with the Unicode property White_Space, and texts without them at the ends.
-/

namespace ScannerGen

/-- The characters with the property White_Space. -/
def isWhiteSpace (c : Char) : Bool :=
  ('\t' ≤ c && c ≤ '\x0d') || c == ' ' || c == '\u0085' || c == '\u00a0' || c == '\u1680' ||
    ('\u2000' ≤ c && c ≤ '\u200a') || c == '\u2028' || c == '\u2029' || c == '\u202f' ||
    c == '\u205f' || c == '\u3000'

/-- The characters between the first and the last that do not satisfy a predicate. -/
def trimChars (drop : Char → Bool) (text : List Char) : List Char :=
  ((text.dropWhile drop).reverse.dropWhile drop).reverse

def trimmed (text : String) : String := String.ofList (trimChars isWhiteSpace text.toList)

/-- A text without double quotes at either end. -/
def unquoted (text : String) : String := String.ofList (trimChars (· == '\x22') text.toList)

/-- What follows the beginning of a text, if the text has that beginning. -/
def dropStart? (beginning text : List Char) : Option (List Char) :=
  if beginning.isPrefixOf text then some (text.drop beginning.length) else none

end ScannerGen
