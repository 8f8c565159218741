/-!
# ASCII bytes

Patterns are read byte by byte, and every byte with a meaning of its own is an ASCII
character.  This module holds:

* names for those bytes,
* the classes of ASCII characters that the readers ask for, on bytes and on characters,
* the value of a digit, and the digits of a number,
* `escaped`, the spelling of one byte inside a message.
-/

namespace ScannerGen.Ascii

/-! ## Named bytes -/

abbrev bell : UInt8 := 0x07
abbrev backspace : UInt8 := 0x08
abbrev tab : UInt8 := 0x09
abbrev newline : UInt8 := 0x0a
abbrev verticalTab : UInt8 := 0x0b
abbrev formFeed : UInt8 := 0x0c
abbrev carriageReturn : UInt8 := 0x0d
abbrev space : UInt8 := 0x20
abbrev quote : UInt8 := 0x22
abbrev apostrophe : UInt8 := 0x27
abbrev openParen : UInt8 := 0x28
abbrev closeParen : UInt8 := 0x29
abbrev star : UInt8 := 0x2a
abbrev plus : UInt8 := 0x2b
abbrev comma : UInt8 := 0x2c
abbrev minus : UInt8 := 0x2d
abbrev dot : UInt8 := 0x2e
abbrev slash : UInt8 := 0x2f
abbrev zero : UInt8 := 0x30
abbrev colon : UInt8 := 0x3a
abbrev question : UInt8 := 0x3f
abbrev openBracket : UInt8 := 0x5b
abbrev backslash : UInt8 := 0x5c
abbrev closeBracket : UInt8 := 0x5d
abbrev caret : UInt8 := 0x5e
abbrev letterA : UInt8 := 0x61
abbrev letterB : UInt8 := 0x62
abbrev letterF : UInt8 := 0x66
abbrev letterN : UInt8 := 0x6e
abbrev letterR : UInt8 := 0x72
abbrev letterT : UInt8 := 0x74
abbrev letterU : UInt8 := 0x75
abbrev letterV : UInt8 := 0x76
abbrev letterX : UInt8 := 0x78
abbrev openBrace : UInt8 := 0x7b
abbrev bar : UInt8 := 0x7c
abbrev closeBrace : UInt8 := 0x7d

/-! ## Classes of bytes -/

def isDigit (b : UInt8) : Bool := 0x30 ≤ b && b ≤ 0x39

def isOctalDigit (b : UInt8) : Bool := 0x30 ≤ b && b ≤ 0x37

def isHexDigit (b : UInt8) : Bool :=
  isDigit b || (0x61 ≤ b && b ≤ 0x66) || (0x41 ≤ b && b ≤ 0x46)

def isLetter (b : UInt8) : Bool := (0x61 ≤ b && b ≤ 0x7a) || (0x41 ≤ b && b ≤ 0x5a)

/-- Letters, digits and the underscore: the bytes of a name. -/
def isNameByte (b : UInt8) : Bool := isLetter b || isDigit b || b == 0x5f

/-- Bytes above the ASCII range. -/
def isWide (b : UInt8) : Bool := 0x80 ≤ b

/-- The value of a digit in any base up to sixteen; zero for any other byte. -/
def digitValue (b : UInt8) : Nat :=
  if isDigit b then b.toNat - 0x30
  else if 0x61 ≤ b && b ≤ 0x66 then b.toNat - 0x57
  else if 0x41 ≤ b && b ≤ 0x46 then b.toNat - 0x37
  else 0

/-- The number that a run of digits writes in the given base, first digit highest. -/
def numeral (base : Nat) (digits : List UInt8) : Nat :=
  digits.foldl (fun value digit => value * base + digitValue digit) 0

/-! ## Classes of characters -/

def isAlphaChar (c : Char) : Bool := ('a' ≤ c && c ≤ 'z') || ('A' ≤ c && c ≤ 'Z')

def isDigitChar (c : Char) : Bool := '0' ≤ c && c ≤ '9'

/-- Space, tab, newline, form feed and carriage return.  The vertical tab is not among
them. -/
def isBlankChar (c : Char) : Bool :=
  c == ' ' || c == '\t' || c == '\n' || c == '\x0c' || c == '\r'

/-- C identifiers: a letter or underscore, then letters, digits and underscores. -/
def isIdentifier (name : String) : Bool :=
  match name.toList with
  | [] => false
  | c :: cs => (isAlphaChar c || c == '_') &&
      cs.all fun d => isAlphaChar d || isDigitChar d || d == '_'

/-- The upper-case letter of an ASCII lower-case one; any other character as it is. -/
def upperChar (c : Char) : Char :=
  if 'a' ≤ c && c ≤ 'z' then Char.ofNat (c.toNat - 32) else c

/-- The lower-case letter of an ASCII upper-case one; any other character as it is. -/
def lowerChar (c : Char) : Char :=
  if 'A' ≤ c && c ≤ 'Z' then Char.ofNat (c.toNat + 32) else c

/-! ## Spelling one byte -/

/-- The lower-case hexadecimal digit of a number below sixteen. -/
def hexDigit (n : Nat) : Char :=
  if n < 10 then Char.ofNat (0x30 + n) else Char.ofNat (0x57 + n)

/-- The upper-case hexadecimal digit of a number below sixteen. -/
def upperHexDigit (n : Nat) : Char := upperChar (hexDigit n)

/-- One byte inside a message: the usual C escapes, printable characters as they are, and
two hexadecimal digits for the rest. -/
def escaped (b : UInt8) : String :=
  if b = tab then "\\t"
  else if b = newline then "\\n"
  else if b = carriageReturn then "\\r"
  else if b = quote then "\\\""
  else if b = apostrophe then "\\'"
  else if b = backslash then "\\\\"
  else if 0x20 ≤ b && b ≤ 0x7e then String.singleton (Char.ofNat b.toNat)
  else String.ofList ['\x5c', 'x', hexDigit (b.toNat / 16), hexDigit (b.toNat % 16)]

end ScannerGen.Ascii
