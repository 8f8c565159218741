import ScannerGen.Decimal.Shortest
import ScannerGen.Text.Quoted

/-!
# Faults of JSON documents

A document is refused for its syntax, or because a value in it is not what is asked for there.
Every fault is kept with the rest of the text from the place where it was noticed; the number
of bytes before that place gives its line and column.
-/

namespace ScannerGen.Json

/-- A number as it is written: an integer that 64 bits hold, or else a binary fraction. -/
inductive Number where
  | natural (n : Nat)
  /-- The opposite of a positive number. -/
  | negative (n : Nat)
  | float (isNegative : Bool) (magnitude : Binary64)
  deriving DecidableEq, Repr, Inhabited

def Number.text : Number → String
  | natural n => toString n
  | negative n => s!"-{n}"
  | float false x => Decimal.text x
  | float true x => s!"-{Decimal.text x}"

/-- What was found where something else was expected. -/
inductive Found where
  | boolean (b : Bool)
  | number (n : Number)
  | string (s : String)
  | null
  | sequence
  | map
  deriving DecidableEq, Repr

def Found.text : Found → String
  | boolean b => s!"boolean `{b}`"
  | number (.float isNegative x) => s!"floating point `{(Number.float isNegative x).text}`"
  | number n => s!"integer `{n.text}`"
  | string s => s!"string {textLiteral s}"
  | null => "null"
  | sequence => "sequence"
  | map => "map"

inductive Fault where
  -- Syntax
  | endInValue
  | endInString
  | endInObject
  | endInList
  | expectedValue
  | expectedWord
  | expectedListSeparator
  | expectedObjectSeparator
  | expectedColon
  | trailingComma
  | trailingCharacters
  | keyNotString
  | invalidNumber
  | numberOutOfRange
  | invalidEscape
  | endOfHexEscape
  | invalidCodePoint
  | loneSurrogate
  | controlCharacter
  | recursionLimit
  -- Content
  | invalidType (found : Found) (expected : String)
  | invalidValue (found : Found) (expected : String)
  | invalidLength (length : Nat) (expected : String)
  | missingField (name : String)
  | duplicateField (name : String)
  | unknownField (name : String) (expected : List String)
  | unknownVariant (name : String) (expected : List String)
  deriving DecidableEq, Repr

def oneOf (names : List String) : String :=
  let quoted := names.map fun name => s!"`{name}`"
  match quoted with
  | [] => "nothing"
  | [a] => a
  | [a, b] => s!"{a} or {b}"
  | _ => "one of " ++ ", ".intercalate quoted

def Fault.message : Fault → String
  | endInValue => "EOF while parsing a value"
  | endInString => "EOF while parsing a string"
  | endInObject => "EOF while parsing an object"
  | endInList => "EOF while parsing a list"
  | expectedValue => "expected value"
  | expectedWord => "expected ident"
  | expectedListSeparator => "expected `,` or `]`"
  | expectedObjectSeparator => "expected `,` or `\x7d`"
  | expectedColon => "expected `:`"
  | trailingComma => "trailing comma"
  | trailingCharacters => "trailing characters"
  | keyNotString => "key must be a string"
  | invalidNumber => "invalid number"
  | numberOutOfRange => "number out of range"
  | invalidEscape => "invalid escape"
  | endOfHexEscape => "unexpected end of hex escape"
  | invalidCodePoint => "invalid unicode code point"
  | loneSurrogate => "lone leading surrogate in hex escape"
  | controlCharacter => "control character (\\u0000-\\u001F) found while parsing a string"
  | recursionLimit => "recursion limit exceeded"
  | invalidType found expected => s!"invalid type: {found.text}, expected {expected}"
  | invalidValue found expected => s!"invalid value: {found.text}, expected {expected}"
  | invalidLength length expected => s!"invalid length {length}, expected {expected}"
  | missingField name => s!"missing field `{name}`"
  | duplicateField name => s!"duplicate field `{name}`"
  | unknownField name expected => s!"unknown field `{name}`, expected {oneOf expected}"
  | unknownVariant name expected => s!"unknown variant `{name}`, expected {oneOf expected}"

/-- A fault, and the rest of the text from the place where it was noticed. -/
structure Located where
  fault : Fault
  suffix : List UInt8
  deriving DecidableEq, Repr

/-- A place in a text, both counted from one. -/
structure Place where
  line : Nat
  column : Nat
  deriving DecidableEq, Repr, Inhabited

/-- The place of the last byte of a text that has been read. -/
def Place.after (read : List UInt8) : Place :=
  ⟨read.count Ascii.newline + 1, (read.reverse.takeWhile (· != Ascii.newline)).length⟩

/-- The place of a fault in a text. -/
def Located.place (located : Located) (text : List UInt8) : Place :=
  .after (text.take (text.length - located.suffix.length))

/-- What is wrong with a document, and where. -/
structure Refusal where
  fault : Fault
  place : Place
  deriving DecidableEq, Repr

def Refusal.message (refusal : Refusal) : String :=
  s!"{refusal.fault.message} at line {refusal.place.line} column {refusal.place.column}"

/-- Reads part of a text and gives the rest back. -/
abbrev Reader (α : Type) := List UInt8 → Except Located (α × List UInt8)

end ScannerGen.Json
