import ScannerGen.Origin
import ScannerGen.Text.Ascii

/-!
# What can be wrong with a pattern

A pattern is refused for a fault at a byte position, for a macro that is not defined, or for
macros that refer to each other in a circle.  The first two name the owner of the text: the
declaring token, or the macro whose fragment was being read.

`Pattern.Fault.message` and `Pattern.Error.message` hold the wording.
-/

namespace ScannerGen.Pattern

def maxCount : Nat := 1000

def maxStates : Nat := 65536

/-- A fault in the text of a pattern. -/
inductive Fault where
  | emptyPattern
  | expectedExpression
  | unbalancedOpen
  | unbalancedClose
  | nothingToRepeat (sign : UInt8)
  | danglingEscape
  | missingHexDigits
  | octalTooLarge
  | unterminatedLiteral
  | unterminatedClass
  | wideByteInClass
  | reversedRange (lo hi : UInt8)
  | emptyClass
  | unterminatedReference
  | notReference (name : String)
  | malformedCount
  | unterminatedCount
  | expectedCount
  | countTooLarge
  | reversedCount (min max : Nat)
  | tooManyStates
  deriving DecidableEq, Repr

def Fault.message : Fault → String
  | emptyPattern => "empty pattern"
  | expectedExpression => "expected an expression"
  | unbalancedOpen => "unbalanced `(`"
  | unbalancedClose => "unbalanced `)`"
  | nothingToRepeat sign => s!"`{Ascii.escaped sign}` has nothing to repeat"
  | danglingEscape => "dangling `\\`"
  | missingHexDigits => "`\\x` needs hex digits"
  | octalTooLarge => "octal escape out of range"
  | unterminatedLiteral => "unterminated string literal"
  | unterminatedClass => "unterminated character class"
  | wideByteInClass => "non-ASCII characters are not supported in classes"
  | reversedRange lo hi => s!"range `{Ascii.escaped lo}-{Ascii.escaped hi}` is reversed"
  | emptyClass => "character class matches nothing"
  | unterminatedReference => "unterminated macro reference"
  | notReference name => s!"`\x7b{name}\x7d` is not a macro reference"
  | malformedCount => "malformed repetition count"
  | unterminatedCount => "unterminated repetition count"
  | expectedCount => "expected a repetition count"
  | countTooLarge => s!"repetition count above {maxCount}"
  | reversedCount min max => s!"repetition \x7b{min},{max}\x7d is empty"
  | tooManyStates => s!"pattern expands to more than {maxStates} automaton states"

/-- Whose text a pattern is. -/
inductive Owner where
  /-- Named by the caller. -/
  | named (label : String)
  /-- The pattern of a token. -/
  | token (ref : TokenRef)
  /-- The fragment of a macro. -/
  | fragment (name : String) (origin : Origin)
  deriving DecidableEq, Repr

def Owner.describe : Owner → String
  | named label => label
  | token ref => ref.describe
  | fragment name origin => s!"macro `{name}` ({origin.text})"

/-- Why a pattern is refused. -/
inductive Error where
  /-- A fault at a byte position of the owner's text. -/
  | invalid (owner : Owner) (position : Nat) (fault : Fault)
  /-- A reference to a name without a definition. -/
  | unknownName (name : String) (owner : Owner)
  /-- A reference to a macro from inside its own expansion: the macros being expanded,
  outermost first, and the name that closes the circle. -/
  | cyclic (chain : List String)
  deriving DecidableEq, Repr

def Error.message : Error → String
  | invalid owner position fault =>
    s!"invalid pattern for {owner.describe} at byte {position}: {fault.message}"
  | unknownName name owner => s!"unknown macro `\x7b{name}\x7d` referenced by {owner.describe}"
  | cyclic chain => "cyclic macro reference: " ++ " -> ".intercalate chain

end ScannerGen.Pattern
