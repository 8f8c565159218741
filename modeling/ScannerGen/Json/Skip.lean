import ScannerGen.Json.Reader

/-!
# Values that do not matter

An entry that nobody asks for is only looked through for its end.  Nesting is kept on a stack
and has no limit, and what is no string or number is not looked at closely.
-/

namespace ScannerGen.Json

/-- What a value being skipped stands in. -/
inductive Container where
  | list
  | object
  deriving DecidableEq, Repr

/-- What is read next while values are skipped. -/
inductive SkipState where
  /-- A value. -/
  | value
  /-- What follows the beginning of a container, or a value in it. -/
  | within (afterValue : Bool)
  deriving DecidableEq, Repr

/-- One value that is no container, or the beginning of a container. -/
def skipAtom (text : List UInt8) : Except Located (Option Container × List UInt8) :=
  match skipBlanks text with
  | [] => .error ⟨.endInValue, []⟩
  | b :: rest =>
    match words.lookup b with
    | some (letters, _) => (expectWord letters rest).map fun more => (none, more)
    | none =>
      if beginsWithNumber (b :: rest) then
        (skipNumber (b :: rest)).map fun more => (none, more)
      else if b = Ascii.quote then (skipString rest).map fun more => (none, more)
      else if b = Ascii.openBracket then .ok (some .list, rest)
      else if b = Ascii.openBrace then .ok (some .object, rest)
      else .error ⟨.expectedValue, rest⟩

/-- A key and its colon, in an object; nothing in a list. -/
def skipKey (container : Container) (text : List UInt8) : Except Located (List UInt8) :=
  match container with
  | .list => .ok text
  | .object =>
    match skipBlanks text with
    | [] => .error ⟨.endInObject, []⟩
    | b :: rest =>
      if b = Ascii.quote then (skipString rest).bind colon else .error ⟨.keyNotString, rest⟩

def Container.closing : Container → UInt8
  | list => Ascii.closeBracket
  | object => Ascii.closeBrace

def Container.endFault : Container → Fault
  | list => .endInList
  | object => .endInObject

def Container.separatorFault : Container → Fault
  | list => .expectedListSeparator
  | object => .expectedObjectSeparator

/-- Skips to the end of the outermost value.  Every two steps take a byte at least. -/
def skipSteps : Nat → List Container → SkipState → List UInt8 → Except Located (List UInt8)
  | 0, _, _, text => .ok text
  | fuel + 1, stack, .value, text => do
    match ← skipAtom text with
    | (some container, rest) => skipSteps fuel (container :: stack) (.within false) rest
    | (none, rest) =>
      if stack.isEmpty then .ok rest else skipSteps fuel stack (.within true) rest
  | fuel + 1, stack, .within afterValue, text =>
    match stack with
    | [] => .ok text
    | container :: outer =>
      match skipBlanks text with
      | [] => .error ⟨container.endFault, []⟩
      | b :: rest =>
        if afterValue ∧ b = Ascii.comma then do
          skipSteps fuel stack .value (← skipKey container rest)
        else if b = container.closing then
          if outer.isEmpty then .ok rest else skipSteps fuel outer (.within true) rest
        else if afterValue then .error ⟨container.separatorFault, rest⟩
        else do skipSteps fuel stack .value (← skipKey container (b :: rest))

def skipValue (text : List UInt8) : Except Located (List UInt8) :=
  skipSteps (2 * text.length + 2) [] .value text

end ScannerGen.Json
