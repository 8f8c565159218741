import ScannerGen.Json.Number
import ScannerGen.Json.Quoted

/-!
# Reading JSON documents piece by piece

The pieces that every reader of a document is made of: blanks, words, the separators of lists
and objects, their ends, and values of the basic types.

A reader asks for a value of a certain type and refuses any other.  What it refuses is read
far enough to say what was found.
-/

namespace ScannerGen.Json

/-! ## Blanks and words -/

def isBlank (b : UInt8) : Bool :=
  b == Ascii.space || b == Ascii.newline || b == Ascii.tab || b == Ascii.carriageReturn

def skipBlanks (text : List UInt8) : List UInt8 := text.dropWhile isBlank

/-- A fault noticed on the byte that comes next. -/
def atNext {α : Type} (fault : Fault) (text : List UInt8) : Except Located α :=
  .error ⟨fault, text.drop 1⟩

/-- The remaining bytes of a word. -/
def expectWord : List UInt8 → List UInt8 → Except Located (List UInt8)
  | [], text => .ok text
  | _ :: _, [] => .error ⟨.endInValue, []⟩
  | b :: word, c :: rest => if c = b then expectWord word rest else .error ⟨.expectedWord, rest⟩

/-- The words that are values, by their first letters: the other letters, and the value. -/
def words : List (UInt8 × List UInt8 × Found) :=
  [(Ascii.letterN, utf8 "ull", .null), (Ascii.letterT, utf8 "rue", .boolean true),
   (Ascii.letterF, utf8 "alse", .boolean false)]

/-- The fault of a value of a type that is not asked for.  The text begins with the value. -/
def invalidType (expected : String) (text : List UInt8) : Located :=
  let refuse (found : Found) (rest : List UInt8) : Located := ⟨.invalidType found expected, rest⟩
  let shown {α : Type} (found : α → Found) : Except Located (α × List UInt8) → Located
    | .ok (value, rest) => refuse (found value) rest
    | .error located => located
  match text with
  | [] => ⟨.endInValue, []⟩
  | b :: rest =>
    match words.lookup b with
    | some (letters, found) =>
      match expectWord letters rest with
      | .ok more => refuse found more
      | .error located => located
    | none =>
      if beginsWithNumber text then shown .number (number text)
      else if b = Ascii.quote then shown .string (string rest)
      else if b = Ascii.openBracket then refuse .sequence text
      else if b = Ascii.openBrace then refuse .map text
      else ⟨.expectedValue, rest⟩

/-! ## Lists and objects -/

/-- The beginning of the next element of a list, or none before its closing bracket. -/
def nextElement (first : Bool) (text : List UInt8) : Except Located (Option (List UInt8)) :=
  match skipBlanks text with
  | [] => .error ⟨.endInList, []⟩
  | b :: rest =>
    if b = Ascii.closeBracket then .ok none
    else if first then .ok (some (b :: rest))
    else if b = Ascii.comma then
      match skipBlanks rest with
      | [] => .error ⟨.endInValue, []⟩
      | c :: more =>
        if c = Ascii.closeBracket then .error ⟨.trailingComma, more⟩ else .ok (some (c :: more))
    else .error ⟨.expectedListSeparator, rest⟩

def endList (text : List UInt8) : Except Located (List UInt8) :=
  match skipBlanks text with
  | [] => .error ⟨.endInList, []⟩
  | b :: rest =>
    if b = Ascii.closeBracket then .ok rest
    else if b = Ascii.comma then
      let more := skipBlanks rest
      atNext (if more.head? = some Ascii.closeBracket then .trailingComma else .trailingCharacters)
        more
    else .error ⟨.trailingCharacters, rest⟩

/-- How far the search for the end of a list goes. -/
def towardsEndOfList (text : List UInt8) : List UInt8 :=
  let text := skipBlanks text
  if text.head? = some Ascii.closeBracket then text.tail
  else if text.head? = some Ascii.comma then skipBlanks text.tail
  else text

/-- The text after the opening quote of the next key of an object, or none before its closing
brace. -/
def nextKey (first : Bool) (text : List UInt8) : Except Located (Option (List UInt8)) :=
  match skipBlanks text with
  | [] => .error ⟨.endInObject, []⟩
  | b :: rest =>
    if b = Ascii.closeBrace then .ok none
    else if first then
      if b = Ascii.quote then .ok (some rest) else .error ⟨.keyNotString, rest⟩
    else if b = Ascii.comma then
      match skipBlanks rest with
      | [] => .error ⟨.endInValue, []⟩
      | c :: more =>
        if c = Ascii.quote then .ok (some more)
        else if c = Ascii.closeBrace then .error ⟨.trailingComma, more⟩
        else .error ⟨.keyNotString, more⟩
    else .error ⟨.expectedObjectSeparator, rest⟩

def endObject (text : List UInt8) : Except Located (List UInt8) :=
  match skipBlanks text with
  | [] => .error ⟨.endInObject, []⟩
  | b :: rest =>
    if b = Ascii.closeBrace then .ok rest
    else .error ⟨if b = Ascii.comma then .trailingComma else .trailingCharacters, rest⟩

/-- How far the search for the end of an object goes. -/
def towardsEndOfObject (text : List UInt8) : List UInt8 :=
  let text := skipBlanks text
  if text.head? = some Ascii.closeBrace then text.tail else text

def colon (text : List UInt8) : Except Located (List UInt8) :=
  match skipBlanks text with
  | [] => .error ⟨.endInObject, []⟩
  | b :: rest => if b = Ascii.colon then .ok rest else .error ⟨.expectedColon, rest⟩

/-- The elements of a list behind its opening bracket, up to the bracket that closes it.  Every
element takes a byte at least, so the length of the text bounds their number. -/
def elements {α : Type} (item : Reader α) : Nat → Bool → Reader (List α)
  | 0, _, text => .ok ([], text)
  | fuel + 1, first, text => do
    match ← nextElement first text with
    | none => .ok ([], text)
    | some begin =>
      let (value, rest) ← item begin
      let (values, rest) ← elements item fuel false rest
      .ok (value :: values, rest)

/-- What stands behind the last level of nesting that is accepted. -/
def entered {α : Type} (remaining : Nat) (text : List UInt8) (inner : Nat → Except Located α) :
    Except Located α :=
  if remaining ≤ 1 then atNext .recursionLimit text else inner (remaining - 1)

/-- A list of values of one type; `remaining` levels of nesting are left. -/
def listOf {α : Type} (remaining : Nat) (item : Nat → Reader α) : Reader (List α) := fun text =>
  match skipBlanks text with
  | [] => .error ⟨.endInValue, []⟩
  | b :: rest =>
    if b = Ascii.openBracket then
      entered remaining (b :: rest) fun remaining => do
        let (values, more) ← elements (item remaining) (rest.length + 1) true rest
        .ok (values, ← endList more)
    else .error (invalidType "a sequence" (b :: rest))

/-! ## Basic values -/

/-- A natural number up to a limit; `type` is the name of numbers so limited. -/
def natural (type : String) (limit : Nat) : Reader Nat := fun text =>
  let text := skipBlanks text
  if text = [] then .error ⟨.endInValue, []⟩
  else if beginsWithNumber text then do
    let (n, rest) ← number text
    match n with
    | .natural value =>
      if value ≤ limit then .ok (value, rest)
      else .error ⟨.invalidValue (.number n) type, rest⟩
    | .negative _ => .error ⟨.invalidValue (.number n) type, rest⟩
    | .float .. => .error ⟨.invalidType (.number n) type, rest⟩
  else .error (invalidType type text)

def u16 : Reader Nat := natural "u16" 0xffff

def u32 : Reader Nat := natural "u32" 0xffffffff

def usize : Reader Nat := natural "usize" 0xffffffffffffffff

def boolean : Reader Bool := fun text =>
  match skipBlanks text with
  | [] => .error ⟨.endInValue, []⟩
  | b :: rest =>
    if b = Ascii.letterT then (expectWord (utf8 "rue") rest).map fun more => (true, more)
    else if b = Ascii.letterF then (expectWord (utf8 "alse") rest).map fun more => (false, more)
    else .error (invalidType "a boolean" (b :: rest))

def stringAs (type : String) : Reader String := fun text =>
  match skipBlanks text with
  | [] => .error ⟨.endInValue, []⟩
  | b :: rest =>
    if b = Ascii.quote then string rest else .error (invalidType type (b :: rest))

def nullable {α : Type} (item : Reader α) : Reader (Option α) := fun text =>
  let text := skipBlanks text
  if text.head? = some Ascii.letterN then
    (expectWord (utf8 "ull") text.tail).map fun more => (none, more)
  else (item text).map fun (value, rest) => (some value, rest)

/-- A document: one value with nothing but blanks behind it. -/
def document {α : Type} (value : Reader α) (text : List UInt8) : Except Refusal α :=
  let read : Except Located α := do
    let (result, rest) ← value text
    match skipBlanks rest with
    | [] => .ok result
    | _ :: more => .error ⟨.trailingCharacters, more⟩
  read.mapError fun located => ⟨located.fault, located.place text⟩

end ScannerGen.Json
