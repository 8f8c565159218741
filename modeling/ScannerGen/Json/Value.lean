import ScannerGen.Json.Reader

/-!
# Values of any type

A value whose type is not known beforehand.  The entries of an object are sorted by their
keys, and of several entries with one key the last one counts.

* `value` reads a value, `object` the entries of an object.
* `Value.text` writes a value without blanks.
-/

namespace ScannerGen.Json

inductive Value where
  | null
  | boolean (b : Bool)
  | number (n : Number)
  | string (s : String)
  | list (values : List Value)
  | object (entries : List (String × Value))
  deriving Inhabited

/-- Puts an entry into a list that is sorted by key. -/
def insertEntry (key : String) (value : Value) :
    List (String × Value) → List (String × Value)
  | [] => [(key, value)]
  | (other, old) :: rest =>
    if key < other then (key, value) :: (other, old) :: rest
    else if key = other then (key, value) :: rest
    else (other, old) :: insertEntry key value rest

/-- The entries of an object behind its opening brace, put into those already read. -/
def entries (item : Reader Value) : Nat → Bool → List (String × Value) →
    Reader (List (String × Value))
  | 0, _, sofar, text => .ok (sofar, text)
  | fuel + 1, first, sofar, text => do
    match ← nextKey first text with
    | none => .ok (sofar, text)
    | some begin =>
      let (key, rest) ← string begin
      let (value, rest) ← item (← colon rest)
      entries item fuel false (insertEntry key value sofar) rest

def wordValue : Found → Value
  | .boolean b => .boolean b
  | _ => .null

/-- A value, with a number of levels of nesting left. -/
def value : Nat → Reader Value
  | 0, text => atNext .recursionLimit text
  | remaining + 1, text =>
    match skipBlanks text with
    | [] => .error ⟨.endInValue, []⟩
    | b :: rest =>
      match words.lookup b with
      | some (letters, found) => do
        let more ← expectWord letters rest
        .ok (wordValue found, more)
      | none =>
        if beginsWithNumber (b :: rest) then do
          let (n, more) ← number (b :: rest)
          .ok (.number n, more)
        else if b = Ascii.quote then do
          let (s, more) ← string rest
          .ok (.string s, more)
        else if b = Ascii.openBracket then
          if remaining = 0 then .error ⟨.recursionLimit, rest⟩
          else do
            let (values, more) ← elements (value remaining) (rest.length + 1) true rest
            .ok (.list values, ← endList more)
        else if b = Ascii.openBrace then
          if remaining = 0 then .error ⟨.recursionLimit, rest⟩
          else do
            let (items, more) ← entries (value remaining) (rest.length + 1) true [] rest
            .ok (.object items, ← endObject more)
        else .error ⟨.expectedValue, rest⟩

def object (remaining : Nat) : Reader (List (String × Value)) := fun text =>
  match skipBlanks text with
  | [] => .error ⟨.endInValue, []⟩
  | b :: rest =>
    if b = Ascii.openBrace then
      entered remaining (b :: rest) fun remaining => do
        let (items, more) ← entries (value remaining) (rest.length + 1) true [] rest
        .ok (items, ← endObject more)
    else .error (invalidType "a map" (b :: rest))

/-! ## Writing -/

mutual

def Value.text : Value → String
  | .null => "null"
  | .boolean b => if b then "true" else "false"
  | .number n => n.text
  | .string s => quote s
  | .list values => "[" ++ ",".intercalate (listTexts values) ++ "]"
  | .object entries => "\x7b" ++ ",".intercalate (entryTexts entries) ++ "\x7d"

def listTexts : List Value → List String
  | [] => []
  | v :: vs => v.text :: listTexts vs

def entryTexts : List (String × Value) → List String
  | [] => []
  | (key, v) :: rest => s!"{quote key}:{v.text}" :: entryTexts rest

end

end ScannerGen.Json
