import ScannerGen.Json.Skip

/-!
# Records

A record is an object with known fields, or a list of their values in order.  Each field is
read into the state of the record by its own reader.

A field may stand once.  A field of another name is refused, or skipped when the record is
open to further fields.  What is missing is found when the record has been read: a required
field is missed in an object by its name, and in a list by the length of the list.

A fault that a record finds in itself is noticed where the search for its end has got to.
-/

namespace ScannerGen.Json

/-- How a field is read into the state of a record. -/
structure Field (σ : Type) where
  name : String
  /-- Whether a list may end before the field. -/
  optionalInList : Bool
  /-- Whether an object may do without the field. -/
  optionalInObject : Bool
  /-- Reads the value, with a number of levels of nesting left. -/
  read : Nat → σ → Reader σ

/-- The fields of a record, in order. -/
structure Shape (σ : Type) where
  /-- What messages call the record. -/
  name : String
  fields : List (Field σ)
  /-- Whether fields of other names are skipped. -/
  isOpen : Bool

/-- Why the inside of a record is refused: a fault with a place of its own, or one that the
record finds in itself when it has read up to a place. -/
inductive Interruption where
  | located (located : Located)
  | own (fault : Fault) (rest : List UInt8)

namespace Shape

variable {σ : Type}

def names (shape : Shape σ) : List String := shape.fields.map Field.name

/-- A fault with a place of its own, inside a record. -/
def inside {α : Type} : Except Located α → Except Interruption α :=
  Except.mapError .located

/-- The first field that an object cannot do without and that was not read. -/
def missing? (shape : Shape σ) (seen : List String) : Option String :=
  (shape.fields.find? fun field => !field.optionalInObject && !seen.contains field.name).map
    Field.name

/-- The fields of an object behind its opening brace. -/
def objectFields (shape : Shape σ) (remaining : Nat) : Nat → Bool → List String → σ →
    List UInt8 → Except Interruption (σ × List UInt8)
  | 0, _, _, state, text => .ok (state, text)
  | fuel + 1, first, seen, state, text => do
    match ← inside (nextKey first text) with
    | none =>
      match shape.missing? seen with
      | some name => .error (.own (.missingField name) text)
      | none => .ok (state, text)
    | some begin =>
      let (key, rest) ← inside (string begin)
      match shape.fields.find? fun field => field.name == key with
      | none =>
        if shape.isOpen then
          let rest ← inside ((colon rest).bind skipValue)
          shape.objectFields remaining fuel false seen state rest
        else .error (.own (.unknownField key shape.names) rest)
      | some field =>
        if seen.contains key then .error (.own (.duplicateField key) rest)
        else
          let (state, rest) ← inside ((colon rest).bind (field.read remaining state))
          shape.objectFields remaining fuel false (key :: seen) state rest

/-- The fields of a list behind its opening bracket, from a position on. -/
def listFields (shape : Shape σ) (remaining : Nat) : List (Field σ) → Nat → σ →
    List UInt8 → Except Interruption (σ × List UInt8)
  | [], _, state, text => .ok (state, text)
  | field :: fields, position, state, text => do
    match ← inside (nextElement (position == 0) text) with
    | some begin =>
      let (state, rest) ← inside (field.read remaining state begin)
      shape.listFields remaining fields (position + 1) state rest
    | none =>
      if field.optionalInList then shape.listFields remaining fields (position + 1) state text
      else
        .error (.own
          (.invalidLength position s!"{shape.name} with {shape.fields.length} elements") text)

/-- The end of a record whose inside has been read. -/
def close {α : Type} (towards : List UInt8 → List UInt8)
    (ending : List UInt8 → Except Located (List UInt8)) :
    Except Interruption (α × List UInt8) → Except Located (α × List UInt8)
  | .ok (state, rest) => (ending rest).map fun rest => (state, rest)
  | .error (.located located) => .error located
  | .error (.own fault rest) => .error ⟨fault, towards rest⟩

/-- A record, read from an initial state. -/
def read (shape : Shape σ) (initial : σ) (remaining : Nat) : Reader σ := fun text =>
  match skipBlanks text with
  | [] => .error ⟨.endInValue, []⟩
  | b :: rest =>
    if b = Ascii.openBracket then
      entered remaining (b :: rest) fun remaining =>
        close towardsEndOfList endList (shape.listFields remaining shape.fields 0 initial rest)
    else if b = Ascii.openBrace then
      entered remaining (b :: rest) fun remaining =>
        close towardsEndOfObject endObject
          (shape.objectFields remaining (rest.length + 1) true [] initial rest)
    else .error (invalidType shape.name (b :: rest))

end Shape

/-- How many levels of lists and objects a document may have, plus one. -/
def maxDepth : Nat := 128

end ScannerGen.Json
