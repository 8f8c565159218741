import ScannerGen.Json.Record
import ScannerGen.Tables

/-!
# Dumps of tables

Tables are kept in files as JSON objects.  A dump is written without blanks and with its
fields in a fixed order; a state without a winner has the greatest 32-bit number for its token.

A dump that is read has to be consistent: one token entry for each state, rows as long as
there are classes, and no number of a class or state that the tables do not have.
-/

namespace ScannerGen

/-- What is written where a state has no winner. -/
def noToken : Nat := 0xffffffff

/-- Why the numbers of a dump do not make tables. -/
inductive DumpFault where
  | tokenMapLength (length states : Nat)
  | rowLength (length expected : Nat)
  | indexOutOfRange
  deriving DecidableEq, Repr

/-- Why a dump is refused. -/
inductive DumpError where
  | document (refusal : Json.Refusal)
  | inconsistent (fault : DumpFault)
  deriving DecidableEq, Repr

def DumpError.message : DumpError → String
  | document refusal => s!"Failed to parse tables JSON: {refusal.message}"
  | inconsistent (.tokenMapLength length states) =>
    s!"token_map has {length} entries for {states} states"
  | inconsistent (.rowLength length expected) => s!"row of {length} classes, expected {expected}"
  | inconsistent .indexOutOfRange => "table index out of range"

namespace Tables

/-! ## Writing -/

def numbersText (numbers : List Nat) : String :=
  "[" ++ ",".intercalate (numbers.map toString) ++ "]"

/-- The token entry of a state. -/
def tokenNumber (token : Option Nat) : Nat := token.getD noToken

def dump (t : Tables) : String :=
  let rows := t.next.toList.map fun row => numbersText row.toList
  let flags := t.endsLines.toList.map fun flag => if flag then "true" else "false"
  String.join
    ["\x7b\"ec\":", numbersText t.classOf.toList,
     ",\"n_classes\":", toString t.classCount,
     ",\"next\":[", ",".intercalate rows,
     "],\"token_map\":", numbersText (t.tokenMap.toList.map tokenNumber),
     ",\"start\":", toString t.start,
     ",\"reject\":", toString t.reject,
     ",\"eol\":[", ",".intercalate flags, "]\x7d"]

/-! ## Reading -/

/-- The numbers of a dump as they stand there. -/
structure Raw where
  classOf : Vector Nat 256
  classCount : Nat
  next : List (List Nat)
  tokenMap : List Nat
  start : Nat
  reject : Nat
  endsLines : List Bool
  deriving Inhabited

open Json (Reader Shape Located)

/-- The class numbers of a dump from a position on, up to the last one. -/
def classNumbers : Nat → Nat → List UInt8 →
    Except Json.Interruption (List Nat × List UInt8)
  | 0, _, text => .ok ([], text)
  | count + 1, position, text => do
    match ← Shape.inside (Json.nextElement (position == 0) text) with
    | none => .error (.own (.invalidLength position "an array of size 256") text)
    | some begin =>
      let (c, rest) ← Shape.inside (Json.u16 begin)
      let (others, rest) ← classNumbers count (position + 1) rest
      .ok (c :: others, rest)

/-- The class of each byte. -/
def classArray (remaining : Nat) : Reader (Vector Nat 256) := fun text =>
  match Json.skipBlanks text with
  | [] => .error ⟨.endInValue, []⟩
  | b :: rest =>
    if b = Ascii.openBracket then
      Json.entered remaining (b :: rest) fun _ =>
        (Shape.close Json.towardsEndOfList Json.endList (classNumbers 256 0 rest)).map
          fun (numbers, rest) => (Vector.ofFn fun i => numbers.getD i 0, rest)
    else .error (Json.invalidType "an array of size 256" (b :: rest))

/-- Keeps what a reader gives in the numbers of a dump. -/
def keep {α : Type} (read : Reader α) (put : α → Raw → Raw) (raw : Raw) : Reader Raw := fun text =>
  (read text).map fun (value, rest) => (put value raw, rest)

/-- A dump.  Further fields are skipped. -/
def dumpShape : Shape Raw where
  name := "struct TablesDisk"
  isOpen := true
  fields :=
    [⟨"ec", false, false, fun remaining =>
        keep (classArray remaining) fun classOf raw => { raw with classOf }⟩,
     ⟨"n_classes", false, false, fun _ =>
        keep Json.usize fun classCount raw => { raw with classCount }⟩,
     ⟨"next", false, false, fun remaining =>
        keep (Json.listOf remaining fun remaining => Json.listOf remaining fun _ => Json.u32)
          fun next raw => { raw with next }⟩,
     ⟨"token_map", false, false, fun remaining =>
        keep (Json.listOf remaining fun _ => Json.u32) fun tokenMap raw => { raw with tokenMap }⟩,
     ⟨"start", false, false, fun _ => keep Json.u32 fun start raw => { raw with start }⟩,
     ⟨"reject", false, false, fun _ => keep Json.u32 fun reject raw => { raw with reject }⟩,
     ⟨"eol", false, false, fun remaining =>
        keep (Json.listOf remaining fun _ => Json.boolean)
          fun endsLines raw => { raw with endsLines }⟩]

/-- What is inconsistent in the numbers of a dump, if anything. -/
def Raw.fault? (raw : Raw) : Option DumpFault :=
  let states := raw.next.length
  if raw.tokenMap.length ≠ states then some (.tokenMapLength raw.tokenMap.length states)
  else
    match raw.next.find? fun row => row.length != raw.classCount with
    | some row => some (.rowLength row.length raw.classCount)
    | none =>
      if raw.classOf.toList.all (· < raw.classCount) &&
          raw.next.all (fun row => row.all (· < states)) &&
          raw.start < states && raw.reject < states then none
      else some .indexOutOfRange

/-- The tables of the numbers of a dump. -/
def Raw.toTables (raw : Raw) : Tables where
  classOf := raw.classOf
  classCount := raw.classCount
  next := (raw.next.map List.toArray).toArray
  tokenMap := (raw.tokenMap.map fun token => if token = noToken then none else some token).toArray
  start := raw.start
  reject := raw.reject
  endsLines := raw.endsLines.toArray

def load (bytes : List UInt8) : Except DumpError Tables :=
  match Json.document (dumpShape.read default Json.maxDepth) bytes with
  | .error refusal => .error (.document refusal)
  | .ok raw =>
    match raw.fault? with
    | some fault => .error (.inconsistent fault)
    | none => .ok raw.toTables

end Tables

end ScannerGen
