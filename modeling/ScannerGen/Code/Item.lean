import ScannerGen.Code.Lines

/-!
# C files

A C file is a list of items: comments, directives, arrays of numbers, variables, structures,
prototypes and functions.  `fileText` is the text of a file.

Items keep the names, types and values that they declare, so that what a file declares can be
asked for without reading its text.
-/

namespace ScannerGen.Code

/-! ## Parts of items -/

/-- A name together with its C type: a parameter, a member or a variable. -/
structure Declarator where
  type : String
  name : String
  deriving DecidableEq, Repr, Inhabited

def Declarator.text (d : Declarator) : String := s!"{d.type} {d.name}"

structure Signature where
  result : String
  name : String
  parameters : List Declarator
  deriving DecidableEq, Repr, Inhabited

def Signature.parameterText (s : Signature) : String :=
  if s.parameters = [] then "void" else ", ".intercalate (s.parameters.map Declarator.text)

def Signature.text (s : Signature) : String := s!"{s.result} {s.name}( {s.parameterText} )"

/-- The types of numbers in arrays. -/
inductive NumberType where
  | unsignedChar
  | unsignedShort
  | unsignedInt
  | int
  deriving DecidableEq, Repr, Inhabited

namespace NumberType

def name : NumberType → String
  | unsignedChar => "unsigned char"
  | unsignedShort => "unsigned short"
  | unsignedInt => "unsigned int"
  | int => "int"

/-- The smallest of the unsigned types that holds a number. -/
def ofGreatest (n : Nat) : NumberType :=
  if n ≤ 255 then unsignedChar else if n ≤ 65535 then unsignedShort else unsignedInt

/-- How many values from zero on a type holds, with ints of 32 bits. -/
def capacity : NumberType → Nat
  | unsignedChar => 0x100
  | unsignedShort => 0x10000
  | unsignedInt => 0x100000000
  | int => 0x80000000

end NumberType

/-! ## Values between braces -/

def lineLength : Nat := 16

/-- Numbers from a column on, with commas between them. -/
def valuesFrom (column : Nat) : List Nat → List String
  | [] => []
  | [v] => [toString v, "\n"]
  | v :: w :: rest =>
    if column + 1 < lineLength then
      toString v :: ", " :: valuesFrom (column + 1) (w :: rest)
    else toString v :: ",\n    " :: valuesFrom 0 (w :: rest)

def valuePieces (values : List Nat) : List String :=
  if values = [] then [] else "    " :: valuesFrom 0 values

/-- The rows of a matrix from a number on, with commas between them. -/
def rowPieces (index : Nat) : List (List Nat) → List String
  | [] => []
  | row :: rest =>
    s!"  \x7b /* state {index} */\n" :: valuePieces row ++
      (if rest = [] then "  \x7d\n" else "  \x7d,\n") :: rowPieces (index + 1) rest

def namePieces : List String → List String
  | [] => []
  | [name] => [s!"    \"{name}\"\n"]
  | name :: rest => s!"    \"{name}\",\n" :: namePieces rest

/-! ## Items -/

inductive Item where
  | blank
  /-- A text of the user. -/
  | verbatim (text : String)
  | comment (text : String)
  | includeSystem (file : String)
  | includeLocal (file : String)
  | define (name : String) (value : Option String)
  | undefine (name : String)
  | ifNotDefined (name : String)
  | endif (note : Option String)
  /-- A new name for a type. -/
  | typeAlias (type name : String)
  /-- An array of numbers. -/
  | array (type : NumberType) (name : String) (values : List Nat)
  /-- A matrix of numbers, with its dimensions as they are written. -/
  | matrix (type : NumberType) (name rows columns : String) (values : List (List Nat))
  /-- An array of strings. -/
  | nameArray (name : String) (values : List String)
  | global (isStatic : Bool) (declarator : Declarator) (value : Option String)
  | externVariable (declarator : Declarator)
  | struct (tag : String) (members : List Declarator)
  | prototype (signature : Signature)
  | function (isStatic : Bool) (signature : Signature) (body : List Line)
  deriving DecidableEq, Repr, Inhabited

namespace Item

/-- The word before what only its file sees. -/
def storage (isStatic : Bool) : String := if isStatic then "static " else ""

def pieces : Item → List String
  | blank => ["\n"]
  | verbatim text => [text]
  | comment text => [s!"/* {text} */\n"]
  | includeSystem file => [s!"#include <{file}>\n"]
  | includeLocal file => [s!"#include \"{file}\"\n"]
  | define name none => [s!"#define {name}\n"]
  | define name (some value) => [s!"#define {name} {value}\n"]
  | undefine name => [s!"#undef {name}\n"]
  | ifNotDefined name => [s!"#ifndef {name}\n"]
  | endif none => ["#endif\n"]
  | endif (some note) => [s!"#endif /* {note} */\n"]
  | typeAlias type name => [s!"typedef {type} {name};\n"]
  | array type name values =>
    s!"static const {type.name} {name}[{values.length}] =\n  \x7b\n" ::
      valuePieces values ++ ["  \x7d;\n"]
  | matrix type name rows columns values =>
    s!"static const {type.name} {name}[{rows}][{columns}] =\n  \x7b\n" ::
      rowPieces 0 values ++ ["  \x7d;\n"]
  | nameArray name values =>
    s!"static const char* const {name}[{values.length}] =\n  \x7b\n" ::
      namePieces values ++ ["  \x7d;\n"]
  | global isStatic declarator none => [s!"{storage isStatic}{declarator.text};\n"]
  | global isStatic declarator (some value) =>
    [s!"{storage isStatic}{declarator.text} = {value};\n"]
  | externVariable declarator => [s!"extern {declarator.text};\n"]
  | struct tag members =>
    s!"struct {tag}\n\x7b\n" :: members.map (fun m => s!"  {m.text};\n") ++ ["\x7d;\n"]
  | prototype signature => [s!"{signature.text};\n"]
  | function isStatic signature body =>
    s!"{storage isStatic}{signature.text}\n" :: (braced (shifted 2 body)).map Line.text

end Item

def fileText (items : List Item) : String := String.join (items.flatMap Item.pieces)

/-! ## Comments -/

/-- Takes the end of a comment apart wherever it occurs. -/
def splitCommentEnds : List Char → List Char
  | [] => []
  | [c] => [c]
  | c :: d :: rest =>
    if c = '*' ∧ d = '/' then '*' :: ' ' :: '/' :: splitCommentEnds rest
    else c :: splitCommentEnds (d :: rest)

/-- A text that cannot end the comment it stands in. -/
def commentSafe (text : String) : String := String.ofList (splitCommentEnds text.toList)

end ScannerGen.Code
