import ScannerGen.Origin
import ScannerGen.Text.Ascii

/-!
# The statements of a rule text

A rule text is a list of statements, one on a line.  A statement is a list of arguments
separated by blanks:

* a bare word, up to the next white space,
* a quoted text `"..."` with the escapes of C,
* a block `%q{...}` with balanced braces, in which a backslash makes a brace or a backslash
  literal.

Blocks may span lines, and so may quoted texts behind a backslash.  A hash sign where a
statement would begin starts a comment.

The text is cut by a machine that takes one character a step.  Its state holds the line it is
on, the statements that are complete, and where it stands inside the current one, so that a
text cut in two is read by two runs one after the other (`run_append`).
-/

namespace ScannerGen.Rules

/-- An argument.  Only bare words can be keywords. -/
structure Argument where
  text : String
  bare : Bool
  deriving DecidableEq, Repr, Inhabited

/-- A statement and the line it begins on. -/
structure Statement where
  line : Nat
  arguments : List Argument
  deriving DecidableEq, Repr, Inhabited

/-- A text or block without an end, at the line of its beginning. -/
inductive CutFault where
  | unterminatedBlock (line : Nat)
  | unterminatedText (line : Nat)
  deriving DecidableEq, Repr

/-- A statement being read: its line and its complete arguments, last first. -/
structure Draft where
  line : Nat
  arguments : List Argument
  deriving DecidableEq, Repr, Inhabited

/-- Where the machine stands.  Characters of an argument are kept last first. -/
inductive Place where
  /-- Between statements. -/
  | outside
  /-- In a comment. -/
  | comment
  /-- Between the arguments of a statement. -/
  | between (statement : Draft)
  /-- In a bare word. -/
  | word (statement : Draft) (chars : List Char)
  /-- In a quoted text that began on a line; behind a backslash or not. -/
  | quoted (statement : Draft) (opened : Nat) (chars : List Char) (escaped : Bool)
  /-- In a block that began on a line, with a number of braces open; behind a backslash or
  not. -/
  | block (statement : Draft) (opened depth : Nat) (chars : List Char) (escaped : Bool)
  deriving DecidableEq, Repr, Inhabited

/-- The machine: the line, the complete statements, last first, and the place. -/
structure Cutter where
  line : Nat
  finished : List Statement
  place : Place
  deriving DecidableEq, Repr, Inhabited

namespace Cutter

def initial : Cutter := ⟨1, [], .outside⟩

end Cutter

/-- The statement with one more argument, given by its characters, last first. -/
def Draft.add (statement : Draft) (chars : List Char) (bare : Bool) : Draft :=
  { statement with arguments := ⟨String.ofList chars.reverse, bare⟩ :: statement.arguments }

def Draft.finish (statement : Draft) : Statement :=
  ⟨statement.line, statement.arguments.reverse⟩

namespace Cutter

def goTo (cutter : Cutter) (place : Place) : Except CutFault Cutter := .ok { cutter with place }

def nextLine (cutter : Cutter) : Cutter := { cutter with line := cutter.line + 1 }

/-- The end of a statement at the end of its line. -/
def endStatement (cutter : Cutter) (statement : Draft) : Except CutFault Cutter :=
  .ok ⟨cutter.line + 1, statement.finish :: cutter.finished, .outside⟩

/-- A character where an argument may begin. -/
def beginArgument (cutter : Cutter) (statement : Draft) (c : Char) : Except CutFault Cutter :=
  if c = '\n' then cutter.endStatement statement
  else if Ascii.isBlankChar c then cutter.goTo (.between statement)
  else if c = '\x22' then cutter.goTo (.quoted statement cutter.line [] false)
  else cutter.goTo (.word statement [c])

/-- A character of a quoted text. -/
def quotedChar (cutter : Cutter) (statement : Draft) (opened : Nat) (chars : List Char)
    (c : Char) : Except CutFault Cutter :=
  if c = '\n' then .error (.unterminatedText opened)
  else if c = '\x22' then cutter.goTo (.between (statement.add chars false))
  else if c = '\x5c' then cutter.goTo (.quoted statement opened chars true)
  else cutter.goTo (.quoted statement opened (c :: chars) false)

/-- The characters that a backslash and a character stand for in a quoted text, last first.
An escape that C does not have keeps its backslash. -/
def textEscape (c : Char) : List Char :=
  if c = 'n' then ['\n']
  else if c = 't' then ['\t']
  else if c = 'r' then ['\r']
  else if c = 'v' then ['\x0b']
  else if c = 'f' then ['\x0c']
  else if c = '0' then ['\x00']
  else if c = '\x5c' || c = '\x22' || c = '\x27' then [c]
  else [c, '\x5c']

/-- A character of a block. -/
def blockChar (cutter : Cutter) (statement : Draft) (opened depth : Nat) (chars : List Char)
    (c : Char) : Except CutFault Cutter :=
  if c = '\x5c' then cutter.goTo (.block statement opened depth chars true)
  else if c = '\x7b' then cutter.goTo (.block statement opened (depth + 1) (c :: chars) false)
  else if c = '\x7d' then
    if depth = 1 then cutter.goTo (.between (statement.add chars false))
    else cutter.goTo (.block statement opened (depth - 1) (c :: chars) false)
  else if c = '\n' then cutter.nextLine.goTo (.block statement opened depth (c :: chars) false)
  else cutter.goTo (.block statement opened depth (c :: chars) false)

/-- The characters that begin a block, last first: a bare word that comes to them is one. -/
def blockOpening : List Char := ['\x7b', 'q', '%']

/-- One character. -/
def step (cutter : Cutter) (c : Char) : Except CutFault Cutter :=
  match cutter.place with
  | .outside =>
    if c = '\n' then .ok cutter.nextLine
    else if Ascii.isBlankChar c then .ok cutter
    else if c = '#' then cutter.goTo .comment
    else cutter.beginArgument ⟨cutter.line, []⟩ c
  | .comment => if c = '\n' then cutter.nextLine.goTo .outside else .ok cutter
  | .between statement => cutter.beginArgument statement c
  | .word statement chars =>
    if c :: chars = blockOpening then
      cutter.goTo (.block statement cutter.line 1 [] false)
    else if Ascii.isBlankChar c then cutter.beginArgument (statement.add chars true) c
    else cutter.goTo (.word statement (c :: chars))
  | .quoted statement opened chars false => cutter.quotedChar statement opened chars c
  | .quoted statement opened chars true =>
    let cutter := if c = '\n' then cutter.nextLine else cutter
    cutter.goTo (.quoted statement opened (textEscape c ++ chars) false)
  | .block statement opened depth chars false => cutter.blockChar statement opened depth chars c
  | .block statement opened depth chars true =>
    if c = '\x5c' || c = '\x7b' || c = '\x7d' then
      cutter.goTo (.block statement opened depth (c :: chars) false)
    else cutter.blockChar statement opened depth ('\x5c' :: chars) c

def run (cutter : Cutter) (text : List Char) : Except CutFault Cutter := text.foldlM step cutter

/-- The end of the text. -/
def finish (cutter : Cutter) : Except CutFault (List Statement) :=
  match cutter.place with
  | .outside | .comment => .ok cutter.finished.reverse
  | .between statement => .ok (statement.finish :: cutter.finished).reverse
  | .word statement chars => .ok ((statement.add chars true).finish :: cutter.finished).reverse
  | .quoted _ opened _ _ => .error (.unterminatedText opened)
  | .block _ opened _ _ _ => .error (.unterminatedBlock opened)

/-- A text cut in two is read by two runs one after the other. -/
theorem run_append (cutter : Cutter) (front back : List Char) :
    cutter.run (front ++ back) = (cutter.run front).bind fun c => c.run back := by
  simp only [run, List.foldlM_append]
  rfl

end Cutter

def statements (text : String) : Except CutFault (List Statement) :=
  (Cutter.initial.run text.toList).bind Cutter.finish

end ScannerGen.Rules
