/-!
# Lines of C code

The body of a C function is a list of lines with their indentation.  Blocks are built by
shifting: the braces of a block stand two columns behind its head and its lines two columns
behind the braces.  A text that the user wrote is kept as it is.
-/

namespace ScannerGen.Code

/-- A line of code. -/
inductive Line where
  | code (indent : Nat) (text : String)
  /-- A text of the user, or a blank line. -/
  | verbatim (text : String)
  deriving DecidableEq, Repr, Inhabited

namespace Line

def shift (columns : Nat) : Line → Line
  | code indent text => code (indent + columns) text
  | verbatim text => verbatim text

def text : Line → String
  | code indent text => String.ofList (List.replicate indent ' ') ++ text ++ "\n"
  | verbatim text => text ++ "\n"

end Line

def statements (texts : List String) : List Line := texts.map (Line.code 0)

def blankLine : List Line := [.verbatim ""]

def shifted (columns : Nat) (lines : List Line) : List Line := lines.map (Line.shift columns)

/-- A head and the single statement that it governs. -/
def governed (head : String) (body : List Line) : List Line :=
  .code 0 head :: shifted 2 body

def braced (body : List Line) : List Line := .code 0 "\x7b" :: body ++ [.code 0 "\x7d"]

def block (head : String) (body : List Line) : List Line :=
  governed head (braced (shifted 2 body))

/-- A head and the block that it governs, with labels that stand below the braces. -/
def labelled (head : String) (body : List Line) : List Line := governed head (braced body)

def label (text : String) (body : List Line) : List Line := .code 0 text :: shifted 2 body

end ScannerGen.Code
