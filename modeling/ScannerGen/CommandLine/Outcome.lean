import ScannerGen.Generate

/-!
# Outcomes of a run

What a run leaves behind apart from files: an exit code and the texts for standard output and
standard error.  `Report` is how a run tells of an error: what failed on top, and below it the
causes, each one the cause of the one before.
-/

namespace ScannerGen.CommandLine

structure Outcome where
  code : Nat
  out : String
  err : String
  deriving DecidableEq, Repr, Inhabited

def linesText (lines : List String) : String := String.join (lines.map fun line => line ++ "\n")

/-! ## Reports -/

/-- An error with the errors that caused it. -/
structure Report where
  top : String
  causes : List String
  deriving DecidableEq, Repr, Inhabited

namespace Report

/-- A report of what failed because of another one. -/
def within (context : String) (r : Report) : Report := ⟨context, r.top :: r.causes⟩

def ofGeneration (e : GenerationError) : Report :=
  ⟨e.message, e.cause?.toList.map IoError.message⟩

def ofFile (e : FileError) : Report := ⟨e.message, [e.failure.message]⟩

def padLeft (width : Nat) (text : String) : String :=
  String.ofList (List.replicate (width - text.length) ' ') ++ text

/-- A text with other words at the start of its first and of its further lines. -/
def indented (first further text : String) : String :=
  first ++ String.join (text.toList.map fun c =>
    if c = '\n' then "\n" ++ further else String.singleton c)

/-- The causes: a single one as it is, several ones with numbers. -/
def causeLines : List String → List String
  | [] => []
  | [cause] => [indented "    " "    " cause]
  | causes => causes.mapIdx fun n cause =>
      indented s!"{padLeft 5 (toString n)}: " "       " cause

def text (r : Report) : String :=
  linesText (s!"Error: {r.top}" ::
    if r.causes = [] then [] else "" :: "Caused by:" :: causeLines r.causes)

end Report

namespace Outcome

def success (out err : List String) : Outcome := ⟨0, linesText out, linesText err⟩

def failure (out err : List String) (r : Report) : Outcome :=
  ⟨1, linesText out, linesText err ++ r.text⟩

end Outcome

def warningLines (warnings : List Warning) : List String :=
  warnings.map fun w => s!"warning: {w.message}"

end ScannerGen.CommandLine
