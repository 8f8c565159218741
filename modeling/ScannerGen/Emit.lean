import ScannerGen.Emit.Source

/-!
# Generated scanners

From tables, tokens and options to the texts of a C source and its header.  Nothing is written
here; `Artifacts` is what there is to write.
-/

namespace ScannerGen

/-- The texts of a scanner and the name that its files are called by. -/
structure Artifacts where
  base : String
  source : String
  header : String
  deriving DecidableEq, Repr, Inhabited

namespace Artifacts

def sourceName (a : Artifacts) : String := s!"{a.base}.c"

def headerName (a : Artifacts) : String := s!"{a.base}.h"

end Artifacts

def emit (base : String) (tables : Tables) (tokens : TokenTable) (options : Options) :
    Artifacts where
  base := base
  source := Code.fileText (Emit.sourceItems base tables tokens options)
  header := Code.fileText (Emit.headerItems base tokens options)

end ScannerGen
