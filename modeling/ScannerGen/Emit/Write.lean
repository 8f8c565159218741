import ScannerGen.Emit
import ScannerGen.Files
import ScannerGen.Text.Utf8

/-!
# Writing a scanner

The source and the header are written into one directory.  When the header cannot be written,
the source is removed again.
-/

namespace ScannerGen.Artifacts

variable {m : Type → Type} [Monad m] [FileAccess m]

def sourcePath (a : Artifacts) (directory : Path) : Path := directory.join ⟨a.sourceName⟩

def headerPath (a : Artifacts) (directory : Path) : Path := directory.join ⟨a.headerName⟩

def write (a : Artifacts) (directory : Path) : m (Except FileError Unit) := do
  match ← FileAccess.write (a.sourcePath directory) (utf8 a.source) with
  | .error e => pure (.error ⟨a.sourcePath directory, .os e⟩)
  | .ok () =>
    match ← FileAccess.write (a.headerPath directory) (utf8 a.header) with
    | .ok () => pure (.ok ())
    | .error e =>
      let _ ← FileAccess.remove (a.sourcePath directory)
      pure (.error ⟨a.headerPath directory, .os e⟩)

end ScannerGen.Artifacts
