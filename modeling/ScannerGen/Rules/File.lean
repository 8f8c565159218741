import ScannerGen.Files
import ScannerGen.Generate
import ScannerGen.Rules.Document
import ScannerGen.Rules.Text

/-!
# Rule files

A rule file is a JSON document if its name ends in `.json`, in any case, and a rule text
otherwise.
-/

namespace ScannerGen

def Path.isJson (p : Path) : Bool :=
  match p.extension? with
  | some extension => String.ofList (extension.toList.map Ascii.lowerChar) == "json"
  | none => false

namespace RuleSet

/-- The rule set of what a file holds. -/
def ofBytes (path : Path) (bytes : List UInt8) : Except GenerationError RuleSet :=
  match decode? bytes with
  | none => .error (.file ⟨path, .notUtf8⟩)
  | some text =>
    match if path.isJson then Rules.ofJson text else Rules.ofText text with
    | .ok rules => .ok rules
    | .error e => .error (.rules e)

def load {m : Type → Type} [Monad m] [FileAccess m] (path : Path) :
    m (Except GenerationError RuleSet) := do
  match ← FileAccess.read path with
  | .error e => pure (.error (.file ⟨path, .os e⟩))
  | .ok bytes => pure (ofBytes path bytes)

end RuleSet

end ScannerGen
