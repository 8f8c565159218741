import ScannerGen.Emit
import ScannerGen.Hooks
import ScannerGen.Rules
import ScannerGen.Tables.Build
import ScannerGen.Token.Settle

/-!
# Generating a scanner

From a rule set to the texts of a scanner.  The tokens are settled, the tables built and the
texts made; hooks run after all of that has succeeded.
-/

namespace ScannerGen

/-- Why there is no scanner. -/
inductive GenerationError where
  | rules (e : RuleError)
  | tokens (e : TokenError)
  | pattern (e : Pattern.Error)
  | option (e : OptionError)
  | hook (e : HookError)
  | file (e : FileError)
  deriving DecidableEq, Repr

namespace GenerationError

def message : GenerationError → String
  | rules e => e.message
  | tokens e => e.message
  | pattern e => e.message
  | option e => e.message
  | hook e => e.message
  | file e => e.message

/-- The failure of input or output behind an error. -/
def cause? : GenerationError → Option IoError
  | hook e => some e.failure
  | file e => some e.failure
  | _ => none

end GenerationError

/-- What a generation gives. -/
structure Generated where
  artifacts : Artifacts
  tables : Tables
  tokens : TokenTable
  warnings : List Warning
  deriving Inhabited

/-- Settles the tokens of a rule set and builds their tables.  The standard macros are added
to those of the rules. -/
def RuleSet.build (rules : RuleSet) : Except GenerationError (TokenTable × Tables.Built) :=
  match settle rules.declarations with
  | .error e => .error (.tokens e)
  | .ok tokens =>
    match Tables.build tokens rules.macros.installPrelude rules.options.minimize with
    | .error e => .error (.pattern e)
    | .ok built => .ok (tokens, built)

/-- The scanner of a rule set, without hooks. -/
def prepare (rules : RuleSet) (base : String) : Except GenerationError Generated :=
  if base = "" then .error (.option ⟨"base", .api, .emptyBase⟩)
  else
    rules.build.map fun (tokens, built) =>
      { artifacts := emit base built.tables tokens rules.options
        tables := built.tables
        tokens
        warnings := built.warnings }

/-- The scanner of a rule set, after hooks have run on its tokens. -/
def generate {m : Type → Type} [Monad m] (rules : RuleSet) (base : String) (hooks : List (Hook m)) :
    m (Except GenerationError Generated) :=
  match prepare rules base with
  | .error e => pure (.error e)
  | .ok generated => do
    match ← runHooks hooks generated.tokens with
    | .ok () => pure (.ok generated)
    | .error e => pure (.error (.hook e))

end ScannerGen
