import ScannerGen.Json.Fault
import ScannerGen.Options
import ScannerGen.Pattern.Macros
import ScannerGen.Token

/-!
# Rule sets

What a rule text declares: macros, tokens in order, and options.  A rule set is built step by
step by the readers of rule texts; `RuleError` is what can stop them.
-/

namespace ScannerGen

structure RuleSet where
  macros : MacroTable
  declarations : List Declaration
  options : Options
  deriving Repr, Inhabited

/-- A fault in the statements of a rule text. -/
inductive StatementFault where
  | unterminatedBlock
  | unterminatedText
  | usage (form : String)
  | unknownCategory (word : String)
  | idWithoutNumber
  | badId (word : String)
  | actionWithoutText
  | unexpectedWord (word : String)
  | noKeyword
  | unknownStatement (word : String)
  | badMacroName (name : String)
  deriving DecidableEq, Repr

def StatementFault.message : StatementFault → String
  | unterminatedBlock => "unterminated %q\x7b block"
  | unterminatedText => "unterminated string"
  | usage form => s!"expected `{form}`"
  | unknownCategory word => s!"unknown token category `{word}`"
  | idWithoutNumber => "`id` needs a number"
  | badId word => s!"`{word}` is not a token id"
  | actionWithoutText => "`action` needs the code text"
  | unexpectedWord word => s!"unexpected `{word}` in token declaration"
  | noKeyword => "a statement must start with a keyword"
  | unknownStatement word => s!"unknown statement `{word}`"
  | badMacroName name => s!"`{name}` is not a valid macro name"

/-- Why a rule text is refused. -/
inductive RuleError where
  | duplicateMacro (duplicate : DuplicateMacro)
  | option (refused : OptionError)
  | statement (origin : Origin) (fault : StatementFault)
  | document (refusal : Json.Refusal)
  deriving DecidableEq, Repr

def RuleError.message : RuleError → String
  | duplicateMacro duplicate => duplicate.message
  | option refused => refused.message
  | statement origin fault => s!"syntax error ({origin.text}): {fault.message}"
  | document refusal =>
    s!"syntax error ({(Origin.atLine refusal.place.line).text}): {refusal.message}"

namespace RuleSet

def empty : RuleSet := ⟨.empty, [], .default⟩

def setOption (rules : RuleSet) (name value : String) (origin : Origin) :
    Except RuleError RuleSet :=
  match (rules.options.set name value origin).toExcept with
  | .ok options => .ok { rules with options }
  | .error refused => .error (.option refused)

def addOption (rules : RuleSet) (name value : String) (origin : Origin) :
    Except RuleError RuleSet :=
  match (rules.options.add name value origin).toExcept with
  | .ok options => .ok { rules with options }
  | .error refused => .error (.option refused)

/-- Defines a macro, whose name has to be an identifier. -/
def defineMacro (rules : RuleSet) (name fragment : String) (origin : Origin) :
    Except RuleError RuleSet :=
  if Ascii.isIdentifier name = false then .error (.statement origin (.badMacroName name))
  else
    match rules.macros.define name fragment origin with
    | .ok macros => .ok { rules with macros }
    | .error duplicate => .error (.duplicateMacro duplicate)

def declare (rules : RuleSet) (d : Declaration) : RuleSet :=
  { rules with declarations := rules.declarations ++ [d] }

end RuleSet

end ScannerGen
