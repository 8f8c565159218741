import ScannerGen.Rules
import ScannerGen.Rules.Statement

/-!
# Rule texts

The statements of a rule text are carried out one after the other:

* `set NAME VALUE` and `add NAME VALUE` change an option,
* `macro NAME PATTERN` names a fragment,
* `token PATTERN CATEGORY` declares a token, with an identifier, `id N`, `ignore` and
  `action TEXT` behind it in any order.

A text has to be cut into statements without a fault before the first one is carried out.
-/

namespace ScannerGen.Rules

/-- The form of a token statement. -/
def tokenForm : String := "token PATTERN CATEGORY [IDENT] [id N] [ignore | action TEXT]"

/-- A number of at most 32 bits, which a plus sign may precede. -/
def idNumber? (word : String) : Option Nat :=
  let digits := match word.toList with
    | '+' :: rest => rest
    | chars => chars
  let value := digits.foldl (fun value c => value * 10 + (c.toNat - 48)) 0
  if digits.isEmpty || !digits.all Ascii.isDigitChar || 0xffffffff < value then none else some value

/-- The modifiers behind the category of a token statement. -/
def tokenModifiers (d : Declaration) : List Argument → Except StatementFault Declaration
  | [] => .ok d
  | ⟨"ignore", true⟩ :: rest => tokenModifiers { d with ignored := true } rest
  | ⟨"id", true⟩ :: rest =>
    match rest with
    | [] => .error .idWithoutNumber
    | number :: rest =>
      match idNumber? number.text with
      | some id => tokenModifiers { d with id := some id } rest
      | none => .error (.badId number.text)
  | ⟨"action", true⟩ :: rest =>
    match rest with
    | [] => .error .actionWithoutText
    | code :: rest => tokenModifiers { d with action := some code.text } rest
  | word :: rest =>
    if d.ident.isNone then tokenModifiers { d with ident := some word.text } rest
    else .error (.unexpectedWord word.text)

/-- The declaration of a token statement, from what follows its keyword. -/
def tokenDeclaration (origin : Origin) : List Argument → Except StatementFault Declaration
  | pattern :: category :: modifiers =>
    match Category.ofName? category.text with
    | none => .error (.unknownCategory category.text)
    | some c =>
      let text := if pattern.bare && pattern.text == "nil" then none else some pattern.text
      tokenModifiers (.ofCategory c text origin) modifiers
  | _ => .error (.usage tokenForm)

def perform (rules : RuleSet) (statement : Statement) : Except RuleError RuleSet :=
  let origin := Origin.atLine statement.line
  let refuse (fault : StatementFault) : Except RuleError RuleSet := .error (.statement origin fault)
  match statement.arguments with
  | [] => refuse .noKeyword
  | ⟨_, false⟩ :: _ => refuse .noKeyword
  | ⟨keyword, true⟩ :: arguments =>
    match keyword, arguments with
    | "set", [name, value] => rules.setOption name.text value.text origin
    | "set", _ => refuse (.usage "set NAME VALUE")
    | "add", [name, value] => rules.addOption name.text value.text origin
    | "add", _ => refuse (.usage "add NAME VALUE")
    | "macro", [name, fragment] => rules.defineMacro name.text fragment.text origin
    | "macro", _ => refuse (.usage "macro NAME PATTERN")
    | "token", arguments =>
      match tokenDeclaration origin arguments with
      | .ok d => .ok (rules.declare d)
      | .error fault => refuse fault
    | other, _ => refuse (.unknownStatement other)

/-- A text that cannot be cut into statements. -/
def CutFault.toError : CutFault → RuleError
  | unterminatedBlock line => .statement (.atLine line) .unterminatedBlock
  | unterminatedText line => .statement (.atLine line) .unterminatedText

def ofText (text : String) : Except RuleError RuleSet :=
  match statements text with
  | .error fault => .error fault.toError
  | .ok list => list.foldlM perform RuleSet.empty

end ScannerGen.Rules
