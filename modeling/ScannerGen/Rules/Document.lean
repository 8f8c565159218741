import ScannerGen.Json.Record
import ScannerGen.Json.Value
import ScannerGen.Rules

/-!
# Rule documents

A rule set may also be given as one JSON document with the fields `options`, `macros` and
`tokens`.  Options are taken in the order of their names: a list adds its elements, any other
value sets the option.  Nothing in a document has a line.

* `Document.read` reads a document.
* `Document.toRules` carries it out.
-/

namespace ScannerGen.Rules

open Json (Reader Value Shape Field Located)

/-- What a rule document holds. -/
structure Document where
  /-- Option values, sorted by name. -/
  options : List (String × Value)
  macros : List (String × String)
  tokens : List Declaration
  deriving Inhabited

namespace Document

def empty : Document := ⟨[], [], []⟩

/-! ## Shapes -/

/-- Keeps what a reader gives in the state of a record. -/
def store {α σ : Type} (read : Reader α) (put : α → σ → σ) (state : σ) : Reader σ := fun text =>
  (read text).map fun (value, rest) => (put value state, rest)

/-- The name of a category, given the text after its opening quote. -/
def categoryName : Reader Category := fun text => do
  let (word, rest) ← Json.string text
  match Category.ofName? word with
  | some category => .ok (category, rest)
  | none => .error ⟨.unknownVariant word (Category.all.map Category.name), rest⟩

/-- Null, the value of a name that stands for itself. -/
def unit (text : List UInt8) : Except Located (List UInt8) :=
  match Json.skipBlanks text with
  | [] => .error ⟨.endInValue, []⟩
  | b :: rest =>
    if b = Ascii.letterN then Json.expectWord (utf8 "ull") rest
    else .error (Json.invalidType "unit" (b :: rest))

/-- The name of a category as the key of an object that has just been opened. -/
def categoryKey : Reader Category := fun text => do
  match ← Json.nextKey true text with
  | some begin => categoryName begin
  | none => .error ⟨.expectedValue, (Json.skipBlanks text).tail⟩

/-- A category: its name, or an object with the name as its only key and null behind it. -/
def category (remaining : Nat) : Reader Category := fun text =>
  match Json.skipBlanks text with
  | [] => .error ⟨.endInValue, []⟩
  | b :: rest =>
    if b = Ascii.openBrace then
      Json.entered remaining (b :: rest) fun _ => do
        let (c, rest) ← categoryKey rest
        let rest ← unit (← Json.colon rest)
        match Json.skipBlanks rest with
        | [] => .error ⟨.endInObject, []⟩
        | d :: more =>
          if d = Ascii.closeBrace then .ok (c, more) else .error ⟨.expectedValue, d :: more⟩
    else if b = Ascii.quote then categoryName rest
    else .error ⟨.expectedValue, rest⟩

def string : Reader String := Json.stringAs "a string"

def macroShape : Shape (String × String) where
  name := "struct MacroEntry"
  isOpen := false
  fields :=
    [⟨"name", false, false, fun _ => store string fun name entry => (name, entry.2)⟩,
     ⟨"pattern", false, false, fun _ => store string fun fragment entry => (entry.1, fragment)⟩]

def tokenShape : Shape Declaration where
  name := "struct TokenEntry"
  isOpen := false
  fields :=
    [⟨"pattern", false, true, fun _ =>
        store (Json.nullable string) fun pattern d => { d with pattern }⟩,
     ⟨"category", false, false, fun remaining =>
        store (category remaining) fun category d => { d with category }⟩,
     ⟨"ident", false, true, fun _ =>
        store (Json.nullable string) fun ident d => { d with ident }⟩,
     ⟨"id", false, true, fun _ => store (Json.nullable Json.u32) fun id d => { d with id }⟩,
     ⟨"ignore", true, true, fun _ => store Json.boolean fun ignored d => { d with ignored }⟩,
     ⟨"action", false, true, fun _ =>
        store (Json.nullable string) fun action d => { d with action }⟩]

def shape : Shape Document where
  name := "struct RuleFile"
  isOpen := false
  fields :=
    [⟨"options", true, true, fun remaining =>
        store (Json.object remaining) fun options doc => { doc with options }⟩,
     ⟨"macros", true, true, fun remaining =>
        store (Json.listOf remaining (macroShape.read ("", "")))
          fun macros doc => { doc with macros }⟩,
     ⟨"tokens", true, true, fun remaining =>
        store (Json.listOf remaining (tokenShape.read (.ofCategory .unknown none .api)))
          fun tokens doc => { doc with tokens }⟩]

def read (text : String) : Except Json.Refusal Document :=
  Json.document (shape.read empty Json.maxDepth) (utf8 text)

/-! ## Carrying out -/

/-- The text of an option value that is no list, object or null. -/
def scalar? : Value → Option String
  | .string s => some s
  | .boolean b => some (if b then "true" else "false")
  | .number n => some n.text
  | _ => none

/-- A scalar, or the error of an option that got something else. -/
def scalar (name : String) (value : Value) : Except RuleError String :=
  match scalar? value with
  | some text => .ok text
  | none => .error (.option ⟨name, .api, .notScalar value.text⟩)

/-- Gives an option its value. -/
def applyOption (rules : RuleSet) (entry : String × Value) : Except RuleError RuleSet :=
  match entry.2 with
  | .list values =>
    values.foldlM (fun rules value => do
      rules.addOption entry.1 (← scalar entry.1 value) .api) rules
  | value => do rules.setOption entry.1 (← scalar entry.1 value) .api

/-- The rule set of a document. -/
def toRules (doc : Document) : Except RuleError RuleSet := do
  let rules ← doc.options.foldlM applyOption RuleSet.empty
  let rules ← doc.macros.foldlM (fun rules entry => rules.defineMacro entry.1 entry.2 .api) rules
  .ok (doc.tokens.foldl RuleSet.declare rules)

end Document

def ofJson (text : String) : Except RuleError RuleSet :=
  match Document.read text with
  | .ok doc => doc.toRules
  | .error refusal => .error (.document refusal)

end ScannerGen.Rules
