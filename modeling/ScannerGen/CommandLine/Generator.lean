import ScannerGen.CommandLine.Arguments
import ScannerGen.CommandLine.Outcome
import ScannerGen.Emit.Write
import ScannerGen.Hooks.TokenIdFile
import ScannerGen.Rules.File
import ScannerGen.Scan
import ScannerGen.Tables.Dump
import ScannerGen.Text.Quoted

/-!
# The generator

A run of the generator loads a rule file, makes a scanner, and writes what was asked for: the
token ids, which a hook writes, a dump of the tables, and the source and header.  When one of
the later files cannot be written, those before it are removed.  In the end the run may scan a
file with the new tables and show the tokens.
-/

namespace ScannerGen.CommandLine

variable {m : Type → Type} [Monad m] [FileAccess m]

namespace Invocation

/-- The name that the outputs are called by: as given, or that of the rule file. -/
def baseName (i : Invocation) : Except Report String :=
  match i.base, i.rules.stem? with
  | some base, _ => .ok base
  | none, some stem => .ok stem
  | none, none => .error ⟨s!"cannot derive a base name from {i.rules.text}", []⟩

/-- Where the token ids go, if anywhere. -/
def tokenIdPath? (i : Invocation) : Option Path :=
  i.tokenIds.map fun text => if text = "" then i.outDir.join ⟨"tokens.txt"⟩ else ⟨text⟩

end Invocation

/-- A line of the generator about itself. -/
def note (text : String) : String := s!"[{generatorName}] {text}"

/-! ## Writing -/

/-- What came of writing the outputs: the lines shown, the side files that were written, and
the report of what failed. -/
structure Written where
  lines : List String
  sideFiles : List Path
  failure? : Option Report
  deriving Inhabited

/-- Writes the dump of the tables, if it is asked for. -/
def writeDump (generated : Generated) : Option Path → m Written
  | none => pure ⟨[], [], none⟩
  | some path => do
    match ← FileAccess.write path (utf8 generated.tables.dump) with
    | .ok () => pure ⟨[note s!"wrote {path.text}"], [path], none⟩
    | .error e => pure ⟨[], [], some ⟨s!"writing {path.text}", [e.message]⟩⟩

def pairLine (generated : Generated) (directory : Path) : String :=
  let source := (generated.artifacts.sourcePath directory).text
  let header := (generated.artifacts.headerPath directory).text
  note (s!"wrote {source} and {header} ({generated.tables.stateCount} states, " ++
    s!"{generated.tables.classCount} classes)")

/-- Writes the dump, then source and header. -/
def writeOutputs (i : Invocation) (generated : Generated) : m Written := do
  let dump ← writeDump generated i.tables
  match dump.failure? with
  | some _ => pure dump
  | none =>
    match ← generated.artifacts.write i.outDir with
    | .ok () => pure ⟨dump.lines ++ [pairLine generated i.outDir], dump.sideFiles, none⟩
    | .error e => pure { dump with failure? := some (.ofFile e) }

/-- Removes files; those that cannot be removed stay. -/
def removeAll : List Path → m Unit
  | [] => pure ()
  | path :: paths => do
    let _ ← FileAccess.remove path
    removeAll paths

/-! ## Showing tokens -/

def padRight (width : Nat) (text : String) : String :=
  text ++ String.ofList (List.replicate (width - text.length) ' ')

def lexemeLine (tokens : TokenTable) (input : List UInt8) (l : Lexeme) : String :=
  let constant := ((tokens.get? l.token).map Token.constant).getD ""
  let id := ((tokens.get? l.token).map Token.id).getD 0
  let text := decodeLossy ((input.drop l.start).take l.length)
  s!"line {padRight 4 (toString l.line)} {padRight 20 constant} " ++
    s!"id {padRight 4 (toString id)} {textLiteral text}"

def tokenLines (generated : Generated) (path : Path) (input : List UInt8) :
    Except Report (List String) :=
  match generated.tables.scan input with
  | .error jam => .error ⟨s!"scanning {path.text}", [jam.message input]⟩
  | .ok lexemes => .ok ((generated.tokens.kept lexemes).map (lexemeLine generated.tokens input))

/-- Scans a file, if that is asked for. -/
def showTokens (generated : Generated) : Option Path → m (Except Report (List String))
  | none => pure (.ok [])
  | some path => do
    match ← FileAccess.read path with
    | .error e => pure (.error ⟨s!"reading {path.text}", [e.message]⟩)
    | .ok input => pure (tokenLines generated path input)

/-! ## Runs -/

/-- The scanner of a rule set, with the token ids written. -/
def generateWithIds (i : Invocation) (rules : RuleSet) (base : String) :
    m (Except GenerationError Generated) :=
  (generate rules base (i.tokenIdPath?.toList.map TokenIdFile.hook)).run' none

/-- The part of a run behind generation. -/
def deliver (i : Invocation) (shown : List String) (generated : Generated) : m Outcome := do
  let warnings := warningLines generated.warnings
  let written ← writeOutputs i generated
  let shown := shown ++ written.lines
  match written.failure? with
  | some report => do
    removeAll (i.tokenIdPath?.toList ++ written.sideFiles)
    pure (.failure shown warnings report)
  | none =>
    match ← showTokens generated i.scan with
    | .error report => pure (.failure shown warnings report)
    | .ok lines => pure (.success (shown ++ lines) warnings)

/-- A run with rules that have been loaded. -/
def runRules (i : Invocation) (base : String) (rules : RuleSet) : m Outcome := do
  match ← FileAccess.makeDirectories i.outDir with
  | .error e => pure (.failure [] [] ⟨s!"creating {i.outDir.text}", [e.message]⟩)
  | .ok () =>
    let shown := [note s!"generating {base} from {i.rules.text}"]
    match ← generateWithIds i rules base with
    | .error e => pure (.failure shown [] (.ofGeneration e))
    | .ok generated => deliver i shown generated

def runInvocation (i : Invocation) : m Outcome := do
  match i.baseName with
  | .error report => pure (.failure [] [] report)
  | .ok base =>
    match ← RuleSet.load i.rules with
    | .error e =>
      pure (.failure [] [] ((Report.ofGeneration e).within s!"loading {i.rules.text}"))
    | .ok rules => runRules i base rules

def runGenerator (arguments : List String) : m Outcome :=
  match readArguments arguments with
  | .error e => pure ⟨2, "", s!"error: {e.message}\n\n{usage}\n\nFor more information, try '--help'.\n"⟩
  | .ok .help => pure ⟨0, helpText, ""⟩
  | .ok .version => pure ⟨0, versionText, ""⟩
  | .ok (.run i) => runInvocation i

end ScannerGen.CommandLine
