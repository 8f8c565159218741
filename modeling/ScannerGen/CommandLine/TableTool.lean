import ScannerGen.CommandLine.Outcome
import ScannerGen.Rules.File
import ScannerGen.Scan
import ScannerGen.Tables.Dump

/-!
# The table tool

A second program makes only the dump of the tables of a rule file.  It can also check a dump
by scanning an input with it.
-/

namespace ScannerGen.CommandLine.TableTool

variable {m : Type → Type} [Monad m] [FileAccess m]

/-- The name of the tool as its outputs give it. -/
def toolName : String := "gen_tables"

def note (text : String) : String := s!"[{toolName}] {text}"

def checkUsage : String := s!"{toolName} --check TABLES.json INPUT"

/-- A run that was not asked for in the right way. -/
def refused (usage : String) : Outcome := ⟨2, "", linesText [s!"usage: {usage}"]⟩

/-- A run that ended with an error. -/
def failed (shown warnings : List String) (message : String) : Outcome :=
  ⟨1, linesText shown, linesText (warnings ++ [s!"error: {message}"])⟩

/-! ## Checking a dump -/

/-- What a check finds: the line to show, or the error. -/
def checkLine (tables input : Path) (dump bytes : List UInt8) : Except String String :=
  match Tables.load dump with
  | .error e => .error e.message
  | .ok t =>
    match t.scan bytes with
    | .error jam => .error (jam.message bytes)
    | .ok lexemes =>
      .ok (note s!"{tables.text}: {t.stateCount} states, {lexemes.length} lexemes in {input.text}")

def readFor (path : Path) : m (Except String (List UInt8)) := do
  match ← FileAccess.read path with
  | .ok bytes => pure (.ok bytes)
  | .error e => pure (.error s!"failed to read {path.text}: {e.message}")

/-- Whether a dump can be read, before its input is asked for. -/
def dumpError? (dump : List UInt8) : Option String :=
  match Tables.load dump with
  | .error e => some e.message
  | .ok _ => none

/-- Scans an input with the tables of a dump. -/
def check (tables input : Path) : m Outcome := do
  match ← readFor tables with
  | .error e => pure (failed [] [] e)
  | .ok dump =>
    match dumpError? dump with
    | some e => pure (failed [] [] e)
    | none =>
      match ← readFor input with
      | .error e => pure (failed [] [] e)
      | .ok bytes =>
        match checkLine tables input dump bytes with
        | .error e => pure (failed [] [] e)
        | .ok line => pure (.success [line] [])

/-! ## Making a dump -/

/-- Where the dump of a rule file goes unless told. -/
def usualOutput (rules : Path) : Path :=
  let stem := rules.stem?.getD "tables"
  ⟨s!"tables/{stem}.json"⟩

def summary (t : Tables) : String :=
  note (s!"{t.stateCount} states ({t.acceptingCount} accepting), {t.classCount} classes, " ++
    s!"next = {t.stateCount * t.classCount} entries")

def makeParent (path : Path) : m (Except String Unit) :=
  match path.parent? with
  | none => pure (.ok ())
  | some directory => do
    match ← FileAccess.makeDirectories directory with
    | .ok () => pure (.ok ())
    | .error e => pure (.error s!"failed to create {directory.text}: {e.message}")

def deliver (out : Path) (built : Tables.Built) : m Outcome := do
  let warnings := warningLines built.warnings
  match ← FileAccess.write out (utf8 built.tables.dump) with
  | .error e =>
    pure (failed [summary built.tables] warnings s!"failed to write {out.text}: {e.message}")
  | .ok () => pure (.success [summary built.tables, note s!"wrote {out.text}"] warnings)

def dump (rules out : Path) : m Outcome := do
  match ← makeParent out with
  | .error e => pure (failed [] [] e)
  | .ok () =>
    match ← RuleSet.load rules with
    | .error e => pure (failed [] [] e.message)
    | .ok ruleSet =>
      match ruleSet.build with
      | .error e => pure (failed [] [] e.message)
      | .ok (_, built) => deliver out built

/-- Runs the tool with arguments.  Arguments behind those it needs are passed over. -/
def run : List String → m Outcome
  | [] => pure (refused s!"{toolName} RULES [OUT.json] | {checkUsage}")
  | first :: rest =>
    if first = "--check" then
      match rest with
      | tables :: input :: _ => check ⟨tables⟩ ⟨input⟩
      | _ => pure (refused checkUsage)
    else
      match rest with
      | [] => dump ⟨first⟩ (usualOutput ⟨first⟩)
      | out :: _ => dump ⟨first⟩ ⟨out⟩

end ScannerGen.CommandLine.TableTool
