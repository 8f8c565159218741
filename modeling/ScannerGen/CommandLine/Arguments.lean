import ScannerGen.Emit.Source
import ScannerGen.Files.Path

/-!
# Arguments of the generator

The generator takes options only.  An option is written `-f VALUE`, `-fVALUE`, `-f=VALUE`,
`--file VALUE` or `--file=VALUE`; a value of its own does not begin with a dash, unless it is
just a dash.  Each option may be given once.

Arguments are taken in order.  An option without its value waits for the next argument and is
completed by the one behind that, so that asking for the version counts only if everything
before it is in order.
-/

namespace ScannerGen.CommandLine

inductive Flag where
  | rules
  | outDir
  | base
  | tokenIds
  | tables
  | scan
  deriving DecidableEq, Repr

namespace Flag

def all : List Flag := [rules, outDir, base, tokenIds, tables, scan]

def word : Flag → String
  | rules => "file"
  | outDir => "out-dir"
  | base => "base"
  | tokenIds => "token-ids"
  | tables => "tables"
  | scan => "scan"

def letter? : Flag → Option Char
  | rules => some 'f'
  | outDir => some 'o'
  | base => some 'b'
  | tokenIds => some 't'
  | tables => none
  | scan => none

def ofWord? (word : String) : Option Flag := all.find? fun flag => flag.word == word

def ofLetter? (c : Char) : Option Flag := all.find? fun flag => flag.letter? == some c

/-- Whether the value is a path, which cannot be empty. -/
def isPath : Flag → Bool
  | base => false
  | tokenIds => false
  | _ => true

/-- The value of an option that may stand without one. -/
def implied? : Flag → Option String
  | tokenIds => some ""
  | _ => none

end Flag

/-- What a run of the generator is to do. -/
structure Invocation where
  rules : Path
  outDir : Path
  base : Option String
  /-- Where the token ids go; an empty text stands for the usual place. -/
  tokenIds : Option String
  tables : Option Path
  scan : Option Path
  deriving DecidableEq, Repr, Inhabited

inductive Request where
  | help
  | version
  | run (invocation : Invocation)
  deriving DecidableEq, Repr, Inhabited

inductive UsageError where
  | unexpected (argument : String)
  | missingValue (flag : Flag)
  | emptyValue (flag : Flag)
  | repeated (flag : Flag)
  | missingRules
  deriving DecidableEq, Repr

def UsageError.message : UsageError → String
  | unexpected argument => s!"unexpected argument '{argument}' found"
  | missingValue flag => s!"a value is required for '--{flag.word}' but none was supplied"
  | emptyValue flag => s!"a value is required for '--{flag.word}' but none was supplied"
  | repeated flag => s!"the argument '--{flag.word}' cannot be used multiple times"
  | missingRules => "the following required arguments were not provided:\n  --file <RULES>"

/-! ## Taking arguments -/

/-- The options so far, and the one that is not complete: its value is missing, or has just
been given. -/
structure Taken where
  values : List (Flag × String)
  waiting : Option (Flag × Option String)
  deriving DecidableEq, Repr, Inhabited

namespace Taken

def none : Taken := ⟨[], .none⟩

def value? (t : Taken) (flag : Flag) : Option String := t.values.lookup flag

/-- Takes the value of an option. -/
def give (t : Taken) (flag : Flag) (value : String) : Except UsageError Taken :=
  if flag.isPath && value = "" then .error (.emptyValue flag)
  else if (t.value? flag).isSome then .error (.repeated flag)
  else .ok ⟨t.values ++ [(flag, value)], .none⟩

/-- Completes the option that waits. -/
def complete (t : Taken) : Except UsageError Taken :=
  match t.waiting with
  | .none => .ok t
  | some (flag, some value) => t.give flag value
  | some (flag, .none) =>
    match flag.implied? with
    | some value => t.give flag value
    | .none => .error (.missingValue flag)

def option (t : Taken) (flag : Flag) (attached : Option String) : Except UsageError Taken := do
  let t ← t.complete
  match attached with
  | some value => t.give flag value
  | .none => .ok { t with waiting := some (flag, .none) }

/-- An argument that is no option: the value that an option waits for. -/
def plain (t : Taken) (argument : String) : Except UsageError Taken :=
  match t.waiting with
  | some (flag, .none) => .ok { t with waiting := some (flag, some argument) }
  | _ => .error (.unexpected argument)

/-- The request that the options make at the end of the arguments. -/
def request (t : Taken) : Except UsageError Request := do
  let t ← t.complete
  match t.value? .rules with
  | .none => .error .missingRules
  | some rules =>
    .ok (.run
      { rules := ⟨rules⟩
        outDir := ⟨(t.value? .outDir).getD "."⟩
        base := t.value? .base
        tokenIds := t.value? .tokenIds
        tables := (t.value? .tables).map Path.mk
        scan := (t.value? .scan).map Path.mk })

end Taken

/-! ## Reading arguments -/

/-- What an argument comes to: options to go on with, or a request that ends the reading. -/
inductive Progress where
  | onward (taken : Taken)
  | done (request : Request)
  deriving Repr

/-- An argument of letters behind one dash. -/
def readLetters (t : Taken) (argument : String) : List Char → Except UsageError Progress
  | [] => .ok (.onward t)
  | c :: rest =>
    if c = 'h' then do
      let _ ← t.complete
      .ok (.done .help)
    else if c = 'V' then do
      let _ ← t.complete
      .ok (.done .version)
    else
      match Flag.ofLetter? c with
      | none => .error (.unexpected argument)
      | some flag =>
        let attached := match rest with
          | [] => none
          | d :: value => some (String.ofList (if d = '=' then value else rest))
        (t.option flag attached).map .onward

/-- An argument of a word behind two dashes, with what stands behind an equals sign. -/
def readWord (t : Taken) (argument : String) (word : String) (attached : Option String) :
    Except UsageError Progress :=
  match Flag.ofWord? word, attached with
  | some flag, _ => (t.option flag attached).map .onward
  | none, none => do
    if word = "help" then
      let _ ← t.complete
      .ok (.done .help)
    else if word = "version" then
      let _ ← t.complete
      .ok (.done .version)
    else .error (.unexpected argument)
  | none, some _ => .error (.unexpected argument)

def readArgument (t : Taken) (argument : String) : Except UsageError Progress :=
  match argument.toList with
  | '-' :: '-' :: chars =>
    let attached := match chars.dropWhile (· != '=') with
      | [] => none
      | _ :: value => some (String.ofList value)
    readWord t argument (String.ofList (chars.takeWhile (· != '='))) attached
  | '-' :: c :: chars => readLetters t argument (c :: chars)
  | _ => (t.plain argument).map .onward

/-- Reads arguments from a state on.  Nothing may stand behind two dashes alone. -/
def readFrom (t : Taken) : List String → Except UsageError Request
  | [] => t.request
  | argument :: rest =>
    if argument = "--" then
      match rest with
      | [] => t.request
      | extra :: _ => .error (.unexpected extra)
    else
      match readArgument t argument with
      | .error e => .error e
      | .ok (.done request) => .ok request
      | .ok (.onward t) => readFrom t rest

def readArguments (arguments : List String) : Except UsageError Request :=
  readFrom .none arguments

/-! ## Texts -/

def usage : String := s!"Usage: {generatorName} [OPTIONS] --file <RULES>"

def helpText : String :=
  "\n".intercalate
    ["Generate a table-driven C scanner from token rules",
     "",
     usage,
     "",
     "Options:",
     "  -f, --file <RULES>             " ++
       "Rule file (`.json` for the JSON form, anything else for the DSL)",
     "  -o, --out-dir <OUT_DIR>        Directory for `<base>.c` and `<base>.h` [default: .]",
     "  -b, --base <BASE>              Base name of the outputs (default: rule file stem)",
     "  -t, --token-ids [<TOKEN_IDS>]  " ++
       "Write `IDENT = id` token list (default path: `<out_dir>/tokens.txt`)",
     "      --tables <TABLES>          Dump the scanner tables as JSON",
     "      --scan <SCAN>              " ++
       "Scan this file with the generated tables and print the tokens",
     "  -h, --help                     Print help",
     "  -V, --version                  Print version",
     ""]

def versionText : String := s!"{generatorName} {generatorVersion}\n"

end ScannerGen.CommandLine
