import ScannerGen.Origin
import ScannerGen.Text.Ascii
import ScannerGen.Text.Blank

/-!
# Generation options

Switches and texts that shape the generated scanner.  Options are named: scalar options are
set, list options are added to, and setting a list option replaces the list by one value.

An extra field becomes a variable of the scanner, or a macro round its body, so its name must
be a C identifier that is neither a keyword of C nor a name that the scanner uses.  The flag
`extra-type=T` declares the field `extra` of type `T`.

`Options.set` and `Options.add` answer with the options after the call and the error of the
call, if any: replacing a list by a value that is refused leaves the list empty.
-/

namespace ScannerGen

/-! ## Names of options -/

inductive OptionKey where
  | lineno
  | reentrant
  | minimize
  | helperName
  | sourceTop
  | sourceEnd
  | headerTop
  | headerEnd
  | extra
  | flag
  deriving DecidableEq, Repr

namespace OptionKey

def all : List OptionKey :=
  [lineno, reentrant, minimize, helperName, sourceTop, sourceEnd, headerTop, headerEnd, extra, flag]

/-- The word for an option in rule texts. -/
def name : OptionKey → String
  | lineno => "lineno"
  | reentrant => "reentrant"
  | minimize => "minimize"
  | helperName => "prefix"
  | sourceTop => "l_header"
  | sourceEnd => "l_footer"
  | headerTop => "h_header"
  | headerEnd => "h_footer"
  | extra => "extra"
  | flag => "flexopt"

def ofName? (word : String) : Option OptionKey := all.find? fun key => key.name == word

end OptionKey

/-! ## Errors -/

inductive OptionFault where
  | unrecognized
  | scalarOnly
  | notTruthValue (value : String)
  | notIdentifier (value : String)
  | notNameAndType (spec : String)
  | badFieldName (name : String)
  | keyword (name : String)
  | reserved (name : String)
  | noType (name : String)
  | declaredTwice (name : String)
  /-- A value of a rule document that is no scalar, as it is written there. -/
  | notScalar (value : String)
  | emptyBase
  deriving DecidableEq, Repr

def OptionFault.message : OptionFault → String
  | unrecognized => "unrecognized option"
  | scalarOnly => "scalar option; use `set` instead of `add`"
  | notTruthValue value => s!"expected a boolean, got `{value}`"
  | notIdentifier value => s!"`{value}` is not a valid C identifier"
  | notNameAndType spec => s!"expected NAME:TYPE, got `{spec}`"
  | badFieldName name => s!"`{name}` is not a valid field name"
  | keyword name => s!"`{name}` is a C keyword"
  | reserved name => s!"`{name}` is reserved for the generated scanner"
  | noType name => s!"field `{name}` has no type"
  | declaredTwice name => s!"field `{name}` is declared twice"
  | notScalar value => s!"expected a string, number or boolean, got {value}"
  | emptyBase => "the output base name is empty"

/-- A refused option: which one, where, and why. -/
structure OptionError where
  option : String
  origin : Origin
  fault : OptionFault
  deriving DecidableEq, Repr

def OptionError.message (e : OptionError) : String :=
  s!"invalid option `{e.option}` ({e.origin.text}): {e.fault.message}"

/-! ## Extra fields -/

/-- A field that the user carries in the state of the scanner. -/
structure ExtraField where
  name : String
  type : String
  deriving DecidableEq, Repr, Inhabited

def cKeywords : List String :=
  ["auto", "break", "case", "char", "const", "continue", "default", "do", "double", "else",
   "enum", "extern", "float", "for", "goto", "if", "inline", "int", "long", "register",
   "restrict", "return", "short", "signed", "sizeof", "static", "struct", "switch", "typedef",
   "union", "unsigned", "void", "volatile", "while", "_Alignas", "_Alignof", "_Atomic", "_Bool",
   "_Complex", "_Generic", "_Imaginary", "_Noreturn", "_Static_assert", "_Thread_local"]

/-- Names that clash with the accessors of the scanner, or that its body calls. -/
def reservedNames : List String :=
  ["in", "text", "leng", "lineno", "FILE", "size_t", "stdin", "calloc", "realloc", "free",
   "fread", "memcpy"]

/-- The beginnings of the names that the scanner declares. -/
def reservedBeginnings : List String := ["yy", "YY", "TOK_"]

def isReserved (name : String) : Bool :=
  reservedNames.contains name ||
    reservedBeginnings.any fun beginning => beginning.toList.isPrefixOf name.toList

namespace ExtraField

/-- A field, if its name is free for use and its type is given. -/
def checked (name type : String) (origin : Origin) : Except OptionError ExtraField :=
  let refuse (fault : OptionFault) := .error ⟨OptionKey.extra.name, origin, fault⟩
  if Ascii.isIdentifier name = false then refuse (.badFieldName name)
  else if cKeywords.contains name then refuse (.keyword name)
  else if isReserved name then refuse (.reserved name)
  else if type.isEmpty then refuse (.noType name)
  else .ok ⟨name, type⟩

/-- A field from its name and type with a colon between them. -/
def ofSpec (spec : String) (origin : Origin) : Except OptionError ExtraField :=
  let chars := spec.toList
  match chars.dropWhile (· != ':') with
  | [] => .error ⟨OptionKey.extra.name, origin, .notNameAndType spec⟩
  | _ :: type =>
    checked (trimmed (String.ofList (chars.takeWhile (· != ':')))) (trimmed (String.ofList type))
      origin

end ExtraField

/-! ## Options -/

structure Options where
  lineno : Bool
  reentrant : Bool
  minimize : Bool
  /-- The beginning of the name of the function that names token ids. -/
  helperName : String
  extra : List ExtraField
  /-- Free flags, repeated in the output. -/
  flags : List String
  sourceTop : Option String
  sourceEnd : Option String
  headerTop : Option String
  headerEnd : Option String
  deriving DecidableEq, Repr, Inhabited

/-- A truth value: `true`, `on`, `yes` and `1`, and their opposites, in any case. -/
def truthValue? (value : String) : Option Bool :=
  let word := String.ofList (value.toList.map Ascii.lowerChar)
  if ["true", "on", "yes", "1"].contains word then some true
  else if ["false", "off", "no", "0"].contains word then some false
  else none

/-- The type that a flag `extra-type=T` gives, without quotes round it. -/
def extraTypeFlag? (flag : String) : Option String :=
  (dropStart? "extra-type=".toList (trimmed flag).toList).map fun type =>
    unquoted (String.ofList type)

namespace Options

/-- The options of a rule text that sets none. -/
def default : Options where
  lineno := false
  reentrant := false
  minimize := true
  helperName := "ruilex"
  extra := []
  flags := []
  sourceTop := none
  sourceEnd := none
  headerTop := none
  headerEnd := none

/-- One more extra field; its name must be new. -/
def addExtra (options : Options) (field : ExtraField) (origin : Origin) :
    Except OptionError Options :=
  if options.extra.any fun other => other.name == field.name then
    .error ⟨OptionKey.extra.name, origin, .declaredTwice field.name⟩
  else .ok { options with extra := options.extra ++ [field] }

/-- The field that a flag declares, if it declares one. -/
def addFlagField (options : Options) (flag : String) (origin : Origin) :
    Except OptionError Options :=
  match extraTypeFlag? flag with
  | none => .ok options
  | some type =>
    match ExtraField.checked "extra" type origin with
    | .error e => .error e
    | .ok field => options.addExtra field origin

def addTo (options : Options) (key : OptionKey) (value : String) (origin : Origin) :
    Except OptionError Options :=
  match key with
  | .extra =>
    match ExtraField.ofSpec value origin with
    | .error e => .error e
    | .ok field => options.addExtra field origin
  | .flag =>
    (options.addFlagField value origin).map fun options =>
      { options with flags := options.flags ++ [value] }
  | _ => .error ⟨key.name, origin, .scalarOnly⟩

/-- The truth value of a switch. -/
def switch (key : OptionKey) (value : String) (origin : Origin) : Except OptionError Bool :=
  match truthValue? value with
  | some b => .ok b
  | none => .error ⟨key.name, origin, .notTruthValue value⟩

/-- The options after a call, and the error of the call. -/
structure Update where
  options : Options
  error? : Option OptionError
  deriving DecidableEq, Repr

/-- A call that changes nothing when it fails. -/
def attempt (options : Options) : Except OptionError Options → Update
  | .ok changed => ⟨changed, none⟩
  | .error e => ⟨options, some e⟩

/-- Sets an option. -/
def setKey (options : Options) (key : OptionKey) (value : String) (origin : Origin) : Update :=
  match key with
  | .lineno => options.attempt
      ((switch key value origin).map fun b => { options with lineno := b })
  | .reentrant => options.attempt
      ((switch key value origin).map fun b => { options with reentrant := b })
  | .minimize => options.attempt
      ((switch key value origin).map fun b => { options with minimize := b })
  | .helperName =>
    if Ascii.isIdentifier value then ⟨{ options with helperName := value }, none⟩
    else ⟨options, some ⟨key.name, origin, .notIdentifier value⟩⟩
  | .sourceTop => ⟨{ options with sourceTop := some value }, none⟩
  | .sourceEnd => ⟨{ options with sourceEnd := some value }, none⟩
  | .headerTop => ⟨{ options with headerTop := some value }, none⟩
  | .headerEnd => ⟨{ options with headerEnd := some value }, none⟩
  | .extra =>
    let cleared := { options with extra := [] }
    cleared.attempt (cleared.addTo .extra value origin)
  | .flag =>
    let cleared := { options with flags := [] }
    cleared.attempt (cleared.addTo .flag value origin)

/-- Sets the option of a name: a scalar to the value, a list to the value alone. -/
def set (options : Options) (name value : String) (origin : Origin) : Update :=
  match OptionKey.ofName? name with
  | some key => options.setKey key value origin
  | none => ⟨options, some ⟨name, origin, .unrecognized⟩⟩

def add (options : Options) (name value : String) (origin : Origin) : Update :=
  match OptionKey.ofName? name with
  | some key => options.attempt (options.addTo key value origin)
  | none => ⟨options, some ⟨name, origin, .unrecognized⟩⟩

/-- The result of a call as a success or an error. -/
def Update.toExcept (update : Update) : Except OptionError Options :=
  match update.error? with
  | none => .ok update.options
  | some e => .error e

end Options

end ScannerGen
