import ScannerGen.Emit.State

/-!
# The functions of a generated scanner

The signatures of the functions that source and header agree on.  A reentrant scanner takes a
handle in each of its functions, and has functions to make a handle and to reach its state.
-/

namespace ScannerGen.Emit

open Code

def handle : Declarator := ⟨"yyscan_t", "yyscanner"⟩

/-- Where a new handle is put. -/
def handleResult : Declarator := ⟨"yyscan_t*", "yyscanner"⟩

def initSignature : Signature := ⟨"int", "yylex_init", [handleResult]⟩

/-- Makes a handle whose extra fields have values. -/
def initExtraSignature (options : Options) : Signature :=
  ⟨"int", "yylex_init_extra", extraDeclarators options ++ [handleResult]⟩

/-- The parameters of the functions that both kinds of scanners have. -/
def commonParameters (options : Options) : List Declarator :=
  if options.reentrant then [handle] else []

def lexSignature (options : Options) : Signature := ⟨"int", "yylex", commonParameters options⟩

def destroySignature (options : Options) : Signature :=
  ⟨"int", "yylex_destroy", commonParameters options⟩

def nameSignature (options : Options) : Signature :=
  ⟨"const char*", s!"{options.helperName}_token_id", [⟨"int", "id"⟩]⟩

def getter (d : Declarator) : Signature := ⟨d.type, s!"yyget_{d.name}", [handle]⟩

def setter (d : Declarator) : Signature :=
  ⟨"void", s!"yyset_{d.name}", [⟨d.type, "yyvalue"⟩, handle]⟩

/-- The parts of the state that have both a getter and a setter, as they are called there. -/
def inputPart : Declarator := ⟨"FILE*", "in"⟩

def linePart : Declarator := ⟨"int", "lineno"⟩

/-- The parts of the state that have a getter only. -/
def textPart : Declarator := ⟨"char*", "text"⟩

def lengthPart : Declarator := ⟨"int", "leng"⟩

end ScannerGen.Emit
