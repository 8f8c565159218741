import ScannerGen.Code.Item
import ScannerGen.Options

/-!
# The state of a generated scanner

A scanner with global state keeps it in variables; a reentrant one keeps the same fields, with
a suffix, in a structure.  The extra fields of the user stand behind those of the scanner.

While the body of a reentrant scanner is compiled, each name of the state is a macro for the
member that holds it.
-/

namespace ScannerGen.Emit

open Code

/-- A field of every scanner: how it is declared and what it begins with. -/
structure StateField where
  declarator : Declarator
  value : String
  deriving DecidableEq, Repr, Inhabited

/-- Whether only the scanner itself uses a field, which its name tells. -/
def StateField.isPrivate (field : StateField) : Bool :=
  "yy_".toList.isPrefixOf field.declarator.name.toList

def stateFields : List StateField :=
  [⟨⟨"FILE*", "yyin"⟩, "0"⟩,
   ⟨⟨"char*", "yytext"⟩, "0"⟩,
   ⟨⟨"int", "yyleng"⟩, "0"⟩,
   ⟨⟨"int", "yylineno"⟩, "1"⟩,
   ⟨⟨"char*", "yy_buf"⟩, "0"⟩,
   ⟨⟨"size_t", "yy_len"⟩, "0"⟩,
   ⟨⟨"size_t", "yy_cap"⟩, "0"⟩,
   ⟨⟨"size_t", "yy_pos"⟩, "0"⟩,
   ⟨⟨"int", "yy_loaded"⟩, "0"⟩,
   ⟨⟨"size_t", "yy_text_cap"⟩, "0"⟩]

def extraDeclarators (options : Options) : List Declarator :=
  options.extra.map fun field => ⟨field.type, field.name⟩

def stateDeclarators (options : Options) : List Declarator :=
  stateFields.map StateField.declarator ++ extraDeclarators options

/-- The member of the state structure that holds a field. -/
def memberName (name : String) : String := s!"{name}_r"

def member (d : Declarator) : Declarator := ⟨d.type, memberName d.name⟩

def globalState (options : Options) : List Item :=
  stateFields.map (fun field => .global field.isPrivate field.declarator (some field.value)) ++
    (extraDeclarators options).map (fun d => .global false d none) ++ [.blank]

def stateStruct (options : Options) : List Item :=
  [.struct "yyguts_t" ((stateDeclarators options).map member), .blank]

/-- The macros that name the members inside the body. -/
def openState (options : Options) : List Item :=
  (stateDeclarators options).map
      (fun d => .define d.name (some s!"yyg->{memberName d.name}")) ++ [.blank]

def closeState (options : Options) : List Item :=
  (stateDeclarators options).map (fun d => .undefine d.name) ++ [.blank]

end ScannerGen.Emit
