import ScannerGen.Emit.Interface
import ScannerGen.Token

/-!
# The header of a generated scanner

The header defines the codes of the tokens and declares what the source defines for others:
its functions and, with global state, its variables.
-/

namespace ScannerGen.Emit

open Code

/-- The macro that guards a header, from the base name: letters in upper case, digits, and an
underscore for anything else.  It never begins with a digit. -/
def guard (base : String) : String :=
  let chars := base.toList.map fun c =>
    if Ascii.isAlphaChar c || Ascii.isDigitChar c then Ascii.upperChar c else '_'
  let start := match chars with
    | c :: _ => if Ascii.isDigitChar c then ['_'] else []
    | [] => []
  String.ofList (start ++ chars) ++ "_H"

/-- The codes of all tokens, of the end of input and of a jam. -/
def tokenCodes (tokens : TokenTable) : List Item :=
  .define "TOK_EOF" (some "0") ::
    tokens.tokens.map (fun t => .define t.constant (some (toString t.id))) ++
    [.define "TOK_JAM" (some "(-1)")]

def handleType : List Item :=
  [.ifNotDefined "YY_TYPEDEF_YY_SCANNER_T",
   .define "YY_TYPEDEF_YY_SCANNER_T" none,
   .typeAlias "void*" handle.type,
   .endif none]

def reentrantPrototypes (options : Options) : List Item :=
  [.prototype initSignature] ++
    (if options.extra = [] then [] else [.prototype (initExtraSignature options)]) ++
    [.prototype (destroySignature options),
     .prototype (setter inputPart),
     .prototype (getter inputPart),
     .prototype (getter textPart),
     .prototype (getter lengthPart),
     .prototype (getter linePart),
     .prototype (setter linePart)] ++
    (extraDeclarators options).flatMap (fun d => [.prototype (getter d), .prototype (setter d)]) ++
    [.prototype (lexSignature options)]

/-- The state that every scanner with global state shows to others. -/
def publicState : List Declarator :=
  [⟨"FILE*", "yyin"⟩, ⟨"char*", "yytext"⟩, ⟨"int", "yyleng"⟩, ⟨"int", "yylineno"⟩]

def globalPrototypes (options : Options) : List Item :=
  (publicState ++ extraDeclarators options).map .externVariable ++
    [.prototype (lexSignature options), .prototype (destroySignature options)]

def userText : Option String → List Item
  | some text => [.verbatim text]
  | none => []

def headerItems (base : String) (tokens : TokenTable) (options : Options) : List Item :=
  userText options.headerTop ++
    [.ifNotDefined (guard base), .define (guard base) none, .blank, .includeSystem "stdio.h", .blank] ++
    tokenCodes tokens ++
    [.blank, .comment "Name of a token id, e.g. \"TOK_EOF\".", .prototype (nameSignature options),
     .blank] ++
    (if options.reentrant then handleType ++ [.blank] ++ reentrantPrototypes options
     else globalPrototypes options) ++
    [.blank, .endif (some (guard base))] ++
    userText options.headerEnd

end ScannerGen.Emit
