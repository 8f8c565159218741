import ScannerGen.Origin
import ScannerGen.Text.Ascii

/-!
# Tokens

A rule text declares tokens; `Declaration` is one as declared, `Token` one whose identifier,
rank and numeric id are settled.

* `Category` is the closed list of token categories.
* `TokenTable` is the settled tokens in the order of their declarations.
* `TokenTable.categoryIds` lists identifiers and ids by category.
-/

namespace ScannerGen

/-! ## Categories -/

inductive Category where
  | comment
  | const
  | keyword
  | longop
  | op
  | punct
  | space
  | ident
  | string
  | custom
  | error
  | unknown
  deriving DecidableEq, Repr, Inhabited

namespace Category

def all : List Category :=
  [comment, const, keyword, longop, op, punct, space, ident, string, custom, error, unknown]

def name : Category → String
  | comment => "comment"
  | const => "const"
  | keyword => "keyword"
  | longop => "longop"
  | op => "op"
  | punct => "punct"
  | space => "space"
  | ident => "ident"
  | string => "string"
  | custom => "custom"
  | error => "error"
  | unknown => "unknown"

def ofName? (word : String) : Option Category := all.find? fun c => c.name == word

/-- The identifier of a token that is declared without one. -/
def defaultIdent (c : Category) : String := String.ofList (c.name.toList.map Ascii.upperChar)

end Category

/-! ## Declarations and tokens -/

/-- A token as declared.  Without a pattern it is the catch-all: it matches any single byte
when nothing else matches. -/
structure Declaration where
  pattern : Option String
  category : Category
  ident : Option String
  id : Option Nat
  action : Option String
  ignored : Bool
  origin : Origin
  deriving DecidableEq, Repr, Inhabited

namespace Declaration

def ofCategory (category : Category) (pattern : Option String) (origin : Origin) : Declaration :=
  ⟨pattern, category, none, none, none, false, origin⟩

/-- The declared identifier, or else that of the category. -/
def resolvedIdent (d : Declaration) : String := d.ident.getD d.category.defaultIdent

/-- How messages refer to the declaration at a place of the order. -/
def ref (d : Declaration) (index : Nat) : TokenRef := ⟨index, d.resolvedIdent, d.origin⟩

end Declaration

structure Token where
  /-- The place in the order of declarations. -/
  index : Nat
  /-- The rank among tokens that match equally much; the lower one wins. -/
  priority : Nat
  pattern : Option String
  category : Category
  ident : String
  id : Nat
  action : Option String
  ignored : Bool
  origin : Origin
  deriving DecidableEq, Repr, Inhabited

namespace Token

def isCatchAll (t : Token) : Bool := t.pattern.isNone

def ref (t : Token) : TokenRef := ⟨t.index, t.ident, t.origin⟩

def describe (t : Token) : String := t.ref.describe

def constant (t : Token) : String := s!"TOK_{t.ident}"

end Token

/-! ## Tables of tokens -/

/-- The settled tokens of a scanner, in the order of their declarations. -/
structure TokenTable where
  tokens : List Token
  deriving DecidableEq, Repr, Inhabited

/-- Categories with the identifiers and ids of their tokens. -/
abbrev CategoryIds := List (Category × List (String × Nat))

/-- Adds a token to the list of its category, which is put at the end if it is not there. -/
def CategoryIds.add (ids : CategoryIds) (t : Token) : CategoryIds :=
  match ids with
  | [] => [(t.category, [(t.ident, t.id)])]
  | (category, entries) :: rest =>
    if category = t.category then (category, entries ++ [(t.ident, t.id)]) :: rest
    else (category, entries) :: CategoryIds.add rest t

namespace TokenTable

def size (table : TokenTable) : Nat := table.tokens.length

def get? (table : TokenTable) (index : Nat) : Option Token := table.tokens[index]?

/-- Identifiers and ids by category: categories in the order of their first tokens, tokens in
the order of their declarations. -/
def categoryIds (table : TokenTable) : CategoryIds := table.tokens.foldl CategoryIds.add []

end TokenTable

end ScannerGen
