/-!
# Where a declaration stands

Rules, definitions and options remember the line of the rule text that declared them.  What
is declared by a program, or read from a format without lines, has none.
-/

namespace ScannerGen

/-- The line of a declaration, counted from one, if it has one. -/
structure Origin where
  line : Option Nat
  deriving DecidableEq, Repr, Inhabited

namespace Origin

def api : Origin := ⟨none⟩

def atLine (n : Nat) : Origin := ⟨some n⟩

def text : Origin → String
  | ⟨some n⟩ => s!"line {n}"
  | ⟨none⟩ => "<api>"

end Origin

/-- A token named in a message: its place in the declaration order, its identifier and the
line that declared it. -/
structure TokenRef where
  index : Nat
  ident : String
  origin : Origin
  deriving DecidableEq, Repr, Inhabited

def TokenRef.describe (t : TokenRef) : String := s!"token #{t.index} `{t.ident}` ({t.origin.text})"

end ScannerGen
