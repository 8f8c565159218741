import ScannerGen.Pattern.Lexeme
import ScannerGen.Pattern.Macros
import ScannerGen.Proofs.Pattern.Language

/-!
# The grammar of patterns

What a pattern text may look like, and what tree it stands for, said apart from the reader.  Every
relation of this module holds between a text, the rest of it behind what was derived, and the value
of the part between them.  Where a longer reading is possible it is the one that counts, so some
rules look at the rest.

* `Escape`, `Literal`, `ClassText`, `CountText`, `IsName` — the rules below the lexemes.
* `Derives` — the rules above them: alternation, concatenation, repetition, atom, and the complete
  pattern that a text or the fragment of a macro has to be.  The tree follows the derivation.
* `flat` — a tree without sequences in sequences and alternations in alternations, whose states are
  what is counted; `language_flat` says that it matches the same strings.
-/

namespace ScannerGen.Pattern

/-! ## Flat trees -/

mutual

/-- The tree with sequences inside sequences, and alternations inside alternations, taken apart. -/
def flat : Pattern → Pattern
  | .empty => .empty
  | .set bytes => .set bytes
  | .seq ps => seqOf (flatParts ps)
  | .alt ps => altOf (flatBranches ps)
  | .rep body min max => .rep (flat body) min max

def flatParts : List Pattern → List Pattern
  | [] => []
  | p :: ps => (flat p).parts ++ flatParts ps

def flatBranches : List Pattern → List Pattern
  | [] => []
  | p :: ps => (flat p).branches ++ flatBranches ps

end

theorem language_flat (p : Pattern) : p.flat.language = p.language := by
  induction p with
  | empty => rfl
  | set bytes => rfl
  | seq ps ih =>
    rw [flat, language_seqOf, language_seq]
    induction ps with
    | nil => rfl
    | cons p ps ihTail =>
      obtain ⟨head, tail⟩ := List.forall_mem_cons.1 ih
      rw [flatParts, List.map_append, List.prod_append, language_parts, head, ihTail tail,
        List.map_cons, List.prod_cons]
  | alt ps ih =>
    rw [flat, language_altOf, language_alt]
    induction ps with
    | nil => rfl
    | cons p ps ihTail =>
      obtain ⟨head, tail⟩ := List.forall_mem_cons.1 ih
      rw [flatBranches, List.map_append, List.sum_append, language_branches, head, ihTail tail,
        List.map_cons, List.sum_cons]
  | rep body min max ih => rw [flat, language_rep, ih, language_rep]

/-! ## Escapes and literals -/

/-- A text does not go on with a byte of a kind. -/
def Stops (kind : UInt8 → Bool) (rest : List UInt8) : Prop := ∀ b ∈ rest.head?, kind b = false

/-- A digit run of at most `limit` digits that could not be longer. -/
structure DigitRun (isDigit : UInt8 → Bool) (limit : Nat) (digits rest : List UInt8) : Prop where
  nonempty : digits ≠ []
  all : ∀ d ∈ digits, isDigit d = true
  length_le : digits.length ≤ limit
  whole : digits.length = limit ∨ Stops isDigit rest

/-- What follows a backslash, and the byte that it stands for. -/
inductive Escape : List UInt8 → List UInt8 → UInt8 → Prop
  | letter {b control : UInt8} {rest : List UInt8} (listed : (b, control) ∈ letterEscapes) :
    Escape (b :: rest) rest control
  | hexadecimal {digits rest : List UInt8} (run : DigitRun Ascii.isHexDigit 2 digits rest) :
    Escape (Ascii.letterX :: (digits ++ rest)) rest (UInt8.ofNat (Ascii.numeral 16 digits))
  | octal {digits rest : List UInt8} (run : DigitRun Ascii.isOctalDigit 3 digits rest)
    (fits : Ascii.numeral 8 digits ≤ 255) :
    Escape (digits ++ rest) rest (UInt8.ofNat (Ascii.numeral 8 digits))
  | plain {b : UInt8} {rest : List UInt8} (unlisted : ∀ control, (b, control) ∉ letterEscapes)
    (notHex : b ≠ Ascii.letterX) (notOctal : Ascii.isOctalDigit b = false) :
    Escape (b :: rest) rest b

/-- What follows an opening quote, and the bytes up to the closing one. -/
inductive Literal : List UInt8 → List UInt8 → List UInt8 → Prop
  | close {rest : List UInt8} : Literal (Ascii.quote :: rest) rest []
  | escaped {text more rest bytes : List UInt8} {b : UInt8} (escape : Escape text more b)
    (others : Literal more rest bytes) : Literal (Ascii.backslash :: text) rest (b :: bytes)
  | byte {b : UInt8} {text rest bytes : List UInt8} (notQuote : b ≠ Ascii.quote)
    (notBackslash : b ≠ Ascii.backslash) (others : Literal text rest bytes) :
    Literal (b :: text) rest (b :: bytes)

/-! ## Classes -/

/-- One end of a range, or a single member. -/
inductive ClassByte : List UInt8 → List UInt8 → UInt8 → Prop
  | escaped {text rest : List UInt8} {b : UInt8} (escape : Escape text rest b) :
    ClassByte (Ascii.backslash :: text) rest b
  | plain {b : UInt8} {rest : List UInt8} (notBackslash : b ≠ Ascii.backslash)
    (narrow : Ascii.isWide b = false) : ClassByte (b :: rest) rest b

/-- A minus sign that makes a range: something follows it that does not close the class. -/
def RangeAhead (text : List UInt8) : Prop :=
  ∃ b rest, text = Ascii.minus :: b :: rest ∧ b ≠ Ascii.closeBracket

/-- The members of a class up to its closing bracket, as ranges.  A bracket that comes first is a
member. -/
inductive ClassItems : Bool → List UInt8 → List UInt8 → List (UInt8 × UInt8) → Prop
  | close {rest : List UInt8} : ClassItems false (Ascii.closeBracket :: rest) rest []
  | single {first : Bool} {text more rest : List UInt8} {b : UInt8} {items : List (UInt8 × UInt8)}
    (goesOn : first = true ∨ text.head? ≠ some Ascii.closeBracket) (member : ClassByte text more b)
    (alone : ¬ RangeAhead more) (others : ClassItems false more rest items) :
    ClassItems first text rest ((b, b) :: items)
  | range {first : Bool} {text more after rest : List UInt8} {lo hi : UInt8}
    {items : List (UInt8 × UInt8)}
    (goesOn : first = true ∨ text.head? ≠ some Ascii.closeBracket)
    (low : ClassByte text (Ascii.minus :: more) lo) (notLast : more.head? ≠ some Ascii.closeBracket)
    (high : ClassByte more after hi) (ordered : lo ≤ hi) (others : ClassItems false after rest items) :
    ClassItems first text rest ((lo, hi) :: items)

/-- Whether a byte lies in one of some ranges. -/
def inRanges (items : List (UInt8 × UInt8)) (b : UInt8) : Bool :=
  items.any fun (lo, hi) => decide (lo ≤ b) && decide (b ≤ hi)

/-- What follows an opening bracket, and the set that the class denotes, which has a member. -/
inductive ClassText : List UInt8 → List UInt8 → ByteSet → Prop
  | listed {text rest : List UInt8} {items : List (UInt8 × UInt8)} {bytes : ByteSet}
    (unmarked : text.head? ≠ some Ascii.caret) (members : ClassItems true text rest items)
    (denotes : ∀ b, bytes.contains b = inRanges items b) (inhabited : ∃ b, bytes.contains b = true) :
    ClassText text rest bytes
  | negated {text rest : List UInt8} {items : List (UInt8 × UInt8)} {bytes : ByteSet}
    (members : ClassItems true text rest items)
    (denotes : ∀ b, bytes.contains b = !inRanges items b)
    (inhabited : ∃ b, bytes.contains b = true) : ClassText (Ascii.caret :: text) rest bytes

/-! ## Names, counts and signs -/

/-- The names that a reference can have. -/
def IsName (name : String) : Prop := name ≠ "" ∧ ∀ b ∈ utf8 name, Ascii.isNameByte b = true

/-- Digits that write a count, and the count. -/
structure CountDigits (digits : List UInt8) (n : Nat) : Prop where
  nonempty : digits ≠ []
  all : ∀ d ∈ digits, Ascii.isDigit d = true
  value : Ascii.numeral 10 digits = n
  small : n ≤ maxCount

/-- What follows the opening brace of a count, and its bounds. -/
inductive CountText : List UInt8 → List UInt8 → Nat → Option Nat → Prop
  | exactly {digits rest : List UInt8} {n : Nat} (count : CountDigits digits n) :
    CountText (digits ++ Ascii.closeBrace :: rest) rest n (some n)
  | atLeast {digits rest : List UInt8} {n : Nat} (count : CountDigits digits n) :
    CountText (digits ++ Ascii.comma :: Ascii.closeBrace :: rest) rest n none
  | between {lower upper rest : List UInt8} {m n : Nat} (least : CountDigits lower m)
    (most : CountDigits upper n) (ordered : m ≤ n) :
    CountText (lower ++ Ascii.comma :: (upper ++ Ascii.closeBrace :: rest)) rest m (some n)

/-- A repetition sign and its bounds. -/
inductive Sign : List UInt8 → List UInt8 → Nat → Option Nat → Prop
  | star {rest : List UInt8} : Sign (Ascii.star :: rest) rest 0 none
  | plus {rest : List UInt8} : Sign (Ascii.plus :: rest) rest 1 none
  | question {rest : List UInt8} : Sign (Ascii.question :: rest) rest 0 (some 1)
  | count {text rest : List UInt8} {min : Nat} {max : Option Nat}
    (bounds : CountText text rest min max) : Sign (Ascii.openBrace :: text) rest min max

/-- A brace that begins a count, because a digit follows it. -/
def CountAhead (text : List UInt8) : Prop :=
  ∃ d rest, text = Ascii.openBrace :: d :: rest ∧ Ascii.isDigit d = true

/-! ## Patterns -/

/-- The bytes that do not stand for themselves. -/
def specialBytes : List UInt8 :=
  [Ascii.openParen, Ascii.closeParen, Ascii.bar, Ascii.dot, Ascii.star, Ascii.plus, Ascii.question,
   Ascii.openBracket, Ascii.quote, Ascii.backslash, Ascii.openBrace]

/-- What there are rules for. -/
inductive Nonterminal where
  | alternation
  | concatenation
  | repetition
  | atom
  | complete

/-- The derivations, each with the macros being expanded, a text, the rest of the text behind what
is derived, and the tree of the derivation. -/
inductive Derives (macros : MacroTable) :
    Nonterminal → List String → List UInt8 → List UInt8 → Pattern → Prop
  | branch {chain : List String} {text rest : List UInt8} {p : Pattern}
    (only : Derives macros .concatenation chain text rest p) :
    Derives macros .alternation chain text rest (.alt [p])
  | branches {chain : List String} {text more rest : List UInt8} {p : Pattern} {ps : List Pattern}
    (first : Derives macros .concatenation chain text (Ascii.bar :: more) p)
    (others : Derives macros .alternation chain more rest (.alt ps)) :
    Derives macros .alternation chain text rest (.alt (p :: ps))
  | item {chain : List String} {text rest : List UInt8} {p : Pattern}
    (only : Derives macros .repetition chain text rest p) :
    Derives macros .concatenation chain text rest (.seq [p])
  | items {chain : List String} {text more rest : List UInt8} {p : Pattern} {ps : List Pattern}
    (first : Derives macros .repetition chain text more p) (noCount : ¬ CountAhead more)
    (others : Derives macros .concatenation chain more rest (.seq ps)) :
    Derives macros .concatenation chain text rest (.seq (p :: ps))
  | once {chain : List String} {text rest : List UInt8} {p : Pattern}
    (atom : Derives macros .atom chain text rest p) : Derives macros .repetition chain text rest p
  | repeated {chain : List String} {text more rest : List UInt8} {p : Pattern} {min : Nat}
    {max : Option Nat} (body : Derives macros .repetition chain text more p)
    (sign : Sign more rest min max) (small : (flat (.rep p min max)).stateBound ≤ maxStates) :
    Derives macros .repetition chain text rest (.rep p min max)
  | group {chain : List String} {text rest : List UInt8} {p : Pattern}
    (inside : Derives macros .alternation chain text (Ascii.closeParen :: rest) p) :
    Derives macros .atom chain (Ascii.openParen :: text) rest p
  | charClass {chain : List String} {text rest : List UInt8} {bytes : ByteSet}
    (members : ClassText text rest bytes) :
    Derives macros .atom chain (Ascii.openBracket :: text) rest (.set bytes)
  | literal {chain : List String} {text rest bytes : List UInt8} (quoted : Literal text rest bytes) :
    Derives macros .atom chain (Ascii.quote :: text) rest (.seq (bytes.map byte))
  | reference {chain : List String} {rest : List UInt8} {name : String} {m : Macro} {p : Pattern}
    (isName : IsName name) (fresh : name ∉ chain) (defined : macros.find? name = some m)
    (fragment : Derives macros .complete (chain ++ [name]) (utf8 m.fragment) [] p) :
    Derives macros .atom chain (Ascii.openBrace :: (utf8 name ++ Ascii.closeBrace :: rest)) rest p
  | dot {chain : List String} {rest : List UInt8} :
    Derives macros .atom chain (Ascii.dot :: rest) rest (.set .dot)
  | escaped {chain : List String} {text rest : List UInt8} {b : UInt8} (escape : Escape text rest b) :
    Derives macros .atom chain (Ascii.backslash :: text) rest (byte b)
  | byte {chain : List String} {rest : List UInt8} {b : UInt8} (ordinary : b ∉ specialBytes) :
    Derives macros .atom chain (b :: rest) rest (byte b)
  | complete {chain : List String} {text : List UInt8} {p : Pattern}
    (all : Derives macros .alternation chain text [] p) (small : p.flat.stateBound ≤ maxStates) :
    Derives macros .complete chain text [] p

end ScannerGen.Pattern
