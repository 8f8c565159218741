import ScannerGen.Pattern
import ScannerGen.Pattern.Error
import ScannerGen.Text.Utf8

/-!
# The lexemes of a pattern

A pattern text is cut into lexemes: operands (a byte, a class, a quoted literal), references
to macros, parentheses, bars, and repetition signs.  The reader remembers one thing, whether
an operand has just ended, because an opening brace begins a count there and a reference
everywhere else.

Every lexeme is kept with the rest of the text from where it begins, which tells its
position.  A fault is a lexeme as well, the last one, so that what reads the lexemes meets the
first fault of the text first, whatever its kind.

Each reader of this module returns less than it was given (`..._shorter`), so cutting a text
into lexemes ends.
-/

namespace ScannerGen.Pattern

/-- A fault, and the rest of the text from the place it is reported at. -/
structure Located where
  fault : Fault
  suffix : List UInt8
  deriving Repr

inductive Lexeme where
  | operand (tree : Pattern)
  | reference (name : String)
  | opening
  | closing
  | bar
  | times (sign : UInt8) (min : Nat) (max : Option Nat)
  | fault (fault : Fault)
  deriving Inhabited

/-- A lexeme and the rest of the text from its first byte. -/
structure Placed where
  lexeme : Lexeme
  suffix : List UInt8
  deriving Inhabited

/-! ## Escapes -/

/-- The digits at the front of a text, at most `count` of them. -/
def leading (isDigit : UInt8 → Bool) (count : Nat) (text : List UInt8) : List UInt8 :=
  (text.take count).takeWhile isDigit

/-- The letters that stand for a control character after a backslash. -/
def letterEscapes : List (UInt8 × UInt8) :=
  [(Ascii.letterN, Ascii.newline), (Ascii.letterT, Ascii.tab),
   (Ascii.letterR, Ascii.carriageReturn), (Ascii.letterV, Ascii.verticalTab),
   (Ascii.letterF, Ascii.formFeed), (Ascii.letterA, Ascii.bell),
   (Ascii.letterB, Ascii.backspace)]

/-- The byte written after a backslash: a letter escape, one or two hexadecimal digits after
`x`, up to three octal digits, or the byte itself. -/
def escape (text : List UInt8) : Except Fault (UInt8 × List UInt8) :=
  match text with
  | [] => .error .danglingEscape
  | b :: rest =>
    match letterEscapes.lookup b with
    | some control => .ok (control, rest)
    | none =>
      if b = Ascii.letterX then
        let digits := leading Ascii.isHexDigit 2 rest
        if digits.isEmpty then .error .missingHexDigits
        else .ok (UInt8.ofNat (Ascii.numeral 16 digits), rest.drop digits.length)
      else if Ascii.isOctalDigit b then
        let digits := leading Ascii.isOctalDigit 2 rest
        let value := Ascii.numeral 8 (b :: digits)
        if 255 < value then .error .octalTooLarge
        else .ok (UInt8.ofNat value, rest.drop digits.length)
      else .ok (b, rest)

theorem escape_shorter {text rest : List UInt8} {b : UInt8} (read : escape text = .ok (b, rest)) :
    rest.length < text.length := by
  unfold escape at read
  grind

/-! ## Quoted literals -/

/-- The bytes of a literal up to its closing quote.  Only escapes have a meaning inside. -/
def literalBytes (text : List UInt8) : Except Fault (List UInt8 × List UInt8) :=
  match text with
  | [] => .error .unterminatedLiteral
  | b :: rest =>
    if b = Ascii.quote then .ok ([], rest)
    else if b = Ascii.backslash then
      match _read : escape rest with
      | .error fault => .error fault
      | .ok (c, more) =>
        match literalBytes more with
        | .error fault => .error fault
        | .ok (bytes, after) => .ok (c :: bytes, after)
    else
      match literalBytes rest with
      | .error fault => .error fault
      | .ok (bytes, after) => .ok (b :: bytes, after)
termination_by text.length
decreasing_by
  · have := escape_shorter _read
    simp only [List.length_cons]
    omega
  · simp

theorem literalBytes_shorter {text rest : List UInt8} {bytes : List UInt8}
    (read : literalBytes text = .ok (bytes, rest)) : rest.length < text.length := by
  fun_induction literalBytes text generalizing bytes rest with
  | case1 => simp at read
  | case2 => simp at read; simp [read]
  | case3 => simp at read
  | case4 => simp at read
  | case5 after c more escaped bytes' rest' tail _ ih =>
    simp only [Except.ok.injEq, Prod.mk.injEq] at read
    have := escape_shorter escaped
    have := ih tail
    simp only [List.length_cons, ← read.2]
    omega
  | case6 => simp at read
  | case7 b after _ _ bytes' rest' tail ih =>
    simp only [Except.ok.injEq, Prod.mk.injEq] at read
    have := ih tail
    simp only [List.length_cons, ← read.2]
    omega

/-! ## Character classes -/

/-- One byte of a class: an escape or an ASCII byte. -/
def classByte (text : List UInt8) : Except Located (UInt8 × List UInt8) :=
  match text with
  | [] => .error ⟨.unterminatedClass, text⟩
  | b :: rest =>
    if b = Ascii.backslash then
      match escape rest with
      | .error fault => .error ⟨fault, text⟩
      | .ok read => .ok read
    else if Ascii.isWide b then .error ⟨.wideByteInClass, text⟩
    else .ok (b, rest)

theorem classByte_shorter {text rest : List UInt8} {b : UInt8}
    (read : classByte text = .ok (b, rest)) : rest.length < text.length := by
  unfold classByte at read
  split at read
  · simp at read
  · split at read
    · split at read
      · simp at read
      · next escaped =>
        simp only [Except.ok.injEq] at read
        subst read
        have := escape_shorter escaped
        simp only [List.length_cons]
        omega
    · split at read
      · simp at read
      · simp at read
        simp [read]

/-- The text after a minus sign that makes a range: something has to follow it, and that is
not the end of the class. -/
def rangeEnd? (text : List UInt8) : Option (List UInt8) :=
  if text.head? = some Ascii.minus ∧ text.tail ≠ [] ∧
      text.tail.head? ≠ some Ascii.closeBracket then some text.tail
  else none

theorem rangeEnd?_shorter {text rest : List UInt8} (read : rangeEnd? text = some rest) :
    rest.length < text.length := by
  unfold rangeEnd? at read
  cases text <;> grind

/-- The members of a class up to its closing bracket, added to a set.  A bracket that comes
first is a member.  `whole` is the text from the opening bracket. -/
def classMembers (whole : List UInt8) (first : Bool) (members : ByteSet) (text : List UInt8) :
    Except Located (ByteSet × List UInt8) :=
  if text.head? = some Ascii.closeBracket ∧ first = false then .ok (members, text.tail)
  else if text = [] then .error ⟨.unterminatedClass, whole⟩
  else
    match _readLow : classByte text with
    | .error located => .error located
    | .ok (lo, more) =>
      match _range : rangeEnd? more with
      | none => classMembers whole false (members.insert lo) more
      | some bound =>
        match _readHigh : classByte bound with
        | .error located => .error located
        | .ok (hi, after) =>
          if hi < lo then .error ⟨.reversedRange lo hi, text⟩
          else classMembers whole false (members.union (.range lo hi)) after
termination_by text.length
decreasing_by
  · exact classByte_shorter _readLow
  · have := classByte_shorter _readLow
    have := rangeEnd?_shorter _range
    have := classByte_shorter _readHigh
    omega

theorem classMembers_shorter {whole text rest : List UInt8} {first : Bool} {members result : ByteSet}
    (read : classMembers whole first members text = .ok (result, rest)) :
    rest.length < text.length := by
  fun_induction classMembers whole first members text generalizing result rest with
  | case1 first members text closed =>
    simp only [Except.ok.injEq, Prod.mk.injEq] at read
    cases text with
    | nil => simp at closed
    | cons b bs => simp [← read.2]
  | case2 => simp at read
  | case3 => simp at read
  | case4 first members text _ _ lo more readLow _ ih =>
    have := classByte_shorter readLow
    have := ih read
    omega
  | case5 => simp at read
  | case6 => simp at read
  | case7 first members text _ _ lo more readLow bound range hi after readHigh _ ih =>
    have := classByte_shorter readLow
    have := rangeEnd?_shorter range
    have := classByte_shorter readHigh
    have := ih read
    omega

/-- The text without the caret that negates a class. -/
def afterCaret (text : List UInt8) : List UInt8 :=
  if text.head? = some Ascii.caret then text.tail else text

theorem afterCaret_le (text : List UInt8) : (afterCaret text).length ≤ text.length := by
  unfold afterCaret
  split <;> simp

/-- The set of a class, given the text after its opening bracket. -/
def classSet (whole text : List UInt8) : Except Located (ByteSet × List UInt8) :=
  match classMembers whole true .empty (afterCaret text) with
  | .error located => .error located
  | .ok (members, rest) =>
    let result := if text.head? = some Ascii.caret then members.compl else members
    if result.isEmpty then .error ⟨.emptyClass, whole⟩ else .ok (result, rest)

theorem classSet_shorter {whole text rest : List UInt8} {members : ByteSet}
    (read : classSet whole text = .ok (members, rest)) : rest.length < text.length := by
  have := afterCaret_le text
  unfold classSet at read
  grind [→ classMembers_shorter]

/-! ## References and counts -/

/-- The name of a reference, given the text after its opening brace. -/
def referenceName (text : List UInt8) : Except Fault (String × List UInt8) :=
  match text.dropWhile (· != Ascii.closeBrace) with
  | [] => .error .unterminatedReference
  | _ :: rest =>
    let name := text.takeWhile (· != Ascii.closeBrace)
    let shown := (decode? name).getD ""
    if name.isEmpty || !name.all Ascii.isNameByte then .error (.notReference shown)
    else .ok (shown, rest)

theorem length_dropWhile_le (p : UInt8 → Bool) (text : List UInt8) :
    (text.dropWhile p).length ≤ text.length :=
  (List.dropWhile_suffix p).length_le

theorem referenceName_shorter {text rest : List UInt8} {name : String}
    (read : referenceName text = .ok (name, rest)) : rest.length < text.length := by
  unfold referenceName at read
  have := length_dropWhile_le (· != Ascii.closeBrace) text
  split at read
  · simp at read
  · next dropped =>
    rw [dropped] at this
    dsimp only at read
    split at read
    · simp at read
    · simp only [Except.ok.injEq, Prod.mk.injEq] at read
      simp only [List.length_cons, read.2] at this
      omega

/-- The number at the front of a text.  Only counts up to `maxCount` are accepted; a number
that needs more than 32 bits is not taken for a count at all. -/
def countNumber (text : List UInt8) : Except Fault (Nat × List UInt8) :=
  let digits := text.takeWhile Ascii.isDigit
  let value := Ascii.numeral 10 digits
  if digits.isEmpty || 0xffffffff < value then .error .expectedCount
  else if maxCount < value then .error .countTooLarge
  else .ok (value, text.dropWhile Ascii.isDigit)

theorem countNumber_le {text rest : List UInt8} {n : Nat} (read : countNumber text = .ok (n, rest)) :
    rest.length ≤ text.length := by
  unfold countNumber at read
  have := length_dropWhile_le Ascii.isDigit text
  grind

/-- The bounds of a count, given the text after its opening brace: `n}`, `n,}` or `n,m}`. -/
def countBounds (text : List UInt8) : Except Fault (Nat × Option Nat × List UInt8) :=
  match countNumber text with
  | .error fault => .error fault
  | .ok (min, rest) =>
    if rest.head? = some Ascii.closeBrace then .ok (min, some min, rest.tail)
    else if rest.head? = some Ascii.comma then
      if rest.tail.head? = some Ascii.closeBrace then .ok (min, none, rest.tail.tail)
      else
        match countNumber rest.tail with
        | .error fault => .error fault
        | .ok (max, after) =>
          if after.head? ≠ some Ascii.closeBrace then .error .unterminatedCount
          else if max < min then .error (.reversedCount min max)
          else .ok (min, some max, after.tail)
    else .error .malformedCount

theorem tail_shorter {text : List UInt8} {b : UInt8} (first : text.head? = some b) :
    text.tail.length < text.length := by
  cases text with
  | nil => simp at first
  | cons => simp

theorem countBounds_shorter {text rest : List UInt8} {min : Nat} {max : Option Nat}
    (read : countBounds text = .ok (min, max, rest)) : rest.length < text.length := by
  unfold countBounds at read
  split at read
  · simp at read
  · next more first =>
    have := countNumber_le first
    split at read
    · next closed =>
      have := tail_shorter closed
      simp_all
      omega
    · split at read
      · next comma =>
        have := tail_shorter comma
        split at read
        · next closed =>
          have := tail_shorter closed
          simp_all
          omega
        · split at read
          · simp at read
          · next second =>
            have := countNumber_le second
            split at read
            · simp at read
            · split at read
              · simp at read
              · next after _ closed _ =>
                have := tail_shorter (Decidable.not_not.1 closed)
                simp_all
                omega
      · simp at read

/-! ## Lexemes -/

/-- The lexemes of one byte: parentheses, the bar, the full stop and the repetition signs. -/
def oneByteLexemes : List (UInt8 × Lexeme) :=
  [(Ascii.openParen, .opening), (Ascii.closeParen, .closing), (Ascii.bar, .bar),
   (Ascii.dot, .operand (.set .dot)), (Ascii.star, .times Ascii.star 0 none),
   (Ascii.plus, .times Ascii.plus 1 none), (Ascii.question, .times Ascii.question 0 (some 1))]

/-- The first lexeme of a text that is not empty. -/
def lexeme (afterOperand : Bool) (b : UInt8) (rest : List UInt8) :
    Except Located (Lexeme × List UInt8) :=
  match oneByteLexemes.lookup b with
  | some l => .ok (l, rest)
  | none =>
    if b = Ascii.openBracket then
      match classSet (b :: rest) rest with
      | .error located => .error located
      | .ok (members, more) => .ok (.operand (.set members), more)
    else if b = Ascii.quote then
      match literalBytes rest with
      | .error fault => .error ⟨fault, b :: rest⟩
      | .ok (bytes, more) => .ok (.operand (seqOf (bytes.map byte)), more)
    else if b = Ascii.backslash then
      match escape rest with
      | .error fault => .error ⟨fault, b :: rest⟩
      | .ok (c, more) => .ok (.operand (byte c), more)
    else if b = Ascii.openBrace then
      if afterOperand && rest.head?.any Ascii.isDigit then
        match countBounds rest with
        | .error fault => .error ⟨fault, b :: rest⟩
        | .ok (min, max, more) => .ok (.times b min max, more)
      else
        match referenceName rest with
        | .error fault => .error ⟨fault, b :: rest⟩
        | .ok (name, more) => .ok (.reference name, more)
    else .ok (.operand (byte b), rest)

theorem lexeme_shorter {afterOperand : Bool} {b : UInt8} {rest more : List UInt8} {l : Lexeme}
    (read : lexeme afterOperand b rest = .ok (l, more)) : more.length < (b :: rest).length := by
  unfold lexeme at read
  grind [→ classSet_shorter, → literalBytes_shorter, → escape_shorter, → countBounds_shorter,
    → referenceName_shorter]

/-- Whether an operand has just ended after a lexeme. -/
def Lexeme.endsOperand : Lexeme → Bool
  | .operand _ | .reference _ | .closing | .times .. => true
  | .opening | .bar | .fault _ => false

/-- The lexemes of a text, in order; the first fault is the last of them. -/
def lexemes (afterOperand : Bool) (text : List UInt8) : List Placed :=
  match text with
  | [] => []
  | b :: rest =>
    match _read : lexeme afterOperand b rest with
    | .error located => [⟨.fault located.fault, located.suffix⟩]
    | .ok (l, more) => ⟨l, b :: rest⟩ :: lexemes l.endsOperand more
termination_by text.length
decreasing_by exact lexeme_shorter _read

end ScannerGen.Pattern
