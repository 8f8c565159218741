import ScannerGen.Tables
import ScannerGen.Text.Quoted
import ScannerGen.Token

/-!
# Scanning with tables

The reference scanner: at each position it takes the longest match, and goes on behind it.
It keeps the line by counting the newlines of those tokens that can contain any.  Where nothing
matches it stops with a report that shows the bytes around the position.

* `Tables.longestMatch` is the match at the front of an input.
* `Tables.scan` cuts an input into lexemes.
-/

namespace ScannerGen

structure Lexeme where
  token : Nat
  start : Nat
  length : Nat
  /-- The line that the lexeme begins on, counted from one. -/
  line : Nat
  deriving DecidableEq, Repr, Inhabited

/-- A position where nothing matches. -/
structure Jam where
  position : Nat
  line : Nat
  deriving DecidableEq, Repr, Inhabited

namespace Tables

/-! ## The longest match -/

/-- Goes on from a state after `length` bytes, with the best match so far. -/
def longestFrom (t : Tables) (state length : Nat) (best : Option (Nat × Nat)) :
    List UInt8 → Option (Nat × Nat)
  | [] => best
  | b :: rest =>
    let state := t.step state b
    if state = t.reject then best
    else
      let best := match t.token? state with
        | some token => some (token, length + 1)
        | none => best
      t.longestFrom state (length + 1) best rest

/-- The token and length of the longest match at the front of an input.  It is never empty. -/
def longestMatch (t : Tables) (input : List UInt8) : Option (Nat × Nat) :=
  t.longestFrom t.start 0 none input

theorem longestFrom_bounds {t : Tables} {state length : Nat} {best : Option (Nat × Nat)}
    {input : List UInt8} {token n : Nat}
    (sofar : ∀ token n, best = some (token, n) → 0 < n ∧ n ≤ length)
    (found : t.longestFrom state length best input = some (token, n)) :
    0 < n ∧ n ≤ length + input.length := by
  induction input generalizing state length best with
  | nil =>
    have := sofar token n found
    simpa using this
  | cons b rest ih =>
    simp only [longestFrom] at found
    split at found
    · have := sofar token n found
      simp only [List.length_cons]
      omega
    · have step := @ih _ (length + 1) _ (fun token n h => by
        split at h
        · simp only [Option.some.injEq, Prod.mk.injEq] at h
          omega
        · have := sofar token n h
          omega) found
      simp only [List.length_cons]
      omega

/-- A match takes a byte at least and the input at most. -/
theorem longestMatch_bounds {t : Tables} {input : List UInt8} {token n : Nat}
    (found : t.longestMatch input = some (token, n)) : 0 < n ∧ n ≤ input.length := by
  have := @longestFrom_bounds t t.start 0 none input token n (by simp) found
  omega

/-! ## Scanning -/

/-- The newlines of a match, counted for tokens that can contain any. -/
def newlines (t : Tables) (token : Nat) (text : List UInt8) : Nat :=
  if t.endsLine token then text.count Ascii.newline else 0

/-- The lexemes of the rest of an input from a position and line on. -/
def scanFrom (t : Tables) (position line : Nat) (input : List UInt8) :
    Except Jam (List Lexeme) :=
  match input with
  | [] => .ok []
  | b :: rest =>
    match _found : t.longestMatch (b :: rest) with
    | none => .error ⟨position, line⟩
    | some (token, n) =>
      (t.scanFrom (position + n) (line + t.newlines token ((b :: rest).take n))
        ((b :: rest).drop n)).map fun lexemes => ⟨token, position, n, line⟩ :: lexemes
termination_by input.length
decreasing_by
  have := longestMatch_bounds _found
  simp only [List.length_drop, List.length_cons] at *
  omega

def scan (t : Tables) (input : List UInt8) : Except Jam (List Lexeme) := t.scanFrom 0 1 input

end Tables

/-- The lexemes whose tokens are not ignored. -/
def TokenTable.kept (tokens : TokenTable) (lexemes : List Lexeme) : List Lexeme :=
  lexemes.filter fun l => !((tokens.get? l.token).map Token.ignored).getD false

/-! ## Reports -/

namespace Jam

/-- How many bytes are shown on either side. -/
def reach : Nat := 16

/-- A byte as the report shows it: a dot for what has no glyph in ASCII. -/
def shownByte (b : UInt8) : Char :=
  if 0x20 ≤ b && b ≤ 0x7e || b == Ascii.newline || b == Ascii.tab || b == Ascii.carriageReturn then
    Char.ofNat b.toNat
  else '\u00b7'

/-- Where the shown bytes begin. -/
def contextStart (jam : Jam) : Nat := jam.position - reach

def context (jam : Jam) (input : List UInt8) : String :=
  String.ofList (((input.take (jam.position + reach)).drop jam.contextStart).map shownByte)

def hexByte (b : UInt8) : String :=
  String.ofList [Ascii.upperHexDigit (b.toNat / 16), Ascii.upperHexDigit (b.toNat % 16)]

/-- The report.  The end of the range is reckoned from the length of the shown text. -/
def message (jam : Jam) (input : List UInt8) : String :=
  let b := input.getD jam.position 0
  let shown := jam.context input
  s!"no rule matches at byte {jam.position} (line {jam.line}, " ++
    s!"char {charLiteral (Char.ofNat b.toNat)}, 0x{hexByte b}); " ++
    s!"context [{jam.contextStart}..{jam.contextStart + shown.utf8ByteSize}):\n{shown}"

end Jam

end ScannerGen
