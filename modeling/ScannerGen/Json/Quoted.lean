import ScannerGen.Json.Fault
import ScannerGen.Text.Utf8

/-!
# Strings of JSON documents

A string stands between double quotes.  Control characters have to be escaped, a character
beyond 16 bits is escaped as a pair of surrogates, and the bytes have to be UTF-8.

* `string` reads a string behind its opening quote, `skipString` only looks for its end and
  minds neither surrogates nor UTF-8.
* `quote` writes a string.
-/

namespace ScannerGen.Json

/-! ## Escapes -/

/-- The escapes of one letter. -/
def letterEscapes : List (UInt8 × UInt8) :=
  [(Ascii.quote, Ascii.quote), (Ascii.backslash, Ascii.backslash), (Ascii.slash, Ascii.slash),
   (Ascii.letterB, Ascii.backspace), (Ascii.letterF, Ascii.formFeed),
   (Ascii.letterN, Ascii.newline), (Ascii.letterR, Ascii.carriageReturn),
   (Ascii.letterT, Ascii.tab)]

def hexEscape (text : List UInt8) : Except Located (Nat × List UInt8) :=
  if text.length < 4 then .error ⟨.endInString, []⟩
  else if (text.take 4).all Ascii.isHexDigit then
    .ok (Ascii.numeral 16 (text.take 4), text.drop 4)
  else .error ⟨.invalidEscape, text.drop 4⟩

theorem hexEscape_shorter {text rest : List UInt8} {n : Nat}
    (read : hexEscape text = .ok (n, rest)) : rest.length < text.length := by
  unfold hexEscape at read
  grind

/-- One byte that has to stand next inside a hexadecimal escape of two parts. -/
def expectInEscape (b : UInt8) (text : List UInt8) : Except Located (List UInt8) :=
  match text with
  | [] => .error ⟨.endInString, []⟩
  | c :: rest => if c = b then .ok rest else .error ⟨.endOfHexEscape, rest⟩

theorem expectInEscape_shorter {b : UInt8} {text rest : List UInt8}
    (read : expectInEscape b text = .ok rest) : rest.length < text.length := by
  unfold expectInEscape at read
  grind

/-- The beginning of the second part of a hexadecimal escape. -/
def secondPart (text : List UInt8) : Except Located (List UInt8) :=
  match expectInEscape Ascii.backslash text with
  | .error located => .error located
  | .ok more => expectInEscape Ascii.letterU more

theorem secondPart_shorter {text rest : List UInt8} (read : secondPart text = .ok rest) :
    rest.length < text.length := by
  unfold secondPart at read
  grind [→ expectInEscape_shorter]

/-- The character of a hexadecimal escape, given the text after its `u`: one unit of 16 bits,
or a leading and a trailing surrogate. -/
def unicodeEscape (text : List UInt8) : Except Located (Char × List UInt8) :=
  match hexEscape text with
  | .error located => .error located
  | .ok (first, rest) =>
    if 0xdc00 ≤ first ∧ first ≤ 0xdfff then .error ⟨.loneSurrogate, rest⟩
    else if first < 0xd800 ∨ 0xdbff < first then .ok (Char.ofNat first, rest)
    else
      match secondPart rest with
      | .error located => .error located
      | .ok more =>
        match hexEscape more with
        | .error located => .error located
        | .ok (second, after) =>
          if second < 0xdc00 ∨ 0xdfff < second then .error ⟨.loneSurrogate, after⟩
          else .ok (Char.ofNat ((first - 0xd800) * 1024 + (second - 0xdc00) + 0x10000), after)

theorem unicodeEscape_shorter {text rest : List UInt8} {c : Char}
    (read : unicodeEscape text = .ok (c, rest)) : rest.length < text.length := by
  unfold unicodeEscape at read
  grind [→ hexEscape_shorter, → secondPart_shorter]

/-- The bytes of an escape, given the text after its backslash. -/
def escape (text : List UInt8) : Except Located (List UInt8 × List UInt8) :=
  match text with
  | [] => .error ⟨.endInString, []⟩
  | b :: rest =>
    match letterEscapes.lookup b with
    | some c => .ok ([c], rest)
    | none =>
      if b = Ascii.letterU then
        match unicodeEscape rest with
        | .error located => .error located
        | .ok (c, more) => .ok (String.utf8EncodeChar c, more)
      else .error ⟨.invalidEscape, rest⟩

/-- An escape whose character does not matter. -/
def skipEscape (text : List UInt8) : Except Located (List UInt8) :=
  match text with
  | [] => .error ⟨.endInString, []⟩
  | b :: rest =>
    if (letterEscapes.lookup b).isSome then .ok rest
    else if b = Ascii.letterU then
      match hexEscape rest with
      | .error located => .error located
      | .ok (_, more) => .ok more
    else .error ⟨.invalidEscape, rest⟩

theorem escape_shorter {text rest bytes : List UInt8} (read : escape text = .ok (bytes, rest)) :
    rest.length < text.length := by
  unfold escape at read
  grind [→ unicodeEscape_shorter]

theorem skipEscape_shorter {text rest : List UInt8} (read : skipEscape text = .ok rest) :
    rest.length < text.length := by
  unfold skipEscape at read
  grind [→ hexEscape_shorter]

/-! ## Strings -/

/-- The bytes of a string up to its closing quote. -/
def stringBytes (text : List UInt8) : Except Located (List UInt8 × List UInt8) :=
  match text with
  | [] => .error ⟨.endInString, []⟩
  | b :: rest =>
    if b = Ascii.quote then .ok ([], rest)
    else if b = Ascii.backslash then
      match _read : escape rest with
      | .error located => .error located
      | .ok (bytes, more) => (stringBytes more).map fun (others, after) => (bytes ++ others, after)
    else if b < 0x20 then .error ⟨.controlCharacter, rest⟩
    else (stringBytes rest).map fun (others, after) => (b :: others, after)
termination_by text.length
decreasing_by
  · have := escape_shorter _read
    simp only [List.length_cons]
    omega
  · simp

def string : Reader String := fun text =>
  match stringBytes text with
  | .error located => .error located
  | .ok (bytes, rest) =>
    match decode? bytes with
    | some s => .ok (s, rest)
    | none => .error ⟨.invalidCodePoint, rest⟩

/-- The rest of the text after a string, given the text after its opening quote. -/
def skipString (text : List UInt8) : Except Located (List UInt8) :=
  match text with
  | [] => .error ⟨.endInString, []⟩
  | b :: rest =>
    if b = Ascii.quote then .ok rest
    else if b = Ascii.backslash then
      match _read : skipEscape rest with
      | .error located => .error located
      | .ok more => skipString more
    else if b < 0x20 then .error ⟨.controlCharacter, b :: rest⟩
    else skipString rest
termination_by text.length
decreasing_by
  · have := skipEscape_shorter _read
    simp only [List.length_cons]
    omega
  · simp

/-! ## Writing -/

def quotedChar (c : Char) : String :=
  if c = '\x22' then "\\\""
  else if c = '\x5c' then "\\\\"
  else if c = '\x08' then "\\b"
  else if c = '\t' then "\\t"
  else if c = '\n' then "\\n"
  else if c = '\x0c' then "\\f"
  else if c = '\x0d' then "\\r"
  else if c < ' ' then
    String.ofList ['\x5c', 'u', '0', '0', Ascii.hexDigit (c.toNat / 16),
      Ascii.hexDigit (c.toNat % 16)]
  else String.singleton c

def quote (text : String) : String := s!"\"{String.join (text.toList.map quotedChar)}\""

end ScannerGen.Json
