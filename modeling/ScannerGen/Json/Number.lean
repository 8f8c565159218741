import ScannerGen.Json.Fault

/-!
# Numbers of JSON documents

An integer is kept as it is while 64 bits hold it.  Every other number becomes a binary
fraction: its digits up to 64 bits, scaled by a power of ten, with one rounding for the digits
and one for the scaling.
-/

namespace ScannerGen.Json

def maxNatural : Nat := 0xffffffffffffffff

def maxPower : Nat := 0x7fffffff

/-- The greatest power of ten that one scaling step uses. -/
def maxScale : Int := 308

/-- The digits at the front of a text, appended to a number as long as it stays within a
limit: the number, how many digits were taken, and the rest. -/
def takeDigits (limit value count : Nat) : List UInt8 → Nat × Nat × List UInt8
  | [] => (value, count, [])
  | b :: rest =>
    if Ascii.isDigit b then
      let extended := value * 10 + Ascii.digitValue b
      if limit < extended then (value, count, b :: rest)
      else takeDigits limit extended (count + 1) rest
    else (value, count, b :: rest)

def beginsWithDigit (text : List UInt8) : Bool := text.head?.any Ascii.isDigit

/-- Whether a text begins with the sign of an exponent. -/
def beginsWithPower (text : List UInt8) : Bool :=
  text.head? == some 0x65 || text.head? == some 0x45

/-- Scales a magnitude by a power of ten, at most `maxScale` a step; none when the result is
too great. -/
def scale : Nat → Binary64 → Int → Option Binary64
  | 0, x, _ => some x
  | fuel + 1, x, power =>
    if 0 ≤ power ∧ power ≤ maxScale then
      (Binary64.ofNat? (Nat.pow 10 power.toNat)).bind x.mul
    else if -maxScale ≤ power ∧ power < 0 then
      (Binary64.ofNat? (Nat.pow 10 (-power).toNat)).bind x.div
    else if x.isZero then some x
    else if 0 ≤ power then none
    else
      ((Binary64.ofNat? (Nat.pow 10 maxScale.toNat)).bind x.div).bind fun y =>
        scale fuel y (power + maxScale)

/-- The number `digits * 10 ^ power`, at the end of its text. -/
def scaled (isNegative : Bool) (digits : Nat) (power : Int) : Reader Number := fun rest =>
  match (Binary64.ofNat? digits).bind fun x => scale 4 x power with
  | some x => .ok (.float isNegative x, rest)
  | none => .error ⟨.numberOutOfRange, rest⟩

/-- The text after the sign of an exponent, and whether the exponent is negative. -/
def exponentSign (text : List UInt8) : Bool × List UInt8 :=
  if text.head? = some Ascii.minus then (true, text.tail)
  else if text.head? = some Ascii.plus then (false, text.tail)
  else (false, text)

/-- The exponent of a number, given the text after its letter. -/
def exponentPart (isNegative : Bool) (digits : Nat) (power : Int) : Reader Number := fun text =>
  let (down, text) := exponentSign text
  match text with
  | [] => .error ⟨.endInValue, []⟩
  | b :: rest =>
    if Ascii.isDigit b then
      let (exponent, _, more) := takeDigits maxPower (Ascii.digitValue b) 1 rest
      if beginsWithDigit more then
        -- An exponent of more than 31 bits decides the number by itself.
        if digits ≠ 0 ∧ down = false then .error ⟨.numberOutOfRange, more.drop 1⟩
        else .ok (.float isNegative .zero, more.dropWhile Ascii.isDigit)
      else scaled isNegative digits (if down then power - exponent else power + exponent) more
    else .error ⟨.invalidNumber, rest⟩

/-- What may follow the digits of a number that is no integer. -/
def afterDigits (isNegative : Bool) (digits : Nat) (power : Int) : Reader Number := fun rest =>
  if beginsWithPower rest then exponentPart isNegative digits power rest.tail
  else scaled isNegative digits power rest

/-- The fraction of a number, given the text after its point. -/
def fractionPart (isNegative : Bool) (digits : Nat) (power : Int) : Reader Number := fun text =>
  let (digits, count, rest) := takeDigits maxNatural digits 0 text
  if beginsWithDigit rest then
    afterDigits isNegative digits (power - count) (rest.dropWhile Ascii.isDigit)
  else if count = 0 then
    .error ⟨if rest = [] then .endInValue else .invalidNumber, rest.drop 1⟩
  else afterDigits isNegative digits (power - count) rest

/-- An integer that nothing follows. -/
def integerValue (isNegative : Bool) (n : Nat) : Number :=
  if isNegative = false then .natural n
  else if n = 0 ∨ 0x8000000000000000 < n then .float true ((Binary64.ofNat? n).getD .zero)
  else .negative n

/-- What may follow the digits of an integer. -/
def afterInteger (isNegative : Bool) (digits : Nat) (power : Int) (whole : Bool) :
    Reader Number := fun rest =>
  if rest.head? = some Ascii.dot then fractionPart isNegative digits power rest.tail
  else if beginsWithPower rest then exponentPart isNegative digits power rest.tail
  else if whole then .ok (integerValue isNegative digits, rest)
  else scaled isNegative digits power rest

/-- A number, given the text after its sign. -/
def unsignedNumber (isNegative : Bool) : Reader Number := fun text =>
  match text with
  | [] => .error ⟨.endInValue, []⟩
  | b :: rest =>
    if b = Ascii.zero then
      if beginsWithDigit rest then .error ⟨.invalidNumber, rest.drop 1⟩
      else afterInteger isNegative 0 0 true rest
    else if Ascii.isDigit b then
      let (digits, _, more) := takeDigits maxNatural (Ascii.digitValue b) 1 rest
      let beyond := more.takeWhile Ascii.isDigit
      afterInteger isNegative digits beyond.length beyond.isEmpty (more.drop beyond.length)
    else .error ⟨.invalidNumber, rest⟩

def beginsWithNumber (text : List UInt8) : Bool :=
  text.head? == some Ascii.minus || beginsWithDigit text

def number : Reader Number := fun text =>
  if text.head? = some Ascii.minus then unsignedNumber true text.tail
  else unsignedNumber false text

/-! ## Numbers that do not matter -/

/-- The rest of the text after an exponent, given the text after its letter. -/
def skipExponent (text : List UInt8) : Except Located (List UInt8) :=
  let rest := (exponentSign text).2
  if beginsWithDigit rest then .ok (rest.dropWhile Ascii.isDigit)
  else .error ⟨.invalidNumber, rest.drop 1⟩

def skipNumber (text : List UInt8) : Except Located (List UInt8) :=
  let text := if text.head? = some Ascii.minus then text.tail else text
  let more := text.dropWhile Ascii.isDigit
  if beginsWithDigit text = false then .error ⟨.invalidNumber, text.drop 1⟩
  else if text.head? = some Ascii.zero ∧ beginsWithDigit text.tail then
    .error ⟨.invalidNumber, text.drop 2⟩
  else if more.head? = some Ascii.dot then
    let rest := more.tail.dropWhile Ascii.isDigit
    if beginsWithDigit more.tail = false then .error ⟨.invalidNumber, more.drop 2⟩
    else if beginsWithPower rest then skipExponent rest.tail
    else .ok rest
  else if beginsWithPower more then skipExponent more.tail
  else .ok more

end ScannerGen.Json
