import ScannerGen.Decimal.Binary64

/-!
# The shortest decimal of a magnitude

A magnitude is written with the fewest digits that read back as the same number, and of those
decimals the nearest; of two that are equally near, the one with an even last digit.  Every
decimal strictly between the midpoints to the neighbours reads back, and the midpoints do when
the mantissa is even.

* `Decimal.shortest` finds digits and exponent, in exact arithmetic.
* `Decimal.text` lays them out: positional from five places behind the point up to sixteen
  before it, always with a point there, and beyond that with an exponent that has a sign.
-/

namespace ScannerGen

/-- The number `digits * 10 ^ exponent`. -/
structure Decimal where
  digits : Nat
  exponent : Int
  deriving DecidableEq, Repr, Inhabited

namespace Decimal

/-- Whether `a / b ≤ c / d`, or `<` if `strict`. -/
def below (strict : Bool) (a b c d : Nat) : Bool :=
  if strict then a * d < c * b else a * d ≤ c * b

def ratio (x : Decimal) : Nat × Nat :=
  if 0 ≤ x.exponent then (x.digits * Nat.pow 10 x.exponent.toNat, 1)
  else (x.digits, Nat.pow 10 (-x.exponent).toNat)

/-- Whether a decimal reads back as a magnitude. -/
def readsAs (x : Decimal) (v : Binary64) : Bool :=
  let (n, d) := x.ratio
  let strict := v.mantissa % 2 == 1
  -- In quarters of the last place, the interval reaches two up, and two down except at a
  -- power of two, where the numbers below are twice as dense.
  let quarters : Binary64 := ⟨4 * v.mantissa, v.exponent - 2⟩
  let down := if v.mantissa = Nat.pow 2 52 ∧ Binary64.minExponent < v.exponent then 1 else 2
  let (lowN, lowD) := { quarters with mantissa := quarters.mantissa - down }.ratio
  let (highN, highD) := { quarters with mantissa := quarters.mantissa + 2 }.ratio
  below strict lowN lowD n d && below strict n d highN highD

/-- How many times `10 ^ e` a magnitude is, as a quotient. -/
def inMultiplesOf (e : Int) (v : Binary64) : Nat × Nat :=
  let (n, d) := v.ratio
  if 0 ≤ e then (n, d * Nat.pow 10 e.toNat) else (n * Nat.pow 10 (-e).toNat, d)

/-- The two neighbours of a magnitude on the grid of the multiples of `10 ^ e`. -/
def neighbours (v : Binary64) (e : Int) : Decimal × Decimal :=
  let (n, d) := inMultiplesOf e v
  (⟨n / d, e⟩, ⟨n / d + 1, e⟩)

/-- Whether a magnitude is rounded down on a grid: its lower neighbour is the nearer one, or
both are equally near and the lower one is the even multiple. -/
def roundsDown (v : Binary64) (e : Int) : Bool :=
  let (n, d) := inMultiplesOf e v
  2 * (n % d) < d || (2 * (n % d) == d && n / d % 2 == 0)

/-- The neighbour on a grid that reads back; if both do, the one that the magnitude is rounded
to. -/
def onGrid? (v : Binary64) (e : Int) : Option Decimal :=
  let (low, high) := neighbours v e
  match low.readsAs v, high.readsAs v with
  | true, true => some (if roundsDown v e then low else high)
  | true, false => some low
  | false, true => some high
  | false, false => none

/-- The decimal exponent of the first digit of a magnitude that is not zero, as tried from a
guess upwards. -/
def firstExponent (v : Binary64) : Int :=
  let (n, d) := v.ratio
  let digitCount (k : Nat) : Int := (toString k).length
  let guess := digitCount n - digitCount d
  -- The quotient has its first digit at the guess or one place below.
  let reached := if 0 ≤ guess then d * Nat.pow 10 guess.toNat ≤ n else d ≤ n * Nat.pow 10 (-guess).toNat
  if reached then guess else guess - 1

/-- A decimal without zeros at its end. -/
def stripZeros (x : Decimal) : Nat → Decimal
  | 0 => x
  | fuel + 1 =>
    if x.digits ≠ 0 ∧ x.digits % 10 = 0 then
      stripZeros ⟨x.digits / 10, x.exponent + 1⟩ fuel
    else x

/-- The shortest decimal that reads back, the nearest of those, and of two equally near ones the
one with an even last digit.  Seventeen digits always read back. -/
def shortest (v : Binary64) : Decimal :=
  let first := firstExponent v
  let found := (List.range 17).findSome? fun (n : Nat) => onGrid? v (first - n)
  (found.getD ⟨0, 0⟩).stripZeros 20

def exponentText (e : Int) : String := if 0 ≤ e then s!"e+{e}" else s!"e{e}"

def text (v : Binary64) : String :=
  if v.isZero then "0.0"
  else
    let x := shortest v
    let digits := (toString x.digits).toList
    let point : Int := digits.length + x.exponent
    let zeros (n : Nat) : List Char := List.replicate n '0'
    if 0 ≤ x.exponent ∧ point ≤ 16 then
      String.ofList (digits ++ zeros x.exponent.toNat ++ ['.', '0'])
    else if 0 < point ∧ point ≤ 16 then
      String.ofList (digits.take point.toNat ++ '.' :: digits.drop point.toNat)
    else if -5 < point ∧ point ≤ 0 then
      String.ofList (['0', '.'] ++ zeros (-point).toNat ++ digits)
    else
      let fraction := match digits.drop 1 with
        | [] => []
        | rest => '.' :: rest
      String.ofList (digits.take 1 ++ fraction) ++ exponentText (point - 1)

end Decimal

end ScannerGen
