import Abacus.Number.Binary64
import Abacus.Number.Radix

/-!
# Decimals

A decimal is a whole number times a power of ten. Reading one gives the nearest binary64 number;
`shortest` goes the other way and gives, of the decimals with the fewest digits that read back as
a given number, the one nearest to it. On the grid of decimals with a fixed number of digits only
the two neighbours of the number need be tried: if any point of the grid reads back, one of the
two does, because the numbers that read back form an interval around it.
-/
namespace Abacus

structure Decimal where
  digits : Nat
  exponent : Int
  deriving DecidableEq, Repr

namespace Decimal

def magnitude (d : Decimal) : Nat :=
  if d.exponent < 0 then Binary64.nearestMagnitude d.digits (Nat.pow 10 d.exponent.natAbs)
  else Binary64.nearestMagnitude (d.digits * Nat.pow 10 d.exponent.natAbs) 1

/-- The number that a row of ASCII digits stands for. -/
def wholeNumber (s : Bytes) : Nat := digitsValue 10 (s.reverse.map fun b => b.toNat - 0x30)

/-- The decimal that a literal such as `12.50` denotes. -/
def ofLiteral (s : Bytes) : Decimal :=
  let parts := Bytes.cut 0x2e s
  ⟨wholeNumber (parts.1 ++ parts.2), -(parts.2.length : Int)⟩

def readLiteral (s : Bytes) : Binary64 := Binary64.ofMagnitude false (ofLiteral s).magnitude

/-- Digits, and a fraction of digits behind a point if there is a point. -/
def isNumeral (s : Bytes) : Bool :=
  !(s.takeWhile isDigit).isEmpty &&
    match s.dropWhile isDigit with
    | [] => true
    | point :: places => point == 0x2e && !places.isEmpty && places.all isDigit

/-- The value of a literal that is a numeral. However large it is, it has one. -/
def readLiteral? (s : Bytes) : Option Binary64 := if isNumeral s then some (readLiteral s) else none

def exact (magnitude : Nat) : Decimal :=
  ⟨Binary64.unitsOf magnitude * Nat.pow 5 Binary64.unitPower, -Binary64.unitPower⟩

/-- The number of decimal digits; zero has one. -/
def digitCount (n : Nat) : Nat := (Nat.toDigits 10 n).length

/-- The least whole number that is rounded to infinity. -/
def overflowLimit : Nat := Nat.pow 2 1024 - Nat.pow 2 970

/-- Whether a decimal is below the least one that rounds to infinity. The size of its exponent is
looked at first, so that no power is formed that is much larger than the limit or the digits. -/
def isFinite (d : Decimal) : Bool :=
  if d.digits = 0 then true
  else if 308 < d.exponent then false
  else if 0 ≤ d.exponent then d.digits * Nat.pow 10 d.exponent.toNat < overflowLimit
  else
    let places := d.exponent.natAbs
    d.digits.log2 < places || d.digits < overflowLimit * Nat.pow 10 places

/-- The power of ten of the leading digit of a positive finite magnitude. Multiplied by 10³²⁴ even
the smallest one has a whole part, whose digits can be counted. -/
def leadingPower (magnitude : Nat) : Int :=
  (digitCount (Binary64.unitsOf magnitude * Nat.pow 10 324 / Binary64.unitsPerOne) : Int) - 325

/-- The whole number of steps of 10^`power` in a magnitude, twice what is left of the next step,
and the size of a step, the last two in the same unit. -/
def steps (magnitude : Nat) (power : Int) : Nat × Nat × Nat :=
  let numerator := Binary64.unitsOf magnitude * Nat.pow 10 (-power).toNat
  let denominator := Binary64.unitsPerOne * Nat.pow 10 power.toNat
  (numerator / denominator, 2 * (numerator % denominator), denominator)

/-- Of the two neighbours of a magnitude on the grid of steps of 10^`power`, the nearer one that
reads back. -/
def neighbour? (magnitude : Nat) (power : Int) : Option Decimal :=
  let (below, twiceRest, step) := steps magnitude power
  let down : Decimal := ⟨below, power⟩
  let up : Decimal := ⟨below + 1, power⟩
  let downReads := down.magnitude = magnitude
  let upReads := up.magnitude = magnitude
  let preferDown := twiceRest < step || (twiceRest = step && below % 2 = 0)
  if downReads ∧ (preferDown ∨ ¬ upReads) then some down
  else if upReads then some up
  else none

/-- Seventeen digits always suffice to tell a number from all others. -/
def mostDigits : Nat := 17

/-- The shortest decimal that reads back as a positive finite magnitude. -/
def shortest (magnitude : Nat) : Decimal :=
  let leading := leadingPower magnitude
  ((List.range mostDigits).findSome? fun (count : Nat) =>
    neighbour? magnitude (leading - (count : Int))).getD (exact magnitude)

/-- Moves trailing zeros of the digits into the exponent, at most `fuel` of them. -/
def dropZeros : Nat → Decimal → Decimal
  | 0, d => d
  | fuel + 1, d =>
    if d.digits ≠ 0 ∧ d.digits % 10 = 0 then dropZeros fuel ⟨d.digits / 10, d.exponent + 1⟩ else d

/-- The same decimal without trailing zeros among its digits. -/
def normal (d : Decimal) : Decimal := dropZeros (digitCount d.digits) d

end Decimal

end Abacus
