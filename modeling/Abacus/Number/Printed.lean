import Abacus.Number.Decimal

/-!
# Printed numbers

A number is printed with the fewest digits that read back. The format record says which decimal
exponents are written out with a point and how an exponent is written otherwise; there is one
format, `NumberFormat.result`.
-/
namespace Abacus

structure NumberFormat where
  /-- The least exponent of a leading digit that is written with a point. -/
  leastPositional : Int
  /-- Leading digits of this power of ten and above get an exponent. -/
  positionalBelow : Int
  /-- The least number of digits of an exponent. -/
  exponentDigits : Nat
  notANumber : Bytes
  infinity : Bytes

namespace NumberFormat

/-- Results have an exponent below 10⁻⁴ and from 10⁶ on, with a sign and two digits at least. -/
def result : NumberFormat where
  leastPositional := -4
  positionalBelow := 6
  exponentDigits := 2
  notANumber := text "nan"
  infinity := text "inf"

/-- Digits with a point after the first one, then the exponent. -/
def scientific (f : NumberFormat) (digits : Bytes) (power : Int) : Bytes :=
  let fraction := digits.drop 1
  digits.take 1 ++ (if fraction.isEmpty then [] else byte '.' :: fraction) ++ text "e"
    ++ (if power < 0 then text "-" else text "+")
    ++ Bytes.padLeft f.exponentDigits (byte '0') (decimal power.natAbs)

/-- Digits with a point where the exponent says, filled up with zeros on either side. -/
def positional (digits : Bytes) (power : Int) : Bytes :=
  if power < 0 then
    text "0." ++ Bytes.fill (power.natAbs - 1) (byte '0') ++ digits
  else
    let whole := power.toNat + 1
    let fraction := digits.drop whole
    digits.take whole ++ Bytes.fill (whole - digits.length) (byte '0')
      ++ (if fraction.isEmpty then [] else byte '.' :: fraction)

def decimal (f : NumberFormat) (d : Decimal) : Bytes :=
  let digits := Abacus.decimal d.digits
  let power := (digits.length : Int) + d.exponent - 1
  if power < f.leastPositional ∨ f.positionalBelow ≤ power then f.scientific digits power
  else positional digits power

def magnitude (f : NumberFormat) (m : Nat) : Bytes :=
  if m = 0 then text "0" else f.decimal (Decimal.shortest m).normal

/-- Any number. The sign of a NaN is not printed, that of a zero is. -/
def print (f : NumberFormat) (x : Binary64) : Bytes :=
  if x.isNaN then f.notANumber
  else
    (if x.isNegative then text "-" else [])
      ++ (if x.isInfinite then f.infinity else f.magnitude x.magnitude)

end NumberFormat

def Binary64.print (x : Binary64) : Bytes := NumberFormat.result.print x

end Abacus
