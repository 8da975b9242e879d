/-!
# Binary64 numbers

The numbers of the language are the 64-bit binary floating-point data, kept as their bits, so that
equality is equality of data: the two zeros differ, and so do two NaNs. The magnitude (the low 63
bits) orders the non-negative data, and each finite datum is a whole multiple of the smallest
positive one, 2⁻¹⁰⁷⁴; `units` is that multiple.
-/
namespace Abacus

structure Binary64 where
  bits : UInt64
  deriving DecidableEq, Repr, Inhabited

namespace Binary64

/-- One binade of magnitudes: two to the number of fraction bits. -/
def binade : Nat := 0x10000000000000

/-- The smallest positive number is two to minus this power. -/
def unitPower : Nat := 1074

/-- How many of the smallest positive number make one. -/
def unitsPerOne : Nat := Nat.pow 2 unitPower

/-- The magnitude of infinity; greater magnitudes are NaNs. -/
def infinityMagnitude : Nat := 2047 * binade

def signBit : UInt64 := 0x8000000000000000

def signWeight : Nat := 0x8000000000000000

def isNegative (x : Binary64) : Bool := x.bits ≥ signBit

def magnitude (x : Binary64) : Nat := x.bits.toNat % signWeight

def isNaN (x : Binary64) : Bool := x.magnitude > infinityMagnitude

def isInfinite (x : Binary64) : Bool := x.magnitude = infinityMagnitude

def isFinite (x : Binary64) : Bool := x.magnitude < infinityMagnitude

/-- The datum with a sign and a magnitude. -/
def ofMagnitude (negative : Bool) (magnitude : Nat) : Binary64 :=
  ⟨UInt64.ofNat (if negative then signWeight + magnitude else magnitude)⟩

def zero : Binary64 := ⟨0⟩

/-- The NaN that stands for all of them where only one is wanted. -/
def quietNaN : Binary64 := ⟨0x7ff8000000000000⟩

/-- Changes the sign, whatever the datum is. -/
def negate (x : Binary64) : Binary64 := ⟨x.bits ^^^ signBit⟩

/-- The finite value of a magnitude as a multiple of 2⁻¹⁰⁷⁴. -/
def unitsOf (magnitude : Nat) : Nat :=
  let exponent := magnitude / binade
  let fraction := magnitude % binade
  if exponent = 0 then fraction else (binade + fraction) * Nat.pow 2 (exponent - 1)

def units (x : Binary64) : Nat := unitsOf x.magnitude

/-- The quotient rounded to the nearest whole number, a half to the even one. -/
def roundedQuotient (numerator denominator : Nat) : Nat :=
  let quotient := numerator / denominator
  let twice := 2 * (numerator % denominator)
  if denominator < twice || (twice = denominator && quotient % 2 = 1) then quotient + 1
  else quotient

/-- The binary exponent that leaves a significand of at most 53 bits. -/
def surplusBits (wholeUnits : Nat) : Nat :=
  if wholeUnits < 2 * binade then 0 else wholeUnits.log2 - 52

/-- The magnitude nearest to a non-negative fraction, a tie going to the even one, and infinity
from the midpoint above the largest finite value on. Rounding up to the next power of two needs
no care: adding one to the largest significand of a binade gives the first of the next. -/
def nearestMagnitude (numerator denominator : Nat) : Nat :=
  let scaled := numerator * unitsPerOne
  let surplus := surplusBits (scaled / denominator)
  min infinityMagnitude (surplus * binade + roundedQuotient scaled (denominator * Nat.pow 2 surplus))

/-- The non-negative datum nearest to a fraction. -/
def nearest (numerator denominator : Nat) : Binary64 :=
  ofMagnitude false (nearestMagnitude numerator denominator)

def ofInt (n : Int) : Binary64 :=
  if n < 0 then (nearest n.natAbs 1).negate else nearest n.natAbs 1

end Binary64

/-- The operations that a machine performs on numbers. What the machine does with their results
does not depend on which operations they are. -/
structure Arithmetic where
  add : Binary64 → Binary64 → Binary64
  subtract : Binary64 → Binary64 → Binary64
  multiply : Binary64 → Binary64 → Binary64
  divide : Binary64 → Binary64 → Binary64
  negate : Binary64 → Binary64

namespace Arithmetic

/-- Applies an operation of the processor to data given by their bits. -/
def onBits (f : Float → Float → Float) (a b : Binary64) : Binary64 :=
  ⟨(f (Float.ofBits a.bits) (Float.ofBits b.bits)).toBits⟩

/-- Floating-point arithmetic with rounding to nearest. -/
def floatingPoint : Arithmetic where
  add := onBits (· + ·)
  subtract := onBits (· - ·)
  multiply := onBits (· * ·)
  divide := onBits (· / ·)
  negate := Binary64.negate

end Arithmetic

end Abacus
