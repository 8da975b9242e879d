import Abacus.Number.Binary64

/-!
# Narrow floating-point formats

Half and single precision are the same kind of data as binary64 with fewer bits: a magnitude
below the one of infinity is a whole multiple of the smallest positive number. Widening is exact.
Narrowing is allowed only where widening gives the number back, which is how it is defined.
-/
namespace Abacus

structure SmallFloat where
  fractionBits : Nat
  exponentBits : Nat
  /-- The smallest positive number is two to minus this power. -/
  unitPower : Nat

namespace SmallFloat

def half : SmallFloat := ⟨10, 5, 24⟩

def single : SmallFloat := ⟨23, 8, 149⟩

def binade (f : SmallFloat) : Nat := Nat.pow 2 f.fractionBits

def infinityMagnitude (f : SmallFloat) : Nat := (Nat.pow 2 f.exponentBits - 1) * f.binade

/-- The sign bit of the format as a number. -/
def signWeight (f : SmallFloat) : Nat := Nat.pow 2 (f.exponentBits + f.fractionBits)

/-- The finite value of a magnitude as a multiple of the smallest positive number. -/
def unitsOf (f : SmallFloat) (magnitude : Nat) : Nat :=
  let exponent := magnitude / f.binade
  let fraction := magnitude % f.binade
  if exponent = 0 then fraction else (f.binade + fraction) * Nat.pow 2 (exponent - 1)

/-- The magnitude of a whole multiple of the smallest positive number, rounded down. -/
def magnitudeOf (f : SmallFloat) (units : Nat) : Nat :=
  let surplus := if units < 2 * f.binade then 0 else units.log2 - f.fractionBits
  surplus * f.binade + units / Nat.pow 2 surplus

/-- The binary64 magnitude of a magnitude of the format. -/
def widenMagnitude (f : SmallFloat) (magnitude : Nat) : Nat :=
  if magnitude < f.infinityMagnitude then
    Binary64.nearestMagnitude (f.unitsOf magnitude) (Nat.pow 2 f.unitPower)
  else if magnitude = f.infinityMagnitude then Binary64.infinityMagnitude
  else Binary64.quietNaN.magnitude

/-- The binary64 number of a datum of the format. -/
def widen (f : SmallFloat) (datum : Nat) : Binary64 :=
  Binary64.ofMagnitude (f.signWeight ≤ datum) (f.widenMagnitude (datum % f.signWeight))

/-- The magnitude of the format that a binary64 magnitude has, if it has one. -/
def narrowMagnitude? (f : SmallFloat) (magnitude : Nat) : Option Nat :=
  if magnitude = Binary64.infinityMagnitude then some f.infinityMagnitude
  else
    let candidate := f.magnitudeOf (Binary64.unitsOf magnitude / Nat.pow 2 (Binary64.unitPower - f.unitPower))
    if candidate < f.infinityMagnitude ∧ f.widenMagnitude candidate = magnitude then
      some candidate
    else none

/-- The datum of the format that is exactly a binary64 number other than a NaN. -/
def narrow? (f : SmallFloat) (x : Binary64) : Option Nat :=
  (f.narrowMagnitude? x.magnitude).map fun m => if x.isNegative then f.signWeight + m else m

end SmallFloat

end Abacus
