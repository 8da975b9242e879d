import Abacus.Number.SmallFloat

/-!
# Narrow numbers keep their value

A binary64 number is its sign and its magnitude. A number that is written in a narrower format is
the widening of what was written, and fits the bits of that format.
-/
namespace Abacus

namespace Binary64

theorem isNegative_iff (x : Binary64) : x.isNegative = true ↔ signWeight ≤ x.bits.toNat := by
  simp only [isNegative, ge_iff_le, decide_eq_true_eq, UInt64.le_iff_toNat_le]
  rfl

theorem ofMagnitude_magnitude (x : Binary64) : ofMagnitude x.isNegative x.magnitude = x := by
  have bound : x.bits.toNat < 2 * signWeight := x.bits.toNat_lt
  have parts :
      (if x.isNegative = true then signWeight + x.magnitude else x.magnitude) = x.bits.toNat := by
    simp only [isNegative_iff, magnitude]
    -- With the sign the bits lie between one and two sign weights, without it below one.
    by_cases sign : signWeight ≤ x.bits.toNat
    · rw [if_pos sign, Nat.mod_eq_sub_mod sign, Nat.mod_eq_of_lt (by omega)]
      omega
    · rw [if_neg sign, Nat.mod_eq_of_lt (by omega)]
  simp [ofMagnitude, parts]

theorem ofMagnitude_parts (negative : Bool) {m : Nat} (small : m < signWeight) :
    (ofMagnitude negative m).magnitude = m ∧ (ofMagnitude negative m).isNegative = negative := by
  have word : (ofMagnitude negative m).bits.toNat = if negative then signWeight + m else m := by
    have whole : 2 ^ 64 = 2 * signWeight := by decide
    rw [ofMagnitude, UInt64.toNat_ofNat', whole]
    apply Nat.mod_eq_of_lt
    split <;> omega
  rw [magnitude, Bool.eq_iff_iff, isNegative_iff, word]
  cases negative
  · simp [Nat.mod_eq_of_lt small, small]
  · simp [Nat.mod_eq_of_lt small]

theorem negate_ofMagnitude {m : Nat} (small : m < signWeight) :
    (ofMagnitude false m).negate = ofMagnitude true m := by
  have power : signWeight = 2 ^ 63 := by decide
  have sign : signBit.toNat = 2 ^ 63 := by decide
  rw [power] at small
  -- The sign bit of the magnitude is clear, so changing it adds its weight.
  have quotient : (m ^^^ 2 ^ 63) / 2 ^ 63 = 1 := by
    rw [Nat.xor_div_two_pow, Nat.div_eq_of_lt small, Nat.div_self (by decide), Nat.zero_xor]
  have rest : (m ^^^ 2 ^ 63) % 2 ^ 63 = m := by
    rw [Nat.xor_mod_two_pow, Nat.mod_self, Nat.mod_eq_of_lt small, Nat.xor_zero]
  have flipped : m ^^^ 2 ^ 63 = signWeight + m := by omega
  simp only [negate, ofMagnitude, if_true, Bool.false_eq_true, if_false, Binary64.mk.injEq,
    ← UInt64.toNat_inj, UInt64.toNat_xor, UInt64.toNat_ofNat', sign, ← flipped]
  rw [Nat.mod_eq_of_lt (by omega), Nat.mod_eq_of_lt (by omega)]

/-- The number with every NaN made the same one. -/
def canonical (x : Binary64) : Binary64 := if x.isNaN then quietNaN else x

@[simp] theorem isNaN_canonical (x : Binary64) : x.canonical.isNaN = x.isNaN := by
  unfold canonical
  split
  · rename_i nan
    rw [nan]
    decide
  · rfl

end Binary64

namespace SmallFloat

theorem infinityMagnitude_lt (f : SmallFloat) : f.infinityMagnitude < f.signWeight := by
  have exponents : 0 < Nat.pow 2 f.exponentBits := Nat.two_pow_pos f.exponentBits
  have fractions : 0 < f.binade := Nat.two_pow_pos f.fractionBits
  have weight : f.signWeight = Nat.pow 2 f.exponentBits * f.binade :=
    Nat.pow_add 2 f.exponentBits f.fractionBits
  rw [weight]
  exact Nat.mul_lt_mul_of_pos_right (by omega) fractions

theorem widenMagnitude_of_narrow {f : SmallFloat} {magnitude narrowed : Nat}
    (found : f.narrowMagnitude? magnitude = some narrowed) :
    f.widenMagnitude narrowed = magnitude ∧ narrowed < f.signWeight := by
  have infinity := f.infinityMagnitude_lt
  simp only [narrowMagnitude?] at found
  split at found
  · -- Infinity is narrowed to infinity without a trial.
    rename_i infinite
    cases found
    exact ⟨by simp [widenMagnitude, infinite], infinity⟩
  · split at found
    · rename_i exact
      cases found
      exact ⟨exact.2, Nat.lt_trans exact.1 infinity⟩
    · cases found

/-- What a number is narrowed to widens to it again. -/
theorem widen_of_narrow {f : SmallFloat} {x : Binary64} {datum : Nat}
    (found : f.narrow? x = some datum) : f.widen datum = x ∧ datum < 2 * f.signWeight := by
  obtain ⟨narrowed, kept, rfl⟩ := Option.map_eq_some_iff.mp found
  obtain ⟨same, fits⟩ := widenMagnitude_of_narrow kept
  cases negative : x.isNegative with
  | false =>
    -- The magnitude is below the sign weight, so it is not taken for a sign.
    have sign : ¬ f.signWeight ≤ narrowed := by omega
    refine ⟨?_, by simp; omega⟩
    rw [← x.ofMagnitude_magnitude, negative]
    simp [widen, sign, Nat.mod_eq_of_lt fits, same]
  | true =>
    refine ⟨?_, by simp; omega⟩
    rw [← x.ofMagnitude_magnitude, negative]
    simp [widen, Nat.mod_eq_of_lt fits, same]

end SmallFloat

end Abacus
