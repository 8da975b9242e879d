import Abacus.Proofs.Narrowing
import Mathlib.Algebra.Order.Field.Rat
import Mathlib.Algebra.Order.Ring.Abs
import Mathlib.Tactic.FieldSimp
import Mathlib.Tactic.Linarith
import Mathlib.Tactic.Positivity
import Mathlib.Tactic.Ring

/-!
# Rounding to the nearest number

The finite numbers lie on a grid whose steps double from binade to binade, and counting magnitudes
goes through this grid in order. Where a number is rounded to is decided at the midpoints between
neighbours: it is rounded above a magnitude if it lies beyond the midpoint to the next one, or on
it if the magnitude is odd (`RoundsAbove`). `nearestMagnitude` passes exactly these magnitudes
(`lt_nearestMagnitude_iff`), so what it gives depends on the value of the fraction only, grows with
it, and is the nearest number there is (`RoundsTo`).
-/
namespace Abacus.Binary64

/-! ## The grid -/

/-- A magnitude is a significand and the number of places that it is shifted by. -/
theorem unitsOf_shifted {surplus significand : Nat} (fits : significand ≤ 2 * binade)
    (normal : surplus = 0 ∨ binade ≤ significand) :
    unitsOf (surplus * binade + significand) = significand * Nat.pow 2 surplus := by
  have size : 0 < binade := by decide
  rw [Nat.mul_comm surplus]
  unfold unitsOf
  rw [Nat.mul_add_div size, Nat.mul_add_mod]
  -- The significand is below a binade, in the next one, or just past that.
  rcases Nat.lt_or_ge significand binade with low | high
  · obtain rfl : surplus = 0 := by omega
    simp [Nat.div_eq_of_lt low, Nat.mod_eq_of_lt low]
  · rcases Nat.lt_or_eq_of_le fits with middle | rfl
    · obtain ⟨fraction, rfl⟩ := Nat.exists_eq_add_of_le high
      have small : fraction < binade := by omega
      have one : (binade + fraction) / binade = 1 := by
        rw [Nat.add_div_left _ size, Nat.div_eq_of_lt small]
      simp [one, Nat.mod_eq_of_lt small]
    · have next : Nat.pow 2 (surplus + 1) = Nat.pow 2 surplus * 2 := rfl
      have two : 2 * binade / binade = 2 := Nat.mul_div_left 2 size
      have places : surplus + 2 - 1 = surplus + 1 := by omega
      rw [two, Nat.mul_mod_left, if_neg (by omega), places, next]
      ring

theorem exists_shifted (m : Nat) :
    ∃ surplus significand, m = surplus * binade + significand ∧ significand < 2 * binade ∧
      (surplus = 0 ∨ binade ≤ significand) := by
  have size : 0 < binade := by decide
  have parts := Nat.div_add_mod m binade
  have small := Nat.mod_lt m size
  cases exponent : m / binade with
  | zero =>
    rw [exponent] at parts
    exact ⟨0, m, by omega, by omega, .inl rfl⟩
  | succ surplus =>
    rw [exponent, Nat.mul_succ, Nat.mul_comm] at parts
    exact ⟨surplus, binade + m % binade, by omega, by omega, .inr (by omega)⟩

theorem unitsOf_strictMono : StrictMono unitsOf := by
  -- The next magnitude has the same shift and one more in its significand.
  apply strictMono_nat_of_lt_succ
  intro m
  obtain ⟨surplus, significand, rfl, small, normal⟩ := exists_shifted m
  rw [Nat.add_assoc, unitsOf_shifted (Nat.le_of_lt small) normal,
    unitsOf_shifted small (normal.imp_right Nat.le_succ_of_le)]
  exact Nat.mul_lt_mul_of_pos_right (Nat.lt_succ_self _) (Nat.two_pow_pos surplus)

theorem unitsPerOne_eq : (unitsPerOne : ℚ) = 2 ^ unitPower := by
  unfold unitsPerOne
  generalize unitPower = power
  exact Nat.cast_pow 2 power

theorem unitsPerOne_pos : (0 : ℚ) < unitsPerOne := by
  rw [unitsPerOne_eq]
  positivity

/-- The number of a magnitude. Infinity counts as the power of two above all finite numbers. -/
def magnitudeValue (m : Nat) : ℚ := unitsOf m / unitsPerOne

theorem magnitudeValue_strictMono : StrictMono magnitudeValue := by
  intro m n less
  have units : (unitsOf m : ℚ) < unitsOf n := Nat.cast_lt.mpr (unitsOf_strictMono less)
  exact (div_lt_div_iff_of_pos_right unitsPerOne_pos).mpr units

theorem magnitudeValue_zero : magnitudeValue 0 = 0 := by
  have none : unitsOf 0 = 0 := by decide
  rw [magnitudeValue, none, Nat.cast_zero, zero_div]

theorem magnitudeValue_nonneg (m : Nat) : 0 ≤ magnitudeValue m :=
  magnitudeValue_zero ▸ magnitudeValue_strictMono.monotone (Nat.zero_le m)

/-! ## Midpoints -/

/-- Half-way between a magnitude and the next one. -/
def midpoint (m : Nat) : ℚ := (magnitudeValue m + magnitudeValue (m + 1)) / 2

/-- The number is beyond the midpoint above a magnitude, or on it and the next magnitude is the even
one of the two. -/
def RoundsAbove (v : ℚ) (m : Nat) : Prop := midpoint m < v ∨ midpoint m = v ∧ m % 2 = 1

theorem midpoint_bounds (m : Nat) :
    magnitudeValue m < midpoint m ∧ midpoint m < magnitudeValue (m + 1) := by
  have step := magnitudeValue_strictMono (Nat.lt_succ_self m)
  rw [Nat.succ_eq_add_one] at step
  unfold midpoint
  constructor <;> linarith

theorem roundsAbove_of_le {v : ℚ} {m : Nat} (reaches : magnitudeValue (m + 1) ≤ v) :
    RoundsAbove v m :=
  .inl (lt_of_lt_of_le (midpoint_bounds m).2 reaches)

theorem not_roundsAbove_of_le {v : ℚ} {m : Nat} (stays : v ≤ magnitudeValue m) :
    ¬ RoundsAbove v m := by
  have beyond := (midpoint_bounds m).1
  rintro (passed | ⟨met, -⟩) <;> linarith

theorem RoundsAbove.mono {v w : ℚ} {m : Nat} (above : RoundsAbove v m) (order : v ≤ w) :
    RoundsAbove w m := by
  rcases above with passed | ⟨met, odd⟩
  · exact .inl (lt_of_lt_of_le passed order)
  · rcases lt_or_eq_of_le order with less | rfl
    · exact .inl (met ▸ less)
    · exact .inr ⟨met, odd⟩

/-! ## The nearest magnitude -/

theorem surplusBits_spec (wholeUnits : Nat) :
    wholeUnits / Nat.pow 2 (surplusBits wholeUnits) < 2 * binade ∧
      (surplusBits wholeUnits = 0 ∨
        binade ≤ wholeUnits / Nat.pow 2 (surplusBits wholeUnits)) := by
  unfold surplusBits
  split
  next small => simpa using small
  next large =>
    -- The bits beyond the first 53 are dropped, which leaves a number from a binade to twice that.
    have occupied : wholeUnits ≠ 0 := by
      rintro rfl
      exact large (by decide)
    have size : binade = Nat.pow 2 52 := by decide
    have long : 52 ≤ wholeUnits.log2 := by
      rw [Nat.le_log2 occupied, ← Nat.pow_eq, ← size]
      omega
    have low := Nat.log2_self_le occupied
    have high := @Nat.lt_log2_self wholeUnits
    obtain ⟨surplus, length⟩ := Nat.exists_eq_add_of_le long
    have positive := Nat.two_pow_pos surplus
    rw [length] at low high ⊢
    rw [Nat.add_sub_cancel_left, Nat.pow_eq]
    constructor
    · rw [Nat.div_lt_iff_lt_mul positive, size]
      calc wholeUnits < 2 ^ (52 + surplus + 1) := high
        _ = 2 * Nat.pow 2 52 * 2 ^ surplus := by rw [Nat.pow_eq]; ring
    · right
      rw [Nat.le_div_iff_mul_le positive, size, Nat.pow_eq, ← Nat.pow_add]
      exact low

theorem roundedQuotient_bounds (n d : Nat) :
    n / d ≤ roundedQuotient n d ∧ roundedQuotient n d ≤ n / d + 1 := by
  unfold roundedQuotient
  dsimp only
  split <;> omega

theorem lt_roundedQuotient_iff (n d : Nat) :
    n / d < roundedQuotient n d ↔ d < 2 * (n % d) ∨ 2 * (n % d) = d ∧ n / d % 2 = 1 := by
  unfold roundedQuotient
  dsimp only
  split
  next up => simpa using up
  next down => simpa using down

section Fraction

variable {numerator denominator surplus significand : Nat}

/-- Counted in halves of a shifted unit, a number is compared with a fraction by whole numbers. -/
theorem halves_lt_iff (positive : 0 < denominator) (halves : Nat) :
    (halves * 2 ^ surplus : ℚ) / (2 * unitsPerOne) < numerator / denominator ↔
      halves * (denominator * Nat.pow 2 surplus) < 2 * (numerator * unitsPerOne) := by
  have one := unitsPerOne_pos
  have whole : (0 : ℚ) < denominator := Nat.cast_pos.mpr positive
  rw [div_lt_div_iff₀ (by linarith) whole, Nat.pow_eq, ← Nat.cast_lt (α := ℚ)]
  push_cast
  constructor <;> intro less <;> linarith

theorem lt_halves_iff (positive : 0 < denominator) (halves : Nat) :
    (numerator / denominator : ℚ) < (halves * 2 ^ surplus : ℚ) / (2 * unitsPerOne) ↔
      2 * (numerator * unitsPerOne) < halves * (denominator * Nat.pow 2 surplus) := by
  have one := unitsPerOne_pos
  have whole : (0 : ℚ) < denominator := Nat.cast_pos.mpr positive
  rw [div_lt_div_iff₀ whole (by linarith), Nat.pow_eq, ← Nat.cast_lt (α := ℚ)]
  push_cast
  constructor <;> intro less <;> linarith

theorem magnitudeValue_shifted (fits : significand ≤ 2 * binade)
    (normal : surplus = 0 ∨ binade ≤ significand) :
    magnitudeValue (surplus * binade + significand) =
      ((2 * significand : Nat) * 2 ^ surplus : ℚ) / (2 * unitsPerOne) := by
  rw [magnitudeValue, unitsOf_shifted fits normal, Nat.pow_eq]
  push_cast
  rw [mul_assoc, mul_div_mul_left _ _ two_ne_zero]

theorem midpoint_shifted (small : significand < 2 * binade)
    (normal : surplus = 0 ∨ binade ≤ significand) :
    midpoint (surplus * binade + significand) =
      ((2 * significand + 1 : Nat) * 2 ^ surplus : ℚ) / (2 * unitsPerOne) := by
  rw [midpoint, Nat.add_assoc, magnitudeValue_shifted (Nat.le_of_lt small) normal,
    magnitudeValue_shifted small (normal.imp_right Nat.le_succ_of_le)]
  push_cast
  ring

/-- Above the quotient of a fraction it is decided by the remainder whether to round. -/
theorem roundsAbove_quotient_iff (positive : 0 < denominator) {rest : Nat}
    (small : significand < 2 * binade) (normal : surplus = 0 ∨ binade ≤ significand)
    (divided : significand * (denominator * Nat.pow 2 surplus) + rest = numerator * unitsPerOne) :
    RoundsAbove (numerator / denominator) (surplus * binade + significand) ↔
      denominator * Nat.pow 2 surplus < 2 * rest ∨
        2 * rest = denominator * Nat.pow 2 surplus ∧ significand % 2 = 1 := by
  have passed := @halves_lt_iff numerator denominator surplus positive (2 * significand + 1)
  have missed := @lt_halves_iff numerator denominator surplus positive (2 * significand + 1)
  have twice : (2 * significand + 1) * (denominator * Nat.pow 2 surplus) =
      2 * (significand * (denominator * Nat.pow 2 surplus)) + denominator * Nat.pow 2 surplus := by
    ring
  -- A binade is even, so magnitude and significand are odd together.
  have parity : (surplus * binade + significand) % 2 = significand % 2 := by
    rw [show binade = 2 * Nat.pow 2 51 by decide, Nat.mul_left_comm, Nat.mul_add_mod]
  rw [RoundsAbove, midpoint_shifted small normal, parity, passed, le_antisymm_iff, ← not_lt,
    ← not_lt, passed, missed]
  omega

/-- Rounding a fraction passes the magnitudes that its value is rounded above, and no others. -/
theorem lt_nearestMagnitude_iff {m : Nat} (positive : 0 < denominator)
    (finite : m < infinityMagnitude) :
    m < nearestMagnitude numerator denominator ↔
      RoundsAbove (numerator / denominator) m := by
  unfold nearestMagnitude
  dsimp only
  rw [lt_min_iff, and_iff_right finite]
  generalize shift : surplusBits (numerator * unitsPerOne / denominator) = surplus
  obtain ⟨small, normal⟩ := surplusBits_spec (numerator * unitsPerOne / denominator)
  rw [shift, Nat.div_div_eq_div_mul] at small normal
  have step : 0 < denominator * Nat.pow 2 surplus :=
    Nat.mul_pos positive (Nat.two_pow_pos surplus)
  have divided := Nat.div_add_mod' (numerator * unitsPerOne) (denominator * Nat.pow 2 surplus)
  have remainder := Nat.mod_lt (numerator * unitsPerOne) step
  have bounds := roundedQuotient_bounds (numerator * unitsPerOne) (denominator * Nat.pow 2 surplus)
  have up := lt_roundedQuotient_iff (numerator * unitsPerOne) (denominator * Nat.pow 2 surplus)
  generalize numerator * unitsPerOne / (denominator * Nat.pow 2 surplus) = quotient
    at small normal divided bounds up
  -- The value lies between the magnitude of the quotient and the next one.
  have low : magnitudeValue (surplus * binade + quotient) ≤ (numerator : ℚ) / denominator := by
    rw [magnitudeValue_shifted (Nat.le_of_lt small) normal, ← not_lt, lt_halves_iff positive,
      Nat.mul_assoc 2]
    omega
  have high : (numerator : ℚ) / denominator < magnitudeValue (surplus * binade + quotient + 1) := by
    have next := Nat.succ_mul quotient (denominator * Nat.pow 2 surplus)
    rw [Nat.add_assoc, magnitudeValue_shifted small (normal.imp_right Nat.le_succ_of_le),
      lt_halves_iff positive, Nat.mul_assoc 2, next]
    omega
  rcases Nat.lt_trichotomy m (surplus * binade + quotient) with before | rfl | behind
  · have reached := magnitudeValue_strictMono.monotone (Nat.succ_le_of_lt before)
    exact iff_of_true (by omega) (roundsAbove_of_le (reached.trans low))
  · rw [roundsAbove_quotient_iff positive small normal divided, ← up]
    omega
  · have beyond := magnitudeValue_strictMono.monotone (Nat.succ_le_of_lt behind)
    exact iff_of_false (by omega) (not_roundsAbove_of_le (high.le.trans beyond))

end Fraction

/-- The number is rounded to a magnitude: above all smaller ones, and above no others. -/
structure Rounds (v : ℚ) (m : Nat) : Prop where
  bounded : m ≤ infinityMagnitude
  passes : ∀ k < infinityMagnitude, k < m ↔ RoundsAbove v k

theorem rounds_nearestMagnitude {numerator denominator : Nat} (positive : 0 < denominator) :
    Rounds (numerator / denominator) (nearestMagnitude numerator denominator) where
  bounded := Nat.min_le_left ..
  passes _ finite := lt_nearestMagnitude_iff positive finite

/-- The magnitudes that a magnitude has passed are the smaller ones, so it rounds to itself. -/
theorem rounds_magnitudeValue {m : Nat} (bounded : m ≤ infinityMagnitude) :
    Rounds (magnitudeValue m) m where
  bounded := bounded
  passes k _ := by
    constructor
    · intro less
      exact roundsAbove_of_le (magnitudeValue_strictMono.monotone less)
    · intro above
      by_contra more
      exact not_roundsAbove_of_le (magnitudeValue_strictMono.monotone (not_lt.mp more)) above

namespace Rounds

variable {v w : ℚ} {m n : Nat}

theorem mono (first : Rounds v m) (second : Rounds w n) (order : v ≤ w) : m ≤ n := by
  by_contra more
  have inside : n < infinityMagnitude := lt_of_lt_of_le (not_le.mp more) first.bounded
  have above := (first.passes n inside).mp (not_le.mp more)
  exact lt_irrefl n ((second.passes n inside).mpr (above.mono order))

theorem unique (first : Rounds v m) (second : Rounds v n) : n = m :=
  le_antisymm (second.mono first le_rfl) (first.mono second le_rfl)

/-- No other finite magnitude is nearer, and if another one is as near, it is the odd one. -/
theorem nearest (rounds : Rounds v m) (finite : m < infinityMagnitude) {k : Nat} (other : k ≠ m) :
    |magnitudeValue m - v| ≤ |magnitudeValue k - v| ∧
      (|magnitudeValue k - v| = |magnitudeValue m - v| → m % 2 = 0) := by
  rcases Nat.lt_or_gt_of_ne other with below | beyond
  · -- The neighbour below is passed, so the number is at the midpoint at least.
    obtain ⟨neighbour, rfl⟩ : ∃ neighbour, m = neighbour + 1 := ⟨m - 1, by omega⟩
    have passed := (rounds.passes neighbour (by omega)).mp (Nat.lt_succ_self _)
    have grid := magnitudeValue_strictMono.monotone (Nat.le_of_lt_succ below)
    have step := magnitudeValue_strictMono (Nat.lt_succ_self neighbour)
    have far := neg_abs_le (magnitudeValue k - v)
    have middle : magnitudeValue neighbour + magnitudeValue (neighbour + 1) =
        2 * midpoint neighbour := by
      rw [midpoint]
      ring
    rw [Nat.succ_eq_add_one] at step
    rcases passed with past | ⟨met, odd⟩
    · have nearer : |magnitudeValue (neighbour + 1) - v| < v - magnitudeValue neighbour :=
        abs_lt.mpr ⟨by linarith, by linarith⟩
      exact ⟨by linarith, fun tie => by linarith⟩
    · have near : |magnitudeValue (neighbour + 1) - v| ≤ v - magnitudeValue neighbour :=
        abs_le.mpr ⟨by linarith, by linarith⟩
      exact ⟨by linarith, fun _ => by omega⟩
  · have stays := mt (rounds.passes m finite).mpr (lt_irrefl m)
    have grid := magnitudeValue_strictMono.monotone (Nat.succ_le_of_lt beyond)
    have step := magnitudeValue_strictMono (Nat.lt_succ_self m)
    have far := le_abs_self (magnitudeValue k - v)
    have middle : magnitudeValue m + magnitudeValue (m + 1) = 2 * midpoint m := by
      rw [midpoint]
      ring
    rw [Nat.succ_eq_add_one] at step grid
    simp only [RoundsAbove, not_or, not_lt, not_and] at stays
    rcases lt_or_eq_of_le stays.1 with short | met
    · have nearer : |magnitudeValue m - v| < magnitudeValue (m + 1) - v :=
        abs_lt.mpr ⟨by linarith, by linarith⟩
      exact ⟨by linarith, fun tie => by linarith⟩
    · have near : |magnitudeValue m - v| ≤ magnitudeValue (m + 1) - v :=
        abs_le.mpr ⟨by linarith, by linarith⟩
      have even := stays.2 met.symm
      exact ⟨by linarith, fun _ => by omega⟩

end Rounds

/-! ## Correct rounding -/

/-- The number that a finite datum stands for. -/
def toRat (x : Binary64) : ℚ :=
  if x.isNegative then -magnitudeValue x.magnitude else magnitudeValue x.magnitude

/-- The midpoint between the largest finite number and the power of two above it. -/
def overflowThreshold : ℚ := 2 ^ 1024 - 2 ^ 970

/-- A non-negative number is rounded to a datum: to infinity from the threshold on, and else to the
nearest finite datum, of two that are equally near to the one with an even significand. -/
structure RoundsTo (x : Binary64) (v : ℚ) : Prop where
  positive : x.isNegative = false
  infinite : overflowThreshold ≤ v → x.isInfinite = true
  finite : v < overflowThreshold → x.isFinite = true
  nearest : v < overflowThreshold → ∀ y : Binary64, y.isFinite = true →
    |x.toRat - v| ≤ |y.toRat - v|
  even : v < overflowThreshold → ∀ y : Binary64, y.isFinite = true → y.toRat ≠ x.toRat →
    |y.toRat - v| = |x.toRat - v| → x.magnitude % 2 = 0

theorem midpoint_largest : midpoint (infinityMagnitude - 1) = overflowThreshold := by
  have largest : infinityMagnitude - 1 = 2045 * binade + (2 * binade - 1) := by decide
  have halves : 2 * (2 * binade - 1) + 1 = 2 ^ 54 - 1 := by decide
  have shifted : (2 : ℚ) ^ 2045 = 2 ^ 970 * (2 * 2 ^ unitPower) := by
    rw [unitPower, ← pow_succ', ← pow_add]
  have power : (2 : ℚ) ^ 1024 = 2 ^ 970 * 2 ^ 54 := by rw [← pow_add]
  have one := unitsPerOne_pos
  rw [largest, midpoint_shifted (by decide) (.inr (by decide)), halves, overflowThreshold, shifted,
    power, ← unitsPerOne_eq]
  generalize (2 : ℚ) ^ 970 = scale
  push_cast
  field_simp
  ring

theorem roundsAbove_largest_iff (v : ℚ) :
    RoundsAbove v (infinityMagnitude - 1) ↔ overflowThreshold ≤ v := by
  have odd : (infinityMagnitude - 1) % 2 = 1 := by decide
  rw [RoundsAbove, midpoint_largest, and_iff_left odd, ← le_iff_lt_or_eq]

theorem toRat_ofMagnitude {m : Nat} (bounded : m ≤ infinityMagnitude) :
    (ofMagnitude false m).toRat = magnitudeValue m := by
  obtain ⟨magnitude, sign⟩ := ofMagnitude_parts false (Nat.lt_of_le_of_lt bounded (by decide))
  simp [toRat, magnitude, sign]

theorem toRat_cases (y : Binary64) :
    y.toRat = magnitudeValue y.magnitude ∨ y.toRat = -magnitudeValue y.magnitude := by
  unfold toRat
  split
  · exact .inr rfl
  · exact .inl rfl

/-- A negative number is no nearer to a non-negative one than its positive counterpart. -/
theorem abs_magnitudeValue_sub_le {v : ℚ} (nonneg : 0 ≤ v) (y : Binary64) :
    |magnitudeValue y.magnitude - v| ≤ |y.toRat - v| := by
  have size := magnitudeValue_nonneg y.magnitude
  rcases y.toRat_cases with same | opposite
  · rw [same]
  · have far : |y.toRat - v| = magnitudeValue y.magnitude + v := by
      rw [opposite, ← neg_add', abs_neg, abs_of_nonneg (add_nonneg size nonneg)]
    rw [far]
    exact abs_le.mpr ⟨by linarith, by linarith⟩

/-- The datum of the magnitude that a number is rounded to is the correctly rounded number. -/
theorem Rounds.roundsTo {v : ℚ} {m : Nat} (rounds : Rounds v m) (nonneg : 0 ≤ v) :
    (ofMagnitude false m).RoundsTo v := by
  obtain ⟨magnitude, sign⟩ :=
    ofMagnitude_parts false (Nat.lt_of_le_of_lt rounds.bounded (by decide))
  have bounded := rounds.bounded
  have overflows := rounds.passes (infinityMagnitude - 1) (by decide)
  rw [roundsAbove_largest_iff] at overflows
  have small (below : v < overflowThreshold) : m < infinityMagnitude := by
    have stays := mt overflows.mp (not_le.mpr below)
    exact Nat.lt_of_le_of_lt (not_lt.mp stays) (by decide)
  refine ⟨sign, fun reached => ?_, fun below => ?_, fun below y finite => ?_,
    fun below y finite apart tie => ?_⟩
  · have passed := overflows.mpr reached
    rw [isInfinite, magnitude, decide_eq_true_iff]
    omega
  · rw [isFinite, magnitude, decide_eq_true_iff]
    exact small below
  · rw [toRat_ofMagnitude bounded]
    refine le_trans ?_ (abs_magnitudeValue_sub_le nonneg y)
    by_cases same : y.magnitude = m
    · rw [same]
    · exact (rounds.nearest (small below) same).1
  · rw [toRat_ofMagnitude bounded] at apart tie
    rw [magnitude]
    by_cases same : y.magnitude = m
    · -- The negative counterpart is as near to zero only, which is rounded to zero.
      have size := magnitudeValue_nonneg m
      have opposite : y.toRat = -magnitudeValue m := by
        rcases y.toRat_cases with equal | opposite
        · exact absurd (same ▸ equal) apart
        · exact same ▸ opposite
      have zero : v = 0 := by
        rw [opposite, ← neg_add', abs_neg, abs_of_nonneg (add_nonneg size nonneg)] at tie
        rcases abs_cases (magnitudeValue m - v) with ⟨equal, -⟩ | ⟨equal, -⟩
        · linarith
        · exact absurd (by linarith) apart
      have none := rounds_magnitudeValue (Nat.zero_le infinityMagnitude)
      rw [magnitudeValue_zero, ← zero] at none
      rw [none.unique rounds]
    · obtain ⟨near, even⟩ := rounds.nearest (small below) same
      exact even (le_antisymm ((abs_magnitudeValue_sub_le nonneg y).trans_eq tie) near)

end Abacus.Binary64
