import Abacus.Proofs.Literals
import Abacus.Proofs.PrintedValues
import Abacus.Proofs.TextLines

/-!
# Printed decimals denote their numbers

A printed number is digits with a point among them or without, and perhaps a power of ten behind an
`e`. Its exact value (`printedValue`) is the decimal that was printed, which is one that rounds to
the number (`Decimal.magnitude_shortest`). So a magnitude can be read off its printed form
(`NumberFormat.rounds_printedValue`).
-/
namespace Abacus

/-! ## The shortest decimal -/

namespace Decimal

theorem neighbour?_reads {m : Nat} {power : Int} {d : Decimal}
    (found : neighbour? m power = some d) : d.magnitude = m := by
  unfold neighbour? at found
  dsimp only at found
  split at found
  next reads =>
    cases found
    exact reads.1
  · split at found
    next reads =>
      cases found
      exact reads
    · cases found

/-- With all its digits a decimal is the number itself. -/
theorem value_exact (m : Nat) : (exact m).value = Binary64.magnitudeValue m := by
  unfold exact value Binary64.magnitudeValue
  dsimp only
  rw [Binary64.unitsPerOne_eq, zpow_neg, zpow_natCast, Nat.pow_eq]
  generalize Binary64.unitPower = places
  have ten : (10 : ℚ) ^ places = 2 ^ places * 5 ^ places := by
    rw [← mul_pow]
    norm_num
  rw [ten]
  push_cast
  field_simp

theorem magnitude_shortest {m : Nat} (bounded : m ≤ Binary64.infinityMagnitude) :
    (shortest m).magnitude = m := by
  unfold shortest
  dsimp only
  -- A decimal that was found reads back, and else all digits are taken, which is exact.
  cases search : (List.range mostDigits).findSome?
      fun (count : Nat) => neighbour? m (leadingPower m - (count : Int)) with
  | some d =>
    obtain ⟨count, -, found⟩ := List.exists_of_findSome?_eq_some search
    exact neighbour?_reads found
  | none =>
    have rounds := rounds_magnitude (exact m)
    rw [value_exact] at rounds
    exact (Binary64.rounds_magnitudeValue bounded).unique rounds

theorem value_dropZeros (fuel : Nat) (d : Decimal) : (dropZeros fuel d).value = d.value := by
  induction fuel generalizing d with
  | zero => rfl
  | succ fuel ih =>
    rw [dropZeros]
    split
    next zeros =>
      have digits : d.digits = 10 * (d.digits / 10) := by omega
      rw [ih, value, value, zpow_add_one₀ (by norm_num)]
      nth_rewrite 2 [digits]
      push_cast
      ring
    · rfl

theorem value_normal (d : Decimal) : d.normal.value = d.value := value_dropZeros _ d

end Decimal

/-! ## Rows of digits -/

@[simp] theorem wholeValue_decimal (n : Nat) : wholeValue (decimal n) = n := by
  rw [wholeValue, decimal, List.foldl_map]
  refine Eq.trans ?_ (Nat.ofDigitChars_ten_toDigits (n := n))
  apply List.foldl_ext
  intro sum c digit
  obtain ⟨-, -, code⟩ := code_of_mem_toDigits digit
  rw [digitOf, code]
  rfl

@[simp] theorem wholeValue_zeros (n : Nat) : wholeValue (Bytes.fill n (byte '0')) = 0 := by
  induction n with
  | zero => rfl
  | succ n ih =>
    have zero : digitOf (byte '0') = 0 := rfl
    rw [Bytes.fill, List.replicate_succ, wholeValue_cons, ← Bytes.fill, ih, zero, Nat.zero_mul]

theorem numeralValue_whole {digits : Bytes} (free : 0x2e ∉ digits) :
    numeralValue digits = wholeValue digits := by
  simp [numeralValue, Bytes.cut_of_notMem free, placesValue]

theorem numeralValue_fraction {digits : Bytes} (free : 0x2e ∉ digits) (places : Bytes) :
    numeralValue (digits ++ 0x2e :: places) =
      wholeValue (digits ++ places) / 10 ^ places.length := by
  rw [numeralValue, Bytes.cut_at free, placesValue_eq, wholeValue_append]
  push_cast
  field_simp

theorem div_ten_pow {places : Nat} {power : ℤ} (same : power = -(places : ℤ)) (v : ℚ) :
    v / 10 ^ places = v * 10 ^ power := by
  rw [same, zpow_neg, zpow_natCast, div_eq_mul_inv]

theorem mul_ten_pow {zeros : Nat} {power : ℤ} (same : power = zeros) (v : ℚ) :
    v * 10 ^ zeros = v * 10 ^ power := by
  rw [same, zpow_natCast]

namespace Digits

variable {digits : Bytes}

theorem decimal (n : Nat) : Digits (decimal n) := by
  refine ⟨?_, fun b member => isDigit_of_mem_decimal member⟩
  rw [Abacus.decimal, ne_eq, List.map_eq_nil_iff]
  exact Nat.toDigits_ne_nil

theorem zero : Digits [byte '0'] := ⟨List.cons_ne_nil _ _, List.forall_mem_singleton.mpr rfl⟩

theorem free_of_points (row : Digits digits) : 0x2e ∉ digits :=
  fun member => absurd (row.2 _ member) (by decide)

theorem isDigit_of_mem_zeros {n : Nat} {b : UInt8} (member : b ∈ Bytes.fill n (byte '0')) :
    isDigit b = true := by
  rw [List.eq_of_mem_replicate member]
  rfl

theorem append_zeros (row : Digits digits) (n : Nat) :
    Digits (digits ++ Bytes.fill n (byte '0')) :=
  ⟨List.append_ne_nil_of_left_ne_nil row.1 _,
    List.forall_mem_append.mpr ⟨row.2, fun _ => isDigit_of_mem_zeros⟩⟩

theorem zeros_append (row : Digits digits) (n : Nat) :
    Digits (Bytes.fill n (byte '0') ++ digits) :=
  ⟨List.append_ne_nil_of_right_ne_nil _ row.1,
    List.forall_mem_append.mpr ⟨fun _ => isDigit_of_mem_zeros, row.2⟩⟩

theorem take (row : Digits digits) (n : Nat) : Digits (digits.take (n + 1)) := by
  refine ⟨?_, fun b member => row.2 b (List.mem_of_mem_take member)⟩
  rw [ne_eq, List.take_eq_nil_iff, not_or]
  exact ⟨Nat.succ_ne_zero n, row.1⟩

theorem drop (row : Digits digits) {n : Nat} (more : n < digits.length) :
    Digits (digits.drop n) := by
  refine ⟨?_, fun b member => row.2 b (List.mem_of_mem_drop member)⟩
  rw [ne_eq, List.drop_eq_nil_iff]
  omega

/-- Digits with a point where the exponent says are a numeral with that exponent. -/
theorem positional (row : Digits digits) (power : ℤ) :
    Pattern.number.Matches (NumberFormat.positional digits power) ∧
      numeralValue (NumberFormat.positional digits power) =
        wholeValue digits * 10 ^ (power - digits.length + 1) := by
  unfold NumberFormat.positional
  split
  next negative =>
    -- Zeros follow the point, and the whole part is a zero of its own.
    have places := row.zeros_append (power.natAbs - 1)
    have shape : text "0." ++ Bytes.fill (power.natAbs - 1) (byte '0') ++ digits =
        [byte '0'] ++ 0x2e :: (Bytes.fill (power.natAbs - 1) (byte '0') ++ digits) := rfl
    have leading : wholeValue [byte '0'] = 0 := rfl
    rw [shape]
    refine ⟨.fraction .zero places, ?_⟩
    rw [numeralValue_fraction Digits.zero.free_of_points, wholeValue_append, wholeValue_append,
      wholeValue_zeros, leading, Nat.zero_mul, Nat.zero_mul, Nat.zero_add, Nat.zero_add]
    apply div_ten_pow
    simp only [Bytes.fill, List.length_append, List.length_replicate]
    omega
  next whole =>
    dsimp only
    rcases Nat.lt_or_ge (power.toNat + 1) digits.length with more | enough
    · -- The point stands among the digits.
      have places := row.drop more
      rw [if_neg (by simpa using more), Nat.sub_eq_zero_of_le more.le]
      simp only [Bytes.fill, List.replicate_zero, List.append_nil]
      refine ⟨.fraction (row.take _) places, ?_⟩
      have point : byte '.' = 0x2e := rfl
      rw [point, numeralValue_fraction (row.take _).free_of_points, List.take_append_drop]
      apply div_ten_pow
      rw [List.length_drop]
      omega
    · -- All digits stand before the point, and it is left out.
      have all := row.append_zeros (power.toNat + 1 - digits.length)
      rw [List.take_of_length_le enough, List.drop_of_length_le enough]
      simp only [List.isEmpty_nil, if_true, List.append_nil]
      refine ⟨.whole all, ?_⟩
      rw [numeralValue_whole all.free_of_points, wholeValue_append, wholeValue_zeros, Nat.add_zero]
      push_cast
      apply mul_ten_pow
      simp only [Bytes.fill, List.length_replicate]
      omega

end Digits

/-! ## Printed forms -/

/-- The number behind an `e`: a sign and digits. Without an `e` it is zero. -/
def exponentValue : Bytes → ℤ
  | [] => 0
  | sign :: digits => if sign = byte '-' then -(wholeValue digits : ℤ) else wholeValue digits

/-- The exact value of digits, a point or none, and an exponent or none. -/
def printedValue (s : Bytes) : ℚ :=
  numeralValue (Bytes.cut (byte 'e') s).1 * 10 ^ exponentValue (Bytes.cut (byte 'e') s).2

/-- A numeral alone, or a numeral with an exponent behind it. -/
inductive Printed (v : ℚ) : Bytes → Prop
  | plain {numeral : Bytes} : Pattern.number.Matches numeral → numeralValue numeral = v →
      Printed v numeral
  | scientific {numeral exponent : Bytes} : Pattern.number.Matches numeral →
      numeralValue numeral * 10 ^ exponentValue exponent = v →
      Printed v (numeral ++ byte 'e' :: exponent)

theorem Pattern.Matches.marker_notMem {numeral : Bytes} (matched : Pattern.number.Matches numeral) :
    byte 'e' ∉ numeral := by
  have free {digits : Bytes} (row : Digits digits) : byte 'e' ∉ digits :=
    fun member => absurd (row.2 _ member) (by decide)
  cases matched with
  | whole digits => exact free digits
  | fraction digits places =>
    rw [List.mem_append, List.mem_cons, not_or, not_or]
    exact ⟨free digits, by decide, free places⟩

namespace Printed

variable {v : ℚ} {s : Bytes}

theorem value_eq (printed : Printed v s) : printedValue s = v := by
  cases printed with
  | plain matched same =>
    rw [printedValue, Bytes.cut_of_notMem matched.marker_notMem, ← same]
    simp [exponentValue]
  | scientific matched same => rw [printedValue, Bytes.cut_at matched.marker_notMem, ← same]

/-- Where there is no `e` there is only a numeral. -/
theorem numeral (printed : Printed v s) (free : byte 'e' ∉ s) :
    Pattern.number.Matches s ∧ numeralValue s = v := by
  cases printed with
  | plain matched same => exact ⟨matched, same⟩
  | scientific => simp at free

theorem starts_with_digit (printed : Printed v s) : ∃ b t, s = b :: t ∧ isDigit b = true := by
  cases printed with
  | plain matched => exact matched.cons
  | scientific matched =>
    obtain ⟨b, t, rfl, digit⟩ := matched.cons
    exact ⟨b, _, rfl, digit⟩

end Printed

namespace NumberFormat

variable (f : NumberFormat)

theorem scientific_eq {digits : Bytes} (row : Digits digits) (power : ℤ) :
    f.scientific digits power = positional digits 0 ++ byte 'e' ::
      ((if power < 0 then text "-" else text "+") ++
        Bytes.padLeft f.exponentDigits (byte '0') (Abacus.decimal power.natAbs)) := by
  have some : 1 - digits.length = 0 := by
    have occupied := List.length_pos_iff.mpr row.1
    omega
  have marker : text "e" = [byte 'e'] := rfl
  simp [scientific, positional, some, marker, Bytes.fill]

theorem exponentValue_eq (power : ℤ) :
    exponentValue ((if power < 0 then text "-" else text "+") ++
      Bytes.padLeft f.exponentDigits (byte '0') (Abacus.decimal power.natAbs)) = power := by
  have padded : wholeValue (Bytes.padLeft f.exponentDigits (byte '0')
      (Abacus.decimal power.natAbs)) = power.natAbs := by
    rw [Bytes.padLeft, wholeValue_append, wholeValue_zeros, wholeValue_decimal, Nat.zero_mul,
      Nat.zero_add]
  have minus : text "-" = [byte '-'] := rfl
  have plus : text "+" = [byte '+'] := rfl
  split
  · rw [minus, List.singleton_append, exponentValue, padded, if_pos rfl]
    omega
  · rw [plus, List.singleton_append, exponentValue, padded, if_neg (by decide)]
    omega

theorem printed_decimal (d : Decimal) : Printed d.value (f.decimal d) := by
  have row := Digits.decimal d.digits
  unfold decimal
  dsimp only
  split
  · -- Behind one digit and the others as places stands the power of the first digit.
    rw [f.scientific_eq row]
    obtain ⟨matched, same⟩ := row.positional 0
    refine .scientific matched ?_
    rw [f.exponentValue_eq, same, wholeValue_decimal, Decimal.value, mul_assoc,
      ← zpow_add₀ (by norm_num)]
    congr 2
    omega
  · obtain ⟨matched, same⟩ := row.positional ((Abacus.decimal d.digits).length + d.exponent - 1)
    refine .plain matched ?_
    rw [same, wholeValue_decimal, Decimal.value]
    congr 2
    omega

/-- A magnitude is printed as a number that rounds to it. -/
theorem printed_magnitude {m : Nat} (bounded : m ≤ Binary64.infinityMagnitude) :
    ∃ v, Printed v (f.magnitude m) ∧ Binary64.Rounds v m := by
  unfold magnitude
  split
  next zero =>
    subst zero
    have digit : Digits (text "0") := .zero
    refine ⟨_, .plain (.whole digit) rfl, ?_⟩
    have value : numeralValue (text "0") = Binary64.magnitudeValue 0 := by
      rw [numeralValue_whole digit.free_of_points, Binary64.magnitudeValue_zero]
      rfl
    rw [value]
    exact Binary64.rounds_magnitudeValue bounded
  · refine ⟨_, f.printed_decimal _, ?_⟩
    have rounds := Decimal.rounds_magnitude (Decimal.shortest m)
    rw [Decimal.magnitude_shortest bounded] at rounds
    rw [Decimal.value_normal]
    exact rounds

end NumberFormat

end Abacus
