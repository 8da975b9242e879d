import Abacus.Bytecode.Value

/-!
# The bytes of printed values

Counts, line numbers and bytes are printed so that they can be read back. Numbers are printed with
digits, a point, signs and a few letters (`Binary64.numeric_print`). So whatever its tag and payload,
a value is printed without a line break (`Value.newline_notMem_print`): with the line break that
follows it, it is exactly one line.
-/
namespace Abacus

/-- Some of the bytes that numbers are printed with. -/
def Numeric (s : Bytes) : Prop := ∀ b ∈ s, isDigit b = true ∨ b ∈ text ".e+-naif"

instance (s : Bytes) : Decidable (Numeric s) := List.decidableBAll _ s

theorem code_of_mem_toDigits {n : Nat} {c : Char} (member : c ∈ Nat.toDigits 10 n) :
    48 ≤ c.toNat ∧ c.toNat ≤ 57 ∧ (byte c).toNat = c.toNat := by
  have digit := Nat.isDigit_of_mem_toDigits (by decide) (by decide) member
  simp only [Char.isDigit, Bool.and_eq_true, decide_eq_true_eq] at digit
  have low : 48 ≤ c.toNat := UInt32.le_iff_toNat_le.mp digit.1
  have high : c.toNat ≤ 57 := UInt32.le_iff_toNat_le.mp digit.2
  exact ⟨low, high, by rw [byte, UInt8.toNat_ofNat', Nat.mod_eq_of_lt (by omega)]⟩

theorem isDigit_of_mem_decimal {n : Nat} {b : UInt8} (member : b ∈ decimal n) :
    isDigit b = true := by
  obtain ⟨c, digit, rfl⟩ := List.mem_map.mp member
  obtain ⟨low, high, code⟩ := code_of_mem_toDigits digit
  simp only [isDigit, Bool.and_eq_true, decide_eq_true_eq, UInt8.le_iff_toNat_le, code]
  exact ⟨low, high⟩

theorem decimal_injective : Function.Injective decimal := by
  intro m n same
  -- The digits are read back from their bytes, and the number from its digits.
  have chars (k : Nat) : (decimal k).map (fun b => Char.ofNat b.toNat) = Nat.toDigits 10 k := by
    rw [decimal, List.map_map]
    refine (List.map_congr_left fun c digit => ?_).trans (List.map_id _)
    obtain ⟨-, -, code⟩ := code_of_mem_toDigits digit
    rw [Function.comp_apply, code, Char.ofNat_toNat, id_eq]
  have digits : Nat.toDigits 10 m = Nat.toDigits 10 n := by rw [← chars m, same, chars n]
  calc m = Nat.ofDigitChars 10 (Nat.toDigits 10 m) 0 := Nat.ofDigitChars_ten_toDigits.symm
    _ = n := by rw [digits, Nat.ofDigitChars_ten_toDigits]

theorem signedDecimal_injective : Function.Injective signedDecimal := by
  have unsigned (n : Nat) (s : Bytes) : decimal n ≠ byte '-' :: s := by
    intro same
    have first : byte '-' ∈ decimal n := same ▸ List.mem_cons_self
    exact absurd (isDigit_of_mem_decimal first) (by decide)
  intro m n same
  unfold signedDecimal at same
  split at same <;> split at same
  · have size := decimal_injective (List.cons.inj same).2
    omega
  -- Only one of the two numbers has a minus sign.
  · exact absurd same.symm (unsigned _ _)
  · exact absurd same (unsigned _ _)
  · have size := decimal_injective same
    omega

theorem hexByte_injective : Function.Injective hexByte := by
  let digit (n : Nat) : UInt8 := if n < 10 then UInt8.ofNat (0x30 + n) else UInt8.ofNat (0x37 + n)
  -- A byte has two digits below sixteen.
  have digit_injective : ∀ m < 16, ∀ n < 16, digit m = digit n → m = n := by decide
  intro a b same
  obtain ⟨high, low⟩ := List.cons.inj same
  have aSmall := a.toNat_lt
  have bSmall := b.toNat_lt
  have quotients := digit_injective _ (by omega) _ (by omega) high
  have remainders := digit_injective _ (Nat.mod_lt _ (by decide)) _ (Nat.mod_lt _ (by decide))
    (List.cons.inj low).1
  apply UInt8.toNat_inj.mp
  omega

namespace Numeric

theorem append {s t : Bytes} (first : Numeric s) (second : Numeric t) : Numeric (s ++ t) :=
  List.forall_mem_append.mpr ⟨first, second⟩

theorem nil : Numeric [] := List.forall_mem_nil _

theorem decimal (n : Nat) : Numeric (decimal n) :=
  fun _ member => .inl (isDigit_of_mem_decimal member)

theorem signedDecimal (n : Int) : Numeric (signedDecimal n) := by
  unfold Abacus.signedDecimal
  split
  · exact List.forall_mem_cons.mpr ⟨.inr (by decide), decimal _⟩
  · exact decimal _

theorem zeros (n : Nat) : Numeric (Bytes.fill n (byte '0')) := by
  intro b member
  rw [List.eq_of_mem_replicate member]
  exact .inl rfl

variable {digits : Bytes} (numeric : Numeric digits)

include numeric

theorem fraction (n : Nat) :
    Numeric (if (digits.drop n).isEmpty then [] else byte '.' :: digits.drop n) := by
  split
  · exact nil
  · refine List.forall_mem_cons.mpr ⟨.inr (by decide), ?_⟩
    exact fun b member => numeric b (List.mem_of_mem_drop member)

theorem scientific (f : NumberFormat) (power : Int) : Numeric (f.scientific digits power) := by
  have leading : Numeric (digits.take 1) := fun b member => numeric b (List.mem_of_mem_take member)
  have marker : Numeric (text "e") := by decide
  have sign : Numeric (if power < 0 then text "-" else text "+") := by split <;> decide
  exact (((leading.append (numeric.fraction 1)).append marker).append sign).append
    ((zeros _).append (decimal _))

theorem positional (power : Int) : Numeric (NumberFormat.positional digits power) := by
  have start : Numeric (text "0.") := by decide
  unfold NumberFormat.positional
  split
  · exact (start.append (zeros _)).append numeric
  · have whole : Numeric (digits.take (power.toNat + 1)) :=
      fun b member => numeric b (List.mem_of_mem_take member)
    exact (whole.append (zeros _)).append (numeric.fraction _)

end Numeric

theorem Binary64.numeric_print (x : Binary64) : Numeric x.print := by
  have special : Numeric (text "nan") ∧ Numeric (text "inf") ∧ Numeric (text "-") ∧
      Numeric (text "0") := by decide
  obtain ⟨notANumber, infinity, sign, zero⟩ := special
  have magnitude : Numeric (NumberFormat.result.magnitude x.magnitude) := by
    unfold NumberFormat.magnitude NumberFormat.decimal
    split
    · exact zero
    · dsimp only
      split
      · exact (Numeric.decimal _).scientific _ _
      · exact (Numeric.decimal _).positional _
  unfold print NumberFormat.print
  split
  · exact notANumber
  · apply Numeric.append
    · split
      · exact sign
      · exact .nil
    · split
      · exact infinity
      · exact magnitude

theorem Numeric.newline_notMem {s : Bytes} (numeric : Numeric s) : newline ∉ s :=
  fun member => absurd (numeric newline member) (by decide)

theorem Value.newline_notMem_print (v : Value) : newline ∉ v.print := by
  have brackets : newline ∉ text "<" ∧ newline ∉ text ">" := by decide
  have name : newline ∉ tagName v.tag := by
    have parts : newline ∉ text "number" ∧ newline ∉ text "ValueType(" ∧ newline ∉ text ")" := by
      decide
    unfold tagName
    split
    · exact parts.1
    · simp only [List.mem_append, not_or]
      exact ⟨⟨parts.2.1, (Numeric.decimal _).newline_notMem⟩, parts.2.2⟩
  unfold print
  split
  · exact v.payload.numeric_print.newline_notMem
  · simp only [List.mem_append, not_or]
    exact ⟨⟨brackets.1, name⟩, brackets.2⟩

end Abacus
