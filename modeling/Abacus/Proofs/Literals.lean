import Abacus.Proofs.CompiledArtifacts
import Abacus.Proofs.Rounding
import Mathlib.Tactic.NormNum

/-!
# Literals are rounded correctly

A literal stands for an exact number (`numeralValue`): its digits before the point count ones, tens,
hundreds and so on, those behind it tenths, hundredths and so on. Reading it gives the nearest
number, however many digits there are (`Decimal.roundsTo_readLiteral`). So the constants of compiled
code are non-negative numbers, and a larger literal never has a smaller constant.
-/
namespace Abacus

/-! ## The exact value of a literal -/

def digitOf (b : UInt8) : Nat := b.toNat - 0x30

/-- The whole number that a row of digits stands for. -/
def wholeValue (digits : Bytes) : Nat := digits.foldl (fun n b => 10 * n + digitOf b) 0

/-- The fraction that a row of digits behind a point stands for. -/
def placesValue (places : Bytes) : ℚ := places.foldr (fun b v => (digitOf b + v) / 10) 0

/-- The number that digits stand for, with a point among them or without. -/
def numeralValue (s : Bytes) : ℚ :=
  wholeValue (Bytes.cut 0x2e s).1 + placesValue (Bytes.cut 0x2e s).2

theorem foldl_digits (digits : Bytes) (n : Nat) :
    digits.foldl (fun n b => 10 * n + digitOf b) n =
      n * 10 ^ digits.length + wholeValue digits := by
  -- What was read before is shifted by one place for every digit.
  induction digits generalizing n with
  | nil => simp [wholeValue]
  | cons b digits ih =>
    rw [wholeValue, List.foldl_cons, List.foldl_cons, ih, ih (10 * 0 + digitOf b), List.length_cons]
    ring

theorem wholeValue_append (s t : Bytes) :
    wholeValue (s ++ t) = wholeValue s * 10 ^ t.length + wholeValue t := by
  rw [wholeValue, List.foldl_append, foldl_digits]
  rfl

theorem wholeValue_cons (b : UInt8) (s : Bytes) :
    wholeValue (b :: s) = digitOf b * 10 ^ s.length + wholeValue s := by
  rw [← List.singleton_append, wholeValue_append]
  simp [wholeValue]

theorem placesValue_eq (places : Bytes) :
    placesValue places = wholeValue places / 10 ^ places.length := by
  induction places with
  | nil => simp [placesValue, wholeValue]
  | cons b places ih =>
    rw [placesValue, List.foldr_cons, ← placesValue, ih, wholeValue_cons, List.length_cons,
      pow_succ]
    push_cast
    field_simp

/-- The order of non-negative data other than NaNs: infinity is above all finite ones. -/
def Binary64.AtMost (x y : Binary64) : Prop :=
  y.isInfinite = true ∨ x.isFinite = true ∧ y.isFinite = true ∧ x.toRat ≤ y.toRat

namespace Decimal

/-- The number that a decimal is. -/
def value (d : Decimal) : ℚ := d.digits * 10 ^ d.exponent

theorem value_nonneg (d : Decimal) : 0 ≤ d.value :=
  mul_nonneg (Nat.cast_nonneg _) (zpow_nonneg (by norm_num) _)

theorem wholeNumber_eq (s : Bytes) : wholeNumber s = wholeValue s := by
  rw [wholeNumber, digitsValue_eq_weigh, weigh, List.foldr_map, List.foldr_reverse, wholeValue]
  simp only [digitOf, Nat.add_comm]

theorem value_ofLiteral (s : Bytes) : (ofLiteral s).value = numeralValue s := by
  unfold ofLiteral value numeralValue
  dsimp only
  rw [wholeNumber_eq, wholeValue_append, placesValue_eq, zpow_neg, zpow_natCast]
  push_cast
  field_simp

theorem rounds_magnitude (d : Decimal) : Binary64.Rounds d.value d.magnitude := by
  have power : 0 < Nat.pow 10 d.exponent.natAbs := Nat.pow_pos (by decide)
  have cast : ((Nat.pow 10 d.exponent.natAbs : Nat) : ℚ) = 10 ^ d.exponent.natAbs :=
    Nat.cast_pow 10 _
  unfold magnitude
  split
  next negative =>
    have shape : d.exponent = -(d.exponent.natAbs : ℤ) := by omega
    have same : d.value = (d.digits : ℚ) / (Nat.pow 10 d.exponent.natAbs : Nat) := by
      rw [value, cast, div_eq_mul_inv, ← zpow_natCast, ← zpow_neg, ← shape]
    rw [same]
    exact Binary64.rounds_nearestMagnitude power
  next whole =>
    have shape : d.exponent = (d.exponent.natAbs : ℤ) := by omega
    have same : d.value = ((d.digits * Nat.pow 10 d.exponent.natAbs : Nat) : ℚ) / (1 : Nat) := by
      rw [value, Nat.cast_mul, cast, Nat.cast_one, div_one, ← zpow_natCast, ← shape]
    rw [same]
    exact Binary64.rounds_nearestMagnitude Nat.one_pos

theorem rounds_readLiteral (s : Bytes) :
    Binary64.Rounds (numeralValue s) (ofLiteral s).magnitude :=
  value_ofLiteral s ▸ rounds_magnitude _

theorem numeralValue_nonneg (s : Bytes) : 0 ≤ numeralValue s :=
  value_ofLiteral s ▸ value_nonneg _

/-- Reading a literal rounds it correctly. -/
theorem roundsTo_readLiteral (s : Bytes) : (readLiteral s).RoundsTo (numeralValue s) :=
  (rounds_readLiteral s).roundsTo (numeralValue_nonneg s)

/-- Reading is monotone: a larger literal has no smaller constant. -/
theorem readLiteral_mono {s t : Bytes} (order : numeralValue s ≤ numeralValue t) :
    (readLiteral s).AtMost (readLiteral t) := by
  have first := rounds_readLiteral s
  have second := rounds_readLiteral t
  have magnitudes := first.mono second order
  have magnitude (u : Bytes) : (readLiteral u).magnitude = (ofLiteral u).magnitude :=
    (Binary64.ofMagnitude_parts false
      (Nat.lt_of_le_of_lt (rounds_readLiteral u).bounded (by decide))).1
  rcases Nat.lt_or_eq_of_le second.bounded with finite | infinite
  · right
    rw [Binary64.isFinite, Binary64.isFinite, magnitude, magnitude, decide_eq_true_iff,
      decide_eq_true_iff, readLiteral, readLiteral, Binary64.toRat_ofMagnitude first.bounded,
      Binary64.toRat_ofMagnitude second.bounded]
    exact ⟨Nat.lt_of_le_of_lt magnitudes finite, finite,
      Binary64.magnitudeValue_strictMono.monotone magnitudes⟩
  · left
    rw [Binary64.isInfinite, magnitude, infinite, decide_eq_true_iff]

theorem readLiteral_of_readLiteral? {s : Bytes} {x : Binary64} (read : readLiteral? s = some x) :
    x = readLiteral s := by
  unfold readLiteral? at read
  split at read
  · exact (Option.some.inj read).symm
  · cases read

end Decimal

/-! ## The constants of compiled code -/

open Grammar

/-- The constants of compiled code are the literals of the source, in order, and each one is rounded
correctly: to the nearest number, a tie to the even one, and to infinity from the threshold on. So
they are non-negative numbers, and reading literals is monotone. -/
theorem constants_correctly_rounded {source : Bytes} {c : Chunk}
    (compiled : compile source = .ok c) :
    List.Forall₂ (fun t v => ∃ x, v = .number x ∧ x.RoundsTo (numeralValue t.lexeme))
      (numbers (tokenize source)) c.constants.toList ∧
    (∀ v ∈ c.constants.toList,
      v.isNumber = true ∧ v.payload.isNaN = false ∧ v.payload.isNegative = false) ∧
    ∀ s t x y, Decimal.readLiteral? s = some x → Decimal.readLiteral? t = some y →
      numeralValue s ≤ numeralValue t → x.AtMost y := by
  obtain ⟨body, ending, tree, shape, kind, -, -, derives, -, rfl⟩ := compile_emits compiled
  obtain ⟨-, constants, -⟩ := emitted_contents tree ending
  -- The end is no number, so the literals are those of the sentence.
  have literals : numbers (tokenize source) = tree.literals := by
    rw [shape, numbers_append, derives.numbers_eq, numbers_cons_of_ne _ _ (by simp [kind])]
    simp [numbers]
  rw [literals, constants]
  refine ⟨?_, ?_, ?_⟩
  · rw [List.forall₂_map_right_iff, List.forall₂_same]
    intro t _
    exact ⟨_, rfl, Decimal.roundsTo_readLiteral t.lexeme⟩
  · intro v member
    obtain ⟨t, -, rfl⟩ := List.mem_map.mp member
    have rounded := Decimal.roundsTo_readLiteral t.lexeme
    exact ⟨rfl, Decimal.isNaN_readLiteral t.lexeme, rounded.positive⟩
  · intro s t x y first second order
    rw [Decimal.readLiteral_of_readLiteral? first, Decimal.readLiteral_of_readLiteral? second]
    exact Decimal.readLiteral_mono order

/-- Half-way between two neighbours the even one is taken, unless a digit far behind the point says
that the other one is nearer. -/
theorem constants_correctly_rounded_halfway :
    let source := text "9007199254740993*9007199254740993.000000000000000000001"
    let even : Binary64 := ⟨0x4340000000000000⟩
    let odd : Binary64 := ⟨0x4340000000000001⟩
    ∃ c, compile source = .ok c ∧ c.constants.toList = [.number even, .number odd] ∧
      even.RoundsTo (numeralValue (text "9007199254740993")) ∧
      odd.RoundsTo (numeralValue (text "9007199254740993.000000000000000000001")) := by
  intro source even odd
  have pool : (compile source).toOption.map (·.constants.toList) =
      some [.number even, .number odd] := by decide +kernel
  have literals : numbers (tokenize source) =
      [⟨.number, text "9007199254740993", 1, 0⟩,
        ⟨.number, text "9007199254740993.000000000000000000001", 1, 17⟩] := by decide
  cases compiled : compile source with
  | error e =>
    rw [compiled] at pool
    cases pool
  | ok c =>
    rw [compiled] at pool
    have constants : c.constants.toList = [.number even, .number odd] := Option.some.inj pool
    obtain ⟨rounded, -⟩ := constants_correctly_rounded compiled
    rw [literals, constants] at rounded
    cases rounded with
    | cons first rest =>
      cases rest with
      | cons second _ =>
        obtain ⟨x, sameEven, toEven⟩ := first
        obtain ⟨y, sameOdd, toOdd⟩ := second
        obtain rfl : even = x := congrArg Value.payload sameEven
        obtain rfl : odd = y := congrArg Value.payload sameOdd
        exact ⟨c, rfl, constants, toEven, toOdd⟩

end Abacus
