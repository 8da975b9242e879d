import Abacus.Proofs.PrintedDecimals
import Abacus.Proofs.Spacing

/-!
# Printed results can be read back

A finite number is printed as its magnitude, behind a minus sign if it is negative. The magnitude
can be read off (`NumberFormat.printed_magnitude`), so different numbers are printed differently.
Without an exponent the printed magnitude is a numeral, and the printed number is a source: a
literal or a negated literal, whose value is the number.
-/
namespace Abacus

open Grammar

/-! ## Numerals as sources -/

theorem not_startsLayout_of_numeral {numeral : Bytes} (matched : Pattern.number.Matches numeral) :
    ¬ StartsLayout numeral := by
  obtain ⟨b, s, rfl, digit⟩ := matched.cons
  rintro (⟨_, first, space⟩ | slashes)
  · obtain rfl := Option.some.inj first
    rw [isSpace_of_visible (.inr digit)] at space
    cases space
  · obtain ⟨rfl, -⟩ := List.cons_prefix_cons.mp slashes
    cases digit

/-- A numeral is scanned as one number, and then the end. -/
theorem scans_numeral {numeral : Bytes} (matched : Pattern.number.Matches numeral)
    (offset line : Nat) :
    ∃ number ending, Cursor.Scans ⟨numeral, offset, line⟩ [number, ending] ∧
      number.kind = .number ∧ number.lexeme = numeral ∧ ending.kind = .endOfInput := by
  have lexical : (⟨.number, numeral, line, offset⟩ : Token).Lexical :=
    ⟨.number, matched, rfl, not_startsLayout_of_numeral matched⟩
  have alone : ∀ b ∈ ([] : Bytes).head?, isSpace b = true := by simp
  have first := Cursor.next_of_lexical lexical alone offset line
  rw [List.append_nil] at first
  exact ⟨_, _, .of_next first (by simp) (.of_next_end rfl rfl), rfl, rfl, rfl⟩

/-- A source that scans as a phrase has the value of the phrase's tree, on any machine. -/
theorem interpret_of_scans {source : Bytes} {body : List Token} {ending : Token} {tree : Tree}
    (scans : Cursor.Scans (Cursor.start source) (body ++ [ending]))
    (kind : ending.kind = .endOfInput) (clean : ∀ t ∈ body, t.kind ≠ .error)
    (derives : Derives .sum body tree) (fits : tree.literals.length ≤ Chunk.maxConstants) :
    ∃ c, compile source = .ok c ∧ ∀ m : Machine,
      ((m.useFrontEnd (some .standard)).interpret source).result =
        .ok (.number (tree.eval m.arithmetic)) := by
  have compiled := compile_of_scans scans kind clean derives fits
  refine ⟨_, compiled, fun m => ?_⟩
  rw [Machine.interpret_standard, compiled]
  exact (Machine.execute_of_run (m.useFrontEnd (some .standard)) _ _
    (Run.run_emitted m.arithmetic tree ending fits)).1

theorem interpret_numeral {numeral : Bytes} (matched : Pattern.number.Matches numeral) :
    ∃ c, compile numeral = .ok c ∧ ∀ m : Machine,
      ((m.useFrontEnd (some .standard)).interpret numeral).result =
        .ok (.number (Decimal.readLiteral numeral)) := by
  obtain ⟨number, ending, scans, kind, rfl, last⟩ := scans_numeral matched 0 1
  have whole : Cursor.Scans (Cursor.start number.lexeme) ([number] ++ [ending]) := scans
  exact interpret_of_scans whole last (by simp [kind]) (.single (.single (.literal kind)))
    (by simp [Tree.literals, Chunk.maxConstants])

theorem interpret_negated_numeral {numeral : Bytes} (matched : Pattern.number.Matches numeral) :
    ∃ c, compile (byte '-' :: numeral) = .ok c ∧ ∀ m : Machine,
      ((m.useFrontEnd (some .standard)).interpret (byte '-' :: numeral)).result =
        .ok (.number (m.arithmetic.negate (Decimal.readLiteral numeral))) := by
  obtain ⟨number, ending, scans, kind, rfl, last⟩ := scans_numeral matched 1 1
  let sign : Token := ⟨.punctuator .minus, [0x2d], 1, 0⟩
  have minus : (Cursor.start (byte '-' :: number.lexeme)).next =
      (sign, ⟨number.lexeme, 1, 1⟩) := rfl
  have whole : Cursor.Scans (Cursor.start (byte '-' :: number.lexeme))
      ([sign, number] ++ [ending]) := .of_next minus (by simp [sign]) scans
  exact interpret_of_scans whole last (by simp [kind, sign])
    (.single (.single (.negation rfl (.literal kind))))
    (by simp [Tree.literals, Chunk.maxConstants])

/-! ## Printed numbers -/

namespace NumberFormat

/-- Read as a literal, a numeral that a magnitude is printed as is the magnitude. -/
theorem readLiteral_magnitude {f : NumberFormat} {m : Nat}
    (bounded : m ≤ Binary64.infinityMagnitude) (plain : byte 'e' ∉ f.magnitude m) :
    Pattern.number.Matches (f.magnitude m) ∧
      Decimal.readLiteral (f.magnitude m) = Binary64.ofMagnitude false m := by
  obtain ⟨v, printed, rounds⟩ := f.printed_magnitude bounded
  obtain ⟨matched, rfl⟩ := printed.numeral plain
  have read := Decimal.rounds_readLiteral (f.magnitude m)
  rw [Decimal.readLiteral, rounds.unique read]
  exact ⟨matched, rfl⟩

theorem magnitude_injective {f : NumberFormat} {m n : Nat}
    (first : m ≤ Binary64.infinityMagnitude) (second : n ≤ Binary64.infinityMagnitude)
    (same : f.magnitude m = f.magnitude n) : m = n := by
  obtain ⟨v, printed, rounds⟩ := f.printed_magnitude first
  obtain ⟨w, printed', rounds'⟩ := f.printed_magnitude second
  -- Both are the exact value of what was printed.
  obtain rfl : v = w := by rw [← printed.value_eq, same, printed'.value_eq]
  exact rounds'.unique rounds

/-- A magnitude is not printed with a sign. -/
theorem magnitude_ne_minus {f : NumberFormat} {m : Nat} (bounded : m ≤ Binary64.infinityMagnitude)
    (s : Bytes) : f.magnitude m ≠ byte '-' :: s := by
  intro signed
  obtain ⟨_, printed, -⟩ := f.printed_magnitude bounded
  obtain ⟨b, t, unsigned, digit⟩ := printed.starts_with_digit
  obtain ⟨rfl, -⟩ := List.cons.inj (signed.symm.trans unsigned)
  cases digit

end NumberFormat

/-- A finite number is printed as its magnitude, behind a minus sign if it is negative. -/
theorem Binary64.print_finite {x : Binary64} (finite : x.isFinite = true) :
    ∃ m < infinityMagnitude,
      x = ofMagnitude false m ∧ x.print = NumberFormat.result.magnitude m ∨
        x = ofMagnitude true m ∧ x.print = byte '-' :: NumberFormat.result.magnitude m := by
  have small : x.magnitude < infinityMagnitude := by simpa [isFinite] using finite
  have number : x.isNaN = false := by simp [isNaN, small.le]
  have bounded : x.isInfinite = false := by simp [isInfinite, small.ne]
  have minus : text "-" = [byte '-'] := rfl
  have parts := x.ofMagnitude_magnitude
  refine ⟨x.magnitude, small, ?_⟩
  cases sign : x.isNegative with
  | false =>
    left
    rw [sign] at parts
    exact ⟨parts.symm, by simp [print, NumberFormat.print, number, bounded, sign]⟩
  | true =>
    right
    rw [sign] at parts
    exact ⟨parts.symm, by simp [print, NumberFormat.print, number, bounded, sign, minus]⟩

theorem Binary64.print_injective {x y : Binary64} (first : x.isFinite = true)
    (second : y.isFinite = true) (same : x.print = y.print) : x = y := by
  obtain ⟨m, small, one⟩ := print_finite first
  obtain ⟨n, small', other⟩ := print_finite second
  -- Numbers of different signs are printed differently, as no magnitude starts with a sign.
  rcases one with ⟨rfl, printed⟩ | ⟨rfl, printed⟩ <;>
    rcases other with ⟨rfl, printed'⟩ | ⟨rfl, printed'⟩ <;> rw [printed, printed'] at same
  · rw [NumberFormat.magnitude_injective small.le small'.le same]
  · exact absurd same (NumberFormat.magnitude_ne_minus small.le _)
  · exact absurd same.symm (NumberFormat.magnitude_ne_minus small'.le _)
  · rw [NumberFormat.magnitude_injective small.le small'.le (List.cons.inj same).2]

/-- Every finite number that is printed without an exponent is read back: what is printed compiles,
and any machine that negates by changing the sign evaluates it to that very number, whatever it did
before. No two finite numbers are printed alike. -/
theorem printed_numbers_read_back (x : Binary64) (finite : x.isFinite = true) :
    (byte 'e' ∉ (Value.number x).print →
      ∃ c, compile (Value.number x).print = .ok c ∧
        ∀ m : Machine, m.arithmetic.negate = Binary64.negate →
          ((m.useFrontEnd (some .standard)).interpret (Value.number x).print).result =
            .ok (.number x)) ∧
    ∀ y : Binary64, y.isFinite = true → (Value.number y).print = (Value.number x).print →
      y = x := by
  have print (z : Binary64) : (Value.number z).print = z.print := rfl
  rw [print]
  refine ⟨?_, fun y finite' same => Binary64.print_injective finite' finite same⟩
  intro plain
  obtain ⟨m, small, ⟨rfl, printed⟩ | ⟨rfl, printed⟩⟩ := Binary64.print_finite finite
  · rw [printed] at plain ⊢
    obtain ⟨matched, read⟩ := NumberFormat.readLiteral_magnitude small.le plain
    obtain ⟨c, compiled, returned⟩ := interpret_numeral matched
    refine ⟨c, compiled, fun machine _ => ?_⟩
    rw [returned, read]
  · rw [printed] at plain ⊢
    -- The sign is no marker either, so the magnitude behind it is printed without an exponent.
    have unmarked := mt (List.mem_cons_of_mem (byte '-')) plain
    obtain ⟨matched, read⟩ := NumberFormat.readLiteral_magnitude small.le unmarked
    obtain ⟨c, compiled, returned⟩ := interpret_negated_numeral matched
    refine ⟨c, compiled, fun machine negates => ?_⟩
    have inside : m < Binary64.signWeight := small.trans (by decide)
    rw [returned, read, negates, Binary64.negate_ofMagnitude inside]

/-- The negative number nearest to a tenth is printed as `-0.1` and read back. -/
theorem printed_numbers_read_back_tenth :
    let x : Binary64 := ⟨0xbfb999999999999a⟩
    (Value.number x).print = text "-0.1" ∧ ∃ c, compile (text "-0.1") = .ok c ∧
      ((Machine.fresh.useFrontEnd (some .standard)).interpret (text "-0.1")).result =
        .ok (.number x) := by
  intro x
  have printed : (Value.number x).print = text "-0.1" := by decide +kernel
  obtain ⟨readBack, -⟩ := printed_numbers_read_back x (by decide)
  rw [printed] at readBack
  obtain ⟨c, compiled, returned⟩ := readBack (by decide)
  exact ⟨printed, c, compiled, returned _ rfl⟩

end Abacus
