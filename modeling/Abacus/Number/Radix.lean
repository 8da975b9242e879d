import Abacus.Text.Bytes

/-!
# Numerals in a base

Digits are `0` to `9` and then letters, in either case. A row of digits is refused if one of them
is not below the base.

The value of a row is the sum of its digits with the powers of the base as weights. A literal may
be as long as a whole line of input, and adding up one digit at a time would then multiply a large
number for each of them; `digitsValue` first pairs the digits up again and again, and
`digitsValue_eq_weigh` says that this is the same sum.
-/
namespace Abacus

/-- The value of digits in a base, the least significant first. -/
def weigh (base : Nat) (digits : List Nat) : Nat := digits.foldr (fun d n => d + base * n) 0

/-- Two digits of a base make one digit of its square. -/
def pairDigits (base : Nat) : List Nat → List Nat
  | low :: high :: rest => (low + base * high) :: pairDigits base rest
  | rest => rest

/-- The value of digits, the least significant first, after `rounds` rounds of pairing. -/
def pairedValue : (rounds base : Nat) → List Nat → Nat
  | 0, base, digits => weigh base digits
  | rounds + 1, base, digits => pairedValue rounds (base * base) (pairDigits base digits)

/-- The value of digits, the least significant first. Each round halves the row, so the number of
rounds that leaves one or two digits is the binary logarithm of its length. -/
def digitsValue (base : Nat) (digits : List Nat) : Nat :=
  pairedValue digits.length.log2 base digits

theorem weigh_pairDigits (base : Nat) (digits : List Nat) :
    weigh (base * base) (pairDigits base digits) = weigh base digits := by
  fun_induction pairDigits base digits with
  | case1 low high rest ih =>
    simp only [weigh, List.foldr_cons] at ih ⊢
    rw [ih, Nat.mul_add, ← Nat.mul_assoc, Nat.add_assoc]
  | case2 rest h =>
    match rest, h with
    | [], _ => rfl
    | [_], _ => rfl
    | low :: high :: others, h => exact absurd rfl (h low high others)

theorem pairedValue_eq_weigh (rounds base : Nat) (digits : List Nat) :
    pairedValue rounds base digits = weigh base digits := by
  induction rounds generalizing base digits with
  | zero => rfl
  | succ rounds ih => rw [pairedValue, ih, weigh_pairDigits]

theorem digitsValue_eq_weigh (base : Nat) (digits : List Nat) :
    digitsValue base digits = weigh base digits :=
  pairedValue_eq_weigh _ base digits

def digitValue? (b : UInt8) : Option Nat :=
  if 0x30 ≤ b && b ≤ 0x39 then some (b.toNat - 0x30)
  else if 0x61 ≤ b && b ≤ 0x66 then some (b.toNat - 0x57)
  else if 0x41 ≤ b && b ≤ 0x46 then some (b.toNat - 0x37)
  else none

/-- The value of a digit of the given base, which is at most sixteen. -/
def digitIn? (base : Nat) (b : UInt8) : Option Nat :=
  (digitValue? b).filter (· < base)

/-- The number that a row of digits stands for; the empty row stands for zero. -/
def numeralIn? (base : Nat) (s : Bytes) : Option Nat :=
  s.foldlM (fun n b => (digitIn? base b).map (n * base + ·)) 0

end Abacus
