import Abacus.Number.Radix
import Abacus.Number.Word

/-!
# Integers on the command line

An integer may have a sign and be written in base 2, 8, 10 or 16: a leading zero means octal, a
zero with a letter the base of that letter. Underscores may stand between digits and after the mark
of the base. The number has to fit into 64 bits.
-/
namespace Abacus.CommandLine

inductive IntegerFault
  | malformed
  | outOfRange
  deriving DecidableEq, Repr

def IntegerFault.message : IntegerFault → Bytes
  | malformed => text "invalid syntax"
  | outOfRange => text "value out of range"

def underscore : UInt8 := 0x5f

/-- The base of an unsigned numeral, the digits after its mark, and whether there is a letter in
the mark. -/
def splitBase : Bytes → Nat × Bytes × Bool
  | 0x30 :: letter :: digit :: rest =>
    let small := letter ||| 0x20
    if small == byte 'b' then (2, digit :: rest, true)
    else if small == byte 'o' then (8, digit :: rest, true)
    else if small == byte 'x' then (16, digit :: rest, true)
    else (8, letter :: digit :: rest, false)
  | 0x30 :: rest => (8, rest, false)
  | digits => (10, digits, false)

/-- Reads digits on top of a number and passes over underscores. The number is too large as soon as
it leaves the range of 64 bits, whatever follows. -/
def accumulate (base : Nat) (n : Nat) : Bytes → Except IntegerFault Nat
  | [] => .ok n
  | b :: rest =>
    if b == underscore then accumulate base n rest
    else
      match digitIn? base b with
      | none => .error .malformed
      | some d =>
        if wordCount ≤ n * base + d then .error .outOfRange else accumulate base (n * base + d) rest

/-- Every underscore stands between two digits; the mark of a base counts as a digit. -/
def underscoresFit (marked : Bool) (digits : Bytes) : Bool :=
  match Bytes.splitOn underscore digits with
  | [] => true
  | first :: others => (marked || others = [] || first ≠ []) && others.all (· ≠ [])

def unsigned (s : Bytes) : Except IntegerFault Nat :=
  if s = [] then .error .malformed
  else
    let (base, digits, marked) := splitBase s
    match accumulate base 0 digits with
    | .error e => .error e
    | .ok n =>
      if underscoresFit (marked || s.head? = some 0x30) digits then .ok n else .error .malformed

def integer (s : Bytes) : Except IntegerFault Int :=
  match s with
  | 0x2d :: rest => do
    let n ← unsigned rest
    if n ≤ signedLimit then .ok (-(n : Int)) else .error .outOfRange
  | s => do
    let n ← unsigned (if s.head? = some 0x2b then s.drop 1 else s)
    if n < signedLimit then .ok n else .error .outOfRange

end Abacus.CommandLine
