import Abacus.Number.Decimal
import Abacus.Number.Word

/-!
# Words of a settings document

Values that are written without quotes: truth values, integers, floats and moments in time. The
integers are those of 64 bits. Underscores may stand between digits, one at a time, and a decimal
number has no superfluous leading zero. Floats and moments are checked and otherwise kept as
written, since no setting is of these types.
-/
namespace Abacus.Toml

inductive Scalar
  | text (s : Bytes)
  | integer (n : Int)
  | float (numeral : Bytes)
  | boolean (b : Bool)
  | moment (s : Bytes)
  deriving DecidableEq, Repr

def underscore : UInt8 := 0x5f

/-- Digits with single underscores between them. -/
def isDigitGroup (base : Nat) (s : Bytes) : Bool :=
  (Bytes.splitOn underscore s).all fun run => run ≠ [] && run.all fun b => (digitIn? base b).isSome

def digitGroup? (base : Nat) (s : Bytes) : Option Nat :=
  if isDigitGroup base s then numeralIn? base (s.filter (· != underscore)) else none

/-- The value of a decimal digit group without superfluous zeros in front. -/
def plainGroup? (s : Bytes) : Option Nat :=
  if s.head? = some 0x30 ∧ s ≠ [0x30] then none else digitGroup? 10 s

/-- Splits off a plus or minus sign; the flag says whether it was a minus. -/
def splitSign : Bytes → Bool × Bytes
  | 0x2d :: rest => (true, rest)
  | 0x2b :: rest => (false, rest)
  | s => (false, s)

/-- An integer: decimal with an optional sign, or in another base after its mark. -/
def integer? (s : Bytes) : Option Int :=
  let value : Option Int :=
    match s with
    | 0x30 :: 0x62 :: digits => (digitGroup? 2 digits).map Int.ofNat
    | 0x30 :: 0x6f :: digits => (digitGroup? 8 digits).map Int.ofNat
    | 0x30 :: 0x78 :: digits => (digitGroup? 16 digits).map Int.ofNat
    | s =>
      let (negative, digits) := splitSign s
      (plainGroup? digits).map fun n => if negative then -Int.ofNat n else Int.ofNat n
  value.filter isSignedWord

/-- The fraction of a float: a point and a digit group. -/
def fraction? : Bytes → Option (Bytes × Bytes)
  | 0x2e :: rest =>
    let digits := rest.takeWhile fun b => isDigit b || b == underscore
    if isDigitGroup 10 digits then some (digits, rest.drop digits.length) else none
  | rest => some ([], rest)

/-- The exponent of a float; everything must have been read after it. -/
def exponent? : Bytes → Option Int
  | [] => some 0
  | mark :: rest =>
    if mark == 0x65 || mark == 0x45 then
      let (negative, digits) := splitSign rest
      (digitGroup? 10 digits).map fun n => if negative then -Int.ofNat n else Int.ofNat n
    else none

/-- A finite decimal float: sign, digits, fraction and exponent. The fraction or the exponent may be
left out but not both: a row of digits alone is an integer, even if no value can hold it. -/
def isFiniteFloat (s : Bytes) : Bool :=
  let (_, unsigned) := splitSign s
  let whole := unsigned.takeWhile fun b => isDigit b || b == underscore
  match plainGroup? whole, fraction? (unsigned.drop whole.length) with
  | _, some ([], []) => false
  | some _, some (fraction, rest) =>
    match exponent? rest with
    | some e =>
      let digits := (whole ++ fraction).filter (· != underscore)
      let places := (fraction.filter (· != underscore)).length
      Decimal.isFinite ⟨Decimal.wholeNumber digits, e - places⟩
    | none => false
  | _, _ => false

/-- Infinities and not-a-number, with an optional sign. -/
def isSpecialFloat (s : Bytes) : Bool :=
  let (_, unsigned) := splitSign s
  unsigned = text "inf" || unsigned = text "nan"

/-- The scalar that an unquoted word stands for. -/
def word? (s : Bytes) : Option Scalar :=
  if s = text "true" then some (.boolean true)
  else if s = text "false" then some (.boolean false)
  else
    match integer? s with
    | some n => some (.integer n)
    | none => if isSpecialFloat s || isFiniteFloat s then some (.float s) else none

/-! ## Moments -/

/-- A number of exactly `width` decimal digits. -/
def fixedNumber? (width : Nat) (s : Bytes) : Option (Nat × Bytes) :=
  if (s.take width).length = width && (s.take width).all isDigit then
    some (Decimal.wholeNumber (s.take width), s.drop width)
  else none

/-- Passes over one given byte. -/
def expect? (b : UInt8) : Bytes → Option Bytes
  | first :: rest => if first == b then some rest else none
  | [] => none

def isLeapYear (year : Nat) : Bool := year % 4 = 0 && (year % 100 ≠ 0 || year % 400 = 0)

def daysIn (year month : Nat) : Nat :=
  if month = 2 then (if isLeapYear year then 29 else 28)
  else if month = 4 || month = 6 || month = 9 || month = 11 then 30
  else 31

/-- Passes over a date of the calendar. -/
def date? (s : Bytes) : Option Bytes := do
  let (year, s) ← fixedNumber? 4 s
  let (month, s) ← fixedNumber? 2 (← expect? 0x2d s)
  let (day, s) ← fixedNumber? 2 (← expect? 0x2d s)
  if 1 ≤ month ∧ month ≤ 12 ∧ 1 ≤ day ∧ day ≤ daysIn year month then some s else none

/-- Passes over seconds and their fraction, which may be left out. -/
def seconds? (s : Bytes) : Option Bytes :=
  match s with
  | 0x3a :: rest => do
    let (second, rest) ← fixedNumber? 2 rest
    if 60 ≤ second then none
    else
      match rest with
      | 0x2e :: digits =>
        let count := (digits.takeWhile isDigit).length
        if count = 0 then none else some (digits.drop count)
      | rest => some rest
  | s => some s

/-- Passes over a time of day. -/
def time? (s : Bytes) : Option Bytes := do
  let (hour, s) ← fixedNumber? 2 s
  let (minute, s) ← fixedNumber? 2 (← expect? 0x3a s)
  if hour < 24 ∧ minute < 60 then seconds? s else none

/-- Whether the bytes are an offset from universal time. -/
def isOffset : Bytes → Bool
  | [] => false
  | sign :: rest =>
    if sign == 0x5a then rest = []
    else if sign == 0x2b || sign == 0x2d then
      let parts := do
        let (hours, rest) ← fixedNumber? 2 rest
        let (minutes, rest) ← fixedNumber? 2 (← expect? 0x3a rest)
        some (hours ≤ 24 && minutes ≤ 60 && rest = [])
      parts.getD false
    else false

/-- A date, a time, or both with an optional offset. The mark between date and time and the mark
of universal time may be small letters, and a space may stand for the former. -/
def isMoment (s : Bytes) : Bool :=
  let s := s.map fun b => if b == 0x74 || b == 0x20 then 0x54 else if b == 0x7a then 0x5a else b
  match date? s with
  | some [] => true
  | some rest =>
    match expect? 0x54 rest >>= time? with
    | some [] => true
    | some offset => isOffset offset
    | none => false
  | none => time? s = some []

/-- The bytes that moments are made of. -/
def isMomentByte (b : UInt8) : Bool := isDigit b || (text "-:Tt .Zz+").contains b

end Abacus.Toml
