import Abacus.Json.Value
import Abacus.Number.Radix
import Abacus.Text.Utf8

/-!
# Reading JSON

A document is one value with blanks around it. Strings are read into UTF-8: bytes that are no
text and halves of surrogate pairs become the replacement character.

Values nest, so reading one takes fuel; every step that uses up fuel has read at least one byte.
-/
namespace Abacus.Json

def quote : UInt8 := 0x22

def backslash : UInt8 := 0x5c

def isBlank (b : UInt8) : Bool := b == 0x20 || b == 0x09 || b == 0x0a || b == 0x0d

def dropBlanks (s : Bytes) : Bytes := s.dropWhile isBlank

/-! ## Strings -/

/-- What stands for something that is no character. -/
def replacement : Bytes := Utf8.encode 0xfffd

def isHighSurrogate (unit : Nat) : Bool := 0xd800 ≤ unit && unit < 0xdc00

def isLowSurrogate (unit : Nat) : Bool := 0xdc00 ≤ unit && unit < 0xe000

/-- The character of a surrogate pair. -/
def pairCode (high low : Nat) : Nat := 0x10000 + (high - 0xd800) * 0x400 + (low - 0xdc00)

/-- The number in the four hexadecimal digits at the front. -/
def unit? (s : Bytes) : Option Nat :=
  if (s.take 4).length = 4 then numeralIn? 16 (s.take 4) else none

/-- The unit of the numbered escape at the front, its backslash included. -/
def escapedUnit? : Bytes → Option Nat
  | b :: letter :: rest => if b == backslash && letter == byte 'u' then unit? rest else none
  | _ => none

/-- The character of a numbered escape and the number of bytes it takes after its letter. -/
def numbered? (s : Bytes) : Option (Bytes × Nat) := do
  let high ← unit? s
  if isHighSurrogate high then
    match escapedUnit? (s.drop 4) with
    | some low =>
      if isLowSurrogate low then some (Utf8.encode (pairCode high low), 10)
      else some (replacement, 4)
    | none => some (replacement, 4)
  else if isLowSurrogate high then some (replacement, 4)
  else some (Utf8.encode high, 4)

def escapedByte? (letter : UInt8) : Option UInt8 :=
  if letter == byte 'b' then some 0x08
  else if letter == byte 't' then some 0x09
  else if letter == byte 'n' then some 0x0a
  else if letter == byte 'f' then some 0x0c
  else if letter == byte 'r' then some 0x0d
  else if letter == quote || letter == backslash || letter == byte '/' then some letter
  else none

/-- The character of an escape and the number of bytes it takes after the backslash. -/
def escape? : Bytes → Option (Bytes × Nat)
  | [] => none
  | letter :: rest =>
    if letter == byte 'u' then (numbered? rest).map fun (character, width) => (character, width + 1)
    else (escapedByte? letter).map fun b => ([b], 1)

/-- Drops `skip` bytes and then reads up to the closing quote. -/
def stringEnd? : Nat → Bytes → Option (Bytes × Bytes)
  | _, [] => none
  | skip + 1, _ :: rest => stringEnd? skip rest
  | 0, b :: rest =>
    if b == quote then some ([], rest)
    else if b < 0x20 then none
    else
      -- A byte that belongs to no character is read as the replacement character.
      let piece : Option (Bytes × Nat) :=
        if b == backslash then escape? rest
        else
          match Utf8.first? (b :: rest) with
          | some (code, width) => some (Utf8.encode code, width - 1)
          | none => some (replacement, 0)
      match piece with
      | none => none
      | some (character, width) =>
        (stringEnd? width rest).map fun (content, rest) => (character ++ content, rest)

def string? : Bytes → Option (Bytes × Bytes)
  | [] => none
  | b :: rest => if b == quote then stringEnd? 0 rest else none

/-! ## Numbers and words -/

/-- A row of digits, at least one. -/
def isDigits (s : Bytes) : Bool := s ≠ [] && s.all isDigit

/-- An exponent, or nothing. -/
def isExponent : Bytes → Bool
  | [] => true
  | mark :: rest =>
    (mark == byte 'e' || mark == byte 'E') &&
      match rest with
      | sign :: digits =>
        isDigits (if sign == byte '+' || sign == byte '-' then digits else rest)
      | [] => false

/-- A fraction and an exponent, both of which may be left out. -/
def isFraction : Bytes → Bool
  | 0x2e :: rest => isDigits (rest.takeWhile isDigit) && isExponent (rest.dropWhile isDigit)
  | rest => isExponent rest

/-- A whole number without superfluous zeros in front. -/
def isWhole (s : Bytes) : Bool := isDigits s && (s.head? ≠ some 0x30 || s = [0x30])

def unsigned : Bytes → Bytes
  | 0x2d :: rest => rest
  | s => s

def integer? (s : Bytes) : Option Int :=
  if isWhole (unsigned s) then
    (numeralIn? 10 (unsigned s)).map fun n => if s.head? = some 0x2d then -Int.ofNat n else n
  else none

def isNumber (s : Bytes) : Bool :=
  let digits := unsigned s
  isWhole (digits.takeWhile isDigit) && isFraction (digits.dropWhile isDigit)

def isNumberByte (b : UInt8) : Bool := isDigit b || (text "+-.eE").contains b

def number? (s : Bytes) : Option (JsonValue × Bytes) :=
  let spelling := s.takeWhile isNumberByte
  let rest := s.drop spelling.length
  match integer? spelling with
  | some n => some (.integer n, rest)
  | none => if isNumber spelling then some (.decimal spelling, rest) else none

def words : List (String × JsonValue) :=
  [("null", .null), ("true", .bool true), ("false", .bool false)]

def word? (s : Bytes) : Option (JsonValue × Bytes) :=
  (words.find? fun w => (text w.1).isPrefixOf s).map fun w => (w.2, s.drop (text w.1).length)

/-! ## Values -/

mutual
def value? : Nat → Bytes → Option (JsonValue × Bytes)
  | 0, _ => none
  | fuel + 1, s =>
    match dropBlanks s with
    | [] => none
    | 0x5b :: rest =>
      match dropBlanks rest with
      | 0x5d :: rest => some (.array [], rest)
      | rest => (items? fuel rest).map fun (items, rest) => (.array items, rest)
    | 0x7b :: rest =>
      match dropBlanks rest with
      | 0x7d :: rest => some (.object [], rest)
      | rest => (members? fuel rest).map fun (members, rest) => (.object members, rest)
    | b :: rest =>
      if b == quote then (string? (b :: rest)).map fun (content, rest) => (.string content, rest)
      else if isNumberByte b then number? (b :: rest)
      else word? (b :: rest)

/-- Reads the items of an array, at least one, up to its closing bracket. -/
def items? : Nat → Bytes → Option (List JsonValue × Bytes)
  | 0, _ => none
  | fuel + 1, s => do
    let (item, rest) ← value? fuel s
    match dropBlanks rest with
    | 0x2c :: rest => (items? fuel rest).map fun (others, rest) => (item :: others, rest)
    | 0x5d :: rest => some ([item], rest)
    | _ => none

/-- Reads the members of an object, at least one, up to its closing brace. -/
def members? : Nat → Bytes → Option (List (Bytes × JsonValue) × Bytes)
  | 0, _ => none
  | fuel + 1, s => do
    let (name, rest) ← string? (dropBlanks s)
    match dropBlanks rest with
    | 0x3a :: rest =>
      let (value, rest) ← value? fuel rest
      match dropBlanks rest with
      | 0x2c :: rest =>
        (members? fuel rest).map fun (others, rest) => ((name, value) :: others, rest)
      | 0x7d :: rest => some ([(name, value)], rest)
      | _ => none
    | _ => none
end

def read? (s : Bytes) : Option JsonValue :=
  match value? (2 * s.length + 1) s with
  | some (value, rest) => if dropBlanks rest = [] then some value else none
  | none => none

end Abacus.Json
