/-!
# Byte strings

Source text, files and everything that is printed are sequences of bytes, not of characters: a
token may start in the middle of a malformed character, and an error message quotes whatever
bytes the source held. A list makes every scan a recursion on what is left to read.
-/
namespace Abacus

abbrev Bytes := List UInt8

/-- The UTF-8 bytes of a literal piece of text. -/
def text (s : String) : Bytes := s.toUTF8.data.toList

def byte (c : Char) : UInt8 := UInt8.ofNat c.toNat

def newline : UInt8 := 0x0a

def isDigit (b : UInt8) : Bool := 0x30 ≤ b && b ≤ 0x39

/-- ASCII letters and the underscore: what a name may start with. -/
def isLetter (b : UInt8) : Bool :=
  (0x61 ≤ b && b ≤ 0x7a) || (0x41 ≤ b && b ≤ 0x5a) || b == 0x5f

namespace Bytes

def newlines (s : Bytes) : Nat := s.count newline

/-- Puts one byte in front of the first line. -/
def consLine (b : UInt8) : List Bytes → List Bytes
  | [] => [[b]]
  | line :: others => (b :: line) :: others

/-- The pieces between the separators: always one more than there are separators. -/
def splitOn (separator : UInt8) (s : Bytes) : List Bytes :=
  s.foldr (fun b rest => if b == separator then [] :: rest else consLine b rest) [[]]

/-- The lines between the line breaks: always one more than there are line breaks, so that the
empty text has one empty line. -/
def lines (s : Bytes) : List Bytes := splitOn newline s

@[simp] theorem lines_nil : lines [] = [[]] := rfl

theorem lines_cons (b : UInt8) (s : Bytes) :
    lines (b :: s) = if b == newline then [] :: lines s else consLine b (lines s) := rfl

def dropCarriageReturn (s : Bytes) : Bytes :=
  if s.getLast? == some 0x0d then s.dropLast else s

def fill (n : Nat) (b : UInt8) : Bytes := List.replicate n b

/-- Right-aligns in at least `width` columns. -/
def padLeft (width : Nat) (pad : UInt8) (s : Bytes) : Bytes := fill (width - s.length) pad ++ s

/-- Left-aligns in at least `width` columns. -/
def padRight (width : Nat) (pad : UInt8) (s : Bytes) : Bytes := s ++ fill (width - s.length) pad

/-- Joins the parts with a separator between them. -/
def join (separator : Bytes) : List Bytes → Bytes
  | [] => []
  | [part] => part
  | part :: others => part ++ separator ++ join separator others

/-- The part before the first separator and, if there is one, the part after it. -/
def cut (separator : UInt8) (s : Bytes) : Bytes × Bytes :=
  (s.takeWhile (· != separator), (s.dropWhile (· != separator)).drop 1)

/-- ASCII capitals become small letters; other bytes stay. -/
def toLower (s : Bytes) : Bytes :=
  s.map fun b => if 0x41 ≤ b && b ≤ 0x5a then b + 0x20 else b

end Bytes

def decimal (n : Nat) : Bytes := (Nat.toDigits 10 n).map byte

/-- The decimal digits of an integer, after a minus sign if it is negative. -/
def signedDecimal (n : Int) : Bytes :=
  if n < 0 then byte '-' :: decimal n.natAbs else decimal n.natAbs

def hexDigit (n : Nat) : UInt8 :=
  if n < 10 then UInt8.ofNat (0x30 + n) else UInt8.ofNat (0x57 + n)

/-- A number in at least `width` hexadecimal digits, small letters. -/
def hexadecimal (width n : Nat) : Bytes :=
  Bytes.padLeft width (byte '0') ((Nat.toDigits 16 n).map byte)

/-- A byte as two hexadecimal capitals. -/
def hexByte (b : UInt8) : Bytes :=
  let digit (n : Nat) : UInt8 :=
    if n < 10 then UInt8.ofNat (0x30 + n) else UInt8.ofNat (0x37 + n)
  [digit (b.toNat / 16), digit (b.toNat % 16)]

end Abacus
