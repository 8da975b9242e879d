import Abacus.Text.Printable
import Abacus.Text.Utf8

/-!
# Quoted text

Bytes between double quotes, so that the reader can tell exactly which bytes were meant: visible
characters stand for themselves, the usual controls have one-letter escapes, other characters are
written by number, and a stray byte that belongs to no character is written as that byte.
-/
namespace Abacus.Text

def escapeLetter? (code : Nat) : Option UInt8 :=
  match code with
  | 0x07 => some (byte 'a')
  | 0x08 => some (byte 'b')
  | 0x0c => some (byte 'f')
  | 0x0a => some (byte 'n')
  | 0x0d => some (byte 'r')
  | 0x09 => some (byte 't')
  | 0x0b => some (byte 'v')
  | 0x5c => some 0x5c
  | 0x22 => some 0x22
  | _ => none

def escape : Utf8.Piece → Bytes
  | .stray b => text "\\x" ++ hexadecimal 2 b.toNat
  | .scalar code =>
    match escapeLetter? code with
    | some letter => [0x5c, letter]
    | none =>
      if isPrintable code then Utf8.encode code
      else if code < 0x80 then text "\\x" ++ hexadecimal 2 code
      else if code < 0x10000 then text "\\u" ++ hexadecimal 4 code
      else text "\\U" ++ hexadecimal 8 code

def quote (s : Bytes) : Bytes :=
  [0x22] ++ (Utf8.pieces s).flatMap escape ++ [0x22]

/-- One character in single quotes; between those the double quote needs no escape, the single one
does. -/
def quoteCharacter (code : Nat) : Bytes :=
  [0x27] ++ (if code = 0x27 then [0x5c, 0x27] else if code = 0x22 then [0x22]
    else escape (.scalar code)) ++ [0x27]

end Abacus.Text
