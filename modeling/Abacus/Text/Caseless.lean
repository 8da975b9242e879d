import Abacus.Text.Utf8

/-!
# Case

Names are compared without regard to case. All names in use are ASCII; the only other characters
that are a case of an ASCII letter are the long s and the Kelvin sign.

Where it is only asked how near a text comes to an ASCII name, it is brought into small letters.
What another character is brought into cannot be seen then, only the number of its bytes, so a
table of the capitals whose small letter has another length is enough.
-/
namespace Abacus.Text

/-- The small letter of a capital, other characters as they are. -/
def smallLetter (code : Nat) : Nat :=
  if 0x41 ≤ code ∧ code ≤ 0x5a then code + 0x20
  else if code = 0x17f then 0x73
  else if code = 0x212a then 0x6b
  else code

/-- A text with small letters for all cases of ASCII letters. -/
def foldCase (s : Bytes) : Bytes :=
  (Utf8.pieces s).flatMap fun piece =>
    match piece with
    | .scalar code => Utf8.encode (smallLetter code)
    | .stray b => [b]

def sameCaseless (s t : Bytes) : Bool := foldCase s == foldCase t

/-- The capitals outside ASCII whose small letter has another length in UTF-8, with that letter. -/
def resizedCapitals : List (Nat × Nat) :=
  [(0x130, 0x69), (0x23a, 0x2c65), (0x23e, 0x2c66), (0x1e9e, 0xdf), (0x2126, 0x3c9), (0x212a, 0x6b),
    (0x212b, 0xe5), (0x2c62, 0x26b), (0x2c64, 0x27d), (0x2c6d, 0x251), (0x2c6e, 0x271),
    (0x2c6f, 0x250), (0x2c70, 0x252), (0x2c7e, 0x23f), (0x2c7f, 0x240), (0xa78d, 0x265),
    (0xa7aa, 0x266), (0xa7ab, 0x25c), (0xa7ac, 0x261), (0xa7ad, 0x26c), (0xa7ae, 0x26a),
    (0xa7b0, 0x29e), (0xa7b1, 0x287), (0xa7b2, 0x29d), (0xa7c5, 0x282), (0xa7cb, 0x264),
    (0xa7dc, 0x19b)]

/-- The text in small letters, except for capitals outside ASCII whose small letter has the same
length. A byte that belongs to no character becomes the replacement character. -/
def toSmall (s : Bytes) : Bytes :=
  (Utf8.pieces s).flatMap fun piece =>
    match piece with
    | .scalar code =>
      if 0x41 ≤ code ∧ code ≤ 0x5a then Utf8.encode (code + 0x20)
      else Utf8.encode ((resizedCapitals.lookup code).getD code)
    | .stray _ => Utf8.encode 0xfffd

end Abacus.Text
