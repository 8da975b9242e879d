import Abacus.Text.Utf8

/-!
# Surrounding blanks

A blank is a character with the Unicode property `White_Space`; there are twenty-five of them.
Trimming works on bytes: UTF-8 is self-synchronising, so a text ends in a blank character exactly
when it ends in the bytes of one, and the same test, on reversed bytes, serves both ends.
-/
namespace Abacus.Text

/-- The code points that count as blank, the space first because it is the common one. -/
def blanks : List Nat :=
  [0x20, 0x09, 0x0a, 0x0b, 0x0c, 0x0d, 0x85, 0xa0, 0x1680, 0x2000, 0x2001, 0x2002, 0x2003,
    0x2004, 0x2005, 0x2006, 0x2007, 0x2008, 0x2009, 0x200a, 0x2028, 0x2029, 0x202f, 0x205f,
    0x3000]

def blankBytes : List Bytes := blanks.map Utf8.encode

/-- Drops `skip` bytes and then every leading occurrence of one of the marks. -/
def dropMarks (marks : List Bytes) : Nat → Bytes → Bytes
  | _, [] => []
  | skip + 1, _ :: rest => dropMarks marks skip rest
  | 0, b :: rest =>
    match marks.find? (·.isPrefixOf (b :: rest)) with
    | some mark => dropMarks marks (mark.length - 1) rest
    | none => b :: rest

def trimStart (s : Bytes) : Bytes := dropMarks blankBytes 0 s

def trimEnd (s : Bytes) : Bytes :=
  (dropMarks (blankBytes.map List.reverse) 0 s.reverse).reverse

/-- The text without the blanks at its two ends. -/
def trim (s : Bytes) : Bytes := trimEnd (trimStart s)

end Abacus.Text
