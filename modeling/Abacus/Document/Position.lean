import Abacus.Text.Bytes

/-!
# Positions in a document

An offset counts bytes from the start of a document; a position is a line and a column, both
counted from zero, columns in bytes. The two directions are computed differently: a position is
found by counting the line breaks before an offset, an offset by adding up the lengths of lines.
-/
namespace Abacus

structure Position where
  line : Nat
  character : Nat
  deriving DecidableEq, Repr

structure Range where
  start : Position
  stop : Position
  deriving DecidableEq, Repr

/-- Coordinates are kept in 32 bits. -/
def coordinate (n : Int) : Nat := (n % 4294967296).toNat

namespace Document

/-- The position of an offset; offsets past the end count as the end. -/
def positionAt (s : Bytes) (offset : Nat) : Position :=
  let before := s.take offset
  ⟨coordinate (Bytes.newlines before),
    coordinate (before.reverse.takeWhile (· != newline)).length⟩

/-- The bytes of some lines, each with its line break. -/
def linesLength (lines : List Bytes) : Nat :=
  lines.foldr (fun line total => line.length + 1 + total) 0

/-- The offset of a position, if its line exists. A column past the end of the line counts as the
end of the line. -/
def offsetAt? (s : Bytes) (p : Position) : Option Nat :=
  let lines := Bytes.lines s
  lines[p.line]?.map fun line => linesLength (lines.take p.line) + min p.character line.length

/-- A line without its line break and without a carriage return at its end; empty if there is no
such line. -/
def lineText (s : Bytes) (n : Int) : Bytes :=
  if n < 0 then []
  else
    match (Bytes.lines s)[n.toNat]? with
    | some line => Bytes.dropCarriageReturn line
    | none => []

def lineRange (s : Bytes) (n : Int) : Range :=
  ⟨⟨coordinate n, 0⟩, ⟨coordinate n, coordinate (lineText s n).length⟩⟩

/-- Letters, digits and the underscore, each byte judged as the Latin-1 character it is. -/
def isWordCharacter (b : UInt8) : Bool :=
  isLetter b || isDigit b || b == 0xaa || b == 0xb5 || b == 0xba
    || (0xc0 ≤ b && b != 0xd7 && b != 0xf7)

/-- The word, or the part of it, that ends at a position. -/
def wordBefore (s : Bytes) (p : Position) : Bytes :=
  match (Bytes.lines s)[p.line]? with
  | some line => ((line.take p.character).reverse.takeWhile isWordCharacter).reverse
  | none => []

end Document

end Abacus
