import Abacus.Number.Radix
import Abacus.Text.Blank

/-!
# Frames

On the wire a message follows a header, lines that end in carriage return and line feed, the last
of them empty. One line tells the length of the message in bytes; if there are several, the last
one counts. A message has at least one byte.
-/
namespace Abacus.LanguageServer

def lengthField : Bytes := text "Content-Length: "

/-- A message after its header. -/
def frame (body : Bytes) : Bytes :=
  lengthField ++ decimal body.length ++ text "\r\n\r\n" ++ body

/-- The greatest length that a header can tell. -/
def longestBody : Nat := 0xffffffff

/-- The length that a header line tells. -/
def lengthOf? (line : Bytes) : Option Nat :=
  let digits := Text.trim (line.drop lengthField.length)
  if digits = [] then none else (numeralIn? 10 digits).filter (· ≤ longestBody)

/-- The length of the message after a header, given by its lines. -/
def bodyLength? (header : List Bytes) : Option Nat := do
  let fields := header.filter lengthField.isPrefixOf
  let lengths ← fields.mapM lengthOf?
  lengths.getLast?.filter (· ≠ 0)

end Abacus.LanguageServer
