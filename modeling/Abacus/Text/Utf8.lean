import Abacus.Text.Bytes

/-!
# Characters in byte strings

Bytes are read as UTF-8 without ever failing: a well-formed sequence of one to four bytes is a
character, and a byte that starts no well-formed sequence is a stray of width one. Overlong
forms, surrogates and values past U+10FFFF are not well formed, which the bounds on the second
byte express.
-/
namespace Abacus.Utf8

/-- What the next bytes of a text stand for. -/
inductive Piece
  | scalar (code : Nat)
  | stray (b : UInt8)
  deriving DecidableEq, Repr

def isContinuation (b : UInt8) : Bool := 0x80 ≤ b && b ≤ 0xbf

/-- The six low bits of a continuation byte. -/
def payload (b : UInt8) : Nat := b.toNat % 64

/-- The admissible second bytes after a lead byte. -/
def secondAllowed (lead second : UInt8) : Bool :=
  -- Overlong forms, surrogates and what is above the last code point are excluded here.
  if lead == 0xe0 then 0xa0 ≤ second && second ≤ 0xbf
  else if lead == 0xed then 0x80 ≤ second && second ≤ 0x9f
  else if lead == 0xf0 then 0x90 ≤ second && second ≤ 0xbf
  else if lead == 0xf4 then 0x80 ≤ second && second ≤ 0x8f
  else isContinuation second

/-- The code point at the front of a text and the number of its bytes. -/
def first? : Bytes → Option (Nat × Nat)
  | [] => none
  | a :: rest =>
    -- The lead bytes 0xc0 and 0xc1 would only start overlong forms.
    if a < 0x80 then some (a.toNat, 1)
    else if 0xc2 ≤ a && a ≤ 0xdf then
      match rest with
      | b :: _ => if isContinuation b then some (a.toNat % 32 * 64 + payload b, 2) else none
      | _ => none
    else if 0xe0 ≤ a && a ≤ 0xef then
      match rest with
      | b :: c :: _ =>
        if secondAllowed a b && isContinuation c then
          some (a.toNat % 16 * 4096 + payload b * 64 + payload c, 3)
        else none
      | _ => none
    else if 0xf0 ≤ a && a ≤ 0xf4 then
      match rest with
      | b :: c :: d :: _ =>
        if secondAllowed a b && isContinuation c && isContinuation d then
          some (a.toNat % 8 * 262144 + payload b * 4096 + payload c * 64 + payload d, 4)
        else none
      | _ => none
    else none

/-- Reads pieces after passing over the first `skip` bytes. -/
def piecesAfter : Nat → Bytes → List Piece
  | _, [] => []
  | skip + 1, _ :: rest => piecesAfter skip rest
  | 0, b :: rest =>
    match first? (b :: rest) with
    | some (code, width) => .scalar code :: piecesAfter (width - 1) rest
    | none => .stray b :: piecesAfter 0 rest

/-- The characters and stray bytes of a text, in order. -/
def pieces (s : Bytes) : List Piece := piecesAfter 0 s

/-- Tests well-formedness after passing over the first `skip` bytes. -/
def validAfter : Nat → Bytes → Bool
  | _, [] => true
  | skip + 1, _ :: rest => validAfter skip rest
  | 0, b :: rest =>
    match first? (b :: rest) with
    | some (_, width) => validAfter (width - 1) rest
    | none => false

def isValid (s : Bytes) : Bool := validAfter 0 s

def encode (code : Nat) : Bytes :=
  if code < 0x80 then [UInt8.ofNat code]
  else if code < 0x800 then
    [UInt8.ofNat (0xc0 + code / 64), UInt8.ofNat (0x80 + code % 64)]
  else if code < 0x10000 then
    [UInt8.ofNat (0xe0 + code / 4096), UInt8.ofNat (0x80 + code / 64 % 64),
      UInt8.ofNat (0x80 + code % 64)]
  else
    [UInt8.ofNat (0xf0 + code / 262144), UInt8.ofNat (0x80 + code / 4096 % 64),
      UInt8.ofNat (0x80 + code / 64 % 64), UInt8.ofNat (0x80 + code % 64)]

def Piece.bytes : Piece → Bytes
  | .scalar code => encode code
  | .stray b => [b]

end Abacus.Utf8
