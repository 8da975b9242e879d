import Abacus.Token.Basic

/-!
# Scanning

A cursor is what is left of the source, with the offset and line of its first byte. One step
passes over layout (blanks, line breaks and comments up to the end of the line) and takes the
longest token that starts there. What a token is made of depends only on the bytes from its start
on (`lex`); offset and line are book-keeping added by `Cursor.next`. A step takes at least one
byte unless nothing is left, so a source of `n` bytes has at most `n` tokens before its end.
-/
namespace Abacus

/-- What stands at the start of a non-empty source without leading layout. -/
inductive Lexed
  /-- A token of this kind, made of this many bytes. -/
  | token (kind : Kind) (length : Nat)
  /-- The first byte starts no token. -/
  | unexpected
  /-- A string literal that is not closed takes the rest of the source. -/
  | unterminated
  deriving DecidableEq, Repr

namespace Lexed

def unexpectedMessage : Bytes := text "Unexpected character"

def unterminatedMessage : Bytes := text "Unterminated string"

end Lexed

def isWordByte (b : UInt8) : Bool := isLetter b || isDigit b

/-- The length of a number: digits, then a fraction if a digit follows the point. -/
def numberLength (s : Bytes) : Nat :=
  let whole := (s.takeWhile isDigit).length
  match s.dropWhile isDigit with
  | 0x2e :: rest =>
    let fraction := (rest.takeWhile isDigit).length
    if fraction = 0 then whole else whole + 1 + fraction
  | _ => whole

/-- The token at the start of `first :: rest`. -/
def lex (first : UInt8) (rest : Bytes) : Lexed :=
  if first == 0x22 then
    let body := rest.takeWhile (· != 0x22)
    if body.length < rest.length then .token .string (body.length + 2) else .unterminated
  else if isDigit first then .token .number (numberLength (first :: rest))
  else if isLetter first then
    let word := first :: rest.takeWhile isWordByte
    .token (Kind.ofWord word) word.length
  else
    match Punctuator.ofByte? first with
    | none => .unexpected
    | some p =>
      match p.withEqual?, rest with
      | some longer, 0x3d :: _ => .token (.punctuator longer) 2
      | _, _ => .token (.punctuator p) 1

structure Cursor where
  rest : Bytes
  offset : Nat
  line : Nat
  deriving DecidableEq, Repr

namespace Cursor

def start (source : Bytes) : Cursor := ⟨source, 0, 1⟩

/-- Passes over layout; `inComment` says that a comment has been opened on this line. -/
def skipLayout (inComment : Bool) : Bytes → Nat → Nat → Cursor
  | [], offset, line => ⟨[], offset, line⟩
  | b :: rest, offset, line =>
    if b == newline then skipLayout false rest (offset + 1) (line + 1)
    else if inComment then skipLayout true rest (offset + 1) line
    else if b == 0x20 || b == 0x0d || b == 0x09 then skipLayout false rest (offset + 1) line
    else if b == 0x2f && rest.head? == some 0x2f then skipLayout true rest (offset + 1) line
    else ⟨b :: rest, offset, line⟩

/-- The cursor after the layout at its position. -/
def settle (c : Cursor) : Cursor := skipLayout false c.rest c.offset c.line

/-- The cursor `n` bytes further on. -/
def advance (c : Cursor) (n : Nat) : Cursor :=
  ⟨c.rest.drop n, c.offset + n, c.line + Bytes.newlines (c.rest.take n)⟩

/-- The token at a cursor without leading layout, and the cursor after it. -/
def take (c : Cursor) : Token × Cursor :=
  match c.rest with
  | [] => (⟨.endOfInput, [], c.line, c.offset⟩, c)
  | first :: rest =>
    match lex first rest with
    | .token kind length =>
      let after := c.advance length
      (⟨kind, c.rest.take length, after.line, c.offset⟩, after)
    | .unexpected => (⟨.error, Lexed.unexpectedMessage, c.line, c.offset⟩, c.advance 1)
    | .unterminated =>
      (⟨.error, Lexed.unterminatedMessage, c.line, c.offset⟩, c.advance c.rest.length)

/-- The next token. At the end of the source this is the end token, again and again. -/
def next (c : Cursor) : Token × Cursor := c.settle.take

def scan : Nat → Cursor → List Token
  | 0, _ => []
  | n + 1, c => c.next.1 :: scan n c.next.2

/-- The tokens up to and including the end token, at most `n + 1` of them, after those already
read, which `seen` holds last one first. -/
def scanToEnd : Nat → Cursor → List Token → List Token
  | 0, c, seen => (c.next.1 :: seen).reverse
  | n + 1, c, seen =>
    let step := c.next
    if step.1.isEnd then (step.1 :: seen).reverse else scanToEnd n step.2 (step.1 :: seen)

end Cursor

/-- All tokens of a source; the last one, and only it, is the end token. -/
def tokenize (source : Bytes) : List Token :=
  Cursor.scanToEnd source.length (Cursor.start source) []

end Abacus
