import Abacus.Number.Radix
import Abacus.Text.Utf8

/-!
# Quoted strings of a settings document

Basic strings stand in double quotes and have escapes, literal strings stand in single quotes and
have none. Three quotes open a string that may span lines. Such a string may end in one or two
quotes of its own, which stand right before the closing three. A string is read in two steps: first
its extent, which only has to know which quotes are escaped, then the meaning of its escapes.
-/
namespace Abacus.Toml

def doubleQuote : UInt8 := 0x22

def singleQuote : UInt8 := 0x27

def backslash : UInt8 := 0x5c

/-- Puts bytes in front of what was read. -/
def prepend (front : Bytes) (read : Option (Bytes × Bytes)) : Option (Bytes × Bytes) :=
  read.map fun (content, rest) => (front ++ content, rest)

/-- The content up to the closing quote of a basic string on one line, escapes as written. -/
def basicExtent : Bytes → Option (Bytes × Bytes)
  | [] => none
  | [b] => if b == doubleQuote then some ([], []) else none
  | b :: c :: rest =>
    if b == doubleQuote then some ([], c :: rest)
    else if b == newline then none
    else if b == backslash then prepend [b, c] (basicExtent rest)
    else prepend [b] (basicExtent (c :: rest))

/-- The content up to the closing quote of a literal string on one line. -/
def literalExtent : Bytes → Option (Bytes × Bytes)
  | [] => none
  | b :: rest =>
    if b == singleQuote then some ([], rest)
    else if b == newline then none
    else prepend [b] (literalExtent rest)

/-- Closes a string at a run of three or more quotes: the last three close it, and at most `own`
before them belong to it. -/
def closeAt (quote : UInt8) (own : Nat) (s : Bytes) : Option (Bytes × Bytes) :=
  let run := (s.takeWhile (· == quote)).length
  if run ≤ own + 3 then some (Bytes.fill (run - 3) quote, s.drop run) else none

def startsWithThree (quote : UInt8) (s : Bytes) : Bool :=
  (Bytes.fill 3 quote).isPrefixOf s

/-- The content up to the closing quotes of a basic string over several lines. Right after an
escaped backslash it may have three quotes of its own before the closing ones. -/
def longBasicExtent (afterBackslash : Bool) : Bytes → Option (Bytes × Bytes)
  | [] => none
  | [_] => none
  | b :: c :: rest =>
    if startsWithThree doubleQuote (b :: c :: rest) then
      closeAt doubleQuote (if afterBackslash then 3 else 2) (b :: c :: rest)
    else if b == backslash then prepend [b, c] (longBasicExtent (c == backslash) rest)
    else prepend [b] (longBasicExtent false (c :: rest))

/-- The content up to the closing quotes of a literal string over several lines. -/
def longLiteralExtent : Bytes → Option (Bytes × Bytes)
  | [] => none
  | b :: rest =>
    if startsWithThree singleQuote (b :: rest) then closeAt singleQuote 2 (b :: rest)
    else prepend [b] (longLiteralExtent rest)

/-- A line break right after the opening quotes does not count. -/
def dropFirstBreak : Bytes → Bytes
  | 0x0a :: rest => rest
  | 0x0d :: 0x0a :: rest => rest
  | s => s

def isLayout (b : UInt8) : Bool := b == 0x20 || b == 0x09 || b == 0x0d || b == newline

/-- How much blank space an unescaped backslash before `s` takes away: all of it if it reaches over
a line break, else none. -/
def continuationLength (s : Bytes) : Nat :=
  let blank := s.takeWhile isLayout
  if blank.contains newline then blank.length else 0

/-- Drops `skip` bytes and then every backslash at the end of a line, with the blanks around the
line break. -/
def joinLines : Nat → Bytes → Bytes
  | _, [] => []
  | skip + 1, _ :: rest => joinLines skip rest
  | 0, [b] => [b]
  | 0, b :: c :: rest =>
    if b == backslash && c == backslash then b :: c :: joinLines 0 rest
    else if b == backslash && continuationLength (c :: rest) ≠ 0 then
      joinLines (continuationLength (c :: rest)) (c :: rest)
    else b :: joinLines 0 (c :: rest)

def escapedByte? (letter : UInt8) : Option UInt8 :=
  if letter == byte 'b' then some 0x08
  else if letter == byte 't' then some 0x09
  else if letter == byte 'n' then some 0x0a
  else if letter == byte 'f' then some 0x0c
  else if letter == byte 'r' then some 0x0d
  else if letter == byte 'e' then some 0x1b
  else if letter == doubleQuote || letter == backslash then some letter
  else none

/-- The number of hexadecimal digits after the letter of a numbered escape. -/
def escapeDigits? (letter : UInt8) : Option Nat :=
  if letter == byte 'x' then some 2
  else if letter == byte 'u' then some 4
  else if letter == byte 'U' then some 8
  else none

/-- The character with a number of exactly `count` digits; surrogates are no characters. -/
def numberedCharacter? (count : Nat) (s : Bytes) : Option Bytes := do
  let digits := s.take count
  let code ← numeralIn? 16 digits
  if digits.length = count ∧ code < 0x110000 ∧ ¬ (0xd800 ≤ code ∧ code < 0xe000) then
    some (Utf8.encode code)
  else none

/-- Drops `skip` bytes and then replaces the escapes. -/
def unescape : Nat → Bytes → Option Bytes
  | _, [] => some []
  | skip + 1, _ :: rest => unescape skip rest
  | 0, [b] => if b == backslash then none else some [b]
  | 0, b :: c :: rest =>
    if b == backslash then
      match escapeDigits? c with
      | some count =>
        match numberedCharacter? count rest with
        | some character => (unescape count rest).map (character ++ ·)
        | none => none
      | none =>
        match escapedByte? c with
        | some e => (unescape 0 rest).map (e :: ·)
        | none => none
    else (unescape 0 (c :: rest)).map (b :: ·)

/-- Reads the value of a string on one line, the opening quote included. -/
def shortString? : Bytes → Option (Bytes × Bytes)
  | [] => none
  | quote :: rest =>
    if quote == doubleQuote then do
      let (raw, rest) ← basicExtent rest
      some (← unescape 0 raw, rest)
    else if quote == singleQuote then literalExtent rest
    else none

/-- Reads the value of any quoted string, the opening quotes included. -/
def string? (s : Bytes) : Option (Bytes × Bytes) :=
  if startsWithThree doubleQuote s then do
    let (raw, rest) ← longBasicExtent false (s.drop 3)
    some (← unescape 0 (joinLines 0 (dropFirstBreak raw)), rest)
  else if startsWithThree singleQuote s then do
    let (raw, rest) ← longLiteralExtent (s.drop 3)
    some (dropFirstBreak raw, rest)
  else shortString? s

end Abacus.Toml
