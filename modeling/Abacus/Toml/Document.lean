import Abacus.Toml.Quoted
import Abacus.Toml.Scalar

/-!
# The written form of a settings document

A document is a sequence of table headers and assignments, one a line. This module reads what is
written and says nothing about which keys may be defined where.

Values nest, so reading one takes fuel; every step that uses up fuel has read at least one byte,
and twice the length of the document is always enough.
-/
namespace Abacus.Toml

/-- The parts of a dotted key. -/
abbrev Key := List Bytes

/-- A value as it is written. -/
inductive Written
  | scalar (s : Scalar)
  | array (items : List Written)
  | table (fields : List (Key × Written))
  deriving Repr

inductive Statement
  /-- A header that opens a table. -/
  | table (key : Key)
  /-- A header that opens the next table of an array of tables. -/
  | element (key : Key)
  | assignment (key : Key) (value : Written)
  deriving Repr

/-! ## Text -/

/-- Byte-order marks that may stand at the very beginning. -/
def marks : List Bytes := [[0xff, 0xfe], [0xfe, 0xff], [0xef, 0xbb, 0xbf]]

def dropMark (s : Bytes) : Bytes :=
  match marks.find? (·.isPrefixOf s) with
  | some mark => s.drop mark.length
  | none => s

/-- Control characters other than tab and line breaks do not occur, and a carriage return is always
part of a line break. -/
def hasOnlyText : Bytes → Bool
  | [] => true
  | b :: rest =>
    (if b == 0x0d then rest.head? == some newline
      else b == 0x09 || b == newline || (0x20 ≤ b && b != 0x7f)) && hasOnlyText rest

/-! ## Layout -/

def isSpace (b : UInt8) : Bool := b == 0x20 || b == 0x09

def dropSpaces (s : Bytes) : Bytes := s.dropWhile isSpace

/-- Passes over a comment, if there is one, up to the line break. -/
def dropComment (s : Bytes) : Bytes :=
  if s.head? == some 0x23 then s.dropWhile (· != newline) else s

/-- Passes over blanks, line breaks and comments, looking at `fuel` lines. -/
def dropLayout : Nat → Bytes → Bytes
  | 0, s => s
  | fuel + 1, s =>
    let s := s.dropWhile isLayout
    if s.head? == some 0x23 then dropLayout fuel (dropComment s) else s

/-- What is left of a line after a statement: blanks and a comment. -/
def endOfLine? (s : Bytes) : Option Bytes :=
  match dropComment (dropSpaces s) with
  | [] => some []
  | b :: rest => if b == newline || b == 0x0d then some rest else none

/-! ## Keys -/

def isBareKeyByte (b : UInt8) : Bool := isLetter b || isDigit b || b == 0x2d

def keyPart? (s : Bytes) : Option (Bytes × Bytes) :=
  match shortString? s with
  | some read => some read
  | none =>
    let part := s.takeWhile isBareKeyByte
    if part = [] then none else some (part, s.drop part.length)

/-- Reads a dotted key and the blanks around its parts. -/
def key? : Nat → Bytes → Option (Key × Bytes)
  | 0, _ => none
  | fuel + 1, s => do
    let (part, rest) ← keyPart? (dropSpaces s)
    match dropSpaces rest with
    | 0x2e :: rest => (key? fuel rest).map fun (others, rest) => (part :: others, rest)
    | rest => some ([part], rest)

/-- Reads a key and the equals sign after it. -/
def assignedKey? (fuel : Nat) (s : Bytes) : Option (Key × Bytes) := do
  let (key, rest) ← key? fuel s
  some (key, ← expect? 0x3d rest)

/-! ## Values -/

def isWordByte (b : UInt8) : Bool := isLetter b || isDigit b || b == 0x2b || b == 0x2d || b == 0x2e

/-- A digit run followed by a dash or colon starts a moment. -/
def startsMoment (s : Bytes) : Bool :=
  isDigit (s.headD 0) &&
    match s.dropWhile isDigit with
    | b :: _ => b == 0x2d || b == 0x3a
    | [] => false

def dropTrailingSpaces (s : Bytes) : Bytes := (dropSpaces s.reverse).reverse

/-- Reads a value that is not an array or a table. -/
def scalar? (s : Bytes) : Option (Scalar × Bytes) :=
  if s.head? == some doubleQuote || s.head? == some singleQuote then
    (string? s).map fun (value, rest) => (.text value, rest)
  else if startsMoment s then
    let run := s.takeWhile isMomentByte
    let moment := dropTrailingSpaces run
    if isMoment moment then some (.moment moment, s.drop run.length) else none
  else
    let word := s.takeWhile isWordByte
    (word? word).map fun value => (value, s.drop word.length)

mutual
def value? : Nat → Bytes → Option (Written × Bytes)
  | 0, _ => none
  | fuel + 1, s =>
    match dropSpaces s with
    | 0x5b :: rest => (items? fuel rest).map fun (items, rest) => (.array items, rest)
    | 0x7b :: rest => (fields? fuel rest).map fun (fields, rest) => (.table fields, rest)
    | s => (scalar? s).map fun (value, rest) => (.scalar value, rest)

/-- Reads the items of an array up to its closing bracket. A comma may follow the last item. -/
def items? : Nat → Bytes → Option (List Written × Bytes)
  | 0, _ => none
  | fuel + 1, s =>
    match dropLayout s.length s with
    | 0x5d :: rest => some ([], rest)
    | s => do
      let (item, rest) ← value? fuel s
      match dropLayout rest.length rest with
      | 0x2c :: rest => (items? fuel rest).map fun (others, rest) => (item :: others, rest)
      | 0x5d :: rest => some ([item], rest)
      | _ => none

/-- Reads the fields of a table up to its closing brace. A comma may follow the last field. -/
def fields? : Nat → Bytes → Option (List (Key × Written) × Bytes)
  | 0, _ => none
  | fuel + 1, s =>
    match dropLayout s.length s with
    | 0x7d :: rest => some ([], rest)
    | s => do
      let (key, rest) ← assignedKey? s.length s
      let (value, rest) ← value? fuel rest
      match dropLayout rest.length rest with
      | 0x2c :: rest => (fields? fuel rest).map fun (others, rest) => ((key, value) :: others, rest)
      | 0x7d :: rest => some ([(key, value)], rest)
      | _ => none
end

/-! ## Statements -/

/-- Reads one statement, without the end of its line. -/
def statement? (s : Bytes) : Option (Statement × Bytes) :=
  match s with
  | 0x5b :: 0x5b :: rest => do
    let (key, rest) ← key? rest.length rest
    some (.element key, ← expect? 0x5d rest >>= expect? 0x5d)
  | 0x5b :: rest => do
    let (key, rest) ← key? rest.length rest
    some (.table key, ← expect? 0x5d rest)
  | s => do
    let (key, rest) ← assignedKey? s.length s
    let (value, rest) ← value? (2 * rest.length + 1) rest
    some (.assignment key value, rest)

def statements? : Nat → Bytes → Option (List Statement)
  | 0, _ => none
  | fuel + 1, s =>
    match dropLayout s.length s with
    | [] => some []
    | s => do
      let (first, rest) ← statement? s
      let others ← statements? fuel (← endOfLine? rest)
      some (first :: others)

def document? (s : Bytes) : Option (List Statement) :=
  let s := dropMark s
  if Utf8.isValid s && hasOnlyText s then statements? (s.length + 1) s else none

end Abacus.Toml
