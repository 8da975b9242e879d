import Abacus.Number.Decimal
import Abacus.Text.Base64
import Abacus.Text.Utf8

/-!
# YAML scalars

A string is written plainly if it then reads back as the same string. Otherwise it is quoted: in
single quotes if nothing but its first characters forbids the plain form, in double quotes with
escapes if it would be taken for something else than a string or holds characters that cannot be
shown. A string of several lines is written as an indented block where that is possible. Bytes that
are no text are written in base 64.

The strings written here are names and lexemes of tokens: the numbers among them are digits with at
most one point, and none that spans lines starts with a blank or ends in one.
-/
namespace Abacus.Yaml

/-! ## Strings that would be read as something else -/

/-- Words for null and truth values, in the older and the current version of the format. -/
def reservedWords : List String :=
  ["", "~", "null", "Null", "NULL", "true", "True", "TRUE", "false", "False", "FALSE",
   "y", "Y", "yes", "Yes", "YES", "on", "On", "ON", "n", "N", "no", "No", "NO", "off", "Off", "OFF"]

/-- Digits with at most one point between them. -/
def isNumeral (s : Bytes) : Bool :=
  let (whole, fraction) := Bytes.cut 0x2e s
  whole ≠ [] && whole.all isDigit && fraction.all isDigit && s.getLast?.any isDigit

/-- The string would be read as a number. One that is too large to be a number is a string. -/
def readsAsNumber (s : Bytes) : Bool := isNumeral s && (Decimal.ofLiteral s).isFinite

def readsAsString (s : Bytes) : Bool :=
  !reservedWords.any (fun w => text w == s) && !readsAsNumber s

/-! ## Characters -/

def isSpace (c : Nat) : Bool := c == 0x20

def isBlank (c : Nat) : Bool := c == 0x20 || c == 0x09

def isBreak (c : Nat) : Bool := c == 0x0a || c == 0x0d || c == 0x85 || c == 0x2028 || c == 0x2029

/-- Characters that may stand in the output as they are. -/
def isShown (c : Nat) : Bool :=
  c == 0x0a || (0x20 ≤ c && c ≤ 0x7e) || (0xa0 ≤ c && c ≤ 0xd7ff)
    || (0xe000 ≤ c && c ≤ 0xfffd && c != 0xfeff)

/-- Characters that only escapes can write. -/
def isSpecial (c : Nat) : Bool := c != 0x09 && !isShown c

def characters (s : Bytes) : List Nat :=
  (Utf8.pieces s).filterMap fun piece =>
    match piece with
    | .scalar code => some code
    | .stray _ => none

/-- Some character of the first kind is right before one of the second. -/
def anyPair (first second : Nat → Bool) : List Nat → Bool
  | c :: d :: rest => (first c && second d) || anyPair first second (d :: rest)
  | _ => false

/-! ## Styles -/

inductive Style
  | plain | singleQuoted | doubleQuoted | literal
  deriving DecidableEq, Repr

/-- A first character that starts something else than a string. -/
def indicators : List Nat := (text "#,[]\x7b\x7d&*!|>'\"%@\x60").map UInt8.toNat

def endsWord : List Nat → Bool
  | [] => true
  | c :: _ => isBlank c

/-- The string starts like something else. -/
def startsOther : List Nat → Bool
  | [] => false
  | c :: rest =>
    indicators.contains c
      || ((c == 0x2d || c == 0x3f || c == 0x3a) && endsWord rest)
      || (c == 0x2d && rest.take 2 == [0x2d, 0x2d])
      || (c == 0x2e && rest.take 2 == [0x2e, 0x2e])

/-- A colon that ends a word, after the first character. -/
def hasKeyMark : List Nat → Bool
  | [] => false
  | _ :: rest => anyPair (· == 0x3a) isBlank rest || rest.getLast? == some 0x3a

def hasCommentMark (cs : List Nat) : Bool :=
  anyPair (fun c => isBlank c || isBreak c || c == 0) (· == 0x23) cs

def edgeIsOpen (cs : List Nat) : Bool :=
  let isOpen (c : Nat) := isSpace c || isBreak c
  cs.head?.any isOpen || cs.getLast?.any isOpen

/-- Single quotes can hold the string. -/
def allowsSingleQuotes (cs : List Nat) : Bool :=
  !(anyPair isBreak isSpace cs || anyPair isSpace isBreak cs || cs.any (· == 0x09) || cs.any isSpecial)

/-- The string can stand without quotes. -/
def allowsPlain (cs : List Nat) : Bool :=
  allowsSingleQuotes cs
    && !(edgeIsOpen cs || cs.any isBreak || startsOther cs || hasKeyMark cs || hasCommentMark cs)

/-- An indented block can hold the string. -/
def allowsLiteral (cs : List Nat) : Bool :=
  !(cs.getLast?.any isSpace || anyPair isSpace isBreak cs || cs.any isSpecial)

def styleOf (s : Bytes) : Style :=
  let cs := characters s
  if cs.contains 0x0a then (if allowsLiteral cs then .literal else .doubleQuoted)
  else if !readsAsString s then .doubleQuoted
  else if allowsPlain cs then .plain
  else if allowsSingleQuotes cs then .singleQuoted
  else .doubleQuoted

/-! ## Writing -/

/-- Continued lines of a scalar that is a field of a list item are indented this far. -/
def indent : Bytes := Bytes.fill 4 0x20

/-- Writes characters with the indent at the beginning of every line that is not empty. -/
def indented (encode : Nat → Bytes) : Bool → List Nat → Bytes
  | _, [] => []
  | atStart, c :: rest =>
    if isBreak c then Utf8.encode c ++ indented encode true rest
    else (if atStart then indent else []) ++ encode c ++ indented encode false rest

/-- The letter of a one-letter escape. -/
def escapeLetter? (c : Nat) : Option Char :=
  match c with
  | 0x00 => some '0'
  | 0x07 => some 'a'
  | 0x08 => some 'b'
  | 0x09 => some 't'
  | 0x0a => some 'n'
  | 0x0b => some 'v'
  | 0x0c => some 'f'
  | 0x0d => some 'r'
  | 0x1b => some 'e'
  | 0x22 => some '"'
  | 0x5c => some '\\'
  | 0x85 => some 'N'
  | 0x2028 => some 'L'
  | 0x2029 => some 'P'
  | _ => none

/-- A number in `width` hexadecimal digits, capital letters. -/
def capitalHex (width n : Nat) : Bytes :=
  (hexadecimal width n).map fun b => if 0x61 ≤ b then b - 0x20 else b

def escaped (c : Nat) : Bytes :=
  match escapeLetter? c with
  | some letter => [0x5c, byte letter]
  | none =>
    if isShown c then Utf8.encode c
    else if c ≤ 0xff then text "\\x" ++ capitalHex 2 c
    else if c ≤ 0xffff then text "\\u" ++ capitalHex 4 c
    else text "\\U" ++ capitalHex 8 c

def doubled (c : Nat) : Bytes := if c == 0x27 then [0x27, 0x27] else Utf8.encode c

/-- A well-formed string in its style, without the line break after it. -/
def renderText (s : Bytes) : Bytes :=
  let cs := characters s
  match styleOf s with
  | .plain => s
  | .singleQuoted => [0x27] ++ indented doubled false cs ++ [0x27]
  | .doubleQuoted => [0x22] ++ cs.flatMap escaped ++ [0x22]
  | .literal => text "|-" ++ [newline] ++ indented Utf8.encode true cs

/-- Base 64 is broken into lines of this length. -/
def binaryLine : Nat := 70

/-- Pieces of a length, the last one possibly shorter. -/
def pieces (length : Nat) (s : Bytes) : List Bytes :=
  ((List.range (s.length / length + 1)).map fun n => (s.drop (length * n)).take length).filter
    (· ≠ [])

def renderBinary (s : Bytes) : Bytes :=
  let letters := Text.base64 s
  if letters.length < binaryLine then text "!!binary " ++ letters
  else
    text "!!binary |" ++ (pieces binaryLine letters).flatMap fun line => [newline] ++ indent ++ line

/-- A string as the value of a field of a list item. -/
def render (s : Bytes) : Bytes := if Utf8.isValid s then renderText s else renderBinary s

end Abacus.Yaml
