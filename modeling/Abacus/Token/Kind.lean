import Abacus.Text.Bytes

/-!
# Kinds of token

A token is punctuation, a literal, a reserved word, or one of two markers: an error found by the
scanner and the end of the input. Every kind has a number, its place in `Kind.all`, and a name;
the name of punctuation and of a reserved word is how it is spelled in source text. Words are told
apart by their first letters, without a search through all spellings.
-/
namespace Abacus

inductive Punctuator
  | leftParen | rightParen | leftBrace | rightBrace | comma | dot | minus | plus | semicolon
  | slash | star | bang | bangEqual | equal | equalEqual | greater | greaterEqual | less
  | lessEqual
  deriving DecidableEq, Repr

namespace Punctuator

def all : List Punctuator :=
  [leftParen, rightParen, leftBrace, rightBrace, comma, dot, minus, plus, semicolon, slash, star,
    bang, bangEqual, equal, equalEqual, greater, greaterEqual, less, lessEqual]

def spelling : Punctuator → Bytes
  | leftParen => text "("
  | rightParen => text ")"
  | leftBrace => text "\x7b"
  | rightBrace => text "\x7d"
  | comma => text ","
  | dot => text "."
  | minus => text "-"
  | plus => text "+"
  | semicolon => text ";"
  | slash => text "/"
  | star => text "*"
  | bang => text "!"
  | bangEqual => text "!="
  | equal => text "="
  | equalEqual => text "=="
  | greater => text ">"
  | greaterEqual => text ">="
  | less => text "<"
  | lessEqual => text "<="

/-- The punctuation that consists of this one byte. -/
def ofByte? (b : UInt8) : Option Punctuator := all.find? (·.spelling == [b])

/-- The longer punctuation that an equals sign makes of a shorter one. -/
def withEqual? : Punctuator → Option Punctuator
  | bang => some bangEqual
  | equal => some equalEqual
  | greater => some greaterEqual
  | less => some lessEqual
  | _ => none

end Punctuator

/-- The reserved words, in alphabetical order. -/
inductive Keyword
  | conjunction | classWord | elseWord | falseWord | forWord | funWord | ifWord | nilWord
  | disjunction | printWord | returnWord | superWord | thisWord | trueWord | varWord | whileWord
  deriving DecidableEq, Repr

namespace Keyword

def all : List Keyword :=
  [conjunction, classWord, elseWord, falseWord, forWord, funWord, ifWord, nilWord, disjunction,
    printWord, returnWord, superWord, thisWord, trueWord, varWord, whileWord]

def spelling : Keyword → Bytes
  | conjunction => text "and"
  | classWord => text "class"
  | elseWord => text "else"
  | falseWord => text "false"
  | forWord => text "for"
  | funWord => text "fun"
  | ifWord => text "if"
  | nilWord => text "nil"
  | disjunction => text "or"
  | printWord => text "print"
  | returnWord => text "return"
  | superWord => text "super"
  | thisWord => text "this"
  | trueWord => text "true"
  | varWord => text "var"
  | whileWord => text "while"

/-- The reserved word, if the rest of a word is what this one ends in. -/
def completed (k : Keyword) (ending : String) (rest : Bytes) : Option Keyword :=
  if rest = text ending then some k else none

/-- The reserved word that a word is. The first letter says which one it can be, the second where
several begin alike, and the rest must then be exactly the rest of that one. -/
def recognize? : Bytes → Option Keyword
  | 0x61 :: rest => conjunction.completed "nd" rest
  | 0x63 :: rest => classWord.completed "lass" rest
  | 0x65 :: rest => elseWord.completed "lse" rest
  | 0x66 :: 0x61 :: rest => falseWord.completed "lse" rest
  | 0x66 :: 0x6f :: rest => forWord.completed "r" rest
  | 0x66 :: 0x75 :: rest => funWord.completed "n" rest
  | 0x69 :: rest => ifWord.completed "f" rest
  | 0x6e :: rest => nilWord.completed "il" rest
  | 0x6f :: rest => disjunction.completed "r" rest
  | 0x70 :: rest => printWord.completed "rint" rest
  | 0x72 :: rest => returnWord.completed "eturn" rest
  | 0x73 :: rest => superWord.completed "uper" rest
  | 0x74 :: 0x68 :: rest => thisWord.completed "is" rest
  | 0x74 :: 0x72 :: rest => trueWord.completed "ue" rest
  | 0x76 :: rest => varWord.completed "ar" rest
  | 0x77 :: rest => whileWord.completed "hile" rest
  | _ => none

end Keyword

inductive Kind
  | punctuator (p : Punctuator)
  | identifier
  | string
  | number
  | keyword (k : Keyword)
  | error
  | endOfInput
  deriving DecidableEq, Repr

namespace Kind

def all : List Kind :=
  Punctuator.all.map punctuator ++ [identifier, string, number] ++ Keyword.all.map keyword
    ++ [error, endOfInput]

def name : Kind → Bytes
  | punctuator p => p.spelling
  | identifier => text "IDENTIFIER"
  | string => text "STRING"
  | number => text "NUMBER"
  | keyword k => k.spelling
  | error => text "ERROR"
  | endOfInput => text "EOF"

def isKeyword : Kind → Bool
  | keyword _ => true
  | _ => false

def code (k : Kind) : Nat := all.idxOf k

def ofCode? (n : Int) : Option Kind := if n < 0 then none else all[n.toNat]?

/-- What a word in source text is: a reserved word or a name. -/
def ofWord (word : Bytes) : Kind :=
  match Keyword.recognize? word with
  | some k => keyword k
  | none => identifier

def nameOfCode (n : Int) : Bytes :=
  match ofCode? n with
  | some k => k.name
  | none => text "Token(" ++ signedDecimal n ++ text ")"

end Kind

end Abacus
