import Abacus.Text.Quoted
import Abacus.Token.Kind

/-!
# Tokens

A token carries the bytes it was read from, the line on which it ends and the offset at which it
starts. An error token carries its message instead of source bytes.
-/
namespace Abacus

structure Token where
  kind : Kind
  lexeme : Bytes
  /-- Counted from one. -/
  line : Nat
  /-- Bytes of source before the token. -/
  offset : Nat
  deriving DecidableEq, Repr

namespace Token

/-- Longer lexemes are cut when a token is shown. -/
def shownBytes : Nat := 20

/-- How a token with a kind given by number is shown: its name and its quoted lexeme. -/
def renderCode (code : Int) (lexeme : Bytes) : Bytes :=
  match Kind.ofCode? code with
  | some .endOfInput => text "EOF"
  | some .error => text "ERROR(" ++ lexeme ++ text ")"
  | _ =>
    if lexeme.length > shownBytes then
      Kind.nameOfCode code ++ text "(" ++ Text.quote (lexeme.take shownBytes) ++ text "...)"
    else
      Kind.nameOfCode code ++ text "(" ++ Text.quote lexeme ++ text ")"

def render (t : Token) : Bytes := renderCode t.kind.code t.lexeme

/-- One row of a token listing: the line in four columns, then the token. -/
def listingRow (t : Token) : Bytes :=
  Bytes.padLeft 4 (byte ' ') (decimal t.line) ++ text " " ++ t.render ++ [newline]

def isError (t : Token) : Bool := t.kind == .error

def isEnd (t : Token) : Bool := t.kind == .endOfInput

end Token

end Abacus
