import Abacus.Token.Basic

/-!
# Syntax errors

A syntax error is a line, the place on it and what is wrong. An error that the scanner found has
no place: its message says all there is to say.
-/
namespace Abacus

inductive SyntaxFault
  /-- The message of an error token. -/
  | lexical (message : Bytes)
  | expectExpression
  | expectRightParen
  | expectEnd
  | invalidNumber
  | tooManyConstants
  deriving DecidableEq, Repr

inductive Place
  | unnamed
  | atEnd
  | atLexeme (lexeme : Bytes)
  deriving DecidableEq, Repr

structure SyntaxError where
  line : Nat
  place : Place
  fault : SyntaxFault
  deriving DecidableEq, Repr

def SyntaxFault.message : SyntaxFault → Bytes
  | lexical message => message
  | expectExpression => text "Expect expression."
  | expectRightParen => text "Expect ')' after expression."
  | expectEnd => text "Expect end of expression."
  | invalidNumber => text "Invalid number."
  | tooManyConstants => text "Too many constants in one chunk."

def Place.message : Place → Bytes
  | unnamed => []
  | atEnd => text " at end"
  | atLexeme lexeme => text " at '" ++ lexeme ++ text "'"

def Place.ofToken (t : Token) : Place :=
  match t.kind with
  | .endOfInput => .atEnd
  | .error => .unnamed
  | _ => .atLexeme t.lexeme

namespace SyntaxError

def ofToken (t : Token) (fault : SyntaxFault) : SyntaxError := ⟨t.line, .ofToken t, fault⟩

def message (e : SyntaxError) : Bytes :=
  text "[line " ++ decimal e.line ++ text "] Error" ++ e.place.message ++ text ": "
    ++ e.fault.message

end SyntaxError

end Abacus
