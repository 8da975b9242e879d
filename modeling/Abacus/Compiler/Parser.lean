import Abacus.Bytecode.Chunk
import Abacus.Compiler.Error
import Abacus.Token.Scanner

/-!
# Parsing into code

Expressions are parsed by operator precedence and their code is written while parsing: operands
first, operators when their operands are complete. The parser looks one token ahead. It remembers
the first error only and does not stop at once when there is one; it enters no further operator
then, so it soon falls through to the end.

Tokens are asked for one at a time. Asking beyond the end token gives the end token again. Each
call of `operand` takes a token that is not the end or returns at once, and each round of
`operators` takes one, so twice the number of tokens is fuel enough.
-/
namespace Abacus

structure Parser where
  /-- Tokens that have not been asked for. -/
  pending : List Token
  /-- The token that is looked at. -/
  current : Token
  /-- The token that was taken last. -/
  previous : Token
  chunk : Chunk
  failure : Option SyntaxError
  /-- How many tokens have been asked for. -/
  requests : Nat
  deriving Repr

namespace Parser

/-- Levels of precedence, from loose to tight; zero binds nothing. -/
def termLevel : Nat := 1

def factorLevel : Nat := 2

def unaryLevel : Nat := 3

inductive Opening
  | group | negation | literal
  deriving DecidableEq, Repr

def Opening.ofKind? : Kind → Option Opening
  | .punctuator .leftParen => some .group
  | .punctuator .minus => some .negation
  | .number => some .literal
  | _ => none

def operation? : Kind → Option Opcode
  | .punctuator .plus => some .add
  | .punctuator .minus => some .subtract
  | .punctuator .star => some .multiply
  | .punctuator .slash => some .divide
  | _ => none

/-- How tightly a token binds the operand before it. -/
def bindingLevel : Kind → Nat
  | .punctuator .plus | .punctuator .minus => termLevel
  | .punctuator .star | .punctuator .slash => factorLevel
  | _ => 0

/-- The token that stands where none has been taken. -/
def noToken : Token := ⟨.endOfInput, [], 0, 0⟩

/-- A parser that has asked for nothing yet. -/
def start (tokens : List Token) : Parser :=
  { pending := tokens, current := noToken, previous := noToken, chunk := .empty, failure := none,
    requests := 0 }

/-- Records an error unless there is one already. -/
def fail (p : Parser) (t : Token) (fault : SyntaxFault) : Parser :=
  { p with failure := p.failure <|> some (.ofToken t fault) }

/-- Asks for tokens until one comes that is not an error; the errors are recorded. -/
def pull : List Token → Parser → Parser
  | [], p => { p with pending := [], requests := p.requests + 1 }
  | t :: rest, p =>
    let p := { p with pending := rest, current := t, requests := p.requests + 1 }
    if t.isError then pull rest (p.fail t (.lexical t.lexeme)) else p

/-- Takes the current token and looks at the next one. -/
def advance (p : Parser) : Parser := pull p.pending { p with previous := p.current }

/-- Takes a token of a kind; any other is an error and stays. -/
def expect (p : Parser) (kind : Kind) (fault : SyntaxFault) : Parser :=
  if p.current.kind = kind then p.advance else p.fail p.current fault

def emit (p : Parser) (op : Opcode) (line : Nat) : Parser :=
  { p with chunk := p.chunk.write (.simple op) line }

/-- Emits the constant that the literal just taken denotes. -/
def emitLiteral (p : Parser) : Parser :=
  match Decimal.readLiteral? p.previous.lexeme with
  | none => p.fail p.previous .invalidNumber
  | some n =>
    match p.chunk.makeConstant (.number n) with
    | .ok (operand, chunk) =>
      { p with chunk := chunk.write (.constant operand) p.previous.line }
    | .error _ => p.fail p.previous .tooManyConstants

/-- Emits the operation of an operator whose operands are complete. -/
def emitOperator (p : Parser) (operator : Token) : Parser :=
  match operation? operator.kind with
  | some op => p.emit op operator.line
  | none => p

mutual

/-- Parses an operand and the operators after it that bind at least as tightly as `level`. -/
def operand : Nat → Nat → Parser → Parser
  | 0, _, p => p
  | fuel + 1, level, p =>
    let p := p.advance
    match Opening.ofKind? p.previous.kind with
    | none => p.fail p.previous .expectExpression
    | some .literal => operators fuel level p.emitLiteral
    | some .group =>
      let p := operand fuel termLevel p
      operators fuel level (p.expect (.punctuator .rightParen) .expectRightParen)
    | some .negation =>
      let line := p.previous.line
      let p := operand fuel unaryLevel p
      operators fuel level (p.emit .negate line)

/-- Parses binary operators and their right operands while they bind tightly enough. -/
def operators : Nat → Nat → Parser → Parser
  | 0, _, p => p
  | fuel + 1, level, p =>
    if p.failure.isNone && level ≤ bindingLevel p.current.kind then
      let p := p.advance
      let operator := p.previous
      let p := operand fuel (bindingLevel operator.kind + 1) p
      operators fuel level (p.emitOperator operator)
    else p

end

/-- Parses a whole source: one expression, then its end, where the code returns. -/
def run (tokens : List Token) : Parser :=
  let p := operand (2 * tokens.length + 2) termLevel (start tokens).advance
  let p := p.expect .endOfInput .expectEnd
  p.emit .ret p.previous.line

end Parser

end Abacus
