import Abacus.Compiler.Compile
import Abacus.Document.Position

/-!
# Reading a document

What an editor wants to know about a document without running it: its errors, the token under the
cursor and the words that could be completed. Every lexical error is reported, and after them the
error of the compiler unless that is one of them; a document without tokens has no errors.
-/
namespace Abacus

/-- An error message and the part of the document that it is about. -/
structure Diagnostic where
  range : Range
  message : Bytes
  deriving DecidableEq, Repr

namespace Document

/-- The extent of a lexical error: one byte, or the rest of the document for an open string. -/
def errorRange (s : Bytes) (t : Token) : Range :=
  let start := positionAt s t.offset
  if t.lexeme = Lexed.unterminatedMessage then ⟨start, positionAt s s.length⟩
  else if t.offset < s.length then ⟨start, ⟨start.line, coordinate (start.character + 1)⟩⟩
  else ⟨start, start⟩

/-- The reports of the error tokens. -/
def lexicalDiagnostics (s : Bytes) : List Diagnostic :=
  ((tokenize s).filter Token.isError).map fun t => ⟨errorRange s t, t.lexeme⟩

/-- The report of the compiler's error, unless the scanner has reported it. -/
def syntaxDiagnostic? (s : Bytes) : Option Diagnostic :=
  match compile s with
  | .ok _ => none
  | .error e =>
    if e.place = .unnamed then none else some ⟨lineRange s (e.line - 1 : Nat), e.message⟩

/-- There is nothing but layout. -/
def isBlank (s : Bytes) : Bool := (tokenize s).length == 1

def diagnose (s : Bytes) : List Diagnostic :=
  if isBlank s then [] else lexicalDiagnostics s ++ (syntaxDiagnostic? s).toList

def diagnosisLog (s : Bytes) : List LogEntry :=
  if isBlank s then [] else [compilationEntry (compile s)]

/-- The token whose bytes include the one at an offset. -/
def tokenAtOffset? (s : Bytes) (offset : Nat) : Option Token :=
  (tokenize s).find? fun t =>
    !t.isEnd && !t.isError && t.offset ≤ offset && offset < t.offset + t.lexeme.length

def tokenAt? (s : Bytes) (p : Position) : Option Token :=
  (offsetAt? s p).bind (tokenAtOffset? s)

/-- What sort of token it is, in a word. -/
def sortName : Kind → Bytes
  | .keyword _ => text "keyword"
  | .number => text "number"
  | .string => text "string"
  | .identifier => text "identifier"
  | _ => text "token"

def describe (t : Token) : Bytes :=
  text "**" ++ sortName t.kind ++ text "** \x60" ++ t.lexeme ++ text "\x60"

def tokenRange (s : Bytes) (t : Token) : Range :=
  ⟨positionAt s t.offset, positionAt s (t.offset + t.lexeme.length)⟩

/-- The reserved words that continue a word. -/
def completions (word : Bytes) : List Keyword :=
  Keyword.all.filter fun k => word.isPrefixOf k.spelling && k.spelling != word

end Document

end Abacus
