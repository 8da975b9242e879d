import Abacus.Sink
import Abacus.Token.Basic
import Abacus.Yaml.Scalar

/-!
# Token lists in YAML

A list with one item a token. The text is collected in a small buffer that is handed on when it is
nearly full, so a failing sink may take some of the text before it refuses the rest.
-/
namespace Abacus.Yaml

/-- A field of a list item on lines of its own. -/
def field (lead name : String) (value : Bytes) : Bytes :=
  text lead ++ text name ++ text ": " ++ value ++ [newline]

def tokenItem (t : Token) : Bytes :=
  field "- " "type" (render t.kind.name) ++ field "  " "lexeme" (render t.lexeme)
    ++ field "  " "line" (decimal t.line) ++ field "  " "offset" (decimal t.offset)

def tokenList (tokens : List Token) : Bytes := tokens.flatMap tokenItem

/-- The buffer is handed on before a character once it holds this many bytes. -/
def fullBuffer : Nat := 123

/-- Cuts characters into buffers; `buffer` holds what was collected so far, last byte first. -/
def cutBuffers (buffer : Bytes) (size : Nat) : List Utf8.Piece → List Bytes
  | [] => if buffer = [] then [] else [buffer.reverse]
  | piece :: rest =>
    let bytes := piece.bytes
    if fullBuffer ≤ size then buffer.reverse :: cutBuffers bytes.reverse bytes.length rest
    else cutBuffers (bytes.reverse ++ buffer) (size + bytes.length) rest

/-- What is handed on, buffer by buffer. -/
def buffers (s : Bytes) : List Bytes := cutBuffers [] 0 (Utf8.pieces s)

/-- Writes a token list; the flag says whether the sink accepted all of it. -/
def writeTokens (out : Sink) (tokens : List Token) : Sink × Bool :=
  out.writeAll (buffers (tokenList tokens))

end Abacus.Yaml
