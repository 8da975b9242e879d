import Abacus.Compiler.Parser
import Abacus.Log

/-!
# Compiling

A source is a single arithmetic expression. Compiling gives its chunk or the first error, and one
log entry about which of the two it was.
-/
namespace Abacus

def compile (source : Bytes) : Except SyntaxError Chunk :=
  let p := Parser.run (tokenize source)
  match p.failure with
  | some e => .error e
  | none => .ok p.chunk

def compilationEntry (result : Except SyntaxError Chunk) : LogEntry :=
  match result with
  | .ok c =>
    ⟨.debug, .compiler, text "compiled " ++ decimal c.code.size ++ text " instructions, "
      ++ decimal c.constants.size ++ text " constants"⟩
  | .error e => ⟨.debug, .compiler, text "compile failed: " ++ e.message⟩

end Abacus
