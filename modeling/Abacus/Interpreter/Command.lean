import Abacus.Bytecode.Listing
import Abacus.Compiler.Compile
import Abacus.Sink
import Abacus.Text.Blank

/-!
# Commands of the interactive interpreter

A line that starts with a colon is a command: a name up to the first space, then its argument. A
command writes to the output sink, a piece at a time, and reports errors separately.
-/
namespace Abacus.Interpreter

def helpLines : List String :=
  ["REPL Commands:",
   "  :help, :h, :?     Show this help",
   "  :dis <expr>       Disassemble an expression without running it",
   "  :tokens <expr>    Show the tokens of an expression"]

inductive Command
  | help
  | disassemble (expression : Bytes)
  | tokens (expression : Bytes)
  | unknown (name : Bytes)
  deriving DecidableEq, Repr

def Command.ofLine (line : Bytes) : Command :=
  let (name, argument) := Bytes.cut (byte ' ') line
  if name = text ":help" ∨ name = text ":h" ∨ name = text ":?" then .help
  else if name = text ":dis" then .disassemble argument
  else if name = text ":tokens" then .tokens argument
  else .unknown name

/-- A message on a line of its own. -/
def report (message : Bytes) : Bytes := message ++ [newline]

/-- Carries out a command: the output sink after it, and what it reports as errors. -/
def Command.perform (out : Sink) : Command → Sink × Bytes
  | help => (helpLines.foldl (fun out line => out.offer (report (text line))) out, [])
  | disassemble expression =>
    match compile expression with
    | .error e => (out, report e.message)
    | .ok chunk =>
      match chunk.disassembleTo (Text.trim expression) out with
      | (out, true) => (out, [])
      | (out, false) => (out, report (text "disassemble: " ++ Sink.refusal))
  | tokens expression =>
    ((tokenize expression).foldl (fun out t => out.offer t.listingRow) out, [])
  | unknown name =>
    (out, report (text "Unknown command: " ++ name ++ text " (type :help for commands)"))

end Abacus.Interpreter
