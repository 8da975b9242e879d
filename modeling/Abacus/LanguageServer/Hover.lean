import Abacus.Document.Analysis
import Abacus.LanguageServer.Worker
import Abacus.Text.Quoted

/-!
# Hovering

Hovering over a token shows what it is and, if that is wanted, the value of the line it stands on,
which the worker's machine computes. A line that cannot be evaluated simply has no value; only a
log entry tells why.
-/
namespace Abacus

structure Hover where
  value : Bytes
  range : Range
  deriving DecidableEq, Repr

namespace Hover

/-- The printed value of a source, if it has one, and what is logged. -/
def evaluate (w : Worker) (source : Bytes) : Worker × Option Bytes × List LogEntry :=
  match w.perform (Job.interpret source) with
  | (w, .error e) =>
    (w, none, [⟨.warning, .languageServer, text "hover evaluate: " ++ e.message⟩])
  | (w, .ok reply) =>
    match reply.result with
    | .ok v => (w, some v.print, reply.log)
    | .error e =>
      (w, none, reply.log ++ [⟨.debug, .languageServer,
        text "hover evaluate " ++ Text.quote source ++ text ": " ++ e.message⟩])

/-- The heading, and under a rule the value if there is one. -/
def render (t : Token) (value : Option Bytes) : Bytes :=
  Document.describe t ++
    match value with
    | some v => text "\n\n---\n\n\x60= " ++ v ++ text "\x60"
    | none => []

/-- What is shown at a position of a document. -/
def compute (w : Worker) (evaluates : Bool) (s : Bytes) (p : Position) :
    Worker × Option Hover × List LogEntry :=
  match Document.tokenAt? s p with
  | none => (w, none, [])
  | some t =>
    let range := Document.tokenRange s t
    if evaluates then
      let (w, value, log) := evaluate w (Document.lineText s p.line)
      (w, some ⟨render t value, range⟩, log)
    else (w, some ⟨render t none, range⟩, [])

end Hover

end Abacus
