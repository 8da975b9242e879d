import Abacus.Disk
import Abacus.Input
import Abacus.Interpreter.Command
import Abacus.Machine.Basic

/-!
# The interpreter

Without arguments the interpreter reads expressions and commands line by line; with one it runs a
file. One machine serves all lines of a session, and its sink is standard output, which prompts and
commands also go to. Errors in a line are reported and the session goes on.
-/
namespace Abacus.Interpreter

/-- A machine with the compiler of this language that writes its results to a sink. -/
def machine (out : Sink) : Machine :=
  { Machine.fresh.useFrontEnd (some .standard) with output := some out }

structure Session where
  /-- Its sink is standard output. -/
  machine : Machine
  /-- What was reported as errors. -/
  errors : Bytes

namespace Session

def start (out : Sink) : Session := ⟨Interpreter.machine out, []⟩

def output (s : Session) : Sink := s.machine.output.getD .working

def withOutput (s : Session) (out : Sink) : Session :=
  { s with machine := { s.machine with output := some out } }

def say (s : Session) (piece : Bytes) : Session := s.withOutput (s.output.offer piece)

def complain (s : Session) (message : Bytes) : Session :=
  { s with errors := s.errors ++ report message }

def prompt : Bytes := text "> "

def tooLongMessage : Bytes :=
  text "line too long (over " ++ decimal Input.longestLine ++ text " bytes)"

def interpret (s : Session) (source : Bytes) : Session :=
  let reply := s.machine.interpret source
  let s := { s with machine := reply.machine }
  match reply.result with
  | .ok _ => s
  | .error e => s.complain e.message

/-- Serves one line, without the blanks around it. -/
def serve (s : Session) : InputLine → Session
  | .tooLong => s.complain tooLongMessage
  | .line content =>
    let line := Text.trim content
    if line = [] then s
    else if line.head? = some (byte ':') then
      let (out, errors) := (Command.ofLine line).perform s.output
      { s.withOutput out with errors := s.errors ++ errors }
    else s.interpret line

/-- Prompts for a line and serves it, until there is none; the last prompt stays without one. -/
def converse (s : Session) (fragments : List Fragment) : Session :=
  let s := s.say prompt
  match _ : Input.readLine fragments with
  | (.line line, rest) => (s.serve line).converse rest
  | (.inputEnd, _) => s.say [newline]
  | (.failure e, _) => (s.complain (text "read error: " ++ e)).say [newline]
termination_by fragments.length
decreasing_by exact Input.length_readLine ‹_›

end Session

structure Outcome where
  exit : Nat
  output : Sink
  errors : Bytes

def runFile (d : Disk) (fs : FileSystem) (p : Bytes) (out : Sink) : Outcome :=
  match d.read fs p with
  | .error e =>
    ⟨Exit.inputOutput, out,
      report (text "Could not read file \"" ++ p ++ text "\": " ++ e.message)⟩
  | .ok source =>
    let reply := (machine out).interpret source
    let written := reply.machine.output.getD out
    match reply.result with
    | .ok _ => ⟨Exit.ok, written, []⟩
    | .error e => ⟨Exit.ofError (some e), written, report e.message⟩

def run (arguments : List Bytes) (fs : FileSystem) (i : Input) (out : Sink)
    (d : Disk := .working) : Outcome :=
  match arguments with
  | [] =>
    let s := (Session.start out).converse i.fragments
    ⟨Exit.ok, s.output, s.errors⟩
  | [p] => runFile d fs p out
  | _ => ⟨Exit.usage, out, report (text "Usage: diablo [path]")⟩

end Abacus.Interpreter
