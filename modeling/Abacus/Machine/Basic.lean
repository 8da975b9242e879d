import Abacus.Compiler.Compile
import Abacus.Machine.Run
import Abacus.Sink

/-!
# Machines

A machine keeps a loaded chunk, a stack, a status and a sink for results from one operation to the
next. A run empties the stack, executes the instructions on it one after the other, and empties it
again however it ends.
-/
namespace Abacus

inductive Status
  | ready | running | halted | faulted
  deriving DecidableEq, Repr

namespace Status

def all : List Status := [ready, running, halted, faulted]

def name : Status → Bytes
  | ready => text "ready"
  | running => text "running"
  | halted => text "halted"
  | faulted => text "halted with error"

def nameOfCode (n : Int) : Bytes :=
  match if n < 0 then none else all[n.toNat]? with
  | some s => s.name
  | none => text "State(" ++ signedDecimal n ++ text ")"

end Status

/-- What a front end makes of a source, a chunk, no chunk or an error, and what it logs. -/
structure Compilation where
  result : Except CompileError (Option Chunk)
  log : List LogEntry

abbrev FrontEnd := Bytes → Compilation

def FrontEnd.standard : FrontEnd := fun source =>
  let compiled := compile source
  { result :=
      match compiled with
      | .ok chunk => .ok (some chunk)
      | .error e => .error (.rejected e)
    log := [compilationEntry compiled] }

structure Machine where
  chunk : Option Chunk
  stack : List Value
  status : Status
  /-- Where results are written; `none` discards them. -/
  output : Option Sink
  traced : Bool
  /-- Stack cells set aside in advance. The stack grows beyond them as needed. -/
  reserved : Nat
  frontEnd : Option FrontEnd
  arithmetic : Arithmetic

namespace Machine

def defaultReservation : Nat := 256

/-- A machine without chunk, front end or sink. -/
def fresh : Machine where
  chunk := none
  stack := []
  status := .ready
  output := none
  traced := false
  reserved := defaultReservation
  frontEnd := none
  arithmetic := .floatingPoint

/-- Sets the number of reserved cells, where there is memory for them. Numbers that are not positive
change nothing. -/
def reserve (m : Machine) (cells : Int) : Machine :=
  if 0 < cells then { m with reserved := cells.toNat } else m

/-- Sets the number of reserved cells, if there is memory for them: for `memory` cells at most. -/
def reserve? (m : Machine) (memory : Nat) (cells : Int) : Option Machine :=
  if cells ≤ memory then some (m.reserve cells) else none

/-- A machine after an operation, with the result and what was logged. -/
structure Reply where
  machine : Machine
  result : Except MachineError Value
  log : List LogEntry

/-- Makes a chunk, or none, the one that is run next. -/
def load (m : Machine) (chunk : Option Chunk) : Machine :=
  { m with chunk := chunk, stack := [], status := .ready }

/-- Writes a result and its line break; a refusal is logged and otherwise ignored. -/
def deliver (m : Machine) (v : Value) : Machine × List LogEntry :=
  match m.output with
  | none => (m, [])
  | some sink =>
    let (sink, accepted) := sink.write (v.print ++ [newline])
    ({ m with output := some sink },
      if accepted then [] else [⟨.warning, .machine, text "write result: " ++ Sink.refusal⟩])

/-- Ends a run with a value, which is written out. What else is on the stack is dropped. -/
def halt (m : Machine) (v : Value) (log : List LogEntry) : Reply :=
  let (m, refused) := m.deliver v
  ⟨{ m with stack := [], status := .halted }, .ok v, log ++ refused⟩

/-- Ends a run with a fault. What is on the stack is dropped. -/
def fault (m : Machine) (f : Fault) (log : List LogEntry) : Reply :=
  ⟨{ m with stack := [], status := .faulted }, .error (.fault f),
    log ++ [⟨.error, .machine, f.message⟩]⟩

/-- Executes the code that is left, which starts at `index`, on the machine's stack. The trace so
far has its last entry in front. -/
def dispatch (c : Chunk) : List Instruction → Nat → Machine → List LogEntry → Reply
  | [], index, m, trace => m.fault (Run.pastEnd c index) trace.reverse
  | i :: rest, index, m, trace =>
    let trace := if m.traced then Run.traceEntry index i m.stack.length :: trace else trace
    match Run.step m.arithmetic c i m.stack with
    | .next stack => dispatch c rest (index + 1) { m with stack := stack } trace
    | .done v => m.halt v trace.reverse
    | .stop kind => m.fault ⟨c.line index, i.code, kind⟩ trace.reverse

/-- Runs the loaded chunk from its first instruction. -/
def run (m : Machine) : Reply :=
  match m.chunk with
  | none => ⟨m, .error .noChunk, []⟩
  | some c => dispatch c c.code.toList 0 { m with stack := [], status := .running } []

def execute (m : Machine) (chunk : Option Chunk) : Reply := (m.load chunk).run

/-- Compiles a source with the machine's front end, loads the chunk and runs it. If there is no
chunk to run the machine stays as it was. -/
def interpret (m : Machine) (source : Bytes) : Reply :=
  match m.frontEnd with
  | none => ⟨m, .error (.compile .noCompiler), []⟩
  | some frontEnd =>
    let compiled := frontEnd source
    match compiled.result with
    | .error e => ⟨m, .error (.compile e), compiled.log⟩
    | .ok none => ⟨m, .error (.compile .noChunk), compiled.log⟩
    | .ok (some chunk) =>
      let reply := m.execute (some chunk)
      { reply with log := compiled.log ++ reply.log }

def useFrontEnd (m : Machine) (frontEnd : Option FrontEnd) : Machine :=
  { m with frontEnd := frontEnd }

end Machine

end Abacus
