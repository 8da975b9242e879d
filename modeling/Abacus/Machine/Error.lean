import Abacus.Bytecode.Chunk
import Abacus.Compiler.Error

/-!
# What can go wrong in a machine

Three things: the source does not compile, the code faults while it runs, or there is no code to
run. A fault names the instruction at which it arose by its opcode and source line.
-/
namespace Abacus

inductive FaultKind
  /-- There is no instruction at this index. -/
  | pastEnd (index : Int) (size : Nat)
  | constantOutOfRange (index : UInt8) (size : Nat)
  | stackUnderflow
  | operandsNotNumbers
  | operandNotNumber
  | unknownOpcode (code : UInt8)
  deriving DecidableEq, Repr

structure Fault where
  line : Int
  /-- The opcode byte that is blamed. -/
  code : UInt8
  kind : FaultKind
  deriving DecidableEq, Repr

/-- Why there is nothing to run after compiling. -/
inductive CompileError
  | noCompiler
  | noChunk
  | rejected (error : SyntaxError)
  /-- A front end of another language failed in its own words. -/
  | failed (message : Bytes)
  deriving DecidableEq, Repr

inductive MachineError
  | compile (error : CompileError)
  | fault (fault : Fault)
  | noChunk
  deriving DecidableEq, Repr

namespace FaultKind

def message : FaultKind → Bytes
  | pastEnd _ _ => text "Ran past end of code without RETURN."
  | constantOutOfRange index _ =>
    text "Constant index " ++ decimal index.toNat ++ text " out of range."
  | stackUnderflow => text "Stack underflow."
  | operandsNotNumbers => text "Operands must be numbers."
  | operandNotNumber => text "Operand must be a number."
  | unknownOpcode code => text "Unknown opcode 0x" ++ hexByte code ++ text "."

def cause : FaultKind → Cause
  | pastEnd _ _ => .codeOutOfRange
  | constantOutOfRange _ _ => .constantOutOfRange
  | stackUnderflow => .stackUnderflow
  | operandsNotNumbers | operandNotNumber => .operandType
  | unknownOpcode _ => .unknownOpcode

def causeMessage : FaultKind → Bytes
  | pastEnd index size => (ChunkError.readOutOfRange index size).message
  | constantOutOfRange index size => (ChunkError.constantOutOfRange index size).message
  | kind => kind.cause.message

end FaultKind

def Fault.message (f : Fault) : Bytes :=
  text "[line " ++ signedDecimal f.line ++ text "] in " ++ Opcode.nameOfByte f.code ++ text ": "
    ++ f.kind.message

namespace CompileError

def message : CompileError → Bytes
  | noCompiler => Cause.noCompiler.message
  | noChunk => Cause.noChunk.message
  | rejected error => error.message
  | failed message => message

def cause? : CompileError → Option Cause
  | noCompiler => some .noCompiler
  | noChunk => some .noChunk
  | _ => none

end CompileError

namespace MachineError

def message : MachineError → Bytes
  | compile error => error.message
  | fault f => f.message
  | noChunk => Cause.noChunk.message

def cause? : MachineError → Option Cause
  | compile error => error.cause?
  | fault f => some f.kind.cause
  | noChunk => some .noChunk

end MachineError

/-! ## Exit statuses -/

namespace Exit

def ok : Nat := 0

/-- The status of a program that was ended because there was no memory for it. -/
def exhausted : Nat := 2

def usage : Nat := 64

def data : Nat := 65

def software : Nat := 70

def inputOutput : Nat := 74

/-- The status of a program that ends with this result of a machine. -/
def ofError : Option MachineError → Nat
  | none => ok
  | some (.compile _) => data
  | some _ => software

end Exit

end Abacus
