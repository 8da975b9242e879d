import Abacus.Text.Bytes

/-!
# Causes

The few conditions that callers tell apart, whatever error carries them. An error has at most one
cause; its own message says where and how the cause arose.
-/
namespace Abacus

inductive Cause
  | constantPoolFull
  | constantOutOfRange
  | codeOutOfRange
  | stackUnderflow
  | unknownOpcode
  | operandType
  | noCompiler
  | noChunk
  | workerStopped
  deriving DecidableEq, Repr

def Cause.message : Cause → Bytes
  | constantPoolFull => text "constant pool full"
  | constantOutOfRange => text "constant index out of range"
  | codeOutOfRange => text "instruction index out of range"
  | stackUnderflow => text "vm: stack underflow"
  | unknownOpcode => text "vm: unknown opcode"
  | operandType => text "vm: operand must be a number"
  | noCompiler => text "vm: no compiler configured"
  | noChunk => text "vm: no chunk loaded"
  | workerStopped => text "vm worker: stopped"

end Abacus
