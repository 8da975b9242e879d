import Abacus.Text.Bytes

/-!
# Instructions

An instruction is an opcode byte and an operand byte. Seven bytes are opcodes; the others can
stand in code that nobody has checked, so an instruction keeps the byte and `Opcode.ofByte?` says
what it means. Only `constant` uses its operand.
-/
namespace Abacus

inductive Opcode
  | constant | add | subtract | multiply | divide | negate | ret
  deriving DecidableEq, Repr

namespace Opcode

def all : List Opcode := [constant, add, subtract, multiply, divide, negate, ret]

def toByte : Opcode → UInt8
  | constant => 0
  | add => 1
  | subtract => 2
  | multiply => 3
  | divide => 4
  | negate => 5
  | ret => 6

def ofByte? (b : UInt8) : Option Opcode := all.find? (·.toByte == b)

def name : Opcode → Bytes
  | constant => text "CONSTANT"
  | add => text "ADD"
  | subtract => text "SUBTRACT"
  | multiply => text "MULTIPLY"
  | divide => text "DIVIDE"
  | negate => text "NEGATE"
  | ret => text "RETURN"

/-- How many values an opcode takes from the stack. -/
def pops : Opcode → Nat
  | constant => 0
  | add | subtract | multiply | divide => 2
  | negate | ret => 1

/-- How many values an opcode leaves on the stack. -/
def pushes : Opcode → Nat
  | ret => 0
  | _ => 1

def operandBytes : Opcode → Nat
  | constant => 1
  | _ => 0

def isBinary : Opcode → Bool
  | add | subtract | multiply | divide => true
  | _ => false

/-- The name of any byte in opcode position. -/
def nameOfByte (b : UInt8) : Bytes :=
  match ofByte? b with
  | some op => op.name
  | none => text "UNKNOWN(0x" ++ hexByte b ++ text ")"

end Opcode

structure Instruction where
  code : UInt8
  operand : UInt8
  deriving DecidableEq, Repr, Inhabited

namespace Instruction

/-- Pushes the constant with this index. -/
def constant (index : UInt8) : Instruction := ⟨Opcode.constant.toByte, index⟩

/-- An instruction without operand. -/
def simple (op : Opcode) : Instruction := ⟨op.toByte, 0⟩

def opcode? (i : Instruction) : Option Opcode := Opcode.ofByte? i.code

def operandBytes (i : Instruction) : Nat := (i.opcode?.map Opcode.operandBytes).getD 0

def render (i : Instruction) : Bytes :=
  if i.operandBytes = 0 then Opcode.nameOfByte i.code
  else Opcode.nameOfByte i.code ++ text " " ++ decimal i.operand.toNat

end Instruction

end Abacus
