import Abacus.Bytecode.Chunk
import Abacus.Log
import Abacus.Machine.Error

/-!
# Instructions at work

Every instruction either transforms the stack, ends the run with a value, or faults. There are no
jumps, so what is executed next is always the code that is left. The stack is a list with its top in
front.
-/
namespace Abacus.Run

inductive Step
  | next (stack : List Value)
  | done (value : Value)
  | stop (kind : FaultKind)
  deriving DecidableEq, Repr

/-- The operation of a binary opcode; the other opcodes have none. -/
def combine (a : Arithmetic) : Opcode → Binary64 → Binary64 → Binary64
  | .add => a.add
  | .subtract => a.subtract
  | .multiply => a.multiply
  | _ => a.divide

/-- Combines the two values on top of the stack; the upper one is the right operand. -/
def binary (a : Arithmetic) (op : Opcode) : List Value → Step
  | right :: left :: rest =>
    if left.isNumber && right.isNumber then
      .next (.number (combine a op left.payload right.payload) :: rest)
    else .stop .operandsNotNumbers
  | _ => .stop .stackUnderflow

def negation (a : Arithmetic) : List Value → Step
  | v :: rest =>
    if v.isNumber then .next (.number (a.negate v.payload) :: rest) else .stop .operandNotNumber
  | [] => .stop .stackUnderflow

def step (a : Arithmetic) (c : Chunk) (i : Instruction) (stack : List Value) : Step :=
  match i.opcode? with
  | none => .stop (.unknownOpcode i.code)
  | some .constant =>
    match c.constants[i.operand.toNat]? with
    | some v => .next (v :: stack)
    | none => .stop (.constantOutOfRange i.operand c.constants.size)
  | some .ret =>
    match stack with
    | v :: _ => .done v
    | [] => .stop .stackUnderflow
  | some .negate => negation a stack
  | some op => binary a op stack

/-- The fault of code that ends without returning: the last instruction is to blame, or an assumed
return if there is none. -/
def pastEnd (c : Chunk) (index : Nat) : Fault :=
  let last := (c.read ((index : Int) - 1)).toOption.getD (.simple .ret)
  ⟨c.line ((index : Int) - 1), last.code, .pastEnd index c.code.size⟩

/-- The log entry of an instruction about to be executed. -/
def traceEntry (index : Nat) (i : Instruction) (depth : Nat) : LogEntry :=
  ⟨.debug, .machine, Bytes.padLeft 4 (byte '0') (decimal index) ++ text " "
    ++ Bytes.padRight 10 (byte ' ') (Opcode.nameOfByte i.code) ++ text " depth=" ++ decimal depth⟩

end Abacus.Run
