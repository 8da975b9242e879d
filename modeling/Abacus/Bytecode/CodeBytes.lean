import Abacus.Bytecode.Chunk

/-!
# Code as bytes

An instruction is written as its opcode byte, followed by its operand byte if the opcode has one.
Operands of other opcodes are lost, so decoding gives back code in which they are zero.
-/
namespace Abacus.Chunk

def instructionBytes (op : Opcode) (i : Instruction) : Bytes :=
  if op.operandBytes = 1 then [i.code, i.operand] else [i.code]

/-- Encodes the instructions from `index` on after the bytes already written, which stand last
first. -/
def encodeFrom : Nat → List Instruction → Bytes → Except ChunkError Bytes
  | _, [], written => .ok written.reverse
  | index, i :: rest, written =>
    match i.opcode? with
    | none => .error (.unencodable index i.code)
    | some op => encodeFrom (index + 1) rest ((instructionBytes op i).reverse ++ written)

def encodeCode (code : List Instruction) : Except ChunkError Bytes := encodeFrom 0 code []

/-- Decodes the bytes from `position` on after the instructions already read, which stand last
first. -/
def decodeFrom : Nat → Bytes → List Instruction → Except ChunkError (List Instruction)
  | _, [], read => .ok read.reverse
  | position, b :: rest, read =>
    match Opcode.ofByte? b with
    | none => .error (.unknownByte b position)
    | some op =>
      if op.operandBytes = 1 then
        match rest with
        | [] => .error (.truncatedCode op position)
        | operand :: rest => decodeFrom (position + 2) rest (⟨b, operand⟩ :: read)
      else decodeFrom (position + 1) rest (⟨b, 0⟩ :: read)

def decodeCode (data : Bytes) : Except ChunkError (List Instruction) := decodeFrom 0 data []

end Abacus.Chunk
