import Abacus.Bytecode.CodeBytes

/-!
# Code through its bytes

Code of known opcodes is written as the bytes of its instructions in a row, and reading them gives
the code back with the operands cleared that no opcode uses.
-/
namespace Abacus

namespace Instruction

/-- The instruction without an operand that its opcode does not use. -/
def canonical (i : Instruction) : Instruction :=
  if i.operandBytes = 1 then i else { i with operand := 0 }

def bytes (i : Instruction) : Bytes :=
  if i.operandBytes = 1 then [i.code, i.operand] else [i.code]

theorem operandBytes_of_opcode {i : Instruction} {op : Opcode} (known : i.opcode? = some op) :
    i.operandBytes = op.operandBytes := by
  simp [operandBytes, known]

theorem bytes_of_opcode {i : Instruction} {op : Opcode} (known : i.opcode? = some op) :
    Chunk.instructionBytes op i = i.bytes := by
  simp only [Chunk.instructionBytes, bytes, operandBytes_of_opcode known]

theorem bytes_length_le (i : Instruction) : i.bytes.length ≤ 2 := by
  unfold bytes
  split <;> simp

@[simp] theorem canonical_code (i : Instruction) : i.canonical.code = i.code := by
  unfold canonical
  split <;> rfl

@[simp] theorem canonical_opcode? (i : Instruction) : i.canonical.opcode? = i.opcode? := by
  simp [opcode?]

theorem canonical_of_constant {i : Instruction} (constant : i.opcode? = some .constant) :
    i.canonical = i := by
  simp [canonical, operandBytes, constant, Opcode.operandBytes]

end Instruction

namespace Chunk

def codeBytes (code : List Instruction) : Bytes := code.flatMap Instruction.bytes

theorem codeBytes_length_le (code : List Instruction) :
    (codeBytes code).length ≤ 2 * code.length := by
  induction code with
  | nil => simp [codeBytes]
  | cons i rest ih =>
    have one := i.bytes_length_le
    simp only [codeBytes, List.flatMap_cons, List.length_append, List.length_cons] at ih ⊢
    omega

theorem encodeFrom_known (index : Nat) (code : List Instruction) (written : Bytes)
    (known : ∀ i ∈ code, i.opcode?.isSome = true) :
    encodeFrom index code written = .ok (written.reverse ++ codeBytes code) := by
  induction code generalizing index written with
  | nil => simp [encodeFrom, codeBytes]
  | cons i rest ih =>
    obtain ⟨op, opcode⟩ := Option.isSome_iff_exists.mp (known i List.mem_cons_self)
    have others : ∀ j ∈ rest, j.opcode?.isSome = true :=
      fun j member => known j (List.mem_cons_of_mem i member)
    simp only [encodeFrom, opcode, Instruction.bytes_of_opcode opcode]
    rw [ih (index + 1) _ others]
    simp [codeBytes]

theorem decodeFrom_known (position : Nat) (code read : List Instruction)
    (known : ∀ i ∈ code, i.opcode?.isSome = true) :
    decodeFrom position (codeBytes code) read = .ok (read.reverse ++ code.map .canonical) := by
  induction code generalizing position read with
  | nil => simp [decodeFrom, codeBytes]
  | cons i rest ih =>
    obtain ⟨op, opcode⟩ := Option.isSome_iff_exists.mp (known i List.mem_cons_self)
    have others : ∀ j ∈ rest, j.opcode?.isSome = true :=
      fun j member => known j (List.mem_cons_of_mem i member)
    have lookup : Opcode.ofByte? i.code = some op := opcode
    have width := Instruction.operandBytes_of_opcode opcode
    -- The opcode byte decides whether the next byte is an operand or an opcode.
    by_cases operand : op.operandBytes = 1
    · have bytes : codeBytes (i :: rest) = i.code :: i.operand :: codeBytes rest := by
        simp [codeBytes, Instruction.bytes, width, operand]
      rw [bytes, decodeFrom]
      simp only [lookup, operand, if_true]
      rw [ih _ _ others]
      simp [Instruction.canonical, width, operand]
    · have bytes : codeBytes (i :: rest) = i.code :: codeBytes rest := by
        simp [codeBytes, Instruction.bytes, width, operand]
      rw [bytes, decodeFrom.eq_def]
      simp only [lookup, operand, if_false]
      rw [ih _ _ others]
      simp [Instruction.canonical, width, operand]

theorem encodeCode_known (code : List Instruction)
    (known : ∀ i ∈ code, i.opcode?.isSome = true) : encodeCode code = .ok (codeBytes code) :=
  encodeFrom_known 0 code [] known

theorem decodeCode_known (code : List Instruction)
    (known : ∀ i ∈ code, i.opcode?.isSome = true) :
    decodeCode (codeBytes code) = .ok (code.map .canonical) :=
  decodeFrom_known 0 code [] known

end Chunk

end Abacus
