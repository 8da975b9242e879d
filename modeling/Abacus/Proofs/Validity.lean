import Abacus.Bytecode.Chunk

/-!
# Valid chunks

What `validate` accepts, said of the whole chunk instead of its first defect.
-/
namespace Abacus

@[simp] theorem Opcode.ofByte?_toByte (op : Opcode) : ofByte? op.toByte = some op := by
  cases op <;> decide

theorem Opcode.ofByte?_eq_some_iff {b : UInt8} {op : Opcode} :
    ofByte? b = some op ↔ b = op.toByte := by
  constructor
  · intro found
    have matched := List.find?_some found
    exact (beq_iff_eq.mp matched).symm
  · rintro rfl
    exact ofByte?_toByte op

namespace Instruction

@[simp] theorem opcode?_simple (op : Opcode) : (simple op).opcode? = some op :=
  Opcode.ofByte?_toByte op

@[simp] theorem opcode?_constant (operand : UInt8) :
    (constant operand).opcode? = some .constant :=
  Opcode.ofByte?_toByte .constant

end Instruction

namespace Chunk

/-- The instruction has a known opcode, and its constant, if it needs one, is in the pool. -/
def Admits (c : Chunk) (i : Instruction) : Prop :=
  ∃ op, i.opcode? = some op ∧ (op = .constant → i.operand.toNat < c.constants.size)

theorem instructionError?_eq_none_iff (c : Chunk) (index : Nat) (i : Instruction) :
    c.instructionError? index i = none ↔ c.Admits i := by
  unfold instructionError? Admits
  cases i.opcode? with
  | none => simp
  | some op => cases op <;> simp

theorem codeError?_eq_none_iff (c : Chunk) (index : Nat) (code : List Instruction) :
    c.codeError? index code = none ↔ ∀ i ∈ code, c.Admits i := by
  induction code generalizing index with
  | nil => simp [codeError?]
  | cons i rest ih =>
    simp only [codeError?, List.forall_mem_cons, ← instructionError?_eq_none_iff c index i,
      ← ih (index + 1)]
    cases c.instructionError? index i <;> simp

/-- A chunk is valid if it has a line for each instruction, at most 256 constants, and only
instructions that it admits. -/
theorem validate_eq_ok_iff (c : Chunk) :
    c.validate = .ok () ↔
      c.lines.size = c.code.size ∧ c.constants.size ≤ maxConstants ∧
        ∀ i ∈ c.code.toList, c.Admits i := by
  rw [← codeError?_eq_none_iff c 0]
  unfold validate defect?
  -- The rules are tested in this order, so each case assumes that those before it hold.
  by_cases lines : c.lines.size = c.code.size
  · by_cases pool : c.constants.size ≤ maxConstants
    · simp only [lines, ne_eq, not_true_eq_false, if_false, Nat.not_lt.mpr pool]
      cases c.codeError? 0 c.code.toList <;> simp [pool]
    · simp [lines, pool, Nat.not_le.mp pool]
  · simp [lines]

end Chunk

end Abacus
