import Abacus.Proofs.CodeBytes
import Abacus.Proofs.Validity

/-!
# The units of encoded code

Encoded code is a row of units: a zero and an operand behind it, which may be any byte, or one of
the bytes from one to six alone. An operand may look like an opcode, so what a byte means depends on
all that stands before it. Read from the start, a row of bytes has at most one division into units.
Decoding finds it, makes an instruction of each unit and refuses bytes that have no division, which
makes it the inverse of encoding (`code_units`).
-/
namespace Abacus

namespace Chunk

inductive IsUnit : Bytes → Prop
  | constant (operand : UInt8) : IsUnit [0x00, operand]
  | simple {b : UInt8} : 0x01 ≤ b → b ≤ 0x06 → IsUnit [b]

theorem isUnit_bytes {i : Instruction} (known : i.opcode?.isSome = true) : IsUnit i.bytes := by
  obtain ⟨op, opcode⟩ := Option.isSome_iff_exists.mp known
  have code : i.code = op.toByte := Opcode.ofByte?_eq_some_iff.mp opcode
  have width := Instruction.operandBytes_of_opcode opcode
  cases op with
  | constant =>
    simp only [Instruction.bytes, width, Opcode.operandBytes, if_true, code]
    exact .constant i.operand
  | _ =>
    simp only [Instruction.bytes, width, Opcode.operandBytes, code]
    apply IsUnit.simple <;> decide

/-- A unit is the bytes of an instruction, and of only one that has no unused operand. -/
theorem IsUnit.instruction {u : Bytes} (unit : IsUnit u) :
    ∃ i : Instruction, i.bytes = u ∧ i.opcode?.isSome = true ∧ i.canonical = i := by
  cases unit with
  | constant operand => exact ⟨.constant operand, rfl, rfl, rfl⟩
  | @simple b least most =>
    have simple : ∀ n < 7, 1 ≤ n →
        ∃ op ∈ Opcode.all, UInt8.ofNat n = op.toByte ∧ op ≠ .constant := by decide
    have bound : b.toNat < 7 := Nat.lt_succ_of_le most
    obtain ⟨op, -, same, other⟩ := simple b.toNat bound least
    rw [UInt8.ofNat_toNat] at same
    subst same
    refine ⟨.simple op, ?_⟩
    cases op with
    | constant => exact absurd rfl other
    | _ => exact ⟨rfl, rfl, rfl⟩

theorem instructions_of_units {units : List Bytes} (all : ∀ u ∈ units, IsUnit u) :
    ∃ code : List Instruction, code.map Instruction.bytes = units ∧
      (∀ i ∈ code, i.opcode?.isSome = true) ∧ code.map Instruction.canonical = code := by
  induction units with
  | nil => exact ⟨[], rfl, by simp, rfl⟩
  | cons u units ih =>
    rw [List.forall_mem_cons] at all
    obtain ⟨code, bytes, known, clear⟩ := ih all.2
    obtain ⟨i, here, opcode, unused⟩ := all.1.instruction
    refine ⟨i :: code, ?_, ?_, ?_⟩
    · rw [List.map_cons, here, bytes]
    · exact List.forall_mem_cons.mpr ⟨opcode, known⟩
    · rw [List.map_cons, unused, clear]

/-- Whatever is decoded was written as the bytes that it was decoded from. -/
theorem bytes_of_decodeFrom {position : Nat} {data : Bytes} {read code : List Instruction}
    (decoded : decodeFrom position data read = .ok code) :
    ∃ later, code = read.reverse ++ later ∧ codeBytes later = data ∧
      ∀ i ∈ later, i.opcode?.isSome = true := by
  -- The cases are the ends of the bytes, the two errors, and an opcode with an operand or without.
  fun_induction decodeFrom position data read with
  | case1 position read =>
    obtain rfl := Except.ok.inj decoded
    exact ⟨[], by simp, rfl, by simp⟩
  | case2 => cases decoded
  | case3 => cases decoded
  | case4 position b read op known used operand rest ih =>
    obtain ⟨later, rfl, bytes, others⟩ := ih decoded
    have opcode : (⟨b, operand⟩ : Instruction).opcode? = some op := known
    refine ⟨⟨b, operand⟩ :: later, by simp, ?_, ?_⟩
    · simp only [codeBytes, List.flatMap_cons] at bytes ⊢
      simp [Instruction.bytes, Instruction.operandBytes_of_opcode opcode, used, bytes]
    · exact List.forall_mem_cons.mpr ⟨by rw [opcode]; rfl, others⟩
  | case5 position b rest read op known unused ih =>
    obtain ⟨later, rfl, bytes, others⟩ := ih decoded
    have opcode : (⟨b, 0⟩ : Instruction).opcode? = some op := known
    refine ⟨⟨b, 0⟩ :: later, by simp, ?_, ?_⟩
    · simp only [codeBytes, List.flatMap_cons] at bytes ⊢
      simp [Instruction.bytes, Instruction.operandBytes_of_opcode opcode, unused, bytes]
    · exact List.forall_mem_cons.mpr ⟨by rw [opcode]; rfl, others⟩

theorem bytes_of_decodeCode {data : Bytes} {code : List Instruction}
    (decoded : decodeCode data = .ok code) :
    codeBytes code = data ∧ ∀ i ∈ code, i.opcode?.isSome = true := by
  obtain ⟨later, rfl, bytes, known⟩ := bytes_of_decodeFrom decoded
  exact ⟨bytes, known⟩

/-- Bytes that have a division into units are decoded into the instructions of those units. -/
theorem decodeCode_units {units : List Bytes} (all : ∀ u ∈ units, IsUnit u) :
    ∃ code : List Instruction, code.map Instruction.bytes = units ∧
      decodeCode units.flatten = .ok code := by
  obtain ⟨code, bytes, known, clear⟩ := instructions_of_units all
  have written : codeBytes code = units.flatten := by rw [← bytes, codeBytes, List.flatMap]
  have decoded := decodeCode_known code known
  rw [written, clear] at decoded
  exact ⟨code, bytes, decoded⟩

theorem known_of_encodeFrom {index : Nat} {code : List Instruction} {written data : Bytes}
    (encoded : encodeFrom index code written = .ok data) :
    ∀ i ∈ code, i.opcode?.isSome = true := by
  induction code generalizing index written with
  | nil => simp
  | cons i rest ih =>
    rw [encodeFrom] at encoded
    cases opcode : i.opcode? with
    | none =>
      rw [opcode] at encoded
      cases encoded
    | some op =>
      rw [opcode] at encoded
      exact List.forall_mem_cons.mpr ⟨by rw [opcode]; rfl, ih encoded⟩

theorem isSome_opcode?_iff (i : Instruction) :
    i.opcode?.isSome = true ↔ ∃ op ∈ Opcode.all, i.code = op.toByte := by
  rw [Option.isSome_iff_exists]
  constructor
  · rintro ⟨op, opcode⟩
    exact ⟨op, by cases op <;> decide, Opcode.ofByte?_eq_some_iff.mp opcode⟩
  · rintro ⟨op, -, code⟩
    exact ⟨op, Opcode.ofByte?_eq_some_iff.mpr code⟩

/-- Decoding accepts exactly the rows of units, gives one instruction for each unit, made of the
bytes of that unit, and is undone by encoding. Encoding accepts exactly the code of known opcodes,
and decoding gives that code back without the operands that are not used. So no two rows of bytes
are decoded into the same code. -/
theorem code_units (data : Bytes) (code : List Instruction) :
    ((∃ decoded, decodeCode data = .ok decoded) ↔
      ∃ units : List Bytes, (∀ u ∈ units, IsUnit u) ∧ data = units.flatten) ∧
    (∀ decoded, decodeCode data = .ok decoded →
      encodeCode decoded = .ok data ∧
      (∀ units : List Bytes, (∀ u ∈ units, IsUnit u) → data = units.flatten →
        decoded.map Instruction.bytes = units) ∧
      ∀ other, decodeCode other = .ok decoded → other = data) ∧
    ((∃ encoded, encodeCode code = .ok encoded) ↔
      ∀ i ∈ code, ∃ op ∈ Opcode.all, i.code = op.toByte) ∧
    (∀ encoded, encodeCode code = .ok encoded →
      decodeCode encoded = .ok (code.map fun i =>
        if i.operandBytes = 0 then ⟨i.code, 0⟩ else i)) := by
  -- No two rows of bytes have the same code, because encoding leads back to each.
  have encode_decoded {data : Bytes} {decoded : List Instruction}
      (read : decodeCode data = .ok decoded) : encodeCode decoded = .ok data := by
    obtain ⟨bytes, known⟩ := bytes_of_decodeCode read
    rw [encodeCode_known decoded known, bytes]
  refine ⟨?_, ?_, ?_, ?_⟩
  · constructor
    · rintro ⟨decoded, read⟩
      obtain ⟨bytes, known⟩ := bytes_of_decodeCode read
      refine ⟨decoded.map Instruction.bytes, ?_, ?_⟩
      · intro u member
        obtain ⟨i, among, rfl⟩ := List.mem_map.mp member
        exact isUnit_bytes (known i among)
      · rw [← bytes, codeBytes, List.flatMap]
    · rintro ⟨units, all, rfl⟩
      obtain ⟨decoded, -, read⟩ := decodeCode_units all
      exact ⟨decoded, read⟩
  · intro decoded read
    refine ⟨encode_decoded read, ?_, ?_⟩
    · -- Bytes that divide into units are decoded along that division.
      rintro units all rfl
      obtain ⟨other, bytes, again⟩ := decodeCode_units all
      obtain rfl := Except.ok.inj (again.symm.trans read)
      exact bytes
    · intro other again
      exact Except.ok.inj ((encode_decoded again).symm.trans (encode_decoded read))
  · constructor
    · rintro ⟨encoded, written⟩ i member
      exact (isSome_opcode?_iff i).mp (known_of_encodeFrom written i member)
    · intro known
      exact ⟨_, encodeCode_known code fun i member => (isSome_opcode?_iff i).mpr (known i member)⟩
  · intro encoded written
    have known := known_of_encodeFrom written
    obtain rfl := Except.ok.inj ((encodeCode_known code known).symm.trans written)
    rw [decodeCode_known code known]
    apply congrArg Except.ok
    apply List.map_congr_left
    intro i member
    -- An opcode has one operand byte or none.
    obtain ⟨op, opcode⟩ := Option.isSome_iff_exists.mp (known i member)
    have width := Instruction.operandBytes_of_opcode opcode
    cases op <;> simp [Instruction.canonical, width, Opcode.operandBytes]

end Chunk

end Abacus
