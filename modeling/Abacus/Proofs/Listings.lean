import Abacus.Bytecode.Listing
import Abacus.Proofs.PrintedValues
import Abacus.Proofs.SinkWrites
import Abacus.Proofs.TextLines
import Abacus.Proofs.Validity

/-!
# What a listing tells

A listing line has three fields: the index, a mark of the source line, and the instruction. Each can
be read off again, whatever the widths. A mark is a number or the bar that stands for the line of the
instruction above, so the source lines follow by induction on the index. An instruction is told by
its first byte, and a constant has its operand in a field of its own, before the printed value. Two
chunks therefore have equal listings if and only if they agree in all of this
(`Chunk.listing_eq_iff`).
-/
namespace Abacus

/-! ## Fields -/

/-- A field holds at least one byte and no space. -/
def IsField (s : Bytes) : Prop := s ≠ [] ∧ byte ' ' ∉ s

namespace IsField

theorem of_numeric {s : Bytes} (filled : s ≠ []) (numeric : Numeric s) : IsField s :=
  ⟨filled, fun member => absurd (numeric _ member) (by decide)⟩

theorem decimal (n : Nat) : IsField (decimal n) := by
  refine of_numeric ?_ (.decimal n)
  rw [Abacus.decimal, ne_eq, List.map_eq_nil_iff]
  exact Nat.toDigits_ne_nil

theorem signedDecimal (n : Int) : IsField (signedDecimal n) := by
  refine of_numeric ?_ (.signedDecimal n)
  unfold Abacus.signedDecimal
  split
  · exact List.cons_ne_nil _ _
  · exact (decimal _).1

/-- A field is read by skipping the spaces before it and cutting at the one behind it. -/
theorem cut_padLeft {w : Bytes} (field : IsField w) (width : Nat) (s : Bytes) :
    Bytes.cut (byte ' ')
      ((Bytes.padLeft width (byte ' ') w ++ byte ' ' :: s).dropWhile (· == byte ' ')) = (w, s) := by
  obtain ⟨filled, free⟩ := field
  obtain ⟨b, rest, rfl⟩ := List.exists_cons_of_ne_nil filled
  have first : (b == byte ' ') = false := by
    rw [beq_eq_false_iff_ne]
    rintro rfl
    exact free List.mem_cons_self
  have spaces : ∀ c ∈ Bytes.fill (width - (b :: rest).length) (byte ' '), (c == byte ' ') = true :=
    fun c member => beq_iff_eq.mpr (List.eq_of_mem_replicate member)
  -- Skipping stops at the first byte of the field, cutting at the space behind its last one.
  have skipped : (Bytes.padLeft width (byte ' ') (b :: rest) ++ byte ' ' :: s).dropWhile
      (· == byte ' ') = (b :: rest) ++ byte ' ' :: s := by
    rw [Bytes.padLeft, List.append_assoc, List.dropWhile_append_of_pos spaces, List.cons_append,
      List.dropWhile_cons_of_neg (by simp [first])]
  rw [skipped, Bytes.cut_at free]

theorem padLeft_inj {v w s t : Bytes} {width : Nat} (first : IsField v) (second : IsField w) :
    Bytes.padLeft width (byte ' ') v ++ byte ' ' :: s =
      Bytes.padLeft width (byte ' ') w ++ byte ' ' :: t ↔ v = w ∧ s = t := by
  constructor
  · intro same
    have read := first.cut_padLeft width s
    rw [same, second.cut_padLeft width t] at read
    exact ⟨(Prod.mk.inj read).1.symm, (Prod.mk.inj read).2.symm⟩
  · rintro ⟨rfl, rfl⟩
    rfl

end IsField

namespace Chunk

variable {c d : Chunk}

/-! ## Source lines -/

/-- What stands for the source line of an instruction. -/
def mark (c : Chunk) (index : Nat) : Bytes :=
  if 0 < index ∧ c.line index = c.line ((index : Int) - 1) then text "|"
  else signedDecimal (c.line index)

theorem bar_ne_signedDecimal (n : Int) : text "|" ≠ signedDecimal n := by
  intro same
  have member : byte '|' ∈ signedDecimal n := same ▸ (by decide)
  exact absurd (Numeric.signedDecimal n _ member) (by decide)

theorem isField_mark (c : Chunk) (index : Nat) : IsField (c.mark index) := by
  unfold mark
  split
  · exact ⟨by decide, by decide⟩
  · exact .signedDecimal _

theorem showLine_eq (c : Chunk) (index : Nat) :
    c.showLine index = Bytes.padLeft 4 (byte ' ') (c.mark index) := by
  unfold showLine mark
  split
  · decide
  · rfl

/-- If the line above is known, a mark tells the line. -/
theorem line_eq_of_mark {index : Nat}
    (above : 0 < index → c.line ((index : Int) - 1) = d.line ((index : Int) - 1))
    (same : c.mark index = d.mark index) : c.line index = d.line index := by
  unfold mark at same
  split at same <;> split at same
  next here there => exact here.2.trans ((above here.1).trans there.2.symm)
  next => exact absurd same (bar_ne_signedDecimal _)
  next => exact absurd same.symm (bar_ne_signedDecimal _)
  next => exact signedDecimal_injective same

theorem line_eq_of_marks {n : Nat} (same : ∀ index < n, c.mark index = d.mark index) (index : Nat)
    (inside : index < n) : c.line index = d.line index := by
  induction index with
  | zero => exact line_eq_of_mark (fun positive => absurd positive (Nat.lt_irrefl 0)) (same 0 inside)
  | succ index ih =>
    apply line_eq_of_mark _ (same _ inside)
    intro _
    have above : ((index + 1 : Nat) : Int) - 1 = index := by omega
    rw [above]
    exact ih (Nat.lt_of_succ_lt inside)

theorem line_natCast (c : Chunk) (index : Nat) : c.line index = c.lines[index]?.getD 0 := by
  rw [line, at?, if_neg (by omega), Int.toNat_natCast]

theorem lines_eq_of_marks (sizes : c.lines.size = d.lines.size)
    (same : ∀ index < c.lines.size, c.mark index = d.mark index) : c.lines = d.lines := by
  apply Array.ext sizes
  intro index here there
  have line := line_eq_of_marks same index here
  rw [line_natCast, line_natCast] at line
  simpa [here, there] using line

/-! ## Instructions -/

/-- How a constant is printed, if the operand refers to one. -/
def printed? (c : Chunk) (operand : UInt8) : Option Bytes :=
  (c.readConstant operand).toOption.map Value.print

theorem print_ne_invalid (v : Value) : v.print ≠ text "<invalid constant>" := by
  intro same
  unfold Value.print at same
  split at same
  · have member : byte '<' ∈ v.payload.print := same ▸ (by decide)
    exact absurd (v.payload.numeric_print _ member) (by decide)
  next other =>
    -- The kind of a value that is no number is named by its tag.
    have named : Value.tagName v.tag = text "ValueType(" ++ (decimal v.tag.toNat ++ text ")") := by
      rw [Value.tagName, if_neg (by simpa [Value.isNumber] using other), List.append_assoc]
    rw [named] at same
    have second : some (byte 'V') = (text "<invalid constant>")[1]? :=
      congrArg (fun s : Bytes => s[1]?) same
    exact absurd second (by decide)

theorem showInstruction_unknown {i : Instruction} (unknown : i.opcode? = none) :
    c.showInstruction i = text "<not found: 0x" ++ hexByte i.code ++ text ">" := by
  rw [showInstruction, unknown]

theorem showInstruction_constant {i : Instruction} (constant : i.opcode? = some .constant) :
    c.showInstruction i = (Bytes.padRight 16 (byte ' ') Opcode.constant.name ++ text " ") ++
      (Bytes.padLeft 4 (byte ' ') (decimal i.operand.toNat) ++
        byte ' ' :: (text "; " ++ (c.printed? i.operand).getD (text "<invalid constant>"))) := by
  have separator : text " ; " = byte ' ' :: text "; " := by decide
  rw [showInstruction, constant, printed?, separator]
  cases c.readConstant i.operand <;> simp [Except.toOption]

theorem showInstruction_simple {i : Instruction} {op : Opcode} (known : i.opcode? = some op)
    (simple : op ≠ .constant) : c.showInstruction i = op.name := by
  rw [showInstruction, known]
  cases op <;> first | rfl | exact absurd rfl simple

/-- The opcode whose name begins with a byte. -/
def initialOpcode? (b : UInt8) : Option Opcode := Opcode.all.find? (·.name.head? == some b)

theorem initialOpcode?_showInstruction (c : Chunk) (i : Instruction) :
    (c.showInstruction i).head?.bind initialOpcode? = i.opcode? := by
  cases known : i.opcode? with
  | none =>
    rw [showInstruction_unknown known]
    rfl
  | some op =>
    by_cases constant : op = .constant
    · subst constant
      rw [showInstruction_constant known]
      rfl
    · rw [showInstruction_simple known constant]
      cases op <;> decide

theorem opcode?_eq_of_showInstruction {i j : Instruction}
    (same : c.showInstruction i = d.showInstruction j) : i.opcode? = j.opcode? := by
  rw [← initialOpcode?_showInstruction c i, same, initialOpcode?_showInstruction]

theorem code_eq_of_showInstruction {i j : Instruction}
    (same : c.showInstruction i = d.showInstruction j) : i.code = j.code := by
  have opcode := opcode?_eq_of_showInstruction same
  cases known : i.opcode? with
  | none =>
    -- An unknown opcode is shown by its byte.
    rw [showInstruction_unknown known, showInstruction_unknown (opcode ▸ known)] at same
    exact hexByte_injective (List.append_cancel_left (List.append_cancel_right same))
  | some op =>
    have here := Opcode.ofByte?_eq_some_iff.mp known
    have there := Opcode.ofByte?_eq_some_iff.mp (opcode ▸ known : j.opcode? = some op)
    exact here.trans there.symm

theorem printed?_getD_inj {a b : UInt8} :
    (c.printed? a).getD (text "<invalid constant>") =
      (d.printed? b).getD (text "<invalid constant>") ↔ c.printed? a = d.printed? b := by
  -- No value is printed as what stands for a missing one.
  have valid (c : Chunk) (a : UInt8) : c.printed? a ≠ some (text "<invalid constant>") := by
    intro shown
    obtain ⟨v, -, same⟩ := Option.map_eq_some_iff.mp shown
    exact print_ne_invalid v same
  have left := valid c a
  have right := valid d b
  generalize c.printed? a = v at left
  generalize d.printed? b = w at right
  cases v with
  | none =>
    cases w with
    | none => simp
    | some w => simpa using fun same => right (congrArg some same.symm)
  | some v =>
    cases w with
    | none => simpa using fun same => left (congrArg some same)
    | some w => simp

theorem showInstruction_constant_inj {i j : Instruction} (first : i.opcode? = some .constant)
    (second : j.opcode? = some .constant) :
    c.showInstruction i = d.showInstruction j ↔
      i.operand = j.operand ∧ c.printed? i.operand = d.printed? j.operand := by
  rw [showInstruction_constant first, showInstruction_constant second, List.append_cancel_left_eq,
    IsField.padLeft_inj (.decimal _) (.decimal _), decimal_injective.eq_iff, UInt8.toNat_inj,
    List.append_cancel_left_eq, printed?_getD_inj]

theorem showInstruction_eq_iff {i j : Instruction} :
    c.showInstruction i = d.showInstruction j ↔
      i.code = j.code ∧ (i.opcode? = some .constant →
        i.operand = j.operand ∧ c.printed? i.operand = d.printed? j.operand) := by
  constructor
  · intro same
    have opcode := opcode?_eq_of_showInstruction same
    refine ⟨code_eq_of_showInstruction same, fun constant => ?_⟩
    exact (showInstruction_constant_inj constant (opcode ▸ constant)).mp same
  · rintro ⟨code, constants⟩
    have opcode : i.opcode? = j.opcode? := congrArg Opcode.ofByte? code
    cases known : i.opcode? with
    | none => rw [showInstruction_unknown known, showInstruction_unknown (opcode ▸ known), code]
    | some op =>
      by_cases constant : op = .constant
      · subst constant
        exact (showInstruction_constant_inj known (opcode ▸ known)).mpr (constants known)
      · rw [showInstruction_simple known constant, showInstruction_simple (opcode ▸ known) constant]

/-! ## Lines of a listing -/

theorem listingLine_eq_iff {index : Nat} {i j : Instruction} :
    c.listingLine index i = d.listingLine index j ↔
      c.mark index = d.mark index ∧ c.showInstruction i = d.showInstruction j := by
  have space : text " " = [byte ' '] := rfl
  simp only [listingLine, showLine_eq, space, List.append_assoc, List.append_cancel_left_eq]
  exact IsField.padLeft_inj (c.isField_mark index) (d.isField_mark index)

theorem length_listing (c : Chunk) : c.listing.length = c.code.size := by
  rw [listing, List.length_mapIdx, Array.length_toList]

theorem listing_eq_map_range (c : Chunk) :
    c.listing = (List.range c.code.size).map fun (index : Nat) => c.listingAt index := by
  apply List.ext_getElem
  · rw [length_listing, List.length_map, List.length_range]
  · intro index inside _
    have here : index < c.code.size := c.length_listing ▸ inside
    have natural : ¬ (index : Int) < 0 := by omega
    simp [listing, listingAt, at?, here, natural]

theorem listing_eq_iff_forall :
    c.listing = d.listing ↔ c.code.size = d.code.size ∧
      ∀ (index : Nat) (here : index < c.code.size) (there : index < d.code.size),
        c.mark index = d.mark index ∧
          c.showInstruction c.code[index] = d.showInstruction d.code[index] := by
  rw [List.ext_getElem_iff]
  simp only [length_listing]
  simp only [listing, List.getElem_mapIdx, Array.getElem_toList, listingLine_eq_iff]

/-- The chunks differ at most in what a listing does not show. -/
structure ShownAlike (c d : Chunk) : Prop where
  opcodes : c.code.map (·.code) = d.code.map (·.code)
  lines : c.lines = d.lines
  constants : ∀ (index : Nat) (here : index < c.code.size) (there : index < d.code.size),
    c.code[index].opcode? = some .constant →
      c.code[index].operand = d.code[index].operand ∧
        c.printed? c.code[index].operand = d.printed? d.code[index].operand

theorem mark_congr (lines : c.lines = d.lines) (index : Nat) : c.mark index = d.mark index := by
  have line (position : Int) : c.line position = d.line position := by rw [line, lines, line]
  rw [mark, line, line, mark]

/-- Chunks with a line for each instruction have equal listings just if a listing shows no
difference between them. -/
theorem listing_eq_iff (cLines : c.lines.size = c.code.size) (dLines : d.lines.size = d.code.size) :
    c.listing = d.listing ↔ c.ShownAlike d := by
  rw [listing_eq_iff_forall]
  constructor
  · rintro ⟨size, same⟩
    have shown (index : Nat) (here : index < c.code.size) (there : index < d.code.size) :=
      showInstruction_eq_iff.mp (same index here there).2
    refine ⟨?_, ?_, fun index here there => (shown index here there).2⟩
    · apply Array.ext
      · simpa using size
      · intro index here there
        simpa using (shown index (by simpa using here) (by simpa using there)).1
    -- The marks tell the lines from the first one on.
    · apply lines_eq_of_marks (by rw [cLines, dLines, size])
      intro index inside
      exact (same index (by omega) (by omega)).1
  · intro alike
    have size : c.code.size = d.code.size := by simpa using congrArg Array.size alike.opcodes
    refine ⟨size, fun index here there => ⟨mark_congr alike.lines index, ?_⟩⟩
    -- What is shown of an instruction depends on nothing else.
    have code : c.code[index].code = d.code[index].code := by
      have opcode := congrArg (fun codes : Array UInt8 => codes[index]?) alike.opcodes
      simpa [here, there] using opcode
    exact showInstruction_eq_iff.mpr ⟨code, alike.constants index here there⟩

/-- A listing is the header and a line for each instruction in order. A sink that fails takes as many
of these lines as it accepts writes, and the listing reports that if there are more. Chunks with a
line for each instruction have equal listings just if they have the same opcodes, the same source
lines, and at each constant the same operand and the same printed value, or none on both sides. -/
theorem disassembly_faithful (c : Chunk) (title : Bytes) :
    let output := ((text "== " ++ title ++ text " ==") :: c.listing).map (· ++ [newline])
    c.listing = (List.range c.code.size).map (fun (index : Nat) => c.listingAt index) ∧
    c.disassemble title = output.flatten ∧
    (c.disassembleTo title .working).2 = true ∧
    (c.disassembleTo title .working).1.content = c.disassemble title ∧
    (∀ n, (c.disassembleTo title (.fresh (some n))).1.pieces.reverse = output.take n ∧
      ((c.disassembleTo title (.fresh (some n))).2 = false ↔ n < 1 + c.code.size)) ∧
    ∀ d : Chunk, c.lines.size = c.code.size → d.lines.size = d.code.size →
      (c.listing = d.listing ↔ c.ShownAlike d) := by
  intro output
  obtain ⟨taken, content⟩ := Sink.writeAll_unlimited .working rfl output
  refine ⟨c.listing_eq_map_range, rfl, taken, content, fun n => ?_, fun d => listing_eq_iff⟩
  have written : c.disassembleTo title (.fresh (some n)) =
      (⟨some (n - output.length), (output.take n).reverse ++ [], output[n]?.toList ++ []⟩,
        decide (output.length ≤ n)) := Sink.writeAll_limited n [] [] output
  have size : output.length = 1 + c.code.size := by
    rw [List.length_map, List.length_cons, length_listing, Nat.add_comm]
  rw [written]
  constructor
  · simp
  · rw [size, decide_eq_false_iff_not, Nat.not_le]

/-- Listings show neither the operand of an addition nor which of the NaNs a constant is. -/
theorem disassembly_faithful_hidden_parts :
    let c : Chunk := ⟨#[.constant 0, .constant 9, ⟨0x42, 7⟩, .simple .add],
      #[.number .quietNaN], #[-12345, -12345, 3, 40000]⟩
    let d : Chunk := ⟨#[.constant 0, .constant 9, ⟨0x42, 0⟩, ⟨0x01, 5⟩],
      #[.number (.negate .quietNaN), ⟨3, .zero⟩], #[-12345, -12345, 3, 40000]⟩
    c ≠ d ∧ c.listing = d.listing ∧ c.ShownAlike d := by
  intro c d
  have same : c.listing = d.listing := by decide
  obtain ⟨-, -, -, -, -, faithful⟩ := disassembly_faithful c []
  exact ⟨by decide, same, (faithful d rfl rfl).mp same⟩

end Chunk

end Abacus
