import Abacus.Proofs.ArtifactRoundTrip
import Abacus.Proofs.Interpretation
import Abacus.Proofs.TokenSpans

/-!
# Artifacts of compiled chunks

A compiled chunk is in the normal form of the format: it is valid, its constants are numbers and
none of them a NaN, operands that no opcode uses are zero, and its lines are those of the source. So
it can always be written, and reading gives the very same chunk back (`decode_compiled`), unless it
has more instructions than the reader takes elements: the writer knows no such limit, and what it
wrote is then refused (`decode_oversized`).
-/
namespace Abacus

open Grammar

/-! ## Literals -/

theorem Binary64.isNaN_ofMagnitude {m : Nat} (bounded : m ≤ infinityMagnitude) :
    (ofMagnitude false m).isNaN = false := by
  have small : m < signWeight := Nat.lt_of_le_of_lt bounded (by decide)
  obtain ⟨same, -⟩ := ofMagnitude_parts false small
  simp [isNaN, same, Nat.not_lt.mpr bounded]

theorem Binary64.nearestMagnitude_le (numerator denominator : Nat) :
    nearestMagnitude numerator denominator ≤ infinityMagnitude :=
  Nat.min_le_left ..

theorem Decimal.isNaN_readLiteral (s : Bytes) : (readLiteral s).isNaN = false := by
  apply Binary64.isNaN_ofMagnitude
  unfold magnitude
  split
  · exact Binary64.nearestMagnitude_le ..
  · exact Binary64.nearestMagnitude_le ..

/-! ## Trees and their sources -/

namespace Grammar

theorem Derives.ne_nil {layer : Layer} {tokens : List Token} {tree : Tree}
    (derives : Derives layer tokens tree) : tokens ≠ [] := by
  induction derives with
  | literal | negation | group | join => simp
  | single _ ih => exact ih

theorem Derives.postorder_tokens {layer : Layer} {tokens : List Token} {tree : Tree}
    (derives : Derives layer tokens tree) :
    (∀ node ∈ tree.postorder, node.token ∈ tokens) ∧ tree.postorder.length ≤ tokens.length := by
  induction derives with
  | literal => simp [Tree.postorder]
  | negation _ _ ih =>
    obtain ⟨members, length⟩ := ih
    simp only [Tree.postorder, List.mem_append, List.mem_cons, List.not_mem_nil, or_false,
      List.length_append, List.length_cons, List.length_nil]
    refine ⟨?_, by omega⟩
    rintro node (inside | rfl)
    · exact .inr (members node inside)
    · exact .inl rfl
  | group _ _ _ ih =>
    obtain ⟨members, length⟩ := ih
    simp only [List.cons_append, List.mem_cons, List.mem_append, List.length_cons,
      List.length_append]
    exact ⟨fun node inside => .inr (.inl (members node inside)), by omega⟩
  | single _ ih => exact ih
  | join _ _ _ left right =>
    obtain ⟨leftMembers, leftLength⟩ := left
    obtain ⟨rightMembers, rightLength⟩ := right
    simp only [Tree.postorder, List.mem_append, List.mem_cons, List.not_mem_nil, or_false,
      List.length_append, List.length_cons, List.length_nil]
    refine ⟨?_, by omega⟩
    rintro node ((inside | inside) | rfl)
    · exact .inl (leftMembers node inside)
    · exact .inr (.inr (rightMembers node inside))
    · exact .inr (.inl rfl)

/-- The instructions of nodes: constants numbered in a row, and opcodes without operand. -/
theorem mem_instructions {next : Nat} {nodes : List Node} {i : Instruction}
    (member : i ∈ instructions next nodes) :
    (∃ op, i = .simple op ∧ op ≠ .constant) ∨
      ∃ k, k < (nodes.filter (·.opcode == .constant)).length ∧
        i = .constant (UInt8.ofNat (next + k)) := by
  induction nodes generalizing next with
  | nil => simp [instructions] at member
  | cons node rest ih =>
    obtain ⟨op, token⟩ := node
    by_cases constant : op = .constant
    · subst constant
      simp only [instructions, List.mem_cons] at member
      simp only [BEq.rfl, List.filter_cons_of_pos, List.length_cons]
      rcases member with rfl | later
      · exact .inr ⟨0, by omega, rfl⟩
      · -- Behind this constant the numbers count from the next one on.
        rcases ih later with simple | ⟨k, bound, same⟩
        · exact .inl simple
        · exact .inr ⟨k + 1, by omega, by rw [same, Nat.add_right_comm, Nat.add_assoc]⟩
    · have head :
          instructions next (⟨op, token⟩ :: rest) = .simple op :: instructions next rest := by
        cases op <;> first | rfl | exact absurd rfl constant
      rw [head, List.mem_cons] at member
      rw [List.filter_cons_of_neg (by simpa using constant)]
      rcases member with rfl | later
      · exact .inl ⟨op, rfl, constant⟩
      · exact ih later

theorem length_instructions (next : Nat) (nodes : List Node) :
    (instructions next nodes).length = nodes.length := by
  induction nodes generalizing next with
  | nil => rfl
  | cons node rest ih =>
    obtain ⟨op, token⟩ := node
    cases op <;> simp [instructions, ih]

end Grammar

/-- A source with a token is not all line breaks. -/
theorem newlines_lt_length {source : Bytes} {t : Token} {tokens : List Token}
    (shape : tokenize source = t :: tokens) (more : t.kind ≠ .endOfInput) :
    Bytes.newlines source < source.length := by
  obtain ⟨gap, split, -, -, stopped⟩ := (Cursor.start source).settle_layout
  have first : t = (Cursor.start source).next.1 := by
    have scans := tokenize_scans source
    rw [shape] at scans
    cases scans <;> rfl
  have split : source = gap ++ (Cursor.start source).settle.rest := split
  cases rest : (Cursor.start source).settle.rest with
  | nil =>
    refine absurd ?_ more
    rw [first, Cursor.next]
    simp [Cursor.take, rest]
  | cons b after =>
    -- The byte where the token starts is no line break, for it is no layout.
    have other : b ≠ newline := by
      rintro rfl
      exact stopped (.inl ⟨newline, by simp [rest], rfl⟩)
    rw [rest] at split
    have inside : b ∈ source := by
      rw [split]
      simp
    refine Nat.lt_of_le_of_ne List.count_le_length ?_
    intro all
    exact other (List.count_eq_length.mp all b inside).symm

theorem compile_emits {source : Bytes} {c : Chunk} (compiled : compile source = .ok c) :
    ∃ body ending tree, tokenize source = body ++ [ending] ∧ ending.kind = .endOfInput ∧
      (∀ t ∈ body, t.kind ≠ .endOfInput) ∧ (∀ t ∈ tokenize source, t.kind ≠ .error) ∧
      Derives .sum body tree ∧ tree.literals.length ≤ Chunk.maxConstants ∧
      c = (tree.emit .empty).write (.simple .ret) ending.line := by
  obtain ⟨body, ending, shape, kind, others⟩ := tokenize_shape source
  obtain ⟨clean, tree, derives, fits⟩ :=
    derives_of_compile source body ending c shape kind compiled
  have emitted := compile_of_derives source body ending tree shape kind clean derives fits
  refine ⟨body, ending, tree, shape, kind, others, ?_, derives, fits,
    Except.ok.inj (compiled.symm.trans emitted)⟩
  exact fun t member => (isError_eq_false_iff t).mp (clean t member)

/-! ## Compiled chunks -/

theorem Instruction.canonical_simple (op : Opcode) : (simple op).canonical = simple op := by
  unfold canonical
  split <;> rfl

theorem Chunk.canonical_eq_self {c : Chunk} (code : ∀ i ∈ c.code.toList, i.canonical = i)
    (constants : ∀ v ∈ c.constants.toList, v.payload.isNaN = false) : c.canonical = c := by
  obtain ⟨instructions, values, lines⟩ := c
  have sameCode : instructions.toList.map Instruction.canonical = instructions.toList.map id :=
    List.map_congr_left code
  have sameConstants : values.toList.map (fun v => { v with payload := v.payload.canonical }) =
      values.toList.map id := by
    refine List.map_congr_left fun v member => ?_
    simp [Binary64.canonical, constants v member]
  simp only [canonical, Chunk.mk.injEq, ← Array.toList_inj, Array.toList_map, sameCode,
    sameConstants, List.map_id, and_self]

/-- A chunk that an artifact keeps as it is. -/
structure Chunk.NormalForm (c : Chunk) : Prop where
  valid : c.validate = .ok ()
  numbers : ∀ v ∈ c.constants.toList, v.isNumber = true
  canonical_eq : c.canonical = c

section Emitted

variable (tree : Tree) (ending : Token)

/-- The code of a tree holds constants of its own literals and opcodes without operand. -/
theorem mem_emitted_code {i : Instruction}
    (member : i ∈ ((tree.emit .empty).write (.simple .ret) ending.line).code.toList) :
    (∃ op, i = .simple op ∧ op ≠ .constant) ∨
      ∃ k, k < tree.literals.length ∧ i = .constant (UInt8.ofNat k) := by
  rw [(emitted_contents tree ending).1, List.mem_append, List.mem_singleton] at member
  rcases member with inside | rfl
  · simpa [tree.constant_count] using mem_instructions inside
  · exact .inl ⟨.ret, rfl, by simp⟩

theorem mem_emitted_constants {v : Value}
    (member : v ∈ ((tree.emit .empty).write (.simple .ret) ending.line).constants.toList) :
    ∃ t, v = literalValue t := by
  rw [(emitted_contents tree ending).2.1] at member
  obtain ⟨t, -, rfl⟩ := List.mem_map.mp member
  exact ⟨t, rfl⟩

theorem emitted_code_size :
    ((tree.emit .empty).write (.simple .ret) ending.line).code.size =
      tree.postorder.length + 1 := by
  rw [← Array.length_toList, (emitted_contents tree ending).1, List.length_append,
    length_instructions, List.length_singleton]

theorem emitted_valid (fits : tree.literals.length ≤ Chunk.maxConstants) :
    ((tree.emit .empty).write (.simple .ret) ending.line).validate = .ok () := by
  obtain ⟨-, constants, lines⟩ := emitted_contents tree ending
  have size := emitted_code_size tree ending
  have admitted := @mem_emitted_code tree ending
  generalize (tree.emit .empty).write (.simple .ret) ending.line = c
    at constants lines size admitted
  have pool : c.constants.size = tree.literals.length := by
    rw [← Array.length_toList, constants, List.length_map]
  refine c.validate_eq_ok_iff.mpr ⟨?_, by omega, ?_⟩
  · rw [size, ← Array.length_toList, lines]
    simp
  · intro i member
    rcases admitted member with ⟨op, rfl, other⟩ | ⟨k, bound, rfl⟩
    · exact ⟨op, by simp, fun same => absurd same other⟩
    · -- The pool holds a constant for every literal, and indices stay below 256.
      have small : (UInt8.ofNat k).toNat = k := by
        rw [UInt8.toNat_ofNat']
        exact Nat.mod_eq_of_lt (Nat.lt_of_lt_of_le bound fits)
      refine ⟨.constant, by simp, fun _ => ?_⟩
      simp only [Instruction.constant, small, pool]
      exact bound

theorem emitted_normalForm (fits : tree.literals.length ≤ Chunk.maxConstants) :
    ((tree.emit .empty).write (.simple .ret) ending.line).NormalForm where
  valid := emitted_valid tree ending fits
  numbers v member := by
    obtain ⟨t, rfl⟩ := mem_emitted_constants tree ending member
    rfl
  canonical_eq := by
    apply Chunk.canonical_eq_self
    · intro i member
      rcases mem_emitted_code tree ending member with ⟨op, rfl, -⟩ | ⟨k, -, rfl⟩
      · exact Instruction.canonical_simple op
      · exact Instruction.canonical_of_constant (by simp)
    · intro v member
      obtain ⟨t, rfl⟩ := mem_emitted_constants tree ending member
      exact Decimal.isNaN_readLiteral t.lexeme

end Emitted

theorem normalForm_of_compile {source : Bytes} {c : Chunk} (compiled : compile source = .ok c) :
    c.NormalForm := by
  obtain ⟨_, ending, tree, -, -, -, -, -, fits, rfl⟩ := compile_emits compiled
  exact emitted_normalForm tree ending fits

/-- There is a byte of the source for every instruction but the last, which is a return. -/
theorem size_of_compile {source : Bytes} {c : Chunk} (compiled : compile source = .ok c) :
    c.code.size ≤ source.length + 1 ∧
      (Chunk.codeBytes c.code.toList).length ≤ 2 * source.length + 1 := by
  obtain ⟨body, ending, tree, shape, -, -, -, derives, -, rfl⟩ := compile_emits compiled
  -- Instructions are at most tokens, tokens at most bytes, and an instruction takes up to two.
  have tokens := (tokenize_scans source).length_le
  have nodes := derives.postorder_tokens.2
  have start : (Cursor.start source).rest.length = source.length := rfl
  rw [shape, List.length_append, List.length_singleton, start] at tokens
  have bytes := Chunk.codeBytes_length_le (instructions 0 tree.postorder)
  have last : (Instruction.simple .ret).bytes.length = 1 := rfl
  rw [length_instructions] at bytes
  rw [emitted_code_size, (emitted_contents tree ending).1, Chunk.codeBytes, List.flatMap_append,
    List.length_append, List.flatMap_singleton, last]
  unfold Chunk.codeBytes at bytes
  omega

/-- The lines of a compiled chunk are lines of its source. -/
theorem lines_of_compile {source : Bytes} {c : Chunk} (compiled : compile source = .ok c) :
    ∀ line ∈ c.lines.toList, 1 ≤ line ∧ line ≤ source.length := by
  obtain ⟨body, ending, tree, shape, -, others, clean, derives, -, rfl⟩ := compile_emits compiled
  have readAll := ((tokenize_scans source).spans (Cursor.within_start source)).1
  -- There is a token before the end, so not every byte is a line break.
  have broken : Bytes.newlines source < source.length := by
    cases body with
    | nil => exact absurd rfl derives.ne_nil
    | cons t tokens =>
      rw [List.cons_append] at shape
      exact newlines_lt_length shape (others t List.mem_cons_self)
  have bounds (t : Token) (member : t ∈ tokenize source) :
      1 ≤ (t.line : Int) ∧ (t.line : Int) ≤ source.length := by
    have line := (readAll t member).line (clean t member)
    have some := List.Sublist.count_le newline
      (List.take_sublist (t.offset + t.lexeme.length) source)
    unfold Bytes.newlines at line broken
    omega
  intro line member
  rw [(emitted_contents tree ending).2.2, List.mem_append, List.mem_map, List.mem_singleton]
    at member
  rcases member with ⟨node, inside, rfl⟩ | rfl
  · apply bounds
    rw [shape]
    exact List.mem_append_left _ (derives.postorder_tokens.1 node inside)
  · apply bounds
    simp [shape]

theorem run_of_compile {source : Bytes} {c : Chunk} (compiled : compile source = .ok c)
    (a : Arithmetic) : ∃ v, Run.run a c = .ok v := by
  obtain ⟨_, ending, tree, -, -, -, -, -, fits, rfl⟩ := compile_emits compiled
  exact ⟨_, Run.run_emitted a tree ending fits⟩

/-! ## Code of any size -/

/-- A one after a number of minus signs. -/
def negations (n : Nat) : Bytes := List.replicate n 0x2d ++ [0x31]

/-- Scanning them gives a phrase whose tree has a node for each byte. -/
theorem scans_negations (n offset line : Nat) :
    ∃ body ending tree, Cursor.Scans ⟨negations n, offset, line⟩ (body ++ [ending]) ∧
      ending.kind = .endOfInput ∧ (∀ t ∈ body, t.kind ≠ .error) ∧ Derives .unary body tree ∧
      tree.postorder.length = n + 1 ∧ tree.literals.length = 1 := by
  induction n generalizing offset with
  | zero =>
    have number : (⟨negations 0, offset, line⟩ : Cursor).next =
        (⟨.number, [0x31], line, offset⟩, ⟨[], offset + 1, line⟩) := rfl
    have ending : (⟨[], offset + 1, line⟩ : Cursor).next =
        (⟨.endOfInput, [], line, offset + 1⟩, ⟨[], offset + 1, line⟩) := rfl
    exact ⟨[_], _, .literal _, .of_next number (by simp) (.of_next_end ending rfl), rfl, by simp,
      .literal rfl, rfl, rfl⟩
  | succ n ih =>
    obtain ⟨body, ending, tree, scans, kind, clean, derives, nodes, literals⟩ := ih (offset + 1)
    have minus : (⟨negations (n + 1), offset, line⟩ : Cursor).next =
        (⟨.punctuator .minus, [0x2d], line, offset⟩, ⟨negations n, offset + 1, line⟩) := rfl
    exact ⟨_ :: body, ending, .negation _ tree, .of_next minus (by simp) scans, kind,
      by simpa using clean, .negation rfl derives, by simp [Tree.postorder, nodes], literals⟩

/-- So there is code of every size from two on. -/
theorem compile_negations (n : Nat) :
    ∃ c, compile (negations n) = .ok c ∧ c.code.size = n + 2 := by
  obtain ⟨body, ending, tree, scans, kind, clean, derives, nodes, literals⟩ :=
    scans_negations n 0 1
  have compiled := compile_of_scans scans kind clean (.single (.single derives))
    (by simp [literals, Chunk.maxConstants])
  exact ⟨_, compiled, by rw [emitted_code_size, nodes]⟩

/-! ## Their artifacts -/

namespace Artifact

theorem encode_compiled {source : Bytes} {c : Chunk} (compiled : compile source = .ok c) :
    encode c = .ok (Fields.ofChunk c).write := by
  obtain ⟨valid, numbers, -⟩ := normalForm_of_compile compiled
  exact (encode_eq_ok_iff c _).mpr ⟨valid, numbers, rfl⟩

/-- The artifact of a compiled chunk is read as that chunk. -/
theorem decode_compiled {source : Bytes} {c : Chunk} (compiled : compile source = .ok c)
    (short : source.length < signedLimit) (small : c.code.size ≤ Cbor.maxElements) :
    decode (Fields.ofChunk c).write = .ok c := by
  have words (line : Int) (member : line ∈ c.lines.toList) : isSignedWord line = true := by
    have bounds := lines_of_compile compiled line member
    rw [isSignedWord_iff]
    omega
  have back := decode_of_encode small words (encode_compiled compiled)
  rw [(normalForm_of_compile compiled).canonical_eq] at back
  exact back

theorem Fields.read?_oversized {f : Fields} (magicLength : f.magic.length < wordCount)
    (version : f.version ≤ 65535) (code : f.code.length < wordCount)
    (constants : f.constants.length ≤ Cbor.maxElements)
    (large : Cbor.maxElements < f.lines.length) (words : f.lines.length < wordCount) :
    Cbor.Item.read? f.write = none := by
  have start := f.reads_start magicLength version code constants
  have refused (fuel : Nat) :
      Cbor.readItem? fuel 1 (Cbor.writeArray (f.lines.map Cbor.writeInteger)) = none := by
    rw [← List.append_nil (Cbor.writeArray _)]
    exact Cbor.readItem?_oversized (by simpa using large) (by simpa using words) [] fuel 1
  exact Cbor.read?_writeMap_refused rfl start (by decide) (by simp [Cbor.maxElements]) refused

/-- The artifact of a compiled chunk with too many instructions is refused. -/
theorem decode_oversized {source : Bytes} {c : Chunk} (compiled : compile source = .ok c)
    (short : source.length < signedLimit) (large : Cbor.maxElements < c.code.size) :
    decode (Fields.ofChunk c).write = .error notADocument := by
  obtain ⟨lines, pool, -⟩ := c.validate_eq_ok_iff.mp (normalForm_of_compile compiled).valid
  obtain ⟨size, bytes⟩ := size_of_compile compiled
  simp only [signedLimit, Cbor.maxElements, Chunk.maxConstants] at short large pool
  -- The other fields are in bounds, so it is the lines that are refused.
  have refused : Cbor.Item.read? (Fields.ofChunk c).write = none :=
    Fields.read?_oversized (by decide : formatMagic.length < wordCount)
      (by decide : formatVersion ≤ 65535) (by simp only [Fields.ofChunk, wordCount]; omega)
      (by simp [Fields.ofChunk, Cbor.maxElements]; omega)
      (by simp [Fields.ofChunk, Cbor.maxElements]; omega)
      (by simp [Fields.ofChunk, wordCount]; omega)
  simp only [decode, refused]

end Artifact

end Abacus
