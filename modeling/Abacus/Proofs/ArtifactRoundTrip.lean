import Abacus.Bytecode.Artifact
import Abacus.Proofs.CborRoundTrip
import Abacus.Proofs.CodeBytes
import Abacus.Proofs.Validity

/-!
# Artifacts are read back

A chunk can be written exactly if it is valid and holds only numbers. What is written is read as
the same chunk, up to what the format does not keep: operands that no opcode uses and the payloads
of NaNs.
-/
namespace Abacus

open Cbor (Item Reads ReadsAll integerItem)

/-- The chunk without what an artifact does not keep: unused operands become zero, and all NaNs
become the same one. -/
def Chunk.canonical (c : Chunk) : Chunk where
  code := c.code.map Instruction.canonical
  constants := c.constants.map fun v => { v with payload := v.payload.canonical }
  lines := c.lines

theorem Chunk.validate_canonical {c : Chunk} (valid : c.validate = .ok ()) :
    c.canonical.validate = .ok () := by
  obtain ⟨lines, pool, code⟩ := c.validate_eq_ok_iff.mp valid
  refine c.canonical.validate_eq_ok_iff.mpr
    ⟨by simpa [canonical] using lines, by simpa [canonical] using pool, ?_⟩
  intro i member
  simp only [canonical, Array.toList_map, List.mem_map] at member
  obtain ⟨j, member, rfl⟩ := member
  obtain ⟨op, known, inPool⟩ := code j member
  refine ⟨op, by simpa using known, ?_⟩
  -- Only the operand of a constant matters, and that one is kept.
  rintro rfl
  rw [Instruction.canonical_of_constant known]
  simpa [canonical] using inPool rfl

namespace Artifact

/-! ## The five entries -/

/-- Entries within the bounds of the format. -/
structure Fields.Fits (f : Fields) : Prop where
  magic : Utf8.isValid f.magic = true
  magicLength : f.magic.length < wordCount
  version : f.version ≤ 65535
  code : f.code.length < wordCount
  constants : f.constants.length ≤ Cbor.maxElements
  lines : f.lines.length ≤ Cbor.maxElements
  words : ∀ line ∈ f.lines, isSignedWord line = true

def Fields.canonical (f : Fields) : Fields :=
  { f with constants := f.constants.map Binary64.canonical }

def Fields.pairs (f : Fields) : List (Item × Item) :=
  [(.unsigned 1, .text [f.magic]),
   (.unsigned 2, integerItem f.version),
   (.unsigned 3, .bytes [f.code]),
   (.unsigned 4, .array (f.constants.map fun x => .float x.canonical)),
   (.unsigned 5, .array (f.lines.map integerItem))]

/-- Everything up to the lines of an artifact can be read, whatever the lines are. -/
theorem Fields.reads_start {f : Fields} (magicLength : f.magic.length < wordCount)
    (version : f.version ≤ 65535) (code : f.code.length < wordCount)
    (constants : f.constants.length ≤ Cbor.maxElements) :
    ReadsAll 1
      [Cbor.writeInteger 1, Cbor.writeText f.magic, Cbor.writeInteger 2,
        Cbor.writeInteger f.version, Cbor.writeInteger 3, Cbor.writeBytes f.code,
        Cbor.writeInteger 4, Cbor.writeArray (f.constants.map Cbor.writeFloat),
        Cbor.writeInteger 5]
      [.unsigned 1, .text [f.magic], .unsigned 2, integerItem f.version, .unsigned 3,
        .bytes [f.code], .unsigned 4, .array (f.constants.map fun x => .float x.canonical),
        .unsigned 5] := by
  -- The entries stand one level below the map, the elements of arrays two.
  have integer (n : Int) (word : isSignedWord n = true) :
      Reads 1 (Cbor.writeInteger n) (integerItem n) :=
    (Cbor.reads_writeInteger word).mono (by decide)
  have word : isSignedWord f.version = true := by
    simp only [isSignedWord_iff, signedLimit]
    omega
  have magic := (Cbor.reads_writeText magicLength).mono (by decide : 0 ≤ 1)
  have code := (Cbor.reads_writeBytes code).mono (by decide : 0 ≤ 1)
  have elements : ReadsAll 0 (f.constants.map Cbor.writeFloat)
      (f.constants.map fun x => .float x.canonical) :=
    .map fun x _ => Cbor.reads_writeFloat x
  have constants := Cbor.reads_writeArray elements (by simpa using constants)
  exact .cons (integer 1 (by decide)) <| .cons magic <|
    .cons (integer 2 (by decide)) <| .cons (integer f.version word) <|
    .cons (integer 3 (by decide)) <| .cons code <|
    .cons (integer 4 (by decide)) <| .cons constants <|
    .cons (integer 5 (by decide)) .nil

theorem Fields.reads_write {f : Fields} (fits : f.Fits) : Reads 2 f.write (.map f.pairs) := by
  have start := f.reads_start fits.magicLength fits.version fits.code fits.constants
  have elements : ReadsAll 0 (f.lines.map Cbor.writeInteger) (f.lines.map integerItem) :=
    .map fun line member => Cbor.reads_writeInteger (fits.words line member)
  have lines := Cbor.reads_writeArray elements (by simpa using fits.lines)
  exact Cbor.reads_writeMap (start.concat lines) (by simp [pairs, Cbor.maxElements])

theorem mapM_map {α β γ : Type} {f : β → Option γ} {g : α → β} {h : α → γ} {xs : List α}
    (each : ∀ x ∈ xs, f (g x) = some (h x)) : (xs.map g).mapM f = some (xs.map h) := by
  induction xs with
  | nil => rfl
  | cons x rest ih =>
    have first := each x List.mem_cons_self
    have others := ih fun y member => each y (List.mem_cons_of_mem x member)
    simp [List.mapM_cons, first, others]

theorem untag?_integerItem (n : Int) : untag? (integerItem n) = some (integerItem n) := by
  unfold integerItem
  split <;> rfl

theorem isAbsent_integerItem (n : Int) : isAbsent (integerItem n) = false := by
  unfold integerItem
  split <;> rfl

theorem integer?_integerItem {n : Int} (word : isSignedWord n = true) :
    integer? (integerItem n) = some n := by
  have bounds := (isSignedWord_iff n).mp word
  unfold integerItem
  split
  · have magnitude : n.natAbs - 1 < signedLimit := by omega
    simp only [integer?, magnitude, if_true, Option.some.injEq]
    omega
  · simp only [integer?, Option.some.injEq]
    omega

theorem integerIn?_integerItem {least greatest n : Int} (word : isSignedWord n = true)
    (above : least ≤ n) (below : n ≤ greatest) :
    integerIn? least greatest (integerItem n) = some n := by
  simp [integerIn?, untag?_integerItem, isAbsent_integerItem, integer?_integerItem word, above,
    below]

theorem Fields.ofItem?_pairs {f : Fields} (fits : f.Fits) :
    Fields.ofItem? (.map f.pairs) = some f.canonical := by
  have magic : magic? (.text [f.magic]) = some f.magic := by
    simp [magic?, untag?, wellFormedText?, fits.magic]
  have version : integerIn? 0 65535 (integerItem f.version) = some (f.version : Int) := by
    have bound := fits.version
    refine integerIn?_integerItem ?_ (by omega) (by omega)
    simp only [isSignedWord_iff, signedLimit]
    omega
  have code : code? (.bytes [f.code]) = some f.code := by
    simp [code?, untag?]
  have constants : elements? number? (.array (f.constants.map fun x => .float x.canonical)) =
      some (f.constants.map .canonical) :=
    mapM_map fun x _ => rfl
  have lines : elements? (integerIn? (-(signedLimit : Int)) (signedLimit - 1))
      (.array (f.lines.map integerItem)) = some f.lines := by
    -- Lines keep their full range: the bounds of the reader are those of the words.
    have each : (f.lines.map integerItem).mapM
        (integerIn? (-(signedLimit : Int)) (signedLimit - 1)) = some (f.lines.map id) := by
      refine mapM_map fun line member => ?_
      have word := fits.words line member
      have bounds := (isSignedWord_iff line).mp word
      exact integerIn?_integerItem word bounds.1 (by omega)
    simpa [elements?, untag?] using each
  simp [ofItem?, untag?, pairs, fill?, readKey?, Key.ofNumber?, set?, magic, version, code,
    constants, lines, canonical]

/-! ## Chunks -/

def Fields.ofChunk (c : Chunk) : Fields where
  magic := formatMagic
  version := formatVersion
  code := Chunk.codeBytes c.code.toList
  constants := c.constants.toList.map Value.payload
  lines := c.lines.toList

theorem firstNonNumber?_eq_none_iff (index : Nat) (constants : List Value) :
    firstNonNumber? index constants = none ↔ ∀ v ∈ constants, v.isNumber = true := by
  induction constants generalizing index with
  | nil => simp [firstNonNumber?]
  | cons v rest ih =>
    cases number : v.isNumber with
    | false => simp [firstNonNumber?, number]
    | true => simp [firstNonNumber?, number, ih]

theorem known_of_valid {c : Chunk} (valid : c.validate = .ok ()) :
    ∀ i ∈ c.code.toList, i.opcode?.isSome = true := by
  intro i member
  obtain ⟨op, known, -⟩ := (c.validate_eq_ok_iff.mp valid).2.2 i member
  simp [known]

theorem encode_eq_ok_iff (c : Chunk) (data : Bytes) :
    encode c = .ok data ↔
      c.validate = .ok () ∧ (∀ v ∈ c.constants.toList, v.isNumber = true) ∧
        (Fields.ofChunk c).write = data := by
  cases valid : c.validate with
  | error e => simp [encode, valid]
  | ok u =>
    rw [← firstNonNumber?_eq_none_iff 0]
    -- Valid code has known opcodes only, so encoding it cannot fail.
    simp only [encode, valid, Chunk.encodeCode_known _ (known_of_valid valid)]
    cases firstNonNumber? 0 c.constants.toList with
    | some e => simp
    | none => simp [Fields.ofChunk]

theorem Fields.ofChunk_fits {c : Chunk} (valid : c.validate = .ok ())
    (small : c.code.size ≤ Cbor.maxElements)
    (words : ∀ line ∈ c.lines.toList, isSignedWord line = true) : (Fields.ofChunk c).Fits := by
  obtain ⟨lines, pool, -⟩ := c.validate_eq_ok_iff.mp valid
  have code := Chunk.codeBytes_length_le c.code.toList
  simp only [Array.length_toList, Cbor.maxElements, Chunk.maxConstants] at code small pool
  exact
    { magic := (by decide : Utf8.isValid formatMagic = true)
      magicLength := (by decide : formatMagic.length < wordCount)
      version := (by decide : formatVersion ≤ 65535)
      code := by simp only [ofChunk, wordCount]; omega
      constants := by simp [ofChunk, Cbor.maxElements]; omega
      lines := by simp [ofChunk, Cbor.maxElements]; omega
      words := words }

theorem Fields.toChunk_ofChunk {c : Chunk} (valid : c.validate = .ok ())
    (numbers : ∀ v ∈ c.constants.toList, v.isNumber = true) :
    (Fields.ofChunk c).canonical.toChunk = .ok c.canonical := by
  have code : Chunk.decodeCode (Fields.ofChunk c).canonical.code =
      .ok c.canonical.code.toList := by
    simp only [Chunk.canonical, Array.toList_map]
    exact Chunk.decodeCode_known _ (known_of_valid valid)
  have constants : (Fields.ofChunk c).canonical.constants.map Value.number =
      c.canonical.constants.toList := by
    simp only [ofChunk, canonical, Chunk.canonical, Array.toList_map, List.map_map]
    refine List.map_congr_left fun v member => ?_
    have tag : v.tag = 0 := by simpa [Value.isNumber] using numbers v member
    simp [Value.number, tag]
  have lines : (Fields.ofChunk c).canonical.lines = c.canonical.lines.toList := rfl
  have magic : (Fields.ofChunk c).canonical.magic = formatMagic := rfl
  have version : (Fields.ofChunk c).canonical.version = formatVersion := rfl
  simp only [toChunk, magic, version, code, constants, lines, Array.toArray_toList,
    Chunk.validate_canonical valid, ne_eq, not_true_eq_false, if_false, gt_iff_lt,
    Nat.lt_irrefl]

theorem decode_of_encode {c : Chunk} {data : Bytes} (small : c.code.size ≤ Cbor.maxElements)
    (words : ∀ line ∈ c.lines.toList, isSignedWord line = true) (written : encode c = .ok data) :
    decode data = .ok c.canonical := by
  obtain ⟨valid, numbers, rfl⟩ := (encode_eq_ok_iff c data).mp written
  have fits := Fields.ofChunk_fits valid small words
  have document := (Fields.reads_write fits).document (by decide)
  simp only [decode, document, Fields.ofItem?_pairs fits, Fields.toChunk_ofChunk valid numbers]

end Artifact

/-- A chunk of at most 131072 instructions, its lines signed words, can be written exactly if it is
valid and all its constants are numbers. What is written can be read and gives the chunk back: the
same opcodes, the operand of every instruction that uses one, every constant bit for bit unless it
is a NaN, which stays a NaN, and the same lines. So two chunks that are written alike agree in all
of these. -/
theorem artifact_round_trip (c : Chunk) (small : c.code.size ≤ 131072)
    (words : ∀ line ∈ c.lines.toList, isSignedWord line = true) :
    ((∃ data, Artifact.encode c = .ok data) ↔
        c.validate = .ok () ∧ ∀ v ∈ c.constants.toList, v.isNumber = true) ∧
      (∀ data, Artifact.encode c = .ok data → Artifact.decode data = .ok c.canonical) ∧
      ∀ (d : Chunk) (data : Bytes), d.code.size ≤ 131072 →
        (∀ line ∈ d.lines.toList, isSignedWord line = true) →
          Artifact.encode c = .ok data → Artifact.encode d = .ok data →
            d.canonical = c.canonical := by
  refine ⟨?_, fun data written => Artifact.decode_of_encode small words written, ?_⟩
  · simp only [Artifact.encode_eq_ok_iff]
    constructor
    · rintro ⟨data, valid, numbers, -⟩
      exact ⟨valid, numbers⟩
    · rintro ⟨valid, numbers⟩
      exact ⟨_, valid, numbers, rfl⟩
  · -- Both chunks are what the same data is read as.
    intro d data smallToo wordsToo written writtenToo
    have first := Artifact.decode_of_encode small words written
    have second := Artifact.decode_of_encode smallToo wordsToo writtenToo
    rw [first] at second
    exact (Except.ok.inj second).symm

/-- Negative zero, the smallest subnormal, a NaN with a payload, infinity and the smallest number
of half precision, under extreme lines and with an operand that addition does not use. -/
def extremeChunk : Chunk where
  code := #[⟨0, 4⟩, ⟨1, 7⟩, ⟨6, 0⟩]
  constants :=
    #[.number ⟨0x8000000000000000⟩, .number ⟨1⟩, .number ⟨0x7ff0000000000001⟩,
      .number ⟨0x7ff0000000000000⟩, .number ⟨0x3e70000000000000⟩]
  lines := #[-0x8000000000000000, -1, 0x7fffffffffffffff]

theorem artifact_round_trip_extremeChunk :
    extremeChunk.code.size ≤ 131072 ∧
      (∀ line ∈ extremeChunk.lines.toList, isSignedWord line = true) ∧
      (∃ data, Artifact.encode extremeChunk = .ok data ∧
        Artifact.decode data = .ok extremeChunk.canonical) ∧
      extremeChunk.canonical =
        ⟨#[⟨0, 4⟩, ⟨1, 0⟩, ⟨6, 0⟩],
          #[.number ⟨0x8000000000000000⟩, .number ⟨1⟩, .number .quietNaN,
            .number ⟨0x7ff0000000000000⟩, .number ⟨0x3e70000000000000⟩],
          #[-0x8000000000000000, -1, 0x7fffffffffffffff]⟩ := by
  have small : extremeChunk.code.size ≤ 131072 := by decide
  have words : ∀ line ∈ extremeChunk.lines.toList, isSignedWord line = true := by decide
  obtain ⟨writable, back, -⟩ := artifact_round_trip extremeChunk small words
  obtain ⟨data, written⟩ := writable.mpr ⟨rfl, by decide⟩
  refine ⟨small, words, ⟨data, written, back data written⟩, ?_⟩
  simp only [Chunk.canonical, extremeChunk, List.map_toArray]
  decide

end Abacus
