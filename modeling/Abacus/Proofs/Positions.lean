import Abacus.Document.Position
import Abacus.Proofs.Layout
import Abacus.Proofs.TextLines
import Abacus.Proofs.TokenSpans

/-!
# Positions and offsets

A position marks an offset if its line exists, the line is long enough for its column, and adding up
the lengths of the lines before it gives the offset (`Position.Marks`). In a text of less than 4
gigabytes every offset is marked by its position (`Document.marks_positionAt`), and by no other, so
the two directions are inverse to each other (`Document.position_offset_inverse`). Later offsets
have later positions, and the line of a token's position is the one that the scanner has counted.
-/
namespace Abacus

theorem coordinate_of_lt {n : Nat} (small : n < 4294967296) : coordinate n = n := by
  unfold coordinate
  omega

def Position.le (p q : Position) : Prop :=
  p.line < q.line ∨ p.line = q.line ∧ p.character ≤ q.character

/-- The order of positions in a document, without the position itself. -/
def Position.lt (p q : Position) : Prop :=
  p.line < q.line ∨ p.line = q.line ∧ p.character < q.character

/-- The position stands in the text, before the byte at an offset. -/
structure Position.Marks (s : Bytes) (p : Position) (offset : Nat) : Prop where
  exists_line : ∃ line, (Bytes.lines s)[p.line]? = some line ∧ p.character ≤ line.length
  offset_eq : Document.offsetAt? s p = some offset

/-- The range stands in the text, around the bytes between two offsets. -/
structure Range.Covers (s : Bytes) (r : Range) (i j : Nat) : Prop where
  start : r.start.Marks s i
  stop : r.stop.Marks s j
  order : r.start.le r.stop
  inside : j ≤ s.length

theorem Position.Marks.linesLength_add {s : Bytes} {p : Position} {offset : Nat}
    (marks : p.Marks s offset) :
    Document.linesLength ((Bytes.lines s).take p.line) + p.character = offset := by
  obtain ⟨line, found, fits⟩ := marks.exists_line
  have offset_eq := marks.offset_eq
  simp only [Document.offsetAt?, found, Option.map_some, Option.some.injEq,
    Nat.min_eq_left fits] at offset_eq
  exact offset_eq

namespace Document

theorem linesLength_cons (line : Bytes) (lines : List Bytes) :
    linesLength (line :: lines) = line.length + 1 + linesLength lines := rfl

theorem linesLength_append (lines others : List Bytes) :
    linesLength (lines ++ others) = linesLength lines + linesLength others := by
  induction lines with
  | nil => simp [linesLength]
  | cons line lines ih =>
    rw [List.cons_append, linesLength_cons, linesLength_cons, ih]
    omega

theorem linesLength_eq_length (lines : List Bytes) :
    linesLength lines = (lines.flatMap (· ++ [newline])).length := by
  induction lines with
  | nil => rfl
  | cons line lines ih =>
    rw [linesLength_cons, List.flatMap_cons, List.length_append, List.length_append, ih]
    rfl

theorem linesLength_lines (s : Bytes) : linesLength (Bytes.lines s) = s.length + 1 := by
  obtain ⟨terminated, rest, splits⟩ := splits_exist s
  have parts := congrArg List.length splits.text_eq
  rw [List.length_append] at parts
  -- The last line is counted with a line break that it does not have.
  rw [splits.lines_eq, linesLength_append, linesLength_eq_length, linesLength_cons]
  simp only [linesLength, List.foldr_nil]
  omega

theorem line_inside {s line : Bytes} {n : Nat} (found : (Bytes.lines s)[n]? = some line) :
    n + line.length ≤ linesLength ((Bytes.lines s).take n) + line.length ∧
      linesLength ((Bytes.lines s).take n) + line.length ≤ s.length := by
  obtain ⟨present, rfl⟩ := List.getElem?_eq_some_iff.mp found
  have whole := linesLength_lines s
  rw [← List.take_append_drop n (Bytes.lines s), linesLength_append,
    List.drop_eq_getElem_cons present, linesLength_cons] at whole
  -- Each of the lines before has a line break.
  have breaks (lines : List Bytes) : lines.length ≤ linesLength lines := by
    induction lines with
    | nil => exact Nat.zero_le _
    | cons line lines ih =>
      rw [linesLength_cons, List.length_cons]
      omega
  have before := breaks ((Bytes.lines s).take n)
  rw [List.length_take] at before
  constructor <;> omega

theorem marks_of_line {s line : Bytes} {n column : Nat} (found : (Bytes.lines s)[n]? = some line)
    (fits : column ≤ line.length) :
    Position.Marks s ⟨n, column⟩ (linesLength ((Bytes.lines s).take n) + column) where
  exists_line := ⟨line, found, fits⟩
  offset_eq := by simp [offsetAt?, found, Nat.min_eq_left fits]

/-- A position whose column is at most the end of its line. -/
def clamped (p : Position) (line : Bytes) : Position := ⟨p.line, min p.character line.length⟩

theorem marks_clamped {p : Position} {offset : Nat} (found : offsetAt? s p = some offset) :
    ∃ line, (Bytes.lines s)[p.line]? = some line ∧ (clamped p line).Marks s offset := by
  simp only [offsetAt?, Option.map_eq_some_iff] at found
  obtain ⟨line, present, rfl⟩ := found
  exact ⟨line, present, marks_of_line present (Nat.min_le_right ..)⟩

end Document

namespace Position

/-- What stands on a line stands before the lines behind it. -/
theorem Marks.lt_of_line {s : Bytes} {p : Position} {offset n : Nat} (marks : p.Marks s offset)
    (later : p.line < n) : offset < Document.linesLength ((Bytes.lines s).take n) := by
  obtain ⟨line, found, fits⟩ := marks.exists_line
  obtain ⟨present, rfl⟩ := List.getElem?_eq_some_iff.mp found
  have parts := marks.linesLength_add
  -- The line of the position is among those before line `n`, with its line break.
  obtain ⟨k, rfl⟩ : ∃ k, n = p.line + 1 + k := ⟨n - p.line - 1, by omega⟩
  rw [List.take_add, Document.linesLength_append, List.take_add_one, Document.linesLength_append,
    found, Option.toList_some, Document.linesLength_cons]
  omega

/-- A position stands before one offset only, and no two positions before the same. -/
theorem Marks.unique {s : Bytes} {p q : Position} {offset : Nat} (first : p.Marks s offset)
    (second : q.Marks s offset) : p = q := by
  have parts := first.linesLength_add
  have others := second.linesLength_add
  obtain ⟨line, column⟩ := p
  obtain ⟨line', column'⟩ := q
  rcases Nat.lt_trichotomy line line' with before | rfl | after
  · have less := first.lt_of_line before
    simp only at others
    omega
  · simp only at parts others
    obtain rfl : column = column' := by omega
    rfl
  · have less := second.lt_of_line after
    simp only at parts
    omega

theorem lt_of_le_of_ne {p q : Position} (le : p.le q) (ne : p ≠ q) : p.lt q := by
  rcases le with earlier | ⟨same, columns⟩
  · exact .inl earlier
  · refine .inr ⟨same, Nat.lt_of_le_of_ne columns fun equal => ne ?_⟩
    cases p
    cases q
    simp_all

end Position

namespace Document

section Short

variable {s : Bytes} (short : s.length < 4294967296)

include short

/-- A position counts the lines before an offset and the bytes since the last of them. -/
theorem positionAt_of_splits {offset : Nat} {terminated : List Bytes} {rest : Bytes}
    (splits : Splits (s.take offset) terminated rest) :
    positionAt s offset = ⟨terminated.length, rest.length⟩ := by
  have before : (s.take offset).length ≤ s.length := by
    rw [List.length_take]
    exact Nat.min_le_right ..
  have parts := congrArg List.length splits.text_eq
  rw [List.length_append, ← linesLength_eq_length] at parts
  have line : (Bytes.lines (s.take offset))[terminated.length]? = some rest := by
    simp [splits.lines_eq]
  -- Neither coordinate reaches 32 bits, because neither exceeds the length of the text.
  have inside := line_inside line
  simp only [positionAt, splits.newlines_eq, splits.takeWhile_reverse, List.length_reverse]
  rw [coordinate_of_lt (by omega), coordinate_of_lt (by omega)]

theorem marks_positionAt {offset : Nat} (inside : offset ≤ s.length) :
    (positionAt s offset).Marks s offset := by
  obtain ⟨terminated, rest, splits⟩ := splits_exist (s.take offset)
  -- The line of the offset begins with what stands before the offset.
  obtain ⟨line, others, extended⟩ := lines_open_append splits.open_rest (s.drop offset)
  have lines : Bytes.lines s = terminated ++ (rest ++ line) :: others := by
    rw [← extended, ← splits.lines_append, List.take_append_drop]
  have found : (Bytes.lines s)[terminated.length]? = some (rest ++ line) := by simp [lines]
  have before : (Bytes.lines s).take terminated.length = terminated := by simp [lines]
  have parts := congrArg List.length splits.text_eq
  rw [List.length_append, ← linesLength_eq_length, List.length_take_of_le inside] at parts
  have marks := marks_of_line found (by simp : rest.length ≤ (rest ++ line).length)
  rw [before, ← parts] at marks
  rw [positionAt_of_splits short splits]
  exact marks

theorem positionAt_line (offset : Nat) :
    (positionAt s offset).line = Bytes.newlines (s.take offset) := by
  obtain ⟨terminated, rest, splits⟩ := splits_exist (s.take offset)
  rw [positionAt_of_splits short splits, splits.newlines_eq]

theorem positionAt_mono {i j : Nat} (order : i ≤ j) (inside : j ≤ s.length) :
    (positionAt s i).le (positionAt s j) := by
  have first := marks_positionAt short (Nat.le_trans order inside)
  have second := marks_positionAt short inside
  have lines : (positionAt s i).line ≤ (positionAt s j).line := by
    rw [positionAt_line short, positionAt_line short]
    exact (List.take_prefix_take_left order).sublist.count_le _
  rcases Nat.lt_or_eq_of_le lines with earlier | same
  · exact .inl earlier
  · -- On one line the columns are as far apart as the offsets.
    have offset := first.linesLength_add
    have offset' := second.linesLength_add
    rw [← same] at offset'
    exact .inr ⟨same, by omega⟩

theorem positionAt_lt {i j : Nat} (order : i < j) (inside : j ≤ s.length) :
    (positionAt s i).lt (positionAt s j) := by
  apply Position.lt_of_le_of_ne
  · exact positionAt_mono short (Nat.le_of_lt order) inside
  · intro same
    -- Equal positions would have the same offset.
    have first := (marks_positionAt short (Nat.le_trans (Nat.le_of_lt order) inside)).offset_eq
    rw [same, (marks_positionAt short inside).offset_eq] at first
    exact Nat.lt_irrefl _ (Option.some.inj first ▸ order)

/-- A byte that is no line break moves the position by one column. -/
theorem positionAt_succ {offset : Nat} {b : UInt8} (found : s[offset]? = some b)
    (visible : b ≠ newline) :
    positionAt s (offset + 1) =
      ⟨(positionAt s offset).line, (positionAt s offset).character + 1⟩ := by
  obtain ⟨terminated, rest, splits⟩ := splits_exist (s.take offset)
  have further : Splits (s.take (offset + 1)) terminated (rest ++ [b]) := by
    refine ⟨?_, splits.lines, ?_⟩
    · rw [List.take_add_one, found, Option.toList_some, ← List.append_assoc, ← splits.text_eq]
    · simp only [List.mem_append, List.mem_singleton, not_or]
      exact ⟨splits.open_rest, visible.symm⟩
  rw [positionAt_of_splits short splits, positionAt_of_splits short further, List.length_append]
  rfl

theorem covers_positions {i j : Nat} (order : i ≤ j) (inside : j ≤ s.length) :
    (⟨positionAt s i, positionAt s j⟩ : Range).Covers s i j where
  start := marks_positionAt short (Nat.le_trans order inside)
  stop := marks_positionAt short inside
  order := positionAt_mono short order inside
  inside := inside

theorem line_of_offset {offset : Nat} (inside : offset ≤ s.length) :
    ∃ line, (Bytes.lines s)[Bytes.newlines (s.take offset)]? = some line := by
  obtain ⟨line, found, -⟩ := (marks_positionAt short inside).exists_line
  rw [positionAt_line short] at found
  exact ⟨line, found⟩

/-- The range of a line that exists covers the line up to a carriage return at its end. -/
theorem lineRange_covers {line : Bytes} {n : Nat} (found : (Bytes.lines s)[n]? = some line) :
    lineRange s n = ⟨⟨n, 0⟩, ⟨n, (Bytes.dropCarriageReturn line).length⟩⟩ ∧
      (lineRange s n).Covers s (linesLength ((Bytes.lines s).take n))
        (linesLength ((Bytes.lines s).take n) + (Bytes.dropCarriageReturn line).length) := by
  have inside := line_inside found
  have shorter : (Bytes.dropCarriageReturn line).length ≤ line.length := by
    unfold Bytes.dropCarriageReturn
    split
    · rw [List.length_dropLast]
      exact Nat.sub_le ..
    · exact Nat.le_refl _
  have shape : lineRange s n = ⟨⟨n, 0⟩, ⟨n, (Bytes.dropCarriageReturn line).length⟩⟩ := by
    have contents : lineText s n = Bytes.dropCarriageReturn line := by
      rw [lineText, if_neg (by omega), Int.toNat_natCast, found]
    rw [lineRange, contents, coordinate_of_lt (by omega), coordinate_of_lt (by omega)]
  rw [shape]
  exact ⟨rfl, marks_of_line found (Nat.zero_le _), marks_of_line found shorter,
    .inr ⟨rfl, Nat.zero_le _⟩, by omega⟩

/-- A position on a line goes to an offset and comes back from there, at most at the end of the
line. -/
theorem positionAt_clamped {p : Position} {line : Bytes}
    (found : (Bytes.lines s)[p.line]? = some line) :
    ∃ offset, offsetAt? s p = some offset ∧ positionAt s offset = clamped p line := by
  have marks := marks_of_line found (Nat.min_le_right p.character line.length)
  have inside := (line_inside found).2
  refine ⟨linesLength ((Bytes.lines s).take p.line) + min p.character line.length,
    by simp [offsetAt?, found], ?_⟩
  -- The clamped position and the one that is computed stand before the same byte.
  apply Position.Marks.unique _ marks
  exact marks_positionAt short (by omega)

theorem positionAt_line_token {t : Token} (member : t ∈ tokenize s) (sound : t.kind ≠ .error) :
    (positionAt s t.offset).line + 1 + Bytes.newlines t.lexeme = t.line := by
  have read := Token.readFrom_of_mem member
  rw [positionAt_line short, read.line sound, List.take_add, Bytes.newlines_append,
    ← read.lexeme sound]
  omega

end Short

variable {s : Bytes}

theorem positionAt_of_length_le {offset : Nat} (past : s.length ≤ offset) :
    positionAt s offset = positionAt s s.length := by
  rw [positionAt, positionAt, List.take_of_length_le past, List.take_length]

theorem length_lines (s : Bytes) : (Bytes.lines s).length = 1 + Bytes.newlines s := by
  obtain ⟨terminated, rest, splits⟩ := splits_exist s
  rw [splits.lines_eq, splits.newlines_eq, List.length_append, List.length_singleton, Nat.add_comm]

theorem offsetAt?_eq_none_iff (s : Bytes) (p : Position) :
    offsetAt? s p = none ↔ 1 + Bytes.newlines s ≤ p.line := by
  rw [offsetAt?, Option.map_eq_none_iff, List.getElem?_eq_none_iff, length_lines]

/-- Offsets up to the end of a text and the positions in it correspond, in order. Behind its end a
text has no further positions. Every position of a line that exists has an offset, that of the
nearest column of the line, and no other position has one. The line of a token's position is the
line of the token without the lines that the token itself breaks. -/
theorem position_offset_inverse (short : s.length < 4294967296) :
    (∀ offset ≤ s.length, offsetAt? s (positionAt s offset) = some offset) ∧
    (∀ i j, i < j → j ≤ s.length → (positionAt s i).lt (positionAt s j)) ∧
    (∀ offset, s.length ≤ offset → positionAt s offset = positionAt s s.length) ∧
    (∀ p line, (Bytes.lines s)[p.line]? = some line →
      ∃ offset, offsetAt? s p = some offset ∧ positionAt s offset = clamped p line) ∧
    (∀ p, offsetAt? s p = none ↔ 1 + Bytes.newlines s ≤ p.line) ∧
    ∀ t ∈ tokenize s, t.kind ≠ .error →
      (positionAt s t.offset).line + 1 + Bytes.newlines t.lexeme = t.line := by
  refine ⟨?_, ?_, ?_, ?_, offsetAt?_eq_none_iff s, ?_⟩
  · intro offset inside
    exact (marks_positionAt short inside).offset_eq
  · intro i j order inside
    exact positionAt_lt short order inside
  · intro offset past
    exact positionAt_of_length_le past
  · intro p line found
    exact positionAt_clamped short found
  · intro t member sound
    exact positionAt_line_token short member sound

/-- A position far behind the first line of a string that goes on for a line, and the string. -/
theorem position_offset_inverse_broken_string :
    let s := text "2\n\"a\n\"\n"
    s.length < 4294967296 ∧ offsetAt? s ⟨1, 9⟩ = some 4 ∧ positionAt s 4 = ⟨1, 2⟩ ∧
      (positionAt s 4).lt (positionAt s 5) ∧ offsetAt? s ⟨4, 0⟩ = none ∧
      (positionAt s 2).line + 1 + 1 = 3 := by
  intro s
  have short : s.length < 4294967296 := by decide
  obtain ⟨-, ordered, -, clamps, missing, tokens⟩ := position_offset_inverse short
  have second : (Bytes.lines s)[1]? = some (text "\"a") := by decide
  obtain ⟨offset, there, back⟩ := clamps ⟨1, 9⟩ _ second
  obtain rfl : offset = 4 := Option.some.inj (there.symm.trans (by decide))
  have member : (⟨.string, text "\"a\n\"", 3, 2⟩ : Token) ∈ tokenize s := by decide
  refine ⟨short, there, back, ordered 4 5 (by decide) (by decide), ?_, ?_⟩
  · exact (missing ⟨4, 0⟩).mpr (by decide)
  · exact tokens _ member (by decide)

end Document

end Abacus
