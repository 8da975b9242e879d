import Abacus.Proofs.TokenEnds
import Abacus.Proofs.TokenSpans

/-!
# Tokens across line breaks

Two texts with a line break between them have the tokens of the one and then those of the other,
further on in the source (`tokenize_append_newline`). The exception is a string that the first text
leaves open.

A line break ends what stands before it, be it a lexeme or a comment, so every step of the scanner
through the first text goes as it goes without the second (`Cursor.next_followedBy`). The step that
finds the end of the first text finds the first token of the second one instead
(`Cursor.next_followedBy_end`). And what a step takes does not depend on the place in the source
(`Cursor.next_shift`).
-/
namespace Abacus

/-- The same token further on in a source. -/
def Token.shift (bytes lines : Nat) (t : Token) : Token :=
  { t with offset := t.offset + bytes, line := t.line + lines }

namespace Cursor

/-! ## The same text further on -/

def shift (bytes lines : Nat) (c : Cursor) : Cursor := ⟨c.rest, c.offset + bytes, c.line + lines⟩

section

variable (bytes lines : Nat)

theorem skipLayout_shift (inComment : Bool) (s : Bytes) (offset line : Nat) :
    skipLayout inComment s (offset + bytes) (line + lines) =
      (skipLayout inComment s offset line).shift bytes lines := by
  induction s generalizing inComment offset line with
  | nil => rfl
  | cons b s ih =>
    have onward (inComment : Bool) := ih inComment (offset + 1) line
    have below (inComment : Bool) := ih inComment (offset + 1) (line + 1)
    simp only [Nat.add_right_comm _ 1] at onward below
    unfold skipLayout
    simp only [onward, below]
    split_ifs <;> rfl

theorem settle_shift (c : Cursor) : (c.shift bytes lines).settle = c.settle.shift bytes lines :=
  skipLayout_shift bytes lines false c.rest c.offset c.line

theorem advance_shift (c : Cursor) (n : Nat) :
    (c.shift bytes lines).advance n = (c.advance n).shift bytes lines := by
  simp only [advance, shift, Nat.add_right_comm _ n, Nat.add_right_comm c.line]

theorem take_shift (c : Cursor) :
    (c.shift bytes lines).take = (c.take.1.shift bytes lines, c.take.2.shift bytes lines) := by
  unfold take
  cases shape : c.rest with
  | nil => simp only [shift, shape, Token.shift]
  | cons first rest =>
    simp only [advance_shift]
    simp only [shift, shape]
    cases lex first rest <;> rfl

theorem next_shift (c : Cursor) :
    (c.shift bytes lines).next = (c.next.1.shift bytes lines, c.next.2.shift bytes lines) := by
  rw [next, settle_shift, take_shift]
  rfl

theorem Scans.shift {c : Cursor} {tokens : List Token} (scans : Scans c tokens) :
    Scans (c.shift bytes lines) (tokens.map (Token.shift bytes lines)) := by
  induction scans with
  | last kind => exact .of_next_end (next_shift bytes lines _) kind
  | more other _ ih => exact .of_next (next_shift bytes lines _) other ih

end

/-! ## A text that goes on -/

def followedBy (c : Cursor) (t : Bytes) : Cursor := { c with rest := c.rest ++ t }

theorem advance_followedBy {c : Cursor} {n : Nat} (inside : n ≤ c.rest.length) (t : Bytes) :
    (c.followedBy t).advance n = (c.advance n).followedBy t := by
  simp only [advance, followedBy, List.drop_append_of_le_length inside,
    List.take_append_of_le_length inside]

/-- Layout before a token goes on to the token, and layout at the end to the line break. -/
theorem settle_followedBy (c : Cursor) (t : Bytes) :
    (c.followedBy (newline :: t)).settle = (c.settle.followedBy (newline :: t)).settle := by
  obtain ⟨gap, parts, moved, layout, -⟩ := c.settle_layout
  have lines : c.settle.line = c.line + Bytes.newlines gap := by
    rw [moved, advance, parts]
    simp
  have offset : c.settle.offset = c.offset + gap.length := by rw [moved, advance_offset]
  rw [followedBy, parts, List.append_assoc, settle_append (layout.append_newline t), ← lines,
    ← offset, followedBy]

theorem next_followedBy {c : Cursor} (more : c.next.1.kind ≠ .endOfInput)
    (closed : ¬ (c.next.1.kind = .error ∧ c.next.1.lexeme = text "Unterminated string"))
    (t : Bytes) :
    (c.followedBy (newline :: t)).next = (c.next.1, c.next.2.followedBy (newline :: t)) := by
  obtain ⟨-, -, -, -, stopped⟩ := c.settle_layout
  rw [next, settle_followedBy]
  rw [next] at more closed ⊢
  generalize c.settle = d at more closed stopped ⊢
  have blank : isSpace newline = true := rfl
  cases shape : d.rest with
  | nil => simp [take, shape] at more
  | cons first rest =>
    have settled : (d.followedBy (newline :: t)).settle = d.followedBy (newline :: t) :=
      settle_eq_self (not_startsLayout_append_space stopped (by simp [shape]) blank)
    rw [settled]
    rcases d.take_cases shape with ⟨p, w, kind, longest, names, taken⟩ | ⟨agrees, taken⟩ |
      ⟨-, taken⟩
    · -- The longest lexeme is the longest one still.
      rw [taken, take_of_longest (longest.append_space blank t) names,
        advance_followedBy longest.here.length_le]
      rfl
    · have shape' : (d.followedBy (newline :: t)).rest = first :: (rest ++ newline :: t) := by
        rw [followedBy, shape, List.cons_append]
      rw [taken, take_of_unexpected shape' agrees, advance_followedBy (by simp [shape])]
      rfl
    · rw [taken] at closed
      exact absurd ⟨rfl, rfl⟩ closed

/-- At the end of the one text the other one begins, behind the line break. -/
theorem next_followedBy_end {c : Cursor} (last : c.next.1.kind = .endOfInput) (t : Bytes) :
    (c.followedBy (newline :: t)).next =
      next ⟨t, c.offset + c.rest.length + 1, c.line + Bytes.newlines c.rest + 1⟩ := by
  have nothing := settle_rest_of_end last
  obtain ⟨gap, parts, moved, -⟩ := c.settle_layout
  obtain rfl : gap = c.rest := by rw [parts, nothing, List.append_nil]
  -- The cursor has settled behind all that was left, before the line break.
  have settled : c.settle.followedBy (newline :: t) =
      ⟨newline :: t, c.offset + c.rest.length, c.line + Bytes.newlines c.rest⟩ := by
    rw [moved]
    simp [advance, followedBy]
  rw [next, settle_followedBy, settled]
  rfl

namespace Scans

/-- A text that goes on behind a line break gives its own tokens and then those that follow. -/
theorem followedBy {source t : Bytes} {c : Cursor} {tokens others : List Token}
    (scans : Scans c tokens) (within : c.Within source)
    (closed : ∀ u ∈ tokens, ¬ (u.kind = .error ∧ u.lexeme = text "Unterminated string"))
    (later : Scans ⟨t, source.length + 1, 1 + Bytes.newlines source + 1⟩ others) :
    Scans (c.followedBy (newline :: t)) (tokens.filter (!·.isEnd) ++ others) := by
  induction scans with
  | @last c kind =>
    have found := next_followedBy_end kind t
    have lines : c.line + Bytes.newlines c.rest = 1 + Bytes.newlines source := by
      rw [within.line_eq, Nat.add_assoc, ← Bytes.newlines_append, within.rest_eq,
        List.take_append_drop]
    rw [within.length_rest, lines] at found
    have dropped : [c.next.1].filter (!·.isEnd) = [] := by simp [Token.isEnd, kind]
    rw [dropped]
    -- The step that would find the end is the first step through the other text.
    exact later.congr found
  | @more c tokens other _ ih =>
    rw [List.forall_mem_cons] at closed
    have kept : (c.next.1 :: tokens).filter (!·.isEnd) =
        c.next.1 :: tokens.filter (!·.isEnd) := by
      rw [List.filter_cons_of_pos]
      simpa [Token.isEnd] using other
    rw [kept, List.cons_append]
    exact .of_next (next_followedBy other closed.1 t) other (ih within.next.1 closed.2)

end Scans

end Cursor

/-- Unless the first of two texts leaves a string open, the tokens of the two with a line break
between them are those of the first without its end and then those of the second, as many bytes and
lines further on as the first text and the line break take. -/
theorem tokenize_append_newline (a b : Bytes)
    (closed : ∀ t ∈ tokenize a, ¬ (t.kind = .error ∧ t.lexeme = text "Unterminated string")) :
    tokenize (a ++ newline :: b) =
      (tokenize a).filter (!·.isEnd) ++
        (tokenize b).map (Token.shift (a.length + 1) (1 + Bytes.newlines a)) := by
  have moved := (tokenize_scans b).shift (a.length + 1) (1 + Bytes.newlines a)
  have start : (Cursor.start b).shift (a.length + 1) (1 + Bytes.newlines a) =
      ⟨b, a.length + 1, 1 + Bytes.newlines a + 1⟩ := by
    simp [Cursor.start, Cursor.shift, Nat.add_comm 1]
  rw [start] at moved
  have joined := (tokenize_scans a).followedBy (Cursor.within_start a) closed moved
  exact joined.unique (tokenize_scans (a ++ newline :: b))

/-- A number does not take the point that begins the next line, and a comment ends with its line. -/
theorem tokenize_append_newline_point :
    let a := text "\"x\ny\" @ 1. / // 2"
    let b := text ".5 \""
    (∀ t ∈ tokenize a, ¬ (t.kind = .error ∧ t.lexeme = text "Unterminated string")) ∧
    tokenize (a ++ newline :: b) =
      [⟨.string, text "\"x\ny\"", 2, 0⟩, ⟨.error, text "Unexpected character", 2, 6⟩,
        ⟨.number, text "1", 2, 8⟩, ⟨.punctuator .dot, text ".", 2, 9⟩,
        ⟨.punctuator .slash, text "/", 2, 11⟩, ⟨.punctuator .dot, text ".", 3, 18⟩,
        ⟨.number, text "5", 3, 19⟩, ⟨.error, text "Unterminated string", 3, 21⟩,
        ⟨.endOfInput, [], 3, 22⟩] := by
  intro a b
  have closed :
      ∀ t ∈ tokenize a, ¬ (t.kind = .error ∧ t.lexeme = text "Unterminated string") := by decide
  refine ⟨closed, (tokenize_append_newline a b closed).trans ?_⟩
  decide

end Abacus
