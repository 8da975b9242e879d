import Abacus.Token.Scanner

/-!
# The end of a token stream

Every step of the scanner takes at least one byte unless it returns the end token. The number of
bytes is therefore fuel enough to reach the end, and `tokenize` gives a row of tokens that are not
the end, followed by the one that is.
-/
namespace Abacus

theorem numberLength_pos (first : UInt8) (rest : Bytes) (digit : isDigit first = true) :
    0 < numberLength (first :: rest) := by
  have whole : 0 < ((first :: rest).takeWhile isDigit).length := by
    simp [digit]
  unfold numberLength
  dsimp only
  split
  · -- A fraction only adds to the length.
    split <;> omega
  · exact whole

theorem ofWord_ne_endOfInput (word : Bytes) : Kind.ofWord word ≠ .endOfInput := by
  unfold Kind.ofWord
  split <;> simp

/-- A token takes bytes, and the end of the input is not one of the tokens that do. -/
theorem lex_token (first : UInt8) (rest : Bytes) (kind : Kind) (length : Nat)
    (found : lex first rest = .token kind length) : 0 < length ∧ kind ≠ .endOfInput := by
  -- The cases are those of `lex`: strings, numbers, words, bytes that start nothing, punctuators.
  unfold lex at found
  split at found
  · dsimp only at found
    split at found
    · cases found
      exact ⟨by omega, by simp⟩
    · cases found
  · split at found
    next digit =>
      cases found
      exact ⟨numberLength_pos first rest digit, by simp⟩
    · split at found
      · cases found
        exact ⟨by simp, ofWord_ne_endOfInput _⟩
      · split at found
        · cases found
        · split at found <;> (cases found; exact ⟨by omega, by simp⟩)

namespace Cursor

theorem skipLayout_length (inComment : Bool) (s : Bytes) (offset line : Nat) :
    (skipLayout inComment s offset line).rest.length ≤ s.length := by
  fun_induction skipLayout inComment s offset line with
  | case1 => simp
  | case2 _ _ _ _ _ _ ih => simp only [List.length_cons]; omega
  | case3 _ _ _ _ _ ih => simp only [List.length_cons]; omega
  | case4 _ _ _ _ _ _ _ _ ih => simp only [List.length_cons]; omega
  | case5 _ _ _ _ _ _ _ _ _ ih => simp only [List.length_cons]; omega
  | case6 => simp

/-- At a settled cursor a token is the end, or it moves the cursor on. -/
theorem take_progress (c : Cursor) (more : c.take.1.isEnd = false) :
    c.take.2.rest.length < c.rest.length := by
  unfold take at more ⊢
  split at more
  · simp [Token.isEnd] at more
  next first rest shape =>
    rw [shape]
    dsimp only
    split
    next kind length found =>
      have taken := (lex_token first rest kind length found).1
      simp only [advance, List.length_drop, shape, List.length_cons]
      omega
    · simp [advance, shape]
    · simp [advance, shape]

theorem next_progress (c : Cursor) (more : c.next.1.isEnd = false) :
    c.next.2.rest.length < c.rest.length := by
  have settled := skipLayout_length false c.rest c.offset c.line
  have taken := take_progress c.settle more
  exact Nat.lt_of_lt_of_le taken settled

/-- Scanning from a cursor gives these tokens, up to and including the end. -/
inductive Scans : Cursor → List Token → Prop
  | last {c : Cursor} : c.next.1.kind = .endOfInput → Scans c [c.next.1]
  | more {c : Cursor} {tokens : List Token} :
      c.next.1.kind ≠ .endOfInput → Scans c.next.2 tokens → Scans c (c.next.1 :: tokens)

/-- With as much fuel as there are bytes left, scanning adds tokens up to the end token. -/
theorem scanToEnd_scans (fuel : Nat) (c : Cursor) (seen : List Token)
    (enough : c.rest.length ≤ fuel) :
    ∃ tokens, scanToEnd fuel c seen = seen.reverse ++ tokens ∧ Scans c tokens := by
  induction fuel generalizing c seen with
  | zero =>
    -- No bytes are left, so a token that is not the end would have nothing to take.
    have last : c.next.1.isEnd = true := by
      cases more : c.next.1.isEnd with
      | true => rfl
      | false =>
        have progress := next_progress c more
        omega
    exact ⟨[c.next.1], by simp [scanToEnd], .last (by simpa [Token.isEnd] using last)⟩
  | succ fuel ih =>
    simp only [scanToEnd]
    split
    next last =>
      exact ⟨[c.next.1], by simp, .last (by simpa [Token.isEnd] using last)⟩
    next more =>
      have progress := next_progress c (by simpa using more)
      obtain ⟨tokens, added, scans⟩ := ih c.next.2 (c.next.1 :: seen) (by omega)
      exact ⟨c.next.1 :: tokens, by simp [added], .more (by simpa [Token.isEnd] using more) scans⟩

/-- A scan is a row of tokens other than the end, and the end. -/
theorem Scans.shape {c : Cursor} {tokens : List Token} (scans : Scans c tokens) :
    ∃ body ending, tokens = body ++ [ending] ∧ ending.kind = .endOfInput ∧
      ∀ t ∈ body, t.kind ≠ .endOfInput := by
  induction scans with
  | last kind => exact ⟨[], _, rfl, kind, by simp⟩
  | @more c tokens other _ ih =>
    obtain ⟨body, ending, rfl, kind, others⟩ := ih
    refine ⟨c.next.1 :: body, ending, rfl, kind, ?_⟩
    intro t member
    rcases List.mem_cons.mp member with rfl | member
    · exact other
    · exact others t member

theorem Scans.of_next {c d : Cursor} {t : Token} {tokens : List Token}
    (found : c.next = (t, d)) (other : t.kind ≠ .endOfInput) (later : Scans d tokens) :
    Scans c (t :: tokens) := by
  obtain ⟨rfl, rfl⟩ := Prod.mk.inj found.symm
  exact .more other later

theorem Scans.of_next_end {c d : Cursor} {t : Token} (found : c.next = (t, d))
    (kind : t.kind = .endOfInput) : Scans c [t] := by
  obtain ⟨rfl, rfl⟩ := Prod.mk.inj found.symm
  exact .last kind

/-- The scan is determined by what the first step gives. -/
theorem Scans.congr {c d : Cursor} {tokens : List Token} (scans : Scans d tokens)
    (same : c.next = d.next) : Scans c tokens := by
  cases scans with
  | last kind => exact .of_next_end same kind
  | more other later => exact .of_next same other later

theorem Scans.unique {c : Cursor} {tokens others : List Token} (scans : Scans c tokens)
    (second : Scans c others) : others = tokens := by
  induction scans generalizing others with
  | last kind =>
    cases second with
    | last => rfl
    | more other => exact absurd kind other
  | more other _ ih =>
    cases second with
    | last kind => exact absurd kind other
    | more _ later => rw [ih later]

end Cursor

theorem tokenize_scans (source : Bytes) : Cursor.Scans (Cursor.start source) (tokenize source) := by
  obtain ⟨tokens, all, scans⟩ :=
    Cursor.scanToEnd_scans source.length (Cursor.start source) [] (Nat.le_refl _)
  rw [tokenize, all]
  exact scans

/-- The tokens of a source are a row of tokens other than the end, and the end. -/
theorem tokenize_shape (source : Bytes) :
    ∃ body ending, tokenize source = body ++ [ending] ∧ ending.kind = .endOfInput ∧
      ∀ t ∈ body, t.kind ≠ .endOfInput :=
  (tokenize_scans source).shape

/-- In such a row a token of the end's kind is the end. -/
theorem end_is_last {body front rest : List Token} {ending t : Token}
    (others : ∀ t ∈ body, t.kind ≠ .endOfInput) (shape : body ++ [ending] = front ++ t :: rest)
    (last : t.kind = .endOfInput) : front = body ∧ t = ending ∧ rest = [] := by
  -- If more followed the token, it would be one of the others.
  rcases List.eq_nil_or_concat rest with rfl | ⟨middle, final, rfl⟩
  · obtain ⟨same, tail⟩ := List.append_inj' shape rfl
    exact ⟨same.symm, (List.cons.inj tail).1.symm, rfl⟩
  · rw [List.concat_eq_append, ← List.cons_append, ← List.append_assoc] at shape
    obtain ⟨rfl, -⟩ := List.append_inj' shape rfl
    exact absurd last (others t (by simp))

end Abacus
