import Abacus.Proofs.LexicalGrammar
import Abacus.Proofs.TokenStream
import Mathlib.Data.List.Chain

/-!
# Tokens account for their source

Every token stands for a span of the source: its lexeme, the one byte that starts no lexeme, or all
the rest of a string that is not closed. The spans follow each other, with nothing but layout
between them, and the last one is the empty span at the end of the source. A token's line is that
of its end, an error's that of its start.

The invariant is that a cursor is a place in the source (`Cursor.Within`): whatever it has passed
is counted in its offset and its line. One step keeps it (`Cursor.Within.next`), and
`Cursor.Scans` carries it through a whole scan.
-/
namespace Abacus

def Token.width (source : Bytes) (t : Token) : Nat :=
  if t.kind = .error then
    if t.lexeme = text "Unterminated string" then source.length - t.offset else 1
  else t.lexeme.length

def Token.stop (source : Bytes) (t : Token) : Nat := t.offset + t.width source

/-- The token says what stands in the source, and on which line. Only the end has an empty span. -/
structure Token.ReadFrom (source : Bytes) (t : Token) : Prop where
  inside : t.stop source ≤ source.length
  occupied : t.kind ≠ .endOfInput → 0 < t.width source
  lexeme : t.kind ≠ .error → t.lexeme = (source.drop t.offset).take t.lexeme.length
  line : t.kind ≠ .error →
    t.line = 1 + Bytes.newlines (source.take (t.offset + t.lexeme.length))
  error : t.kind = .error →
    t.lexeme = text "Unexpected character" ∨ t.lexeme = text "Unterminated string"
  errorLine : t.kind = .error → t.line = 1 + Bytes.newlines (source.take t.offset)
  ending : t.kind = .endOfInput → t.offset = source.length

/-- Between two offsets there is nothing but layout. -/
def OnlyLayout (source : Bytes) (i j : Nat) : Prop :=
  i ≤ j ∧ Layout (source.drop j) ((source.take j).drop i)

namespace Cursor

/-- The cursor is a place in the source. -/
structure Within (source : Bytes) (c : Cursor) : Prop where
  inside : c.offset ≤ source.length
  rest_eq : c.rest = source.drop c.offset
  line_eq : c.line = 1 + Bytes.newlines (source.take c.offset)

theorem within_start (source : Bytes) : (start source).Within source where
  inside := Nat.zero_le _
  rest_eq := rfl
  line_eq := rfl

namespace Within

variable {source : Bytes} {c : Cursor}

theorem length_rest (within : c.Within source) : c.offset + c.rest.length = source.length := by
  have inside := within.inside
  rw [within.rest_eq, List.length_drop]
  omega

theorem advance (within : c.Within source) {n : Nat} (enough : n ≤ c.rest.length) :
    (c.advance n).Within source where
  inside := by
    have whole := within.length_rest
    simp only [Cursor.advance]
    omega
  rest_eq := by simp only [Cursor.advance, within.rest_eq, List.drop_drop]
  line_eq := by
    simp only [Cursor.advance, within.line_eq, within.rest_eq, List.take_add,
      Bytes.newlines_append, Nat.add_assoc]

theorem settle (within : c.Within source) :
    c.settle.Within source ∧ OnlyLayout source c.offset c.settle.offset := by
  obtain ⟨gap, parts, moved, layout, -⟩ := c.settle_layout
  have enough : gap.length ≤ c.rest.length := by rw [parts]; simp
  have settled := within.advance enough
  rw [← moved] at settled
  have offset : c.settle.offset = c.offset + gap.length := by rw [moved]; rfl
  refine ⟨settled, by omega, ?_⟩
  -- The gap is what lies between the two offsets.
  have between : (source.take c.settle.offset).drop c.offset = gap := by
    rw [offset, List.drop_take, Nat.add_sub_cancel_left, ← within.rest_eq, parts]
    exact List.take_left' rfl
  rw [between, ← settled.rest_eq]
  exact layout

theorem take (within : c.Within source) :
    c.take.1.ReadFrom source ∧ c.take.1.offset = c.offset ∧ c.take.2.Within source ∧
      c.take.2.offset = c.take.1.stop source := by
  have whole := within.length_rest
  cases shape : c.rest with
  | nil =>
    have ending : c.take = (⟨.endOfInput, [], c.line, c.offset⟩, c) := by
      simp [Cursor.take, shape]
    have atEnd : c.offset = source.length := by simpa [shape] using whole
    rw [ending]
    refine ⟨⟨?_, by simp, by simp, ?_, by simp, by simp, fun _ => atEnd⟩, rfl, within, rfl⟩
    · simp [Token.stop, Token.width, within.inside]
    · exact fun _ => within.line_eq
  | cons first rest =>
    rcases c.take_cases shape with ⟨pattern, lexeme, kind, longest, names, taken⟩ | ⟨-, taken⟩ |
      ⟨-, taken⟩
    · -- A lexeme: the cursor has moved by its length and counted its line breaks.
      obtain ⟨noError, noEnd⟩ := names.ne_marker
      have behind := within.advance longest.here.length_le
      rw [taken]
      refine ⟨⟨?_, ?_, ?_, fun _ => behind.line_eq, fun error => absurd error noError,
        fun error => absurd error noError, fun last => absurd last noEnd⟩, rfl, behind, ?_⟩
      · simpa [Token.stop, Token.width, noError] using behind.inside
      · obtain ⟨b, others, rfl, -⟩ := longest.matched.cons
        simp [Token.width, noError]
      · intro _
        rw [← within.rest_eq]
        exact List.prefix_iff_eq_take.mp longest.here
      · simp [Token.stop, Token.width, noError]
    · -- One byte is passed over.
      have other : Lexed.unexpectedMessage ≠ text "Unterminated string" := by decide
      have behind := within.advance (show 1 ≤ c.rest.length by simp [shape])
      rw [taken]
      refine ⟨⟨?_, ?_, by simp, by simp, fun _ => .inl rfl, fun _ => within.line_eq, by simp⟩, rfl,
        behind, ?_⟩
      · simpa [Token.stop, Token.width, other] using behind.inside
      · simp [Token.width, other]
      · simp [Token.stop, Token.width, other]
    · -- All the rest is passed over, line breaks included; the error keeps the line of its start.
      have behind := within.advance (Nat.le_refl c.rest.length)
      have more : 0 < c.rest.length := by simp [shape]
      have stop : c.offset + (source.length - c.offset) = source.length := by omega
      rw [taken]
      refine ⟨⟨?_, ?_, by simp, by simp, fun _ => .inr rfl, fun _ => within.line_eq, by simp⟩, rfl,
        behind, ?_⟩
      · simp [Token.stop, Token.width, Lexed.unterminatedMessage, stop]
      · simp only [Token.width, Lexed.unterminatedMessage, if_true]
        omega
      · simp [Token.stop, Token.width, Lexed.unterminatedMessage, stop, whole]

theorem next (within : c.Within source) :
    c.next.2.Within source ∧ c.next.1.ReadFrom source ∧
      OnlyLayout source c.offset c.next.1.offset ∧ c.next.2.offset = c.next.1.stop source := by
  obtain ⟨settled, layout⟩ := within.settle
  obtain ⟨read, offset, behind, stop⟩ := settled.take
  refine ⟨behind, read, ?_, stop⟩
  rw [Cursor.next, offset]
  exact layout

end Within

def after : Nat → Cursor → Cursor
  | 0, c => c
  | n + 1, c => after n c.next.2

theorem Within.after {source : Bytes} {c : Cursor} (within : c.Within source) (n : Nat) :
    (c.after n).Within source := by
  induction n generalizing c with
  | zero => exact within
  | succ n ih => exact ih within.next.1

theorem isNumeral_next {c : Cursor} (number : c.next.1.kind = .number) :
    Decimal.isNumeral c.next.1.lexeme = true := by
  obtain ⟨p, longest, names⟩ := next_lexeme (c := c) (by simp [number]) (by simp [number])
  obtain rfl := names.eq_number number
  exact longest.matched.isNumeral

/-- The end is found where nothing but layout is left. -/
theorem settle_rest_of_end {c : Cursor} (last : c.next.1.kind = .endOfInput) :
    c.settle.rest = [] := by
  rw [next] at last
  cases shape : c.settle.rest with
  | nil => rfl
  | cons first rest =>
    rcases c.settle.take_cases shape with ⟨_, _, _, -, names, taken⟩ | ⟨-, taken⟩ | ⟨-, taken⟩
    · rw [taken] at last
      exact absurd last names.ne_marker.2
    · rw [taken] at last
      cases last
    · rw [taken] at last
      cases last

theorem next_of_end {c : Cursor} (last : c.next.1.kind = .endOfInput) : c.next.2.next = c.next := by
  have nothing := settle_rest_of_end last
  have taken : c.settle.take = (⟨.endOfInput, [], c.settle.line, c.settle.offset⟩, c.settle) := by
    simp [take, nothing]
  have settled : c.settle.settle = c.settle := by
    rw [settle, nothing, skipLayout, ← nothing]
  unfold next
  rw [taken, settled, taken]

theorem scan_of_end {c : Cursor} (last : c.next.1.kind = .endOfInput) (n : Nat) :
    scan n c = List.replicate n c.next.1 := by
  induction n generalizing c with
  | zero => rfl
  | succ n ih =>
    have again := next_of_end last
    rw [scan, ih (by rw [again]; exact last), again, List.replicate_succ]

namespace Scans

variable {source : Bytes} {c : Cursor} {tokens : List Token}

/-- There is a byte for every token but the end. -/
theorem length_le (scans : Scans c tokens) : tokens.length ≤ c.rest.length + 1 := by
  induction scans with
  | last => simp
  | @more c tokens other _ ih =>
    have progress := next_progress c (by simpa [Token.isEnd] using other)
    simp only [List.length_cons]
    omega

/-- Asking for more tokens than there are gives the end for each of them. -/
theorem scan_eq (scans : Scans c tokens) (n : Nat) :
    ∀ ending ∈ tokens.getLast?,
      scan (tokens.length + n) c = tokens ++ List.replicate n ending := by
  induction scans with
  | last kind =>
    intro ending member
    obtain rfl : _ = ending := by simpa using member
    rw [scan_of_end kind, List.length_singleton, Nat.add_comm, List.replicate_succ]
    rfl
  | @more c tokens _ scans ih =>
    intro ending member
    obtain ⟨body, final, rfl, -, -⟩ := scans.shape
    have later := ih ending (by simpa [List.getLast?_cons] using member)
    rw [List.length_cons, Nat.add_right_comm, scan, later, List.cons_append]

/-- What holds of the next token at every place of a source holds of all its tokens. -/
theorem forall_mem {P : Token → Prop} (each : ∀ c : Cursor, c.Within source → P c.next.1)
    (scans : Scans c tokens) (within : c.Within source) : ∀ t ∈ tokens, P t := by
  induction scans with
  | last _ => exact List.forall_mem_singleton.mpr (each _ within)
  | more _ _ ih => exact List.forall_mem_cons.mpr ⟨each _ within, ih within.next.1⟩

/-- A scan covers the source from its cursor on. -/
theorem spans (scans : Scans c tokens) (within : c.Within source) :
    (∀ t ∈ tokens, t.ReadFrom source) ∧
      (∀ t ∈ tokens.head?, OnlyLayout source c.offset t.offset) ∧
      tokens.IsChain fun t u => OnlyLayout source (t.stop source) u.offset := by
  induction scans with
  | last =>
    obtain ⟨-, read, layout, -⟩ := within.next
    refine ⟨?_, ?_, .singleton _⟩
    · simpa using read
    · simpa using layout
  | more _ _ ih =>
    obtain ⟨behind, read, layout, stop⟩ := within.next
    obtain ⟨readAll, first, chain⟩ := ih behind
    refine ⟨?_, ?_, ?_⟩
    · exact List.forall_mem_cons.mpr ⟨read, readAll⟩
    · simpa using layout
    · rw [stop] at first
      exact List.isChain_cons.mpr ⟨first, chain⟩

end Scans

end Cursor

theorem Token.readFrom_of_mem {source : Bytes} {t : Token} (member : t ∈ tokenize source) :
    t.ReadFrom source :=
  ((tokenize_scans source).spans (Cursor.within_start source)).1 t member

/-- A token that is neither an error nor the end is the longest lexeme where it starts. -/
theorem Token.longest_of_mem {source : Bytes} {t : Token} (member : t ∈ tokenize source)
    (sound : t.kind ≠ .error) (more : t.kind ≠ .endOfInput) :
    ∃ pattern, LongestMatch pattern t.lexeme (source.drop t.offset) ∧
      pattern.Names t.lexeme t.kind := by
  refine (tokenize_scans source).forall_mem (P := fun t => t.kind ≠ .error →
    t.kind ≠ .endOfInput → ∃ pattern, LongestMatch pattern t.lexeme (source.drop t.offset) ∧
      pattern.Names t.lexeme t.kind) ?_ (Cursor.within_start source) t member sound more
  intro c within sound more
  obtain ⟨settled, -⟩ := within.settle
  have offset : c.next.1.offset = c.settle.offset := settled.take.2.1
  rw [offset, ← settled.rest_eq]
  exact Cursor.next_lexeme sound more

theorem pairwise_of_layout {source : Bytes} {tokens : List Token}
    (chain : tokens.IsChain fun t u => OnlyLayout source (t.stop source) u.offset) :
    tokens.Pairwise fun t u => t.stop source ≤ u.offset := by
  let before (t u : Token) : Prop := t.stop source ≤ u.offset
  have transitive : Trans before before before := by
    refine ⟨fun {t u v} first second => ?_⟩
    have width : u.offset ≤ u.stop source := Nat.le_add_right ..
    exact Nat.le_trans first (Nat.le_trans width second)
  exact List.isChain_iff_pairwise.mp (chain.imp fun _ _ layout => layout.1)

theorem tokenize_pairwise (source : Bytes) :
    (tokenize source).Pairwise fun t u => t.stop source ≤ u.offset := by
  obtain ⟨-, -, chain⟩ := (tokenize_scans source).spans (Cursor.within_start source)
  exact pairwise_of_layout chain

/-- The tokens of a source end with its only end token and account for all its bytes: their spans
follow each other with layout before and between them. The scanner never leaves the source, and
asked for more it gives the end token again. Lexemes are what stands in the source; a token has the
line of its end, an error that of its start. -/
theorem tokenize_partition (source : Bytes) :
    let tokens := tokenize source
    tokens.length ≤ source.length + 1 ∧
    (∃ body ending, tokens = body ++ [ending] ∧ (∀ t ∈ body, t.kind ≠ .endOfInput) ∧
      ending.kind = .endOfInput ∧ ending.offset = source.length ∧
      ∀ n, Cursor.scan (tokens.length + n) (.start source) =
        tokens ++ List.replicate n ending) ∧
    (∀ n, ((Cursor.start source).after n).Within source) ∧
    (∀ t ∈ tokens, t.ReadFrom source) ∧
    (tokens.Pairwise fun t u => t.stop source ≤ u.offset) ∧
    (∀ t ∈ tokens.head?, OnlyLayout source 0 t.offset) ∧
    tokens.IsChain fun t u => OnlyLayout source (t.stop source) u.offset := by
  have scans := tokenize_scans source
  have within := Cursor.within_start source
  obtain ⟨readAll, first, chain⟩ := scans.spans within
  refine ⟨scans.length_le, ?_, within.after, readAll, pairwise_of_layout chain, first, chain⟩
  obtain ⟨body, ending, shape, kind, others⟩ := scans.shape
  have last := (readAll ending (by simp [shape])).ending kind
  exact ⟨body, ending, shape, others, kind, last, fun n => scans.scan_eq n ending (by simp [shape])⟩

end Abacus
