import Abacus.Proofs.PlacelessParsing
import Abacus.Proofs.TokenEnds
import Abacus.Proofs.TokenSpans

/-!
# Spacing

How the lexemes of a source are spaced does not matter. Written in order, with a separator between
any two of them, they are the lexemes of the text they are written in (`scans_spaced`): a blank ends
each of them where it ended before. As the parser does not look at places, the text then compiles
as the source does (`compile_rendering`).
-/
namespace Abacus

/-- Blanks, line breaks, and comments with the line breaks that end them. -/
inductive Gap : Bytes → Prop
  | nil : Gap []
  | space {b : UInt8} {s : Bytes} : isSpace b = true → Gap s → Gap (b :: s)
  | comment {body s : Bytes} :
      newline ∉ body → Gap s → Gap (0x2f :: 0x2f :: (body ++ newline :: s))

/-- A gap that begins with a blank or a line break. -/
def Separator (s : Bytes) : Prop := ∃ b t, s = b :: t ∧ isSpace b = true ∧ Gap t

/-- The lexemes in order, with a separator behind each of them. It may be left out behind the last. -/
inductive Spaced : List Bytes → Bytes → Prop
  | nil : Spaced [] []
  | last (w : Bytes) : Spaced [w] w
  | cons {w gap s : Bytes} {ws : List Bytes} :
      Separator gap → Spaced ws s → Spaced (w :: ws) (w ++ gap ++ s)

/-- The text consists of the lexemes, spaced, behind a gap. -/
def Rendering (lexemes : List Bytes) (s : Bytes) : Prop :=
  ∃ gap t, s = gap ++ t ∧ Gap gap ∧ Spaced lexemes t

/-- What is written of some tokens: the end is not. -/
def lexemes (tokens : List Token) : List Bytes := (tokens.filter (!·.isEnd)).map Token.lexeme

theorem Gap.layout {s : Bytes} (gap : Gap s) (after : Bytes) : Layout after s := by
  induction gap with
  | nil => exact .nil
  | space blank _ ih => exact .space blank ih
  | comment quiet _ ih =>
    apply Layout.comment quiet
    · exact .inr rfl
    · exact .space rfl ih

/-- Behind a lexeme there is a gap, and if anything is there, it begins with a blank. -/
theorem Spaced.behind {w s : Bytes} {ws : List Bytes} (spaced : Spaced (w :: ws) s) :
    ∃ gap u, s = w ++ (gap ++ u) ∧ Gap gap ∧ Spaced ws u ∧
      ∀ b ∈ (gap ++ u).head?, isSpace b = true := by
  cases spaced with
  | last => exact ⟨[], [], by simp, .nil, .nil, by simp⟩
  | @cons _ gap u _ separator later =>
    obtain ⟨b, t, rfl, blank, gap⟩ := separator
    exact ⟨b :: t, u, by simp, .space blank gap, later, by simpa using blank⟩

/-- The token is a lexeme of the grammar, and it is none that begins as a comment does. -/
def Token.Lexical (t : Token) : Prop :=
  ∃ p : Pattern, p.Matches t.lexeme ∧ p.Names t.lexeme t.kind ∧ ¬ StartsLayout t.lexeme

namespace Cursor

theorem lexical_next {c : Cursor} (sound : c.next.1.kind ≠ .error)
    (more : c.next.1.kind ≠ .endOfInput) : c.next.1.Lexical := by
  obtain ⟨-, -, -, -, stopped⟩ := c.settle_layout
  obtain ⟨p, longest, names⟩ := next_lexeme sound more
  exact ⟨p, longest.matched, names, fun starts => stopped (starts.mono longest.here)⟩

/-- A lexeme is taken as a whole before a blank and at the end. -/
theorem next_of_lexical {t : Token} (lexical : t.Lexical) {after : Bytes}
    (ends : ∀ b ∈ after.head?, isSpace b = true) (offset line : Nat) :
    next ⟨t.lexeme ++ after, offset, line⟩ =
      (⟨t.kind, t.lexeme, line + Bytes.newlines t.lexeme, offset⟩,
        ⟨after, offset + t.lexeme.length, line + Bytes.newlines t.lexeme⟩) := by
  obtain ⟨p, matched, names, stopped⟩ := lexical
  obtain ⟨b, rest, occupied, -⟩ := matched.cons
  have alone := LongestMatch.of_matches matched
  obtain ⟨longest, settled⟩ : LongestMatch p t.lexeme (t.lexeme ++ after) ∧
      ¬ StartsLayout (t.lexeme ++ after) := by
    cases after with
    | nil =>
      rw [List.append_nil]
      exact ⟨alone, stopped⟩
    | cons blank after =>
      have space := ends blank rfl
      -- Not even a slash begins a comment with the blank behind it.
      exact ⟨alone.append_space space after,
        not_startsLayout_append_space stopped (by simp [occupied]) space⟩
  have here : settle ⟨t.lexeme ++ after, offset, line⟩ = ⟨t.lexeme ++ after, offset, line⟩ :=
    settle_eq_self settled
  rw [next, here, take_of_longest longest names, advance_append]

theorem scans_gap {gap s : Bytes} (isGap : Gap gap) {offset line : Nat} {tokens : List Token}
    (scans : Scans ⟨s, offset + gap.length, line + Bytes.newlines gap⟩ tokens) :
    Scans ⟨gap ++ s, offset, line⟩ tokens := by
  apply scans.congr
  rw [next, settle_append (isGap.layout s)]
  rfl

/-- Spaced lexemes are scanned as they are, whatever lines and offsets they get. -/
theorem scans_spaced {body : List Token} (lexical : ∀ t ∈ body, t.Lexical) {s : Bytes}
    (spaced : Spaced (body.map Token.lexeme) s) (offset line : Nat) :
    ∃ tokens, Scans ⟨s, offset, line⟩ tokens ∧
      tokens.map Token.bare = body.map Token.bare ++ [⟨.endOfInput, [], 0, 0⟩] := by
  induction body generalizing s offset line with
  | nil =>
    cases spaced
    exact ⟨_, .last rfl, rfl⟩
  | cons t rest ih =>
    rw [List.forall_mem_cons] at lexical
    -- The first lexeme is taken as a whole, and the gap behind it is passed over.
    obtain ⟨gap, u, rfl, isGap, later, ends⟩ := spaced.behind
    obtain ⟨tokens, scans, same⟩ := ih lexical.2 later
      (offset + t.lexeme.length + gap.length)
      (line + Bytes.newlines t.lexeme + Bytes.newlines gap)
    have ⟨_, _, names, _⟩ := lexical.1
    refine ⟨_, .of_next (next_of_lexical lexical.1 ends offset line) names.ne_marker.2
      (scans_gap isGap scans), ?_⟩
    rw [List.map_cons, same]
    rfl

end Cursor

theorem tokenize_rendering {source respaced : Bytes} (sound : ∀ t ∈ tokenize source, t.kind ≠ .error)
    (rendering : Rendering (lexemes (tokenize source)) respaced) :
    (tokenize respaced).map Token.bare = (tokenize source).map Token.bare := by
  obtain ⟨body, ending, shape, kind, others⟩ := tokenize_shape source
  have lexical : ∀ t ∈ tokenize source, t.kind ≠ .error → t.kind ≠ .endOfInput → t.Lexical :=
    (tokenize_scans source).forall_mem (fun _ _ => Cursor.lexical_next) (Cursor.within_start source)
  have written : lexemes (tokenize source) = body.map Token.lexeme := by
    have kept : body.filter (!·.isEnd) = body := by
      apply List.filter_eq_self.mpr
      intro t member
      simpa [Token.isEnd] using others t member
    have dropped : [ending].filter (!·.isEnd) = [] := by simp [Token.isEnd, kind]
    rw [lexemes, shape, List.filter_append, kept, dropped, List.append_nil]
  have bare : (tokenize source).map Token.bare =
      body.map Token.bare ++ [⟨.endOfInput, [], 0, 0⟩] := by
    -- Nothing is left of the source for a lexeme of the end.
    have read : ending.ReadFrom source := Token.readFrom_of_mem (by simp [shape])
    have inside := read.inside
    rw [Token.stop, Token.width, if_neg (by simp [kind]), read.ending kind] at inside
    have nothing : ending.lexeme = [] := List.eq_nil_of_length_eq_zero (by omega)
    rw [shape, List.map_append, List.map_singleton, Token.bare, kind, nothing]
  obtain ⟨gap, s, rfl, isGap, spaced⟩ := rendering
  rw [written] at spaced
  have among : ∀ t ∈ body, t ∈ tokenize source := fun t member => by simp [shape, member]
  obtain ⟨tokens, scans, same⟩ := Cursor.scans_spaced
    (fun t member => lexical t (among t member) (sound t (among t member)) (others t member))
    spaced (0 + gap.length) (1 + Bytes.newlines gap)
  have all : tokenize (gap ++ s) = tokens :=
    (Cursor.scans_gap isGap scans).unique (tokenize_scans (gap ++ s))
  rw [all, same, bare]

/-- A source without errors and any text that its lexemes are written in, with separators between
them, have the same kinds of tokens and the same lexemes. They compile alike: into the same code and
constants, or with the same error, each with lines of its own. -/
theorem compile_rendering {source respaced : Bytes} (sound : ∀ t ∈ tokenize source, t.kind ≠ .error)
    (rendering : Rendering (lexemes (tokenize source)) respaced) :
    (tokenize respaced).map Token.bare = (tokenize source).map Token.bare ∧
    (∀ c, compile source = .ok c →
      ∃ lines, lines.size = c.lines.size ∧ compile respaced = .ok { c with lines := lines }) ∧
    ∀ e, compile source = .error e → ∃ line, compile respaced = .error { e with line := line } := by
  have same := tokenize_rendering sound rendering
  exact ⟨same, compile_of_bare same⟩

/-- A comment and line breaks do not change the error of a group that is not closed. -/
theorem compile_rendering_unclosed :
    let source := text "-(1=\"a b\""
    let respaced := text "- // minus\n(\t1\n= \"a b\" "
    (∀ t ∈ tokenize source, t.kind ≠ .error) ∧
    Rendering (lexemes (tokenize source)) respaced ∧
    (tokenize respaced).map Token.bare = (tokenize source).map Token.bare ∧
    compile source = .error ⟨1, .atLexeme (text "="), .expectRightParen⟩ ∧
    ∃ line, compile respaced = .error ⟨line, .atLexeme (text "="), .expectRightParen⟩ := by
  intro source respaced
  have sound : ∀ t ∈ tokenize source, t.kind ≠ .error := by decide
  have rendering : Rendering (lexemes (tokenize source)) respaced := by
    have words : lexemes (tokenize source) =
        [text "-", text "(", text "1", text "=", text "\"a b\""] := by decide
    have comment : Separator (text " // minus\n") :=
      ⟨0x20, 0x2f :: 0x2f :: (text " minus" ++ [newline]), by decide, rfl,
        .comment (by decide) .nil⟩
    have blank (b : UInt8) (space : isSpace b = true) : Separator [b] := ⟨b, [], rfl, space, .nil⟩
    rw [words]
    refine ⟨[], _, ?_, .nil, .cons comment (.cons (blank 0x09 rfl) (.cons (blank newline rfl)
      (.cons (blank 0x20 rfl) (.cons (blank 0x20 rfl) .nil))))⟩
    decide
  obtain ⟨same, -, errors⟩ := compile_rendering sound rendering
  have failed : compile source = .error ⟨1, .atLexeme (text "="), .expectRightParen⟩ := by
    decide +kernel
  exact ⟨sound, rendering, same, failed, errors _ failed⟩

end Abacus
