import Abacus.Document.Analysis
import Abacus.Proofs.Blame
import Abacus.Proofs.Compilation
import Abacus.Proofs.Positions
import Abacus.Proofs.TokenSpans

/-!
# The errors of a document

The scanner and the parser find errors independently of each other. They agree on which there are:
a source with an error token does not compile, and an error of the parser without a place is one
that the scanner has found. So the reports about a document are one for each error token and one
more for an error of the parser's own, and there are none exactly if there is nothing to compile or
the document compiles.

Each report is about bytes that exist: the span of the error token, or the line on which the token
ends that the parser complains about.
-/
namespace Abacus

/-! ## Error tokens -/

/-- What stands in the source where an error token starts. -/
def Token.Misread (source : Bytes) (t : Token) : Prop :=
  ∃ b, source[t.offset]? = some b ∧
    (t.lexeme = text "Unexpected character" ∧ b ≠ newline ∨
      t.lexeme = text "Unterminated string" ∧ b = 0x22)

theorem ne_newline_of_not_startsLayout {first : UInt8} {rest : Bytes}
    (settled : ¬ StartsLayout (first :: rest)) : first ≠ newline := by
  rintro rfl
  exact settled (.inl ⟨newline, rfl, rfl⟩)

namespace Cursor

theorem Within.misread {source : Bytes} {c : Cursor} (within : c.Within source)
    (error : c.next.1.kind = .error) : c.next.1.Misread source := by
  obtain ⟨settled, -⟩ := within.settle
  obtain ⟨-, -, -, -, stopped⟩ := c.settle_layout
  unfold Cursor.next at error ⊢
  cases shape : c.settle.rest with
  | nil => simp [Cursor.take, shape] at error
  | cons first rest =>
    have here : source[c.settle.offset]? = some first := by
      have behind := settled.rest_eq
      rw [shape] at behind
      rw [← Nat.add_zero c.settle.offset, ← List.getElem?_drop, ← behind]
      rfl
    rcases c.settle.take_cases shape with ⟨_, _, _, -, names, taken⟩ | ⟨-, taken⟩ |
      ⟨⟨rfl, -⟩, taken⟩
    · rw [taken] at error
      exact absurd error names.ne_marker.1
    · rw [taken]
      exact ⟨first, here, .inl ⟨rfl, ne_newline_of_not_startsLayout (shape ▸ stopped)⟩⟩
    · rw [taken]
      exact ⟨0x22, here, .inr ⟨rfl, rfl⟩⟩

end Cursor

namespace Document

def errors (s : Bytes) : List Token := (tokenize s).filter Token.isError

theorem mem_errors {s : Bytes} {t : Token} :
    t ∈ errors s ↔ t ∈ tokenize s ∧ t.kind = .error := by
  simp [errors, Token.isError]

theorem misread_of_mem_errors {s : Bytes} {t : Token} (member : t ∈ errors s) : t.Misread s := by
  obtain ⟨among, error⟩ := mem_errors.mp member
  have all : ∀ t ∈ tokenize s, t.kind = .error → t.Misread s :=
    (tokenize_scans s).forall_mem (fun _ within => within.misread) (Cursor.within_start s)
  exact all t among error

theorem errors_pairwise (s : Bytes) : (errors s).Pairwise fun t u => t.stop s ≤ u.offset :=
  (tokenize_pairwise s).filter _

theorem offset_lt_stop {s : Bytes} {t : Token} (member : t ∈ errors s) : t.offset < t.stop s := by
  obtain ⟨among, error⟩ := mem_errors.mp member
  have width := (Token.readFrom_of_mem among).occupied (by simp [error])
  exact Nat.lt_add_of_pos_right width

/-- Nothing can follow a string that is not closed. -/
theorem unterminated_last {s : Bytes} {t : Token} (member : t ∈ errors s)
    (unclosed : t.lexeme = text "Unterminated string") : (errors s).getLast? = some t := by
  obtain ⟨front, back, shape⟩ := List.append_of_mem member
  cases back with
  | nil => simp [shape]
  | cons u back =>
    have order := errors_pairwise s
    rw [shape, List.pairwise_append] at order
    have apart := (List.pairwise_cons.mp order.2.1).1 u List.mem_cons_self
    have later : u ∈ errors s := by simp [shape]
    have inside := (Token.readFrom_of_mem (mem_errors.mp later).1).inside
    have occupied := offset_lt_stop later
    have within := (Token.readFrom_of_mem (mem_errors.mp member).1).inside
    have stop : t.stop s = t.offset + (s.length - t.offset) := by
      simp [Token.stop, Token.width, (mem_errors.mp member).2, unclosed]
    -- The first error ends where the source does, and no error is empty.
    omega

/-! ## Reports -/

/-- The diagnostic reports an error token: the one byte at its offset, or all from an opening quote
to the end. -/
def Reports (s : Bytes) (t : Token) (d : Diagnostic) : Prop :=
  d.message = t.lexeme ∧
    (t.lexeme = text "Unexpected character" ∧ d.range.Covers s t.offset (t.offset + 1) ∨
      t.lexeme = text "Unterminated string" ∧ s[t.offset]? = some 0x22 ∧
        d.range.Covers s t.offset s.length)

theorem reports_of_mem_errors {s : Bytes} (short : s.length < 4294967296) {t : Token}
    (member : t ∈ errors s) : Reports s t ⟨errorRange s t, t.lexeme⟩ := by
  have apart : text "Unexpected character" ≠ Lexed.unterminatedMessage := by decide
  obtain ⟨b, here, ⟨message, visible⟩ | ⟨message, rfl⟩⟩ := misread_of_mem_errors member
  · -- The byte is on one line, so its end is one column on.
    obtain ⟨inside, -⟩ := List.getElem?_eq_some_iff.mp here
    have next := positionAt_succ short here visible
    have column : (positionAt s t.offset).character + 1 < 4294967296 := by
      have marks := (marks_positionAt short inside).linesLength_add
      simp only [next] at marks
      omega
    have range : errorRange s t = ⟨positionAt s t.offset, positionAt s (t.offset + 1)⟩ := by
      rw [errorRange, message, if_neg apart, if_pos inside, next]
      simp only [← Int.natCast_succ, coordinate_of_lt column]
    refine ⟨rfl, .inl ⟨message, ?_⟩⟩
    rw [range]
    exact covers_positions short (Nat.le_succ _) inside
  · obtain ⟨inside, -⟩ := List.getElem?_eq_some_iff.mp here
    have range : errorRange s t = ⟨positionAt s t.offset, positionAt s s.length⟩ := by
      rw [errorRange, message]
      exact if_pos rfl
    refine ⟨rfl, .inr ⟨message, here, ?_⟩⟩
    rw [range]
    exact covers_positions short (Nat.le_of_lt inside) (Nat.le_refl _)

theorem lexical_reports {s : Bytes} (short : s.length < 4294967296) :
    List.Forall₂ (Reports s) (errors s) (lexicalDiagnostics s) := by
  rw [lexicalDiagnostics, ← errors, List.forall₂_map_right_iff, List.forall₂_same]
  exact fun t member => reports_of_mem_errors short member

/-- The range is a line without the carriage return at its end. -/
def CoversLine (s : Bytes) (r : Range) (n : Nat) : Prop :=
  ∃ line i, (Bytes.lines s)[n]? = some line ∧
    r = ⟨⟨n, 0⟩, ⟨n, (Bytes.dropCarriageReturn line).length⟩⟩ ∧
    r.Covers s i (i + (Bytes.dropCarriageReturn line).length)

/-- The line of an error about a sound token is the one on which the token ends. -/
theorem lineRange_coversLine {s : Bytes} (short : s.length < 4294967296) {t : Token}
    (member : t ∈ tokenize s) (sound : t.kind ≠ .error) :
    CoversLine s (lineRange s (t.line - 1 : Nat))
      (Bytes.newlines (s.take (t.offset + t.lexeme.length))) := by
  have read := Token.readFrom_of_mem member
  have inside : t.offset + t.lexeme.length ≤ s.length := by
    simpa [Token.stop, Token.width, sound] using read.inside
  obtain ⟨line, found⟩ := line_of_offset short inside
  rw [read.line sound, Nat.add_sub_cancel_left]
  obtain ⟨shape, covers⟩ := lineRange_covers short found
  exact ⟨line, _, found, shape, covers⟩

theorem isBlank_iff (s : Bytes) :
    isBlank s = true ↔ ∃ ending, tokenize s = [ending] ∧ ending.kind = .endOfInput := by
  obtain ⟨body, ending, shape, kind, -⟩ := tokenize_shape s
  cases body with
  | nil => simp [isBlank, shape, kind]
  | cons t body => simp [isBlank, shape]

theorem errors_eq_nil_of_compile {s : Bytes} {c : Chunk} (compiled : compile s = .ok c) :
    errors s = [] := by
  obtain ⟨body, ending, shape, kind, others⟩ := tokenize_shape s
  obtain ⟨clean, -⟩ := derives_of_compile s body ending c shape kind compiled
  exact List.filter_eq_nil_iff.mpr fun t member => by simp [clean t member]

theorem lexicalDiagnostics_eq_nil_iff (s : Bytes) : lexicalDiagnostics s = [] ↔ errors s = [] :=
  List.map_eq_nil_iff

/-- The parser's error is one that has been reported, or it has a report of its own. -/
theorem syntaxDiagnostic?_cases {s : Bytes} {e : SyntaxError} (failed : compile s = .error e) :
    (e.place.message = [] ∧ syntaxDiagnostic? s = none ∧
      ∃ t ∈ errors s, e = .ofToken t (.lexical t.lexeme)) ∨
    (e.place.message ≠ [] ∧ ∃ t ∈ tokenize s, t.kind ≠ .error ∧ e = .ofToken t e.fault ∧
      syntaxDiagnostic? s = some ⟨lineRange s (t.line - 1 : Nat), e.message⟩) := by
  obtain ⟨t, member, fault, rfl, lexical⟩ := compile_blames failed
  have place : (SyntaxError.ofToken t fault).place = .ofToken t := rfl
  have unnamed := Place.ofToken_eq_unnamed_iff t
  unfold syntaxDiagnostic?
  rw [failed, Ne, Place.message_eq_nil_iff, place]
  by_cases error : t.kind = .error
  · refine .inl ⟨unnamed.mpr error, if_pos (unnamed.mpr error), t, ?_, ?_⟩
    · exact mem_errors.mpr ⟨member, error⟩
    · rw [lexical error]
  · have named := mt unnamed.mp error
    exact .inr ⟨named, t, member, error, rfl, if_neg named⟩

theorem diagnose_eq_nil_iff (s : Bytes) :
    diagnose s = [] ↔ isBlank s = true ∨ ∃ c, compile s = .ok c := by
  unfold diagnose
  split
  next blank => simp [blank]
  next tokens =>
    simp only [tokens, Bool.false_eq_true, false_or, List.append_eq_nil_iff,
      lexicalDiagnostics_eq_nil_iff, Option.toList_eq_nil_iff]
    constructor
    · -- An error of the compiler is an error token or has a report.
      rintro ⟨none, silent⟩
      cases compiled : compile s with
      | ok c => exact ⟨c, rfl⟩
      | error e =>
        rcases syntaxDiagnostic?_cases compiled with ⟨-, -, t, member, -⟩ | ⟨-, t, -, -, -, some⟩
        · simp [none] at member
        · simp [silent] at some
    · rintro ⟨c, compiled⟩
      refine ⟨errors_eq_nil_of_compile compiled, ?_⟩
      rw [syntaxDiagnostic?, compiled]

theorem diagnose_covers {s : Bytes} (short : s.length < 4294967296) :
    ∀ d ∈ diagnose s, ∃ i j, d.range.Covers s i j := by
  intro d member
  unfold diagnose at member
  split at member
  · cases member
  · rcases List.mem_append.mp member with lexical | syntactic
    · obtain ⟨t, error, rfl⟩ := List.mem_map.mp lexical
      obtain ⟨-, ⟨-, covers⟩ | ⟨-, -, covers⟩⟩ := reports_of_mem_errors short error
      · exact ⟨_, _, covers⟩
      · exact ⟨_, _, covers⟩
    · cases compiled : compile s with
      | ok c => simp [syntaxDiagnostic?, compiled] at syntactic
      | error e =>
        rcases syntaxDiagnostic?_cases compiled with ⟨-, none, -⟩ | ⟨-, t, among, sound, -, some⟩
        · simp [none] at syntactic
        · rw [some, Option.toList_some, List.mem_singleton] at syntactic
          obtain ⟨_, i, -, -, covers⟩ := lineRange_coversLine short among sound
          rw [syntactic]
          exact ⟨i, _, covers⟩

/-- A document has no reports exactly if there is nothing in it or it compiles. Otherwise there is
one for each error token, in the order of the source, and one more exactly if the error of the
compiler has a place; an error without a place is that of an error token. In a document of less
than 4 gigabytes the reports are about the byte that starts no token, all of a string that is not
closed, and the line on which the token ends that the compiler complains about. -/
theorem diagnose_complete (s : Bytes) :
    let blank := ∃ ending, tokenize s = [ending] ∧ ending.kind = .endOfInput
    (diagnose s = [] ↔ blank ∨ ∃ c, compile s = .ok c) ∧
    (∀ e, ¬ blank → compile s = .error e →
      ∃ lexical : List Diagnostic,
        lexical.map Diagnostic.message = (errors s).map Token.lexeme ∧
        (s.length < 4294967296 → List.Forall₂ (Reports s) (errors s) lexical) ∧
        ((e.place.message = [] ∧ diagnose s = lexical ∧
            ∃ t ∈ errors s, e = .ofToken t (.lexical t.lexeme)) ∨
          (e.place.message ≠ [] ∧ ∃ range, diagnose s = lexical ++ [⟨range, e.message⟩] ∧
            ∃ t ∈ tokenize s, t.kind ≠ .error ∧ e = .ofToken t e.fault ∧
              (s.length < 4294967296 → CoversLine s range
                (Bytes.newlines (s.take (t.offset + t.lexeme.length))))))) ∧
    ((errors s).Pairwise fun t u => t.offset < u.offset) ∧
    (∀ t ∈ errors s, t.lexeme = text "Unterminated string" → (errors s).getLast? = some t) ∧
    (s.length < 4294967296 → ∀ d ∈ diagnose s, ∃ i j, d.range.Covers s i j) := by
  refine ⟨by rw [diagnose_eq_nil_iff, isBlank_iff], ?_, ?_, fun t => unterminated_last, ?_⟩
  · intro e occupied failed
    rw [← isBlank_iff] at occupied
    have parts : diagnose s = lexicalDiagnostics s ++ (syntaxDiagnostic? s).toList :=
      if_neg occupied
    refine ⟨lexicalDiagnostics s, by simp [lexicalDiagnostics, errors], lexical_reports, ?_⟩
    rcases syntaxDiagnostic?_cases failed with ⟨unnamed, none, lexical⟩ |
      ⟨named, t, member, sound, blamed, some⟩
    · exact .inl ⟨unnamed, by simp [parts, none], lexical⟩
    · exact .inr ⟨named, _, by rw [parts, some, Option.toList_some], t, member, sound, blamed,
        fun short => lineRange_coversLine short member sound⟩
  · exact (errors_pairwise s).imp_of_mem fun first _ order =>
      Nat.lt_of_lt_of_le (offset_lt_stop first) order
  · exact diagnose_covers

-- The parser stops before it meets the error of the scanner, so there are two reports.
example : diagnose (text "1\n2 $") =
    [⟨⟨⟨1, 2⟩, ⟨1, 3⟩⟩, text "Unexpected character"⟩,
      ⟨⟨⟨1, 0⟩, ⟨1, 3⟩⟩, text "[line 2] Error at '2': Expect end of expression."⟩] := by
  decide +kernel

end Document

end Abacus
