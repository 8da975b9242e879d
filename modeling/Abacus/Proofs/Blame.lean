import Abacus.Compiler.Compile
import Abacus.Proofs.ParserRuns

/-!
# Which token an error is about

The parser skips error tokens, so the tokens it takes and looks at are sound ones of the source
(`Parser.Tracks`). An error that it records is therefore about a sound token, or it passes on the
message of an error token.
-/
namespace Abacus

/-- The error is about one of the tokens. About an error token it says what that token says. -/
def SyntaxError.Blames (tokens : List Token) (e : SyntaxError) : Prop :=
  ∃ t ∈ tokens, ∃ fault, e = .ofToken t fault ∧ (t.kind = .error → fault = .lexical t.lexeme)

theorem Place.ofToken_eq_unnamed_iff (t : Token) :
    Place.ofToken t = .unnamed ↔ t.kind = .error := by
  unfold Place.ofToken
  split <;> simp_all

theorem Place.message_eq_nil_iff (place : Place) : place.message = [] ↔ place = .unnamed := by
  cases place with
  | unnamed => simp [Place.message]
  | atEnd => decide
  | atLexeme lexeme =>
    have opening : text " at '" ≠ [] := by decide
    simp [Place.message, opening]

namespace Parser

/-- A token of the source that is no error. -/
def Sound (tokens : List Token) (t : Token) : Prop := t ∈ tokens ∧ t.kind ≠ .error

/-- The parser stands among the tokens: it has taken and looks at sound ones, and its error is about
one of them. -/
structure Tracks (tokens : List Token) (p : Parser) : Prop where
  pending : p.pending <:+ tokens
  current : Sound tokens p.current
  previous : Sound tokens p.previous
  failure : ∀ e ∈ p.failure, e.Blames tokens

theorem fail_blames {tokens : List Token} {p : Parser} {t : Token} {fault : SyntaxFault}
    (earlier : ∀ e ∈ p.failure, e.Blames tokens) (member : t ∈ tokens)
    (lexical : t.kind = .error → fault = .lexical t.lexeme) :
    ∀ e ∈ (p.fail t fault).failure, e.Blames tokens := by
  intro e recorded
  cases failure : p.failure with
  | none =>
    obtain rfl : SyntaxError.ofToken t fault = e := by simpa [fail, failure] using recorded
    exact ⟨t, member, fault, rfl, lexical⟩
  | some first =>
    obtain rfl : first = e := by simpa [fail, failure] using recorded
    exact earlier first failure

/-- Asking for tokens does not look at what was taken last. -/
theorem pull_previous (pending : List Token) (p : Parser) (t : Token) :
    pull pending { p with previous := t } = { pull pending p with previous := t } := by
  induction pending generalizing p with
  | nil => rfl
  | cons u rest ih =>
    simp only [pull]
    split
    · let moved : Parser := { p with pending := rest, current := u, requests := p.requests + 1 }
      exact ih (moved.fail u (.lexical u.lexeme))
    · rfl

/-- Nor does parsing an operand, which begins by taking a token. -/
theorem operand_previous (fuel level : Nat) (p : Parser) (t : Token) :
    operand (fuel + 1) level { p with previous := t } = operand (fuel + 1) level p := rfl

section

variable {tokens : List Token} (ended : ∀ t ∈ tokens.getLast?, t.kind ≠ .error)

include ended

/-- Asking for tokens stops at a sound one, at the last of all tokens if not before. -/
theorem tracks_pull (pending : List Token) (p : Parser) (suffix : pending <:+ tokens)
    (exhausted : pending = [] → Sound tokens p.current) (previous : Sound tokens p.previous)
    (failure : ∀ e ∈ p.failure, e.Blames tokens) : Tracks tokens (pull pending p) := by
  induction pending generalizing p with
  | nil => exact ⟨suffix, exhausted rfl, previous, failure⟩
  | cons t rest ih =>
    have member : t ∈ tokens := suffix.subset List.mem_cons_self
    have later : rest <:+ tokens := (List.suffix_cons t rest).trans suffix
    simp only [pull]
    split
    next error =>
      have kind : t.kind = .error := by simpa [Token.isError] using error
      refine ih _ later (fun nothing => ?_) previous (fail_blames failure member fun _ => rfl)
      -- An error is not the last of the tokens.
      obtain ⟨front, rfl⟩ := suffix
      exact absurd kind (ended t (by simp [nothing]))
    next sound =>
      have kind : t.kind ≠ .error := by simpa [Token.isError] using sound
      exact ⟨later, ⟨member, kind⟩, previous, failure⟩

theorem tracks_preserved : Preserved (Tracks tokens) where
  advance p tracks :=
    tracks_pull ended p.pending _ tracks.pending (fun _ => tracks.current) tracks.current
      tracks.failure
  fail p t fault place tracks := by
    have sound : Sound tokens t := by
      rcases place with rfl | rfl
      · exact tracks.previous
      · exact tracks.current
    exact ⟨tracks.pending, tracks.current, tracks.previous,
      fail_blames tracks.failure sound.1 fun error => absurd error sound.2⟩
  chunk _ _ tracks := ⟨tracks.pending, tracks.current, tracks.previous, tracks.failure⟩

theorem run_blames (occupied : tokens ≠ []) : ∀ e ∈ (run tokens).failure, e.Blames tokens := by
  have last : tokens.getLast? = some (tokens.getLast occupied) :=
    List.getLast?_eq_some_getLast occupied
  have sound : Sound tokens (tokens.getLast occupied) :=
    ⟨List.getLast_mem occupied, ended _ last⟩
  -- Nothing has been taken at the start; any token may stand for it.
  have started :
      Tracks tokens { (start tokens).advance with previous := tokens.getLast occupied } := by
    rw [advance, ← pull_previous]
    exact tracks_pull ended tokens _ (List.suffix_refl _) (fun nothing => absurd nothing occupied)
      sound (by simp [start])
  have parsed := (tracks_preserved ended).operand (2 * tokens.length + 2) termLevel _ started
  rw [operand_previous] at parsed
  exact ((tracks_preserved ended).expect _ .endOfInput .expectEnd parsed).failure

end

end Parser

theorem compile_blames {source : Bytes} {e : SyntaxError} (failed : compile source = .error e) :
    e.Blames (tokenize source) := by
  obtain ⟨body, ending, shape, kind, -⟩ := tokenize_shape source
  have ended : ∀ t ∈ (tokenize source).getLast?, t.kind ≠ .error := by
    intro t last
    obtain rfl : ending = t := by simpa [shape] using last
    simp [kind]
  refine Parser.run_blames ended (by simp [shape]) e ?_
  unfold compile at failed
  dsimp only at failed
  split at failed
  next first recorded =>
    cases failed
    exact recorded
  · cases failed

end Abacus
