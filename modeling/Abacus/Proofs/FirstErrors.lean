import Abacus.Proofs.Blame
import Abacus.Proofs.Compilation

/-!
# The first error

The error of a source that does not compile is found by recursive descent on the tokens that are no
errors. Where descent stops, the parser has looked at one token more if the one it blames had to be
taken first: one that starts no operand, or a number that the pool has no room for. An error token
that it came across on the way is reported instead, so a lexical error can hide a syntax error that
stands before it.
-/
namespace Abacus

open Grammar

/-- The index of the last token that is looked at. -/
def lastSeen (sound : List Token) : Nat :=
  let last := sound.length - 1
  match descent sound with
  | .ok _ => last
  | .error obstacle =>
    let k := sound.length - obstacle.left.length
    match obstacle.fault with
    | .expectExpression | .tooManyConstants => min (k + 1) last
    | _ => k

/-- Some whole source goes on with any token of the kind. -/
def Awaits (used : List Token) (kind : Kind) : Prop :=
  ∀ t : Token, t.kind = kind → ∃ after, Whole (used ++ t :: after)

/-- Why descent stops at a token, by the message about it. -/
def StopsAt (used : List Token) (t : Token) (message : Bytes) : Prop :=
  message = text "Expect expression." ∧ Awaits used .number ∧
    t.kind ≠ .number ∧ t.kind ≠ .punctuator .leftParen ∧ t.kind ≠ .punctuator .minus ∨
  message = text "Too many constants in one chunk." ∧ Awaits used .number ∧
    t.kind = .number ∧ (numbers used).length = 256 ∨
  message = text "Expect ')' after expression." ∧ Awaits used (.punctuator .rightParen) ∧
    t.kind ≠ .punctuator .rightParen ∨
  message = text "Expect end of expression." ∧ Awaits used .endOfInput ∧ t.kind ≠ .endOfInput

theorem stopsAt_of_fits {used : List Token} {t : Token} {fault : SyntaxFault}
    (fits : Fits Chunk.maxConstants used t fault)
    (wanted : ∀ u, Wanted u fault → ∃ after, Whole (used ++ u :: after)) :
    StopsAt used t fault.message := by
  cases fault with
  | expectExpression =>
    obtain ⟨number, minus, leftParen⟩ := fits
    exact .inl ⟨rfl, wanted, number, leftParen, minus⟩
  | tooManyConstants => exact .inr (.inl ⟨rfl, wanted, fits⟩)
  | expectRightParen => exact .inr (.inr (.inl ⟨rfl, wanted, fits⟩))
  | expectEnd => exact .inr (.inr (.inr ⟨rfl, wanted, fits⟩))
  | lexical | invalidNumber => exact fits.elim

theorem StopsAt.ne_invalidNumber {used : List Token} {t : Token} {message : Bytes}
    (stops : StopsAt used t message) : message ≠ text "Invalid number." := by
  rcases stops with ⟨rfl, -⟩ | ⟨rfl, -⟩ | ⟨rfl, -⟩ | ⟨rfl, -⟩ <;> decide

theorem Place.message_ofToken {t : Token} (sound : t.isError = false) :
    (ofToken t).message =
      if t.kind = .endOfInput then text " at end" else text " at '" ++ t.lexeme ++ text "'" := by
  have noError : t.kind ≠ .error := (isError_eq_false_iff t).mp sound
  unfold ofToken
  split
  next last => simp [last, message]
  next error => exact absurd error noError
  next other _ =>
    rw [if_neg other]
    rfl

namespace Parser

/-- Before every sound token there are as many sound ones as it has to be counted. -/
theorem split_sound {tokens : List Token} {m : Nat} (inside : m < (sound tokens).length) :
    ∃ front um back, tokens = front ++ um :: back ∧ um.isError = false ∧
      (sound front).length = m := by
  induction tokens generalizing m with
  | nil => cases inside
  | cons t rest ih =>
    cases error : t.isError with
    | true =>
      obtain ⟨front, um, back, rfl, fine, count⟩ := ih (m := m) (by simpa [sound, error] using inside)
      exact ⟨t :: front, um, back, rfl, fine, by simpa [sound, error] using count⟩
    | false =>
      cases m with
      | zero => exact ⟨[], t, rest, rfl, error, rfl⟩
      | succ m =>
        obtain ⟨front, um, back, rfl, fine, count⟩ := ih (m := m) (by simpa [sound, error] using inside)
        exact ⟨t :: front, um, back, rfl, fine, by simpa [sound, error] using count⟩

/-- Descent never stops behind the end. -/
theorem Scanned.obstacle_left {all : List Token} (scanned : Scanned all) {o : Obstacle}
    (stopped : descent (sound all) = .error o) : ∃ t rest, o.left = t :: rest := by
  -- The parser finds the token to blame when it runs on the sound tokens alone.
  have clean : ∀ t ∈ sound all, t.isError = false := fun t member => by
    simpa using (List.mem_filter.mp member).2
  have alone : Scanned (sound all) := by
    obtain ⟨body, ending, shape, kind, -, others⟩ := scanned.sound_shape
    refine ⟨⟨body, ending, shape, kind, others⟩, fun t member => ?_⟩
    exact scanned.numerals t (List.mem_filter.mp member).1
  have finished := (run_follows alone).of_clean clean
  rw [sound_of_clean clean, stopped] at finished
  obtain ⟨t, rest, shape, -⟩ := finished
  exact ⟨t, rest, shape⟩

theorem lastSeen_add_unseen {tokens : List Token} (positive : 0 < tokens.length)
    (inside : ∀ o, descent tokens = .error o → 0 < o.left.length)
    (nothing : ∀ reading, descent tokens = .ok reading → reading.rest = []) :
    lastSeen tokens + Parser.unseen (descent tokens) + 1 = tokens.length := by
  rw [lastSeen]
  cases read : descent tokens with
  | ok reading =>
    simp only [Parser.unseen, nothing reading read, List.length_nil]
    omega
  | error o =>
    obtain ⟨used, split, -⟩ := descent_justified read
    have count := congrArg List.length split
    have left := inside o read
    rw [List.length_append] at count
    simp only [Parser.unseen, Parser.unseenAt]
    cases fault : o.fault <;> simp only <;> omega

/-- A run is decided among the tokens up to the last one that is looked at. -/
theorem Scanned.first_error {all : List Token} (scanned : Scanned all) :
    ∃ front um back, all = front ++ um :: back ∧ um.isError = false ∧
      (sound front).length = lastSeen (sound all) ∧
      match front.find? Token.isError with
      | some t => (run all).failure = some (.ofToken t (.lexical t.lexeme))
      | none => Finished all (run all) (descent (sound all)) := by
  obtain ⟨body, ending, shape, -, -, others⟩ := scanned.sound_shape
  have positive : 0 < (sound all).length := by simp [shape]
  have inside (o : Obstacle) (stopped : descent (sound all) = .error o) : 0 < o.left.length := by
    obtain ⟨t, rest, left⟩ := scanned.obstacle_left stopped
    simp [left]
  have nothing (reading : Reading) (read : descent (sound all) = .ok reading) :
      reading.rest = [] := by
    obtain ⟨used, last, split, kind, -⟩ := descent_sound read
    exact (end_is_last others (shape ▸ split) kind).2.2
  have count := lastSeen_add_unseen positive inside nothing
  have within : lastSeen (sound all) < (sound all).length := by omega
  obtain ⟨front, um, back, split, fine, seen⟩ := split_sound within
  refine ⟨front, um, back, split, fine, seen, ?_⟩
  -- As many sound tokens stand behind the last one that is looked at as are not looked at.
  have behind : (sound back).length = unseen (descent (sound all)) := by
    have whole := length_sound_split front back fine
    rw [← split] at whole
    omega
  have met := errorBefore_eq_find? front back fine
  rw [← split, behind] at met
  have followed := run_follows scanned
  rw [Barring, met] at followed
  exact followed

end Parser

theorem compile_of_failure {source : Bytes} {e : SyntaxError}
    (failed : (Parser.run (tokenize source)).failure = some e) : compile source = .error e := by
  simp [compile, failed]

/-- No message of an error token is about a number without a value. -/
theorem lexeme_ne_invalidNumber {source : Bytes} {t : Token} (member : t ∈ tokenize source)
    (error : t.isError = true) : t.lexeme ≠ text "Invalid number." := by
  rcases (Token.readFrom_of_mem member).error (by simpa [Token.isError] using error) with said | said
  · rw [said]
    decide
  · rw [said]
    decide

/-- The error of a source is found by descent on its tokens that are no errors. Up to the last of
them that is looked at there may be an error token, and the first such is reported; otherwise the
token is where descent stops, if it does. A number always has a value. -/
theorem compile_first_error (source : Bytes) :
    let sound := Parser.sound (tokenize source)
    (∃ front um back, tokenize source = front ++ um :: back ∧ um.kind ≠ .error ∧
      (Parser.sound front).length = lastSeen sound ∧
      match front.find? Token.isError, descent sound with
      | some t, _ =>
        ∃ e, compile source = .error e ∧ e.line = t.line ∧ e.place.message = [] ∧
          e.fault.message = t.lexeme
      | none, .error obstacle =>
        ∃ used t rest e, sound = used ++ t :: rest ∧ obstacle.left = t :: rest ∧
          compile source = .error e ∧ e.line = t.line ∧
          e.place.message =
            (if t.kind = .endOfInput then text " at end" else text " at '" ++ t.lexeme ++ text "'") ∧
          e.fault = obstacle.fault ∧ StopsAt used t e.fault.message
      | none, .ok _ => ∃ c, compile source = .ok c) ∧
    ∀ e, compile source = .error e →
      e.fault.message ≠ text "Invalid number." ∧ ∀ c, compile source ≠ .ok c := by
  intro sound
  obtain ⟨front, um, back, split, fine, seen, outcome⟩ := (scanned_tokenize source).first_error
  have unique (e first : SyntaxError) (failed : compile source = .error e)
      (found : compile source = .error first) : e = first :=
    Except.error.inj (failed.symm.trans found)
  cases met : front.find? Token.isError with
  | some t =>
    rw [met] at outcome
    have failed := compile_of_failure outcome
    have error : t.isError = true := List.find?_some met
    have place : Place.ofToken t = .unnamed :=
      (Place.ofToken_eq_unnamed_iff t).mpr (by simpa [Token.isError] using error)
    have member : t ∈ tokenize source := by
      rw [split]
      exact List.mem_append_left _ (List.mem_of_find?_eq_some met)
    refine ⟨⟨front, um, back, split, (isError_eq_false_iff um).mp fine, seen, ?_⟩, ?_⟩
    · rw [met]
      exact ⟨_, failed, rfl, (Place.message_eq_nil_iff _).mpr place, rfl⟩
    · intro e also
      obtain rfl := unique _ _ also failed
      exact ⟨lexeme_ne_invalidNumber member error, by simp [failed]⟩
  | none =>
    rw [met] at outcome
    cases read : descent sound with
    | ok reading =>
      rw [read] at outcome
      have compiled := (compile_eq_ok_iff source _).mpr ⟨outcome.1, rfl⟩
      refine ⟨⟨front, um, back, split, (isError_eq_false_iff um).mp fine, seen, ?_⟩, ?_⟩
      · rw [met]
        exact ⟨_, compiled⟩
      · intro e failed
        rw [compiled] at failed
        cases failed
    | error obstacle =>
      rw [read] at outcome
      obtain ⟨t, rest, left, failure⟩ := outcome
      have failed := compile_of_failure failure
      obtain ⟨used, parts, fits, wanted⟩ := descent_justified read
      rw [left] at parts fits
      have stops := stopsAt_of_fits (fits t rfl) wanted
      have member : t ∈ sound := by simp [parts]
      have noError : t.isError = false := by simpa using (List.mem_filter.mp member).2
      refine ⟨⟨front, um, back, split, (isError_eq_false_iff um).mp fine, seen, ?_⟩, ?_⟩
      · rw [met]
        exact ⟨used, t, rest, _, parts, left, failed, rfl, Place.message_ofToken noError, rfl, stops⟩
      · intro e also
        obtain rfl := unique _ _ also failed
        exact ⟨stops.ne_invalidNumber, by simp [failed]⟩

-- The parenthesis starts no operand, but the byte behind it is reported.
example : compile (text ") @") = .error ⟨1, .unnamed, .lexical (text "Unexpected character")⟩ := by
  decide

end Abacus
