import Abacus.Proofs.ParserDescent
import Abacus.Proofs.TokenSpans

/-!
# Calls of the parser

The parser asks for tokens from a scanner that gives the end again and again, and it goes on parsing
after an error. It still ends soon, because every call for an operand takes a token other than the
end (`Parses.consumes`), or finds the end and fails at once (`Parses.stuck`). After a failure no
operator is looked for, so a call that finds the end is the last one (`Parses.callsAtEnd_le`).

`Parses` is the recursion of the parser without its fuel, together with the calls and rounds that
it goes through: it has a derivation exactly where the recursion comes to an end.
-/
namespace Abacus

/-! ## The token stream -/

/-- The end stands last, and nowhere else. -/
def EndsOnce (tokens : List Token) : Prop :=
  ∃ body ending, tokens = body ++ [ending] ∧ ending.kind = .endOfInput ∧
    ∀ t ∈ body, t.kind ≠ .endOfInput

namespace EndsOnce

variable {t : Token} {rest : List Token}

theorem rest_of_more (ends : EndsOnce (t :: rest)) (more : t.kind ≠ .endOfInput) :
    EndsOnce rest := by
  obtain ⟨body, ending, shape, kind, others⟩ := ends
  cases body with
  | nil =>
    obtain ⟨rfl, -⟩ := List.cons.inj shape
    exact absurd kind more
  | cons first body =>
    obtain ⟨rfl, rfl⟩ := List.cons.inj shape
    exact ⟨body, ending, rfl, kind, fun u member => others u (List.mem_cons_of_mem _ member)⟩

theorem rest_of_end (ends : EndsOnce (t :: rest)) (last : t.kind = .endOfInput) : rest = [] := by
  obtain ⟨body, ending, shape, -, others⟩ := ends
  have split : body ++ [ending] = [] ++ t :: rest := shape.symm
  exact (end_is_last others split last).2.2

end EndsOnce

theorem Cursor.scan_take (n m : Nat) (c : Cursor) : (scan (n + m) c).take n = scan n c := by
  induction n generalizing c with
  | zero => simp [scan]
  | succ n ih => rw [Nat.add_right_comm, scan, List.take_succ_cons, ih, scan]

/-- The last of the tokens that the scanner gives when it is asked more than `n` times. -/
theorem Cursor.Scans.scan_getLast? {c : Cursor} {tokens : List Token} (scans : Scans c tokens)
    (n : Nat) : ∀ ending ∈ tokens.getLast?,
      (scan (n + 1) c).getLast? = some (tokens[n]?.getD ending) := by
  intro ending last
  have all := scans.scan_eq (n + 1) ending last
  rw [← scan_take (n + 1) tokens.length, Nat.add_comm (n + 1), all, List.getLast?_take,
    if_neg (Nat.succ_ne_zero n), Nat.add_sub_cancel]
  rcases Nat.lt_or_ge n tokens.length with inside | outside
  · rw [List.getElem?_append_left inside, List.getElem?_eq_getElem inside]
    rfl
  · have repeated : n - tokens.length < n + 1 := by omega
    rw [List.getElem?_append_right outside, List.getElem?_replicate_of_lt repeated,
      List.getElem?_eq_none outside]
    rfl

namespace Parser

/-- The parser has its tokens from the scanner of the source: it looks at the last one of those that
it has asked for, and the others are still to come. -/
structure Supplied (source : Bytes) (p : Parser) : Prop where
  current : (Cursor.scan p.requests (.start source)).getLast? = some p.current
  pending : p.pending = (tokenize source).drop p.requests

theorem pull_supplied {source : Bytes} (pending : List Token) (p : Parser)
    (remain : pending = (tokenize source).drop p.requests)
    (last : pending = [] → (Cursor.scan p.requests (.start source)).getLast? = some p.current) :
    Supplied source (pull pending p) := by
  obtain ⟨body, ending, shape, -⟩ := tokenize_shape source
  have given (n : Nat) := (tokenize_scans source).scan_getLast? n ending (by simp [shape])
  induction pending generalizing p with
  | nil =>
    -- All tokens have been asked for, so the end has come already and comes again.
    have beyond := List.drop_eq_nil_iff.mp remain.symm
    rw [shape, List.length_append, List.length_singleton] at beyond
    have repeated (n : Nat) (behind : body.length ≤ n) :
        (Cursor.scan (n + 1) (.start source)).getLast? = some ending := by
      rw [given, shape, List.getElem?_append_right behind]
      cases n - body.length <;> rfl
    obtain ⟨n, count⟩ : ∃ n, p.requests = n + 1 := ⟨p.requests - 1, by omega⟩
    have looked := last rfl
    rw [count, repeated n (by omega)] at looked
    refine ⟨?_, (List.drop_eq_nil_iff.mpr ?_).symm⟩
    · rw [pull, repeated p.requests (by omega), looked]
    · rw [shape, List.length_append, List.length_singleton]
      exact Nat.le_succ_of_le beyond
  | cons t rest ih =>
    have here : (tokenize source)[p.requests]? = some t := by
      rw [← List.head?_drop, ← remain, List.head?_cons]
    have behind : rest = (tokenize source).drop (p.requests + 1) := by
      rw [← List.tail_drop, ← remain, List.tail_cons]
    have looked : (Cursor.scan (p.requests + 1) (.start source)).getLast? = some t := by
      rw [given, here, Option.getD_some]
    simp only [pull]
    split
    · exact ih _ behind fun _ => looked
    · exact ⟨looked, behind⟩

/-- Asking for tokens when some are left leads to one of them. -/
theorem pull_onward (pending : List Token) (p : Parser) (ends : EndsOnce pending) :
    let q := pull pending p
    EndsOnce (q.current :: q.pending) ∧ (q.current :: q.pending) <:+ pending ∧
      q.requests + q.pending.length = p.requests + pending.length := by
  induction pending generalizing p with
  | nil =>
    obtain ⟨body, ending, shape, -⟩ := ends
    simp at shape
  | cons t rest ih =>
    simp only [pull]
    split
    next error =>
      have more : t.kind ≠ .endOfInput := by
        intro last
        simp [Token.isError, last] at error
      obtain ⟨stream, onward, count⟩ := ih _ (ends.rest_of_more more)
      refine ⟨stream, onward.trans (List.suffix_cons t rest), count.trans ?_⟩
      simp only [fail, List.length_cons]
      omega
    next fine =>
      refine ⟨ends, List.suffix_rfl, ?_⟩
      rw [List.length_cons, Nat.add_assoc, Nat.add_comm 1]

/-- The tokens from the one that is looked at on. -/
def ahead (p : Parser) : List Token := p.current :: p.pending

variable {p q : Parser}

theorem advance_of_end (ends : EndsOnce p.ahead) (last : p.current.kind = .endOfInput) :
    p.advance = { p with previous := p.current, requests := p.requests + 1 } := by
  have nothing : p.pending = [] := ends.rest_of_end last
  simp [advance, nothing, pull]

/-- The parser stands somewhere among the tokens. -/
structure Among (tokens : List Token) (p : Parser) : Prop where
  ends : EndsOnce p.ahead
  onward : p.ahead <:+ tokens

theorem among_self (ends : EndsOnce p.ahead) : Among p.ahead p := ⟨ends, List.suffix_rfl⟩

theorem Among.length_lt {tokens : List Token} (among : Among tokens p) :
    p.pending.length < tokens.length :=
  among.onward.length_le

/-- How many tokens the parser will have asked for when it has come to the end. -/
def total (p : Parser) : Nat := p.requests + p.pending.length

theorem advance_of_more (ends : EndsOnce p.ahead) (more : p.current.kind ≠ .endOfInput) :
    Among p.pending p.advance ∧ p.advance.total = p.total := by
  obtain ⟨behind, onward, count⟩ := pull_onward p.pending { p with previous := p.current }
    (ends.rest_of_more more)
  exact ⟨⟨behind, onward⟩, count⟩

/-- Wherever the parser gets to, it goes on among the same tokens. -/
theorem among_preserved (tokens : List Token) : Preserved (Among tokens) where
  advance p among := by
    by_cases last : p.current.kind = .endOfInput
    · rw [advance_of_end among.ends last]
      exact ⟨among.ends, among.onward⟩
    · have behind := (advance_of_more among.ends last).1
      have further := (List.suffix_cons p.current p.pending).trans among.onward
      exact ⟨behind.ends, behind.onward.trans further⟩
  fail _ _ _ _ among := ⟨among.ends, among.onward⟩
  chunk _ _ among := ⟨among.ends, among.onward⟩

theorem ends_preserved : Preserved fun p => EndsOnce p.ahead where
  advance p ends := ((among_preserved p.ahead).advance p (among_self ends)).ends
  fail _ _ _ _ ends := ends
  chunk _ _ ends := ends

theorem supplied_preserved (source : Bytes) : Preserved (Supplied source) where
  advance p supplied := pull_supplied p.pending _ supplied.pending fun _ => supplied.current
  fail _ _ _ _ supplied := ⟨supplied.current, supplied.pending⟩
  chunk _ _ supplied := ⟨supplied.current, supplied.pending⟩

/-! ## Calls and rounds -/

/-- The parts of the parser that call each other. -/
inductive Part
  | operand | operators

def Part.run : Part → Nat → Nat → Parser → Parser
  | operand => Parser.operand
  | operators => Parser.operators

inductive Event
  /-- A call for an operand, with the parser before and after it. -/
  | call (level : Nat) (entry exit : Parser)
  /-- A round that takes another operator, with the parser before it. -/
  | round (level : Nat) (entry : Parser)

/-- A part of the parser comes to an end, having gone through these events. -/
inductive Parses : Part → Nat → Parser → List Event → Parser → Prop
  | unopened {level : Nat} {p : Parser} (starts : Opening.ofKind? p.current.kind = none) :
      Parses .operand level p [.call level p (p.advance.fail p.current .expectExpression)]
        (p.advance.fail p.current .expectExpression)
  | literal {level : Nat} {p q : Parser} {later : List Event}
      (starts : Opening.ofKind? p.current.kind = some .literal)
      (loop : Parses .operators level p.advance.emitLiteral later q) :
      Parses .operand level p (.call level p q :: later) q
  | group {level : Nat} {p inside q : Parser} {inner later : List Event}
      (starts : Opening.ofKind? p.current.kind = some .group)
      (body : Parses .operand termLevel p.advance inner inside)
      (loop : Parses .operators level (inside.expect (.punctuator .rightParen) .expectRightParen)
        later q) :
      Parses .operand level p (.call level p q :: (inner ++ later)) q
  | negation {level : Nat} {p inside q : Parser} {inner later : List Event}
      (starts : Opening.ofKind? p.current.kind = some .negation)
      (body : Parses .operand unaryLevel p.advance inner inside)
      (loop : Parses .operators level (inside.emit .negate p.current.line) later q) :
      Parses .operand level p (.call level p q :: (inner ++ later)) q
  | stop {level : Nat} {p : Parser}
      (stops : ¬ (p.failure = none ∧ level ≤ bindingLevel p.current.kind)) :
      Parses .operators level p [] p
  | round {level : Nat} {p inside q : Parser} {inner later : List Event}
      (fine : p.failure = none) (binds : level ≤ bindingLevel p.current.kind)
      (body : Parses .operand (bindingLevel p.current.kind + 1) p.advance inner inside)
      (loop : Parses .operators level (inside.emitOperator p.current) later q) :
      Parses .operators level p (.round level p :: (inner ++ later)) q

/-! ## What a parse preserves -/

def Event.entry : Event → Parser
  | call _ entry _ => entry
  | round _ entry => entry

section

variable {part : Part} {level : Nat} {trace : List Event}

/-- What the primitive steps preserve holds in the end, and wherever a call or a round starts. -/
theorem Preserved.parses {P : Parser → Prop} (steps : Preserved P)
    (parses : Parses part level p trace q) (holds : P p) :
    P q ∧ ∀ event ∈ trace, P event.entry := by
  induction parses with
  | unopened =>
    exact ⟨steps.fail _ _ _ (.inl (advance_previous _).symm) (steps.advance _ holds),
      List.forall_mem_singleton.mpr holds⟩
  | literal _ _ ih =>
    obtain ⟨final, later⟩ := ih (steps.emitLiteral _ (steps.advance _ holds))
    exact ⟨final, List.forall_mem_cons.mpr ⟨holds, later⟩⟩
  | group _ _ _ ihBody ihLoop =>
    obtain ⟨inside, inner⟩ := ihBody (steps.advance _ holds)
    obtain ⟨final, later⟩ := ihLoop (steps.expect _ _ _ inside)
    exact ⟨final, List.forall_mem_cons.mpr ⟨holds, List.forall_mem_append.mpr ⟨inner, later⟩⟩⟩
  | negation _ _ _ ihBody ihLoop =>
    obtain ⟨inside, inner⟩ := ihBody (steps.advance _ holds)
    obtain ⟨final, later⟩ := ihLoop (steps.chunk _ _ inside)
    exact ⟨final, List.forall_mem_cons.mpr ⟨holds, List.forall_mem_append.mpr ⟨inner, later⟩⟩⟩
  | stop => exact ⟨holds, List.forall_mem_nil _⟩
  | round _ _ _ _ ihBody ihLoop =>
    obtain ⟨inside, inner⟩ := ihBody (steps.advance _ holds)
    obtain ⟨final, later⟩ := ihLoop (steps.emitOperator _ _ inside)
    exact ⟨final, List.forall_mem_cons.mpr ⟨holds, List.forall_mem_append.mpr ⟨inner, later⟩⟩⟩

/-- A call for an operand starts with taking a token. -/
theorem Preserved.parses_operand {P : Parser → Prop} (steps : Preserved P)
    (parses : Parses .operand level p trace q) (taken : P p.advance) : P q := by
  cases parses with
  | unopened => exact steps.fail _ _ _ (.inl (advance_previous _).symm) taken
  | literal _ loop => exact (steps.parses loop (steps.emitLiteral _ taken)).1
  | group _ body loop =>
    exact (steps.parses loop (steps.expect _ _ _ (steps.parses body taken).1)).1
  | negation _ body loop =>
    exact (steps.parses loop (steps.chunk _ _ (steps.parses body taken).1)).1

/-! ## Where calls and rounds start -/

theorem more_of_opening {kind : Kind} {opening : Opening}
    (starts : Opening.ofKind? kind = some opening) : kind ≠ .endOfInput := by
  rintro rfl
  cases starts

theorem bindingLevel_pos_iff (kind : Kind) : 0 < bindingLevel kind ↔ (operation? kind).isSome := by
  cases kind with
  | punctuator p => cases p <;> decide
  | _ => simp [bindingLevel, operation?]

theorem more_of_binds {kind : Kind} (positive : 0 < level) (binds : level ≤ bindingLevel kind) :
    kind ≠ .endOfInput := by
  rintro rfl
  exact absurd (Nat.lt_of_lt_of_le positive binds) (Nat.lt_irrefl 0)

/-- An event of a parse is a call that comes to an end, or a round that starts at an operator, when
nothing has failed. -/
def Event.Genuine : Event → Prop
  | call level entry exit =>
    0 < level ∧ ∃ inner, Parses .operand level entry (.call level entry exit :: inner) exit
  | round level entry =>
    0 < level ∧ entry.failure = none ∧ level ≤ bindingLevel entry.current.kind

theorem Parses.genuine (parses : Parses part level p trace q) (positive : 0 < level) :
    ∀ event ∈ trace, event.Genuine := by
  induction parses with
  | unopened starts => exact List.forall_mem_singleton.mpr ⟨positive, _, .unopened starts⟩
  | literal starts loop ih =>
    exact List.forall_mem_cons.mpr ⟨⟨positive, _, .literal starts loop⟩, ih positive⟩
  | group starts body loop ihBody ihLoop =>
    exact List.forall_mem_cons.mpr ⟨⟨positive, _, .group starts body loop⟩,
      List.forall_mem_append.mpr ⟨ihBody (by decide), ihLoop positive⟩⟩
  | negation starts body loop ihBody ihLoop =>
    exact List.forall_mem_cons.mpr ⟨⟨positive, _, .negation starts body loop⟩,
      List.forall_mem_append.mpr ⟨ihBody (by decide), ihLoop positive⟩⟩
  | stop => exact List.forall_mem_nil _
  | round fine binds _ _ ihBody ihLoop =>
    exact List.forall_mem_cons.mpr ⟨⟨positive, fine, binds⟩,
      List.forall_mem_append.mpr ⟨ihBody (Nat.succ_pos _), ihLoop positive⟩⟩

/-! ## Tokens asked for -/

theorem total_emitLiteral (p : Parser) : p.emitLiteral.total = p.total := by
  unfold emitLiteral
  split
  · rfl
  · split <;> rfl

theorem total_emitOperator (p : Parser) (t : Token) : (p.emitOperator t).total = p.total := by
  unfold emitOperator
  split <;> rfl

theorem total_advance (ends : EndsOnce p.ahead) (more : p.current.kind ≠ .endOfInput) :
    p.advance.total = p.total :=
  (advance_of_more ends more).2

theorem total_expect (ends : EndsOnce p.ahead) {kind : Kind} (more : kind ≠ .endOfInput)
    (fault : SyntaxFault) : (p.expect kind fault).total = p.total := by
  unfold expect
  split
  next same => exact total_advance ends (same ▸ more)
  · rfl

def Event.startsAtEnd : Event → Bool
  | call _ entry _ => entry.current.isEnd
  | round _ _ => false

def callsAtEnd (trace : List Event) : Nat := trace.countP Event.startsAtEnd

theorem callsAtEnd_call (level : Nat) (entry exit : Parser) (later : List Event)
    (more : entry.current.kind ≠ .endOfInput) :
    callsAtEnd (.call level entry exit :: later) = callsAtEnd later := by
  simp [callsAtEnd, Event.startsAtEnd, Token.isEnd, more]

theorem callsAtEnd_last (level : Nat) (entry exit : Parser)
    (last : entry.current.kind = .endOfInput) : callsAtEnd [.call level entry exit] = 1 := by
  simp [callsAtEnd, Event.startsAtEnd, Token.isEnd, last]

theorem callsAtEnd_round (level : Nat) (entry : Parser) (later : List Event) :
    callsAtEnd (.round level entry :: later) = callsAtEnd later := by
  simp [callsAtEnd, Event.startsAtEnd]

theorem callsAtEnd_append (first later : List Event) :
    callsAtEnd (first ++ later) = callsAtEnd first + callsAtEnd later :=
  List.countP_append ..

/-- A token is asked for beyond the end for each call that finds the end, and for nothing else. -/
theorem Parses.total_eq (parses : Parses part level p trace q) (positive : 0 < level)
    (ends : EndsOnce p.ahead) : q.total = p.total + callsAtEnd trace := by
  induction parses with
  | @unopened level p starts =>
    -- The end starts no operand, so this is the only case that can find it.
    by_cases last : p.current.kind = .endOfInput
    · rw [advance_of_end ends last, callsAtEnd_last _ _ _ last]
      exact Nat.succ_add p.requests p.pending.length
    · rw [callsAtEnd_call _ _ _ _ last]
      exact total_advance ends last
  | @literal level p q later starts loop ih =>
    have more := more_of_opening starts
    have taken := ends_preserved.advance _ ends
    rw [callsAtEnd_call _ _ _ _ more, ih positive (ends_preserved.emitLiteral _ taken),
      total_emitLiteral, total_advance ends more]
  | @group level p inside q inner later starts body loop ihBody ihLoop =>
    have more := more_of_opening starts
    have taken := ends_preserved.advance _ ends
    have behind := (ends_preserved.parses body taken).1
    rw [callsAtEnd_call _ _ _ _ more, callsAtEnd_append,
      ihLoop positive (ends_preserved.expect _ _ _ behind), total_expect behind (by decide),
      ihBody (by decide) taken, total_advance ends more, Nat.add_assoc]
  | @negation level p inside q inner later starts body loop ihBody ihLoop =>
    have more := more_of_opening starts
    have taken := ends_preserved.advance _ ends
    have behind := (ends_preserved.parses body taken).1
    rw [callsAtEnd_call _ _ _ _ more, callsAtEnd_append,
      ihLoop positive (ends_preserved.chunk _ _ behind)]
    show inside.total + _ = _
    rw [ihBody (by decide) taken, total_advance ends more, Nat.add_assoc]
  | stop => rfl
  | @round level p inside q inner later fine binds body loop ihBody ihLoop =>
    have more := more_of_binds positive binds
    have taken := ends_preserved.advance _ ends
    have behind := (ends_preserved.parses body taken).1
    rw [callsAtEnd_round, callsAtEnd_append,
      ihLoop positive (ends_preserved.emitOperator _ _ behind), total_emitOperator,
      ihBody (Nat.succ_pos _) taken, total_advance ends more, Nat.add_assoc]

/-! ## The one call at the end -/

theorem fail_failed (p : Parser) (t : Token) (fault : SyntaxFault) :
    (p.fail t fault).failure ≠ none := by
  simp [fail]

theorem failed_preserved : Preserved fun p => p.failure ≠ none where
  advance p failed := by
    obtain ⟨e, some⟩ := Option.ne_none_iff_exists'.mp failed
    simp [(failure_preserved e).advance p some]
  fail p t fault _ _ := fail_failed p t fault
  chunk _ _ failed := failed

/-- After a failure no operator is looked for. -/
theorem Parses.idle (parses : Parses .operators level p trace q) (failed : p.failure ≠ none) :
    trace = [] := by
  cases parses with
  | stop => rfl
  | round fine => exact absurd fine failed

theorem callsAtEnd_join {inner later : List Event} {inside next final : Parser}
    (first : callsAtEnd inner ≤ 1 ∧ (0 < callsAtEnd inner → inside.failure ≠ none))
    (keeps : inside.failure ≠ none → next.failure ≠ none)
    (loop : Parses .operators level next later final)
    (second : callsAtEnd later ≤ 1 ∧ (0 < callsAtEnd later → final.failure ≠ none)) :
    callsAtEnd (inner ++ later) ≤ 1 ∧ (0 < callsAtEnd (inner ++ later) → final.failure ≠ none) := by
  rw [callsAtEnd_append]
  rcases Nat.eq_zero_or_pos (callsAtEnd inner) with none | some
  · rw [none, Nat.zero_add]
    exact second
  · -- The first part has failed, so nothing happens in the second.
    have failed := keeps (first.2 some)
    rw [loop.idle failed]
    exact ⟨first.1, fun _ => (failed_preserved.parses loop failed).1⟩

/-- A call that finds the end fails, and everything returns. -/
theorem Parses.callsAtEnd_le (parses : Parses part level p trace q) :
    callsAtEnd trace ≤ 1 ∧ (0 < callsAtEnd trace → q.failure ≠ none) := by
  induction parses with
  | unopened => exact ⟨List.countP_le_length, fun _ => fail_failed _ _ _⟩
  | literal starts _ ih =>
    rw [callsAtEnd_call _ _ _ _ (more_of_opening starts)]
    exact ih
  | group starts _ loop ihBody ihLoop =>
    rw [callsAtEnd_call _ _ _ _ (more_of_opening starts)]
    exact callsAtEnd_join ihBody (failed_preserved.expect _ _ _) loop ihLoop
  | negation starts _ loop ihBody ihLoop =>
    rw [callsAtEnd_call _ _ _ _ (more_of_opening starts)]
    refine callsAtEnd_join ihBody ?_ loop ihLoop
    exact fun failed => failed
  | stop => exact ⟨Nat.zero_le _, fun some => absurd some (Nat.lt_irrefl 0)⟩
  | round _ _ _ loop ihBody ihLoop =>
    rw [callsAtEnd_round]
    exact callsAtEnd_join ihBody (failed_preserved.emitOperator _ _) loop ihLoop

/-! ## Coming to an end -/

/-- With more fuel than tokens to come, the parser comes to an end by itself. -/
theorem parses_run (fuel : Nat) : ∀ (part : Part) (level : Nat) (p : Parser), 0 < level →
    EndsOnce p.ahead → p.pending.length < fuel →
    ∃ trace, Parses part level p trace (part.run fuel level p) := by
  induction fuel with
  | zero => exact fun _ _ _ _ _ enough => absurd enough (Nat.not_lt_zero _)
  | succ fuel ih =>
    intro part level p positive ends enough
    -- Whatever is called has one token fewer to come.
    have steps := among_preserved p.pending
    have onto (part : Part) (level : Nat) (q : Parser) (positive : 0 < level)
        (among : Among p.pending q) := ih part level q positive among.ends
      (Nat.lt_of_lt_of_le among.length_lt (Nat.le_of_lt_succ enough))
    cases part with
    | operand =>
      simp only [Part.run, operand_succ]
      cases starts : Opening.ofKind? p.current.kind with
      | none => exact ⟨_, .unopened starts⟩
      | some opening =>
        have taken := (advance_of_more ends (more_of_opening starts)).1
        cases opening with
        | literal =>
          obtain ⟨_, loop⟩ := onto .operators level _ positive (steps.emitLiteral _ taken)
          exact ⟨_, .literal starts loop⟩
        | group =>
          obtain ⟨_, body⟩ := onto .operand termLevel _ (by decide) taken
          obtain ⟨_, loop⟩ := onto .operators level _ positive
            (steps.expect _ (.punctuator .rightParen) .expectRightParen (steps.parses body taken).1)
          exact ⟨_, .group starts body loop⟩
        | negation =>
          obtain ⟨_, body⟩ := onto .operand unaryLevel _ (by decide) taken
          obtain ⟨_, loop⟩ := onto .operators level _ positive
            (steps.chunk _ _ (steps.parses body taken).1)
          exact ⟨_, .negation starts body loop⟩
    | operators =>
      simp only [Part.run, Parser.operators]
      split
      next enters =>
        obtain ⟨fine, binds⟩ : p.failure = none ∧ level ≤ bindingLevel p.current.kind := by
          simpa using enters
        have taken := (advance_of_more ends (more_of_binds positive binds)).1
        simp only [advance_previous]
        obtain ⟨_, body⟩ := onto .operand _ _ (Nat.succ_pos _) taken
        obtain ⟨_, loop⟩ := onto .operators level _ positive
          (steps.emitOperator _ p.current (steps.parses body taken).1)
        exact ⟨_, .round fine binds body loop⟩
      next leaves =>
        exact ⟨_, .stop (by simpa using leaves)⟩

/-- Where the parser comes to, and on which way, is determined. -/
theorem Parses.unique {other : List Event} {r : Parser} (parses : Parses part level p trace q)
    (second : Parses part level p other r) : other = trace ∧ r = q := by
  -- The token that is looked at decides which rule applies.
  induction parses generalizing other r with
  | unopened starts =>
    cases second with
    | unopened => exact ⟨rfl, rfl⟩
    | literal opens | group opens | negation opens => cases starts.symm.trans opens
  | literal starts _ ih =>
    cases second with
    | literal _ loop =>
      obtain ⟨rfl, rfl⟩ := ih loop
      exact ⟨rfl, rfl⟩
    | unopened opens | group opens | negation opens => cases starts.symm.trans opens
  | group starts _ _ ihBody ihLoop =>
    cases second with
    | group _ body loop =>
      obtain ⟨rfl, rfl⟩ := ihBody body
      obtain ⟨rfl, rfl⟩ := ihLoop loop
      exact ⟨rfl, rfl⟩
    | unopened opens | literal opens | negation opens => cases starts.symm.trans opens
  | negation starts _ _ ihBody ihLoop =>
    cases second with
    | negation _ body loop =>
      obtain ⟨rfl, rfl⟩ := ihBody body
      obtain ⟨rfl, rfl⟩ := ihLoop loop
      exact ⟨rfl, rfl⟩
    | unopened opens | literal opens | group opens => cases starts.symm.trans opens
  | stop stops =>
    cases second with
    | stop => exact ⟨rfl, rfl⟩
    | round fine binds => exact absurd ⟨fine, binds⟩ stops
  | round fine binds _ _ ihBody ihLoop =>
    cases second with
    | stop stops => exact absurd ⟨fine, binds⟩ stops
    | round _ _ body loop =>
      obtain ⟨rfl, rfl⟩ := ihBody body
      obtain ⟨rfl, rfl⟩ := ihLoop loop
      exact ⟨rfl, rfl⟩

/-! ## Tokens taken -/

/-- The tokens that can still be taken. The end is none of them, as it never runs out. -/
def untaken (p : Parser) : List Token := p.ahead.filter (!·.isEnd)

/-- A call that finds another token than the end takes it. -/
theorem Parses.consumes (parses : Parses .operand level p trace q) (ends : EndsOnce p.ahead)
    (more : p.current.kind ≠ .endOfInput) :
    ∃ later, p.untaken = p.current :: later ∧ q.untaken <:+ later := by
  have taken := (advance_of_more ends more).1
  have behind := (among_preserved p.pending).parses_operand parses taken
  refine ⟨p.pending.filter (!·.isEnd), ?_, behind.onward.filter _⟩
  exact List.filter_cons_of_pos (by simpa [Token.isEnd] using more)

/-- A call that finds the end asks for one more token, which is the end as well, and fails. -/
theorem Parses.stuck (parses : Parses .operand level p trace q) (ends : EndsOnce p.ahead)
    (last : p.current.kind = .endOfInput) :
    q = { p with
      previous := p.current
      requests := p.requests + 1
      failure := p.failure <|> some (.ofToken p.current .expectExpression) } := by
  cases parses with
  | unopened => rw [advance_of_end ends last, fail]
  | literal starts | group starts | negation starts => exact absurd last (more_of_opening starts)

/-- With enough fuel the function that runs comes to where the recursion ends. -/
theorem Parses.run_eq (parses : Parses part level p trace q) (positive : 0 < level)
    (ends : EndsOnce p.ahead) {fuel : Nat} (enough : p.ahead.length ≤ fuel) :
    part.run fuel level p = q := by
  obtain ⟨_, ran⟩ := parses_run fuel part level p positive ends enough
  exact (parses.unique ran).2

end

/-! ## Whole sources -/

/-- What can be relied on at an event. A call takes a token other than the end, or it finds the end
and returns at once. A round is entered when nothing has failed, and its token has an operation. -/
def Event.Sound : Event → Prop
  | call level entry exit =>
    (∀ fuel, entry.ahead.length ≤ fuel → operand fuel level entry = exit) ∧
    if entry.current.kind = .endOfInput then
      ∃ e : SyntaxError, e.fault.message = text "Expect expression." ∧
        exit = { entry with
          previous := entry.current
          requests := entry.requests + 1
          failure := entry.failure <|> some e }
    else ∃ later, entry.untaken = entry.current :: later ∧ exit.untaken <:+ later
  | round level entry =>
    entry.failure = none ∧ level ≤ bindingLevel entry.current.kind ∧
      (operation? entry.current.kind).isSome

theorem Event.Genuine.sound {event : Event} (genuine : event.Genuine)
    (ends : EndsOnce event.entry.ahead) : event.Sound := by
  cases event with
  | call level entry exit =>
    obtain ⟨positive, inner, parses⟩ := genuine
    refine ⟨fun fuel enough => parses.run_eq positive ends enough, ?_⟩
    split
    next last => exact ⟨_, rfl, parses.stuck ends last⟩
    next more => exact parses.consumes ends more
  | round level entry =>
    obtain ⟨positive, fine, binds⟩ := genuine
    exact ⟨fine, binds, (bindingLevel_pos_iff _).mp (Nat.lt_of_lt_of_le positive binds)⟩

theorem start_supplied (source : Bytes) :
    let entry := (start (tokenize source)).advance
    Supplied source entry ∧ Among (tokenize source) entry ∧
      entry.total = (tokenize source).length := by
  obtain ⟨body, ending, shape, kind, others⟩ := tokenize_shape source
  have first : Supplied source (start (tokenize source)).advance :=
    pull_supplied (tokenize source) _ rfl (by simp [shape])
  obtain ⟨ends, onward, count⟩ := pull_onward (tokenize source)
    { start (tokenize source) with previous := noToken } ⟨body, ending, shape, kind, others⟩
  exact ⟨first, ⟨ends, onward⟩, count.trans (Nat.zero_add _)⟩

/-- Taking the end costs a token more. -/
theorem requests_expect_end (ends : EndsOnce p.ahead) (fault : SyntaxFault) :
    (p.expect .endOfInput fault).requests ≤ p.total + 1 := by
  unfold expect
  split
  next last =>
    rw [advance_of_end ends last]
    exact Nat.succ_le_succ (Nat.le_add_right _ _)
  next => exact Nat.le_succ_of_le (Nat.le_add_right _ _)

/-- On every source the recursion of the parser ends, in one way only, and the fuel of the functions
that run is always enough. They ask the scanner for at most two tokens more than the source has: one
for the only call that may find the end, and one for taking the end. -/
theorem calls_end_within_tokens (source : Bytes) :
    let tokens := tokenize source
    let entry := (start tokens).advance
    ∃ trace,
      (∀ other q, Parses .operand termLevel entry other q ↔
        other = trace ∧ q = afterExpression tokens) ∧
      (∀ fuel, tokens.length ≤ fuel → operand fuel termLevel entry = afterExpression tokens) ∧
      Supplied source (run tokens) ∧ (run tokens).requests ≤ tokens.length + 2 ∧
      callsAtEnd trace ≤ 1 ∧ (∀ event ∈ trace, Supplied source event.entry ∧ event.Sound) ∧
      ∀ kind, 0 < bindingLevel kind ↔ (operation? kind).isSome := by
  intro tokens entry
  obtain ⟨supplied, among, count⟩ := start_supplied source
  have ends := among.ends
  have length : entry.ahead.length ≤ tokens.length := among.onward.length_le
  have enough : entry.pending.length < 2 * tokens.length + 2 := Nat.lt_of_succ_le (by
    calc entry.ahead.length
      _ ≤ tokens.length := length
      _ ≤ 2 * tokens.length + 2 := by omega)
  obtain ⟨trace, parses⟩ : ∃ trace,
      Parses .operand termLevel entry trace (afterExpression tokens) :=
    parses_run _ .operand termLevel entry (by decide) ends enough
  have atEnd := parses.callsAtEnd_le.1
  have passed := parses.total_eq (by decide) ends
  obtain ⟨provided, provisions⟩ := (supplied_preserved source).parses parses supplied
  obtain ⟨behind, streams⟩ := ends_preserved.parses parses ends
  have genuine := parses.genuine (by decide)
  refine ⟨trace, fun other q => ⟨parses.unique, ?_⟩, fun fuel enough => ?_, ?_, ?_, atEnd, ?_,
    bindingLevel_pos_iff⟩
  · rintro ⟨rfl, rfl⟩
    exact parses
  · exact parses.run_eq (by decide) ends (Nat.le_trans length enough)
  · -- The return that is written last asks for nothing.
    exact (supplied_preserved source).chunk _ _
      ((supplied_preserved source).expect _ .endOfInput .expectEnd provided)
  · calc (run tokens).requests
      _ ≤ (afterExpression tokens).total + 1 := requests_expect_end behind .expectEnd
      _ = tokens.length + callsAtEnd trace + 1 := by rw [passed, count]
      _ ≤ tokens.length + 2 := by omega
  · intro event member
    exact ⟨provisions event member, (genuine event member).sound (streams event member)⟩

/-- The bound is met where there is nothing but the end. -/
example : (tokenize []).length = 1 ∧ (run (tokenize [])).requests = 3 := by decide +kernel

end Parser

end Abacus
