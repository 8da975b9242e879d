import Abacus.Proofs.Descent
import Abacus.Proofs.Emission
import Abacus.Proofs.ParserRuns

/-!
# The parser follows recursive descent

The parser does what recursive descent does on the tokens that are no errors: it writes the code of
the tree that descent builds, or fails at the token where descent stops. It looks at one token more
than it takes, and an error that it passes on the way to that one comes first: all statements about
the parser are made barring such an error (`Barring`).

The two are laid out differently. Descent finishes a product before it looks for a sum, with one
loop for each layer; the parser has one loop, which takes every operator that binds at least as
tightly as the level it was started with. So the statement about a layer is made for every level
that is no tighter, and says that parsing arrives in that loop where descent has read the phrase
(`Arrives`).
-/
namespace Abacus.Parser

open Grammar

/-! ## Levels and layers -/

def levelOf : Layer → Nat
  | .sum => termLevel
  | .product => factorLevel
  | .unary => unaryLevel

theorem bindingLevel_of_operator? {layer : Layer} {kind : Kind} {operator : Operator}
    (joins : layer.operator? kind = some operator) :
    bindingLevel kind = levelOf layer ∧ operation? kind = some operator.opcode ∧
      layer ≠ .unary := by
  rcases Layer.operator?_cases joins with
    ⟨rfl, rfl, rfl⟩ | ⟨rfl, rfl, rfl⟩ | ⟨rfl, rfl, rfl⟩ | ⟨rfl, rfl, rfl⟩ <;> decide

theorem bindingLevel_ne_of_stopped {layer : Layer} {kind : Kind}
    (stopped : layer.operator? kind = none) : bindingLevel kind ≠ levelOf layer := by
  cases kind with
  | punctuator p =>
    cases layer <;> cases p <;>
      simp_all [Layer.operator?, bindingLevel, levelOf, termLevel, factorLevel, unaryLevel]
  | _ => cases layer <;> simp [bindingLevel, levelOf, termLevel, factorLevel, unaryLevel]

theorem levelOf_loose (layer : Layer) (loose : layer ≠ .unary) :
    levelOf layer.tighter = levelOf layer + 1 := by
  cases layer with
  | unary => exact absurd rfl loose
  | sum => rfl
  | product => rfl

/-! ## Errors on the way -/

def sound (tokens : List Token) : List Token := tokens.filter (!·.isError)

/-- The first error among the tokens, if more than `unseen` sound ones follow it. -/
def errorBefore (unseen : Nat) (tokens : List Token) : Option Token :=
  match tokens.dropWhile (!·.isError) with
  | [] => none
  | t :: rest => if unseen < (sound rest).length then some t else none

theorem sound_of_clean {tokens : List Token} (clean : ∀ t ∈ tokens, t.isError = false) :
    sound tokens = tokens := by
  apply List.filter_eq_self.mpr
  intro t member
  rw [clean t member, Bool.not_false]

theorem length_sound_split (front back : List Token) {um : Token} (fine : um.isError = false) :
    (sound (front ++ um :: back)).length = (sound front).length + (sound back).length + 1 := by
  simp [sound, fine, Nat.add_assoc]

theorem errorBefore_append (unseen : Nat) {before : List Token} (after : List Token)
    (clean : ∀ t ∈ before, t.isError = false) :
    errorBefore unseen (before ++ after) = errorBefore unseen after := by
  rw [errorBefore, List.dropWhile_append_of_pos, errorBefore]
  intro t member
  rw [clean t member, Bool.not_false]

theorem errorBefore_error (unseen : Nat) {t : Token} (rest : List Token)
    (error : t.isError = true) :
    errorBefore unseen (t :: rest) = if unseen < (sound rest).length then some t else none := by
  rw [errorBefore, List.dropWhile_cons_of_neg (by simp [error])]

theorem errorBefore_eq_none {unseen : Nat} {tokens : List Token}
    (few : (sound tokens).length ≤ unseen) : errorBefore unseen tokens = none := by
  rw [errorBefore]
  split
  · rfl
  next t rest shape =>
    -- What follows the error is among what follows from the start.
    have later : rest <:+ tokens := by
      have dropped := List.dropWhile_suffix (!·.isError) (l := tokens)
      rw [shape] at dropped
      exact (List.suffix_cons t rest).trans dropped
    have fewer := (later.sublist.filter (!·.isError)).length_le
    rw [if_neg]
    simp only [sound] at few ⊢
    omega

theorem errorBefore_mono {fewer unseen : Nat} {tokens : List Token} {t : Token}
    (le : fewer ≤ unseen) (found : errorBefore unseen tokens = some t) :
    errorBefore fewer tokens = some t := by
  rw [errorBefore] at found ⊢
  split at found
  · cases found
  · split at found
    next more =>
      rw [if_pos (Nat.lt_of_le_of_lt le more)]
      exact found
    · cases found

/-- Before a sound token stand the errors that have more sound ones behind them than it has. -/
theorem errorBefore_eq_find? (front back : List Token) {um : Token} (fine : um.isError = false) :
    errorBefore (sound back).length (front ++ um :: back) = front.find? Token.isError := by
  induction front with
  | nil =>
    rw [List.nil_append, ← List.singleton_append, errorBefore_append _ _ (by simpa using fine)]
    exact errorBefore_eq_none (Nat.le_refl _)
  | cons t front ih =>
    cases error : t.isError with
    | true =>
      rw [List.cons_append, errorBefore_error _ _ error, List.find?_cons_of_pos error, if_pos]
      have count := length_sound_split front back fine
      omega
    | false =>
      rw [List.find?_cons_of_neg (by simp [error]), ← ih, List.cons_append,
        ← List.singleton_append, errorBefore_append _ _ (by simpa using error)]

/-- The parser has recorded the error that it meets before it has seen all but `unseen` of the sound
tokens; if there is none, the property holds. -/
def Barring (all : List Token) (unseen : Nat) (p : Parser) (P : Prop) : Prop :=
  match errorBefore unseen all with
  | some t => p.failure = some (.ofToken t (.lexical t.lexeme))
  | none => P

namespace Barring

variable {all : List Token} {unseen : Nat} {p q : Parser} {P Q : Prop}

theorem of_none (none : errorBefore unseen all = none) (holds : P) : Barring all unseen p P := by
  rw [Barring, none]
  exact holds

theorem of_clean (barring : Barring all unseen p P) (clean : ∀ t ∈ all, t.isError = false) : P := by
  have none : errorBefore unseen all = none := by
    rw [← List.append_nil all, errorBefore_append unseen [] clean]
    rfl
  rw [Barring, none] at barring
  exact barring

/-- A parser that has recorded nothing has met no error. -/
theorem of_fine (barring : Barring all unseen p P) (fine : p.failure = none) :
    errorBefore unseen all = none ∧ P := by
  rw [Barring] at barring
  cases met : errorBefore unseen all with
  | none =>
    rw [met] at barring
    exact ⟨rfl, barring⟩
  | some t =>
    rw [met, fine] at barring
    cases barring

/-- More is seen later, and what has been recorded stays. -/
theorem next (barring : Barring all unseen p P) {fewer : Nat} (le : fewer ≤ unseen)
    (keeps : ∀ e, p.failure = some e → q.failure = some e) (rest : P → Barring all fewer q Q) :
    Barring all fewer q Q := by
  rw [Barring] at barring
  cases met : errorBefore unseen all with
  | none =>
    rw [met] at barring
    exact rest barring
  | some t =>
    rw [met] at barring
    rw [Barring, errorBefore_mono le met]
    exact keeps _ barring

theorem map (barring : Barring all unseen p P)
    (keeps : ∀ e, p.failure = some e → q.failure = some e) (rest : P → Q) :
    Barring all unseen q Q := by
  rw [Barring] at barring ⊢
  cases met : errorBefore unseen all with
  | none =>
    rw [met] at barring
    exact rest barring
  | some t =>
    rw [met] at barring
    exact keeps _ barring

end Barring

/-! ## Where the parser stands -/

/-- Tokens as scanning gives them. -/
structure Scanned (all : List Token) : Prop where
  shape : ∃ body ending, all = body ++ [ending] ∧ ending.kind = .endOfInput ∧
    ∀ t ∈ body, t.kind ≠ .endOfInput
  numerals : ∀ t ∈ all, t.kind = .number → Decimal.isNumeral t.lexeme = true

/-- The parser has met no error and looks at the first of these tokens, which are the sound ones from
there on. They end with the end, and the pool has room for this many constants. -/
structure At (all tokens : List Token) (room : Nat) (p : Parser) : Prop where
  stream : p.current :: sound p.pending = tokens
  passed : ∃ before, all = before ++ p.pending ∧ (∀ t ∈ before, t.isError = false) ∧
    p.current ∈ before
  ends : ∃ t ∈ tokens.getLast?, t.kind = .endOfInput
  sound : p.failure = none
  room_eq : p.chunk.constants.size + room = Chunk.maxConstants

/-- Asking for tokens touches neither the token taken last nor the code. -/
theorem pull_frame (pending : List Token) (p : Parser) :
    (pull pending p).previous = p.previous ∧ (pull pending p).chunk = p.chunk := by
  induction pending generalizing p with
  | nil => exact ⟨rfl, rfl⟩
  | cons t rest ih =>
    simp only [pull]
    split
    · exact ih _
    · exact ⟨rfl, rfl⟩

@[simp] theorem advance_previous (p : Parser) : p.advance.previous = p.current :=
  (pull_frame _ _).1

@[simp] theorem advance_chunk (p : Parser) : p.advance.chunk = p.chunk :=
  (pull_frame _ _).2

/-- Asking for tokens leads to the next sound one, barring an error before it. -/
theorem pull_barring {all before pending rest : List Token} {u : Token} (p : Parser)
    (split : all = before ++ pending) (clean : ∀ t ∈ before, t.isError = false)
    (more : sound pending = u :: rest) (fine : p.failure = none) :
    Barring all rest.length (pull pending p)
      ((pull pending p).current :: sound (pull pending p).pending = u :: rest ∧
        (∃ before, all = before ++ (pull pending p).pending ∧ (∀ t ∈ before, t.isError = false) ∧
          (pull pending p).current ∈ before) ∧
        (pull pending p).failure = none) := by
  cases pending with
  | nil => cases more
  | cons t later =>
    rw [Barring, split, errorBefore_append _ _ clean]
    cases error : t.isError with
    | true =>
      -- The error is recorded, and whatever is asked for after it the record stays.
      have after : sound later = u :: rest := by simpa [sound, error] using more
      rw [errorBefore_error _ _ error, after, if_pos (by simp)]
      simp only [pull, error, if_true]
      apply pull_failure
      simp [fail, fine]
    | false =>
      obtain ⟨rfl, after⟩ : t = u ∧ sound later = rest := by simpa [sound, error] using more
      have none : errorBefore rest.length (t :: later) = none := by
        rw [← List.singleton_append, errorBefore_append _ _ (by simpa using error)]
        exact errorBefore_eq_none (Nat.le_of_eq (congrArg List.length after))
      rw [none]
      simp only [pull, error, Bool.false_eq_true, if_false]
      refine ⟨by rw [after], ⟨before ++ [t], by simp, ?_, by simp⟩, fine⟩
      intro v member
      rcases List.mem_append.mp member with old | new
      · exact clean v old
      · rw [List.mem_singleton.mp new]
        exact error

namespace At

variable {all tokens : List Token} {room : Nat} {p : Parser}

/-- All sound tokens but those behind the current one have been seen. -/
theorem barring (stands : At all tokens room p) (q : Parser) {P : Prop} (holds : P) :
    Barring all (tokens.length - 1) q P := by
  obtain ⟨before, split, clean, -⟩ := stands.passed
  apply Barring.of_none _ holds
  rw [split, errorBefore_append _ _ clean]
  apply errorBefore_eq_none
  simp [← stands.stream]

/-- Taking a token that is not the last leads to the one after it. -/
theorem advance {t : Token} {rest : List Token} (stands : At all (t :: rest) room p)
    (more : t.kind ≠ .endOfInput) :
    Barring all (rest.length - 1) p.advance (At all rest room p.advance) := by
  obtain ⟨stream, ⟨before, split, clean, -⟩, ends, fine, room_eq⟩ := stands
  obtain ⟨rfl, pending⟩ := List.cons.inj stream
  cases rest with
  | nil => simp [more] at ends
  | cons u rest =>
    have pulled := pull_barring { p with previous := p.current } split clean pending fine
    refine pulled.map (fun _ failed => failed) ?_
    rintro ⟨stream, passed, fine⟩
    exact ⟨stream, passed, by simpa using ends, fine, by rw [advance_chunk]; exact room_eq⟩

/-- Barring errors among the tokens, taking one records none. -/
theorem advance_fine (scanned : Scanned all) {t : Token} {rest : List Token}
    (stands : At all (t :: rest) room p) :
    Barring all (rest.length - 1) p.advance (p.advance.failure = none) := by
  obtain ⟨stream, ⟨before, split, clean, current⟩, ends, fine, -⟩ := stands
  obtain ⟨rfl, pending⟩ := List.cons.inj stream
  cases rest with
  | nil =>
    -- Nothing is left to ask for, because the tokens end with a sound one.
    obtain ⟨body, ending, shape, kind, -⟩ := scanned.shape
    have nothing : p.pending = [] := by
      rcases List.eq_nil_or_concat p.pending with nothing | ⟨others, last, more⟩
      · exact nothing
      · rw [more, List.concat_eq_append, ← List.append_assoc, shape] at split
        obtain ⟨-, same⟩ := List.append_inj' split rfl
        obtain rfl := (List.cons.inj same).1
        rw [more] at pending
        simp [Parser.sound, Token.isError, kind] at pending
    apply Barring.of_none
    · rw [split, errorBefore_append _ _ clean, nothing]
      rfl
    · simp [Parser.advance, nothing, pull, fine]
  | cons u rest =>
    have pulled := pull_barring { p with previous := p.current } split clean pending fine
    exact pulled.map (fun _ failed => failed) fun moved => moved.2.2

theorem fail (stands : At all tokens room p) (t : Token) (fault : SyntaxFault) :
    (p.fail t fault).failure = some (.ofToken t fault) := by
  simp [Parser.fail, stands.sound]

theorem write (stands : At all tokens room p) (i : Instruction) (line : Int) :
    At all tokens room { p with chunk := p.chunk.write i line } :=
  ⟨stands.stream, stands.passed, stands.ends, stands.sound, stands.room_eq⟩

theorem numeral (scanned : Scanned all) (stands : At all tokens room p)
    (number : p.current.kind = .number) : Decimal.isNumeral p.current.lexeme = true := by
  obtain ⟨before, split, -, current⟩ := stands.passed
  exact scanned.numerals p.current (by rw [split]; simp [current]) number

end At

theorem operators_stopped (fuel least : Nat) (p : Parser)
    (stopped : bindingLevel p.current.kind < least) : operators fuel least p = p := by
  cases fuel with
  | zero => rfl
  | succ fuel => simp [operators, Nat.not_le.mpr stopped]

theorem operators_succ (fuel least : Nat) (p : Parser) (op : Opcode) (sound : p.failure = none)
    (binds : least ≤ bindingLevel p.current.kind) (operation : operation? p.current.kind = some op) :
    operators (fuel + 1) least p =
      operators fuel least
        ((operand fuel (bindingLevel p.current.kind + 1) p.advance).emit op p.current.line) := by
  simp [operators, sound, binds, emitOperator, operation]

/-- How many tokens stand behind those seen when the parser stops here. A token that starts no
operand, or that there is no room for, has been taken and one more is looked at; otherwise the token
to blame is the one that is looked at. -/
def unseenAt (o : Obstacle) : Nat :=
  match o.fault with
  | .expectExpression | .tooManyConstants => o.left.length - 2
  | _ => o.left.length - 1

def unseen : Except Obstacle Reading → Nat
  | .ok reading => reading.rest.length - 1
  | .error obstacle => unseenAt obstacle

theorem unseenAt_le (o : Obstacle) : unseenAt o ≤ o.left.length - 1 := by
  rw [unseenAt]
  split <;> omega

theorem unseenAt_le_of_justified {o : Obstacle} {room : Nat} {Complete : List Token → Prop}
    {tokens : List Token} (justified : o.Justified room Complete tokens) :
    unseenAt o ≤ tokens.length - 1 := by
  obtain ⟨used, rfl, -⟩ := justified
  have bound := unseenAt_le o
  rw [List.length_append]
  omega

theorem unseen_phrase_le {fuel room : Nat} {layer : Layer} {tokens : List Token}
    (enough : 3 * tokens.length + layer.calls ≤ fuel) :
    unseen (phrase fuel layer room tokens) ≤ tokens.length - 1 := by
  cases read : phrase fuel layer room tokens with
  | error o => exact unseenAt_le_of_justified (phrase_justified enough read)
  | ok reading => exact Nat.sub_le_sub_right (phrase_rest_le read) 1

theorem unseen_continued_le {fuel : Nat} {layer : Layer} {left : Reading}
    (enough : 3 * left.rest.length ≤ fuel) :
    unseen (continued fuel layer left) ≤ left.rest.length - 1 := by
  cases read : continued fuel layer left with
  | error o => exact unseenAt_le_of_justified (continued_justified enough read)
  | ok reading => exact Nat.sub_le_sub_right (continued_rest_le read) 1

theorem unseen_expect_le (kind : Kind) (fault : SyntaxFault) (reading : Reading) :
    unseen (reading.expect kind fault) ≤ reading.rest.length - 1 := by
  cases taken : reading.expect kind fault with
  | ok after =>
    obtain ⟨t, rest, shape, -, rfl⟩ := Reading.expect_eq_ok taken
    rw [shape]
    exact Nat.sub_le _ _
  | error o =>
    obtain ⟨rfl, -⟩ := Reading.expect_eq_error taken
    exact unseenAt_le _

/-- Where a parser is when descent has come to an outcome: in the loop of the given level, behind
the phrase and with its code written, or at the failure. -/
def Arrived (all : List Token) (layer : Layer) (least : Nat) (origin : Chunk) (p : Parser) :
    Except Obstacle Reading → Prop
  | .ok reading =>
    ∃ fuel q, p = operators fuel least q ∧ reading.rest.length ≤ fuel ∧
      At all reading.rest reading.room q ∧ q.chunk = reading.tree.emit origin ∧
      bindingLevel q.current.kind < levelOf layer
  | .error obstacle =>
    ∃ t rest, obstacle.left = t :: rest ∧ p.failure = some (.ofToken t obstacle.fault)

def Arrives (all : List Token) (layer : Layer) (least : Nat) (origin : Chunk) (p : Parser)
    (outcome : Except Obstacle Reading) : Prop :=
  Barring all (unseen outcome) p (Arrived all layer least origin p outcome)

/-- At the layer's own level nothing is left to do in the loop. -/
theorem Arrived.exact {all : List Token} {layer : Layer} {origin : Chunk} {p : Parser}
    {reading : Reading} (arrived : Arrived all layer (levelOf layer) origin p (.ok reading)) :
    At all reading.rest reading.room p ∧ p.chunk = reading.tree.emit origin ∧
      bindingLevel p.current.kind < levelOf layer := by
  obtain ⟨fuel, q, rfl, -, stands, written, stopped⟩ := arrived
  rw [operators_stopped fuel _ q stopped]
  exact ⟨stands, written, stopped⟩

/-- What an operand starts with decides how it is parsed. -/
theorem operand_succ (fuel least : Nat) (p : Parser) :
    operand (fuel + 1) least p =
      match Opening.ofKind? p.current.kind with
      | none => p.advance.fail p.current .expectExpression
      | some .literal => operators fuel least p.advance.emitLiteral
      | some .group =>
        operators fuel least
          ((operand fuel termLevel p.advance).expect (.punctuator .rightParen) .expectRightParen)
      | some .negation =>
        operators fuel least ((operand fuel unaryLevel p.advance).emit .negate p.current.line) := by
  rw [operand]
  cases starts : Opening.ofKind? p.current.kind with
  | none => simp only [advance_previous, starts]
  | some opening => cases opening <;> simp only [advance_previous, starts]

theorem emitLiteral_of_room (p : Parser) (numeral : Decimal.isNumeral p.previous.lexeme = true)
    (room : p.chunk.constants.size < Chunk.maxConstants) :
    p.emitLiteral = { p with chunk := (Tree.literal p.previous).emit p.chunk } := by
  simp [emitLiteral, Decimal.readLiteral?, numeral, Chunk.makeConstant, Chunk.addConstant,
    Nat.not_le.mpr room, Tree.emit, literalValue]

theorem emitLiteral_of_full (p : Parser) (numeral : Decimal.isNumeral p.previous.lexeme = true)
    (full : p.chunk.constants.size = Chunk.maxConstants) :
    p.emitLiteral = p.fail p.previous .tooManyConstants := by
  simp [emitLiteral, Decimal.readLiteral?, numeral, Chunk.makeConstant, Chunk.addConstant, full]

/-! ## Following -/

section Following

variable {all : List Token} (scanned : Scanned all)

/-- Parsing an operand follows reading a phrase. -/
def FollowsPhrases (all : List Token) (fuel : Nat) : Prop :=
  ∀ (layer : Layer) (room : Nat) (tokens : List Token) (least parsing : Nat) (p : Parser),
    least ≤ levelOf layer → 3 * tokens.length + layer.calls ≤ fuel → tokens.length ≤ parsing →
    At all tokens room p →
    Arrives all layer least p.chunk (operand parsing least p) (phrase fuel layer room tokens)

/-- The loop follows the continuation of a phrase whose code has been written. -/
def FollowsContinuations (all : List Token) (fuel : Nat) : Prop :=
  ∀ (layer : Layer) (left : Reading) (least parsing : Nat) (p : Parser) (origin : Chunk),
    least ≤ levelOf layer → 3 * left.rest.length ≤ fuel → left.rest.length ≤ parsing →
    At all left.rest left.room p → p.chunk = left.tree.emit origin →
    bindingLevel p.current.kind ≤ levelOf layer →
    Arrives all layer least origin (operators parsing least p) (continued fuel layer left)

theorem bindingLevel_lt_unary (kind : Kind) : bindingLevel kind < unaryLevel := by
  cases kind with
  | punctuator p => cases p <;> decide
  | _ => simp [bindingLevel, unaryLevel]

include scanned in
private theorem follows_literal (fuel room least parsing : Nat) (t : Token) (rest : List Token)
    (p : Parser) (kind : t.kind = .number) (enough : rest.length ≤ parsing)
    (stands : At all (t :: rest) room p) :
    Arrives all .unary least p.chunk (operand (parsing + 1) least p)
      (phrase (fuel + 1) .unary room (t :: rest)) := by
  obtain ⟨rfl, -⟩ := List.cons.inj stands.stream
  have numeral := stands.numeral scanned kind
  have moved := stands.advance (by simp [kind])
  have opening : Opening.ofKind? p.current.kind = some .literal := by rw [kind]; rfl
  have keeps (e : SyntaxError) (failed : p.advance.failure = some e) :
      (operators parsing least p.advance.emitLiteral).failure = some e :=
    (failure_preserved e).operators _ _ _ ((failure_preserved e).emitLiteral _ failed)
  simp only [operand_succ, opening, phrase_literal _ _ _ _ kind]
  split
  next full =>
    -- The pool is full: the literal fails, and the loop keeps the failure.
    refine moved.map keeps fun moved => ?_
    have size := moved.room_eq
    refine ⟨p.current, rest, rfl, (failure_preserved _).operators _ _ _ ?_⟩
    rw [emitLiteral_of_full _ (by rw [advance_previous]; exact numeral) (by omega),
      advance_previous]
    exact moved.fail _ _
  next positive =>
    refine moved.map keeps fun moved => ?_
    have size := moved.room_eq
    have emitted := emitLiteral_of_room p.advance (by rw [advance_previous]; exact numeral)
      (by omega)
    refine ⟨parsing, p.advance.emitLiteral, rfl, enough, ?_, ?_, bindingLevel_lt_unary _⟩
    · rw [emitted]
      refine ⟨moved.stream, moved.passed, moved.ends, moved.sound, ?_⟩
      rw [Tree.emit_constants_size]
      simp only [Tree.literals, List.length_singleton]
      omega
    · rw [emitted, advance_previous, advance_chunk]

private theorem follows_negation (fuel room least parsing : Nat) (t : Token) (rest : List Token)
    (p : Parser) (kind : t.kind = .punctuator .minus) (phrases : FollowsPhrases all fuel)
    (fueled : 3 * rest.length + Layer.unary.calls ≤ fuel) (enough : rest.length ≤ parsing)
    (stands : At all (t :: rest) room p) :
    Arrives all .unary least p.chunk (operand (parsing + 1) least p)
      (phrase (fuel + 1) .unary room (t :: rest)) := by
  obtain ⟨rfl, -⟩ := List.cons.inj stands.stream
  have opening : Opening.ofKind? p.current.kind = some .negation := by rw [kind]; rfl
  have keeps (q : Parser) (e : SyntaxError) (failed : q.failure = some e) :
      (operators parsing least (q.emit .negate p.current.line)).failure = some e :=
    (failure_preserved e).operators _ _ _ failed
  have bound : unseen (phrase fuel .unary room rest) ≤ rest.length - 1 := unseen_phrase_le fueled
  have moved := stands.advance (by simp [kind])
  have inner (moved : At all rest room p.advance) := phrases .unary room rest unaryLevel parsing
    p.advance (Nat.le_refl _) fueled enough moved
  have kept (e : SyntaxError) (failed : p.advance.failure = some e) :=
    keeps _ e ((failure_preserved e).operand parsing unaryLevel _ failed)
  simp only [operand_succ, opening, phrase_negation _ _ _ _ kind]
  cases read : phrase fuel .unary room rest with
  | error obstacle =>
    rw [read] at inner bound
    refine moved.next bound kept fun moved => (inner moved).map (keeps _) ?_
    rintro ⟨t, left, shape, failed⟩
    exact ⟨t, left, shape, keeps _ _ failed⟩
  | ok reading =>
    rw [read] at inner bound
    refine moved.next bound kept fun moved => (inner moved).map (keeps _) fun arrived => ?_
    obtain ⟨arrived, written, -⟩ := arrived.exact
    have shorter := phrase_rest_le read
    refine ⟨parsing, _, rfl, Nat.le_trans shorter enough, arrived.write _ _, ?_,
      bindingLevel_lt_unary _⟩
    simp only [emit, written, advance_chunk, Tree.emit]

/-- A group's phrase has been parsed: its parenthesis is taken where descent closes the group. -/
private theorem follows_close (least parsing : Nat) (origin : Chunk) (inner : Reading) (q : Parser)
    (enough : inner.rest.length ≤ parsing + 1)
    (arrived : Arrived all .sum termLevel origin q (.ok inner)) :
    Arrives all .unary least origin
      (operators parsing least (q.expect (.punctuator .rightParen) .expectRightParen))
      (inner.expect (.punctuator .rightParen) .expectRightParen) := by
  obtain ⟨arrived, written, -⟩ := arrived.exact
  have stream := arrived.stream
  have keeps (e : SyntaxError) (p : Parser) (failed : p.failure = some e) :
      (operators parsing least p).failure = some e :=
    (failure_preserved e).operators _ _ _ failed
  simp only [Reading.expect, ← stream, expect]
  rw [← stream] at enough
  split
  next closing =>
    -- The parenthesis is not the end, so the parser can take it.
    have outside := (stream ▸ arrived).advance (by simp [closing])
    refine outside.map (fun e => keeps e _) fun outside => ?_
    refine ⟨parsing, q.advance, rfl, Nat.le_of_succ_le_succ enough, outside, ?_,
      bindingLevel_lt_unary _⟩
    rw [advance_chunk, written]
  next other =>
    rw [← stream] at arrived
    apply arrived.barring
    exact ⟨q.current, sound q.pending, rfl, keeps _ _ (arrived.fail _ _)⟩

private theorem follows_group (fuel room least parsing : Nat) (t : Token) (rest : List Token)
    (p : Parser) (kind : t.kind = .punctuator .leftParen) (phrases : FollowsPhrases all fuel)
    (fueled : 3 * rest.length + Layer.sum.calls ≤ fuel) (enough : rest.length ≤ parsing)
    (stands : At all (t :: rest) room p) :
    Arrives all .unary least p.chunk (operand (parsing + 1) least p)
      (phrase (fuel + 1) .unary room (t :: rest)) := by
  obtain ⟨rfl, -⟩ := List.cons.inj stands.stream
  have opening : Opening.ofKind? p.current.kind = some .group := by rw [kind]; rfl
  -- An error that the phrase has recorded stays the error of the group.
  have keeps (q : Parser) (e : SyntaxError) (failed : q.failure = some e) :
      (operators parsing least
        (q.expect (.punctuator .rightParen) .expectRightParen)).failure = some e :=
    (failure_preserved e).operators _ _ _ ((failure_preserved e).expect _ _ _ failed)
  have bound : unseen (phrase fuel .sum room rest) ≤ rest.length - 1 := unseen_phrase_le fueled
  have moved := stands.advance (by simp [kind])
  have inner (moved : At all rest room p.advance) := phrases .sum room rest termLevel parsing
    p.advance (Nat.le_refl _) fueled enough moved
  have kept (e : SyntaxError) (failed : p.advance.failure = some e) :=
    keeps _ e ((failure_preserved e).operand parsing termLevel _ failed)
  simp only [operand_succ, opening, phrase_group _ _ _ _ kind]
  cases read : phrase fuel .sum room rest with
  | error obstacle =>
    rw [read] at inner bound
    refine moved.next bound kept fun moved => (inner moved).map (keeps _) ?_
    rintro ⟨t, left, shape, failed⟩
    exact ⟨t, left, shape, keeps _ _ failed⟩
  | ok reading =>
    rw [read] at inner bound
    have shorter := phrase_rest_le read
    have closing := unseen_expect_le (.punctuator .rightParen) .expectRightParen reading
    refine moved.next (Nat.le_trans closing bound) kept fun moved =>
      (inner moved).next closing (keeps _) fun arrived => ?_
    rw [advance_chunk] at arrived
    exact follows_close least parsing p.chunk reading _ (by omega) arrived

include scanned in
private theorem follows_unary (fuel room least parsing : Nat) (tokens : List Token) (p : Parser)
    (phrases : FollowsPhrases all fuel) (fueled : 3 * tokens.length + Layer.unary.calls ≤ fuel + 1)
    (enough : tokens.length ≤ parsing) (stands : At all tokens room p) :
    Arrives all .unary least p.chunk (operand parsing least p)
      (phrase (fuel + 1) .unary room tokens) := by
  cases tokens with
  | nil => cases stands.stream
  | cons t rest =>
    simp only [List.length_cons, Layer.calls] at enough fueled
    obtain ⟨parsing, rfl⟩ : ∃ n, parsing = n + 1 := ⟨parsing - 1, by omega⟩
    by_cases number : t.kind = .number
    · exact follows_literal scanned fuel room least parsing t rest p number (by omega) stands
    by_cases minus : t.kind = .punctuator .minus
    · exact follows_negation fuel room least parsing t rest p minus phrases
        (by simp only [Layer.calls]; omega) (by omega) stands
    by_cases leftParen : t.kind = .punctuator .leftParen
    · exact follows_group fuel room least parsing t rest p leftParen phrases
        (by simp only [Layer.calls]; omega) (by omega) stands
    · -- The parser takes the token before it blames it; descent leaves it where it is.
      have moved := stands.advance_fine scanned
      obtain ⟨rfl, -⟩ := List.cons.inj stands.stream
      have opening : Opening.ofKind? p.current.kind = none := by simp only [Opening.ofKind?]
      rw [phrase_other _ _ _ _ number minus leftParen, operand_succ, opening]
      refine moved.map (fun e => fail_failure _ _ _ e) fun fine => ⟨p.current, rest, rfl, ?_⟩
      simp [fail, fine]

private theorem follows_continued (fuel : Nat) (phrases : FollowsPhrases all fuel)
    (continuations : FollowsContinuations all fuel) : FollowsContinuations all (fuel + 1) := by
  intro layer left least parsing p origin loose fueled enough stands written bound
  have stream := stands.stream
  generalize behind : sound p.pending = later at stream
  have count : left.rest.length = later.length + 1 := by simp [← stream]
  obtain ⟨parsing, rfl⟩ : ∃ n, parsing = n + 1 := ⟨parsing - 1, by omega⟩
  simp only [continued, ← stream]
  cases joins : layer.operator? p.current.kind with
  | none =>
    -- Descent leaves the layer's loop. The parser stays in its own, which serves looser layers too.
    have different := bindingLevel_ne_of_stopped joins
    apply stands.barring
    exact ⟨parsing + 1, p, rfl, enough, stands, written, by omega⟩
  | some operator =>
    obtain ⟨same, operation, tight⟩ := bindingLevel_of_operator? joins
    have tighter := levelOf_loose layer tight
    have more : p.current.kind ≠ .endOfInput := by
      -- The end is no operation.
      intro ending
      rw [ending] at operation
      cases operation
    have moved := (stream ▸ stands).advance more
    have calls := layer.calls_tighter_le
    have limit : unseen (phrase fuel layer.tighter left.room later) ≤ later.length - 1 :=
      unseen_phrase_le (by omega)
    have right (moved : At all later left.room p.advance) := phrases layer.tighter left.room later
      (levelOf layer.tighter) parsing p.advance (Nat.le_refl _) (by omega) (by omega) moved
    have keeps (q : Parser) (e : SyntaxError) (failed : q.failure = some e) :
        (operators parsing least (q.emit operator.opcode p.current.line)).failure = some e :=
      (failure_preserved e).operators _ _ _ failed
    have kept (e : SyntaxError) (failed : p.advance.failure = some e) :=
      keeps _ e ((failure_preserved e).operand parsing (levelOf layer.tighter) _ failed)
    rw [operators_succ parsing least p operator.opcode stands.sound (by omega) operation, same,
      ← tighter]
    cases read : phrase fuel layer.tighter left.room later with
    | error obstacle =>
      rw [read] at right limit
      refine moved.next limit kept fun moved => (right moved).map (keeps _) ?_
      rintro ⟨t, rest, shape, failed⟩
      exact ⟨t, rest, shape, keeps _ _ failed⟩
    | ok reading =>
      rw [read] at right limit
      have shorter := phrase_rest_le read
      -- What the join is made of does not matter for how far its continuation reads.
      have further := @unseen_continued_le fuel layer
        { reading with tree := .binary operator p.current left.tree reading.tree }
        (by simp only; omega)
      refine moved.next (Nat.le_trans further limit) kept fun moved =>
        (right moved).next further (keeps _) fun arrived => ?_
      -- The right operand is parsed at the next tighter level, so behind it stands an operator of
      -- this layer at most, and the loop is where descent continues.
      obtain ⟨arrived, emitted, stopped⟩ := arrived.exact
      apply continuations layer
        { reading with tree := .binary operator p.current left.tree reading.tree } least parsing
      · exact loose
      · simp only; omega
      · simp only; omega
      · exact arrived.write _ _
      · simp only [emit, emitted, advance_chunk, written, Tree.emit]
      · simp only [emit]; omega

include scanned in
private theorem follows (fuel : Nat) : FollowsPhrases all fuel ∧ FollowsContinuations all fuel := by
  -- By induction on the fuel of descent, for both of its functions at once. The parser has its own
  -- fuel, of which it needs less.
  induction fuel with
  | zero =>
    constructor
    · intro layer room tokens least parsing p _ fueled
      have := layer.calls_pos
      omega
    · intro layer left least parsing p origin _ fueled _ stands
      have stream := congrArg List.length stands.stream
      simp only [List.length_cons] at stream
      omega
  | succ fuel ih =>
    obtain ⟨phrases, continuations⟩ := ih
    refine ⟨?_, follows_continued fuel phrases continuations⟩
    intro layer room tokens least parsing p loose fueled enough stands
    by_cases tight : layer = .unary
    · subst tight
      exact follows_unary scanned fuel room least parsing tokens p phrases fueled enough stands
    · -- A loose layer costs descent a call and the parser nothing: it is in its loop already.
      have calls := layer.calls_loose tight
      have levels := levelOf_loose layer tight
      have first := phrases layer.tighter room tokens least parsing p (by omega) (by omega) enough
        stands
      rw [phrase_loose _ _ _ _ tight]
      cases read : phrase fuel layer.tighter room tokens with
      | error obstacle =>
        rw [read] at first
        exact first
      | ok reading =>
        rw [read] at first
        have shorter := phrase_rest_le read
        refine first.next (unseen_continued_le (by omega)) (fun _ failed => failed) ?_
        rintro ⟨left, q, equal, bound, arrived, written, stopped⟩
        rw [equal]
        exact continuations layer reading least left q p.chunk loose (by omega) bound arrived written
          (by omega)

end Following

/-! ## Whole sources -/

/-- What a run comes to when descent has come to an outcome: the code of the tree and a return on
the line of the end, or the failure at the token where descent stops. -/
def Finished (all : List Token) (p : Parser) : Except Obstacle Reading → Prop
  | .ok reading =>
    p.failure = none ∧ ∃ ending ∈ all.getLast?,
      p.chunk = (reading.tree.emit .empty).write (.simple .ret) ending.line
  | .error obstacle =>
    ∃ t rest, obstacle.left = t :: rest ∧ p.failure = some (.ofToken t obstacle.fault)

section Sources

variable {all : List Token} (scanned : Scanned all)
include scanned

/-- The sound tokens end with the end as well. -/
theorem Scanned.sound_shape : ∃ body ending, sound all = body ++ [ending] ∧
    ending.kind = .endOfInput ∧ ending ∈ all.getLast? ∧ ∀ t ∈ body, t.kind ≠ .endOfInput := by
  obtain ⟨body, ending, rfl, kind, others⟩ := scanned.shape
  refine ⟨sound body, ending, ?_, kind, by simp, ?_⟩
  · simp [Parser.sound, Token.isError, kind]
  · exact fun t member => others t (List.mem_filter.mp member).1

private theorem start_at : ∃ t rest, sound all = t :: rest ∧
    Barring all rest.length (start all).advance
      (At all (sound all) Chunk.maxConstants (start all).advance) := by
  obtain ⟨body, ending, shape, kind, -⟩ := scanned.sound_shape
  cases more : sound all with
  | nil => simp [more] at shape
  | cons t rest =>
    have pulled := pull_barring { start all with previous := noToken } (List.nil_append all).symm
      (by simp) more rfl
    refine ⟨t, rest, rfl, pulled.map (fun _ failed => failed) ?_⟩
    rintro ⟨stream, passed, fine⟩
    refine ⟨stream, passed, ⟨ending, ?_, kind⟩, fine, ?_⟩
    · simp [← more, shape]
    · rw [advance_chunk]
      rfl

private theorem afterExpression_arrives :
    Arrives all .sum termLevel .empty (afterExpression all)
      (phrase (3 * (sound all).length + 3) .sum Chunk.maxConstants (sound all)) := by
  obtain ⟨t, rest, more, started⟩ := start_at scanned
  have fewer : (sound all).length ≤ all.length := List.length_filter_le ..
  have blank : (start all).advance.chunk = .empty := by simp [start]
  have bound : unseen (phrase (3 * (sound all).length + 3) .sum Chunk.maxConstants (sound all)) ≤
      rest.length := by
    have limit : unseen (phrase (3 * (sound all).length + 3) .sum Chunk.maxConstants (sound all)) ≤
        (sound all).length - 1 := unseen_phrase_le (Nat.le_refl _)
    have count : (sound all).length = rest.length + 1 := by simp [more]
    omega
  refine started.next bound (fun e failed => (failure_preserved e).operand _ _ _ failed) ?_
  intro started
  have followed := (follows scanned _).1 .sum _ _ termLevel (2 * all.length + 2) _ (Nat.le_refl _)
    (Nat.le_refl _) (by omega) started
  rw [blank] at followed
  exact followed

/-- A run does what descent does on the sound tokens, barring an error before it gets there. -/
theorem run_follows :
    Barring all (unseen (descent (sound all))) (run all)
      (Finished all (run all) (descent (sound all))) := by
  have arrives := afterExpression_arrives scanned
  have keeps (e : SyntaxError) (failed : (afterExpression all).failure = some e) :
      (run all).failure = some e :=
    (failure_preserved e).expect _ _ _ failed
  rw [descent]
  cases read : phrase (3 * (sound all).length + 3) .sum Chunk.maxConstants (sound all) with
  | error obstacle =>
    rw [read] at arrives
    refine arrives.map keeps ?_
    rintro ⟨t, rest, shape, failed⟩
    exact ⟨t, rest, shape, keeps _ failed⟩
  | ok expression =>
    rw [read] at arrives
    obtain ⟨used, accounts⟩ := phrase_sound _ _ _ _ _ read
    have bound := unseen_expect_le .endOfInput .expectEnd expression
    refine arrives.next bound keeps fun arrived => ?_
    obtain ⟨stands, written, -⟩ := arrived.exact
    rw [run_eq]
    generalize afterExpression all = p at stands written
    have stream := stands.stream
    simp only [Reading.expect, ← stream, expect]
    split
    next last =>
      -- Nothing follows the end. The return is written after it has been taken, so it gets its line.
      obtain ⟨body, ending, shape, -, final, others⟩ := scanned.sound_shape
      have split := accounts.tokens_eq
      rw [shape, ← stream] at split
      obtain ⟨-, rfl, nothing⟩ := end_is_last others split last
      have moved := (stream ▸ stands).advance_fine scanned
      refine moved.map (fun _ failed => failed) fun fine => ⟨fine, p.current, final, ?_⟩
      simp only [emit, advance_previous, advance_chunk, written]
    next other =>
      rw [← stream] at stands
      apply stands.barring
      exact ⟨p.current, sound p.pending, rfl, stands.fail _ _⟩

end Sources

end Abacus.Parser
