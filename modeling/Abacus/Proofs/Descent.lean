import Abacus.Bytecode.Chunk
import Abacus.Compiler.Error
import Abacus.Proofs.Grammar

/-!
# Recursive descent

The grammar read as a procedure: one function for the phrases of a layer and one for the operators
that continue a phrase. Both stop at the first token that fits nowhere and say what was expected
there. The number of literals is limited, so reading also keeps count of the room that is left.

A token is taken at the tightest layer only, two calls below the loosest, so three calls for each
token and three more are fuel enough.

Reading finds every derivation of its tokens that nothing can continue (`Derives.phrase`), which
makes the tree of a sentence unique, and finds nothing else (`phrase_sound`).
-/
namespace Abacus.Grammar

/-- A phrase that has been read, the literals that may still come and the tokens after it. -/
structure Reading where
  tree : Tree
  room : Nat
  rest : List Token
  deriving DecidableEq, Repr

/-- Why reading stopped. The token to blame is the first of those left. -/
structure Obstacle where
  fault : SyntaxFault
  left : List Token
  deriving DecidableEq, Repr

/-- Takes a token of the kind behind what has been read. -/
def Reading.expect (kind : Kind) (fault : SyntaxFault) (reading : Reading) :
    Except Obstacle Reading :=
  match reading.rest with
  | [] => .error ⟨fault, []⟩
  | t :: rest => if t.kind = kind then .ok { reading with rest := rest } else .error ⟨fault, t :: rest⟩

mutual

def phrase : Nat → Layer → Nat → List Token → Except Obstacle Reading
  | 0, _, _, tokens => .error ⟨.expectExpression, tokens⟩
  | fuel + 1, .unary, room, tokens =>
    match tokens with
    | [] => .error ⟨.expectExpression, []⟩
    | t :: rest =>
      match t.kind with
      | .number =>
        if room = 0 then .error ⟨.tooManyConstants, t :: rest⟩
        else .ok ⟨.literal t, room - 1, rest⟩
      | .punctuator .minus =>
        match phrase fuel .unary room rest with
        | .error obstacle => .error obstacle
        | .ok operand => .ok { operand with tree := .negation t operand.tree }
      | .punctuator .leftParen =>
        match phrase fuel .sum room rest with
        | .error obstacle => .error obstacle
        | .ok inner => inner.expect (.punctuator .rightParen) .expectRightParen
      | _ => .error ⟨.expectExpression, t :: rest⟩
  -- A loose layer starts with a phrase of the next tighter one.
  | fuel + 1, layer, room, tokens =>
    match phrase fuel layer.tighter room tokens with
    | .error obstacle => .error obstacle
    | .ok first => continued fuel layer first

/-- Continues a phrase with the operators of its layer. -/
def continued : Nat → Layer → Reading → Except Obstacle Reading
  | 0, _, left => .ok left
  | fuel + 1, layer, left =>
    match left.rest with
    | [] => .ok left
    | t :: rest =>
      match layer.operator? t.kind with
      | none => .ok left
      | some operator =>
        match phrase fuel layer.tighter left.room rest with
        | .error obstacle => .error obstacle
        | .ok right =>
          -- The joined phrase is the left operand of the next operator: joining goes to the left.
          continued fuel layer { right with tree := .binary operator t left.tree right.tree }

end

/-! ## Reading one layer -/

theorem phrase_literal (fuel room : Nat) (t : Token) (rest : List Token)
    (kind : t.kind = .number) :
    phrase (fuel + 1) .unary room (t :: rest) =
      if room = 0 then .error ⟨.tooManyConstants, t :: rest⟩
      else .ok ⟨.literal t, room - 1, rest⟩ := by
  simp [phrase, kind]

theorem phrase_negation (fuel room : Nat) (t : Token) (rest : List Token)
    (kind : t.kind = .punctuator .minus) :
    phrase (fuel + 1) .unary room (t :: rest) =
      match phrase fuel .unary room rest with
      | .error obstacle => .error obstacle
      | .ok operand => .ok { operand with tree := .negation t operand.tree } := by
  simp [phrase, kind]

theorem phrase_group (fuel room : Nat) (t : Token) (rest : List Token)
    (kind : t.kind = .punctuator .leftParen) :
    phrase (fuel + 1) .unary room (t :: rest) =
      match phrase fuel .sum room rest with
      | .error obstacle => .error obstacle
      | .ok inner => inner.expect (.punctuator .rightParen) .expectRightParen := by
  simp [phrase, kind]

theorem phrase_other (fuel room : Nat) (t : Token) (rest : List Token)
    (number : t.kind ≠ .number) (minus : t.kind ≠ .punctuator .minus)
    (leftParen : t.kind ≠ .punctuator .leftParen) :
    phrase (fuel + 1) .unary room (t :: rest) = .error ⟨.expectExpression, t :: rest⟩ := by
  simp only [phrase]

theorem phrase_loose (fuel room : Nat) (layer : Layer) (tokens : List Token)
    (loose : layer ≠ .unary) :
    phrase (fuel + 1) layer room tokens =
      match phrase fuel layer.tighter room tokens with
      | .error obstacle => .error obstacle
      | .ok first => continued fuel layer first := by
  cases layer with
  | unary => exact absurd rfl loose
  | sum => rfl
  | product => rfl

/-- Nothing continues a phrase whose next token is no operator of the layer. -/
theorem continued_of_stopped (fuel : Nat) (layer : Layer) (left : Reading)
    (stopped : ∀ t ∈ left.rest.head?, layer.operator? t.kind = none) :
    continued fuel layer left = .ok left := by
  cases fuel with
  | zero => rfl
  | succ fuel =>
    simp only [continued]
    split
    · rfl
    next t rest shape => simp [stopped t (by simp [shape])]

/-! ## Soundness -/

/-- What reading accounts for: the tokens it used, their derivation and the room it took. -/
structure Accounts (layer : Layer) (tokens : List Token) (room : Nat) (reading : Reading)
    (used : List Token) : Prop where
  tokens_eq : tokens = used ++ reading.rest
  derives : Derives layer used reading.tree
  room_eq : room = reading.room + reading.tree.literals.length

theorem Reading.expect_eq_ok {kind : Kind} {fault : SyntaxFault} {before after : Reading}
    (taken : before.expect kind fault = .ok after) :
    ∃ t rest, before.rest = t :: rest ∧ t.kind = kind ∧ after = { before with rest := rest } := by
  rw [Reading.expect] at taken
  split at taken
  · cases taken
  next t rest shape =>
    split at taken
    next same =>
      cases taken
      exact ⟨t, rest, shape, same, rfl⟩
    · cases taken

theorem Reading.expect_eq_error {kind : Kind} {fault : SyntaxFault} {reading : Reading}
    {o : Obstacle} (stopped : reading.expect kind fault = .error o) :
    o = ⟨fault, reading.rest⟩ ∧ ∀ t ∈ reading.rest.head?, t.kind ≠ kind := by
  rw [Reading.expect] at stopped
  split at stopped
  next nothing =>
    cases stopped
    simp [nothing]
  next t rest shape =>
    split at stopped
    · cases stopped
    next other =>
      cases stopped
      simpa [shape] using other

private theorem unary_sound (fuel room : Nat) (tokens : List Token) (reading : Reading)
    (calls : ∀ layer room tokens reading, phrase fuel layer room tokens = .ok reading →
      ∃ used, Accounts layer tokens room reading used)
    (returned : phrase (fuel + 1) .unary room tokens = .ok reading) :
    ∃ used, Accounts .unary tokens room reading used := by
  cases tokens with
  | nil => simp [phrase] at returned
  | cons t rest =>
    -- Three kinds of token start a phrase of the tightest layer; any other is an obstacle.
    by_cases number : t.kind = .number
    · rw [phrase_literal fuel room t rest number] at returned
      split at returned
      · cases returned
      next positive =>
        cases returned
        exact ⟨[t], rfl, .literal number, by simp only [Tree.literals, List.length_singleton]; omega⟩
    by_cases minus : t.kind = .punctuator .minus
    · rw [phrase_negation fuel room t rest minus] at returned
      split at returned
      · cases returned
      next operand read =>
        cases returned
        obtain ⟨used, accounts⟩ := calls _ _ _ _ read
        refine ⟨t :: used, ?_, .negation minus accounts.derives, accounts.room_eq⟩
        rw [accounts.tokens_eq, List.cons_append]
    by_cases leftParen : t.kind = .punctuator .leftParen
    · rw [phrase_group fuel room t rest leftParen] at returned
      split at returned
      · cases returned
      next inner read =>
        obtain ⟨used, accounts⟩ := calls _ _ _ _ read
        obtain ⟨closing, after, shape, rightParen, rfl⟩ := Reading.expect_eq_ok returned
        refine ⟨t :: used ++ [closing], ?_, .group leftParen accounts.derives rightParen,
          accounts.room_eq⟩
        simp [accounts.tokens_eq, shape]
    · rw [phrase_other fuel room t rest number minus leftParen] at returned
      cases returned

private theorem reading_sound (fuel : Nat) :
    (∀ layer room tokens reading, phrase fuel layer room tokens = .ok reading →
      ∃ used, Accounts layer tokens room reading used) ∧
    (∀ layer tokens room left before reading, Accounts layer tokens room left before →
      continued fuel layer left = .ok reading →
      ∃ used, Accounts layer tokens room reading used) := by
  -- By induction on the fuel. A phrase and its continuation call each other, so both are proved at
  -- once; a continuation starts from what has been accounted for before it.
  induction fuel with
  | zero =>
    constructor
    · intro layer room tokens reading returned
      simp [phrase] at returned
    · intro layer tokens room left before reading accounts returned
      cases returned
      exact ⟨before, accounts⟩
  | succ fuel ih =>
    obtain ⟨phrases, continuations⟩ := ih
    constructor
    · intro layer room tokens reading returned
      by_cases tight : layer = .unary
      · subst tight
        exact unary_sound fuel room tokens reading phrases returned
      · rw [phrase_loose fuel room layer tokens tight] at returned
        split at returned
        · cases returned
        next first read =>
          -- A phrase of the tighter layer is one of this layer too, and may be continued.
          obtain ⟨used, accounts⟩ := phrases _ _ _ _ read
          exact continuations layer tokens room first used reading
            ⟨accounts.tokens_eq, .single accounts.derives, accounts.room_eq⟩ returned
    · intro layer tokens room left before reading accounts returned
      simp only [continued] at returned
      split at returned
      · cases returned
        exact ⟨before, accounts⟩
      next t rest shape =>
        split at returned
        · cases returned
          exact ⟨before, accounts⟩
        next operator joins =>
          split at returned
          · cases returned
          next right read =>
            -- What was read before, the operator and its right operand are one phrase.
            obtain ⟨after, accounted⟩ := phrases _ _ _ _ read
            refine continuations layer tokens room _ (before ++ t :: after) reading
              ⟨?_, .join accounts.derives joins accounted.derives, ?_⟩ returned
            · simp [accounts.tokens_eq, shape, accounted.tokens_eq]
            · have outer := accounts.room_eq
              have inner := accounted.room_eq
              simp only [Tree.literals, List.length_append]
              omega

/-- What is read is a phrase of the layer, and the tokens after it are left. -/
theorem phrase_sound (fuel : Nat) (layer : Layer) (room : Nat) (tokens : List Token)
    (reading : Reading) (returned : phrase fuel layer room tokens = .ok reading) :
    ∃ used, Accounts layer tokens room reading used :=
  (reading_sound fuel).1 layer room tokens reading returned

theorem phrase_rest_le {fuel : Nat} {layer : Layer} {room : Nat} {tokens : List Token}
    {reading : Reading} (returned : phrase fuel layer room tokens = .ok reading) :
    reading.rest.length ≤ tokens.length := by
  obtain ⟨used, accounts⟩ := phrase_sound fuel layer room tokens reading returned
  rw [accounts.tokens_eq, List.length_append]
  exact Nat.le_add_left ..

theorem continued_rest_le {fuel : Nat} {layer : Layer} {left reading : Reading}
    (returned : continued fuel layer left = .ok reading) :
    reading.rest.length ≤ left.rest.length := by
  induction fuel generalizing left with
  | zero =>
    cases returned
    exact Nat.le_refl _
  | succ fuel ih =>
    simp only [continued] at returned
    split at returned
    · cases returned
      exact Nat.le_refl _
    next t rest shape =>
      split at returned
      · cases returned
        exact Nat.le_refl _
      · split at returned
        · cases returned
        next right read =>
          have shorter := phrase_rest_le read
          have further := ih returned
          rw [shape, List.length_cons]
          simp only at further
          omega

/-! ## Fuel -/

namespace Layer

/-- How many calls lie between a layer and its first token. -/
def calls : Layer → Nat
  | sum => 3
  | product => 2
  | unary => 1

theorem calls_loose (layer : Layer) (loose : layer ≠ .unary) :
    layer.calls = layer.tighter.calls + 1 := by
  cases layer with
  | unary => exact absurd rfl loose
  | sum => rfl
  | product => rfl

theorem calls_pos (layer : Layer) : 0 < layer.calls := by
  cases layer <;> decide

theorem calls_tighter_le (layer : Layer) : layer.tighter.calls ≤ 2 := by
  cases layer <;> decide

theorem calls_le (layer : Layer) : layer.calls ≤ 3 := by
  cases layer <;> decide

theorem tighter_operator?_of_operator? (layer : Layer) (kind : Kind) (operator : Operator)
    (joins : layer.operator? kind = some operator) : layer.tighter.operator? kind = none := by
  rcases operator?_cases joins with
    ⟨rfl, rfl, -⟩ | ⟨rfl, rfl, -⟩ | ⟨rfl, rfl, -⟩ | ⟨rfl, rfl, -⟩ <;> rfl

/-- There is nothing that joins two phrases of the layer two steps in. -/
@[simp] theorem tighter_tighter_operator? (layer : Layer) (kind : Kind) :
    layer.tighter.tighter.operator? kind = none := by
  cases layer <;> rfl

end Layer

/-! ## Obstacles -/

def Phrase (layer : Layer) (tokens : List Token) : Prop := ∃ tree, Derives layer tokens tree

/-- The tokens continue every phrase of the layer. -/
def Continues (layer : Layer) (tokens : List Token) : Prop :=
  ∀ before tree, Derives layer before tree → Phrase layer (before ++ tokens)

/-- What a fault says about the token to blame and the tokens used before it. -/
def Fits (room : Nat) (used : List Token) (t : Token) : SyntaxFault → Prop
  | .expectExpression =>
    t.kind ≠ .number ∧ t.kind ≠ .punctuator .minus ∧ t.kind ≠ .punctuator .leftParen
  | .tooManyConstants => t.kind = .number ∧ (numbers used).length = room
  | .expectRightParen => t.kind ≠ .punctuator .rightParen
  | .expectEnd => t.kind ≠ .endOfInput
  | .lexical _ | .invalidNumber => False

/-- The token is one that the fault asks for. -/
def Wanted (t : Token) : SyntaxFault → Prop
  | .expectExpression | .tooManyConstants => t.kind = .number
  | .expectRightParen => t.kind = .punctuator .rightParen
  | .expectEnd => t.kind = .endOfInput
  | .lexical _ | .invalidNumber => False

/-- The obstacle is the token behind some that were used, for the reason it gives. A token that was
wanted in its place could be completed to a row of tokens that is complete. -/
def Obstacle.Justified (o : Obstacle) (room : Nat) (Complete : List Token → Prop)
    (tokens : List Token) : Prop :=
  ∃ used, tokens = used ++ o.left ∧ (∀ t ∈ o.left.head?, Fits room used t o.fault) ∧
    ∀ t, Wanted t o.fault → ∃ after, Complete (used ++ t :: after)

/-- Tokens used before count as well, and the room they took. -/
theorem Obstacle.Justified.behind {o : Obstacle} {room left : Nat} {tokens : List Token}
    {Part Whole : List Token → Prop} (justified : o.Justified left Part tokens)
    (before : List Token) (taken : room = left + (numbers before).length)
    (completes : ∀ part, Part part → ∃ after, Whole (before ++ part ++ after)) :
    o.Justified room Whole (before ++ tokens) := by
  obtain ⟨used, rfl, fits, wanted⟩ := justified
  refine ⟨before ++ used, by simp, fun t member => ?_, fun t want => ?_⟩
  · have here := fits t member
    cases fault : o.fault with
    | tooManyConstants =>
      rw [fault] at here
      refine ⟨here.1, ?_⟩
      rw [numbers_append, List.length_append, here.2]
      omega
    | _ =>
      rw [fault] at here
      exact here
  · obtain ⟨after, part⟩ := wanted t want
    obtain ⟨more, whole⟩ := completes _ part
    exact ⟨after ++ more, by simpa using whole⟩

/-- The tokens that a reading has used take up the room that it has not left. -/
theorem Accounts.room_numbers {layer : Layer} {tokens used : List Token} {room : Nat}
    {reading : Reading} (accounts : Accounts layer tokens room reading used) :
    room = reading.room + (numbers used).length := by
  rw [accounts.derives.numbers_eq]
  exact accounts.room_eq

private theorem unary_justified (fuel room : Nat) (tokens : List Token) (o : Obstacle)
    (enough : 3 * tokens.length + Layer.unary.calls ≤ fuel + 1)
    (calls : ∀ layer room tokens o, 3 * tokens.length + layer.calls ≤ fuel →
      phrase fuel layer room tokens = .error o → o.Justified room (Phrase layer) tokens)
    (stopped : phrase (fuel + 1) .unary room tokens = .error o) :
    o.Justified room (Phrase .unary) tokens := by
  have literal (t : Token) (number : t.kind = .number) : ∃ after, Phrase .unary (t :: after) :=
    ⟨[], .literal t, .literal number⟩
  cases tokens with
  | nil =>
    rw [phrase] at stopped
    cases stopped
    exact ⟨[], rfl, by simp, literal⟩
  | cons t rest =>
    simp only [List.length_cons, Layer.calls] at enough
    have bound (layer : Layer) : 3 * rest.length + layer.calls ≤ fuel := by
      have := layer.calls_le
      omega
    -- The token that an operand starts with decides which obstacles there can be.
    by_cases number : t.kind = .number
    · rw [phrase_literal fuel room t rest number] at stopped
      split at stopped
      next full =>
        cases stopped
        exact ⟨[], rfl, by simp [Fits, number, full, numbers], literal⟩
      · cases stopped
    by_cases minus : t.kind = .punctuator .minus
    · rw [phrase_negation fuel room t rest minus] at stopped
      split at stopped
      next obstacle inside =>
        cases stopped
        refine (calls _ _ _ _ (bound _) inside).behind [t] (by simp [numbers, minus]) ?_
        rintro part ⟨tree, derives⟩
        exact ⟨[], .negation t tree, by simpa using .negation minus derives⟩
      · cases stopped
    by_cases leftParen : t.kind = .punctuator .leftParen
    · rw [phrase_group fuel room t rest leftParen] at stopped
      split at stopped
      next obstacle inside =>
        cases stopped
        refine (calls _ _ _ _ (bound _) inside).behind [t] (by simp [numbers, leftParen]) ?_
        rintro part ⟨tree, derives⟩
        -- A parenthesis would complete the group.
        let closing : Token := ⟨.punctuator .rightParen, [], 0, 0⟩
        exact ⟨[closing], tree, .group leftParen derives rfl⟩
      next inner read =>
        obtain ⟨used, accounts⟩ := phrase_sound _ _ _ _ _ read
        obtain ⟨rfl, other⟩ := Reading.expect_eq_error stopped
        refine ⟨t :: used, by rw [accounts.tokens_eq, List.cons_append], other, ?_⟩
        exact fun closing rightParen => ⟨[], inner.tree, .group leftParen accounts.derives rightParen⟩
    · rw [phrase_other fuel room t rest number minus leftParen] at stopped
      cases stopped
      exact ⟨[], rfl, by simp [Fits, number, minus, leftParen], literal⟩

private theorem reading_justified (fuel : Nat) :
    (∀ layer room tokens o, 3 * tokens.length + layer.calls ≤ fuel →
      phrase fuel layer room tokens = .error o → o.Justified room (Phrase layer) tokens) ∧
    (∀ layer left o, 3 * left.rest.length ≤ fuel →
      continued fuel layer left = .error o → o.Justified left.room (Continues layer) left.rest) := by
  -- By induction on the fuel, which never runs out: every call leaves enough for the tokens left.
  induction fuel with
  | zero =>
    constructor
    · intro layer room tokens o enough
      have := layer.calls_pos
      omega
    · intro layer left o _ stopped
      cases stopped
  | succ fuel ih =>
    obtain ⟨phrases, continuations⟩ := ih
    constructor
    · intro layer room tokens o enough stopped
      by_cases tight : layer = .unary
      · subst tight
        exact unary_justified fuel room tokens o enough phrases stopped
      · have calls := layer.calls_loose tight
        rw [phrase_loose fuel room layer tokens tight] at stopped
        split at stopped
        next obstacle inside =>
          cases stopped
          refine (phrases _ _ _ _ (by omega) inside).behind [] rfl ?_
          rintro part ⟨tree, derives⟩
          exact ⟨[], tree, by simpa using .single derives⟩
        next first read =>
          obtain ⟨used, accounts⟩ := phrase_sound _ _ _ _ _ read
          have shorter := phrase_rest_le read
          have later := continuations layer first o (by omega) stopped
          rw [accounts.tokens_eq]
          refine later.behind used accounts.room_numbers fun part continues => ⟨[], ?_⟩
          simpa using continues used first.tree (.single accounts.derives)
    · intro layer left o enough stopped
      simp only [continued] at stopped
      split at stopped
      · cases stopped
      next t rest shape =>
        split at stopped
        · cases stopped
        next operator joins =>
          rw [shape] at enough ⊢
          simp only [List.length_cons] at enough
          have symbol : numbers [t] = [] := by simp [numbers, ne_number_of_operator joins]
          have bound := layer.calls_tighter_le
          split at stopped
          next obstacle inside =>
            cases stopped
            refine (phrases _ _ _ _ (by omega) inside).behind [t] (by simp [symbol]) ?_
            rintro part ⟨right, derives⟩
            refine ⟨[], fun before tree derivesLeft => ⟨.binary operator t tree right, ?_⟩⟩
            simpa using .join derivesLeft joins derives
          next right read =>
            obtain ⟨used, accounts⟩ := phrase_sound _ _ _ _ _ read
            have shorter := phrase_rest_le read
            have later := continuations layer _ o (by simp only; omega) stopped
            rw [accounts.tokens_eq, ← List.cons_append]
            refine later.behind (t :: used) ?_ fun part continues => ⟨[], ?_⟩
            · rw [← List.singleton_append, numbers_append, symbol]
              exact accounts.room_numbers
            · intro before tree derivesLeft
              have joined := continues _ _ (.join derivesLeft joins accounts.derives)
              simpa using joined

/-- With fuel enough, what stops reading is what its fault says. -/
theorem phrase_justified {fuel room : Nat} {layer : Layer} {tokens : List Token} {o : Obstacle}
    (enough : 3 * tokens.length + layer.calls ≤ fuel)
    (stopped : phrase fuel layer room tokens = .error o) :
    o.Justified room (Phrase layer) tokens :=
  (reading_justified fuel).1 layer room tokens o enough stopped

theorem continued_justified {fuel : Nat} {layer : Layer} {left : Reading} {o : Obstacle}
    (enough : 3 * left.rest.length ≤ fuel) (stopped : continued fuel layer left = .error o) :
    o.Justified left.room (Continues layer) left.rest :=
  (reading_justified fuel).2 layer left o enough stopped

/-! ## Completeness -/

theorem Derives.length_pos {layer : Layer} {tokens : List Token} {tree : Tree}
    (derives : Derives layer tokens tree) : 0 < tokens.length := by
  induction derives with
  | literal | negation | group => simp
  | single _ ih => exact ih
  | join =>
    simp only [List.length_append, List.length_cons]
    omega

/-- A derivation is read up to its end, where its layer may go on: the token that follows must not
belong to the derivation's last operand. -/
theorem Derives.phrase {layer : Layer} {tokens : List Token} {tree : Tree}
    (derives : Derives layer tokens tree) (fuel room : Nat) (rest : List Token)
    (enough : 3 * tokens.length + layer.calls ≤ fuel) (fits : tree.literals.length ≤ room)
    (follows : ∀ t ∈ rest.head?, layer.tighter.operator? t.kind = none) :
    ∃ left, fuel ≤ left + 3 * tokens.length ∧
      Grammar.phrase fuel layer room (tokens ++ rest) =
        continued left layer ⟨tree, room - tree.literals.length, rest⟩ := by
  -- The statement ends inside the layer's loop, not behind it: after the left operand of a join the
  -- loop still has to take the operator.
  induction derives generalizing fuel room rest with
  | @literal number kind =>
    obtain ⟨fuel, rfl⟩ : ∃ f, fuel = f + 1 := ⟨fuel - 1, by simp [Layer.calls] at enough; omega⟩
    have positive : room ≠ 0 := by simp [Tree.literals] at fits; omega
    refine ⟨fuel + 1, by omega, ?_⟩
    rw [continued_of_stopped _ _ _ follows, List.singleton_append, phrase_literal _ _ _ _ kind,
      if_neg positive]
    rfl
  | @negation minus tokens operand kind inner ih =>
    obtain ⟨fuel, rfl⟩ : ∃ f, fuel = f + 1 := ⟨fuel - 1, by simp [Layer.calls] at enough; omega⟩
    simp only [List.length_cons, Layer.calls] at enough ih
    obtain ⟨left, -, read⟩ := ih fuel room rest (by omega) fits follows
    refine ⟨fuel + 1, by omega, ?_⟩
    rw [continued_of_stopped _ _ _ follows, List.cons_append, phrase_negation _ _ _ _ kind, read,
      continued_of_stopped _ _ _ follows]
    rfl
  | @group opening closing tokens tree leftParen inner rightParen ih =>
    obtain ⟨fuel, rfl⟩ : ∃ f, fuel = f + 1 := ⟨fuel - 1, by simp [Layer.calls] at enough; omega⟩
    simp only [List.cons_append, List.length_cons, List.length_append, List.length_nil,
      Layer.calls] at enough ih
    -- Inside the group every layer stops at the parenthesis that closes it.
    have stopped (layer : Layer) : ∀ t ∈ (closing :: rest).head?, layer.operator? t.kind = none := by
      intro t member
      cases member
      cases layer <;> simp [rightParen, Layer.operator?]
    obtain ⟨left, -, read⟩ := ih fuel room (closing :: rest) (by omega) fits (stopped _)
    refine ⟨fuel + 1, by omega, ?_⟩
    rw [continued_of_stopped _ _ _ follows, List.cons_append, List.cons_append, List.append_assoc,
      List.singleton_append, phrase_group _ _ _ _ leftParen, read,
      continued_of_stopped _ _ _ (stopped _)]
    simp [Reading.expect, rightParen]
  | @single layer tokens tree inner ih =>
    by_cases tight : layer = .unary
    · -- The tightest layer is its own tighter one, so here nothing is called.
      subst tight
      exact ih fuel room rest enough fits follows
    · have loose := layer.calls_loose tight
      obtain ⟨fuel, rfl⟩ : ∃ f, fuel = f + 1 := ⟨fuel - 1, by omega⟩
      obtain ⟨left, -, read⟩ := ih fuel room rest (by omega) fits (by simp)
      have positive := inner.length_pos
      refine ⟨fuel, by omega, ?_⟩
      rw [phrase_loose _ _ _ _ tight, read, continued_of_stopped _ _ _ follows]
  | @join layer before after symbol operator leftTree rightTree _ joins _ ihLeft ihRight =>
    simp only [List.length_append, List.length_cons, Tree.literals] at enough fits
    have tighter := layer.calls_tighter_le
    have different := layer.tighter_operator?_of_operator? symbol.kind operator joins
    obtain ⟨left, bound, readLeft⟩ := ihLeft fuel room (symbol :: after ++ rest) (by omega)
      (by omega) (by simpa using different)
    -- The left operand has used its tokens' share of the fuel; the operator's own share pays for
    -- the round that takes it.
    obtain ⟨left, rfl⟩ : ∃ f, left = f + 1 := ⟨left - 1, by omega⟩
    obtain ⟨_, -, readRight⟩ := ihRight left (room - leftTree.literals.length) rest (by omega)
      (by omega) (by simp)
    refine ⟨left, by simp only [List.length_append, List.length_cons]; omega, ?_⟩
    rw [List.append_assoc, readLeft]
    simp only [List.cons_append, continued, joins, readRight]
    rw [continued_of_stopped _ _ _ follows]
    simp only [Tree.literals, List.length_append, Nat.sub_sub]

theorem Derives.unique {layer : Layer} {tokens : List Token} {first second : Tree}
    (derivesFirst : Derives layer tokens first) (derivesSecond : Derives layer tokens second) :
    first = second := by
  -- Reading is a function, and it finds both derivations.
  have count : first.literals.length = second.literals.length := by
    rw [← derivesFirst.numbers_eq, ← derivesSecond.numbers_eq]
  have bound := layer.calls_le
  obtain ⟨_, -, readFirst⟩ := derivesFirst.phrase (3 * tokens.length + 3) first.literals.length []
    (by omega) (Nat.le_refl _) (by simp)
  obtain ⟨_, -, readSecond⟩ := derivesSecond.phrase (3 * tokens.length + 3) first.literals.length
    [] (by omega) (by omega) (by simp)
  rw [readFirst, continued_of_stopped _ _ _ (by simp), continued_of_stopped _ _ _ (by simp)]
    at readSecond
  cases readSecond
  rfl

/-! ## Whole sources -/

/-- The tokens are a sentence and the end behind it. -/
def Whole (tokens : List Token) : Prop :=
  ∃ body ending, tokens = body ++ [ending] ∧ ending.kind = .endOfInput ∧ Phrase .sum body

def descent (tokens : List Token) : Except Obstacle Reading :=
  match phrase (3 * tokens.length + 3) .sum Chunk.maxConstants tokens with
  | .error obstacle => .error obstacle
  | .ok expression => expression.expect .endOfInput .expectEnd

/-- What is read as a whole source is a sentence in front of the end. -/
theorem descent_sound {tokens : List Token} {reading : Reading}
    (read : descent tokens = .ok reading) :
    ∃ body ending, tokens = body ++ ending :: reading.rest ∧ ending.kind = .endOfInput ∧
      Derives .sum body reading.tree ∧ reading.tree.literals.length ≤ Chunk.maxConstants := by
  rw [descent] at read
  split at read
  · cases read
  next expression inside =>
    obtain ⟨body, accounts⟩ := phrase_sound _ _ _ _ _ inside
    obtain ⟨ending, rest, shape, last, rfl⟩ := Reading.expect_eq_ok read
    refine ⟨body, ending, by rw [← shape, ← accounts.tokens_eq], last, accounts.derives, ?_⟩
    have room := accounts.room_eq
    simp only
    omega

/-- Every sentence whose literals fit into the pool is read. -/
theorem descent_of_derives {body : List Token} {ending : Token} {tree : Tree}
    (derives : Derives .sum body tree) (kind : ending.kind = .endOfInput)
    (fits : tree.literals.length ≤ Chunk.maxConstants) :
    descent (body ++ [ending]) =
      .ok ⟨tree, Chunk.maxConstants - tree.literals.length, []⟩ := by
  -- No layer goes on at the end of the input.
  have stopped (layer : Layer) : ∀ t ∈ [ending].head?, layer.operator? t.kind = none := by
    intro t member
    cases member
    cases layer <;> simp [kind, Layer.operator?]
  obtain ⟨_, -, read⟩ := derives.phrase (3 * (body ++ [ending]).length + 3) Chunk.maxConstants
    [ending] (by simp only [Layer.calls, List.length_append]; omega) fits (stopped _)
  rw [descent, read, continued_of_stopped _ _ _ (stopped _)]
  simp [Reading.expect, kind]

/-- What stops the reading of a whole source is what its fault says, behind tokens that some whole
source starts with. -/
theorem descent_justified {tokens : List Token} {o : Obstacle} (stopped : descent tokens = .error o) :
    o.Justified Chunk.maxConstants Whole tokens := by
  rw [descent] at stopped
  split at stopped
  next obstacle inside =>
    cases stopped
    have bound : 3 * tokens.length + Layer.sum.calls ≤ 3 * tokens.length + 3 := Nat.le_refl _
    refine (phrase_justified bound inside).behind [] rfl fun part sentence => ?_
    let ending : Token := ⟨.endOfInput, [], 0, 0⟩
    exact ⟨[ending], part, ending, rfl, rfl, sentence⟩
  next expression inside =>
    obtain ⟨body, accounts⟩ := phrase_sound _ _ _ _ _ inside
    obtain ⟨rfl, other⟩ := Reading.expect_eq_error stopped
    refine ⟨body, accounts.tokens_eq, other, ?_⟩
    exact fun t last => ⟨[], body, t, rfl, last, expression.tree, accounts.derives⟩

end Abacus.Grammar
