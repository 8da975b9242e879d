import Abacus.Compiler.Compile

/-!
# Parsing does not look at places

The parser decides by the kinds and lexemes of tokens alone; their lines it only passes on, to the
code and to an error, and their offsets not even that. Stated for one step: taking the places away
before the step or after it gives the same parser (`Parser.bare`). Two sources whose tokens differ in
nothing but their places therefore compile alike (`compile_of_bare`).
-/
namespace Abacus

/-- The token without its place in the source. -/
def Token.bare (t : Token) : Token := ⟨t.kind, t.lexeme, 0, 0⟩

def SyntaxError.bare (e : SyntaxError) : SyntaxError := { e with line := 0 }

def Chunk.bare (c : Chunk) : Chunk := { c with lines := c.lines.map fun _ => 0 }

/-- The parser as it would be if no token had a place. -/
def Parser.bare (p : Parser) : Parser where
  pending := p.pending.map Token.bare
  current := p.current.bare
  previous := p.previous.bare
  chunk := p.chunk.bare
  failure := p.failure.map SyntaxError.bare
  requests := p.requests

theorem Chunk.bare_write (c : Chunk) (i : Instruction) (line : Int) :
    (c.write i line).bare = c.bare.write i 0 := by
  simp [bare, write]

theorem Chunk.bare_makeConstant (c : Chunk) (v : Value) :
    c.bare.makeConstant v = (c.makeConstant v).map fun made => (made.1, made.2.bare) := by
  unfold makeConstant addConstant
  by_cases full : c.constants.size ≥ maxConstants
  · have full' : c.bare.constants.size ≥ maxConstants := full
    rw [if_pos full, if_pos full']
    rfl
  · have room : ¬ c.bare.constants.size ≥ maxConstants := full
    rw [if_neg full, if_neg room]
    rfl

namespace Parser

theorem bare_fail (p : Parser) (t : Token) (fault : SyntaxFault) :
    (p.fail t fault).bare = p.bare.fail t.bare fault := by
  unfold fail bare
  cases p.failure <;> rfl

theorem bare_emit (p : Parser) (op : Opcode) (line : Nat) :
    (p.emit op line).bare = p.bare.emit op 0 := by
  simp only [emit, bare, Chunk.bare_write]
  rfl

theorem bare_pull (pending : List Token) (p : Parser) :
    (pull pending p).bare = pull (pending.map Token.bare) p.bare := by
  induction pending generalizing p with
  | nil => rfl
  | cons t rest ih =>
    simp only [pull, List.map_cons]
    by_cases error : t.isError = true
    -- An error is recorded and passed over.
    · have error' : t.bare.isError = true := error
      rw [if_pos error, if_pos error', ih, bare_fail]
      rfl
    · have sound : ¬ t.bare.isError = true := error
      rw [if_neg error, if_neg sound]
      rfl

theorem bare_advance (p : Parser) : p.advance.bare = p.bare.advance :=
  bare_pull p.pending { p with previous := p.current }

theorem bare_expect (p : Parser) (kind : Kind) (fault : SyntaxFault) :
    (p.expect kind fault).bare = p.bare.expect kind fault := by
  have looked : p.bare.current.kind = p.current.kind := rfl
  unfold expect
  rw [looked]
  split
  · exact bare_advance p
  · exact bare_fail p p.current fault

theorem bare_emitLiteral (p : Parser) : p.emitLiteral.bare = p.bare.emitLiteral := by
  have taken : p.bare.previous.lexeme = p.previous.lexeme := rfl
  have written : p.bare.chunk = p.chunk.bare := rfl
  unfold emitLiteral
  rw [taken, written]
  cases Decimal.readLiteral? p.previous.lexeme with
  | none => exact bare_fail p p.previous .invalidNumber
  | some n =>
    simp only [Chunk.bare_makeConstant]
    cases p.chunk.makeConstant (.number n) with
    | error e => exact bare_fail p p.previous .tooManyConstants
    | ok made =>
      simp only [Except.map, bare, Chunk.bare_write]
      rfl

theorem bare_emitOperator (p : Parser) (operator : Token) :
    (p.emitOperator operator).bare = p.bare.emitOperator operator.bare := by
  have named : operator.bare.kind = operator.kind := rfl
  unfold emitOperator
  rw [named]
  cases operation? operator.kind with
  | none => rfl
  | some op => exact bare_emit p op operator.line

/-- The whole recursion, on fuel. -/
theorem bare_parsing (fuel : Nat) :
    (∀ level p, (operand fuel level p).bare = operand fuel level p.bare) ∧
      ∀ level p, (operators fuel level p).bare = operators fuel level p.bare := by
  induction fuel with
  | zero => exact ⟨fun _ _ => rfl, fun _ _ => rfl⟩
  | succ fuel ih =>
    obtain ⟨operands, loops⟩ := ih
    constructor
    · intro level p
      have opened : p.bare.advance.previous.kind = p.advance.previous.kind := by
        rw [← bare_advance]
        rfl
      simp only [operand, opened]
      -- No operand starts here, or a literal, a group or a negation does.
      split
      · rw [bare_fail, ← bare_advance]
        rfl
      · rw [loops, bare_emitLiteral, bare_advance]
      · rw [loops, bare_expect, operands, bare_advance]
      · rw [loops, bare_emit, operands, ← bare_advance]
        rfl
    · intro level p
      have untroubled : p.bare.failure.isNone = p.failure.isNone := Option.isNone_map
      have looked : p.bare.current.kind = p.current.kind := rfl
      simp only [operators, untroubled, looked]
      split
      · rw [loops, bare_emitOperator, operands, ← bare_advance]
        rfl
      · rfl

theorem bare_start (tokens : List Token) :
    (start tokens).bare = start (tokens.map Token.bare) := by
  simp [start, bare, Chunk.bare, Chunk.empty, Token.bare, noToken]

theorem bare_run (tokens : List Token) : (run tokens).bare = run (tokens.map Token.bare) := by
  have parsed := (bare_parsing (2 * tokens.length + 2)).1 termLevel (start tokens).advance
  rw [bare_advance, bare_start] at parsed
  unfold run
  rw [List.length_map, ← parsed]
  dsimp only
  rw [← bare_expect]
  exact bare_emit _ _ _

end Parser

/-- Of two sources whose tokens differ in nothing but their places, the one compiles if the other
does, into a chunk that differs in nothing but its lines. If the other fails, so does the one, with
an error that differs in nothing but the line. -/
theorem compile_of_bare {source other : Bytes}
    (same : (tokenize other).map Token.bare = (tokenize source).map Token.bare) :
    (∀ c, compile source = .ok c →
      ∃ lines, lines.size = c.lines.size ∧ compile other = .ok { c with lines := lines }) ∧
    ∀ e, compile source = .error e → ∃ line, compile other = .error { e with line := line } := by
  have alike : (Parser.run (tokenize other)).bare = (Parser.run (tokenize source)).bare := by
    rw [Parser.bare_run, same, Parser.bare_run]
  have failures := congrArg Parser.failure alike
  have chunks := congrArg Parser.chunk alike
  simp only [Parser.bare, Chunk.bare, Chunk.mk.injEq] at failures chunks
  unfold compile
  dsimp only
  constructor
  · intro c compiled
    cases first : (Parser.run (tokenize source)).failure with
    | some e => simp [first] at compiled
    | none =>
      obtain rfl : _ = c := by simpa [first] using compiled
      obtain ⟨code, constants, lines⟩ := chunks
      have fine : (Parser.run (tokenize other)).failure = none := by simpa [first] using failures
      have sizes := congrArg Array.size lines
      simp only [Array.size_map] at sizes
      exact ⟨_, sizes, by rw [fine, ← code, ← constants]⟩
  · intro e failed
    cases first : (Parser.run (tokenize source)).failure with
    | none => simp [first] at failed
    | some e' =>
      obtain rfl : e' = e := by simpa [first] using failed
      obtain ⟨f, second, bare⟩ : ∃ f, (Parser.run (tokenize other)).failure = some f ∧
          f.bare = e'.bare := by simpa [first] using failures
      simp only [SyntaxError.bare, SyntaxError.mk.injEq, true_and] at bare
      exact ⟨f.line, by rw [second, ← bare.1, ← bare.2]⟩

end Abacus
