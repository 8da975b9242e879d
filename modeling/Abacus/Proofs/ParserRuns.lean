import Abacus.Compiler.Parser
import Abacus.Proofs.TokenStream

/-!
# What runs of the parser preserve

The parser keeps parsing after an error, over tokens that may themselves be errors. Whatever its
few primitive steps preserve holds at the end of a run (`Preserved`); in particular the first error
stays.
-/
namespace Abacus.Parser

/-- The primitive steps of the parser preserve a property. Errors are recorded at the token that was
taken last or at the one that is looked at. -/
structure Preserved (P : Parser → Prop) : Prop where
  advance : ∀ p, P p → P p.advance
  fail : ∀ p t fault, t = p.previous ∨ t = p.current → P p → P (p.fail t fault)
  chunk : ∀ p c, P p → P { p with chunk := c }

namespace Preserved

variable {P : Parser → Prop} (steps : Preserved P)
include steps

theorem expect (p : Parser) (kind : Kind) (fault : SyntaxFault) (holds : P p) :
    P (p.expect kind fault) := by
  unfold Parser.expect
  split
  · exact steps.advance p holds
  · exact steps.fail p _ _ (.inr rfl) holds

theorem emitLiteral (p : Parser) (holds : P p) : P p.emitLiteral := by
  unfold Parser.emitLiteral
  split
  · exact steps.fail p _ _ (.inl rfl) holds
  · split
    · exact steps.chunk p _ holds
    · exact steps.fail p _ _ (.inl rfl) holds

theorem emitOperator (p : Parser) (t : Token) (holds : P p) : P (p.emitOperator t) := by
  unfold Parser.emitOperator
  split
  · exact steps.chunk p _ holds
  · exact holds

private theorem parsing (fuel : Nat) :
    (∀ level p, P p → P (operand fuel level p)) ∧ (∀ level p, P p → P (operators fuel level p)) := by
  -- Operands and the loop call each other with less fuel.
  induction fuel with
  | zero => exact ⟨fun _ _ holds => holds, fun _ _ holds => holds⟩
  | succ fuel ih =>
    obtain ⟨operands, loops⟩ := ih
    refine ⟨fun level p holds => ?_, fun level p holds => ?_⟩
    · have taken := steps.advance p holds
      simp only [operand]
      -- No operand starts here, or a literal, a group or a negation does.
      split
      · exact steps.fail _ _ _ (.inl rfl) taken
      · exact loops level _ (steps.emitLiteral _ taken)
      · exact loops level _ (steps.expect _ _ _ (operands _ _ taken))
      · exact loops level _ (steps.chunk _ _ (operands _ _ taken))
    · simp only [operators]
      split
      · exact loops level _ (steps.emitOperator _ _ (operands _ _ (steps.advance p holds)))
      · exact holds

theorem operand (fuel level : Nat) (p : Parser) (holds : P p) : P (operand fuel level p) :=
  (parsing steps fuel).1 level p holds

theorem operators (fuel level : Nat) (p : Parser) (holds : P p) : P (operators fuel level p) :=
  (parsing steps fuel).2 level p holds

end Preserved

theorem fail_failure (p : Parser) (t : Token) (fault : SyntaxFault) (e : SyntaxError)
    (failed : p.failure = some e) : (p.fail t fault).failure = some e := by
  simp [fail, failed]

theorem pull_failure (pending : List Token) (p : Parser) (e : SyntaxError)
    (failed : p.failure = some e) : (pull pending p).failure = some e := by
  induction pending generalizing p with
  | nil => exact failed
  | cons t rest ih =>
    simp only [pull]
    split
    · exact ih _ (fail_failure _ _ _ e failed)
    · exact failed

theorem failure_preserved (e : SyntaxError) : Preserved fun p => p.failure = some e where
  advance p failed := pull_failure p.pending _ e failed
  fail p t fault _ failed := fail_failure p t fault e failed
  chunk _ _ failed := failed

/-- The parser where the expression of a source has been parsed. -/
def afterExpression (tokens : List Token) : Parser :=
  operand (2 * tokens.length + 2) termLevel (start tokens).advance

theorem run_eq (tokens : List Token) :
    run tokens =
      let p := (afterExpression tokens).expect .endOfInput .expectEnd
      p.emit .ret p.previous.line := rfl

end Abacus.Parser
