import Abacus.Bytecode.Chunk
import Abacus.Number.Decimal
import Abacus.Proofs.Grammar

/-!
# Code of a syntax tree

`Tree.emit` appends the code of a tree to a chunk, operands first. What it appends is the post-order
of the tree: one instruction for each node, the line of the node's token beside it, and the value of
each literal in the pool, at the index that the literal's instruction names.
-/
namespace Abacus.Grammar

def literalValue (t : Token) : Value := .number (Decimal.readLiteral t.lexeme)

def Tree.emit : Tree → Chunk → Chunk
  | literal number, c =>
    { c with constants := c.constants.push (literalValue number) }.write
      (.constant (UInt8.ofNat c.constants.size)) number.line
  | negation minus operand, c => (operand.emit c).write (.simple .negate) minus.line
  | binary operator symbol left right, c =>
    (right.emit (left.emit c)).write (.simple operator.opcode) symbol.line

namespace Tree

theorem emit_constants (tree : Tree) (c : Chunk) :
    (tree.emit c).constants.toList = c.constants.toList ++ tree.literals.map literalValue := by
  induction tree generalizing c with
  | literal => simp [emit, literals, Chunk.write]
  | negation _ _ ih => simp [emit, literals, Chunk.write, ih]
  | binary _ _ _ _ left right => simp [emit, literals, Chunk.write, left, right]

theorem emit_constants_size (tree : Tree) (c : Chunk) :
    (tree.emit c).constants.size = c.constants.size + tree.literals.length := by
  have contents := congrArg List.length (tree.emit_constants c)
  simpa using contents

theorem emit_lines (tree : Tree) (c : Chunk) :
    (tree.emit c).lines.toList =
      c.lines.toList ++ tree.postorder.map fun node => (node.token.line : Int) := by
  induction tree generalizing c with
  | literal => simp [emit, postorder, Chunk.write]
  | negation _ _ ih => simp [emit, postorder, Chunk.write, ih]
  | binary _ _ _ _ left right => simp [emit, postorder, Chunk.write, left, right]

theorem instructions_operator (next : Nat) (operator : Operator) (symbol : Token) :
    instructions next [⟨operator.opcode, symbol⟩] = [.simple operator.opcode] := by
  cases operator <;> rfl

theorem emit_code (tree : Tree) (c : Chunk) :
    (tree.emit c).code.toList =
      c.code.toList ++ instructions c.constants.size tree.postorder := by
  induction tree generalizing c with
  | literal => simp [emit, postorder, Chunk.write, instructions]
  | negation _ _ ih =>
    simp [emit, postorder, Chunk.write, ih, instructions_append, instructions]
  | binary operator symbol left right ihLeft ihRight =>
    -- The right operand's constants are numbered after those of the left one.
    simp only [emit, postorder, Chunk.write, Array.toList_push, ihLeft, ihRight,
      emit_constants_size, instructions_append, constant_count, instructions_operator,
      List.append_assoc]

end Tree

end Abacus.Grammar
