import Abacus.Bytecode.Opcode
import Abacus.Token.Basic

/-!
# The grammar of expressions

A source is one arithmetic expression in three layers:

    sum     ::= product (('+' | '-') product)*
    product ::= unary (('*' | '/') unary)*
    unary   ::= '-' unary | NUMBER | '(' sum ')'

`Derives` relates the tokens of a phrase to its syntax tree. A repetition is read as left
recursion, so the operators of a layer associate to the left. The post-order of a tree is the
order in which its code is written: each operand before its operator.
-/
namespace Abacus.Grammar

/-- The layers of the grammar, from loose to tight. -/
inductive Layer
  | sum | product | unary
  deriving DecidableEq, Repr

inductive Operator
  | add | subtract | multiply | divide
  deriving DecidableEq, Repr

def Operator.opcode : Operator → Opcode
  | add => .add
  | subtract => .subtract
  | multiply => .multiply
  | divide => .divide

namespace Layer

/-- The layer of the right operands. -/
def tighter : Layer → Layer
  | sum => product
  | product => unary
  | unary => unary

/-- The operators that join the phrases of a layer. -/
def operator? : Layer → Kind → Option Operator
  | sum, .punctuator .plus => some .add
  | sum, .punctuator .minus => some .subtract
  | product, .punctuator .star => some .multiply
  | product, .punctuator .slash => some .divide
  | _, _ => none

/-- The four operators, each with its layer and its token. -/
theorem operator?_cases {layer : Layer} {kind : Kind} {operator : Operator}
    (joins : layer.operator? kind = some operator) :
    (layer = sum ∧ kind = .punctuator .plus ∧ operator = .add) ∨
    (layer = sum ∧ kind = .punctuator .minus ∧ operator = .subtract) ∨
    (layer = product ∧ kind = .punctuator .star ∧ operator = .multiply) ∨
    (layer = product ∧ kind = .punctuator .slash ∧ operator = .divide) := by
  unfold operator? at joins
  split at joins <;> cases joins <;> simp

end Layer

/-- Syntax trees keep the tokens of their literals and operators. Parentheses leave no trace. -/
inductive Tree
  | literal (number : Token)
  | negation (minus : Token) (operand : Tree)
  | binary (operator : Operator) (symbol : Token) (left right : Tree)
  deriving DecidableEq, Repr

/-- The tokens of a phrase of a layer, with its tree. -/
inductive Derives : Layer → List Token → Tree → Prop
  | literal {number : Token} : number.kind = .number → Derives .unary [number] (.literal number)
  | negation {minus : Token} {tokens : List Token} {operand : Tree} :
      minus.kind = .punctuator .minus → Derives .unary tokens operand →
      Derives .unary (minus :: tokens) (.negation minus operand)
  | group {opening closing : Token} {tokens : List Token} {tree : Tree} :
      opening.kind = .punctuator .leftParen → Derives .sum tokens tree →
      closing.kind = .punctuator .rightParen →
      Derives .unary (opening :: tokens ++ [closing]) tree
  | single {layer : Layer} {tokens : List Token} {tree : Tree} :
      Derives layer.tighter tokens tree → Derives layer tokens tree
  | join {layer : Layer} {before after : List Token} {symbol : Token} {operator : Operator}
      {left right : Tree} :
      Derives layer before left → layer.operator? symbol.kind = some operator →
      Derives layer.tighter after right →
      Derives layer (before ++ symbol :: after) (.binary operator symbol left right)

def numbers (tokens : List Token) : List Token := tokens.filter (·.kind == .number)

/-! ## Post-order -/

/-- What an instruction is made from: its opcode and the token it came from. -/
structure Node where
  opcode : Opcode
  token : Token
  deriving DecidableEq, Repr

namespace Tree

def postorder : Tree → List Node
  | literal number => [⟨.constant, number⟩]
  | negation minus operand => operand.postorder ++ [⟨.negate, minus⟩]
  | binary operator symbol left right =>
    left.postorder ++ right.postorder ++ [⟨operator.opcode, symbol⟩]

def literals : Tree → List Token
  | literal number => [number]
  | negation _ operand => operand.literals
  | binary _ _ left right => left.literals ++ right.literals

end Tree

/-- The instructions of nodes in order, the constants numbered from `next` on. -/
def instructions : Nat → List Node → List Instruction
  | _, [] => []
  | next, ⟨.constant, _⟩ :: rest => .constant (UInt8.ofNat next) :: instructions (next + 1) rest
  | next, ⟨op, _⟩ :: rest => .simple op :: instructions next rest

@[simp] theorem numbers_append (before after : List Token) :
    numbers (before ++ after) = numbers before ++ numbers after :=
  List.filter_append ..

theorem numbers_cons_of_ne (t : Token) (rest : List Token) (other : t.kind ≠ .number) :
    numbers (t :: rest) = numbers rest := by
  simp [numbers, other]

theorem ne_number_of_operator {layer : Layer} {kind : Kind} {operator : Operator}
    (joins : layer.operator? kind = some operator) : kind ≠ .number := by
  rcases Layer.operator?_cases joins with ⟨-, rfl, -⟩ | ⟨-, rfl, -⟩ | ⟨-, rfl, -⟩ | ⟨-, rfl, -⟩ <;>
    simp

/-- The literals of a tree are the numbers among its tokens, in the order of the source. -/
theorem Derives.numbers_eq {layer : Layer} {tokens : List Token} {tree : Tree}
    (derives : Derives layer tokens tree) : numbers tokens = tree.literals := by
  induction derives with
  | literal kind => simp [numbers, kind, Tree.literals]
  | negation kind _ ih => rw [numbers_cons_of_ne _ _ (by simp [kind]), ih, Tree.literals]
  | group opening _ closing ih =>
    rw [List.cons_append, numbers_cons_of_ne _ _ (by simp [opening]), numbers_append, ih,
      numbers_cons_of_ne _ _ (by simp [closing])]
    simp [numbers]
  | single _ ih => exact ih
  | join _ joins _ left right =>
    rw [numbers_append, numbers_cons_of_ne _ _ (ne_number_of_operator joins), left, right,
      Tree.literals]

theorem Operator.opcode_ne_constant (operator : Operator) : operator.opcode ≠ .constant := by
  cases operator <;> simp [opcode]

/-- The constants of the post-order are the literals, from left to right. -/
theorem Tree.postorder_constants (tree : Tree) :
    (tree.postorder.filter (·.opcode == .constant)).map Node.token = tree.literals := by
  induction tree with
  | literal => rfl
  | negation _ _ ih => simp [postorder, literals, ih]
  | binary operator _ _ _ left right =>
    simp [postorder, literals, left, right, operator.opcode_ne_constant]

theorem instructions_append (next : Nat) (before after : List Node) :
    instructions next (before ++ after) = instructions next before ++
      instructions (next + (before.filter (·.opcode == .constant)).length) after := by
  -- A constant moves the numbering of everything after it.
  induction before generalizing next with
  | nil => simp [instructions]
  | cons node rest ih =>
    obtain ⟨op, token⟩ := node
    cases op <;> simp [instructions, ih, Nat.add_assoc, Nat.add_comm 1]

theorem Tree.constant_count (tree : Tree) :
    (tree.postorder.filter (·.opcode == .constant)).length = tree.literals.length := by
  rw [← postorder_constants, List.length_map]

end Abacus.Grammar
