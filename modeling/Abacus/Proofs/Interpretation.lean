import Abacus.Proofs.Compilation
import Abacus.Proofs.Runs
import Abacus.Proofs.Validity

/-!
# Interpreting a source is evaluating its tree

The value of a syntax tree is computed by recursion, with any arithmetic. Running the code of a tree
pushes that value, whatever code follows and whatever is on the stack already; so the machine, which
compiles the source and runs the code, returns the value of the source's tree and cannot fault.
-/
namespace Abacus

open Grammar

namespace Grammar

/-- What an operator does with the values of its operands. -/
def Operator.apply (a : Arithmetic) : Operator → Binary64 → Binary64 → Binary64
  | add => a.add
  | subtract => a.subtract
  | multiply => a.multiply
  | divide => a.divide

def Tree.eval (a : Arithmetic) : Tree → Binary64
  | literal number => Decimal.readLiteral number.lexeme
  | negation _ operand => a.negate (operand.eval a)
  | binary operator _ left right => operator.apply a (left.eval a) (right.eval a)

end Grammar

namespace Run

/-- The pool holds the values of these literals from an index on. -/
def Holds (c : Chunk) (next : Nat) (literals : List Token) : Prop :=
  ∀ k t, literals[k]? = some t → c.constants[next + k]? = some (literalValue t)

theorem Holds.split {c : Chunk} {next : Nat} {before after : List Token}
    (holds : Holds c next (before ++ after)) :
    Holds c next before ∧ Holds c (next + before.length) after := by
  refine ⟨fun k t found => ?_, fun k t found => ?_⟩
  · apply holds k t
    rw [List.getElem?_append_left (List.getElem?_eq_some_iff.mp found).1]
    exact found
  · rw [Nat.add_assoc]
    apply holds
    rw [List.getElem?_append_right (Nat.le_add_right ..), Nat.add_sub_cancel_left]
    exact found

theorem step_constant (a : Arithmetic) (c : Chunk) (index : Nat) (v : Value) (stack : List Value)
    (small : index < Chunk.maxConstants) (found : c.constants[index]? = some v) :
    step a c (.constant (UInt8.ofNat index)) stack = .next (v :: stack) := by
  have same : (UInt8.ofNat index).toNat = index := by
    rw [UInt8.toNat_ofNat']
    exact Nat.mod_eq_of_lt small
  simp only [step, Instruction.opcode?_constant]
  simp only [Instruction.constant, same, found]

theorem step_negate (a : Arithmetic) (c : Chunk) (x : Binary64) (stack : List Value) :
    step a c (.simple .negate) (.number x :: stack) = .next (.number (a.negate x) :: stack) := by
  simp [step, negation, Value.number, Value.isNumber]

theorem step_operator (a : Arithmetic) (c : Chunk) (operator : Operator) (x y : Binary64)
    (stack : List Value) :
    step a c (.simple operator.opcode) (.number y :: .number x :: stack) =
      .next (.number (operator.apply a x y) :: stack) := by
  -- The right operand was pushed last and is on top.
  cases operator <;>
    simp [step, binary, combine, Operator.opcode, Operator.apply, Value.number, Value.isNumber]

theorem loop_tree (a : Arithmetic) (c : Chunk) (tree : Tree) (next index : Nat)
    (rest : List Instruction) (stack : List Value) (holds : Holds c next tree.literals)
    (fits : next + tree.literals.length ≤ Chunk.maxConstants) :
    loop a c (instructions next tree.postorder ++ rest) index stack =
      loop a c rest (index + tree.postorder.length) (.number (tree.eval a) :: stack) := by
  -- The code that follows and the stack are arbitrary, because for an operand they are the code of
  -- the rest of the tree and the values of the operands before it.
  induction tree generalizing next index rest stack with
  | literal number =>
    have found := holds 0 number rfl
    simp only [Tree.literals, List.length_singleton] at fits
    have pushed := step_constant a c next _ stack (by omega) found
    simp only [Tree.postorder, instructions, List.singleton_append, loop, pushed]
    rfl
  | negation minus operand ih =>
    simp only [Tree.postorder, instructions_append, List.append_assoc]
    rw [ih next index _ stack holds fits]
    simp only [instructions, List.singleton_append, loop, step_negate, Tree.eval,
      List.length_append, List.length_singleton, Nat.add_assoc]
  | binary operator symbol left right ihLeft ihRight =>
    simp only [Tree.literals, List.length_append] at fits
    obtain ⟨holdsLeft, holdsRight⟩ := holds.split
    simp only [Tree.postorder, instructions_append, Tree.constant_count, List.append_assoc]
    -- The left value lies below the right one when the operator comes.
    rw [ihLeft next index _ stack holdsLeft (by omega),
      ihRight (next + left.literals.length) _ _ _ holdsRight (by omega),
      Tree.instructions_operator]
    simp only [List.singleton_append, loop, step_operator, Tree.eval, List.length_append,
      List.length_singleton, Nat.add_assoc]

theorem run_emitted (a : Arithmetic) (tree : Tree) (ending : Token)
    (fits : tree.literals.length ≤ Chunk.maxConstants) :
    run a ((tree.emit .empty).write (.simple .ret) ending.line) = .ok (.number (tree.eval a)) := by
  obtain ⟨code, constants, -⟩ := emitted_contents tree ending
  -- The pool was empty at first, so the literals lie in it from index zero on.
  generalize (tree.emit .empty).write (.simple .ret) ending.line = c at code constants
  have holds : Holds c 0 tree.literals := by
    intro k t found
    rw [Nat.zero_add, ← Array.getElem?_toList, constants, List.getElem?_map, found]
    rfl
  rw [run, code, loop_tree a c tree 0 0 _ [] holds (by omega)]
  simp [loop, step]

end Run

namespace Machine

theorem execute_of_run (m : Machine) (c : Chunk) (v : Value)
    (returned : Run.run m.arithmetic c = .ok v) :
    (m.execute (some c)).result = .ok v ∧
      (m.execute (some c)).machine =
        { m with chunk := some c, stack := [], status := .halted,
                 output := m.output.map (·.offer (v.print ++ [newline])) } := by
  rw [execute, run_loaded _ c rfl, conclude_result]
  simp only [load, returned, conclude_ok_machine, and_true]
  rfl

theorem interpret_standard (m : Machine) (source : Bytes) :
    (m.useFrontEnd (some .standard)).interpret source =
      match compile source with
      | .error e =>
        ⟨m.useFrontEnd (some .standard), .error (.compile (.rejected e)),
          [compilationEntry (compile source)]⟩
      | .ok c =>
        { (m.useFrontEnd (some .standard)).execute (some c) with
          log := [compilationEntry (compile source)] ++
            ((m.useFrontEnd (some .standard)).execute (some c)).log } := by
  cases compiled : compile source <;>
    simp [interpret, useFrontEnd, FrontEnd.standard, compiled]

end Machine

theorem Sink.offer_content (s : Sink) (piece : Bytes) (accepts : s.left ≠ some 0) :
    (s.offer piece).content = s.content ++ piece := by
  unfold offer write
  split
  · simp [content]
  next closed => exact absurd closed accepts
  · simp [content]

/-- Interpreting a source, from any state and with any arithmetic, gives the value of its syntax
tree: one line for the sink, no fault, and a machine that has halted with nothing on its stack. A
source that does not compile is refused with the compiler's error and leaves everything as it was. -/
theorem interpret_evaluates (m : Machine) (source : Bytes) :
    let before := m.useFrontEnd (some .standard)
    let reply := before.interpret source
    match compile source with
    | .ok c =>
      ∃ body ending tree, tokenize source = body ++ [ending] ∧ ending.kind = .endOfInput ∧
        Derives .sum body tree ∧ (∀ other, Derives .sum body other → other = tree) ∧
        reply.result = .ok (.number (tree.eval m.arithmetic)) ∧
        reply.machine.status = .halted ∧ reply.machine.stack = [] ∧
        reply.machine.chunk = some c ∧
        reply.machine.output = m.output.map
          (·.offer ((Value.number (tree.eval m.arithmetic)).print ++ [newline])) ∧
        ∀ sink ∈ m.output, sink.left ≠ some 0 → ∀ sink' ∈ reply.machine.output,
          sink'.content =
            sink.content ++ (Value.number (tree.eval m.arithmetic)).print ++ [newline]
    | .error e =>
      reply.result = .error (.compile (.rejected e)) ∧ reply.machine = before := by
  dsimp only
  rw [Machine.interpret_standard]
  cases compiled : compile source with
  | error e => exact ⟨rfl, rfl⟩
  | ok c =>
    obtain ⟨body, ending, shape, kind, others⟩ := tokenize_shape source
    obtain ⟨clean, tree, derives, fits⟩ :=
      derives_of_compile source body ending c shape kind compiled
    have emitted := compile_of_derives source body ending tree shape kind clean derives fits
    obtain rfl := Except.ok.inj (compiled.symm.trans emitted)
    obtain ⟨result, machine⟩ := Machine.execute_of_run (m.useFrontEnd (some .standard)) _ _
      (Run.run_emitted m.arithmetic tree ending fits)
    refine ⟨body, ending, tree, shape, kind, derives, fun other second => second.unique derives,
      result, ?_⟩
    dsimp only
    rw [machine]
    refine ⟨rfl, rfl, rfl, rfl, ?_⟩
    -- A sink that still accepts has taken the whole line.
    intro sink given accepts sink' after
    obtain ⟨_, same, rfl⟩ := Option.map_eq_some_iff.mp after
    cases given.symm.trans same
    rw [Sink.offer_content sink _ accepts, List.append_assoc]

end Abacus
