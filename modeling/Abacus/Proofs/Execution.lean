import Abacus.Proofs.Runs
import Abacus.Proofs.Validity

/-!
# How a run ends

The opcode table says how many values an instruction takes and leaves. From the table alone follows
the depth of the stack before each instruction, and with the values that the operations produce, the
stack itself. A run ends at the first instruction for which one of a few conditions on these holds
(`verdict?`), tested in a fixed order; if there is none it runs past the end of the code. Nothing is
assumed about the chunk: its code, constants and lines may be anything.
-/
namespace Abacus

/-- The opcodes that need numbers. -/
def Opcode.isArithmetic (op : Opcode) : Bool := op.isBinary || op == .negate

/-- How many values an instruction takes from the stack; an unknown one takes none. -/
def Instruction.pops (i : Instruction) : Nat := (i.opcode?.map Opcode.pops).getD 0

/-- How many values an instruction leaves on the stack. -/
def Instruction.pushes (i : Instruction) : Nat := (i.opcode?.map Opcode.pushes).getD 0

namespace Run

/-! ## Depth and stack by the table -/

/-- The depth before the instruction at an index: what the instructions before it leave, less what
they take. -/
def depthBefore (c : Chunk) (index : Nat) : Int :=
  (c.code.toList.take index).foldl (fun depth i => depth + ((i.pushes : Int) - i.pops)) 0

/-- The values that an instruction makes of its operands, the upper one first. -/
def produced (a : Arithmetic) (c : Chunk) (i : Instruction) (operands : List Value) : List Value :=
  match i.opcode?, operands with
  | some .constant, _ => c.constants[i.operand.toNat]?.toList
  | some .add, [right, left] => [.number (a.add left.payload right.payload)]
  | some .subtract, [right, left] => [.number (a.subtract left.payload right.payload)]
  | some .multiply, [right, left] => [.number (a.multiply left.payload right.payload)]
  | some .divide, [right, left] => [.number (a.divide left.payload right.payload)]
  | some .negate, [operand] => [.number (a.negate operand.payload)]
  | _, _ => []

/-- Takes the operands of an instruction from the stack and puts its results there. -/
def applied (a : Arithmetic) (c : Chunk) (stack : List Value) (i : Instruction) : List Value :=
  produced a c i (stack.take i.pops) ++ stack.drop i.pops

/-- The stack before the instruction at an index if all those before it have been applied. -/
def stackBefore (a : Arithmetic) (c : Chunk) (index : Nat) : List Value :=
  (c.code.toList.take index).foldl (applied a c) []

/-! ## What ends a run -/

/-- Whether and how a run ends at an instruction, by the first of these conditions that holds: its
opcode is unknown, its constant is not in the pool, the stack is too small for its operands, an
operand of arithmetic is not a number, or it returns. -/
def verdict? (c : Chunk) (i : Instruction) (depth : Int) (stack : List Value) :
    Option (Except FaultKind Value) :=
  match i.opcode? with
  | none => some (.error (.unknownOpcode i.code))
  | some op =>
    if op = .constant ∧ c.constants.size ≤ i.operand.toNat then
      some (.error (.constantOutOfRange i.operand c.constants.size))
    else if depth < op.pops then some (.error .stackUnderflow)
    else if op.isArithmetic ∧ ∃ v ∈ stack.take op.pops, v.isNumber = false then
      some (.error (if op = .negate then .operandNotNumber else .operandsNotNumbers))
    else if op = .ret then stack.head?.map .ok
    else none

def verdictAt? (a : Arithmetic) (c : Chunk) (index : Nat) : Option (Except FaultKind Value) :=
  c.code[index]?.bind fun i => verdict? c i (depthBefore c index) (stackBefore a c index)

/-- The log entries of the first instructions, each with the depth before it. -/
def entries (c : Chunk) (count : Nat) : List LogEntry :=
  (List.range count).filterMap fun index =>
    c.code[index]?.map fun i => traceEntry index i (depthBefore c index).toNat

/-- What an instruction does by the verdict on it: end the run, or go on with a stack. -/
def Step.ofVerdict : Option (Except FaultKind Value) → List Value → Step
  | some (.ok v), _ => .done v
  | some (.error kind), _ => .stop kind
  | none, stack => .next stack

/-! ## One instruction -/

private theorem step_constant_verdict (a : Arithmetic) (c : Chunk) (i : Instruction)
    (stack : List Value) (known : i.opcode? = some .constant) :
    step a c i stack = .ofVerdict (verdict? c i stack.length stack) (applied a c stack i) := by
  have deep : ¬ (stack.length : Int) < 0 := by omega
  cases found : c.constants[i.operand.toNat]? with
  | none =>
    have outside : c.constants.size ≤ i.operand.toNat := Array.getElem?_eq_none_iff.mp found
    simp [step, verdict?, known, outside, Step.ofVerdict]
  | some v =>
    have inside : i.operand.toNat < c.constants.size := (Array.getElem?_eq_some_iff.mp found).1
    simp [step, verdict?, known, found, Nat.not_le.mpr inside, deep, Step.ofVerdict, applied,
      produced, Instruction.pops, Opcode.pops, Opcode.isArithmetic, Opcode.isBinary]

private theorem step_ret_verdict (a : Arithmetic) (c : Chunk) (i : Instruction)
    (stack : List Value) (known : i.opcode? = some .ret) :
    step a c i stack = .ofVerdict (verdict? c i stack.length stack) (applied a c stack i) := by
  cases stack with
  | nil => simp [step, verdict?, known, Step.ofVerdict, Opcode.pops]
  | cons v rest =>
    have deep : ¬ (rest.length : Int) + 1 < 1 := by omega
    simp [step, verdict?, known, deep, Step.ofVerdict, Opcode.pops, Opcode.isArithmetic,
      Opcode.isBinary]

private theorem step_negate_verdict (a : Arithmetic) (c : Chunk) (i : Instruction)
    (stack : List Value) (known : i.opcode? = some .negate) :
    step a c i stack = .ofVerdict (verdict? c i stack.length stack) (applied a c stack i) := by
  cases stack with
  | nil => simp [step, negation, verdict?, known, Step.ofVerdict, Opcode.pops]
  | cons v rest =>
    have deep : ¬ (rest.length : Int) + 1 < 1 := by omega
    cases number : v.isNumber <;>
      simp [step, negation, verdict?, known, number, deep, Step.ofVerdict, applied, produced,
        Instruction.pops, Opcode.pops, Opcode.isArithmetic]

private theorem step_binary_verdict (a : Arithmetic) (c : Chunk) (i : Instruction) (op : Opcode)
    (stack : List Value) (known : i.opcode? = some op) (isBinary : op.isBinary = true) :
    step a c i stack = .ofVerdict (verdict? c i stack.length stack) (applied a c stack i) := by
  -- Too small a stack is found before the operands are looked at.
  rcases stack with _ | ⟨right, _ | ⟨left, rest⟩⟩
  · cases op <;> simp [Opcode.isBinary] at isBinary <;>
      simp [step, binary, verdict?, known, Step.ofVerdict, Opcode.pops]
  · cases op <;> simp [Opcode.isBinary] at isBinary <;>
      simp [step, binary, verdict?, known, Step.ofVerdict, Opcode.pops]
  · have deep : ¬ (rest.length : Int) + 1 + 1 < 2 := by omega
    cases op <;> simp [Opcode.isBinary] at isBinary <;>
      cases numberRight : right.isNumber <;> cases numberLeft : left.isNumber <;>
      simp [step, binary, combine, verdict?, known, numberLeft, numberRight, deep, Step.ofVerdict,
        applied, produced, Instruction.pops, Opcode.pops, Opcode.isArithmetic, Opcode.isBinary]

theorem step_eq_ofVerdict (a : Arithmetic) (c : Chunk) (i : Instruction) (stack : List Value) :
    step a c i stack = .ofVerdict (verdict? c i stack.length stack) (applied a c stack i) := by
  cases known : i.opcode? with
  | none => simp [step, verdict?, known, Step.ofVerdict]
  | some op =>
    cases op with
    | constant => exact step_constant_verdict a c i stack known
    | ret => exact step_ret_verdict a c i stack known
    | negate => exact step_negate_verdict a c i stack known
    | add | subtract | multiply | divide =>
      exact step_binary_verdict a c i _ stack known rfl

/-- Where there is no verdict, none of the conditions holds. -/
theorem verdict?_eq_none {c : Chunk} {i : Instruction} {depth : Int} {stack : List Value}
    (quiet : verdict? c i depth stack = none) :
    ∃ op, i.opcode? = some op ∧ (op = .constant → i.operand.toNat < c.constants.size) ∧
      (op.pops : Int) ≤ depth ∧ (op = .ret → stack = []) := by
  unfold verdict? at quiet
  split at quiet
  · cases quiet
  next op known =>
    split at quiet
    · cases quiet
    next pooled =>
      split at quiet
      · cases quiet
      next deep =>
        refine ⟨op, known, fun constant => ?_, Int.not_lt.mp deep, fun ret => ?_⟩
        · exact Nat.not_le.mp fun outside => pooled ⟨constant, outside⟩
        · -- A return that is deep enough for the table but finds no value does not happen in a run.
          subst ret
          cases stack with
          | nil => rfl
          | cons v rest => simp [Opcode.isArithmetic, Opcode.isBinary] at quiet

/-- An instruction leaves as many values as the table says. -/
theorem produced_length (a : Arithmetic) (c : Chunk) (i : Instruction) (op : Opcode)
    (operands : List Value) (known : i.opcode? = some op)
    (pooled : op = .constant → i.operand.toNat < c.constants.size)
    (taken : operands.length = op.pops) (ret : op ≠ .ret) :
    (produced a c i operands).length = op.pushes := by
  cases op with
  | ret => exact absurd rfl ret
  | constant =>
    have inside := pooled rfl
    simp [produced, known, Array.getElem?_eq_getElem inside, Opcode.pushes]
  | negate =>
    obtain ⟨v, rfl⟩ := List.length_eq_one_iff.mp taken
    simp [produced, known, Opcode.pushes]
  | add | subtract | multiply | divide =>
    match operands, taken with
    | [right, left], _ => simp [produced, known, Opcode.pushes]

/-- The table accounts for the depth as long as the run goes on. -/
theorem applied_length (a : Arithmetic) (c : Chunk) (i : Instruction) (stack : List Value)
    (quiet : verdict? c i stack.length stack = none) :
    ((applied a c stack i).length : Int) = stack.length + ((i.pushes : Int) - i.pops) := by
  obtain ⟨op, known, pooled, deep, ret⟩ := verdict?_eq_none quiet
  have pops : i.pops = op.pops := by simp [Instruction.pops, known]
  have pushes : i.pushes = op.pushes := by simp [Instruction.pushes, known]
  have other : op ≠ .ret := by
    -- A return without a verdict has an empty stack, on which it would underflow.
    intro isRet
    rw [ret isRet, isRet] at deep
    simp [Opcode.pops] at deep
  have made := produced_length a c i op (stack.take op.pops) known pooled
    (by rw [List.length_take]; omega) other
  rw [applied, pops, pushes, List.length_append, made, List.length_drop]
  omega

/-! ## Reaching an instruction -/

/-- A run comes to an index with the stack that the table and the operations predict. -/
structure Reaches (a : Arithmetic) (c : Chunk) (index : Nat) : Prop where
  depth : ((stackBefore a c index).length : Int) = depthBefore c index
  run_eq : run a c = loop a c (c.code.toList.drop index) index (stackBefore a c index)
  trace_eq : trace a c =
    entries c index ++ traceLoop a c (c.code.toList.drop index) index (stackBefore a c index)

theorem take_succ_of_code {c : Chunk} {index : Nat} {i : Instruction}
    (found : c.code[index]? = some i) :
    c.code.toList.take (index + 1) = c.code.toList.take index ++ [i] := by
  rw [List.take_add_one, Array.getElem?_toList, found]
  rfl

theorem drop_of_code {c : Chunk} {index : Nat} {i : Instruction}
    (found : c.code[index]? = some i) :
    c.code.toList.drop index = i :: c.code.toList.drop (index + 1) := by
  rw [← Array.getElem?_toList] at found
  obtain ⟨inside, rfl⟩ := List.getElem?_eq_some_iff.mp found
  exact List.drop_eq_getElem_cons inside

theorem stackBefore_succ (a : Arithmetic) {c : Chunk} {index : Nat} {i : Instruction}
    (found : c.code[index]? = some i) :
    stackBefore a c (index + 1) = applied a c (stackBefore a c index) i := by
  simp [stackBefore, take_succ_of_code found]

theorem depthBefore_succ {c : Chunk} {index : Nat} {i : Instruction}
    (found : c.code[index]? = some i) :
    depthBefore c (index + 1) = depthBefore c index + ((i.pushes : Int) - i.pops) := by
  simp [depthBefore, take_succ_of_code found]

theorem entries_succ {c : Chunk} {index : Nat} {i : Instruction}
    (found : c.code[index]? = some i) :
    entries c (index + 1) = entries c index ++ [traceEntry index i (depthBefore c index).toNat] := by
  simp [entries, List.range_succ, found]

theorem reaches_start (a : Arithmetic) (c : Chunk) : Reaches a c 0 where
  depth := rfl
  run_eq := rfl
  trace_eq := rfl

namespace Reaches

variable {a : Arithmetic} {c : Chunk} {index : Nat} {i : Instruction}

theorem step_eq (reached : Reaches a c index) (found : c.code[index]? = some i) :
    step a c i (stackBefore a c index) =
      .ofVerdict (verdictAt? a c index) (stackBefore a c (index + 1)) := by
  rw [step_eq_ofVerdict, reached.depth, verdictAt?, found, stackBefore_succ a found]
  rfl

theorem entry_eq (reached : Reaches a c index) :
    traceEntry index i (stackBefore a c index).length =
      traceEntry index i (depthBefore c index).toNat := by
  rw [← reached.depth, Int.toNat_natCast]

/-- Without a verdict the run goes on to the next instruction. -/
theorem next (reached : Reaches a c index) (found : c.code[index]? = some i)
    (quiet : verdictAt? a c index = none) : Reaches a c (index + 1) where
  depth := by
    -- The verdict is on the depth by the table; so far this is the depth of the stack.
    have undecided : verdict? c i (stackBefore a c index).length (stackBefore a c index) = none := by
      rw [reached.depth]
      simpa [verdictAt?, found] using quiet
    rw [stackBefore_succ a found, applied_length a c i _ undecided, reached.depth,
      depthBefore_succ found]
  run_eq := by
    rw [reached.run_eq, drop_of_code found, loop, reached.step_eq found, quiet]
    rfl
  trace_eq := by
    rw [reached.trace_eq, drop_of_code found, traceLoop, reached.step_eq found, quiet,
      reached.entry_eq, entries_succ found]
    simp [Step.ofVerdict]

/-- A run reaches every index before which there is no verdict. -/
theorem of_quiet (a : Arithmetic) (c : Chunk) (index : Nat) (inside : index ≤ c.code.size)
    (quiet : ∀ j < index, verdictAt? a c j = none) : Reaches a c index := by
  induction index with
  | zero => exact reaches_start a c
  | succ index ih =>
    have reached := ih (by omega) (fun j before => quiet j (by omega))
    exact reached.next (Array.getElem?_eq_getElem (by omega)) (quiet index (by omega))

theorem decided (reached : Reaches a c index) (found : c.code[index]? = some i)
    (outcome : Except FaultKind Value) (verdict : verdictAt? a c index = some outcome) :
    run a c = outcome.mapError (⟨c.line index, i.code, ·⟩) ∧ trace a c = entries c (index + 1) := by
  refine ⟨?_, ?_⟩
  · rw [reached.run_eq, drop_of_code found, loop, reached.step_eq found, verdict]
    cases outcome <;> rfl
  · rw [reached.trace_eq, drop_of_code found, traceLoop, reached.step_eq found, verdict,
      reached.entry_eq, entries_succ found]
    cases outcome <;> rfl

theorem past_end (reached : Reaches a c c.code.size) :
    run a c = .error ⟨c.line ((c.code.size : Int) - 1), (c.code.back?.getD (.simple .ret)).code,
      .pastEnd c.code.size c.code.size⟩ ∧ trace a c = entries c c.code.size := by
  have beyond : c.code.toList.drop c.code.size = [] := by simp
  -- The fault blames what is read at the index before the end, a return where nothing is.
  have last : (c.read ((c.code.size : Int) - 1)).toOption.getD (.simple .ret) =
      c.code.back?.getD (.simple .ret) := by
    simp only [Chunk.read, Chunk.at?, Array.back?]
    cases size : c.code.size with
    | zero => simp [size, Except.toOption]
    | succ n =>
      have inside : n < c.code.size := by omega
      have index : ((n + 1 : Nat) : Int) - 1 = n := by omega
      rw [index, if_neg (by omega), Int.toNat_natCast, Nat.add_sub_cancel,
        Array.getElem?_eq_getElem inside]
      rfl
  refine ⟨?_, ?_⟩
  · rw [reached.run_eq, beyond, loop, pastEnd, last]
  · rw [reached.trace_eq, beyond, traceLoop, List.append_nil]

end Reaches

/-! ## Valid chunks of numbers -/

theorem applied_numbers (a : Arithmetic) (c : Chunk) (stack : List Value) (i : Instruction)
    (pool : ∀ v ∈ c.constants.toList, v.isNumber = true)
    (numbers : ∀ v ∈ stack, v.isNumber = true) :
    ∀ v ∈ applied a c stack i, v.isNumber = true := by
  intro v member
  rcases List.mem_append.mp member with made | old
  · unfold produced at made
    split at made
    -- Constants come from the pool; everything else that is made is a number by its tag.
    · exact pool v (Array.mem_toList_iff.mpr (Array.mem_of_getElem? (Option.mem_toList.mp made)))
    all_goals simp at made
    all_goals (subst made; rfl)
  · exact numbers v (List.mem_of_mem_drop old)

/-- On numbers an instruction that the chunk admits can fail only for want of operands. -/
theorem verdict?_of_admits (c : Chunk) (i : Instruction) (depth : Int) (stack : List Value)
    (kind : FaultKind) (admits : c.Admits i) (numbers : ∀ v ∈ stack, v.isNumber = true)
    (verdict : verdict? c i depth stack = some (.error kind)) : kind = .stackUnderflow := by
  obtain ⟨op, known, pooled⟩ := admits
  have inPool : ¬(op = .constant ∧ c.constants.size ≤ i.operand.toNat) := by
    rintro ⟨constant, outside⟩
    exact Nat.not_lt.mpr outside (pooled constant)
  have typed : ¬(op.isArithmetic = true ∧ ∃ v ∈ stack.take op.pops, v.isNumber = false) := by
    rintro ⟨-, v, member, other⟩
    rw [numbers v (List.mem_of_mem_take member)] at other
    cases other
  simp only [verdict?, known, if_neg inPool, if_neg typed] at verdict
  split at verdict
  · cases verdict
    rfl
  · split at verdict
    · simp at verdict
    · cases verdict

private theorem loop_of_admits (a : Arithmetic) (c : Chunk) (code : List Instruction) (index : Nat)
    (stack : List Value) (f : Fault) (pool : ∀ v ∈ c.constants.toList, v.isNumber = true)
    (admits : ∀ i ∈ code, c.Admits i) (numbers : ∀ v ∈ stack, v.isNumber = true)
    (faulted : loop a c code index stack = .error f) :
    f.kind.cause = .stackUnderflow ∨ f.kind.cause = .codeOutOfRange := by
  -- The invariant is that the stack holds numbers only.
  induction code generalizing index stack with
  | nil =>
    cases faulted
    exact .inr rfl
  | cons i rest ih =>
    rw [List.forall_mem_cons] at admits
    rw [loop, step_eq_ofVerdict] at faulted
    cases verdict : verdict? c i stack.length stack with
    | none =>
      rw [verdict] at faulted
      exact ih (index + 1) _ admits.2 (applied_numbers a c stack i pool numbers) faulted
    | some outcome =>
      rw [verdict] at faulted
      cases outcome with
      | ok v => cases faulted
      | error kind =>
        cases faulted
        rw [verdict?_of_admits c i _ stack kind admits.1 numbers verdict]
        exact .inl rfl

end Run

/-- Code that is empty has no last instruction, and the line of none is zero. -/
theorem Chunk.line_last (c : Chunk) :
    c.line ((c.code.size : Int) - 1) =
      if c.code.size = 0 then 0 else c.line ((c.code.size : Int) - 1) := by
  by_cases empty : c.code.size = 0
  · simp [empty, line, at?]
  · simp [empty]

/-- What a traced machine logs about the first instructions of a run. -/
def Machine.dispatched (m : Machine) (c : Chunk) (count : Nat) : List LogEntry :=
  if m.traced then Run.entries c count else []

theorem Machine.execute_outcome (m : Machine) (c : Chunk) :
    (m.execute (some c)).result = (Run.run m.arithmetic c).mapError .fault ∧
      ∃ others, (m.execute (some c)).log =
        (if m.traced then Run.trace m.arithmetic c else []) ++ others ∧
        ∀ entry ∈ others, entry.level ≠ .debug := by
  rw [execute, run_loaded _ c rfl]
  simp only [load, conclude]
  cases Run.run m.arithmetic c with
  | error f => exact ⟨rfl, _, rfl, by simp⟩
  | ok v =>
    refine ⟨rfl, _, rfl, ?_⟩
    -- What follows the trace is at most the warning that the sink did not take the result.
    intro entry member
    dsimp only [deliver] at member
    split at member
    · cases member
    · dsimp only at member
      split at member
      · cases member
      · rw [List.mem_singleton.mp member]
        simp

open Run in
/-- Executing any chunk ends at the first instruction with a verdict, and as the verdict says; if
there is none, past the end of the code. Each instruction up to there is dispatched once, in order,
at the depth that the table gives. A valid chunk of numbers can only run out of operands or of
code. -/
theorem execute_by_verdict (m : Machine) (c : Chunk) :
    let a := m.arithmetic
    let reply := m.execute (some c)
    (∀ index i outcome, c.code[index]? = some i → (∀ j < index, verdictAt? a c j = none) →
      verdictAt? a c index = some outcome →
        reply.result = outcome.mapError (.fault ⟨c.line index, i.code, ·⟩) ∧
        (∀ j ≤ index, ((stackBefore a c j).length : Int) = depthBefore c j) ∧
        trace a c = entries c (index + 1) ∧
        ∃ others, reply.log = m.dispatched c (index + 1) ++ others ∧
          ∀ entry ∈ others, entry.level ≠ .debug) ∧
    ((∀ j < c.code.size, verdictAt? a c j = none) →
        reply.result = .error (.fault
          ⟨if c.code.size = 0 then 0 else c.line ((c.code.size : Int) - 1),
            (c.code.back?.getD (.simple .ret)).code, .pastEnd c.code.size c.code.size⟩) ∧
        (∀ j ≤ c.code.size, ((stackBefore a c j).length : Int) = depthBefore c j) ∧
        trace a c = entries c c.code.size ∧
        ∃ others, reply.log = m.dispatched c c.code.size ++ others ∧
          ∀ entry ∈ others, entry.level ≠ .debug) ∧
    (c.validate = .ok () → (∀ v ∈ c.constants.toList, v.isNumber = true) →
      ∀ error, reply.result = .error error →
        ∃ f, error = .fault f ∧
          (f.kind.cause = .stackUnderflow ∨ f.kind.cause = .codeOutOfRange)) := by
  dsimp only
  obtain ⟨result, others, log, quietOthers⟩ := m.execute_outcome c
  refine ⟨?_, ?_, ?_⟩
  · -- The first verdict is at `index`.
    intro index i outcome found quiet verdict
    have inside := (Array.getElem?_eq_some_iff.mp found).1
    have reached (j : Nat) (before : j ≤ index) : Reaches m.arithmetic c j :=
      .of_quiet _ _ j (by omega) (fun k earlier => quiet k (by omega))
    obtain ⟨ran, traced⟩ := (reached index (Nat.le_refl _)).decided found outcome verdict
    refine ⟨?_, fun j before => (reached j before).depth, traced, others, ?_, quietOthers⟩
    · rw [result, ran]
      cases outcome <;> rfl
    · rw [log, traced, Machine.dispatched]
  · -- There is no verdict at all.
    intro quiet
    have reached (j : Nat) (before : j ≤ c.code.size) : Reaches m.arithmetic c j :=
      .of_quiet _ _ j before (fun k earlier => quiet k (by omega))
    obtain ⟨ran, traced⟩ := (reached _ (Nat.le_refl _)).past_end
    refine ⟨?_, fun j before => (reached j before).depth, traced, others, ?_, quietOthers⟩
    · rw [result, ran, ← c.line_last]
      rfl
    · rw [log, traced, Machine.dispatched]
  · -- The chunk is valid and its constants are numbers.
    intro valid pool error failed
    obtain ⟨-, -, admits⟩ := (Chunk.validate_eq_ok_iff c).mp valid
    rw [result] at failed
    cases ran : run m.arithmetic c with
    | ok v => rw [ran] at failed; cases failed
    | error f =>
      rw [ran] at failed
      cases failed
      exact ⟨f, rfl, loop_of_admits m.arithmetic c _ 0 [] f pool admits (by simp) ran⟩

end Abacus
