import Abacus.Machine.Basic

/-!
# Runs apart from their machine

A machine executes instructions on its own stack, with its status, sink and trace option at hand.
What a run comes to does not need a machine: it is a recursion on the code that is left and the
stack. Running a machine is that recursion, from an empty stack, and then one of two endings
(`Machine.run_loaded`).
-/
namespace Abacus

namespace Run

/-- Runs the code that is left, which starts at `index`. -/
def loop (a : Arithmetic) (c : Chunk) : List Instruction → Nat → List Value → Except Fault Value
  | [], index, _ => .error (pastEnd c index)
  | i :: rest, index, stack =>
    match step a c i stack with
    | .next stack => loop a c rest (index + 1) stack
    | .done v => .ok v
    | .stop kind => .error ⟨c.line index, i.code, kind⟩

def run (a : Arithmetic) (c : Chunk) : Except Fault Value := loop a c c.code.toList 0 []

def traceLoop (a : Arithmetic) (c : Chunk) : List Instruction → Nat → List Value → List LogEntry
  | [], _, _ => []
  | i :: rest, index, stack =>
    traceEntry index i stack.length ::
      match step a c i stack with
      | .next stack => traceLoop a c rest (index + 1) stack
      | _ => []

/-- What a traced run logs about its instructions. -/
def trace (a : Arithmetic) (c : Chunk) : List LogEntry := traceLoop a c c.code.toList 0 []

end Run

namespace Machine

/-- Ends a run as it came out. -/
def conclude (m : Machine) (log : List LogEntry) : Except Fault Value → Reply
  | .ok v => m.halt v log
  | .error f => m.fault f log

theorem deliver_fst (m : Machine) (v : Value) :
    (m.deliver v).1 = { m with output := m.output.map (·.offer (v.print ++ [newline])) } := by
  obtain ⟨chunk, stack, status, output, traced, reserved, frontEnd, arithmetic⟩ := m
  cases output with
  | none => rfl
  | some sink => rfl

theorem deliver_snd_congr (m other : Machine) (v : Value) (same : m.output = other.output) :
    (m.deliver v).2 = (other.deliver v).2 := by
  unfold deliver
  rw [same]
  cases other.output <;> rfl

theorem conclude_error_machine (m : Machine) (log : List LogEntry) (f : Fault) :
    (m.conclude log (.error f)).machine = { m with stack := [], status := .faulted } := rfl

theorem conclude_ok_machine (m : Machine) (log : List LogEntry) (v : Value) :
    (m.conclude log (.ok v)).machine =
      { m with stack := [], status := .halted,
               output := m.output.map (·.offer (v.print ++ [newline])) } := by
  simp only [conclude, halt, deliver_fst]

theorem conclude_result (m : Machine) (log : List LogEntry) (outcome : Except Fault Value) :
    (m.conclude log outcome).result = outcome.mapError .fault := by
  cases outcome <;> rfl

/-- Both endings drop the stack and replace the status. -/
theorem conclude_congr (m : Machine) (stack : List Value) (status : Status) (log : List LogEntry)
    (outcome : Except Fault Value) :
    { m with stack := stack, status := status }.conclude log outcome = m.conclude log outcome := by
  cases outcome with
  | error f => rfl
  | ok v =>
    have refused := deliver_snd_congr { m with stack := stack, status := status } m v rfl
    simp only [conclude, halt, deliver_fst, refused]

/-- Dispatching instructions on the machine's stack is the recursion on code and stack, after which
the run is concluded. -/
theorem dispatch_eq_conclude (c : Chunk) (code : List Instruction) (index : Nat) (m : Machine)
    (trace : List LogEntry) :
    dispatch c code index m trace =
      m.conclude
        (trace.reverse ++ if m.traced then Run.traceLoop m.arithmetic c code index m.stack else [])
        (Run.loop m.arithmetic c code index m.stack) := by
  induction code generalizing index m trace with
  | nil => simp [dispatch, Run.loop, Run.traceLoop, conclude]
  | cons i rest ih =>
    rw [dispatch, Run.loop, Run.traceLoop]
    -- The entry of this instruction comes before those of the rest, traced or not.
    cases result : Run.step m.arithmetic c i m.stack with
    | next stack =>
      dsimp only
      rw [ih, conclude_congr m stack m.status]
      cases m.traced <;> simp
    | done v => cases traced : m.traced <;> simp [conclude]
    | stop kind => cases traced : m.traced <;> simp [conclude]

/-- Running a loaded chunk is running the chunk and concluding with what it came to. -/
theorem run_loaded (m : Machine) (c : Chunk) (loaded : m.chunk = some c) :
    m.run = m.conclude (if m.traced then Run.trace m.arithmetic c else [])
      (Run.run m.arithmetic c) := by
  unfold run
  split
  next missing => cases loaded.symm.trans missing
  next c' present =>
    cases loaded.symm.trans present
    rw [dispatch_eq_conclude, conclude_congr m [] .running]
    rfl

end Machine

end Abacus
