import Abacus.Proofs.PrintedValues
import Abacus.Proofs.Runs

/-!
# Machines have no memory of earlier runs

A machine is made with settings and then taken through any operations, in any order, with any
chunks, sources and front ends. Between two operations it is at rest: nothing is on the stack and no
run is under way (`Machine.Resting`). Every operation keeps it so, whichever way a run ends, and
therefore what a run gives, the status it ends in and what it offers to the sink are a function of
the chunk alone (`Observation.ofChunk`).
-/
namespace Abacus

namespace Machine

/-! ## Making and using machines -/

inductive Setting
  | output (sink : Sink)
  | reservation (cells : Int)
  | traced (on : Bool)
  | frontEnd (frontEnd : Option FrontEnd)

def set (m : Machine) : Setting → Machine
  | .output sink => { m with output := some sink }
  | .reservation cells => m.reserve cells
  | .traced on => { m with traced := on }
  | .frontEnd frontEnd => m.useFrontEnd frontEnd

/-- A new machine for an arithmetic; of two settings for the same thing the later one counts. -/
def new (a : Arithmetic) (settings : List Setting) : Machine :=
  settings.foldl set { fresh with arithmetic := a }

inductive Operation
  | load (chunk : Option Chunk)
  | run
  | execute (chunk : Option Chunk)
  | interpret (source : Bytes)
  | useFrontEnd (frontEnd : Option FrontEnd)

def perform (m : Machine) : Operation → Machine
  | .load chunk => m.load chunk
  | .run => m.run.machine
  | .execute chunk => (m.execute chunk).machine
  | .interpret source => (m.interpret source).machine
  | .useFrontEnd frontEnd => m.useFrontEnd frontEnd

def after (m : Machine) (history : List Operation) : Machine := history.foldl perform m

/-! ## Machines at rest -/

/-- A machine for an arithmetic between two operations. -/
structure Resting (a : Arithmetic) (m : Machine) : Prop where
  arithmetic : m.arithmetic = a
  empty : m.stack = []
  stopped : m.status ≠ .running
  unloaded : m.chunk = none → m.status = .ready

variable {a : Arithmetic} {m : Machine}

theorem Resting.set (resting : Resting a m) (setting : Setting) : Resting a (m.set setting) := by
  obtain ⟨arithmetic, empty, stopped, unloaded⟩ := resting
  cases setting with
  | output sink => exact ⟨arithmetic, empty, stopped, unloaded⟩
  | reservation cells =>
    simp only [Machine.set, reserve]
    split
    · exact ⟨arithmetic, empty, stopped, unloaded⟩
    · exact ⟨arithmetic, empty, stopped, unloaded⟩
  | traced on => exact ⟨arithmetic, empty, stopped, unloaded⟩
  | frontEnd frontEnd => exact ⟨arithmetic, empty, stopped, unloaded⟩

theorem resting_new (a : Arithmetic) (settings : List Setting) : Resting a (new a settings) := by
  have start : Resting a { fresh with arithmetic := a } := ⟨rfl, rfl, by simp [fresh], fun _ => rfl⟩
  unfold new
  -- The settings are folded over a machine of which only this is needed.
  generalize { fresh with arithmetic := a } = m at start
  induction settings generalizing m with
  | nil => exact start
  | cons setting others ih => exact ih _ (start.set setting)

theorem Resting.load (resting : Resting a m) (chunk : Option Chunk) : Resting a (m.load chunk) :=
  ⟨resting.arithmetic, rfl, by simp [Machine.load], fun _ => rfl⟩

/-- Both endings of a run leave the machine at rest, since its chunk is still there. -/
theorem Resting.conclude (resting : Resting a m) (loaded : m.chunk ≠ none) (log : List LogEntry)
    (outcome : Except Fault Value) : Resting a (m.conclude log outcome).machine := by
  cases outcome with
  | error f =>
    rw [conclude_error_machine]
    exact ⟨resting.arithmetic, rfl, by simp, fun no => absurd no loaded⟩
  | ok v =>
    rw [conclude_ok_machine]
    exact ⟨resting.arithmetic, rfl, by simp, fun no => absurd no loaded⟩

theorem run_unloaded (missing : m.chunk = none) : m.run = ⟨m, .error .noChunk, []⟩ := by
  unfold run
  rw [missing]

theorem Resting.run (resting : Resting a m) : Resting a m.run.machine := by
  cases loaded : m.chunk with
  | none =>
    rw [run_unloaded loaded]
    exact resting
  | some c =>
    rw [run_loaded m c loaded]
    exact resting.conclude (by simp [loaded]) _ _

theorem Resting.execute (resting : Resting a m) (chunk : Option Chunk) :
    Resting a (m.execute chunk).machine :=
  (resting.load chunk).run

end Machine

/-- The chunk that a front end, if there is one, makes of a source. -/
def FrontEnd.chunk (frontEnd : Option FrontEnd) (source : Bytes) : Except CompileError Chunk :=
  match frontEnd with
  | none => .error .noCompiler
  | some compile =>
    match (compile source).result with
    | .error e => .error e
    | .ok none => .error .noChunk
    | .ok (some c) => .ok c

theorem FrontEnd.chunk_standard (source : Bytes) :
    FrontEnd.chunk (some .standard) source = (compile source).mapError .rejected := by
  simp only [chunk, standard]
  cases compile source <;> rfl

namespace Machine

variable {a : Arithmetic} {m : Machine}

/-- Without a chunk to run nothing changes. -/
theorem interpret_rejected {source : Bytes} {e : CompileError}
    (rejected : FrontEnd.chunk m.frontEnd source = .error e) :
    (m.interpret source).machine = m ∧ (m.interpret source).result = .error (.compile e) := by
  cases present : m.frontEnd with
  | none =>
    rw [present] at rejected
    cases rejected
    simp only [interpret, present, and_self]
  | some compile =>
    cases outcome : (compile source).result with
    | error cause =>
      simp only [FrontEnd.chunk, present, outcome, Except.error.injEq] at rejected
      simp only [interpret, present, outcome, rejected, and_self]
    | ok made =>
      cases made with
      | none =>
        simp only [FrontEnd.chunk, present, outcome, Except.error.injEq] at rejected
        simp only [interpret, present, outcome, rejected, and_self]
      | some c => simp only [FrontEnd.chunk, present, outcome, reduceCtorEq] at rejected

/-- With one it is executed. -/
theorem interpret_compiled {source : Bytes} {c : Chunk}
    (compiled : FrontEnd.chunk m.frontEnd source = .ok c) :
    (m.interpret source).machine = (m.execute (some c)).machine ∧
      (m.interpret source).result = (m.execute (some c)).result := by
  cases present : m.frontEnd with
  | none =>
    rw [present] at compiled
    cases compiled
  | some compile =>
    cases outcome : (compile source).result with
    | error cause => simp only [FrontEnd.chunk, present, outcome, reduceCtorEq] at compiled
    | ok made =>
      cases made with
      | none => simp only [FrontEnd.chunk, present, outcome, reduceCtorEq] at compiled
      | some chunk =>
        simp only [FrontEnd.chunk, present, outcome, Except.ok.injEq] at compiled
        simp only [interpret, present, outcome, compiled, and_self]

theorem Resting.interpret (resting : Resting a m) (source : Bytes) :
    Resting a (m.interpret source).machine := by
  cases compiled : FrontEnd.chunk m.frontEnd source with
  | error e =>
    rw [(interpret_rejected compiled).1]
    exact resting
  | ok c =>
    rw [(interpret_compiled compiled).1]
    exact resting.execute (some c)

theorem Resting.perform (resting : Resting a m) (operation : Operation) :
    Resting a (m.perform operation) := by
  cases operation with
  | load chunk => exact resting.load chunk
  | run => exact resting.run
  | execute chunk => exact resting.execute chunk
  | interpret source => exact resting.interpret source
  | useFrontEnd frontEnd => exact resting.set (.frontEnd frontEnd)

theorem Resting.after (resting : Resting a m) (history : List Operation) :
    Resting a (m.after history) := by
  unfold Machine.after
  induction history generalizing m with
  | nil => exact resting
  | cons operation later ih => exact ih (resting.perform operation)

end Machine

/-! ## What can be seen of a run -/

/-- The result of a run, the status after it and the pieces that it offered to the sink. -/
structure Observation where
  result : Except MachineError Value
  status : Status
  offered : List Bytes

namespace Observation

/-- What there is to see when a chunk, or none, is run. -/
def ofChunk (a : Arithmetic) : Option Chunk → Observation
  | none => ⟨.error .noChunk, .ready, []⟩
  | some c =>
    match Run.run a c with
    | .ok v => ⟨.ok v, .halted, [v.print ++ [newline]]⟩
    | .error f => ⟨.error (.fault f), .faulted, []⟩

/-- A machine showed this when it gave a reply. Its sink was offered these pieces and no others,
and has accepted or refused each of them. -/
structure Seen (o : Observation) (before : Machine) (reply : Machine.Reply) : Prop where
  result : reply.result = o.result
  status : reply.machine.status = o.status
  output : reply.machine.output = before.output.map (o.offered.foldl Sink.offer)

end Observation

namespace Machine

open Observation

variable {a : Arithmetic} {m : Machine}

theorem Resting.seen_run (resting : Resting a m) : (ofChunk a m.chunk).Seen m m.run := by
  cases loaded : m.chunk with
  | none =>
    -- The status stays as it was, which is ready because no chunk is loaded.
    rw [run_unloaded loaded]
    exact ⟨rfl, resting.unloaded loaded, by simp [ofChunk]⟩
  | some c =>
    rw [run_loaded m c loaded, resting.arithmetic]
    simp only [ofChunk]
    cases Run.run a c with
    | error f =>
      refine ⟨conclude_result .., ?_, ?_⟩
      · rw [conclude_error_machine]
      · simp [conclude_error_machine]
    | ok v =>
      refine ⟨conclude_result .., ?_, ?_⟩
      · rw [conclude_ok_machine]
      · simp only [conclude_ok_machine, List.foldl_cons, List.foldl_nil]

theorem Resting.seen_execute (resting : Resting a m) (chunk : Option Chunk) :
    (ofChunk a chunk).Seen m (m.execute chunk) := by
  obtain ⟨result, status, output⟩ := (resting.load chunk).seen_run
  exact ⟨result, status, output⟩

theorem Resting.seen_interpret (resting : Resting a m) {source : Bytes} {c : Chunk}
    (compiled : FrontEnd.chunk m.frontEnd source = .ok c) :
    (ofChunk a (some c)).Seen m (m.interpret source) := by
  obtain ⟨machine, result⟩ := interpret_compiled compiled
  obtain ⟨executed, status, output⟩ := resting.seen_execute (some c)
  refine ⟨result.trans executed, ?_, ?_⟩
  · rw [machine]
    exact status
  · rw [machine]
    exact output

end Machine

namespace Observation

theorem ofChunk_result_ne_compile (a : Arithmetic) (chunk : Option Chunk) (e : CompileError) :
    (ofChunk a chunk).result ≠ .error (.compile e) := by
  unfold ofChunk
  split
  · simp
  · split <;> simp

/-- One line is offered with a value, and nothing without one. -/
theorem ofChunk_offered (a : Arithmetic) (chunk : Option Chunk) :
    match (ofChunk a chunk).result with
    | .ok v => (ofChunk a chunk).offered = [v.print ++ [newline]] ∧ newline ∉ v.print
    | .error _ => (ofChunk a chunk).offered = [] := by
  cases chunk with
  | none => rfl
  | some c =>
    simp only [ofChunk]
    cases Run.run a c with
    | error f => rfl
    | ok v => exact ⟨rfl, v.newline_notMem_print⟩

end Observation

open Observation in
/-- Whatever a machine was made with and has done, it is at rest, and running, executing and
interpreting show what the chunk alone determines: the result, the status and one line offered with
a value, none without. A source that gives no chunk leaves the machine as it was. -/
theorem runs_independent_of_history (a : Arithmetic) (settings : List Machine.Setting)
    (history : List Machine.Operation) :
    let m := (Machine.new a settings).after history
    m.stack = [] ∧ m.status ≠ .running ∧ (m.chunk = none → m.status = .ready) ∧
    (ofChunk a m.chunk).Seen m m.run ∧
    (∀ chunk, (ofChunk a chunk).Seen m (m.execute chunk)) ∧
    (∀ source,
      match FrontEnd.chunk m.frontEnd source with
      | .ok c => (ofChunk a (some c)).Seen m (m.interpret source)
      | .error e => (m.interpret source).result = .error (.compile e)) ∧
    (∀ source e, (m.interpret source).result = .error (.compile e) →
      (m.interpret source).machine = m) ∧
    ∀ chunk,
      match (ofChunk a chunk).result with
      | .ok v => (ofChunk a chunk).offered = [v.print ++ [newline]] ∧ newline ∉ v.print
      | .error _ => (ofChunk a chunk).offered = [] := by
  intro m
  have resting : Machine.Resting a m := (Machine.resting_new a settings).after history
  refine ⟨resting.empty, resting.stopped, resting.unloaded, resting.seen_run,
    resting.seen_execute, ?_, ?_, ofChunk_offered a⟩
  · intro source
    cases compiled : FrontEnd.chunk m.frontEnd source with
    | error e => exact (Machine.interpret_rejected compiled).2
    | ok c => exact resting.seen_interpret compiled
  · intro source e failed
    cases compiled : FrontEnd.chunk m.frontEnd source with
    | error _ => exact (Machine.interpret_rejected compiled).1
    | ok c =>
      -- A chunk that was run shows no error of compilation.
      have shown := (resting.seen_interpret compiled).result
      exact absurd (shown.symm.trans failed) (ofChunk_result_ne_compile a (some c) e)

end Abacus
