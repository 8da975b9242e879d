import Abacus.LanguageServer.Worker
import Abacus.Proofs.History

/-!
# Jobs on a machine that others have used

What interpreting a source gives depends on two parts of a machine, its front end and its
arithmetic. Machines that agree on them are alike, and interpreting keeps a machine alike. So jobs
that only interpret sources and look at their machine, in any order and however they end, leave
behind a machine on which the next job finds everything as on a new one.
-/
namespace Abacus

namespace Machine

/-- Two machines that sources have the same results on. -/
structure Alike (m other : Machine) : Prop where
  frontEnd : m.frontEnd = other.frontEnd
  arithmetic : m.arithmetic = other.arithmetic

theorem Alike.refl (m : Machine) : Alike m m := ⟨rfl, rfl⟩

theorem Alike.trans {m other third : Machine} (first : Alike m other) (second : Alike other third) :
    Alike m third :=
  ⟨first.frontEnd.trans second.frontEnd, first.arithmetic.trans second.arithmetic⟩

theorem alike_conclude (m : Machine) (log : List LogEntry) (outcome : Except Fault Value) :
    Alike (m.conclude log outcome).machine m := by
  cases outcome with
  | error f => exact ⟨rfl, rfl⟩
  | ok v =>
    rw [conclude_ok_machine]
    exact ⟨rfl, rfl⟩

theorem alike_interpret (m : Machine) (source : Bytes) : Alike (m.interpret source).machine m := by
  cases compiled : FrontEnd.chunk m.frontEnd source with
  | error e =>
    rw [(interpret_rejected compiled).1]
    exact .refl m
  | ok c =>
    rw [(interpret_compiled compiled).1, execute, run_loaded _ c rfl]
    have loaded : Alike (m.load (some c)) m := ⟨rfl, rfl⟩
    exact (alike_conclude (m.load (some c)) _ _).trans loaded

theorem interpret_result (m : Machine) (source : Bytes) :
    (m.interpret source).result =
      match FrontEnd.chunk m.frontEnd source with
      | .error e => .error (.compile e)
      | .ok c => (Run.run m.arithmetic c).mapError .fault := by
  cases compiled : FrontEnd.chunk m.frontEnd source with
  | error e => exact (interpret_rejected compiled).2
  | ok c =>
    rw [(interpret_compiled compiled).2, execute, run_loaded _ c rfl, conclude_result]
    rfl

theorem Alike.interpret_result {m other : Machine} (alike : Alike m other) (source : Bytes) :
    (m.interpret source).result = (other.interpret source).result := by
  rw [Machine.interpret_result, Machine.interpret_result, alike.frontEnd, alike.arithmetic]

end Machine

namespace Job

variable {α : Type}

/-- A job that interprets sources, looks at its machine and in the end returns or breaks down. What
it does next may depend on everything that it has seen. -/
inductive Confined : Job α → Prop
  | finish (result : Except Bytes α) : Confined fun m => (m, result)
  | look (next : Machine → Job α) (later : ∀ view, Confined (next view)) :
      Confined fun m => next m m
  | interpret (source : Bytes) (next : Machine.Reply → Job α)
      (later : ∀ reply, Confined (next reply)) :
      Confined fun m => next (m.interpret source) (m.interpret source).machine

theorem Confined.alike {job : Job α} (confined : Confined job) (m : Machine) :
    Machine.Alike (job m).1 m := by
  induction confined generalizing m with
  | finish result => exact .refl m
  | look next _ ih => exact ih m m
  | interpret source next _ ih =>
    exact (ih (m.interpret source) (m.interpret source).machine).trans (m.alike_interpret source)

/-- Interprets a source and returns what the caller makes of the result. -/
def asking (source : Bytes) (read : Except MachineError Value → α) : Job α := fun m =>
  ((m.interpret source).machine, .ok (read (m.interpret source).result))

theorem confined_asking (source : Bytes) (read : Except MachineError Value → α) :
    Confined (asking source read) :=
  .interpret source (fun reply m => (m, .ok (read reply.result))) fun _ => .finish _

end Job

namespace Worker

variable {α : Type}

theorem perform_stopped {w : Worker} (stopped : w.stopped = true) (job : Job α) :
    w.perform job = (w, .error .stopped) := by
  unfold perform
  rw [if_pos stopped]

theorem perform_running (m : Machine) (job : Job α) :
    (start m).perform job = (start (job m).1, (job m).2.mapError .brokeDown) := by
  simp only [perform, start, Bool.false_eq_true, if_false]
  cases job m with
  | mk after outcome => cases outcome <;> rfl

/-- The worker after it has performed jobs one after the other. -/
def after (w : Worker) (jobs : List (Job α)) : Worker :=
  jobs.foldl (fun w job => (w.perform job).1) w

theorem after_concat (w : Worker) (jobs : List (Job α)) (job : Job α) :
    w.after (jobs ++ [job]) = ((w.after jobs).perform job).1 := by
  simp [after]

theorem after_cons (m : Machine) (job : Job α) (jobs : List (Job α)) :
    (start m).after (job :: jobs) = (start (job m).1).after jobs := by
  rw [after, List.foldl_cons, perform_running]
  rfl

/-- However its jobs end, a worker stays in service. -/
theorem after_start (m : Machine) (jobs : List (Job α)) :
    (start m).after jobs = start ((start m).after jobs).machine := by
  induction jobs generalizing m with
  | nil => rfl
  | cons job jobs ih =>
    rw [after_cons]
    exact ih (job m).1

/-- The machine of a worker that has performed confined jobs is like the one it got. -/
theorem after_alike (m : Machine) (jobs : List (Job α)) (confined : ∀ job ∈ jobs, job.Confined) :
    Machine.Alike ((start m).after jobs).machine m := by
  induction jobs generalizing m with
  | nil => exact .refl m
  | cons job jobs ih =>
    have first : job.Confined := confined job List.mem_cons_self
    rw [after_cons]
    exact (ih (job m).1 fun other member => confined other (List.mem_cons_of_mem _ member)).trans
      (first.alike m)

end Worker

end Abacus
