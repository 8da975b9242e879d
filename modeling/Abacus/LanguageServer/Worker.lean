import Abacus.Machine.Basic

/-!
# The worker

A worker owns a machine and performs one job at a time on it. A job that breaks down fails for the
one who submitted it and leaves the worker in service. A worker that has been stopped stays
stopped, and its machine is never touched again.
-/
namespace Abacus

/-- Work on a machine; the error is the message of a breakdown. -/
abbrev Job (α : Type) := Machine → Machine × Except Bytes α

inductive WorkerError
  | stopped
  | brokeDown (message : Bytes)
  deriving DecidableEq, Repr

namespace WorkerError

def message : WorkerError → Bytes
  | stopped => Cause.workerStopped.message
  | brokeDown message => text "vm worker: " ++ message

def cause? : WorkerError → Option Cause
  | stopped => some .workerStopped
  | brokeDown _ => none

end WorkerError

structure Worker where
  machine : Machine
  stopped : Bool

namespace Worker

def start (m : Machine) : Worker := ⟨m, false⟩

def stop (w : Worker) : Worker := { w with stopped := true }

/-- Performs a job and waits for its result. -/
def perform {α : Type} (w : Worker) (job : Job α) : Worker × Except WorkerError α :=
  if w.stopped then (w, .error .stopped)
  else
    match job w.machine with
    | (m, .ok a) => ({ w with machine := m }, .ok a)
    | (m, .error message) => ({ w with machine := m }, .error (.brokeDown message))

end Worker

namespace Job

def interpret (source : Bytes) : Job Machine.Reply := fun m =>
  let reply := m.interpret source
  (reply.machine, .ok reply)

def status : Job Status := fun m => (m, .ok m.status)

def idle : Job Unit := fun m => (m, .ok ())

def breakDown (message : Bytes) : Job Unit := fun m => (m, .error message)

end Job

end Abacus
