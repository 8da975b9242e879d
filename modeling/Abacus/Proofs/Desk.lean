import Abacus.Proofs.WorkerJobs
import Mathlib.Data.List.Nodup
import Mathlib.Logic.Relation

/-!
# A worker, its queue and its callers

A worker serves callers that run on their own. A caller looks whether the worker has been stopped,
puts its job into a bounded queue and waits for the result; the worker takes one job after the other
from the queue. In between, in any order, new callers come and the worker may be told to stop.

`Step` and `Event` say what can happen at such a desk. `Orderly` is what every event keeps, no
matter when the worker is stopped: each caller has at most one job in the queue, jobs are performed
in the order of the queue, and the answer that waits for a caller is that of its own job
(`Reaches.orderly`).
-/
namespace Abacus

/-- How far a caller has come. -/
inductive Phase (α : Type)
  | arrived
  /-- It has found the worker in service. -/
  | admitted
  /-- Its job is in the queue or has left it; the answer, if there is one, waits for the caller. -/
  | queued (answer : Option (Except WorkerError α))
  | returned (result : Except WorkerError α)

/-- A caller with its job. -/
structure Errand (α : Type) where
  job : Job α
  /-- Whether the worker had been stopped when the caller came. -/
  late : Bool
  phase : Phase α

/-- A job in the queue, with the number of the caller that its answer goes to. -/
structure Ticket (α : Type) where
  owner : Nat
  job : Job α

inductive Activity (α : Type)
  | idle
  | busy (t : Ticket α)
  | gone

/-- A worker, its queue and all that ever called it. -/
structure Desk (α : Type) where
  machine : Machine
  stopped : Bool
  /-- Callers are numbered as they come. -/
  errands : List (Errand α)
  queue : List (Ticket α)
  activity : Activity α
  /-- All that ever entered the queue, in that order. -/
  submitted : List (Ticket α)
  /-- All that the worker has performed, in that order. -/
  executed : List (Ticket α)

variable {α : Type}

/-- What an answer does to the caller that it is for. One that has left does not get it. -/
def Phase.receive (answer : Except WorkerError α) : Phase α → Phase α
  | queued none => queued (some answer)
  | phase => phase

def Activity.current : Activity α → List (Ticket α)
  | busy t => [t]
  | _ => []

namespace Desk

def capacity : Nat := 64

def opened (m : Machine) : Desk α := ⟨m, false, [], [], .idle, [], []⟩

def Free (d : Desk α) : Prop := ∀ e ∈ d.errands, ∃ result, e.phase = .returned result

/-- The callers after the one of a number has moved on. -/
@[irreducible]
def mark (errands : List (Errand α)) (i : Nat) (change : Phase α → Phase α) : List (Errand α) :=
  errands.modify i fun e => { e with phase := change e.phase }

/-- What the worker and those who have called it can do. If there is a choice, anything may happen.
-/
inductive Step (d : Desk α) : Desk α → Prop
  | enter {i : Nat} {e : Errand α} (here : d.errands[i]? = some e) (phase : e.phase = .arrived)
      (serving : d.stopped = false) :
      Step d { d with errands := mark d.errands i fun _ => .admitted }
  | submit {i : Nat} {e : Errand α} (here : d.errands[i]? = some e) (phase : e.phase = .admitted)
      (room : d.queue.length < capacity) :
      Step d { d with
        errands := mark d.errands i fun _ => .queued none
        queue := d.queue ++ [⟨i, e.job⟩]
        submitted := d.submitted ++ [⟨i, e.job⟩] }
  | collect {i : Nat} {e : Errand α} {answer : Except WorkerError α}
      (here : d.errands[i]? = some e) (phase : e.phase = .queued (some answer)) :
      Step d { d with errands := mark d.errands i fun _ => .returned answer }
  -- A caller that waits, for room in the queue or for its answer, also watches for this.
  | turnAway {i : Nat} {e : Errand α} (here : d.errands[i]? = some e)
      (pending : ∀ result, e.phase ≠ .returned result) (closed : d.stopped = true) :
      Step d { d with errands := mark d.errands i fun _ => .returned (.error .stopped) }
  | take {t : Ticket α} {rest : List (Ticket α)} (idle : d.activity = .idle)
      (next : d.queue = t :: rest) :
      Step d { d with queue := rest, activity := .busy t }
  -- A job that the worker has taken is performed even if the worker has been stopped meanwhile.
  | finish {t : Ticket α} (busy : d.activity = .busy t) :
      Step d { d with
        errands := mark d.errands t.owner (.receive ((Worker.start d.machine).perform t.job).2)
        machine := ((Worker.start d.machine).perform t.job).1.machine
        activity := .idle
        executed := d.executed ++ [t] }
  | leave (idle : d.activity = .idle) (closed : d.stopped = true) :
      Step d { d with activity := .gone }

/-- A step, a new caller, or somebody stops the worker, which may be at any time that the rule
allows. -/
inductive Event (rule : Desk α → Prop) (d : Desk α) : Desk α → Prop
  | step {next : Desk α} (step : Step d next) : Event rule d next
  | bring (job : Job α) :
      Event rule d { d with errands := d.errands ++ [⟨job, d.stopped, .arrived⟩] }
  | stop (allowed : rule d) : Event rule d { d with stopped := true }

abbrev Runs (rule : Desk α → Prop) : Desk α → Desk α → Prop := Relation.ReflTransGen (Event rule)

def Reaches (rule : Desk α → Prop) (m : Machine) (d : Desk α) : Prop := Runs rule (opened m) d

/-- The worker is not stopped while a caller is with it. To stop it once more does nothing. -/
def whenFree : Desk α → Prop := fun d => d.stopped = true ∨ d.Free

/-- While no new callers come and nobody stops the worker, the steps come to an end, whatever steps
are taken, and not before the goal is reached. -/
inductive Inevitably (goal : Desk α → Prop) : Desk α → Prop
  | here {d : Desk α} (reached : goal d) : Inevitably goal d
  | later {d : Desk α} (possible : ∃ next, Step d next)
      (onward : ∀ next, Step d next → Inevitably goal next) : Inevitably goal d

/-- The result is that of the ticket's own job, performed after the jobs before it. -/
def Answers (m : Machine) (executed : List (Ticket α)) (t : Ticket α)
    (result : Except WorkerError α) : Prop :=
  ∃ earlier later, executed = earlier ++ t :: later ∧
    result = (((Worker.start m).after (earlier.map Ticket.job)).perform t.job).2

theorem Answers.append {m : Machine} {executed : List (Ticket α)} {t : Ticket α}
    {result : Except WorkerError α} (answers : Answers m executed t result)
    (more : List (Ticket α)) : Answers m (executed ++ more) t result := by
  obtain ⟨earlier, later, rfl, own⟩ := answers
  exact ⟨earlier, later ++ more, by simp, own⟩

theorem Answers.mem {m : Machine} {executed : List (Ticket α)} {t : Ticket α}
    {result : Except WorkerError α} (answers : Answers m executed t result) : t ∈ executed := by
  obtain ⟨earlier, later, rfl, -⟩ := answers
  simp

theorem getElem?_mark (errands : List (Errand α)) (i j : Nat) (change : Phase α → Phase α) :
    (mark errands i change)[j]? =
      errands[j]?.map fun e => if i = j then { e with phase := change e.phase } else e := by
  rw [mark]
  exact List.getElem?_modify ..

theorem job_mark (errands : List (Errand α)) (i j : Nat) (change : Phase α → Phase α) :
    (mark errands i change)[j]?.map Errand.job = errands[j]?.map Errand.job := by
  rw [getElem?_mark, Option.map_map]
  congr 1
  funext e
  by_cases same : i = j <;> simp [same]

theorem cases_mark {errands : List (Errand α)} {i j : Nat} {change : Phase α → Phase α}
    {e : Errand α} (here : (mark errands i change)[j]? = some e) :
    (i = j ∧ ∃ before, errands[i]? = some before ∧
      e = { before with phase := change before.phase }) ∨ (i ≠ j ∧ errands[j]? = some e) := by
  rw [getElem?_mark] at here
  obtain ⟨before, there, rfl⟩ := Option.map_eq_some_iff.mp here
  -- A caller is the one that has moved on, or it is as before.
  by_cases same : i = j
  · subst same
    exact .inl ⟨rfl, before, there, if_pos rfl⟩
  · rw [if_neg same]
    exact .inr ⟨same, there⟩

theorem cases_bring {errands : List (Errand α)} {i : Nat} {e new : Errand α}
    (here : (errands ++ [new])[i]? = some e) :
    errands[i]? = some e ∨ i = errands.length ∧ e = new := by
  rw [List.getElem?_append] at here
  split at here
  · exact .inl here
  · rename_i beyond
    obtain ⟨inside, rfl⟩ := List.getElem?_eq_some_iff.mp here
    have last : i - errands.length < 1 := inside
    exact .inr ⟨by omega, by simp⟩

/-- What is known of a caller, by its phase. -/
def Accounted (m : Machine) (d : Desk α) (t : Ticket α) : Phase α → Prop
  | .arrived => t.owner ∉ d.submitted.map Ticket.owner
  | .admitted => t.owner ∉ d.submitted.map Ticket.owner
  | .queued none => t ∈ d.activity.current ++ d.queue
  | .queued (some answer) => Answers m d.executed t answer
  | .returned result =>
    Answers m d.executed t result ∨ result = .error .stopped ∧ d.stopped = true

theorem Accounted.onward {m : Machine} {d next : Desk α} {t : Ticket α} {phase : Phase α}
    (account : d.Accounted m t phase) {more : List (Ticket α)}
    (outside : t.owner ∉ d.submitted.map Ticket.owner →
      t.owner ∉ next.submitted.map Ticket.owner)
    (inside : t ∈ d.activity.current ++ d.queue → t ∈ next.activity.current ++ next.queue)
    (executed : next.executed = d.executed ++ more)
    (stopped : d.stopped = true → next.stopped = true) : next.Accounted m t phase := by
  match phase, account with
  | .arrived, account => exact outside account
  | .admitted, account => exact outside account
  | .queued none, account => exact inside account
  | .queued (some _), account =>
    rw [Accounted, executed]
    exact Answers.append account more
  | .returned _, account =>
    rw [Accounted, executed]
    exact account.imp (·.append more) fun ⟨refused, closed⟩ => ⟨refused, stopped closed⟩

/-- What holds at all times, no matter when somebody stops the worker. -/
structure Orderly (m : Machine) (d : Desk α) : Prop where
  order : d.submitted = d.executed ++ (d.activity.current ++ d.queue)
  once : (d.submitted.map Ticket.owner).Nodup
  room : d.queue.length ≤ capacity
  owned : ∀ t ∈ d.submitted, d.errands[t.owner]?.map Errand.job = some t.job
  machine : (Worker.start m).after (d.executed.map Ticket.job) = Worker.start d.machine
  present : d.activity = .gone → d.stopped = true
  accounted : ∀ i e, d.errands[i]? = some e → d.Accounted m ⟨i, e.job⟩ e.phase
  late : ∀ i e, d.errands[i]? = some e → e.late = true →
    d.stopped = true ∧ i ∉ d.submitted.map Ticket.owner ∧
      (e.phase = .arrived ∨ e.phase = .returned (.error .stopped))

variable {m : Machine} {d : Desk α}

theorem orderly_opened (m : Machine) : Orderly m (opened m : Desk α) where
  order := rfl
  once := List.nodup_nil
  room := Nat.zero_le _
  owned := by simp [opened]
  machine := rfl
  present := by simp [opened]
  accounted := by simp [opened]
  late := by simp [opened]

namespace Orderly

theorem move (orderly : Orderly m d) (i : Nat) (change : Phase α → Phase α)
    (accounted : ∀ e, d.errands[i]? = some e → d.Accounted m ⟨i, e.job⟩ (change e.phase))
    (late : ∀ e, d.errands[i]? = some e → e.late = true →
      change e.phase = .arrived ∨ change e.phase = .returned (.error .stopped)) :
    Orderly m { d with errands := mark d.errands i change } where
  order := orderly.order
  once := orderly.once
  room := orderly.room
  owned := by
    intro t member
    rw [job_mark]
    exact orderly.owned t member
  machine := orderly.machine
  present := orderly.present
  accounted := by
    intro j e here
    rcases cases_mark here with ⟨rfl, before, there, rfl⟩ | ⟨-, there⟩
    · exact accounted before there
    · exact orderly.accounted j e there
  late := by
    intro j e here isLate
    rcases cases_mark here with ⟨rfl, before, there, rfl⟩ | ⟨-, there⟩
    · obtain ⟨closed, outside, -⟩ := orderly.late i before there isLate
      exact ⟨closed, outside, late before there isLate⟩
    · exact orderly.late j e there isLate

theorem ticket_eq (orderly : Orderly m d) {t other : Ticket α} (first : t ∈ d.submitted)
    (second : other ∈ d.submitted) (same : t.owner = other.owner) : t = other :=
  List.inj_on_of_nodup_map orderly.once first second same

theorem mem_submitted (orderly : Orderly m d) {t : Ticket α}
    (pending : t ∈ d.activity.current ++ d.queue) : t ∈ d.submitted := by
  rw [orderly.order]
  exact List.mem_append_right _ pending

theorem submit (orderly : Orderly m d) {i : Nat} {e : Errand α} (here : d.errands[i]? = some e)
    (phase : e.phase = .admitted) (room : d.queue.length < capacity) :
    Orderly m { d with
      errands := mark d.errands i fun _ => .queued none
      queue := d.queue ++ [⟨i, e.job⟩]
      submitted := d.submitted ++ [⟨i, e.job⟩] } := by
  have outside : i ∉ d.submitted.map Ticket.owner := by
    have account := orderly.accounted i e here
    rw [phase] at account
    exact account
  have owner_ne {j : Nat} (other : i ≠ j) (unknown : j ∉ d.submitted.map Ticket.owner) :
      j ∉ (d.submitted ++ [(⟨i, e.job⟩ : Ticket α)]).map Ticket.owner := by
    rw [List.map_append, List.mem_append]
    rintro (old | new)
    · exact unknown old
    · exact other (List.mem_singleton.mp new).symm
  refine ⟨?_, ?_, ?_, ?_, orderly.machine, orderly.present, ?_, ?_⟩
  · change d.submitted ++ _ = d.executed ++ (d.activity.current ++ (d.queue ++ _))
    rw [orderly.order]
    simp only [List.append_assoc]
  · change ((d.submitted ++ [_]).map Ticket.owner).Nodup
    rw [List.map_append, List.nodup_append]
    refine ⟨orderly.once, List.nodup_singleton _, ?_⟩
    intro j old k new same
    rw [same, List.mem_singleton.mp new] at old
    exact outside old
  · rw [List.length_append]
    exact room
  · intro t member
    rw [job_mark]
    rcases List.mem_append.mp member with old | new
    · exact orderly.owned t old
    · rw [List.mem_singleton.mp new, here, Option.map_some]
  · intro j other there
    rcases cases_mark there with ⟨rfl, before, same, rfl⟩ | ⟨apart, there⟩
    · obtain rfl : before = e := Option.some.inj (same.symm.trans here)
      exact List.mem_append_right _ (List.mem_append_right _ (List.mem_singleton_self _))
    · refine (orderly.accounted j other there).onward (owner_ne apart) ?_
        (List.append_nil _).symm id
      intro waiting
      rw [← List.append_assoc]
      exact List.mem_append_left _ waiting
  · intro j other there isLate
    rcases cases_mark there with ⟨rfl, before, same, rfl⟩ | ⟨apart, there⟩
    · -- A caller that came after the worker had been stopped is never admitted.
      obtain rfl : before = e := Option.some.inj (same.symm.trans here)
      have stays := (orderly.late i before here isLate).2.2
      simp [phase] at stays
    · obtain ⟨closed, unknown, stays⟩ := orderly.late j other there isLate
      exact ⟨closed, owner_ne apart unknown, stays⟩

theorem take (orderly : Orderly m d) {t : Ticket α} {rest : List (Ticket α)}
    (idle : d.activity = .idle) (next : d.queue = t :: rest) :
    Orderly m { d with queue := rest, activity := .busy t } where
  order := by
    rw [orderly.order, idle, next]
    rfl
  once := orderly.once
  room := by
    have room := orderly.room
    rw [next, List.length_cons] at room
    exact Nat.le_of_succ_le room
  owned := orderly.owned
  machine := orderly.machine
  present := by simp
  accounted := by
    intro i e here
    refine (orderly.accounted i e here).onward id ?_ (List.append_nil _).symm id
    rw [idle, next]
    exact id
  late := orderly.late

theorem finish (orderly : Orderly m d) {t : Ticket α} (busy : d.activity = .busy t) :
    Orderly m { d with
      errands := mark d.errands t.owner (.receive ((Worker.start d.machine).perform t.job).2)
      machine := ((Worker.start d.machine).perform t.job).1.machine
      activity := .idle
      executed := d.executed ++ [t] } := by
  have order : d.submitted = d.executed ++ (t :: d.queue) := by
    rw [orderly.order, busy]
    rfl
  have current : t ∈ d.submitted := orderly.mem_submitted (by simp [busy, Activity.current])
  have answers : Answers m (d.executed ++ [t]) t ((Worker.start d.machine).perform t.job).2 :=
    ⟨d.executed, [], rfl, by rw [orderly.machine]⟩
  refine ⟨?_, orderly.once, orderly.room, ?_, ?_, by simp, ?_, ?_⟩
  · change d.submitted = d.executed ++ [t] ++ ([] ++ d.queue)
    rw [order, List.nil_append, List.append_assoc]
    rfl
  · intro other member
    rw [job_mark]
    exact orderly.owned other member
  · change (Worker.start m).after ((d.executed ++ [t]).map Ticket.job) = _
    rw [List.map_append, List.map_singleton, Worker.after_concat, orderly.machine,
      Worker.perform_running]
    rfl
  · intro i e here
    rcases cases_mark here with ⟨rfl, before, there, rfl⟩ | ⟨apart, there⟩
    · have account := orderly.accounted _ before there
      obtain ⟨job, isLate, phase⟩ := before
      match phase, account with
      | .queued none, account =>
        -- The caller waits for this very ticket, since no other one is its own.
        have own : (⟨t.owner, job⟩ : Ticket α) = t :=
          orderly.ticket_eq (orderly.mem_submitted account) current rfl
        change Answers m (d.executed ++ [t]) ⟨t.owner, job⟩ _
        rw [own]
        exact answers
      | .arrived, account => exact account
      | .admitted, account => exact account
      | .queued (some _), account => exact Answers.append account _
      | .returned _, account => exact account.imp (·.append _) id
    · refine (orderly.accounted i e there).onward id ?_ rfl id
      rw [busy]
      intro waiting
      rcases List.mem_cons.mp waiting with rfl | waiting
      · exact absurd rfl apart
      · exact waiting
  · intro i e here isLate
    rcases cases_mark here with ⟨rfl, before, there, rfl⟩ | ⟨-, there⟩
    · have unknown := (orderly.late _ before there isLate).2.1
      exact absurd (List.mem_map_of_mem current) unknown
    · exact orderly.late i e there isLate

theorem bring (orderly : Orderly m d) (job : Job α) :
    Orderly m { d with errands := d.errands ++ [⟨job, d.stopped, .arrived⟩] } := by
  have unknown : d.errands.length ∉ d.submitted.map Ticket.owner := by
    intro member
    obtain ⟨t, submitted, owner⟩ := List.mem_map.mp member
    have owned := orderly.owned t submitted
    rw [owner, List.getElem?_eq_none (Nat.le_refl _)] at owned
    simp at owned
  have old {i : Nat} {e : Errand α} (here : d.errands[i]? = some e) :
      (d.errands ++ [⟨job, d.stopped, .arrived⟩])[i]? = some e := by
    rw [List.getElem?_append_left (List.getElem?_eq_some_iff.mp here).1, here]
  refine ⟨orderly.order, orderly.once, orderly.room, ?_, orderly.machine, orderly.present, ?_, ?_⟩
  · intro t member
    obtain ⟨e, here, same⟩ := Option.map_eq_some_iff.mp (orderly.owned t member)
    rw [old here, Option.map_some, same]
  · intro i e here
    rcases cases_bring here with here | ⟨rfl, rfl⟩
    · exact orderly.accounted i e here
    · exact unknown
  · intro i e here isLate
    rcases cases_bring here with here | ⟨rfl, rfl⟩
    · exact orderly.late i e here isLate
    · exact ⟨isLate, unknown, .inl rfl⟩

theorem stop (orderly : Orderly m d) : Orderly m { d with stopped := true } where
  order := orderly.order
  once := orderly.once
  room := orderly.room
  owned := orderly.owned
  machine := orderly.machine
  present := fun _ => rfl
  accounted := fun i e here =>
    (orderly.accounted i e here).onward id id (List.append_nil _).symm fun _ => rfl
  late := fun i e here isLate => ⟨rfl, (orderly.late i e here isLate).2⟩

theorem step (orderly : Orderly m d) {next : Desk α} (step : Step d next) : Orderly m next := by
  cases step with
  -- Steps of a caller change its own phase only.
  | @enter i e here phase serving =>
    apply orderly.move
    · intro before there
      obtain rfl : before = e := Option.some.inj (there.symm.trans here)
      have account := orderly.accounted i before here
      rw [phase] at account
      exact account
    · intro before there isLate
      have closed := (orderly.late i before there isLate).1
      simp [serving] at closed
  | submit here phase room => exact orderly.submit here phase room
  | @collect i e answer here phase =>
    apply orderly.move
    · intro before there
      obtain rfl : before = e := Option.some.inj (there.symm.trans here)
      have account := orderly.accounted i before here
      rw [phase] at account
      exact .inl account
    · intro before there isLate
      obtain rfl : before = e := Option.some.inj (there.symm.trans here)
      have stays := (orderly.late i before there isLate).2.2
      simp [phase] at stays
  | turnAway here pending closed =>
    exact orderly.move _ _ (fun _ _ => .inr ⟨rfl, closed⟩) fun _ _ _ => .inr rfl
  | take idle next => exact orderly.take idle next
  | finish busy => exact orderly.finish busy
  -- The worker leaves its queue as it is, and nothing was in its hands.
  | leave idle closed =>
    refine ⟨?_, orderly.once, orderly.room, orderly.owned, orderly.machine, fun _ => closed, ?_,
      orderly.late⟩
    · rw [orderly.order, idle]
      rfl
    · intro i e here
      refine (orderly.accounted i e here).onward id ?_ (List.append_nil _).symm id
      rw [idle]
      exact id

theorem event {rule : Desk α → Prop} (orderly : Orderly m d) {next : Desk α}
    (event : Event rule d next) : Orderly m next := by
  cases event with
  | step step => exact orderly.step step
  | bring job => exact orderly.bring job
  | stop _ => exact orderly.stop

end Orderly

theorem Reaches.orderly {rule : Desk α → Prop} (reaches : Reaches rule m d) : Orderly m d := by
  induction reaches with
  | refl => exact orderly_opened m
  | tail _ event ih => exact ih.event event

end Desk

end Abacus
