import Abacus.Proofs.Desk

/-!
# Many callers, one worker

Whatever the order in which things happen at a desk, jobs are performed one at a time, in the order
of the queue and none twice, and the machine is the one that they leave behind one after the other.
If nobody stops the worker while a caller is with it, each caller gets the result of its own job on
the machine as the jobs before it left it, and everyone is served
(`desk_serves_in_queue_order`).
-/
namespace Abacus

variable {α : Type} {m : Machine} {d : Desk α}

namespace Desk

/-! ## A worker that is stopped only when nobody is with it -/

/-- What holds besides if nobody stops the worker while a caller is with it. -/
structure Calm (m : Machine) (d : Desk α) : Prop extends Orderly m d where
  settled : d.stopped = true → d.activity.current ++ d.queue = [] ∧
    ∀ (i : Nat) (e : Errand α), d.errands[i]? = some e →
      e.late = true ∨ ∃ result, e.phase = .returned result
  answered : ∀ (i : Nat) (e : Errand α) result, d.errands[i]? = some e → e.late = false →
    e.phase = .returned result → Answers m d.executed ⟨i, e.job⟩ result

theorem Orderly.queue_empty (orderly : Orderly m d) (free : d.Free) (serving : d.stopped = false) :
    d.activity.current ++ d.queue = [] := by
  apply List.eq_nil_iff_forall_not_mem.mpr
  intro t pending
  have submitted := orderly.mem_submitted pending
  obtain ⟨e, here, -⟩ := Option.map_eq_some_iff.mp (orderly.owned t submitted)
  obtain ⟨result, returned⟩ := free e (List.mem_of_getElem? here)
  have account := orderly.accounted t.owner e here
  rw [returned] at account
  rcases account with answers | ⟨-, closed⟩
  · -- A job that has been performed has left the queue, and a caller has no other one.
    have once := orderly.once
    rw [orderly.order, List.map_append, List.nodup_append] at once
    exact once.2.2 _ (List.mem_map_of_mem answers.mem) _ (List.mem_map_of_mem pending) rfl
  · simp [serving] at closed

namespace Calm

/-- While a caller that has been let in waits, the worker is in service. -/
theorem serving_of_phase (calm : Calm m d) {i : Nat} {e : Errand α}
    (here : d.errands[i]? = some e) (started : e.phase ≠ .arrived)
    (pending : ∀ result, e.phase ≠ .returned result) : d.stopped = false := by
  by_contra closed
  have closed : d.stopped = true := by simpa using closed
  rcases (calm.settled closed).2 i e here with isLate | ⟨result, returned⟩
  · rcases (calm.late i e here isLate).2.2 with arrived | refused
    · exact started arrived
    · exact pending _ refused
  · exact pending result returned

theorem answered_mark (calm : Calm m d) {i : Nat} {change : Phase α → Phase α}
    (moved : ∀ e result, d.errands[i]? = some e → e.late = false →
      change e.phase = .returned result → Answers m d.executed ⟨i, e.job⟩ result)
    (j : Nat) (e : Errand α) (result : Except WorkerError α)
    (here : (mark d.errands i change)[j]? = some e) (timely : e.late = false)
    (returned : e.phase = .returned result) : Answers m d.executed ⟨j, e.job⟩ result := by
  rcases cases_mark here with ⟨rfl, before, there, rfl⟩ | ⟨-, there⟩
  · exact moved before result there timely returned
  · exact calm.answered j e result there timely returned

theorem settled_step (calm : Calm m d) {next : Desk α} (step : Step d next)
    (closed : next.stopped = true) : next.activity.current ++ next.queue = [] ∧
      ∀ (i : Nat) (e : Errand α), next.errands[i]? = some e →
        e.late = true ∨ ∃ result, e.phase = .returned result := by
  cases step with
  | @enter _ _ _ _ serving => simp [serving] at closed
  | @submit _ _ here phase _ =>
    have serving := calm.serving_of_phase here (by simp [phase]) (by simp [phase])
    simp [serving] at closed
  | @collect _ _ _ here phase =>
    have serving := calm.serving_of_phase here (by simp [phase]) (by simp [phase])
    simp [serving] at closed
  | turnAway here pending _ =>
    obtain ⟨empty, gone⟩ := calm.settled closed
    refine ⟨empty, ?_⟩
    intro j e there
    rcases cases_mark there with ⟨rfl, before, -, rfl⟩ | ⟨-, there⟩
    · exact .inr ⟨_, rfl⟩
    · exact gone j e there
  | take idle next =>
    have empty := (calm.settled closed).1
    simp [next] at empty
  | finish busy =>
    have empty := (calm.settled closed).1
    simp [busy, Activity.current] at empty
  | leave idle _ =>
    obtain ⟨empty, gone⟩ := calm.settled closed
    rw [idle] at empty
    exact ⟨empty, gone⟩

theorem step (calm : Calm m d) {next : Desk α} (step : Step d next) : Calm m next := by
  refine ⟨calm.toOrderly.step step, calm.settled_step step, ?_⟩
  cases step with
  | enter => exact calm.answered_mark (by simp)
  | submit => exact calm.answered_mark (by simp)
  | @collect i e answer here phase =>
    apply calm.answered_mark
    intro before result there _ returned
    obtain rfl : before = e := Option.some.inj (there.symm.trans here)
    obtain rfl : answer = result := Phase.returned.inj returned
    have account := calm.accounted i before here
    rw [phase] at account
    exact account
  | @turnAway i e here pending closed =>
    apply calm.answered_mark
    intro before result there timely _
    obtain rfl : before = e := Option.some.inj (there.symm.trans here)
    rcases (calm.settled closed).2 i before here with isLate | ⟨own, returned⟩
    · simp [timely] at isLate
    · exact absurd returned (pending own)
  | take => exact calm.answered
  | finish busy =>
    intro i e result here timely returned
    refine (calm.answered_mark ?_ i e result here timely returned).append _
    intro before own there punctual received
    -- An answer that comes in makes no caller return.
    obtain ⟨job, isLate, phase⟩ := before
    match phase, received with
    | .returned _, received => exact calm.answered _ _ own there punctual received
  | leave => exact calm.answered

theorem event (calm : Calm m d) {next : Desk α} (event : Event whenFree d next) :
    Calm m next := by
  cases event with
  | step step => exact calm.step step
  | bring job =>
    refine ⟨calm.toOrderly.bring job, ?_, ?_⟩
    · intro closed
      obtain ⟨empty, gone⟩ := calm.settled closed
      refine ⟨empty, ?_⟩
      intro i e here
      rcases cases_bring here with here | ⟨-, rfl⟩
      · exact gone i e here
      · exact .inl closed
    · intro i e result here timely returned
      rcases cases_bring here with here | ⟨-, rfl⟩
      · exact calm.answered i e result here timely returned
      · simp at returned
  | stop allowed =>
    refine ⟨calm.toOrderly.stop, ?_, calm.answered⟩
    intro _
    by_cases closed : d.stopped = true
    · exact calm.settled closed
    · have free : d.Free := allowed.resolve_left closed
      refine ⟨calm.toOrderly.queue_empty free (by simpa using closed), ?_⟩
      intro i e here
      exact .inr (free e (List.mem_of_getElem? here))

/-- After the worker has been stopped, nothing happens to its machine. -/
theorem event_stopped (calm : Calm m d) {next : Desk α} (event : Event whenFree d next)
    (closed : d.stopped = true) :
    next.stopped = true ∧ next.machine = d.machine ∧ next.executed = d.executed := by
  cases event with
  | step step =>
    cases step with
    | finish busy =>
      have empty := (calm.settled closed).1
      simp [busy, Activity.current] at empty
    | _ => exact ⟨closed, rfl, rfl⟩
  | bring job => exact ⟨closed, rfl, rfl⟩
  | stop _ => exact ⟨rfl, rfl, rfl⟩

end Calm

theorem calm_opened (m : Machine) : Calm m (opened m : Desk α) :=
  ⟨orderly_opened m, by simp [opened], by simp [opened]⟩

theorem Reaches.calm (reaches : Reaches whenFree m d) : Calm m d := by
  induction reaches with
  | refl => exact calm_opened m
  | tail _ event ih => exact ih.event event

theorem Calm.stopped_forever (calm : Calm m d) (closed : d.stopped = true) {final : Desk α}
    (runs : Runs whenFree d final) :
    Calm m final ∧ final.stopped = true ∧ final.machine = d.machine ∧
      final.executed = d.executed := by
  induction runs with
  | refl => exact ⟨calm, closed, rfl, rfl⟩
  | tail _ event ih =>
    obtain ⟨before, still, machine, executed⟩ := ih
    obtain ⟨stopped, same, none⟩ := before.event_stopped event still
    exact ⟨before.event event, stopped, same.trans machine, none.trans executed⟩

end Desk

/-! ## Everyone is served -/

namespace Phase

/-- A bound on the steps that the caller and the worker have yet to make for it. -/
def effort : Phase α → Nat
  | arrived => 6
  -- What a ticket in the queue costs the worker is counted there, so this must exceed both.
  | admitted => 5
  | queued none => 2
  | queued (some _) => 1
  | returned _ => 0

theorem effort_receive (answer : Except WorkerError α) (phase : Phase α) :
    (receive answer phase).effort ≤ phase.effort := by
  match phase with
  | queued none => exact Nat.le_succ 1
  | arrived | admitted | queued (some _) | returned _ => exact Nat.le_refl _

theorem effort_pos {phase : Phase α} (pending : ∀ result, phase ≠ returned result) :
    0 < phase.effort := by
  match phase with
  | returned result => exact absurd rfl (pending result)
  | arrived | admitted | queued none | queued (some _) => exact Nat.succ_pos _

end Phase

def Activity.effort : Activity α → Nat
  | busy _ => 2
  | idle => 1
  | gone => 0

namespace Desk

def toil : List (Errand α) → Nat
  | [] => 0
  | e :: errands => e.phase.effort + toil errands

/-- A bound on the steps that the worker and the callers can make. -/
def effort (d : Desk α) : Nat := toil d.errands + 2 * d.queue.length + d.activity.effort

theorem toil_mark {errands : List (Errand α)} {i : Nat} {e : Errand α}
    (here : errands[i]? = some e) (change : Phase α → Phase α) :
    toil (mark errands i change) + e.phase.effort = toil errands + (change e.phase).effort := by
  induction errands generalizing i with
  | nil => simp at here
  | cons first errands ih =>
    cases i with
    | zero =>
      obtain rfl : first = e := by simpa using here
      simp only [toil, mark, List.modify_zero_cons]
      omega
    | succ i =>
      have rest := ih (i := i) (by simpa using here)
      simp only [toil, mark, List.modify_succ_cons] at rest ⊢
      omega

theorem Step.effort_lt (orderly : Orderly m d) {next : Desk α} (step : Step d next) :
    next.effort < d.effort := by
  cases step with
  | enter here phase _ =>
    have moved := toil_mark here fun _ => .admitted
    simp only [phase, Phase.effort] at moved
    simp only [effort]
    omega
  | submit here phase _ =>
    have moved := toil_mark here fun _ => .queued none
    simp only [phase, Phase.effort] at moved
    simp only [effort, List.length_append, List.length_singleton]
    omega
  | @collect _ _ answer here phase =>
    have moved := toil_mark here fun _ => .returned answer
    simp only [phase, Phase.effort] at moved
    simp only [effort]
    omega
  | turnAway here pending _ =>
    have moved := toil_mark here fun _ => .returned (.error .stopped)
    have positive := Phase.effort_pos pending
    have spent : (Phase.returned (.error .stopped) : Phase α).effort = 0 := rfl
    simp only [effort]
    omega
  | take idle next =>
    simp only [effort, idle, next, List.length_cons, Activity.effort]
    omega
  -- The answer takes the job off the worker, and its caller needs no more steps than before.
  | @finish t busy =>
    have current : t ∈ d.submitted := orderly.mem_submitted (by simp [busy, Activity.current])
    obtain ⟨e, here, -⟩ := Option.map_eq_some_iff.mp (orderly.owned t current)
    have moved := toil_mark here (.receive ((Worker.start d.machine).perform t.job).2)
    have no_more := Phase.effort_receive ((Worker.start d.machine).perform t.job).2 e.phase
    simp only [effort, busy, Activity.effort]
    omega
  | leave idle _ =>
    simp only [effort, idle, Activity.effort]
    omega

/-- Nobody gets stuck: a caller that waits for the worker waits for one that can go on, or for one
that has been stopped. -/
theorem Orderly.possible (orderly : Orderly m d) (waiting : ¬ d.Free) : ∃ next, Step d next := by
  have works (busy : d.activity.current ++ d.queue ≠ []) (serving : d.stopped = false) :
      ∃ next, Step d next := by
    cases activity : d.activity with
    | idle =>
      obtain ⟨t, rest, next⟩ : ∃ t rest, d.queue = t :: rest := by
        apply List.exists_cons_of_ne_nil
        simpa [activity, Activity.current] using busy
      exact ⟨_, .take activity next⟩
    | busy t => exact ⟨_, .finish activity⟩
    | gone =>
      have closed := orderly.present activity
      simp [serving] at closed
  obtain ⟨e, member, pending⟩ : ∃ e ∈ d.errands, ∀ result, e.phase ≠ .returned result := by
    simpa [Free] using waiting
  obtain ⟨i, here⟩ := List.getElem?_of_mem member
  by_cases closed : d.stopped = true
  · exact ⟨_, .turnAway here pending closed⟩
  · have serving : d.stopped = false := by simpa using closed
    cases phase : e.phase with
    | arrived => exact ⟨_, .enter here phase serving⟩
    | admitted =>
      by_cases room : d.queue.length < capacity
      · exact ⟨_, .submit here phase room⟩
      · -- The queue is full, so the worker can go on.
        apply works _ serving
        intro empty
        have short : d.queue = [] := (List.append_eq_nil_iff.mp empty).2
        simp [short, capacity] at room
    | queued answer =>
      cases answer with
      | some answer => exact ⟨_, .collect here phase⟩
      | none =>
        have account := orderly.accounted i e here
        rw [phase] at account
        exact works (List.ne_nil_of_mem account) serving
    | returned result => exact absurd phase (pending result)

/-- Everyone returns, and nothing is left in the queue. -/
theorem Calm.inevitably (calm : Calm m d) :
    Inevitably (fun final => final.Free ∧ final.executed = final.submitted) d := by
  -- Each step takes some of the effort that is left.
  induction effort : d.effort using Nat.strongRecOn generalizing d with
  | _ n ih =>
    by_cases free : d.Free
    · refine .here ⟨free, ?_⟩
      have empty : d.activity.current ++ d.queue = [] := by
        by_cases closed : d.stopped = true
        · exact (calm.settled closed).1
        · exact calm.toOrderly.queue_empty free (by simpa using closed)
      rw [calm.order, empty, List.append_nil]
    · refine .later (calm.toOrderly.possible free) ?_
      intro next step
      exact ih next.effort (effort ▸ step.effort_lt calm.toOrderly) (calm.step step) rfl

/-! ## Sources give what they give on a new machine -/

theorem Answers.own {m : Machine} {executed : List (Ticket α)} {t : Ticket α}
    {result : Except WorkerError α} (answers : Answers m executed t result) :
    ∃ earlier later, executed = earlier ++ t :: later ∧
      result = (t.job ((Worker.start m).after (earlier.map Ticket.job)).machine).2.mapError
        .brokeDown := by
  obtain ⟨earlier, later, order, own⟩ := answers
  refine ⟨earlier, later, order, ?_⟩
  rw [own, Worker.after_start, Worker.perform_running]
  rfl

theorem Orderly.executed_confined (orderly : Orderly m d)
    (confined : ∀ e ∈ d.errands, e.job.Confined) {t : Ticket α} (member : t ∈ d.executed) :
    t.job.Confined := by
  have submitted : t ∈ d.submitted := by
    rw [orderly.order]
    exact List.mem_append_left _ member
  obtain ⟨e, here, same⟩ := Option.map_eq_some_iff.mp (orderly.owned t submitted)
  rw [← same]
  exact confined e (List.mem_of_getElem? here)

/-- If all jobs only interpret sources and look at the machine, a source gives what it gives on a
new machine. -/
theorem Calm.interprets (calm : Calm m d) (confined : ∀ e ∈ d.errands, e.job.Confined)
    {i : Nat} {e : Errand α} {source : Bytes} {read : Except MachineError Value → α}
    {result : Except WorkerError α} {fresh : Machine} (here : d.errands[i]? = some e)
    (asks : e.job = .asking source read) (timely : e.late = false)
    (returned : e.phase = .returned result) (alike : Machine.Alike fresh m) :
    result = .ok (read (fresh.interpret source).result) := by
  obtain ⟨earlier, later, order, rfl⟩ := (calm.answered i e result here timely returned).own
  have used : Machine.Alike ((Worker.start m).after (earlier.map Ticket.job)).machine m := by
    apply Worker.after_alike
    intro job member
    obtain ⟨t, before, rfl⟩ := List.mem_map.mp member
    apply calm.toOrderly.executed_confined confined
    rw [order]
    exact List.mem_append_left _ before
  simp only [asks, Job.asking, used.interpret_result, alike.interpret_result]
  rfl

end Desk

open Desk in
/-- Callers come in any number, and they, the worker and those who stop it take turns in any order.
Jobs enter the queue once and are performed one at a time and in the order of the queue, each on the
machine that the jobs before it left. Those who come after the worker has been stopped are turned
away. If it is stopped only when nobody is with it, everybody else gets the result of its own job or
the message of its own breakdown, whatever became of the others; everybody returns, and nothing that
entered the queue is left undone. What a source gives is what it gives on a new machine. After the
worker has been stopped, nothing ever happens to its machine. -/
theorem desk_serves_in_queue_order (m : Machine) (d : Desk α) :
    (∀ rule, Reaches rule m d →
      d.submitted = d.executed ++ (d.activity.current ++ d.queue) ∧
      d.queue.length ≤ capacity ∧ (d.submitted.map Ticket.owner).Nodup ∧
      d.machine = ((Worker.start m).after (d.executed.map Ticket.job)).machine ∧
      ∀ i e, d.errands[i]? = some e → e.late = true →
        i ∉ d.submitted.map Ticket.owner ∧
        ∀ result, e.phase = .returned result → result = .error .stopped) ∧
    (Reaches whenFree m d →
      (∀ i e result, d.errands[i]? = some e → e.late = false → e.phase = .returned result →
        (d.executed.map Ticket.owner).count i = 1 ∧
        ∃ earlier later, d.executed = earlier ++ ⟨i, e.job⟩ :: later ∧
          let n := ((Worker.start m).after (earlier.map Ticket.job)).machine
          (∀ value, (e.job n).2 = .ok value → result = .ok value) ∧
          (∀ message, (e.job n).2 = .error message →
            ∃ error, result = .error error ∧ error.message = text "vm worker: " ++ message)) ∧
      ((∀ e ∈ d.errands, e.job.Confined) →
        ∀ (i : Nat) (e : Errand α) source read result fresh, d.errands[i]? = some e →
          e.job = .asking source read → e.late = false → e.phase = .returned result →
            Machine.Alike fresh m → result = .ok (read (fresh.interpret source).result)) ∧
      Inevitably (fun final => final.Free ∧ final.executed = final.submitted) d ∧
      (d.stopped = true → ∀ final, Runs whenFree d final →
        final.stopped = true ∧ final.machine = d.machine ∧ final.executed = d.executed)) := by
  constructor
  · intro rule reaches
    have orderly := reaches.orderly
    refine ⟨orderly.order, orderly.room, orderly.once, by rw [orderly.machine, Worker.start], ?_⟩
    intro i e here isLate
    obtain ⟨-, outside, arrived | refused⟩ := orderly.late i e here isLate
    · exact ⟨outside, by simp [arrived]⟩
    · refine ⟨outside, ?_⟩
      intro result returned
      exact (Phase.returned.inj (refused.symm.trans returned)).symm
  · intro reaches
    have calm := reaches.calm
    refine ⟨?_, ?_, calm.inevitably, ?_⟩
    · intro i e result here timely returned
      have answers := calm.answered i e result here timely returned
      have once : (d.executed.map Ticket.owner).Nodup := by
        have once := calm.once
        rw [calm.order, List.map_append] at once
        exact (List.nodup_append.mp once).1
      refine ⟨List.count_eq_one_of_mem once (List.mem_map_of_mem answers.mem), ?_⟩
      obtain ⟨earlier, later, order, own⟩ := answers.own
      refine ⟨earlier, later, order, ?_, ?_⟩
      · intro value returns
        rw [own, returns]
        rfl
      · intro message breaks
        refine ⟨.brokeDown message, ?_, rfl⟩
        rw [own, breaks]
        rfl
    · intro confined i e source read result fresh here asks timely returned alike
      exact calm.interprets confined here asks timely returned alike
    · intro closed final runs
      exact (calm.stopped_forever closed runs).2

/-! ## Two callers and a third that comes too late -/

namespace Desk

theorem mark_last (errands : List (Errand α)) (e : Errand α) (change : Phase α → Phase α) :
    mark (errands ++ [e]) errands.length change =
      errands ++ [{ e with phase := change e.phase }] := by
  apply List.ext_getElem?
  intro j
  rw [getElem?_mark]
  rcases Nat.lt_trichotomy j errands.length with earlier | rfl | beyond
  · have apart : errands.length ≠ j := by omega
    simp [List.getElem?_append_left earlier, apart]
  · simp
  · have outside : (errands ++ [e])[j]? = none := List.getElem?_eq_none (by simp; omega)
    have after : (errands ++ [{ e with phase := change e.phase }])[j]? = none :=
      List.getElem?_eq_none (by simp; omega)
    rw [outside, after, Option.map_none]

theorem runs_alone (rule : Desk α → Prop) (m : Machine) (errands : List (Errand α))
    (log : List (Ticket α)) (job : Job α) :
    Runs rule ⟨m, false, errands, [], .idle, log, log⟩
      ⟨((Worker.start m).perform job).1.machine, false,
        errands ++ [⟨job, false, .returned ((Worker.start m).perform job).2⟩], [], .idle,
        log ++ [⟨errands.length, job⟩], log ++ [⟨errands.length, job⟩]⟩ := by
  have last (phase : Phase α) : (errands ++ [⟨job, false, phase⟩])[errands.length]? =
      some ⟨job, false, phase⟩ := List.getElem?_concat_length
  have entered : Step ⟨m, false, errands ++ [⟨job, false, .arrived⟩], [], .idle, log, log⟩ _ :=
    .enter (last .arrived) rfl rfl
  have submitted : Step ⟨m, false, errands ++ [⟨job, false, .admitted⟩], [], .idle, log, log⟩ _ :=
    .submit (last .admitted) rfl (Nat.succ_pos _)
  have finished : Step ⟨m, false, errands ++ [⟨job, false, .queued none⟩], [],
      .busy ⟨errands.length, job⟩, log ++ [⟨errands.length, job⟩], log⟩ _ := .finish rfl
  have collected : Step ⟨((Worker.start m).perform job).1.machine, false,
      errands ++ [⟨job, false, .queued (some ((Worker.start m).perform job).2)⟩], [], .idle,
      log ++ [⟨errands.length, job⟩], log ++ [⟨errands.length, job⟩]⟩ _ :=
    .collect (last (.queued (some _))) rfl
  simp only [mark_last] at entered submitted finished collected
  -- Nobody else is there, so the caller passes through all its phases at once.
  have arrived : Runs rule ⟨m, false, errands, [], .idle, log, log⟩ _ := .single (.bring job)
  exact ((((arrived.tail (.step entered)).tail (.step submitted)).tail (.step (.take rfl rfl))).tail
    (.step finished)).tail (.step collected)

end Desk

open Desk in
/-- The first caller breaks down, the second asks for a sum. Then the worker is stopped, twice, and
a third caller is turned away. -/
theorem desk_serves_after_breakdown :
    let sum : Job (Except MachineError Value) := .asking (text "1 + 2") id
    let failure : Job (Except MachineError Value) := fun m => (m, .error (text "boom"))
    ∃ d result, Reaches whenFree .fresh d ∧ (∀ e ∈ d.errands, e.job.Confined) ∧
      d.errands = [⟨failure, false, .returned (.error (.brokeDown (text "boom")))⟩,
        ⟨sum, false, .returned result⟩, ⟨sum, true, .returned (.error .stopped)⟩] ∧
      result = .ok (Machine.fresh.interpret (text "1 + 2")).result := by
  intro sum failure
  let result := ((Worker.start .fresh).perform sum).2
  obtain ⟨d, reached, errands⟩ : ∃ d, Reaches whenFree .fresh d ∧
      d.errands = [⟨failure, false, .returned (.error (.brokeDown (text "boom")))⟩,
        ⟨sum, false, .returned result⟩, ⟨sum, true, .returned (.error .stopped)⟩] := by
    have served : Reaches whenFree .fresh ⟨_, false, [⟨failure, false, .returned _⟩,
        ⟨sum, false, .returned result⟩], [], .idle, [⟨0, failure⟩, ⟨1, sum⟩], _⟩ :=
      (runs_alone whenFree .fresh [] [] failure).trans (runs_alone whenFree .fresh _ _ sum)
    have stopped := (served.tail (.stop (.inr (by simp [Free])))).tail (.stop (.inl rfl))
    have refused := (stopped.tail (.bring sum)).tail (.step (.turnAway (i := 2) rfl (by simp) rfl))
    exact ⟨_, refused, mark_last [_, _] ⟨sum, true, .arrived⟩ _⟩
  have confined : ∀ e ∈ d.errands, e.job.Confined := by
    rw [errands]
    simp only [List.forall_mem_cons]
    exact ⟨.finish _, Job.confined_asking _ _, Job.confined_asking _ _, by simp⟩
  have own := ((desk_serves_in_queue_order .fresh d).2 reached).2.1 confined 1
  exact ⟨d, result, reached, confined, errands,
    own ⟨sum, false, .returned result⟩ (text "1 + 2") id result .fresh (by rw [errands]; rfl)
      rfl rfl rfl (.refl _)⟩

end Abacus
