import Ucore.Sched.StrideArrivals

namespace Ucore
namespace Stride

open Library
open Program
open Scheduler (ProcState Errno Fault)

/-!
# The priorities of the stride scheduler

`alloc_proc` gives a process the priority 0.  Neither `do_fork` nor
`stride_enqueue` gives it another one, and it cannot call `lab6_set_priority`
before it has run.  So the first process that is forked stands at the top of
the pool with the priority that a pick divides by.
-/

/-- `stride_pick_next` divides by the priority of the process that it takes, and
0 is the priority of one that was just forked. -/
def StrideSched.Divides (sched : StrideSched) : Prop :=
  forall proc, sched.pool.top = some proc -> 1 <= (sched.task proc).priority

/-- Otherwise the pick does not return. -/
theorem stridePickNext_meets (sched : StrideSched) :
    Meets stridePickNext sched ⟨fun _ _ => True, fun _ _ => False, fun _ => False⟩ <-> sched.Divides := by
  unfold stridePickNext StrideSched.Divides
  simp only [meets_bind, meets_get]
  cases sched.pool.top with
  | none =>
      rw [meets_pure]
      constructor
      · intro _ proc top
        cases top
      · exact fun _ => trivial
  | some proc =>
      simp only [meets_bind, meets_assert, meets_modify, meets_pure]
      constructor
      · rintro ⟨_, nonzero⟩ other top
        cases top
        exact Nat.one_le_iff_ne_zero.mpr fun zero => nonzero (not_not.mpr zero)
      · intro divides
        have nonzero := Nat.one_le_iff_ne_zero.mp (divides proc rfl)
        exact ⟨fun _ => trivial, fun zero => zero nonzero⟩

theorem StrideSched.enqueue_priority (sched : StrideSched) (proc : Nat) :
    ((sched.enqueue proc).task proc).priority = (sched.task proc).priority := by
  unfold StrideSched.enqueue
  dsimp only
  rw [StrideSched.task_setTask]

/-- Only `idleproc` runs, and no other process has been forked. -/
structure StrideSched.Alone (sched : StrideSched) : Prop where
  idle : sched.current = sched.idleproc
  pool : sched.pool = .nil
  runnable : (sched.task sched.idleproc).state = .runnable
  unborn : forall p, p ≠ sched.idleproc -> (sched.task p).state = .uninit

section Alone

variable {sched next : StrideSched}

theorem StrideSched.Alone.divides (alone : sched.Alone) : sched.Divides := by
  intro proc top
  rw [alone.pool] at top
  cases top

/-- A change of `idleproc` or of the priority of another process -/
theorem StrideSched.Alone.setTask (alone : sched.Alone) {proc : Nat} {task : Task}
    (state : task.state = (sched.task proc).state) : (sched.setTask proc task).Alone := by
  have states : forall p, ((sched.setTask proc task).task p).state = (sched.task p).state := by
    intro p
    by_cases same : p = proc
    · rw [same, StrideSched.task_setTask, state]
    · rw [StrideSched.task_setTask_of_ne same]
  exact ⟨alone.idle, alone.pool, (states _).trans alone.runnable,
    fun p other => (states p).trans (alone.unborn p other)⟩

theorem StrideSched.Alone.schedule_meets (alone : sched.Alone) :
    Meets Stride.schedule sched ⟨fun _ after => after.Alone, fun _ _ => False, fun _ => False⟩ := by
  have cleared : sched.clearResched.Alone := alone.setTask rfl
  have switched : (sched.clearResched.switchTo sched.clearResched.idleproc).Alone := by
    let idle := sched.clearResched.idleproc
    have counted : (sched.clearResched.setTask idle { sched.clearResched.task idle with
        runs := (sched.clearResched.task idle).runs + 1 }).Alone := cleared.setTask rfl
    exact ⟨rfl, cleared.pool, counted.runnable, counted.unborn⟩
  have empty : sched.clearResched.pool.top = none := by
    rw [cleared.pool]
    rfl
  unfold Stride.schedule schedClassEnqueue pickNext stridePickNext
  simp only [meets_bind, meets_get, meets_ite, meets_modify, meets_pure]
  split
  · rw [if_neg (not_not.mpr cleared.idle), empty]
    simp only [meets_pure, meets_bind, meets_get]
    exact switched
  · rw [empty]
    simp only [meets_pure, meets_bind, meets_get]
    exact switched

/-- Without a fork nothing enters the pool. -/
theorem StrideSched.Alone.program_meets (alone : sched.Alone) {event : Event} (possible : event.Possible sched)
    (forks : forall child, event ≠ .fork child) :
    Meets event.program sched ⟨fun _ after => after.Alone, fun _ _ => False, fun _ => True⟩ := by
  cases event with
  | fork child => exact absurd rfl (forks child)
  | prioritise proc priority => exact alone.setTask rfl
  | sleep => exact absurd alone.idle possible.1
  | exit => exact absurd alone.idle possible.1
  | tick =>
      unfold Event.program schedClassProcTick strideProcTick
      simp only [meets_bind, meets_get, meets_ite, meets_modify]
      split
      · exact alone.setTask rfl
      · exact alone.setTask rfl
  | schedule => exact alone.schedule_meets.mono (fun _ _ kept => kept) (fun _ _ failed => failed) (fun _ _ => trivial)
  | wakeup proc =>
      have here : proc = sched.idleproc := by
        by_contra other
        exact possible (alone.unborn proc other)
      unfold Event.program wakeupProc
      simp only [meets_bind, meets_get, meets_assert, meets_ite, meets_pure]
      rw [here, alone.runnable]
      refine ⟨fun _ => ?_, fun _ => trivial⟩
      rw [if_neg (not_not.mpr rfl)]
      exact alone

/-- The first process that is forked is at the top of the pool with the
priority 0. -/
theorem StrideSched.Alone.fork_meets (alone : sched.Alone) {child : Nat} (free : sched.Free child) :
    Meets (Event.fork child).program sched ⟨fun _ after => ¬ after.Divides, fun _ _ => False, fun _ => False⟩ := by
  have fresh : (sched.setTask child Task.fresh).task child = Task.fresh := StrideSched.task_setTask ..
  have elsewhere : child ≠ (sched.setTask child Task.fresh).current := free.2.1
  have busy : child ≠ (sched.setTask child Task.fresh).idleproc := free.2.2
  unfold Event.program allocProc wakeupProc schedClassEnqueue strideEnqueue
  simp only [meets_bind, meets_get, meets_assert, meets_ite, meets_modify, meets_pure]
  rw [fresh]
  refine ⟨fun _ => ?_, fun dead => dead fun zombie => by cases zombie⟩
  rw [if_pos (by decide : Task.fresh.state ≠ .runnable), if_pos elsewhere]
  split
  · intro divides
    have top (first : Nat -> Nat -> Bool) : (sched.pool.insert first child).top = some child := by
      rw [alone.pool]
      rfl
    have positive := divides child (top _)
    rw [StrideSched.enqueue_priority, StrideSched.task_setTask] at positive
    exact absurd positive (by decide)
  · exact fun _ => absurd busy ‹_›

theorem StrideSched.Alone.step (alone : sched.Alone) {event : Event} (stepped : strides.step sched event = some next) :
    (forall child, event ≠ .fork child) /\ next.Alone \/ (Exists fun child => event = .fork child) /\
      ¬ next.Divides := by
  change (if event.Possible sched then _ else none) = some next at stepped
  split at stepped
  · rename_i possible
    by_cases forks : Exists fun child => event = .fork child
    · obtain ⟨child, rfl⟩ := forks
      exact .inr ⟨⟨child, rfl⟩, (alone.fork_meets possible).of_state stepped (fun _ broken => broken) fun _ =>
        False.elim⟩
    · have others : forall child, event ≠ .fork child := fun child same => forks ⟨child, same⟩
      exact .inl ⟨others, (alone.program_meets possible others).of_state stepped (fun _ kept => kept) fun _ =>
        False.elim⟩
  · cases stepped

/-- Up to the first fork the pool is empty, and after it the priority at its
top is 0. -/
theorem StrideSched.Alone.run (alone : sched.Alone) {events : List Event} {last : StrideSched}
    (ran : strides.run sched events = some last) :
    (forall done rest reached, events = done ++ rest -> strides.run sched done = some reached -> reached.Divides) <->
      forall child, .fork child ∉ events := by
  induction events generalizing sched with
  | nil =>
      refine ⟨fun _ child => List.not_mem_nil, fun _ done rest reached split there => ?_⟩
      rw [(List.append_eq_nil_iff.mp split.symm).1] at there
      cases there
      exact alone.divides
  | cons event rest inductionHypothesis =>
      rw [Machine.run_cons] at ran
      cases stepped : strides.step sched event with
      | none =>
          rw [stepped] at ran
          cases ran
      | some next =>
          rw [stepped] at ran
          have first : strides.run sched [event] = some next := by
            rw [Machine.run_cons, stepped]
            rfl
          rcases alone.step stepped with ⟨others, kept⟩ | ⟨⟨child, rfl⟩, broken⟩
          · have later := inductionHypothesis kept ran
            constructor
            · intro always child member
              have absent := later.mp fun done last reached split there =>
                always (event :: done) last reached (by rw [split]; rfl)
                  (by rw [Machine.run_cons, stepped]; exact there)
              rcases List.mem_cons.mp member with same | old
              · exact others child same.symm
              · exact absent child old
            · intro absent done last reached split there
              cases done with
              | nil =>
                  cases there
                  exact alone.divides
              | cons other done =>
                  cases split
                  rw [Machine.run_cons, stepped] at there
                  exact later.mpr (fun child member => absent child (List.mem_cons_of_mem _ member)) done last reached
                    rfl there
          · constructor
            · exact fun always => absurd (always [.fork child] rest next rfl first) broken
            · exact fun absent => absurd List.mem_cons_self (absent child)

end Alone

theorem boot_alone : boot.Alone where
  idle := rfl
  pool := rfl
  runnable := rfl
  unborn := fun _ other => congrArg Task.state (if_neg other)

/-- The process that can be picked has a priority, in every state of the run,
exactly if no process is forked. -/
theorem picks_have_priority (events : List Event) (last : StrideSched) (ran : strides.run boot events = some last) :
    (forall done rest sched, events = done ++ rest -> strides.run boot done = some sched -> sched.Divides) <->
      forall child, .fork child ∉ events :=
  boot_alone.run ran

theorem tickAndSchedule_have_priority : (strides.run boot [.tick, .schedule]).isSome = true /\
    forall done rest sched, [.tick, .schedule] = done ++ rest -> strides.run boot done = some sched ->
      sched.Divides := by
  have runs : (strides.run boot [.tick, .schedule]).isSome = true := by decide
  obtain ⟨last, ran⟩ := Option.isSome_iff_exists.mp runs
  exact ⟨runs, (picks_have_priority [.tick, .schedule] last ran).mpr (by simp)⟩

/-- The first process that is forked is picked with the priority 0. -/
theorem fork_divides_by_zero : Exists fun sched => strides.run boot [.fork 1] = some sched /\
    sched.pool.top = some 1 /\ (sched.task 1).priority = 0 /\ ¬ sched.Divides /\
      Stride.schedule sched = .stop .divisionByZero := by
  refine ⟨_, rfl, rfl, rfl, fun divides => ?_, rfl⟩
  exact absurd (divides 1 rfl) (by decide)

end Stride
end Ucore
