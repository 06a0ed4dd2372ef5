import Ucore.Process.Standing

namespace Ucore
namespace Process

open Library
open Program
open Scheduler

/-!
# Waking and switching

What `wakeup_proc`, `schedule` and `run_timer_list` do to the run queue and to
the states of the processes.
-/

/-- The run queue of a scheduler holds its runnable processes. -/
abbrev Holds (allocated : Nat -> Bool) (sched : Sched) (running : Option Nat) : Prop :=
  Queued allocated (fun proc => (sched.task proc).state) (fun proc => (sched.task proc).timeSlice)
    (fun proc => (sched.task proc).onRq) sched.runList sched.procNum sched.entered sched.left running sched.idleproc

theorem task_setTask {Value : Type} (view : Task -> Value) (sched : Sched) (proc : Nat) (task : Task) :
    (fun other => view ((sched.setTask proc task).task other)) =
      Function.update (fun other => view (sched.task other)) proc (view task) := by
  funext other
  by_cases same : other = proc
  · subst same
    rw [Function.update_self]
    exact congrArg view (Function.update_self ..)
  · rw [Function.update_of_ne same]
    exact congrArg view (Function.update_of_ne same _ _)

/-- A field that a new task has as the old one had it. -/
theorem task_setTask_same {Value : Type} (view : Task -> Value) {sched : Sched} {proc : Nat} {task : Task}
    (same : view task = view (sched.task proc)) :
    (fun other => view ((sched.setTask proc task).task other)) = fun other => view (sched.task other) := by
  rw [task_setTask, same, Function.update_eq_self]

theorem entered_enqueue (sched : Sched) (proc : Nat) : (sched.enqueue proc).entered = sched.entered ++ [proc] := by
  unfold Sched.enqueue Sched.entered
  rw [List.filterMap_append]
  rfl

theorem left_enqueue (sched : Sched) (proc : Nat) : (sched.enqueue proc).left = sched.left := by
  unfold Sched.enqueue Sched.left
  rw [List.filterMap_append]
  exact List.append_nil _

theorem entered_dequeue (sched : Sched) (proc : Nat) : (sched.dequeue proc).entered = sched.entered := by
  unfold Sched.dequeue Sched.entered
  rw [List.filterMap_append]
  exact List.append_nil _

theorem left_dequeue (sched : Sched) (proc : Nat) : (sched.dequeue proc).left = sched.left ++ [proc] := by
  unfold Sched.dequeue Sched.left
  rw [List.filterMap_append]
  rfl

section Switching

variable {allocated : Nat -> Bool} {sched : Sched} {proc : Nat} {running : Option Nat}

/-- A process that is ready, or becomes so, enters the queue. -/
theorem Queued.enters {state : Nat -> ProcState} {running' : Option Nat}
    (held : Queued allocated state (fun proc => (sched.task proc).timeSlice) (fun proc => (sched.task proc).onRq)
      sched.runList sched.procNum sched.entered sched.left running sched.idleproc)
    (absent : proc ∉ sched.runList) (there : allocated proc = true)
    (members : forall other, Ready allocated (fun proc => (sched.task proc).state) running' sched.idleproc other <->
      other = proc \/ Ready allocated state running sched.idleproc other) :
    Holds allocated (sched.enqueue proc) running' := by
  have entered := held.enqueue absent there members
  unfold Holds
  rw [entered_enqueue, left_enqueue]
  have states : (fun other => ((sched.enqueue proc).task other).state) = fun other => (sched.task other).state :=
    task_setTask_same Task.state rfl
  have slices : (fun other => ((sched.enqueue proc).task other).timeSlice) =
      Function.update (fun other => (sched.task other).timeSlice) proc _ := task_setTask Task.timeSlice sched proc _
  have linked : (fun other => ((sched.enqueue proc).task other).onRq) =
      Function.update (fun other => (sched.task other).onRq) proc true := task_setTask Task.onRq sched proc _
  rw [states, slices, linked]
  exact entered

/-- The first process leaves the queue. -/
theorem Queued.leaves {rest : List Nat} (held : Holds allocated sched none) (first : sched.runList = proc :: rest) :
    Holds allocated (sched.dequeue proc) (some proc) := by
  have left := held.dequeue first (some proc) fun other => by
    unfold Ready
    grind
  unfold Holds
  rw [entered_dequeue, left_dequeue]
  have runList : (sched.dequeue proc).runList = rest := by
    change sched.runList.erase proc = rest
    rw [first, List.erase_cons_head]
  rw [runList]
  exact left

/-! ## Waking -/

theorem ready_woken {state : Nat -> ProcState} {idleproc other : Nat} (there : allocated proc = true)
    (elsewhere : running ≠ some proc) (busy : proc ≠ idleproc) :
    Ready allocated (Function.update state proc .runnable) running idleproc other <->
      other = proc \/ Ready allocated state running idleproc other := by
  unfold Ready
  by_cases same : other = proc
  · subst same
    rw [Function.update_self]
    exact ⟨fun _ => .inl rfl, fun _ => ⟨there, rfl, elsewhere, busy⟩⟩
  · rw [Function.update_of_ne same]
    exact ⟨.inr, fun either => either.resolve_left same⟩

/-- The state of the current process does not matter. -/
theorem ready_current {state : Nat -> ProcState} {next : ProcState} {current idleproc other : Nat} :
    Ready allocated (Function.update state current next) (some current) idleproc other <->
      Ready allocated state (some current) idleproc other := by
  unfold Ready
  by_cases same : other = current
  · subst same
    exact ⟨fun all => absurd rfl all.2.2.1, fun all => absurd rfl all.2.2.1⟩
  · rw [Function.update_of_ne same]

/-- What `wakeup_proc` does: the process becomes runnable and waits for nothing.
Only the queue and this process have changed. -/
structure Awoken (allocated : Nat -> Bool) (sched : Sched) (proc : Nat) (after : Sched) : Prop where
  state : (fun other => (after.task other).state) =
    Function.update (fun other => (sched.task other).state) proc .runnable
  waitState : (fun other => (after.task other).waitState) =
    Function.update (fun other => (sched.task other).waitState) proc 0
  current : after.current = sched.current
  idleproc : after.idleproc = sched.idleproc
  timerList : after.timerList = sched.timerList
  held : Holds allocated after (some after.current)

theorem wakeupProc_awakes (held : Holds allocated sched (some sched.current)) (there : allocated proc = true)
    (alive : (sched.task proc).state ≠ .zombie)
    (settled : (sched.task proc).state = .runnable -> (sched.task proc).waitState = 0)
    (idle : (sched.task sched.idleproc).state = .runnable) :
    Meets (wakeupProc proc) sched
      ⟨fun _ after => Awoken allocated sched proc after, fun _ _ => False, fun _ => False⟩ := by
  have absent : (sched.task proc).state ≠ .runnable -> proc ∉ sched.runList :=
    fun asleep member => asleep ((held.members proc).mp member).2.1
  have awaken : (fun other => ((sched.awaken proc).task other).state) =
      Function.update (fun other => (sched.task other).state) proc .runnable := task_setTask Task.state sched proc _
  have cleared : (fun other => ((sched.awaken proc).task other).waitState) =
      Function.update (fun other => (sched.task other).waitState) proc 0 := task_setTask Task.waitState sched proc _
  have slices : (fun other => ((sched.awaken proc).task other).timeSlice) = fun other => (sched.task other).timeSlice :=
    task_setTask_same Task.timeSlice rfl
  have linked : (fun other => ((sched.awaken proc).task other).onRq) = fun other => (sched.task other).onRq :=
    task_setTask_same Task.onRq rfl
  apply wakeupProc_meets
  · exact fun dead => alive dead
  · intro runnable
    refine ⟨?_, ?_, rfl, rfl, rfl, held⟩
    · rw [← runnable, Function.update_eq_self]
    · rw [← settled runnable, Function.update_eq_self]
  · exact fun queued asleep _ _ => absent asleep queued
  · intro _ asleep aside
    refine ⟨awaken, cleared, rfl, rfl, rfl, ?_⟩
    have here : proc = sched.current := aside.resolve_right fun same => asleep (same ▸ idle)
    unfold Holds
    rw [awaken, slices, linked]
    refine held.congr (fun other => ?_) (fun _ _ => ⟨rfl, rfl⟩) held.nonneg
    rw [here]
    exact ready_current
  · intro _ asleep elsewhere busy _
    have states : (fun other => (((sched.awaken proc).enqueue proc).task other).state) =
        fun other => ((sched.awaken proc).task other).state := task_setTask_same Task.state rfl
    have waits : (fun other => (((sched.awaken proc).enqueue proc).task other).waitState) =
        fun other => ((sched.awaken proc).task other).waitState := task_setTask_same Task.waitState rfl
    refine ⟨states.trans awaken, waits.trans cleared, rfl, rfl, rfl, ?_⟩
    have before : Queued allocated (fun other => (sched.task other).state)
        (fun other => ((sched.awaken proc).task other).timeSlice) (fun other => ((sched.awaken proc).task other).onRq)
        (sched.awaken proc).runList (sched.awaken proc).procNum (sched.awaken proc).entered (sched.awaken proc).left
        (some sched.current) (sched.awaken proc).idleproc := by
      rw [slices, linked]
      exact held
    refine before.enters (absent asleep) there fun other => ?_
    rw [awaken]
    exact ready_woken there (fun same => elsewhere (Option.some.inj same).symm) busy

/-! ## Switching -/

/-- What does not change while the next process is chosen. -/
structure Steady (sched after : Sched) : Prop where
  state : (fun other => (after.task other).state) = fun other => (sched.task other).state
  waitState : (fun other => (after.task other).waitState) = fun other => (sched.task other).waitState
  idleproc : after.idleproc = sched.idleproc
  timerList : after.timerList = sched.timerList

theorem Steady.trans {middle after : Sched} (first : Steady sched middle) (second : Steady middle after) :
    Steady sched after :=
  ⟨second.state.trans first.state, second.waitState.trans first.waitState, second.idleproc.trans first.idleproc,
    second.timerList.trans first.timerList⟩

/-- A task changes in fields that the run queue does not depend on. -/
theorem steady_setTask {task : Task} (state : task.state = (sched.task proc).state)
    (waitState : task.waitState = (sched.task proc).waitState) : Steady sched (sched.setTask proc task) :=
  ⟨task_setTask_same Task.state state, task_setTask_same Task.waitState waitState, rfl, rfl⟩

theorem Queued.setTask {task : Task} (held : Holds allocated sched running)
    (state : task.state = (sched.task proc).state)
    (slice : task.timeSlice = (sched.task proc).timeSlice) (onRq : task.onRq = (sched.task proc).onRq) :
    Holds allocated (sched.setTask proc task) running := by
  unfold Holds
  rw [task_setTask_same Task.state state, task_setTask_same Task.timeSlice slice, task_setTask_same Task.onRq onRq]
  exact held

/-- The current process has entered the queue, if it is ready. -/
theorem rejoin {rest : Scheduler.Call Unit} {post : Post Sched Errno Fault Unit}
    (held : Holds allocated sched (some sched.current)) (there : allocated sched.current = true)
    (onward : forall after, Steady sched after -> Holds allocated after none -> Meets rest after post) :
    Meets (if (sched.task sched.current).state = .runnable then schedClassEnqueue sched.current >>= fun _ => rest
      else rest) sched post := by
  have ready : forall other, Ready allocated (fun proc => (sched.task proc).state) none sched.idleproc other <->
      ((sched.task sched.current).state = .runnable /\ sched.current ≠ sched.idleproc /\ other = sched.current) \/
        Ready allocated (fun proc => (sched.task proc).state) (some sched.current) sched.idleproc other := by
    intro other
    unfold Ready
    grind
  have stays : ¬ ((sched.task sched.current).state = .runnable /\ sched.current ≠ sched.idleproc) ->
      Holds allocated sched none := by
    intro aside
    refine held.congr (fun other => ?_) (fun _ _ => ⟨rfl, rfl⟩) held.nonneg
    rw [ready]
    exact ⟨fun either => either.resolve_left fun all => aside ⟨all.1, all.2.1⟩, .inr⟩
  rw [meets_ite]
  split
  · rename_i runnable
    rw [meets_bind]
    apply schedClassEnqueue_meets
    · exact fun idle => onward _ ⟨rfl, rfl, rfl, rfl⟩ (stays fun both => both.2 idle)
    · exact fun queued _ => absurd rfl ((held.members sched.current).mp queued).2.2.1
    · intro busy absent
      refine onward _ ⟨task_setTask_same Task.state rfl, task_setTask_same Task.waitState rfl, rfl, rfl⟩ ?_
      refine held.enters absent there fun other => ?_
      rw [ready]
      exact or_congr_left ⟨fun all => all.2.2, fun same => ⟨runnable, busy, same⟩⟩
  · rename_i asleep
    exact onward _ ⟨rfl, rfl, rfl, rfl⟩ (stays fun both => asleep both.1)

theorem pickNext_picks (held : Holds allocated sched none) (idle : (sched.task sched.idleproc).state = .runnable)
    (there : allocated sched.idleproc = true) :
    Meets pickNext sched ⟨fun next after => Steady sched after /\ Holds allocated after (some next) /\
      allocated next = true /\ (sched.task next).state = .runnable, fun _ _ => False, fun _ => False⟩ := by
  unfold pickNext rrPickNext
  simp only [meets_bind, meets_get, meets_pure]
  cases runList : sched.runList with
  | nil =>
      simp only [List.head?_nil, meets_bind, meets_get, meets_pure]
      refine ⟨⟨rfl, rfl, rfl, rfl⟩, held.congr (fun other => ?_) (fun _ _ => ⟨rfl, rfl⟩) held.nonneg, there, idle⟩
      unfold Ready
      grind
  | cons first rest =>
      have member : first ∈ sched.runList := by
        rw [runList]
        exact List.mem_cons_self ..
      have ready := (held.members first).mp member
      unfold rrDequeue
      simp only [List.head?_cons, meets_bind, meets_get, meets_assert, meets_modify, meets_pure]
      exact ⟨fun _ => ⟨⟨rfl, rfl, rfl, rfl⟩, held.leaves runList, ready.1, ready.2.1⟩,
        fun absent => absent ⟨member, (held.slices first member).2.2⟩⟩

/-- What `schedule` does: a process that is runnable is current, and the queue
holds the others. -/
structure Switched (allocated : Nat -> Bool) (sched after : Sched) : Prop where
  steady : Steady sched after
  held : Holds allocated after (some after.current)
  there : allocated after.current = true
  runnable : (sched.task after.current).state = .runnable

theorem schedule_switches (held : Holds allocated sched (some sched.current)) (there : allocated sched.current = true)
    (idle : (sched.task sched.idleproc).state = .runnable) (thereToo : allocated sched.idleproc = true) :
    Meets schedule sched ⟨fun _ after => Switched allocated sched after, fun _ _ => False, fun _ => False⟩ := by
  unfold schedule
  simp only [meets_bind, meets_modify, meets_get]
  generalize marked : sched.setTask sched.current { sched.task sched.current with needResched := false } = start
  have before : Steady sched start := by
    rw [← marked]
    exact steady_setTask rfl rfl
  have heldStart : Holds allocated start (some start.current) := by
    rw [← marked]
    exact held.setTask rfl rfl rfl
  have same : start.current = sched.current := by rw [← marked]; rfl
  refine rejoin heldStart (by rw [same]; exact there) ?_
  intro joined steady heldJoined
  have whole := before.trans steady
  simp only [meets_bind, meets_modify]
  refine (pickNext_picks heldJoined ?_ ?_).mono ?_ (fun _ _ failed => failed) (fun _ stopped => stopped)
  · rw [whole.idleproc]
    exact (congrFun whole.state sched.idleproc).trans idle
  · rw [whole.idleproc]
    exact thereToo
  · rintro next picked ⟨still, heldPicked, live, runnable⟩
    have ran : Steady picked (picked.setTask next { picked.task next with runs := (picked.task next).runs + 1 }) :=
      steady_setTask rfl rfl
    refine ⟨(whole.trans still).trans ⟨ran.state, ran.waitState, ran.idleproc, ran.timerList⟩, ?_, live,
      (congrFun whole.state next).symm.trans runnable⟩
    have counted : Holds allocated (picked.setTask next { picked.task next with runs := (picked.task next).runs + 1 })
        (some next) := heldPicked.setTask rfl rfl rfl
    exact counted

/-! ## Ticks -/

variable {kept : Sched -> Prop}

/-- Firing keeps what waking and deleting a timer keep. -/
theorem fireLoop_keeps {timers : List Timer}
    (wakes : forall timer, timer ∈ timers -> forall sched, kept sched ->
      ((sched.task timer.proc).waitState ≠ 0 -> (sched.task timer.proc).waitState &&& wtInterrupted ≠ 0) /\
        Meets (wakeupProc timer.proc) sched ⟨fun _ after => kept after, fun _ _ => False, fun _ => False⟩)
    (deletes : forall sched address, kept sched -> kept { sched with timerList := removeTimer address sched.timerList })
    (holds : kept sched) :
    Meets (fireLoop timers) sched ⟨fun _ after => kept after, fun _ _ => False, fun _ => False⟩ := by
  induction timers generalizing sched with
  | nil => exact holds
  | cons timer rest inductionHypothesis =>
      have later := fun other member => wakes other (List.mem_cons_of_mem _ member)
      rcases wakes timer (List.mem_cons_self ..) sched holds with ⟨interrupted, woken⟩
      have onward : Meets (wakeupProc timer.proc) sched
          ⟨fun _ after => Meets (fireLoop rest) { after with timerList := removeTimer timer.address after.timerList }
            ⟨fun _ final => kept final, fun _ _ => False, fun _ => False⟩, fun _ _ => False, fun _ => False⟩ :=
        woken.mono (fun _ after holds => inductionHypothesis later (deletes after timer.address holds))
          (fun _ _ failed => failed) (fun _ stopped => stopped)
      rw [fireLoop]
      unfold fireTimer delTimer
      simp only [meets_ite, meets_bind, meets_get, meets_assert, meets_modify, meets_pure]
      split
      · split
        · rename_i set
          exact ⟨fun _ => onward, fun other => other (interrupted set)⟩
        · exact onward
      · exact holds

theorem runTimerList_keeps
    (wakes : forall timer, timer ∈ sched.timerList -> forall sched, kept sched ->
      ((sched.task timer.proc).waitState ≠ 0 -> (sched.task timer.proc).waitState &&& wtInterrupted ≠ 0) /\
        Meets (wakeupProc timer.proc) sched ⟨fun _ after => kept after, fun _ _ => False, fun _ => False⟩)
    (deletes : forall sched address, kept sched -> kept { sched with timerList := removeTimer address sched.timerList })
    (nears : forall timer rest, sched.timerList = timer :: rest ->
      kept { sched with timerList := { timer with expires := timer.expires - 1 } :: rest })
    (ticks : forall after task, kept after -> task.state = (after.task sched.current).state ->
      task.waitState = (after.task sched.current).waitState ->
      (0 <= (after.task sched.current).timeSlice -> 0 <= task.timeSlice) -> kept (after.setTask sched.current task))
    (holds : kept sched) :
    Meets runTimerList sched
      ⟨fun _ after => kept after, fun _ _ => False, fun fault => fault = .assertion "timer->expires != 0"⟩ := by
  unfold runTimerList
  simp only [meets_bind, meets_get]
  have counted : Meets (countDown sched.timerList) sched
      ⟨fun _ after => kept after, fun _ _ => False, fun fault => fault = .assertion "timer->expires != 0"⟩ := by
    cases timers : sched.timerList with
    | nil => exact holds
    | cons timer rest =>
        unfold countDown
        simp only [meets_bind, meets_assert, meets_modify]
        refine ⟨fun _ => ?_, fun _ => trivial⟩
        refine (fireLoop_keeps ?_ deletes (nears timer rest timers)).mono (fun _ _ holds => holds)
          (fun _ _ failed => failed) (fun _ stopped => stopped.elim)
        intro other member
        rw [timers] at wakes
        rcases List.mem_cons.mp member with rfl | old
        · exact wakes timer (List.mem_cons_self ..)
        · exact wakes other (List.mem_cons_of_mem _ old)
  refine counted.mono ?_ (fun _ _ failed => failed) (fun _ stopped => stopped)
  intro _ after holds
  refine schedClassProcTick_meets fun task same => ?_
  exact ticks after task holds same.1 same.2.1 fun nonneg => (same.2.2.2 nonneg).1

end Switching

end Process
end Ucore
