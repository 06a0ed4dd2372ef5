import Ucore.Process.Kinship
import Ucore.Process.Switching

namespace Ucore
namespace Process

open Library
open Program
open Scheduler

/-!
# Sound kernels

The invariant of the kernel, and how the calls keep it that wake processes, let
them sleep and let them go on.
-/

namespace Kernel

/-- What a process waits for. -/
def waits (kernel : Kernel) (proc : Nat) : Option Wait := (kernel.place proc).waits

/-- The invariant.  It has no `leaving` and no `woken` process but within
`do_exit`. -/
structure Sound (kernel : Kernel) (initial : Nat -> Int) (started : Prop) (leaving woken : Option Nat) : Prop where
  placed : Placed kernel.allocated kernel.place kernel.state kernel.waitState kernel.sched.current kernel.sched.idleproc
  queued : Holds kernel.allocated kernel.sched (some kernel.sched.current)
  timers : Timers kernel.allocated kernel.waits kernel.sched.timerList
  waiting : Waiting kernel.allocated kernel.waits kernel.state kernel.waitQueue kernel.wakeupFlags
  counted : Counted initial kernel.semaphore kernel.waitQueue
  kin : Kin kernel.family kernel.allocated kernel.waits kernel.state kernel.forking kernel.sched.idleproc
    kernel.initproc
    started leaving
  attended : Attended kernel.family kernel.allocated kernel.waits kernel.state woken

theorem state_setState (kernel : Kernel) (proc : Nat) (state : ProcState) (waitState : UInt32) :
    (kernel.setState proc state waitState).state = Function.update kernel.state proc state :=
  task_setTask Task.state kernel.sched proc _

theorem waitState_setState (kernel : Kernel) (proc : Nat) (state : ProcState) (waitState : UInt32) :
    (kernel.setState proc state waitState).waitState = Function.update kernel.waitState proc waitState :=
  task_setTask Task.waitState kernel.sched proc _

theorem waits_setPlace (kernel : Kernel) (place : Place) :
    (kernel.setPlace place).waits = Function.update kernel.waits kernel.sched.current place.waits := by
  funext proc
  by_cases same : proc = kernel.sched.current
  · rw [same, Function.update_self]
    exact congrArg Place.waits (Function.update_self ..)
  · rw [Function.update_of_ne same]
    exact congrArg Place.waits (Function.update_of_ne same _ _)

variable {kernel : Kernel} {initial : Nat -> Int} {started : Prop} {leaving woken : Option Nat} {proc : Nat}

/-! ## Waking -/

/-- Waking a process changes nothing else. -/
theorem wakeup_awakes
    (placed : Placed kernel.allocated kernel.place kernel.state kernel.waitState kernel.sched.current
      kernel.sched.idleproc)
    (queued : Holds kernel.allocated kernel.sched (some kernel.sched.current)) (there : kernel.allocated proc = true)
    (alive : kernel.state proc ≠ .zombie) :
    Meets (wakeup proc) kernel
      ⟨fun _ after => Exists fun sched => after = { kernel with sched } /\
        Awoken kernel.allocated kernel.sched proc sched,
        fun _ _ => False, fun _ => False⟩ := by
  unfold wakeup onSched
  rw [meets_zoom]
  have settled : (kernel.sched.task proc).state = .runnable -> (kernel.sched.task proc).waitState = 0 := by
    intro runnable
    have suits := placed.suits proc there
    rw [show kernel.state proc = .runnable from runnable] at suits
    exact suits.runnable
  refine (wakeupProc_awakes queued there alive settled placed.idle.2.2).mono ?_ (fun _ _ failed => failed)
    (fun _ stopped => stopped)
  exact fun _ sched awoken => ⟨sched, rfl, awoken⟩

theorem awoken_placed {sched : Sched}
    (placed : Placed kernel.allocated kernel.place kernel.state kernel.waitState kernel.sched.current
      kernel.sched.idleproc)
    (awoken : Awoken kernel.allocated kernel.sched proc sched) (alive : kernel.state proc ≠ .zombie) :
    Placed kernel.allocated kernel.place ({ kernel with sched } : Kernel).state
      ({ kernel with sched } : Kernel).waitState
      sched.current sched.idleproc := by
  have state : ({ kernel with sched } : Kernel).state = Function.update kernel.state proc .runnable := awoken.state
  have waitState : ({ kernel with sched } : Kernel).waitState = Function.update kernel.waitState proc 0 :=
    awoken.waitState
  rw [state, waitState, awoken.current, awoken.idleproc]
  exact placed.wake alive

namespace Sound

theorem awoken_kin (sound : kernel.Sound initial started leaving woken) (finished : kernel.state proc ≠ .uninit) :
    Kin kernel.family kernel.allocated kernel.waits (Function.update kernel.state proc .runnable) kernel.forking
      kernel.sched.idleproc kernel.initproc started leaving := by
  refine sound.kin.congr (fun other dead => ?_) (fun parent child making uninit => ?_) (fun _ _ _ => .inl rfl)
  · have different : other ≠ proc := by
      rintro rfl
      rw [Function.update_self] at dead
      cases dead
    rwa [Function.update_of_ne different] at dead
  · have different : child ≠ proc := by
      rintro rfl
      exact finished uninit
    rwa [Function.update_of_ne different]

theorem awoken_attended (sound : kernel.Sound initial started leaving woken) :
    Attended kernel.family kernel.allocated kernel.waits (Function.update kernel.state proc .runnable) woken := by
  refine sound.attended.congr (fun other pid codeStore there aware waiting sleeping => ?_)
    (fun other child _ member named dead => ⟨member, named, ?_, rfl⟩)
  · have different : other ≠ proc := by
      rintro rfl
      rw [Function.update_self] at sleeping
      cases sleeping
    rw [Function.update_of_ne different] at sleeping
    exact ⟨there, aware, waiting, sleeping⟩
  · have different : child ≠ proc := by
      rintro rfl
      rw [Function.update_self] at dead
      cases dead
    rwa [Function.update_of_ne different] at dead

/-- A process is woken that waits for no semaphore. -/
theorem awoken (sound : kernel.Sound initial started leaving woken) {sched : Sched}
    (awoken : Awoken kernel.allocated kernel.sched proc sched) (alive : kernel.state proc ≠ .zombie)
    (finished : kernel.state proc ≠ .uninit) (elsewhere : forall sem, kernel.waits proc ≠ some (.ksem sem)) :
    ({ kernel with sched } : Kernel).Sound initial started leaving woken := by
  have state : ({ kernel with sched } : Kernel).state = Function.update kernel.state proc .runnable := awoken.state
  have waits : ({ kernel with sched } : Kernel).waits = kernel.waits := rfl
  have placed := awoken_placed sound.placed awoken alive
  refine ⟨placed, awoken.held, ?_, ?_, sound.counted, ?_, ?_⟩
  · have timers := sound.timers
    rw [← awoken.timerList] at timers
    exact timers
  · rw [state]
    refine sound.waiting.congr (fun _ other member => ⟨(sound.waiting.linked _ other member).1, rfl⟩)
      (fun other sem there here => ⟨there, here, ?_, rfl⟩)
    have different : other ≠ proc := by
      rintro rfl
      exact elsewhere sem here
    rw [Function.update_of_ne different]
  · rw [state, waits]
    change Kin kernel.family kernel.allocated kernel.waits _ kernel.forking sched.idleproc kernel.initproc started
      leaving
    rw [awoken.idleproc]
    exact sound.awoken_kin finished
  · rw [state]
    exact sound.awoken_attended

/-! ## Ticks -/

/-- Only the scheduler changes, and no state or wait state. -/
theorem reschedule (sound : kernel.Sound initial started leaving woken) {sched : Sched}
    (state : (fun other => (sched.task other).state) = kernel.state)
    (waitState : (fun other => (sched.task other).waitState) = kernel.waitState)
    (current : sched.current = kernel.sched.current) (idleproc : sched.idleproc = kernel.sched.idleproc)
    (held : Holds kernel.allocated sched (some sched.current))
    (timers : Timers kernel.allocated kernel.waits sched.timerList) :
    ({ kernel with sched } : Kernel).Sound initial started leaving woken := by
  have same : ({ kernel with sched } : Kernel).state = kernel.state := state
  have sameToo : ({ kernel with sched } : Kernel).waitState = kernel.waitState := waitState
  refine ⟨?_, held, timers, ?_, sound.counted, ?_, ?_⟩
  · rw [same, sameToo, current, idleproc]
    exact sound.placed
  · rw [same]
    exact sound.waiting
  · rw [same, idleproc]
    exact sound.kin
  · rw [same]
    exact sound.attended

/-- The current process has another time slice, or is to be rescheduled. -/
theorem retask (sound : kernel.Sound initial started leaving woken) {task : Task}
    (state : task.state = kernel.state kernel.sched.current)
    (waitState : task.waitState = kernel.waitState kernel.sched.current) (nonneg : 0 <= task.timeSlice) :
    ({ kernel with sched := kernel.sched.setTask kernel.sched.current task } : Kernel).Sound initial started leaving
      woken := by
  refine sound.reschedule (task_setTask_same Task.state state) (task_setTask_same Task.waitState waitState) rfl rfl ?_
    sound.timers
  unfold Holds
  rw [task_setTask_same Task.state state, task_setTask Task.timeSlice, task_setTask Task.onRq]
  refine sound.queued.congr (fun _ => .rfl) (fun other member => ?_) (fun other there => ?_)
  · have different : other ≠ kernel.sched.current := by
      rintro rfl
      exact ((sound.queued.members _).mp member).2.2.1 rfl
    exact ⟨Function.update_of_ne different _ _, Function.update_of_ne different _ _⟩
  · by_cases same : other = kernel.sched.current
    · rw [same, Function.update_self]
      exact nonneg
    · rw [Function.update_of_ne same]
      exact sound.queued.nonneg other there

/-- The timer list matters to the timers only. -/
theorem retime {sched : Sched} {timerList : List Timer}
    (sound : ({ kernel with sched := { sched with timerList } } : Kernel).Sound initial started leaving woken)
    (timers : Timers kernel.allocated kernel.waits sched.timerList) :
    ({ kernel with sched } : Kernel).Sound initial started leaving woken :=
  ⟨sound.placed, sound.queued, timers, sound.waiting, sound.counted, sound.kin, sound.attended⟩

/-- A timer on the list waits for a process that may be woken. -/
theorem timer_suits (sound : kernel.Sound initial started leaving woken)
    (waits : kernel.waits proc = some .timer) (there : kernel.allocated proc = true) :
    (kernel.waitState proc ≠ 0 -> kernel.waitState proc &&& wtInterrupted ≠ 0) /\ kernel.state proc ≠ .zombie /\
      kernel.state proc ≠ .uninit /\ (kernel.state proc = .runnable -> kernel.waitState proc = 0) := by
  have suits := sound.placed.suits proc there
  rw [show (kernel.place proc).waits = some .timer from waits] at suits
  rcases suits with asleep | awake
  · rw [asleep.1, show kernel.waitState proc = wtTimer from asleep.2]
    exact ⟨fun _ => by decide, nofun, nofun, nofun⟩
  · rw [awake.1, awake.2]
    exact ⟨fun set => absurd rfl set, nofun, nofun, fun _ => rfl⟩

/-- A tick never stops: the processes of the timers that fire may be woken. -/
theorem tick_meets (sound : kernel.Sound initial started none none) :
    Meets (onSched runTimerList) kernel
      ⟨fun _ after => after.Sound initial started none none, fun _ _ => False, fun _ => False⟩ := by
  unfold onSched
  rw [meets_zoom]
  -- Within the loop the deltas are not sound, so the list is left out of what is kept.
  have ticked : Meets runTimerList kernel.sched
      ⟨fun _ sched => ({ kernel with sched := { sched with timerList := [] } } : Kernel).Sound initial started none
        none /\
        sched.current = kernel.sched.current, fun _ _ => False,
          fun fault => fault = .assertion "timer->expires != 0"⟩ := by
    apply runTimerList_keeps
    · rintro timer member sched ⟨holds, here⟩
      have key : timer.address ∈ (deltas kernel.sched.timerList).keys := by
        rw [keys_deltas]
        exact List.mem_map_of_mem member
      have there := (sound.timers.each timer.address key).1
      have waits := (sound.timers.each timer.address key).2
      rcases holds.timer_suits waits there with ⟨interrupted, alive, finished, settled⟩
      rw [sound.timers.own timer member]
      have wakes : Meets (wakeupProc timer.address) sched
          ⟨fun _ after => Awoken kernel.allocated sched timer.address after, fun _ _ => False, fun _ => False⟩ :=
        wakeupProc_awakes holds.queued there alive settled holds.placed.idle.2.2
      refine ⟨interrupted, wakes.mono ?_ (fun _ _ failed => failed) (fun _ stopped => stopped)⟩
      intro _ after awoken
      have quiet : Awoken kernel.allocated { sched with timerList := [] } timer.address
        { after with timerList := [] } :=
        ⟨awoken.state, awoken.waitState, awoken.current, awoken.idleproc, rfl, awoken.held⟩
      refine ⟨holds.awoken quiet alive finished fun sem same => ?_, awoken.current.trans here⟩
      cases waits.symm.trans same
    · exact fun _ _ holds => holds
    · exact fun _ _ _ => ⟨retime sound ⟨nofun, ⟨List.nodup_nil, nofun, nofun⟩, nofun⟩, rfl⟩
    · rintro after task ⟨holds, here⟩ state waitState slice
      rw [← here] at state waitState slice ⊢
      exact ⟨holds.retask state waitState (slice (holds.queued.nonneg _ holds.placed.running)), rfl⟩
    · exact ⟨retime sound ⟨nofun, ⟨List.nodup_nil, nofun, nofun⟩, nofun⟩, rfl⟩
  refine (ticked.and (runTimerList_meets sound.timers.sound)).mono ?_ (fun _ _ failed => failed.1) ?_
  · rintro _ sched ⟨⟨holds, _⟩, _, _, left⟩
    exact retime holds (left.symm ▸ sound.timers.tick)
  · rintro fault ⟨rfl, _, named⟩
    exact absurd named (by decide)

/-! ## Sleeping -/

variable {wait : Wait}

theorem outside_runnable (sound : kernel.Sound initial started leaving woken)
    (outside : kernel.place kernel.sched.current = .outside) : kernel.state kernel.sched.current = .runnable :=
  sound.placed.awake (by rw [outside]; rfl)

theorem outside_waits (outside : kernel.place kernel.sched.current = .outside) :
    kernel.waits kernel.sched.current = none := by
  unfold waits
  rw [outside]
  rfl

/-- The states and waits of a kernel where the current process falls asleep. -/
theorem sleep_view (kernel : Kernel) (wait : Wait) (code : UInt32) :
    (kernel.sleep wait code).state = Function.update kernel.state kernel.sched.current .sleeping /\
      (kernel.sleep wait code).waitState = Function.update kernel.waitState kernel.sched.current code /\
      (kernel.sleep wait code).waits = Function.update kernel.waits kernel.sched.current (some wait) :=
  ⟨state_setState .., waitState_setState .., waits_setPlace ..⟩

theorem sleep_placed (sound : kernel.Sound initial started leaving woken) (open_ : wait ≠ .exit)
    (busy : kernel.sched.current ≠ kernel.sched.idleproc) :
    Placed kernel.allocated (kernel.sleep wait wait.code).place (kernel.sleep wait wait.code).state
      (kernel.sleep wait wait.code).waitState kernel.sched.current kernel.sched.idleproc := by
  rw [(sleep_view ..).1, (sleep_view ..).2.1]
  exact sound.placed.enter (Suits.falls open_) busy

/-- The current process sets a state: the run queue does not depend on it. -/
theorem setState_held (sound : kernel.Sound initial started leaving woken) (next : ProcState) (code : UInt32) :
    Holds kernel.allocated (kernel.setState kernel.sched.current next code).sched (some kernel.sched.current) := by
  have state : (fun other => ((kernel.setState kernel.sched.current next code).sched.task other).state) =
      Function.update kernel.state kernel.sched.current next := task_setTask Task.state kernel.sched _ _
  have slices : (fun other => ((kernel.setState kernel.sched.current next code).sched.task other).timeSlice) =
      fun other => (kernel.sched.task other).timeSlice := task_setTask_same Task.timeSlice rfl
  have linked : (fun other => ((kernel.setState kernel.sched.current next code).sched.task other).onRq) =
      fun other => (kernel.sched.task other).onRq := task_setTask_same Task.onRq rfl
  unfold Holds
  rw [state, slices, linked]
  exact sound.queued.congr (fun _ => ready_current) (fun _ _ => ⟨rfl, rfl⟩) sound.queued.nonneg

theorem sleep_timers (sound : kernel.Sound initial started leaving woken)
    (outside : kernel.place kernel.sched.current = .outside) :
    Timers kernel.allocated (Function.update kernel.waits kernel.sched.current (some wait)) kernel.sched.timerList := by
  refine sound.timers.congr fun other there asleep => ⟨there, ?_⟩
  have different : other ≠ kernel.sched.current := by
    rintro rfl
    cases (outside_waits outside).symm.trans asleep
  rw [Function.update_of_ne different]
  exact asleep

/-- A process in the middle of `do_fork` sleeps on semaphores only. -/
theorem sleep_kin (sound : kernel.Sound initial started leaving woken)
    (outside : kernel.place kernel.sched.current = .outside)
    (patient : kernel.forking kernel.sched.current = none \/ Exists fun sem => wait = .ksem sem) :
    Kin kernel.family kernel.allocated (Function.update kernel.waits kernel.sched.current (some wait))
      (Function.update kernel.state kernel.sched.current .sleeping) kernel.forking kernel.sched.idleproc kernel.initproc
      started leaving := by
  have runnable := sound.outside_runnable outside
  refine sound.kin.congr (fun other dead => ?_) (fun parent child making uninit => ?_) (fun parent child making => ?_)
  · have different : other ≠ kernel.sched.current := by
      rintro rfl
      rw [Function.update_self] at dead
      cases dead
    rwa [Function.update_of_ne different] at dead
  · have different : child ≠ kernel.sched.current := by
      rintro rfl
      cases runnable.symm.trans uninit
    rwa [Function.update_of_ne different]
  · by_cases same : parent = kernel.sched.current
    · subst same
      rcases patient with free | ⟨sem, rfl⟩
      · rw [free] at making
        cases making
      · exact .inr (.inr ⟨sem, Function.update_self ..⟩)
    · exact .inl (Function.update_of_ne same _ _)

theorem sleep_attended (sound : kernel.Sound initial started leaving woken)
    (elsewhere : forall pid codeStore, wait ≠ .child pid codeStore) :
    Attended kernel.family kernel.allocated (Function.update kernel.waits kernel.sched.current (some wait))
      (Function.update kernel.state kernel.sched.current .sleeping) woken := by
  refine sound.attended.congr (fun other pid codeStore there aware waiting sleeping => ?_)
    (fun other child _ member named dead => ⟨member, named, ?_, rfl⟩)
  · have different : other ≠ kernel.sched.current := by
      rintro rfl
      rw [Function.update_self] at waiting
      exact elsewhere pid codeStore (Option.some.inj waiting)
    rw [Function.update_of_ne different] at waiting sleeping
    exact ⟨there, aware, waiting, sleeping⟩
  · have different : child ≠ kernel.sched.current := by
      rintro rfl
      rw [Function.update_self] at dead
      cases dead
    rwa [Function.update_of_ne different] at dead

/-- A process that waits on no wait queue leaves them alone. -/
theorem sleep_waiting (sound : kernel.Sound initial started leaving woken)
    (outside : kernel.place kernel.sched.current = .outside) (loose : wait.queue = none) (next : ProcState) :
    Waiting kernel.allocated (Function.update kernel.waits kernel.sched.current (some wait))
      (Function.update kernel.state kernel.sched.current next) kernel.waitQueue kernel.wakeupFlags := by
  have absent : forall name, kernel.sched.current ∉ (kernel.waitQueue name).waiting :=
    fun name => sound.waiting.absent fun wait here => absurd ((outside_waits outside).symm.trans here) (by simp)
  refine sound.waiting.congr (fun name other member => ⟨(sound.waiting.linked name other member).1, ?_⟩)
    (fun other sem there here => ?_)
  · exact Function.update_of_ne (ne_of_mem_of_not_mem member (absent name)) _ _
  · have different : other ≠ kernel.sched.current := by
      rintro rfl
      rw [Function.update_self] at here
      cases here
      cases loose
    rw [Function.update_of_ne different] at here ⊢
    exact ⟨there, here, .rfl, rfl⟩

/-- The current process falls asleep in `do_wait`. -/
theorem sleep_child (sound : kernel.Sound initial started none none)
    (outside : kernel.place kernel.sched.current = .outside) (busy : kernel.sched.current ≠ kernel.sched.idleproc)
    (free : kernel.forking kernel.sched.current = none) {pid : Int} (codeStore : Bool)
    (none : forall child, child ∈ kernel.family.procList -> kernel.family.parent child = some kernel.sched.current ->
      kernel.state child = .zombie -> pid ≠ 0 /\ kernel.family.pid child ≠ pid) :
    (kernel.sleep (.child pid codeStore) wtChild).Sound initial started Option.none Option.none := by
  refine ⟨sound.sleep_placed (by simp) busy, sound.setState_held _ _, ?_, ?_, sound.counted, ?_, ?_⟩
  · rw [(sleep_view ..).2.2]
    exact sound.sleep_timers outside
  · rw [(sleep_view ..).2.2, (sleep_view ..).1]
    exact sound.sleep_waiting outside rfl _
  · rw [(sleep_view ..).2.2, (sleep_view ..).1]
    exact sound.sleep_kin outside (.inl free)
  · rw [(sleep_view ..).2.2, (sleep_view ..).1]
    exact sound.attended.fall none (by rw [sound.outside_runnable outside]; simp)

/-- The current process falls asleep in `do_sleep`, where it has no timer yet. -/
theorem sleep_timer (sound : kernel.Sound initial started leaving woken)
    (outside : kernel.place kernel.sched.current = .outside) (busy : kernel.sched.current ≠ kernel.sched.idleproc)
    (free : kernel.forking kernel.sched.current = none) :
    (kernel.sleep .timer wtTimer).Sound initial started leaving woken := by
  refine ⟨sound.sleep_placed (by simp) busy, sound.setState_held _ _, ?_, ?_, sound.counted, ?_, ?_⟩
  · rw [(sleep_view ..).2.2]
    exact sound.sleep_timers outside
  · rw [(sleep_view ..).2.2, (sleep_view ..).1]
    exact sound.sleep_waiting outside rfl _
  · rw [(sleep_view ..).2.2, (sleep_view ..).1]
    exact sound.sleep_kin outside (.inl free)
  · rw [(sleep_view ..).2.2, (sleep_view ..).1]
    exact sound.sleep_attended (by simp)

/-- The current process falls asleep on a wait queue. -/
theorem waitCurrentSet_meets (sound : kernel.Sound initial started leaving woken) {name : QueueName}
    (outside : kernel.place kernel.sched.current = .outside) (busy : kernel.sched.current ≠ kernel.sched.idleproc)
    (patient : kernel.forking kernel.sched.current = none \/ Exists fun sem => wait = .ksem sem)
    (named : wait.queue = some name)
    (taken : forall sem, name = .sem sem -> 0 <= initial sem -> (kernel.semaphore sem).value = 0) :
    Meets (waitCurrentSet name wait wait.code) kernel
      ⟨fun _ after => after.Sound initial started leaving woken, fun _ _ => False, fun _ => False⟩ := by
  unfold waitCurrentSet
  rw [meets_modify]
  have open_ : wait ≠ .exit := by
    rintro rfl
    cases named
  refine ⟨sound.sleep_placed open_ busy, sound.setState_held _ _, ?_, ?_, ?_, ?_, ?_⟩
  · change Timers _ (kernel.sleep wait wait.code).waits _
    rw [(sleep_view ..).2.2]
    exact sound.sleep_timers outside
  · change Waiting _ (kernel.sleep wait wait.code).waits (kernel.sleep wait wait.code).state _ _
    rw [(sleep_view ..).2.2, (sleep_view ..).1]
    exact sound.waiting.join sound.placed.running (outside_waits outside) named wtInterrupted
  · intro sem nonneg
    have balance := sound.counted sem nonneg
    change Balance _ _ (Function.update kernel.waitQueue name _ (.sem sem)).waiting
    by_cases same : name = .sem sem
    · exact ⟨balance.nonneg, fun _ => taken sem same nonneg, balance.sum⟩
    · rw [Function.update_of_ne (Ne.symm same)]
      exact balance
  · change Kin _ _ (kernel.sleep wait wait.code).waits (kernel.sleep wait wait.code).state _ _ _ _ _
    rw [(sleep_view ..).2.2, (sleep_view ..).1]
    exact sound.sleep_kin outside patient
  · change Attended _ _ (kernel.sleep wait wait.code).waits (kernel.sleep wait wait.code).state _
    rw [(sleep_view ..).2.2, (sleep_view ..).1]
    refine sound.sleep_attended ?_
    rintro pid codeStore rfl
    cases named

/-! ## Going on -/

/-- The current process goes on, with nothing left of its wait. -/
theorem leave (sound : kernel.Sound initial started leaving woken)
    (settled : (kernel.place kernel.sched.current).isEntering = false)
    (untimed : kernel.sched.current ∉ (deltas kernel.sched.timerList).keys)
    (unlinked : forall name, kernel.sched.current ∉ (kernel.waitQueue name).waiting) :
    (kernel.setPlace .outside).Sound initial started leaving woken := by
  have waits := waits_setPlace kernel .outside
  have others : forall other wait, (kernel.setPlace .outside).waits other = some wait ->
      kernel.waits other = some wait /\ other ≠ kernel.sched.current := by
    intro other wait here
    rw [waits] at here
    have different : other ≠ kernel.sched.current := by
      rintro rfl
      rw [Function.update_self] at here
      cases here
    rw [Function.update_of_ne different] at here
    exact ⟨here, different⟩
  have kept : forall other, other ≠ kernel.sched.current -> (kernel.setPlace .outside).waits other =
    kernel.waits other := by
    intro other different
    rw [waits, Function.update_of_ne different]
  refine ⟨sound.placed.leave settled, sound.queued, ⟨sound.timers.own, sound.timers.sound, ?_⟩, ?_, sound.counted, ?_,
    ?_⟩
  · intro other member
    rw [kept other (ne_of_mem_of_not_mem member untimed)]
    exact sound.timers.each other member
  · refine sound.waiting.congr (fun name other member => ⟨(sound.waiting.linked name other member).1, ?_⟩)
      (fun other sem there here => ⟨there, (others other _ here).1, .rfl, rfl⟩)
    exact kept other (ne_of_mem_of_not_mem member (unlinked name))
  · refine sound.kin.congr (fun _ dead => dead) (fun _ _ _ uninit => uninit) (fun parent child making => ?_)
    by_cases same : parent = kernel.sched.current
    · refine .inr (.inl ?_)
      rw [same, waits]
      exact Function.update_self ..
    · exact .inl (kept parent same)
  · exact sound.attended.congr (fun other pid codeStore there aware waiting sleeping =>
      ⟨there, aware, (others other _ waiting).1, sleeping⟩) (fun _ _ _ member named dead => ⟨member, named, dead, rfl⟩)

/-- The current process is left for the next one. -/
theorem switch_meets (sound : kernel.Sound initial started leaving woken) :
    Meets switch kernel
      ⟨fun _ after => after.Sound initial started leaving woken, fun _ _ => False, fun _ => False⟩ := by
  unfold switch onSched
  simp only [meets_bind, meets_modify, meets_zoom]
  have waits : (kernel.setPlace (kernel.place kernel.current).switched).waits = kernel.waits := by
    rw [waits_setPlace, Place.waits_switched]
    exact Function.update_eq_self ..
  refine (schedule_switches sound.queued sound.placed.running sound.placed.idle.2.2 sound.placed.idle.1).mono ?_
    (fun _ _ failed => failed) (fun _ stopped => stopped)
  intro _ sched switched
  generalize put : ({ kernel.setPlace (kernel.place kernel.current).switched with sched } : Kernel) = after
  have state : after.state = kernel.state := by
    rw [← put]
    exact switched.steady.state
  have waitState : after.waitState = kernel.waitState := by
    rw [← put]
    exact switched.steady.waitState
  have waitsAfter : after.waits = kernel.waits := by
    rw [← put]
    exact waits
  subst put
  refine ⟨?_, switched.held, ?_, ?_, sound.counted, ?_, ?_⟩
  · rw [state, waitState]
    have next := sound.placed.switch switched.there switched.runnable
    rw [← switched.steady.idleproc] at next
    exact next
  · rw [waitsAfter]
    have timers := sound.timers
    rw [← switched.steady.timerList] at timers
    exact timers
  · rw [waitsAfter, state]
    exact sound.waiting
  · rw [waitsAfter, state]
    have kin := sound.kin
    rw [← switched.steady.idleproc] at kin
    exact kin
  · rw [waitsAfter, state]
    exact sound.attended

end Sound

end Kernel

end Process
end Ucore
