import Ucore.Process.Calls

namespace Ucore
namespace Process

open Library
open Program
open Scheduler

/-!
# Calls that make processes

`do_fork` keeps a kernel sound, whether it makes a process or gives up.
-/

namespace Kernel

variable {kernel : Kernel} {initial : Nat -> Int} {started : Prop} {proc : Nat}

/-- What may stop the kernel: the exit of `initproc`, which is a panic of its
own, and a search of `get_pid` that does not end.  No assertion of the scheduler
or of a semaphore is among them. -/
def Tolerated (fault : Fault) : Prop := fault = .panic "initproc exit.\n" \/ fault = endless

namespace Sound

/-- A process that has no state yet waits for nothing. -/
theorem uninit_waits {leaving woken : Option Nat} (sound : kernel.Sound initial started leaving woken)
    (there : kernel.allocated proc = true) (uninit : kernel.state proc = .uninit) : kernel.waits proc = none := by
  have suits := sound.placed.suits proc there
  rw [uninit] at suits
  cases here : kernel.waits proc with
  | none => rfl
  | some wait =>
      rw [show (kernel.place proc).waits = some wait from here] at suits
      cases wait with
      | exit => cases suits.1
      | child pid codeStore => exact suits.elim (fun wrong => nomatch wrong.1) fun wrong => nomatch wrong.1
      | timer => exact suits.elim (fun wrong => nomatch wrong.1) fun wrong => nomatch wrong.1
      | ksem sem => exact suits.elim (fun wrong => nomatch wrong.1) fun wrong => nomatch wrong.1
      | kbd wanted buf => exact suits.elim (fun wrong => nomatch wrong.1) fun wrong => nomatch wrong.1

theorem zombie_waits {leaving woken : Option Nat} (sound : kernel.Sound initial started leaving woken)
    (there : kernel.allocated proc = true) (dead : kernel.state proc = .zombie) : kernel.waits proc = some .exit := by
  have suits := sound.placed.suits proc there
  rw [dead] at suits
  cases here : kernel.waits proc with
  | none =>
      rw [show (kernel.place proc).waits = none from here] at suits
      exact suits.1.elim (fun wrong => nomatch wrong) fun wrong => nomatch wrong
  | some wait =>
      rw [show (kernel.place proc).waits = some wait from here] at suits
      cases wait with
      | exit => rfl
      | child pid codeStore => exact suits.elim (fun wrong => nomatch wrong.1) fun wrong => nomatch wrong.1
      | timer => exact suits.elim (fun wrong => nomatch wrong.1) fun wrong => nomatch wrong.1
      | ksem sem => exact suits.elim (fun wrong => nomatch wrong.1) fun wrong => nomatch wrong.1
      | kbd wanted buf => exact suits.elim (fun wrong => nomatch wrong.1) fun wrong => nomatch wrong.1

/-! ## `do_fork` -/

/-- The kernel in which `do_fork` goes on to `copy_mm`. -/
theorem alloc (sound : kernel.Sound initial started none none) (outside : kernel.place kernel.sched.current = .outside)
    (free : kernel.forking kernel.sched.current = none) (fresh : kernel.allocated proc = false) :
    (((kernel.allocProc proc).setFamily { (kernel.allocProc proc).family with
      parent := Function.update (kernel.allocProc proc).family.parent proc (some kernel.sched.current) }).setForking
        (some proc)).Sound initial started none none := by
  generalize made : ((kernel.allocProc proc).setFamily { (kernel.allocProc proc).family with
    parent := Function.update (kernel.allocProc proc).family.parent proc (some kernel.sched.current) }).setForking
      (some proc) = after
  have old : forall other, kernel.allocated other = true -> other ≠ proc := by
    rintro other there rfl
    exact Bool.false_ne_true (fresh.symm.trans there)
  have allocated : after.allocated = Function.update kernel.allocated proc true := by rw [← made]; rfl
  have state : after.state = Function.update kernel.state proc .uninit := by
    rw [← made]
    exact task_setTask Task.state kernel.sched proc _
  have waitState : after.waitState = Function.update kernel.waitState proc 0 := by
    rw [← made]
    exact task_setTask Task.waitState kernel.sched proc _
  have place : after.place = Function.update kernel.place proc .outside := by rw [← made]; rfl
  have waits : after.waits = Function.update kernel.waits proc none := by
    funext other
    unfold Kernel.waits
    rw [place]
    by_cases same : other = proc
    · rw [same, Function.update_self, Function.update_self]
      rfl
    · rw [Function.update_of_ne same, Function.update_of_ne same]
  have slices : (fun other => (after.sched.task other).timeSlice) =
      Function.update (fun other => (kernel.sched.task other).timeSlice) proc 0 := by
    rw [← made]
    exact task_setTask Task.timeSlice kernel.sched proc _
  have linked : (fun other => (after.sched.task other).onRq) =
      Function.update (fun other => (kernel.sched.task other).onRq) proc false := by
    rw [← made]
    exact task_setTask Task.onRq kernel.sched proc _
  have stays : forall other, other ≠ proc -> after.waits other = kernel.waits other := by
    intro other different
    rw [waits, Function.update_of_ne different]
  have live : forall other, kernel.allocated other = true -> after.allocated other = true := by
    intro other there
    rw [allocated, Function.update_of_ne (old other there), there]
  have before : forall other, after.allocated other = true -> other ≠ proc -> kernel.allocated other = true := by
    intro other there different
    rwa [allocated, Function.update_of_ne different] at there
  refine ⟨?_, ?_, ?_, ?_, ?_, ?_, ?_⟩
  · rw [allocated, state, waitState, ← made]
    exact sound.placed.alloc fresh
  · unfold Holds
    rw [slices, linked, show (fun other => (after.sched.task other).state) = _ from state, allocated, ← made]
    refine sound.queued.congr (fun other => ?_) (fun other member => ?_) (fun other there => ?_)
    · unfold Ready
      by_cases same : other = proc
      · subst same
        rw [Function.update_self, Function.update_self, fresh]
        exact ⟨fun wrong => (nomatch wrong.2.1), fun wrong => (nomatch wrong.1)⟩
      · rw [Function.update_of_ne same, Function.update_of_ne same]
        rfl
    · have different := old other ((sound.queued.members other).mp member).1
      exact ⟨Function.update_of_ne different _ _, Function.update_of_ne different _ _⟩
    · by_cases same : other = proc
      · rw [same, Function.update_self]
      · rw [Function.update_of_ne same] at there ⊢
        exact sound.queued.nonneg other there
  · have timers : Timers after.allocated after.waits kernel.sched.timerList :=
      sound.timers.congr fun other there asleep => ⟨live other there, (stays other (old other there)).trans asleep⟩
    rw [← made] at timers ⊢
    exact timers
  · have waiting : Waiting after.allocated after.waits after.state kernel.waitQueue kernel.wakeupFlags := by
      refine sound.waiting.congr (fun name other member => ?_) (fun other sem there here => ?_)
      · have there := (sound.waiting.linked name other member).1
        exact ⟨live other there, stays other (old other there)⟩
      · have different : other ≠ proc := by
          rintro rfl
          rw [waits, Function.update_self] at here
          cases here
        rw [stays other different] at here
        rw [state, Function.update_of_ne different]
        exact ⟨before other there different, here, .rfl, rfl⟩
    rw [← made] at waiting ⊢
    exact waiting
  · rw [← made]
    exact sound.counted
  · rw [allocated, waits, state, ← made]
    exact sound.kin.alloc fresh sound.placed.running (sound.outside_runnable outside) (outside_waits outside)
      sound.placed.idle.1 free
  · have listed : after.family.procList = kernel.family.procList := by rw [← made]; rfl
    refine sound.attended.congr (fun other pid codeStore there aware waiting sleeping => ?_)
      (fun other child _ member named dead => ?_)
    · have different : other ≠ proc := by
        rintro rfl
        rw [waits, Function.update_self] at waiting
        cases waiting
      rw [stays other different] at waiting
      rw [state, Function.update_of_ne different] at sleeping
      exact ⟨before other there different, aware, waiting, sleeping⟩
    · rw [listed] at member
      have different := old child (sound.kin.sound.listed child member)
      rw [state, Function.update_of_ne different] at dead
      have parent : after.family.parent child = kernel.family.parent child := by
        rw [← made]
        exact (Function.update_of_ne different _ _).trans (Function.update_of_ne different _ _)
      have pid : after.family.pid child = kernel.family.pid child := by
        rw [← made]
        exact Function.update_of_ne different _ _
      exact ⟨member, parent.symm.trans named, dead, pid⟩

/-- A process that is not there any more was not ready. -/
theorem free_held {leaving woken : Option Nat} (sound : kernel.Sound initial started leaving woken)
    (still : kernel.state proc ≠ .runnable) :
    Holds (Function.update kernel.allocated proc false) kernel.sched (some kernel.sched.current) := by
  refine sound.queued.congr (fun other => ?_) (fun _ _ => ⟨rfl, rfl⟩) (fun other there => ?_)
  · unfold Ready
    by_cases same : other = proc
    · subst same
      exact ⟨fun ready => absurd ready.2.1 still, fun ready => absurd ready.2.1 still⟩
    · rw [Function.update_of_ne same]
  · by_cases same : other = proc
    · rw [same, Function.update_self] at there
      cases there
    · rw [Function.update_of_ne same] at there
      exact sound.queued.nonneg other there

theorem free_timers {leaving woken : Option Nat} (sound : kernel.Sound initial started leaving woken)
    (untimed : kernel.waits proc ≠ some .timer) :
    Timers (Function.update kernel.allocated proc false) kernel.waits kernel.sched.timerList := by
  refine sound.timers.congr fun other there asleep => ⟨?_, asleep⟩
  have different : other ≠ proc := by
    rintro rfl
    exact untimed asleep
  rw [Function.update_of_ne different, there]

theorem free_waiting {leaving woken : Option Nat} (sound : kernel.Sound initial started leaving woken)
    (loose : forall wait, kernel.waits proc = some wait -> wait.queue = none) :
    Waiting (Function.update kernel.allocated proc false) kernel.waits kernel.state kernel.waitQueue
      kernel.wakeupFlags := by
  refine sound.waiting.congr (fun name other member => ⟨?_, rfl⟩) (fun other sem there here => ⟨?_, here, .rfl, rfl⟩)
  · rcases sound.waiting.linked name other member with ⟨there, wait, here, named⟩
    have different : other ≠ proc := by
      rintro rfl
      cases (loose wait here).symm.trans named
    rw [Function.update_of_ne different, there]
  · have different : other ≠ proc := by
      rintro rfl
      rw [Function.update_self] at there
      cases there
    rwa [Function.update_of_ne different] at there

theorem free_attended {leaving woken : Option Nat} {family : Family}
    (sound : kernel.Sound initial started leaving woken)
    (fewer : forall child, child ∈ family.procList -> child ∈ kernel.family.procList)
    (parent : family.parent = kernel.family.parent) (pid : family.pid = kernel.family.pid) :
    Attended family (Function.update kernel.allocated proc false) kernel.waits kernel.state woken := by
  refine sound.attended.congr (fun other pid codeStore there aware waiting sleeping => ⟨?_, aware, waiting, sleeping⟩)
    (fun other child _ member named dead => ⟨fewer child member, ?_, dead, by rw [pid]⟩)
  · have different : other ≠ proc := by
      rintro rfl
      rw [Function.update_self] at there
      cases there
    rwa [Function.update_of_ne different] at there
  · rw [parent] at named
    exact named

theorem abandon (sound : kernel.Sound initial started none none)
    (outside : kernel.place kernel.sched.current = .outside)
    (making : kernel.forking kernel.sched.current = some proc) :
    ((kernel.setForking none).kfree proc).Sound initial started none none := by
  have unfinished := sound.kin.unfinished _ proc making
  have runnable := sound.outside_runnable outside
  have waits := sound.uninit_waits unfinished.there unfinished.uninit
  have still : kernel.state proc ≠ .runnable := by
    rw [unfinished.uninit]
    simp
  have elsewhere : proc ≠ kernel.sched.current := by
    rintro rfl
    exact still runnable
  refine ⟨sound.placed.free elsewhere unfinished.other, sound.free_held still, sound.free_timers (by rw [waits]; simp),
    sound.free_waiting ?_, sound.counted, sound.kin.abandon making,
      sound.free_attended (fun _ member => member) rfl rfl⟩
  intro wait here
  cases waits.symm.trans here

theorem doFork_meets (sound : kernel.Sound initial started none none) {memory : Option Nat} {stack : Bool}
    (outside : kernel.place kernel.sched.current = .outside) (free : kernel.forking kernel.sched.current = none)
    (fresh : forall proc, memory = some proc -> kernel.allocated proc = false) :
    Meets (doFork memory stack) kernel
      ⟨fun _ after => after.Sound initial started none none /\
          (memory.isSome = true -> after.place kernel.sched.current = .outside /\
            after.sched.current = kernel.sched.current /\
            after.forking kernel.sched.current = memory),
        fun _ after => after.Sound initial started none none, fun _ => False⟩ := by
  unfold doFork
  simp only [meets_bind, meets_get, meets_ite, meets_throw]
  split
  · exact sound
  · cases memory with
    | none => exact sound
    | some proc =>
        simp only [meets_bind, meets_modify, meets_get, meets_assert, meets_ite, meets_throw]
        have unallocated := fresh proc rfl
        have made := sound.alloc outside free unallocated
        have here : kernel.sched.current ≠ proc := by
          intro same
          exact Bool.false_ne_true (unallocated.symm.trans (same ▸ sound.placed.running))
        have waiting : kernel.waitState kernel.sched.current = 0 := by
          have suits := sound.placed.suits _ sound.placed.running
          rw [sound.outside_runnable outside] at suits
          exact suits.runnable
        constructor
        · intro _
          split
          · refine ⟨made, fun _ => ⟨?_, rfl, Function.update_self ..⟩⟩
            exact (Function.update_of_ne here _ _).trans outside
          · have there : (((kernel.allocProc proc).setFamily { (kernel.allocProc proc).family with
                parent := Function.update (kernel.allocProc proc).family.parent proc
                  (some kernel.sched.current) }).setForking
                  (some proc)).place kernel.sched.current = .outside :=
              (Function.update_of_ne here _ _).trans outside
            have left := made.abandon there (Function.update_self ..)
            have same : Function.update (Function.update (Function.update kernel.forking proc none) kernel.sched.current
                (some proc)) kernel.sched.current none = Function.update kernel.forking proc none := by
              rw [Function.update_idem]
              have already : Function.update kernel.forking proc none kernel.sched.current = none := by
                rw [Function.update_of_ne here]
                exact free
              have whole := Function.update_eq_self kernel.sched.current (Function.update kernel.forking proc none)
              rwa [already] at whole
            refine ⟨left.placed, left.queued, left.timers, left.waiting, left.counted, ?_, left.attended⟩
            have kin := left.kin
            change Kin _ _ _ _ (Function.update (Function.update (Function.update kernel.forking proc none)
              kernel.sched.current (some proc)) kernel.sched.current none) _ _ _ _ at kin
            rw [same] at kin
            exact kin
        · intro set
          refine set ?_
          refine Eq.trans ?_ waiting
          exact congrArg Task.waitState (Function.update_of_ne here _ _)

end Sound

/-- A process has been made: it has the pid that `get_pid` came to, is on the
process list, and can be scheduled. -/
structure Born (kernel : Kernel) (proc : Nat) (pid : Int) (after : Kernel) : Prop where
  counters : Exists fun family => kernel.family.getPid = some family /\ family.lastPid = pid
  listed : proc ∈ after.family.procList
  pid : after.family.pid proc = pid
  runnable : after.state proc = .runnable

namespace Sound

theorem doForkCopied_meets (sound : kernel.Sound initial started none none) {copied : Bool}
    (outside : kernel.place kernel.sched.current = .outside)
    (making : kernel.forking kernel.sched.current = some proc) :
    Meets (doForkCopied proc copied) kernel
      ⟨fun pid after => after.Sound initial started none none /\ Born kernel proc pid after,
        fun _ after => after.Sound initial started none none, fun fault => fault = endless⟩ := by
  have unfinished := sound.kin.unfinished _ proc making
  have waits := sound.uninit_waits unfinished.there unfinished.uninit
  unfold doForkCopied getPid
  simp only [meets_bind, meets_modify, meets_ite, meets_throw, meets_get]
  split
  · have family : (kernel.setForking none).family = kernel.family := rfl
    rw [family]
    cases found : kernel.family.getPid with
    | none => rfl
    | some counters =>
        have numbers := Family.getPid_free sound.kin.sound.counter sound.kin.sound.safe found
        have counted := numbers.counters
        simp only [meets_bind, meets_modify, meets_pure]
        have parent : counters.parent proc = some kernel.sched.current := by
          rw [counted]
          exact unfinished.named
        change Meets (follow (counters.parent proc)) _ _
        rw [parent]
        change Meets (wakeup proc) _ _
        have numbered : Exists fun listed : Family => listed = { counters with
            pid := Function.update counters.pid proc counters.lastPid } := ⟨_, rfl⟩
        rcases numbered with ⟨listed, numbered⟩
        have born := sound.kin.born making numbers numbered rfl
        have alive : kernel.state proc ≠ .zombie := by
          rw [unfinished.uninit]
          simp
        refine (wakeup_awakes ?_ ?_ ?_ ?_).mono ?_ (fun _ _ failed => failed.elim) (fun _ stopped => stopped.elim)
        · exact sound.placed
        · exact sound.queued
        · exact unfinished.there
        · exact alive
        · rintro _ after ⟨sched, rfl, awoken⟩
          have awokenHere : Awoken kernel.allocated kernel.sched proc sched := awoken
          have state : ({ kernel with sched } : Kernel).state = Function.update kernel.state proc .runnable :=
            awoken.state
          have placed := awoken_placed sound.placed awokenHere alive
          have timers := sound.timers
          rw [← awokenHere.timerList] at timers
          rw [← state, ← awokenHere.idleproc] at born
          have waiting : Waiting kernel.allocated kernel.waits ({ kernel with sched } : Kernel).state kernel.waitQueue
              kernel.wakeupFlags := by
            rw [state]
            refine sound.waiting.congr (fun _ other member => ⟨(sound.waiting.linked _ other member).1, rfl⟩)
              (fun other sem there here => ⟨there, here, ?_, rfl⟩)
            have different : other ≠ proc := by
              rintro rfl
              cases waits.symm.trans here
            rw [Function.update_of_ne different]
          have attended : Attended ((listed.hashProc proc).setLinks proc kernel.sched.current) kernel.allocated
            kernel.waits
              ({ kernel with sched } : Kernel).state none := by
            rw [state]
            refine sound.attended.congr (fun other pid codeStore there aware waiting sleeping => ?_)
              (fun other child _ member named dead => ?_)
            · have different : other ≠ proc := by
                rintro rfl
                cases waits.symm.trans waiting
              rw [Function.update_of_ne different] at sleeping
              exact ⟨there, aware, waiting, sleeping⟩
            · have different : child ≠ proc := by
                rintro rfl
                rw [Function.update_self] at dead
                cases dead
              rw [Function.update_of_ne different] at dead
              subst numbered
              have list : counters.procList = kernel.family.procList := by rw [counted]
              have parents : counters.parent = kernel.family.parent := by rw [counted]
              have pids : counters.pid = kernel.family.pid := by rw [counted]
              refine ⟨?_, parents ▸ named, dead, ?_⟩
              · rw [← list]
                exact (List.mem_cons.mp member).resolve_left different
              · rw [← pids]
                exact Function.update_of_ne different _ _
          subst numbered
          refine ⟨⟨placed, awoken.held, timers, waiting, sound.counted, born, attended⟩, ⟨⟨counters, found, rfl⟩,
            List.mem_cons_self .., Function.update_self .., ?_⟩⟩
          exact (congrFun state proc).trans (Function.update_self ..)
  · exact sound.abandon outside making

end Sound

end Kernel

end Process
end Ucore
