import Ucore.Process.Soundness

namespace Ucore
namespace Process

open Library
open Program
open Scheduler

/-!
# Calls that wait and wake

The calls on semaphores, the standard input, timers and signals keep a kernel
sound.
-/

namespace Kernel

variable {kernel : Kernel} {initial : Nat -> Int} {started : Prop} {proc sem : Nat}

theorem setSemaphore_self (kernel : Kernel) (sem : Nat) (semaphore : Semaphore) :
    (kernel.setSemaphore sem semaphore).semaphore sem = semaphore := Function.update_self ..

theorem setSemaphore_other (kernel : Kernel) {sem other : Nat} (semaphore : Semaphore) (different : other ≠ sem) :
    (kernel.setSemaphore sem semaphore).semaphore other = kernel.semaphore other := Function.update_of_ne different _ _

theorem setQueue_self (kernel : Kernel) (name : QueueName) (queue : WaitQueue) :
    (kernel.setQueue name queue).waitQueue name = queue := Function.update_self ..

theorem setQueue_other (kernel : Kernel) {name other : QueueName} (queue : WaitQueue) (different : other ≠ name) :
    (kernel.setQueue name queue).waitQueue other = kernel.waitQueue other := Function.update_of_ne different _ _

namespace Sound

variable (sound : kernel.Sound initial started none none)
include sound

/-! ## Semaphores -/

/-- The counts of one semaphore change. -/
theorem setSemaphore {semaphore : Semaphore}
    (balance : Balance (initial sem) (kernel.semaphore sem) (kernel.waitQueue (.sem sem)).waiting ->
      Balance (initial sem) semaphore (kernel.waitQueue (.sem sem)).waiting) :
    (kernel.setSemaphore sem semaphore).Sound initial started none none := by
  refine ⟨sound.placed, sound.queued, sound.timers, sound.waiting, ?_, sound.kin, sound.attended⟩
  refine sound.counted.change sem (fun other different => ⟨setSemaphore_other _ _ different, rfl⟩) fun before => ?_
  rw [setSemaphore_self]
  exact balance before

theorem take_meets (positive : (kernel.semaphore sem).value > 0) :
    Meets (take sem) kernel
      ⟨fun _ after => after.Sound initial started none none, fun _ _ => False, fun _ => False⟩ := by
  unfold take
  rw [meets_modify]
  refine sound.setSemaphore fun balance => ⟨?_, fun waiting => ?_, ?_⟩
  · dsimp only
    omega
  · have zero := balance.taken waiting
    omega
  · have sum := balance.sum
    push_cast
    omega

theorem tryDown_meets :
    Meets (tryDown sem) kernel
      ⟨fun _ after => after.Sound initial started none none, fun _ _ => False, fun _ => False⟩ := by
  unfold tryDown
  simp only [meets_bind, meets_get, meets_ite, meets_pure]
  split
  · rename_i positive
    exact sound.take_meets positive
  · exact sound

theorem down_meets (calls : kernel.Calls) :
    Meets (down sem) kernel
      ⟨fun _ after => after.Sound initial started none none, fun _ _ => False, fun _ => False⟩ := by
  unfold down
  simp only [meets_bind, meets_get, meets_ite, meets_pure]
  split
  · rename_i positive
    exact sound.take_meets positive
  · rename_i empty
    change Meets (waitCurrentSet (.sem sem) (.ksem sem) (Wait.code (.ksem sem))) kernel _
    refine sound.waitCurrentSet_meets calls.1 calls.2 (.inr ⟨sem, rfl⟩) rfl ?_
    rintro other ⟨⟩ nonneg
    have balance := sound.counted sem nonneg
    have bound := balance.nonneg
    omega

omit sound in
/-- A process that goes on after a wait. -/
theorem inside_waits {wait : Wait} (inside : kernel.place kernel.sched.current = .inside wait) :
    kernel.waits kernel.sched.current = some wait := by
  unfold waits
  rw [inside]
  rfl

theorem inside_runnable {wait : Wait} (inside : kernel.place kernel.sched.current = .inside wait) :
    kernel.state kernel.sched.current = .runnable :=
  sound.placed.awake (by rw [inside]; rfl)

/-- `down` returns: its `wait_t` has been unlinked by the `up` that set its
flags. -/
theorem downWoken_meets (inside : kernel.place kernel.sched.current = .inside (.ksem sem)) :
    Meets (downWoken sem) kernel
      ⟨fun _ after => after.Sound initial started none none, fun _ _ => False, fun _ => False⟩ := by
  have here := inside_waits inside
  have runnable := sound.inside_runnable inside
  have absent : kernel.current ∉ (kernel.waitQueue (.sem sem)).waiting := by
    intro member
    have asleep := (sound.waiting.asleep sem _ sound.placed.running here).mp member
    cases runnable.symm.trans asleep
  have flags : kernel.wakeupFlags kernel.current = wtKsem :=
    sound.waiting.released sem _ sound.placed.running here absent
  unfold downWoken waitCurrentDel
  simp only [meets_bind, meets_get, meets_ite, meets_pure, meets_assert, meets_modify]
  rw [if_neg absent, flags]
  refine ⟨fun _ => ?_, fun set => absurd rfl set⟩
  refine sound.leave (by rw [inside]; rfl) (sound.timers.absent ?_) fun name => ?_
  · rw [here]
    simp
  · cases name with
    | sem other =>
        by_cases same : other = sem
        · subst same
          exact absent
        · refine sound.waiting.absent fun wait waits named => ?_
          cases here.symm.trans waits
          cases named
          exact same rfl
    | stdin =>
        refine sound.waiting.absent fun wait waits named => ?_
        cases here.symm.trans waits
        cases named

end Sound

/-- What `up` does: it raises the value when nobody waits, and else releases
the process that has waited longest. -/
inductive Raised (sem : Nat) (kernel after : Kernel) : Prop where
  | raised (empty : (kernel.waitQueue (.sem sem)).waiting = [])
      (value : (after.semaphore sem).value = (kernel.semaphore sem).value + 1)
      (queue : after.waitQueue = kernel.waitQueue) (state : after.state = kernel.state)
  | released (proc : Nat) (rest : List Nat) (first : (kernel.waitQueue (.sem sem)).waiting = proc :: rest)
      (value : (after.semaphore sem).value = (kernel.semaphore sem).value)
      (queue : after.waitQueue = Function.update kernel.waitQueue (.sem sem)
        ⟨rest, (kernel.waitQueue (.sem sem)).linked, (kernel.waitQueue (.sem sem)).unlinked ++ [proc]⟩)
      (asleep : kernel.state proc = .sleeping)
      (state : after.state = Function.update kernel.state proc .runnable)

namespace Sound

variable (sound : kernel.Sound initial started none none)
include sound

/-- A process on the queue of a semaphore sleeps there. -/
theorem linked_ksem (member : proc ∈ (kernel.waitQueue (.sem sem)).waiting) :
    kernel.allocated proc = true /\ kernel.waits proc = some (.ksem sem) /\ kernel.state proc = .sleeping /\
      kernel.waitState proc = wtKsem := by
  rcases sound.waiting.linked _ proc member with ⟨there, wait, here, named⟩
  cases wait with
  | ksem other =>
      cases named
      have asleep := (sound.waiting.asleep sem proc there here).mp member
      have suits := sound.placed.suits proc there
      rw [asleep] at suits
      rcases suits.asleep with ⟨wait, waits, _, code⟩
      cases here.symm.trans waits
      exact ⟨there, here, asleep, code⟩
  | child pid codeStore => cases named
  | timer => cases named
  | kbd wanted buf => cases named
  | exit => cases named

theorem up_meets :
    Meets (up sem) kernel ⟨fun _ after => after.Sound initial started none none /\ Raised sem kernel after,
      fun _ _ => False, fun _ => False⟩ := by
  unfold up
  simp only [meets_bind, meets_modify, meets_get]
  have queue : ((kernel.setSemaphore sem { kernel.semaphore sem with ups := (kernel.semaphore sem).ups + 1 }).waitQueue
      (.sem sem)).waiting = (kernel.waitQueue (.sem sem)).waiting := rfl
  rw [queue]
  cases first : (kernel.waitQueue (.sem sem)).waiting with
  | nil =>
      dsimp only
      rw [meets_modify]
      rw [setSemaphore_self]
      constructor
      · refine ⟨sound.placed, sound.queued, sound.timers, sound.waiting, ?_, sound.kin, sound.attended⟩
        refine sound.counted.change sem (fun other different => ⟨?_, rfl⟩) fun before => ?_
        · rw [setSemaphore_other _ _ different, setSemaphore_other _ _ different]
        · rw [setSemaphore_self]
          have bound := before.nonneg
          have sum := before.sum
          refine ⟨?_, fun waiting => absurd first waiting, ?_⟩
          · dsimp only
            omega
          · push_cast
            omega
      · refine .raised first ?_ rfl rfl
        rw [setSemaphore_self]
  | cons proc rest =>
      have member : proc ∈ (kernel.waitQueue (.sem sem)).waiting := by
        rw [first]
        exact List.mem_cons_self ..
      rcases sound.linked_ksem member with ⟨there, here, asleep, code⟩
      unfold wakeupWait waitQueueDel
      simp only [meets_bind, meets_get, meets_assert, meets_modify]
      refine ⟨fun _ => ⟨fun _ => ?_, fun absent => absent member⟩, fun differs => differs code⟩
      have alive : kernel.state proc ≠ .zombie := by
        rw [asleep]
        simp
      refine (wakeup_awakes ?_ ?_ ?_ ?_).mono ?_ (fun _ _ failed => failed) (fun _ stopped => stopped)
      · exact sound.placed
      · exact sound.queued
      · exact there
      · exact alive
      rintro _ after ⟨sched, rfl, awoken⟩
      have awokenHere : Awoken kernel.allocated kernel.sched proc sched := awoken
      have state : ({ kernel with sched } : Kernel).state = Function.update kernel.state proc .runnable := awoken.state
      have placed := awoken_placed sound.placed awokenHere alive
      have timers := sound.timers
      rw [← awokenHere.timerList] at timers
      have kin := sound.awoken_kin (show kernel.state proc ≠ .uninit by rw [asleep]; simp)
      rw [← awokenHere.idleproc, ← state] at kin
      have attended : Attended kernel.family kernel.allocated kernel.waits (Function.update kernel.state proc .runnable)
          none := sound.awoken_attended
      rw [← state] at attended
      have waiting := sound.waiting.handOver first
      rw [← state] at waiting
      generalize handed : (kernel.waitQueue (.sem sem)).del proc = queue at waiting
      have left : queue =
        ⟨rest, (kernel.waitQueue (.sem sem)).linked, (kernel.waitQueue (.sem sem)).unlinked ++ [proc]⟩ := by
        rw [← handed]
        unfold WaitQueue.del
        rw [first, List.erase_cons_head]
      constructor
      · refine ⟨placed, awoken.held, timers, ?_, ?_, kin, attended⟩
        · rw [← handed] at waiting
          exact waiting
        · refine sound.counted.change sem (fun other different => ⟨?_, ?_⟩) fun before => ?_
          · rw [setSemaphore_other _ _ different]
            exact setSemaphore_other _ _ different
          · refine congrArg WaitQueue.waiting (Function.update_of_ne ?_ _ _)
            rintro ⟨⟩
            exact different rfl
          · rw [setSemaphore_self]
            change Balance _
              ⟨(Function.update kernel.semaphore sem _ sem).value, (Function.update kernel.semaphore sem _ sem).ups,
              (Function.update kernel.semaphore sem _ sem).grants + 1⟩ (Function.update kernel.waitQueue (.sem sem) _
                (.sem sem)).waiting
            rw [Function.update_self, Function.update_self]
            have zero := before.taken (by rw [first]; simp)
            have sum := before.sum
            refine ⟨before.nonneg, fun _ => zero, ?_⟩
            push_cast
            omega
      · refine .released proc rest first ?_ ?_ asleep state
        · rw [setSemaphore_self]
          change ((kernel.setSemaphore sem
            { kernel.semaphore sem with ups := (kernel.semaphore sem).ups + 1 }).semaphore
            sem).value = _
          rw [setSemaphore_self]
        · rw [← left, ← handed]
          rfl

/-! ## The standard input -/

/-- A process is woken that waits for no semaphore. -/
theorem wakeup_meets (there : kernel.allocated proc = true) (alive : kernel.state proc ≠ .zombie)
    (finished : kernel.state proc ≠ .uninit) (elsewhere : forall sem, kernel.waits proc ≠ some (.ksem sem)) :
    Meets (wakeup proc) kernel
      ⟨fun _ after => after.Sound initial started none none /\ after.waitQueue = kernel.waitQueue, fun _ _ => False,
        fun _ => False⟩ := by
  refine (wakeup_awakes sound.placed sound.queued there alive).mono ?_ (fun _ _ failed => failed)
    (fun _ stopped => stopped)
  rintro _ after ⟨sched, rfl, awoken⟩
  exact ⟨sound.awoken awoken alive finished elsewhere, rfl⟩

theorem linked_kbd (member : proc ∈ (kernel.waitQueue .stdin).waiting) :
    kernel.allocated proc = true /\ kernel.state proc ≠ .zombie /\ kernel.state proc ≠ .uninit /\
      forall sem, kernel.waits proc ≠ some (.ksem sem) := by
  rcases sound.waiting.linked _ proc member with ⟨there, wait, here, named⟩
  cases wait with
  | kbd wanted buf =>
      have suits := sound.placed.suits proc there
      rw [show (kernel.place proc).waits = some (.kbd wanted buf) from here] at suits
      refine ⟨there, fun dead => ?_, fun uninit => ?_, fun sem same => ?_⟩
      · exact suits.elim (fun asleep => by cases dead.symm.trans asleep.1) fun awake => by cases dead.symm.trans awake.1
      · exact suits.elim (fun asleep => by cases uninit.symm.trans asleep.1) fun awake => by
          cases uninit.symm.trans awake.1
      · cases here.symm.trans same
  | child pid codeStore => cases named
  | timer => cases named
  | ksem sem => cases named
  | exit => cases named

/-- A process is unlinked from the queue of the standard input. -/
theorem delStdin_meets (member : proc ∈ (kernel.waitQueue .stdin).waiting) :
    Meets (waitQueueDel .stdin proc) kernel
      ⟨fun _ after => after.Sound initial started none none /\
          (after.waitQueue .stdin).waiting = (kernel.waitQueue .stdin).waiting.erase proc /\
          after.place = kernel.place /\ after.sched = kernel.sched /\ after.allocated = kernel.allocated /\
          after.forking = kernel.forking,
        fun _ _ => False, fun _ => False⟩ := by
  unfold waitQueueDel
  simp only [meets_bind, meets_get, meets_assert, meets_modify]
  refine ⟨fun _ => ⟨⟨sound.placed, sound.queued, sound.timers, sound.waiting.del_stdin, ?_, sound.kin, sound.attended⟩,
    ?_, rfl, rfl, rfl, rfl⟩, fun absent => absent member⟩
  · exact sound.counted.congr fun sem => congrArg WaitQueue.waiting (setQueue_other kernel _ (by simp))
  · exact congrArg WaitQueue.waiting (setQueue_self kernel _ _)

theorem wakeupStdin_meets (member : proc ∈ (kernel.waitQueue .stdin).waiting) :
    Meets (wakeupWait .stdin proc wtKbd) kernel
      ⟨fun _ after => after.Sound initial started none none /\
          (after.waitQueue .stdin).waiting = (kernel.waitQueue .stdin).waiting.erase proc,
        fun _ _ => False, fun _ => False⟩ := by
  unfold wakeupWait
  simp only [meets_bind, meets_modify]
  rcases sound.linked_kbd member with ⟨there, alive, finished, elsewhere⟩
  refine (sound.delStdin_meets member).mono ?_ (fun _ _ failed => failed) (fun _ stopped => stopped)
  rintro _ after ⟨kept, queue, place, sched, allocated, _⟩
  have state : after.state = kernel.state := by
    funext other
    unfold Kernel.state
    rw [sched]
  have waits : after.waits = kernel.waits := by
    funext other
    unfold Kernel.waits
    rw [place]
  have flagged : ({ after with wakeupFlags := Function.update after.wakeupFlags proc wtKbd } : Kernel).Sound initial
    started
      none none := by
    refine ⟨kept.placed, kept.queued, kept.timers, ?_, kept.counted, kept.kin, kept.attended⟩
    refine kept.waiting.congr (fun name other linked => ⟨(kept.waiting.linked name other linked).1, rfl⟩)
      (fun other sem there here => ⟨there, here, .rfl, ?_⟩)
    have different : other ≠ proc := by
      rintro rfl
      exact elsewhere sem ((congrFun waits other).symm.trans here)
    exact Function.update_of_ne different _ _
  refine (flagged.wakeup_meets ?_ ?_ ?_ ?_).mono ?_ (fun _ _ failed => failed) (fun _ stopped => stopped)
  · exact (congrFun allocated proc).trans there
  · exact fun dead => alive ((congrFun state proc).symm.trans dead)
  · exact fun uninit => finished ((congrFun state proc).symm.trans uninit)
  · exact fun sem here => elsewhere sem ((congrFun waits proc).symm.trans here)
  · rintro _ final ⟨holds, same⟩
    refine ⟨holds, ?_⟩
    rw [same]
    exact queue

omit sound in
theorem wakeupQueue_meets {procs : List Nat} (sound : kernel.Sound initial started none none)
    (queue : (kernel.waitQueue .stdin).waiting = procs) :
    Meets (wakeupQueue .stdin wtKbd procs) kernel
      ⟨fun _ after => after.Sound initial started none none, fun _ _ => False, fun _ => False⟩ := by
  induction procs generalizing kernel with
  | nil => exact sound
  | cons proc rest inductionHypothesis =>
      rw [wakeupQueue]
      simp only [meets_bind]
      have member : proc ∈ (kernel.waitQueue .stdin).waiting := by
        rw [queue]
        exact List.mem_cons_self ..
      refine (sound.wakeupStdin_meets member).mono ?_ (fun _ _ failed => failed) (fun _ stopped => stopped)
      rintro _ after ⟨holds, left⟩
      refine inductionHypothesis holds ?_
      rw [left, queue, List.erase_cons_head]

theorem setStdin (stdin : Stdin) : ({ kernel with stdin } : Kernel).Sound initial started none none :=
  ⟨sound.placed, sound.queued, sound.timers, sound.waiting, sound.counted, sound.kin, sound.attended⟩

theorem devStdinWrite_meets (c : UInt8) :
    Meets (devStdinWrite c) kernel
      ⟨fun _ after => after.Sound initial started none none, fun _ _ => False, fun _ => False⟩ := by
  unfold devStdinWrite
  simp only [meets_ite, meets_bind, meets_modify, meets_get, meets_pure]
  split
  · exact wakeupQueue_meets (sound.setStdin _) rfl
  · exact sound

omit sound in
theorem devStdinRead_meets {wanted : Nat} {buf : List UInt8} (sound : kernel.Sound initial started none none)
    (free : kernel.Free) :
    Meets (devStdinRead wanted buf) kernel
      ⟨fun _ after => after.Sound initial started none none, fun _ _ => False, fun _ => False⟩ := by
  induction wanted generalizing kernel buf with
  | zero => exact sound
  | succ wanted inductionHypothesis =>
      rw [devStdinRead]
      simp only [meets_bind, meets_get, meets_ite, meets_modify, meets_pure]
      split
      · exact inductionHypothesis (sound.setStdin _) free
      · change Meets (waitCurrentSet .stdin (.kbd (wanted + 1) buf) (Wait.code (.kbd (wanted + 1) buf))) kernel _
        refine sound.waitCurrentSet_meets free.1.1 free.1.2 (.inl free.2) rfl ?_
        rintro sem ⟨⟩

/-- A process that goes on after a wait is not the idle one. -/
theorem inside_busy {wait : Wait} (inside : kernel.place kernel.sched.current = .inside wait) :
    kernel.sched.current ≠ kernel.sched.idleproc := by
  intro same
  have outside := sound.placed.idle.2.1
  rw [← same, inside] at outside
  cases outside

/-- A process that goes on after a wait, but for a semaphore, makes no process. -/
theorem inside_free {wait : Wait} (inside : kernel.place kernel.sched.current = .inside wait)
    (other : forall sem, wait ≠ .ksem sem) : kernel.forking kernel.sched.current = none := by
  have here := inside_waits inside
  cases making : kernel.forking kernel.sched.current with
  | none => rfl
  | some child =>
      rcases (sound.kin.unfinished _ child making).busy with outside | ⟨sem, waits⟩
      · cases here.symm.trans outside
      · exact absurd (Option.some.inj (here.symm.trans waits)) (other sem)

theorem devStdinWoken_meets {wanted : Nat} {buf : List UInt8}
    (inside : kernel.place kernel.sched.current = .inside (.kbd wanted buf)) :
    Meets (devStdinWoken wanted buf) kernel
      ⟨fun _ after => after.Sound initial started none none, fun _ _ => False, fun _ => False⟩ := by
  have onward : forall middle : Kernel, middle.Sound initial started none none ->
      middle.sched.current ∉ (middle.waitQueue .stdin).waiting -> middle.place = kernel.place ->
      middle.sched = kernel.sched -> middle.forking = kernel.forking ->
      Meets (modify (fun kernel => kernel.setPlace .outside) >>= fun _ => do
        let kernel <- get
        if kernel.wakeupFlags kernel.current = wtKbd then devStdinRead wanted buf else pure (.returned buf)) middle
        ⟨fun _ after => after.Sound initial started none none, fun _ _ => False, fun _ => False⟩ := by
    intro middle kept absent place sched forking
    have here : middle.place middle.sched.current = .inside (.kbd wanted buf) := by
      rw [place, sched]
      exact inside
    have left : (middle.setPlace .outside).Sound initial started none none := by
      refine kept.leave (by rw [here]; rfl) (kept.timers.absent ?_) fun name => ?_
      · rw [inside_waits here]
        simp
      · cases name with
        | stdin => exact absent
        | sem sem =>
            refine kept.waiting.absent fun wait waits named => ?_
            cases (inside_waits here).symm.trans waits
            cases named
    simp only [meets_bind, meets_modify, meets_get, meets_ite, meets_pure]
    split
    · refine devStdinRead_meets left ⟨⟨Function.update_self .., kept.inside_busy here⟩, ?_⟩
      exact kept.inside_free here (by simp)
    · exact left
  have unlinked : Meets (waitCurrentDel .stdin) kernel
      ⟨fun _ after => after.Sound initial started none none /\
          after.sched.current ∉ (after.waitQueue .stdin).waiting /\ after.place = kernel.place /\
          after.sched = kernel.sched /\ after.forking = kernel.forking,
        fun _ _ => False, fun _ => False⟩ := by
    unfold waitCurrentDel
    simp only [meets_bind, meets_get, meets_ite, meets_pure]
    split
    · rename_i member
      refine (sound.delStdin_meets member).mono ?_ (fun _ _ failed => failed) (fun _ stopped => stopped)
      rintro _ after ⟨kept, queue, place, sched, _, forking⟩
      refine ⟨kept, ?_, place, sched, forking⟩
      rw [queue, sched, (sound.waiting.once _).mem_erase_iff]
      exact fun both => both.1 rfl
    · rename_i absent
      exact ⟨sound, absent, trivial, trivial, trivial⟩
  unfold devStdinWoken
  rw [meets_bind]
  exact unlinked.mono (fun _ after facts => onward after facts.1 facts.2.1 facts.2.2.1 facts.2.2.2.1 facts.2.2.2.2)
    (fun _ _ failed => failed) (fun _ stopped => stopped)

/-! ## Timers and signals -/

theorem doSleep_meets {time : Nat} (free : kernel.Free) :
    Meets (doSleep time) kernel
      ⟨fun _ after => after.Sound initial started none none, fun _ _ => False, fun _ => False⟩ := by
  have outside := free.1.1
  have slept := sound.sleep_timer outside free.1.2 free.2
  have absent : kernel.sched.current ∉ (deltas kernel.sched.timerList).keys :=
    sound.timers.absent (by rw [outside_waits outside]; simp)
  unfold doSleep onSched addTimer
  simp only [meets_ite, meets_bind, meets_modify, meets_get, meets_zoom, meets_assert, meets_pure]
  split
  · exact sound
  · rename_i positive
    refine ⟨fun _ => ⟨fun _ => ?_, fun present => ?_⟩, fun zero => zero (by omega)⟩
    · refine slept.reschedule rfl rfl rfl rfl slept.queued (slept.timers.add sound.placed.running ?_ absent (by omega))
      rw [(sleep_view ..).2.2]
      exact Function.update_self ..
    · rw [keys_deltas] at absent
      exact present absent

theorem doSleepWoken_meets (inside : kernel.place kernel.sched.current = .inside .timer) :
    Meets doSleepWoken kernel
      ⟨fun _ after => after.Sound initial started none none, fun _ _ => False, fun _ => False⟩ := by
  have here := inside_waits inside
  unfold doSleepWoken onSched delTimer
  simp only [meets_bind, meets_get, meets_zoom, meets_modify]
  have deleted : ({ kernel with sched := { kernel.sched with
      timerList := removeTimer kernel.sched.current kernel.sched.timerList } } :
        Kernel).Sound initial started none none :=
    sound.reschedule rfl rfl rfl rfl sound.queued (sound.timers.del fun _ _ => rfl)
  refine deleted.leave ?_ ?_ fun name => ?_
  · change (kernel.place kernel.sched.current).isEntering = false
    rw [inside]
    rfl
  · change kernel.sched.current ∉ (deltas (removeTimer kernel.sched.current kernel.sched.timerList)).keys
    rw [deltas_removeTimer, DeltaList.keys_erase, sound.timers.sound.once.mem_erase_iff]
    exact fun both => both.1 rfl
  · refine sound.waiting.absent fun wait waits named => ?_
    cases here.symm.trans waits
    cases named

theorem doYield_meets :
    Meets doYield kernel
      ⟨fun _ after => after.Sound initial started none none, fun _ _ => False, fun _ => False⟩ := by
  unfold doYield
  rw [meets_modify]
  exact sound.retask rfl rfl (sound.queued.nonneg _ sound.placed.running)

theorem doKill_meets {pid : Int} :
    Meets (doKill pid) kernel
      ⟨fun _ after => after.Sound initial started none none, fun _ after => after.Sound initial started none none,
        fun _ => False⟩ := by
  unfold doKill
  simp only [meets_bind, meets_get]
  cases found : kernel.family.findProc pid with
  | none => exact sound
  | some proc =>
      have listed := (sound.kin.sound.findProc_eq.mp found).2.1
      have there := sound.kin.sound.listed proc listed
      have marked : ({ kernel with exiting := Function.update kernel.exiting proc true } : Kernel).Sound initial
        started none
          none :=
        ⟨sound.placed, sound.queued, sound.timers, sound.waiting, sound.counted, sound.kin, sound.attended⟩
      simp only [meets_ite, meets_bind, meets_modify, meets_throw, meets_pure]
      split
      · exact sound
      · split
        · rename_i interrupted
          have set : kernel.waitState proc ≠ 0 := by
            intro zero
            rw [zero] at interrupted
            exact interrupted rfl
          have suits := sound.placed.suits proc there
          have asleep := suits.sleeping set
          refine (marked.wakeup_meets there ?_ ?_ fun sem here => ?_).mono (fun _ _ both => both.1)
            (fun _ _ failed => failed.elim) (fun _ stopped => stopped)
          · exact fun dead => by cases asleep.symm.trans dead
          · exact fun uninit => by cases asleep.symm.trans uninit
          · rw [asleep] at suits
            rcases suits.asleep with ⟨wait, waits, _, code⟩
            cases waits.symm.trans here
            rw [code] at interrupted
            exact interrupted (show wtKsem &&& wtInterrupted = 0 by decide)
        · exact marked

end Sound

end Kernel

end Process
end Ucore
