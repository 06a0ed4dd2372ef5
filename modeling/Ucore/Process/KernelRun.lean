import Ucore.Process.ExitCalls

namespace Ucore
namespace Process

open Library
open Program
open Scheduler

/-!
# Runs of the kernel

Every event keeps a kernel sound, and `proc_init` makes a sound kernel.  So
what a sound kernel has holds of every state that the kernel reaches.
-/

namespace Kernel

variable {kernel : Kernel} {initial : Nat -> Int} {event : Event}

namespace Sound

theorem resume_meets (sound : kernel.Sound initial True none none)
    (inside : (kernel.place kernel.current).isInside = true) :
    Meets resume kernel
      ⟨fun _ after => after.Sound initial True none none, fun _ after => after.Sound initial True none none,
        Tolerated⟩ := by
  unfold resume
  simp only [meets_bind, meets_get]
  cases here : kernel.place kernel.current with
  | outside =>
      rw [here] at inside
      cases inside
  | entering wait =>
      rw [here] at inside
      cases inside
  | inside wait =>
      cases wait with
      | child pid codeStore =>
          simp only [meets_bind, meets_pure]
          exact (sound.doWaitWoken_meets trivial here).mono (fun _ _ sound => sound) (fun _ _ sound => sound)
            (fun _ stopped => .inl stopped)
      | timer =>
          exact (sound.doSleepWoken_meets here).mono (fun _ _ sound => sound) (fun _ _ failed => failed.elim)
            (fun _ stopped => stopped.elim)
      | ksem sem =>
          exact (sound.downWoken_meets here).mono (fun _ _ sound => sound) (fun _ _ failed => failed.elim)
            (fun _ stopped => stopped.elim)
      | kbd wanted buf =>
          simp only [meets_bind, meets_pure]
          exact (sound.devStdinWoken_meets here).mono (fun _ _ sound => sound) (fun _ _ failed => failed.elim)
            (fun _ stopped => stopped.elim)
      | exit =>
          -- A zombie does not become current again.
          have runnable := sound.inside_runnable here
          have suits := sound.placed.suits _ sound.placed.running
          have waits : (kernel.place kernel.sched.current).waits = some .exit := inside_waits here
          rw [waits, runnable] at suits
          cases suits.1

/-- Every event that may happen keeps the kernel sound, and stops it for one of
three reasons at most. -/
theorem perform_meets (sound : kernel.Sound initial True none none) (allowed : kernel.Allows event) :
    Meets (perform event) kernel
      ⟨fun _ after => after.Sound initial True none none, fun _ after => after.Sound initial True none none,
        Tolerated⟩ := by
  cases event with
  | tick =>
      exact sound.tick_meets.mono (fun _ _ sound => sound) (fun _ _ failed => failed.elim)
        (fun _ stopped => stopped.elim)
  | key c =>
      exact (sound.devStdinWrite_meets c).mono (fun _ _ sound => sound) (fun _ _ failed => failed.elim)
        (fun _ stopped => stopped.elim)
  | schedule =>
      exact sound.switch_meets.mono (fun _ _ sound => sound) (fun _ _ failed => failed.elim)
        (fun _ stopped => stopped.elim)
  | resume => exact sound.resume_meets allowed
  | fork memory stack =>
      refine (sound.doFork_meets allowed.1.1.1 allowed.1.2 ?_).mono (fun _ _ both => both.1) (fun _ _ sound => sound)
        (fun _ stopped => stopped.elim)
      rintro proc rfl
      simpa using allowed.2
  | forkCopied copied =>
      simp only [perform, meets_bind, meets_get]
      cases making : kernel.forking kernel.current with
      | none => exact sound
      | some proc =>
          simp only [meets_bind, meets_pure]
          exact (sound.doForkCopied_meets allowed.1.1 making).mono (fun _ _ both => both.1) (fun _ _ sound => sound)
            (fun _ stopped => .inr stopped)
  | exit errorCode =>
      exact (sound.doExit_meets trivial allowed).mono (fun _ _ sound => sound) (fun _ _ failed => failed.elim)
        (fun _ stopped => .inl stopped)
  | wait pid codeStore =>
      simp only [perform, meets_bind, meets_pure]
      exact (sound.doWait_meets trivial allowed).mono (fun _ _ sound => sound) (fun _ _ sound => sound)
        (fun _ stopped => stopped.elim)
  | kill pid =>
      exact sound.doKill_meets.mono (fun _ _ sound => sound) (fun _ _ sound => sound) (fun _ stopped => stopped.elim)
  | sleep time =>
      simp only [perform, meets_bind, meets_pure]
      exact (sound.doSleep_meets allowed).mono (fun _ _ sound => sound) (fun _ _ failed => failed.elim)
        (fun _ stopped => stopped.elim)
  | yield =>
      exact sound.doYield_meets.mono (fun _ _ sound => sound) (fun _ _ failed => failed.elim)
        (fun _ stopped => stopped.elim)
  | down sem =>
      simp only [perform, meets_bind, meets_pure]
      exact (sound.down_meets allowed).mono (fun _ _ sound => sound) (fun _ _ failed => failed.elim)
        (fun _ stopped => stopped.elim)
  | up sem =>
      exact sound.up_meets.mono (fun _ _ both => both.1) (fun _ _ failed => failed.elim) (fun _ stopped => stopped.elim)
  | tryDown sem =>
      simp only [perform, meets_bind, meets_pure]
      exact sound.tryDown_meets.mono (fun _ _ sound => sound) (fun _ _ failed => failed.elim)
        (fun _ stopped => stopped.elim)
  | read wanted =>
      simp only [perform, meets_bind, meets_pure]
      exact (devStdinRead_meets sound allowed).mono (fun _ _ sound => sound) (fun _ _ failed => failed.elim)
        (fun _ stopped => stopped.elim)

theorem step (sound : kernel.Sound initial True none none) {after : Kernel}
    (stepped : machine.step kernel event = some after) : after.Sound initial True none none := by
  change (if kernel.Allows event then (perform event kernel).state else none) = some after at stepped
  split at stepped
  · rename_i allowed
    exact (sound.perform_meets allowed).of_state stepped (fun _ sound => sound) (fun _ sound => sound)
  · cases stepped

end Sound

/-! ## The start -/

variable {value : Nat -> Int} {idle init : Nat} {start last : Kernel} {events : List Event}

/-- The kernel that has its idle process only. -/
theorem idle_sound (value : Nat -> Int) (idle : Nat) :
    ({ ((powerOn value).allocProc idle).setFamily { ((powerOn value).allocProc idle).family with
        pid := Function.update ((powerOn value).allocProc idle).family.pid idle 0
        nrProcess := ((powerOn value).allocProc idle).family.nrProcess + 1 } with
      sched := { ((powerOn value).allocProc idle).sched.setTask idle ⟨.runnable, 0, true, 0, 0, false⟩ with
        current := idle
        idleproc := idle } } : Kernel).Sound value False none none := by
  generalize made : ({ ((powerOn value).allocProc idle).setFamily { ((powerOn value).allocProc idle).family with
        pid := Function.update ((powerOn value).allocProc idle).family.pid idle 0
        nrProcess := ((powerOn value).allocProc idle).family.nrProcess + 1 } with
      sched := { ((powerOn value).allocProc idle).sched.setTask idle ⟨.runnable, 0, true, 0, 0, false⟩ with
        current := idle
        idleproc := idle } } : Kernel) = kernel
  have idleproc : kernel.sched.idleproc = idle := by rw [← made]
  have current : kernel.sched.current = idle := by rw [← made]
  have task : kernel.sched.task idle = ⟨.runnable, 0, true, 0, 0, false⟩ := by
    rw [← made]
    exact Function.update_self ..
  have allocated : forall proc, kernel.allocated proc = true <-> proc = idle := by
    intro proc
    rw [← made]
    change Function.update (fun _ => false) idle true proc = true <-> _
    by_cases same : proc = idle
    · rw [same, Function.update_self]
      exact ⟨fun _ => rfl, fun _ => rfl⟩
    · rw [Function.update_of_ne same]
      exact ⟨fun wrong => (nomatch wrong), fun here => absurd here same⟩
  have place : forall proc, kernel.place proc = .outside := by
    intro proc
    rw [← made]
    change Function.update (fun _ => Place.outside) idle .outside proc = .outside
    rw [Function.update_eq_self]
  have forking : forall proc, kernel.forking proc = none := by
    intro proc
    rw [← made]
    change Function.update (fun _ => none) idle none proc = none
    rw [Function.update_eq_self]
  have cptr : kernel.family.cptr idle = none := by
    rw [← made]
    exact Function.update_self ..
  have parent : kernel.family.parent idle = none := by
    rw [← made]
    exact Function.update_self ..
  have waits : forall proc, kernel.waits proc = none := by
    intro proc
    unfold waits
    rw [place]
    rfl
  have state : kernel.state idle = .runnable := by
    unfold Kernel.state
    rw [task]
  have waitState : kernel.waitState idle = 0 := by
    unfold Kernel.waitState
    rw [task]
  have procList : kernel.family.procList = [] := by rw [← made]; rfl
  have hashList : kernel.family.hashList = fun _ => [] := by rw [← made]; rfl
  have waitQueue : kernel.waitQueue = fun _ => ⟨[], [], []⟩ := by rw [← made]; rfl
  have runList : kernel.sched.runList = [] := by rw [← made]; rfl
  have timerList : kernel.sched.timerList = [] := by rw [← made]; rfl
  have counter : kernel.family.lastPid = maxPid := by rw [← made]; rfl
  have count : kernel.family.nrProcess = 1 := by rw [← made]; rfl
  have tree : kernel.family.Tree idle none [] := by
    refine ⟨cptr, fun child => ?_⟩
    rw [procList]
    exact ⟨fun member => (nomatch member), fun both => (nomatch both.1)⟩
  refine ⟨⟨fun proc there => ?_, fun proc _ entering => ?_, ?_, fun _ => ?_, ?_⟩, ⟨fun proc => ?_, ?_, ?_, ?_, ?_, ?_⟩,
    ⟨?_, ?_, ?_⟩, ⟨?_, ?_, ?_, ?_, ?_⟩, fun sem nonneg => ?_, ⟨⟨?_, ?_, ?_, ?_, ?_, ?_, ?_, ?_, ?_, ?_, ?_⟩, ?_, ?_,
      False.elim, ?_, ?_, ?_, ?_⟩, ?_⟩
  -- The idle process is outside and runs.
  · rw [(allocated proc).mp there, place, state, waitState]
    exact ⟨.inl rfl, rfl⟩
  · rw [place] at entering
    cases entering
  · rw [allocated, current]
  · rw [current, state]
  · rw [idleproc]
    exact ⟨(allocated idle).mpr rfl, place idle, state⟩
  -- No process is on the run queue.
  · rw [runList]
    refine ⟨fun member => (nomatch member), fun ready => absurd ((allocated proc).mp ready.1) ?_⟩
    rw [← idleproc]
    exact ready.2.2.2
  · simp [runList]
  · rw [runList, ← made]
    rfl
  · simp [runList]
  · intro proc there
    rw [(allocated proc).mp there, task]
  · rw [← made]
    rfl
  -- There are no timers, and no process waits.
  · simp [timerList]
  · rw [timerList]
    exact ⟨List.nodup_nil, nofun, nofun⟩
  · simp [timerList, deltas, DeltaList.keys]
  · simp [waitQueue]
  · simp [waitQueue]
  · simp [waits]
  · simp [waits]
  · simp [waitQueue]
  · rw [waitQueue, ← made]
    exact ⟨nonneg, fun waiting => absurd rfl waiting, by simp [powerOn, allocProc, setFamily]⟩
  -- The family is empty.
  · simp [procList]
  · simp [procList]
  · simp [procList, count]
  · simp [hashList]
  · simp [procList, hashList]
  · simp [procList]
  · simp [procList]
  · simp [procList]
  · rw [counter]
    decide
  · simp [procList]
  · exact fun proc there => (allocated proc).mp there ▸ ⟨none, [], tree, fun _ => rfl⟩
  · simp [procList]
  · rw [idleproc]
    exact parent
  · exact fun proc there => .inl (((allocated proc).mp there).trans idleproc.symm)
  · simp [procList]
  · simp [procList]
  · simp [forking]
  · intro proc pid codeStore _ _ here
    cases (waits proc).symm.trans here

/-- `proc_init` makes a sound kernel, if `kmalloc` gives two addresses. -/
theorem procInit_meets (different : init ≠ idle) :
    Meets (procInit idle init) (powerOn value)
      ⟨fun _ after => after.Sound value True none none, fun _ _ => True, fun _ => True⟩ := by
  have alone := idle_sound value idle
  unfold procInit
  simp only [meets_bind, meets_modify]
  have outside : Function.update (fun _ => Place.outside) idle .outside idle = .outside := Function.update_self ..
  have free : Function.update (fun _ => (none : Option Nat)) idle none idle = none := Function.update_self ..
  refine (alone.doFork_meets outside free ?_).mono ?_ (fun _ _ _ => trivial) (fun _ _ => trivial)
  · rintro proc ⟨⟩
    exact Function.update_of_ne different _ _
  rintro _ forked ⟨kept, facts⟩
  rcases facts rfl with ⟨place, current, forking⟩
  refine (kept.doForkCopied_meets (by rw [current]; exact place) (by rw [current]; exact forking)).mono ?_
    (fun _ _ _ => trivial) (fun _ _ => trivial)
  rintro pid born ⟨made, facts⟩
  simp only [meets_ite, meets_halt, meets_bind, meets_get]
  split
  · trivial
  · cases found : born.family.findProc pid with
    | none => trivial
    | some initproc =>
        have named := made.kin.sound.findProc_eq.mp found
        have same := made.kin.sound.apart initproc init named.2.1 facts.listed (named.2.2.trans facts.pid.symm)
        subst same
        simp only [follow, meets_pure, meets_modify, meets_assert]
        refine ⟨fun _ => ⟨fun _ => ?_, fun _ => trivial⟩, fun _ => trivial⟩
        refine ⟨made.placed, made.queued, made.timers, made.waiting, made.counted, ?_, made.attended⟩
        refine { made.kin with init := fun _ => ⟨facts.listed, fun dead => ?_⟩ }
        cases facts.runnable.symm.trans dead

/-- Every state that the kernel reaches is sound. -/
theorem sound_run (different : init ≠ idle) (started : procInit idle init (powerOn value) = .done () start)
    (ran : machine.run start events = some last) : last.Sound value True none none := by
  have kept : (fun kernel : Kernel => kernel.Sound value True none none) last := by
    apply Machine.run_invariant_always _ _ ran
    · exact fun _ _ _ sound stepped => sound.step stepped
    · exact (procInit_meets different).of_done started
  exact kept

/-! ## What holds of every state reached -/

/-- A kernel whose semaphores start from one. -/
def booted : Kernel := (procInit 10 20 (powerOn fun _ => 1)).state.get (by decide +kernel)

theorem booted_done : procInit 10 20 (powerOn fun _ => 1) = .done () booted := by
  have returned : (procInit 10 20 (powerOn fun _ => 1)).value = some () := by decide +kernel
  rcases Outcome.of_value returned with ⟨start, started⟩
  have same : booted = start := Option.get_of_eq_some _ (congrArg Outcome.state started)
  rw [started, same]

/-- `initproc` holds the semaphore and has made two processes, which wait for
it.  Then it makes two more and waits for a child, and the first of them runs. -/
def contention : List Event :=
  [.schedule, .down 0, .fork (some 30) true, .forkCopied true, .fork (some 31) true, .forkCopied true, .yield,
    .schedule,
    .down 0, .schedule, .down 0, .schedule, .fork (some 32) true, .forkCopied true, .fork (some 33) true,
      .forkCopied true,
    .wait 0 none, .schedule]

def waited : Kernel := (machine.run booted contention).get (by decide +kernel)

theorem waited_ran : machine.run booted contention = some waited := (Option.some_get _).symm

/-- What the lists and links of the processes have to be. -/
structure Consistent (family : Family) (allocated : Nat -> Bool) : Prop where
  chains : forall proc, allocated proc = true -> Exists fun members =>
    Chain family.optr family.yptr (family.cptr proc) none members /\ members.Nodup /\
      forall child, child ∈ members <-> child ∈ family.procList /\ family.parent child = some proc
  listed : family.procList.Nodup /\ forall proc, proc ∈ family.procList -> allocated proc = true
  hashed : forall bucket, (family.hashList bucket).Nodup /\ forall proc, proc ∈ family.hashList bucket <->
    proc ∈ family.procList /\ pidHashfn (family.pid proc) = bucket
  count : family.nrProcess = 1 + family.procList.length
  parents : forall proc, allocated proc = true -> forall parent, family.parent proc = some parent ->
    allocated parent = true

/-- In every state that the kernel reaches the chains of children, the process
list, the pid hash and `nr_process` agree. -/
theorem family_consistent (value : Nat -> Int) (idle init : Nat) (start last : Kernel) (events : List Event)
    (different : init ≠ idle) (started : procInit idle init (powerOn value) = .done () start)
    (ran : machine.run start events = some last) : Consistent last.family last.allocated := by
  have sound := sound_run different started ran
  have family := sound.kin.sound
  refine ⟨fun proc there => ?_, ⟨family.once, family.listed⟩,
    fun bucket => ⟨family.hashedOnce bucket, family.hashed bucket⟩,
    family.count, fun proc there parent named => ?_⟩
  · rcases family.tree proc there with ⟨before, members, tree, ends⟩
    cases ends (by simp)
    exact ⟨members, tree.1, tree.1.nodup, tree.2⟩
  · rcases sound.kin.made proc there with rfl | member | ⟨maker, making⟩
    · cases sound.kin.orphan.symm.trans named
    · rcases family.parents proc member with ⟨parent', named', live⟩
      cases named.symm.trans named'
      exact live
    · have unfinished := sound.kin.unfinished maker proc making
      cases named.symm.trans unfinished.named
      exact unfinished.live

theorem family_consistent_waited : Consistent waited.family waited.allocated :=
  family_consistent (fun _ => 1) 10 20 booted waited _ (by decide) booted_done waited_ran

/-- In every state that the kernel reaches a process that sleeps for a child is
in `do_wait`, and no child that it waits for is a zombie. -/
theorem no_lost_exit (value : Nat -> Int) (idle init : Nat) (start last : Kernel) (events : List Event)
    (different : init ≠ idle) (started : procInit idle init (powerOn value) = .done () start)
    (ran : machine.run start events = some last) (proc : Nat) (there : last.allocated proc = true)
    (sleeping : last.state proc = .sleeping) (code : last.waitState proc = wtChild) :
    Exists fun pid => Exists fun codeStore => last.waits proc = some (.child pid codeStore) /\
      forall child, child ∈ last.family.procList -> last.family.parent child = some proc ->
        last.state child = .zombie ->
        pid ≠ 0 /\ last.family.pid child ≠ pid := by
  have sound := sound_run different started ran
  have suits := sound.placed.suits proc there
  rw [sleeping] at suits
  rcases suits.asleep with ⟨wait, waits, _, same⟩
  rw [code] at same
  cases wait with
  | child pid codeStore =>
      exact ⟨pid, codeStore, waits, sound.attended proc pid codeStore there (by simp) waits sleeping⟩
  | timer => exact absurd same (show wtChild ≠ wtTimer by decide)
  | ksem sem => exact absurd same (show wtChild ≠ wtKsem by decide)
  | kbd wanted buf => exact absurd same (show wtChild ≠ wtKbd by decide)
  | exit => exact absurd same (show wtChild ≠ 0 by decide)

theorem no_lost_exit_waited : Exists fun pid => Exists fun codeStore => waited.waits 20 = some (.child pid codeStore) /\
    forall child, child ∈ waited.family.procList -> waited.family.parent child = some 20 ->
      waited.state child = .zombie ->
      pid ≠ 0 /\ waited.family.pid child ≠ pid :=
  no_lost_exit (fun _ => 1) 10 20 booted waited _ (by decide) booted_done waited_ran 20 (by decide +kernel)
    (by decide +kernel) (by decide +kernel)

/-- What the run queue has to be: the runnable processes that do not run, each
with a slice left, in the order in which they came. -/
structure Fair (kernel : Kernel) : Prop where
  members : forall proc, proc ∈ kernel.sched.runList <-> kernel.allocated proc = true /\
    kernel.state proc = .runnable /\
    proc ≠ kernel.sched.current /\ proc ≠ kernel.sched.idleproc
  once : kernel.sched.runList.Nodup
  number : kernel.sched.procNum = kernel.sched.runList.length
  slices : forall proc, proc ∈ kernel.sched.runList -> 0 < (kernel.sched.task proc).timeSlice /\
    (kernel.sched.task proc).timeSlice <= maxTimeSlice /\ (kernel.sched.task proc).onRq = true
  order : kernel.sched.entered = kernel.sched.left ++ kernel.sched.runList

/-- In every state that the kernel reaches the run queue holds the runnable
processes, and no assertion of the scheduler stops the next event. -/
theorem run_queue_exact (value : Nat -> Int) (idle init : Nat) (start last : Kernel) (events : List Event)
    (different : init ≠ idle) (started : procInit idle init (powerOn value) = .done () start)
    (ran : machine.run start events = some last) :
    Fair last /\ forall event, last.Allows event -> forall fault, perform event last = .stop fault ->
      Tolerated fault := by
  have sound := sound_run different started ran
  refine ⟨⟨fun proc => (sound.queued.members proc).trans ?_, sound.queued.once, sound.queued.number,
    sound.queued.slices,
    sound.queued.order⟩, fun event allowed fault stopped => (sound.perform_meets allowed).of_stop stopped⟩
  exact and_congr_right fun _ => and_congr_right fun _ => and_congr_left fun _ =>
    not_congr (Option.some_inj.trans eq_comm)

theorem run_queue_exact_waited : waited.sched.runList = [33] /\ Fair waited /\
    forall event, waited.Allows event -> forall fault, perform event waited = .stop fault -> Tolerated fault :=
  ⟨by decide +kernel,
    run_queue_exact (fun _ => 1) 10 20 booted waited _ (by decide) booted_done waited_ran⟩

/-- What a semaphore that started from a value that is not negative has to be. -/
structure Exact (kernel : Kernel) (sem : Nat) (initial : Int) : Prop where
  granted : ((kernel.semaphore sem).grants : Int) <= initial + (kernel.semaphore sem).ups
  balance : (kernel.waitQueue (.sem sem)).waiting = [] ->
    (kernel.semaphore sem).value = initial + (kernel.semaphore sem).ups - (kernel.semaphore sem).grants
  taken : (kernel.waitQueue (.sem sem)).waiting ≠ [] -> (kernel.semaphore sem).value = 0
  linked : (kernel.waitQueue (.sem sem)).linked = (kernel.waitQueue (.sem sem)).unlinked ++
    (kernel.waitQueue (.sem sem)).waiting
  once : (kernel.waitQueue (.sem sem)).waiting.Nodup
  asleep : forall proc, proc ∈ (kernel.waitQueue (.sem sem)).waiting <-> kernel.allocated proc = true /\
    kernel.waits proc = some (.ksem sem) /\ kernel.state proc = .sleeping

/-- In every state that the kernel reaches a semaphore has granted no more than
its value and the calls of `up` allow; `up` raises the value or releases the
process that has waited longest; and no assertion of `down` or `up` stops the
next event. -/
theorem semaphore_exact (value : Nat -> Int) (idle init : Nat) (start last : Kernel) (events : List Event)
    (different : init ≠ idle) (started : procInit idle init (powerOn value) = .done () start)
    (ran : machine.run start events = some last) (sem : Nat) (nonneg : 0 <= value sem) :
    Exact last sem (value sem) /\
      (forall after, machine.step last (.up sem) = some after -> Raised sem last after) /\
      forall event, last.Allows event -> forall fault, perform event last = .stop fault -> Tolerated fault := by
  have sound := sound_run different started ran
  have balance := sound.counted sem nonneg
  have bound := balance.nonneg
  have sum := balance.sum
  refine ⟨⟨by omega, fun _ => by omega, balance.taken, sound.waiting.order sem, sound.waiting.once _, fun proc => ?_⟩,
    fun after stepped => ?_, fun event allowed fault stopped => (sound.perform_meets allowed).of_stop stopped⟩
  · constructor
    · intro member
      rcases sound.linked_ksem member with ⟨there, waits, asleep, _⟩
      exact ⟨there, waits, asleep⟩
    · exact fun facts => (sound.waiting.asleep sem proc facts.1 facts.2.1).mpr facts.2.2
  · change (if last.Allows (.up sem) then (perform (.up sem) last).state else none) = some after at stepped
    split at stepped
    · exact (sound.up_meets).of_state stepped (fun _ both => both.2) (fun _ failed => failed.elim)
    · cases stepped

theorem semaphore_exact_waited : (waited.waitQueue (.sem 0)).waiting = [30, 31] /\ waited.Allows (.up 0) /\
      Exact waited 0 1 /\
    (forall after, machine.step waited (.up 0) = some after -> Raised 0 waited after) /\
    forall event, waited.Allows event -> forall fault, perform event waited = .stop fault -> Tolerated fault :=
  ⟨by decide +kernel, by decide +kernel,
    semaphore_exact (fun _ => 1) 10 20 booted waited _ (by decide) booted_done waited_ran 0 (by decide)⟩

/-- In every state that the kernel reaches with no more than `MAX_PROCESS`
processes listed, `get_pid` ends with a free pid, and leaves `last_pid` and
`next_safe` with no pid between them. -/
theorem pid_unique (value : Nat -> Int) (idle init : Nat) (start last : Kernel) (events : List Event)
    (different : init ≠ idle) (started : procInit idle init (powerOn value) = .done () start)
    (ran : machine.run start events = some last) (few : (last.family.procList.length : Int) <= maxProcess) :
    (forall proc, proc ∈ last.family.procList ->
      ¬(last.family.lastPid < last.family.pid proc /\ last.family.pid proc < last.family.nextSafe)) /\
      Exists fun after => last.family.getPid = some after /\ 1 <= after.lastPid /\ after.lastPid < maxPid /\
        (forall proc, proc ∈ last.family.procList -> last.family.pid proc ≠ after.lastPid) /\
        forall proc, proc ∈ after.procList -> ¬(after.lastPid < after.pid proc /\ after.pid proc < after.nextSafe) := by
  have family := (sound_run different started ran).kin.sound
  rcases Option.isSome_iff_exists.mp (Family.getPid_ends family.counter few) with ⟨after, found⟩
  have numbers := Family.getPid_free family.counter family.safe found
  have less := numbers.less
  refine ⟨fun proc member between => ?_, after, found, numbers.valid.1, numbers.valid.2, fun proc member same => ?_,
    fun proc member between => ?_⟩
  · have safe := family.safe proc member
    omega
  · have free := numbers.free proc member
    omega
  · rw [numbers.counters] at member between
    have free := numbers.free proc member
    dsimp only at between
    omega

theorem pid_unique_waited :
    (forall proc, proc ∈ waited.family.procList ->
      ¬(waited.family.lastPid < waited.family.pid proc /\ waited.family.pid proc < waited.family.nextSafe)) /\
      Exists fun after => waited.family.getPid = some after /\ 1 <= after.lastPid /\ after.lastPid < maxPid /\
        (forall proc, proc ∈ waited.family.procList -> waited.family.pid proc ≠ after.lastPid) /\
        forall proc, proc ∈ after.procList -> ¬(after.lastPid < after.pid proc /\ after.pid proc < after.nextSafe) :=
  pid_unique (fun _ => 1) 10 20 booted waited _ (by decide) booted_done waited_ran (by decide +kernel)

end Kernel

end Process
end Ucore
