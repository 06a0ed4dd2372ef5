import Ucore.Process.Kernel
import Ucore.Sched.Timer

namespace Ucore
namespace Process

open Library
open Scheduler

/-!
# Where processes stand

What a process does, its state and its wait state go together; so do the run
queue, the timers and the wait queues with the processes on them.  Each of
these is kept by what happens to one process: it is woken, it falls asleep, it
goes on, it is made, it dies or it is freed.
-/

/-- What a process waits for. -/
def Place.waits : Place -> Option Wait
  | .outside => none
  | .entering wait => some wait
  | .inside wait => some wait

theorem Place.waits_switched (place : Place) : place.switched.waits = place.waits := by
  cases place <;> rfl

/-- The wait state that a process sets. -/
def Wait.code : Wait -> UInt32
  | .child .. => wtChild
  | .timer => wtTimer
  | .ksem _ => wtKsem
  | .kbd .. => wtKbd
  | .exit => 0

/-- The wait queue that a process links itself to. -/
def Wait.queue : Wait -> Option QueueName
  | .ksem sem => some (.sem sem)
  | .kbd .. => some .stdin
  | .child .. => none
  | .timer => none
  | .exit => none

/-- The state and wait state that a process may have. -/
def Suits (waits : Option Wait) (state : ProcState) (waitState : UInt32) : Prop :=
  match waits with
  | none => (state = .runnable \/ state = .uninit) /\ waitState = 0
  | some .exit => state = .zombie /\ waitState = 0
  | some wait => (state = .sleeping /\ waitState = wait.code) \/ (state = .runnable /\ waitState = 0)

/-- The places, states and wait states of the processes agree: what a process
waits for is written in its `wait_state`, unless it was woken. -/
structure Placed (allocated : Nat -> Bool) (place : Nat -> Place) (state : Nat -> ProcState) (waitState : Nat -> UInt32)
    (current idleproc : Nat) : Prop where
  suits : forall proc, allocated proc = true -> Suits (place proc).waits (state proc) (waitState proc)
  entering : forall proc, allocated proc = true -> (place proc).isEntering = true -> proc = current
  running : allocated current = true
  awake : (place current).isEntering = false -> state current = .runnable
  idle : allocated idleproc = true /\ place idleproc = .outside /\ state idleproc = .runnable

/-- The process is one for the run queue, where `running` is current. -/
def Ready (allocated : Nat -> Bool) (state : Nat -> ProcState) (running : Option Nat) (idleproc proc : Nat) : Prop :=
  allocated proc = true /\ state proc = .runnable /\ running ≠ some proc /\ proc ≠ idleproc

/-- The run queue holds the runnable processes, in the order in which they came,
but for the one that runs and the idle process. -/
structure Queued (allocated : Nat -> Bool) (state : Nat -> ProcState) (timeSlice : Nat -> Int) (onRq : Nat -> Bool)
    (runList : List Nat) (procNum : Int) (entered left : List Nat) (running : Option Nat) (idleproc : Nat) : Prop where
  members : forall proc, proc ∈ runList <-> Ready allocated state running idleproc proc
  once : runList.Nodup
  number : procNum = runList.length
  slices : forall proc, proc ∈ runList -> 0 < timeSlice proc /\ timeSlice proc <= maxTimeSlice /\ onRq proc = true
  nonneg : forall proc, allocated proc = true -> 0 <= timeSlice proc
  order : entered = left ++ runList

/-- A timer is on the list for a process in `do_sleep` only, and the deltas
leave no timer that `run_timer_list` would find elapsed. -/
structure Timers (allocated : Nat -> Bool) (waits : Nat -> Option Wait) (timerList : List Timer) : Prop where
  own : forall timer, timer ∈ timerList -> timer.proc = timer.address
  sound : (deltas timerList).Sound
  each : forall proc, proc ∈ (deltas timerList).keys -> allocated proc = true /\ waits proc = some .timer

/-- The processes on the wait queues.  One that waits for a semaphore and is off
its queue was given a unit by `up`, as its wakeup flags say. -/
structure Waiting (allocated : Nat -> Bool) (waits : Nat -> Option Wait) (state : Nat -> ProcState)
    (waitQueue : QueueName -> WaitQueue) (wakeupFlags : Nat -> UInt32) : Prop where
  linked : forall name proc, proc ∈ (waitQueue name).waiting -> allocated proc = true /\
    Exists fun wait => waits proc = some wait /\ wait.queue = some name
  once : forall name, (waitQueue name).waiting.Nodup
  asleep : forall sem proc, allocated proc = true -> waits proc = some (.ksem sem) ->
    (proc ∈ (waitQueue (.sem sem)).waiting <-> state proc = .sleeping)
  released : forall sem proc, allocated proc = true -> waits proc = some (.ksem sem) ->
    proc ∉ (waitQueue (.sem sem)).waiting -> wakeupFlags proc = wtKsem
  order : forall sem, (waitQueue (.sem sem)).linked = (waitQueue (.sem sem)).unlinked ++ (waitQueue (.sem sem)).waiting

/-- The value of a semaphore and what it has granted. -/
structure Balance (initial : Int) (semaphore : Semaphore) (waiting : List Nat) : Prop where
  nonneg : 0 <= semaphore.value
  taken : waiting ≠ [] -> semaphore.value = 0
  sum : semaphore.grants + semaphore.value = initial + semaphore.ups

/-- The semaphores that started from a value that is not negative. -/
def Counted (initial : Nat -> Int) (semaphore : Nat -> Semaphore) (waitQueue : QueueName -> WaitQueue) : Prop :=
  forall sem, 0 <= initial sem -> Balance (initial sem) (semaphore sem) (waitQueue (.sem sem)).waiting

/-! ## States and wait states -/

theorem Suits.woken {waits : Option Wait} {state : ProcState} {waitState : UInt32} (suits : Suits waits state waitState)
    (alive : state ≠ .zombie) : Suits waits .runnable 0 := by
  cases waits with
  | none => exact ⟨.inl rfl, rfl⟩
  | some wait =>
      cases wait with
      | exit => exact absurd suits.1 alive
      | child pid codeStore => exact .inr ⟨rfl, rfl⟩
      | timer => exact .inr ⟨rfl, rfl⟩
      | ksem sem => exact .inr ⟨rfl, rfl⟩
      | kbd wanted buf => exact .inr ⟨rfl, rfl⟩

/-- A process sleeps in a call, with the wait state that the call has set. -/
theorem Suits.asleep {waits : Option Wait} {waitState : UInt32} (suits : Suits waits .sleeping waitState) :
    Exists fun wait => waits = some wait /\ wait ≠ .exit /\ waitState = wait.code := by
  cases waits with
  | none =>
      rcases suits.1 with wrong | wrong
      · cases wrong
      · cases wrong
  | some wait =>
      cases wait with
      | exit => cases suits.1
      | child pid codeStore => exact ⟨_, rfl, by simp, suits.elim And.right fun wrong => nomatch wrong.1⟩
      | timer => exact ⟨_, rfl, by simp, suits.elim And.right fun wrong => nomatch wrong.1⟩
      | ksem sem => exact ⟨_, rfl, by simp, suits.elim And.right fun wrong => nomatch wrong.1⟩
      | kbd wanted buf => exact ⟨_, rfl, by simp, suits.elim And.right fun wrong => nomatch wrong.1⟩

/-- Only a sleeping process has a wait state. -/
theorem Suits.sleeping {waits : Option Wait} {state : ProcState} {waitState : UInt32}
    (suits : Suits waits state waitState) (set : waitState ≠ 0) : state = .sleeping := by
  cases waits with
  | none => exact absurd suits.2 set
  | some wait =>
      cases wait with
      | exit => exact absurd suits.2 set
      | child pid codeStore => exact suits.elim And.left fun wrong => absurd wrong.2 set
      | timer => exact suits.elim And.left fun wrong => absurd wrong.2 set
      | ksem sem => exact suits.elim And.left fun wrong => absurd wrong.2 set
      | kbd wanted buf => exact suits.elim And.left fun wrong => absurd wrong.2 set

theorem Suits.falls {wait : Wait} (open_ : wait ≠ .exit) : Suits (some wait) .sleeping wait.code := by
  cases wait with
  | exit => exact absurd rfl open_
  | child pid codeStore => exact .inl ⟨rfl, rfl⟩
  | timer => exact .inl ⟨rfl, rfl⟩
  | ksem sem => exact .inl ⟨rfl, rfl⟩
  | kbd wanted buf => exact .inl ⟨rfl, rfl⟩

theorem Suits.runnable {waits : Option Wait} {waitState : UInt32} (suits : Suits waits .runnable waitState) :
    waitState = 0 := by
  by_contra set
  cases suits.sleeping set

section Standing

variable {allocated : Nat -> Bool} {place : Nat -> Place} {state : Nat -> ProcState} {waitState : Nat -> UInt32}
  {current idleproc proc : Nat} {timeSlice : Nat -> Int} {onRq : Nat -> Bool} {runList entered left : List Nat}
  {procNum : Int} {waits : Nat -> Option Wait} {timerList : List Timer} {waitQueue : QueueName -> WaitQueue}
  {wakeupFlags : Nat -> UInt32} {initial : Nat -> Int} {semaphore : Nat -> Semaphore}

/-! ## Places -/

namespace Placed

variable (placed : Placed allocated place state waitState current idleproc)
include placed

theorem wake (alive : state proc ≠ .zombie) :
    Placed allocated place (Function.update state proc .runnable) (Function.update waitState proc 0) current
      idleproc := by
  refine ⟨fun other there => ?_, placed.entering, placed.running, fun settled => ?_, placed.idle.1, placed.idle.2.1, ?_⟩
  · have suits := placed.suits other there
    by_cases same : other = proc
    · subst same
      rw [Function.update_self, Function.update_self]
      exact suits.woken alive
    · rw [Function.update_of_ne same, Function.update_of_ne same]
      exact suits
  · have awake := placed.awake settled
    grind
  · have awake := placed.idle.2.2
    grind

/-- The current process sets its state, and calls `schedule` next. -/
theorem enter {wait : Wait} {next : ProcState} {code : UInt32} (suits : Suits (some wait) next code)
    (busy : current ≠ idleproc) :
    Placed allocated (Function.update place current (.entering wait)) (Function.update state current next)
      (Function.update waitState current code) current idleproc := by
  refine ⟨fun other there => ?_, fun other there entering => ?_, placed.running, fun settled => ?_, placed.idle.1, ?_,
    ?_⟩
  · by_cases same : other = current
    · subst same
      rw [Function.update_self, Function.update_self, Function.update_self]
      exact suits
    · rw [Function.update_of_ne same, Function.update_of_ne same, Function.update_of_ne same]
      exact placed.suits other there
  · by_contra different
    rw [Function.update_of_ne different] at entering
    exact different (placed.entering other there entering)
  · rw [Function.update_self] at settled
    cases settled
  · rw [Function.update_of_ne (Ne.symm busy)]
    exact placed.idle.2.1
  · rw [Function.update_of_ne (Ne.symm busy)]
    exact placed.idle.2.2

/-- `schedule` leaves the current process for the next one. -/
theorem switch {next : Nat} (there : allocated next = true) (runnable : state next = .runnable) :
    Placed allocated (Function.update place current (place current).switched) state waitState next idleproc := by
  have settled : forall other, allocated other = true ->
      (Function.update place current (place current).switched other).isEntering = false := by
    intro other exists_
    by_cases same : other = current
    · rw [same, Function.update_self]
      cases place current <;> rfl
    · rw [Function.update_of_ne same]
      exact Bool.eq_false_iff.mpr fun entering => same (placed.entering other exists_ entering)
  refine ⟨fun other exists_ => ?_, fun other exists_ entering => ?_, there, fun _ => runnable, placed.idle.1, ?_,
    placed.idle.2.2⟩
  · by_cases same : other = current
    · rw [same, Function.update_self, Place.waits_switched]
      exact placed.suits current placed.running
    · rw [Function.update_of_ne same]
      exact placed.suits other exists_
  · rw [settled other exists_] at entering
    cases entering
  · by_cases same : idleproc = current
    · have outside := placed.idle.2.1
      rw [same] at outside ⊢
      rw [Function.update_self, outside]
      rfl
    · rw [Function.update_of_ne same]
      exact placed.idle.2.1

theorem leave (settled : (place current).isEntering = false) :
    Placed allocated (Function.update place current .outside) state waitState current idleproc := by
  have awake := placed.awake settled
  refine ⟨fun other exists_ => ?_, fun other exists_ entering => ?_, placed.running, fun _ => awake, placed.idle.1, ?_,
    placed.idle.2.2⟩
  · have suits := placed.suits other exists_
    by_cases same : other = current
    · subst same
      rw [awake] at suits ⊢
      rw [Function.update_self]
      exact ⟨.inl rfl, suits.runnable⟩
    · rw [Function.update_of_ne same]
      exact suits
  · by_cases same : other = current
    · exact same
    · rw [Function.update_of_ne same] at entering
      exact placed.entering other exists_ entering
  · by_cases same : idleproc = current
    · rw [same, Function.update_self]
    · rw [Function.update_of_ne same]
      exact placed.idle.2.1

theorem alloc (fresh : allocated proc = false) :
    Placed (Function.update allocated proc true) (Function.update place proc .outside)
      (Function.update state proc .uninit) (Function.update waitState proc 0) current idleproc := by
  have old : forall other, allocated other = true -> other ≠ proc := by
    rintro other there rfl
    exact Bool.false_ne_true (fresh.symm.trans there)
  have here := old current placed.running
  have idle := old idleproc placed.idle.1
  refine ⟨fun other exists_ => ?_, fun other exists_ entering => ?_, ?_, fun settled => ?_, ?_, ?_, ?_⟩
  · by_cases same : other = proc
    · subst same
      rw [Function.update_self, Function.update_self, Function.update_self]
      exact ⟨.inr rfl, rfl⟩
    · rw [Function.update_of_ne same] at exists_
      rw [Function.update_of_ne same, Function.update_of_ne same, Function.update_of_ne same]
      exact placed.suits other exists_
  · by_cases same : other = proc
    · rw [same, Function.update_self] at entering
      cases entering
    · rw [Function.update_of_ne same] at exists_ entering
      exact placed.entering other exists_ entering
  · rw [Function.update_of_ne here]
    exact placed.running
  · rw [Function.update_of_ne here] at settled ⊢
    exact placed.awake settled
  · rw [Function.update_of_ne idle]
    exact placed.idle.1
  · rw [Function.update_of_ne idle]
    exact placed.idle.2.1
  · rw [Function.update_of_ne idle]
    exact placed.idle.2.2

theorem free (elsewhere : proc ≠ current) (other : proc ≠ idleproc) :
    Placed (Function.update allocated proc false) place state waitState current idleproc := by
  have left : forall other, Function.update allocated proc false other = true -> allocated other = true := by
    intro other there
    by_cases same : other = proc
    · rw [same, Function.update_self] at there
      cases there
    · rwa [Function.update_of_ne same] at there
  refine ⟨fun other there => placed.suits other (left other there),
    fun other there => placed.entering other (left other there), ?_, placed.awake, ?_, placed.idle.2⟩
  · rw [Function.update_of_ne (Ne.symm elsewhere)]
    exact placed.running
  · rw [Function.update_of_ne (Ne.symm other)]
    exact placed.idle.1

end Placed

/-! ## The run queue -/

/-- The time slice that `RR_enqueue` leaves. -/
theorem refilled (slice : Int) (nonneg : 0 <= slice) :
    0 < (if slice = 0 \/ slice > maxTimeSlice then maxTimeSlice else slice) /\
      (if slice = 0 \/ slice > maxTimeSlice then maxTimeSlice else slice) <= maxTimeSlice := by
  split
  · decide
  · omega

namespace Queued

variable {running : Option Nat}
  (queued : Queued allocated state timeSlice onRq runList procNum entered left running idleproc)
include queued

/-- The queue stays when it has the same processes to hold. -/
theorem congr {allocated' : Nat -> Bool} {state' : Nat -> ProcState} {timeSlice' : Nat -> Int} {onRq' : Nat -> Bool}
    {running' : Option Nat}
    (members : forall other, Ready allocated' state' running' idleproc other <->
      Ready allocated state running idleproc other)
    (slices : forall other, other ∈ runList -> timeSlice' other = timeSlice other /\ onRq' other = onRq other)
    (nonneg : forall other, allocated' other = true -> 0 <= timeSlice' other) :
    Queued allocated' state' timeSlice' onRq' runList procNum entered left running' idleproc := by
  refine ⟨fun other => (queued.members other).trans (members other).symm, queued.once, queued.number, ?_, nonneg,
    queued.order⟩
  intro other member
  rw [(slices other member).1, (slices other member).2]
  exact queued.slices other member

theorem enqueue {state' : Nat -> ProcState} {running' : Option Nat} (absent : proc ∉ runList)
    (there : allocated proc = true)
    (members : forall other, Ready allocated state' running' idleproc other <->
      other = proc \/ Ready allocated state running idleproc other) :
    Queued allocated state'
      (Function.update timeSlice proc
        (if timeSlice proc = 0 \/ timeSlice proc > maxTimeSlice then maxTimeSlice else timeSlice proc))
      (Function.update onRq proc true) (runList ++ [proc]) (procNum + 1)
      (entered ++ [proc]) left running' idleproc := by
  have nonneg := queued.nonneg proc there
  have apart : forall other, other ∈ runList -> other ≠ proc := fun other member => ne_of_mem_of_not_mem member absent
  refine ⟨fun other => ?_, ?_, ?_, fun other member => ?_, fun other exists_ => ?_, ?_⟩
  · rw [members, List.mem_append, List.mem_singleton, queued.members, or_comm]
  · refine List.nodup_append.mpr ⟨queued.once, List.nodup_singleton _, fun other member last here => ?_⟩
    rw [List.mem_singleton] at here
    exact fun same => apart other member (same.trans here)
  · have number := queued.number
    rw [List.length_append, List.length_singleton]
    omega
  · rcases List.mem_append.mp member with old | new
    · rw [Function.update_of_ne (apart other old), Function.update_of_ne (apart other old)]
      exact queued.slices other old
    · cases List.mem_singleton.mp new
      rw [Function.update_self, Function.update_self]
      have fits := refilled (timeSlice proc) nonneg
      exact ⟨fits.1, fits.2, rfl⟩
  · by_cases same : other = proc
    · subst same
      rw [Function.update_self]
      exact Int.le_of_lt (refilled (timeSlice other) nonneg).1
    · rw [Function.update_of_ne same]
      exact queued.nonneg other exists_
  · rw [queued.order, List.append_assoc]

/-- `RR_dequeue` takes the first process out. -/
theorem dequeue {rest : List Nat} (first : runList = proc :: rest) (running' : Option Nat)
    (members : forall other, Ready allocated state running' idleproc other <->
      other ≠ proc /\ Ready allocated state running idleproc other) :
    Queued allocated state timeSlice onRq rest (procNum - 1) entered (left ++ [proc]) running' idleproc := by
  subst first
  have apart := List.nodup_cons.mp queued.once
  refine ⟨fun other => ?_, apart.2, ?_, fun other member => queued.slices other (List.mem_cons_of_mem _ member),
    queued.nonneg, ?_⟩
  · rw [members, ← queued.members, List.mem_cons]
    constructor
    · exact fun member => ⟨ne_of_mem_of_not_mem member apart.1, .inr member⟩
    · exact fun both => both.2.resolve_left both.1
  · have number := queued.number
    rw [List.length_cons] at number
    omega
  · rw [queued.order, List.append_assoc, List.singleton_append]

end Queued

/-! ## Timers -/

namespace Timers

theorem congr {allocated' : Nat -> Bool} {waits' : Nat -> Option Wait} (timers : Timers allocated waits timerList)
    (kept : forall other, allocated other = true -> waits other = some .timer ->
      allocated' other = true /\ waits' other = some .timer) : Timers allocated' waits' timerList :=
  ⟨timers.own, timers.sound, fun other member => kept other (timers.each other member).1 (timers.each other member).2⟩

/-- A process that is not in `do_sleep` has no timer. -/
theorem absent (timers : Timers allocated waits timerList) (elsewhere : waits proc ≠ some .timer) :
    proc ∉ (deltas timerList).keys := fun member => elsewhere (timers.each proc member).2

end Timers

theorem insertTimer_own {timer : Timer} {timers : List Timer} (mine : timer.proc = timer.address)
    (own : forall other, other ∈ timers -> other.proc = other.address) :
    forall other, other ∈ insertTimer timer timers -> other.proc = other.address := by
  induction timers generalizing timer with
  | nil =>
      intro other member
      cases List.mem_singleton.mp member
      exact mine
  | cons next rest inductionHypothesis =>
      have here := own next (List.mem_cons_self ..)
      have later : forall other, other ∈ rest -> other.proc = other.address :=
        fun other member => own other (List.mem_cons_of_mem _ member)
      rw [insertTimer]
      split
      · exact List.forall_mem_cons.mpr ⟨mine, List.forall_mem_cons.mpr ⟨here, later⟩⟩
      · exact List.forall_mem_cons.mpr ⟨here,
          @inductionHypothesis { timer with expires := timer.expires - next.expires } mine later⟩

theorem passOn_own {expires : Int} {timers : List Timer}
    (own : forall other, other ∈ timers -> other.proc = other.address) :
    forall other, other ∈ passOn expires timers -> other.proc = other.address := by
  cases timers with
  | nil => exact own
  | cons next rest =>
      exact List.forall_mem_cons.mpr ⟨own next (List.mem_cons_self ..),
        fun other member => own other (List.mem_cons_of_mem _ member)⟩

theorem removeTimer_own {address : Nat} {timers : List Timer}
    (own : forall other, other ∈ timers -> other.proc = other.address) :
    forall other, other ∈ removeTimer address timers -> other.proc = other.address := by
  induction timers with
  | nil => exact own
  | cons timer rest inductionHypothesis =>
      have later : forall other, other ∈ rest -> other.proc = other.address :=
        fun other member => own other (List.mem_cons_of_mem _ member)
      rw [removeTimer]
      split
      · split
        · exact passOn_own later
        · exact later
      · exact List.forall_mem_cons.mpr ⟨own timer (List.mem_cons_self ..), inductionHypothesis later⟩

namespace Timers

/-- `add_timer` for a process that is in `do_sleep` now. -/
theorem add (timers : Timers allocated waits timerList) (there : allocated proc = true)
    (asleep : waits proc = some .timer) (absent : proc ∉ (deltas timerList).keys) {expires : Int}
    (positive : 0 < expires) : Timers allocated waits (insertTimer ⟨proc, expires, proc⟩ timerList) := by
  refine ⟨insertTimer_own rfl timers.own, ?_, fun other member => ?_⟩
  · rw [deltas_insertTimer]
    exact timers.sound.insert absent positive
  · rw [deltas_insertTimer, DeltaList.mem_keys_insert] at member
    rcases member with rfl | old
    · exact ⟨there, asleep⟩
    · exact timers.each other old

/-- `del_timer`, after which the process may go elsewhere -/
theorem del {waits' : Nat -> Option Wait} (timers : Timers allocated waits timerList)
    (kept : forall other, other ≠ proc -> waits' other = waits other) :
    Timers allocated waits' (removeTimer proc timerList) := by
  refine ⟨removeTimer_own timers.own, ?_, fun other member => ?_⟩
  · rw [deltas_removeTimer]
    exact timers.sound.erase proc
  · rw [deltas_removeTimer, DeltaList.keys_erase, timers.sound.once.mem_erase_iff] at member
    rw [kept other member.1]
    exact timers.each other member.2

/-- After a tick, the timers that are not due are left. -/
theorem tick (timers : Timers allocated waits timerList) :
    Timers allocated waits (laterTimers (closer timerList)) := by
  have kept : forall key, key ∈ (laterTimers (closer timerList)).map Timer.key -> key ∈ timerList.map Timer.key := by
    intro key member
    rw [← keys_closer]
    exact ((List.dropWhile_sublist _).map Timer.key).subset member
  refine ⟨fun timer member => ?_, ?_, fun proc member => ?_⟩
  · rcases List.mem_map.mp (kept timer.key (List.mem_map_of_mem member)) with ⟨other, there, same⟩
    exact (congrArg Prod.snd same).symm.trans ((timers.own other there).trans (congrArg Prod.fst same))
  · rw [deltas_laterTimers, deltas_closer]
    exact timers.sound.tick
  · rw [keys_deltas] at member
    rcases List.mem_map.mp member with ⟨timer, there, rfl⟩
    rcases List.mem_map.mp (kept timer.key (List.mem_map_of_mem there)) with ⟨other, old, same⟩
    refine timers.each timer.address ?_
    have address : other.address = timer.address := congrArg Prod.fst same
    rw [keys_deltas, ← address]
    exact List.mem_map_of_mem old

end Timers

/-! ## Wait queues -/

namespace Waiting

variable (waiting : Waiting allocated waits state waitQueue wakeupFlags)
include waiting

/-- A process that waits for something else is on no queue. -/
theorem absent {name : QueueName} (elsewhere : forall wait, waits proc = some wait -> wait.queue ≠ some name) :
    proc ∉ (waitQueue name).waiting := by
  intro member
  rcases (waiting.linked name proc member).2 with ⟨wait, here, named⟩
  exact elsewhere wait here named

/-- The queues stay when those who wait on them do, and nobody else comes to
wait for a semaphore. -/
theorem congr {allocated' : Nat -> Bool} {waits' : Nat -> Option Wait} {state' : Nat -> ProcState}
    {wakeupFlags' : Nat -> UInt32}
    (linked : forall name other, other ∈ (waitQueue name).waiting -> allocated' other = true /\
      waits' other = waits other)
    (others : forall other sem, allocated' other = true -> waits' other = some (.ksem sem) ->
      allocated other = true /\ waits other = some (.ksem sem) /\
        (state' other = .sleeping <-> state other = .sleeping) /\
        wakeupFlags' other = wakeupFlags other) :
    Waiting allocated' waits' state' waitQueue wakeupFlags' := by
  refine ⟨fun name other member => ?_, waiting.once, fun sem other there here => ?_, fun sem other there here absent =>
    ?_,
    waiting.order⟩
  · rcases linked name other member with ⟨there, same⟩
    rw [same]
    exact ⟨there, (waiting.linked name other member).2⟩
  · rcases others other sem there here with ⟨there, here, same, _⟩
    exact (waiting.asleep sem other there here).trans same.symm
  · rcases others other sem there here with ⟨there, here, _, same⟩
    rw [same]
    exact waiting.released sem other there here absent

/-- A process goes to sleep on a queue. -/
theorem join {name : QueueName} {wait : Wait} (there : allocated proc = true) (outside : waits proc = none)
    (named : wait.queue = some name) (flags : UInt32) :
    Waiting allocated (Function.update waits proc (some wait)) (Function.update state proc .sleeping)
      (Function.update waitQueue name ((waitQueue name).add proc)) (Function.update wakeupFlags proc flags) := by
  have fresh : forall other, proc ∉ (waitQueue other).waiting :=
    fun other => waiting.absent fun wait here => absurd (outside.symm.trans here) (by simp)
  have members : forall other proc',
    proc' ∈ (Function.update waitQueue name ((waitQueue name).add proc) other).waiting <->
      proc' ∈ (waitQueue other).waiting \/ (other = name /\ proc' = proc) := by
    intro other proc'
    by_cases same : other = name
    · subst same
      rw [Function.update_self]
      unfold WaitQueue.add
      rw [List.mem_append, List.mem_singleton]
      simp
    · rw [Function.update_of_ne same]
      simp [same]
  refine ⟨fun other proc' member => ?_, fun other => ?_, fun sem proc' exists_ here => ?_,
    fun sem proc' exists_ here absent => ?_, fun sem => ?_⟩
  · rcases (members other proc').mp member with old | ⟨rfl, rfl⟩
    · rw [Function.update_of_ne (ne_of_mem_of_not_mem old (fresh other))]
      exact waiting.linked other proc' old
    · rw [Function.update_self]
      exact ⟨there, wait, rfl, named⟩
  · by_cases same : other = name
    · subst same
      rw [Function.update_self]
      refine List.nodup_append.mpr ⟨waiting.once other, List.nodup_singleton _, fun first old last new => ?_⟩
      rw [List.mem_singleton.mp new]
      exact ne_of_mem_of_not_mem old (fresh other)
    · rw [Function.update_of_ne same]
      exact waiting.once other
  · rw [members]
    by_cases same : proc' = proc
    · subst same
      rw [Function.update_self] at here ⊢
      cases here
      cases named
      simp
    · rw [Function.update_of_ne same] at here ⊢
      rw [← waiting.asleep sem proc' exists_ here]
      exact ⟨fun either => either.resolve_right fun both => same both.2, .inl⟩
  · rw [members, not_or] at absent
    by_cases same : proc' = proc
    · subst same
      rw [Function.update_self] at here
      cases here
      cases named
      exact absurd ⟨rfl, rfl⟩ absent.2
    · rw [Function.update_of_ne same] at here ⊢
      exact waiting.released sem proc' exists_ here absent.1
  · by_cases same : QueueName.sem sem = name
    · subst same
      rw [Function.update_self]
      unfold WaitQueue.add
      dsimp only
      rw [waiting.order, List.append_assoc]
    · rw [Function.update_of_ne same]
      exact waiting.order sem

/-- A process is taken off the queue of the standard input. -/
theorem del_stdin :
    Waiting allocated waits state (Function.update waitQueue .stdin ((waitQueue .stdin).del proc)) wakeupFlags := by
  have same : forall sem, Function.update waitQueue .stdin ((waitQueue .stdin).del proc) (.sem sem) =
    waitQueue (.sem sem) :=
    fun sem => Function.update_of_ne (by simp) _ _
  refine ⟨fun name other member => ?_, fun name => ?_, fun sem => ?_, fun sem => ?_, fun sem => ?_⟩
  · cases name with
    | sem sem =>
        rw [same] at member
        exact waiting.linked _ other member
    | stdin =>
        rw [Function.update_self] at member
        exact waiting.linked _ other (List.mem_of_mem_erase member)
  · cases name with
    | sem sem =>
        rw [same]
        exact waiting.once _
    | stdin =>
        rw [Function.update_self]
        exact (waiting.once _).erase proc
  · rw [same]
    exact waiting.asleep sem
  · rw [same]
    exact waiting.released sem
  · rw [same]
    exact waiting.order sem

/-- `up` hands over to the first in the queue. -/
theorem handOver {sem : Nat} {rest : List Nat} (first : (waitQueue (.sem sem)).waiting = proc :: rest) :
    Waiting allocated waits (Function.update state proc .runnable)
      (Function.update waitQueue (.sem sem) ((waitQueue (.sem sem)).del proc))
      (Function.update wakeupFlags proc wtKsem) := by
  have once := waiting.once (.sem sem)
  rw [first] at once
  have gone := (List.nodup_cons.mp once).1
  have here : waits proc = some (.ksem sem) := by
    rcases (waiting.linked (.sem sem) proc (by rw [first]; exact List.mem_cons_self ..)).2 with ⟨wait, here, named⟩
    cases wait with
    | ksem other =>
        cases named
        exact here
    | child pid codeStore => cases named
    | timer => cases named
    | kbd wanted buf => cases named
    | exit => cases named
  have members : forall other proc', proc' ∈ (Function.update waitQueue (.sem sem) ((waitQueue (.sem sem)).del proc)
      other).waiting <-> proc' ∈ (waitQueue other).waiting /\ (other = .sem sem -> proc' ≠ proc) := by
    intro other proc'
    by_cases same : other = .sem sem
    · subst same
      rw [Function.update_self]
      unfold WaitQueue.del
      rw [(waiting.once _).mem_erase_iff, and_comm]
      simp
    · rw [Function.update_of_ne same]
      simp [same]
  refine ⟨fun other proc' member => waiting.linked other proc' ((members other proc').mp member).1, fun other => ?_,
    fun other proc' exists_ there => ?_, fun other proc' exists_ there absent => ?_, fun other => ?_⟩
  · by_cases same : other = .sem sem
    · subst same
      rw [Function.update_self]
      exact (waiting.once _).erase proc
    · rw [Function.update_of_ne same]
      exact waiting.once other
  · rw [members]
    by_cases same : proc' = proc
    · subst same
      cases here.symm.trans there
      rw [Function.update_self]
      simp
    · rw [Function.update_of_ne same, ← waiting.asleep other proc' exists_ there]
      exact ⟨And.left, fun member => ⟨member, fun _ => same⟩⟩
  · by_cases same : proc' = proc
    · rw [same, Function.update_self]
    · rw [Function.update_of_ne same]
      exact waiting.released other proc' exists_ there fun member =>
        absent ((members _ proc').mpr ⟨member, fun _ => same⟩)
  · by_cases same : QueueName.sem other = .sem sem
    · rw [same, Function.update_self]
      unfold WaitQueue.del
      dsimp only
      rw [waiting.order, first, List.erase_cons_head, List.append_assoc, List.singleton_append]
    · rw [Function.update_of_ne same]
      exact waiting.order other

end Waiting

/-! ## Semaphores -/

theorem Counted.change {semaphore' : Nat -> Semaphore} {waitQueue' : QueueName -> WaitQueue}
    (counted : Counted initial semaphore waitQueue) (sem : Nat)
    (others : forall other, other ≠ sem -> semaphore' other = semaphore other /\
      (waitQueue' (.sem other)).waiting = (waitQueue (.sem other)).waiting)
    (here : Balance (initial sem) (semaphore sem) (waitQueue (.sem sem)).waiting ->
      Balance (initial sem) (semaphore' sem) (waitQueue' (.sem sem)).waiting) :
    Counted initial semaphore' waitQueue' := by
  intro other nonneg
  by_cases same : other = sem
  · subst same
    exact here (counted other nonneg)
  · rw [(others other same).1, (others other same).2]
    exact counted other nonneg

theorem Counted.congr {waitQueue' : QueueName -> WaitQueue} (counted : Counted initial semaphore waitQueue)
    (same : forall sem, (waitQueue' (.sem sem)).waiting = (waitQueue (.sem sem)).waiting) :
    Counted initial semaphore waitQueue' := by
  intro sem nonneg
  rw [same]
  exact counted sem nonneg

end Standing

end Process
end Ucore
