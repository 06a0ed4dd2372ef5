import Ucore.Library.Program
import Mathlib.Data.List.Nodup
import Mathlib.Logic.Function.Basic

namespace Ucore
namespace Scheduler

open Library
open Program

/-!
# The run queue

The round-robin class keeps the runnable processes in a queue.  A process is
known by the address of its `struct proc_struct`, of which a task has the
fields that scheduling works on.

The queue also records who has entered and who has left it, which no function
reads.
-/

inductive ProcState where
  | uninit
  | sleeping
  | runnable
  | zombie
deriving DecidableEq, Repr

/-- The wait states -/
def wtInterrupted : UInt32 := 0x80000000

def wtChild : UInt32 := 0x00000001 ||| wtInterrupted

def wtKsem : UInt32 := 0x00000100

def wtTimer : UInt32 := 0x00000002 ||| wtInterrupted

def wtKbd : UInt32 := 0x00000004 ||| wtInterrupted

def maxTimeSlice : Int := 5

structure Task where
  state : ProcState
  waitState : UInt32
  needResched : Bool
  runs : Int
  timeSlice : Int
  /-- `proc->rq == rq` -/
  onRq : Bool

/-- `timer_t`, known by its address. -/
structure Timer where
  address : Nat
  /-- An `unsigned int` -/
  expires : Int
  proc : Nat

inductive Move where
  | enter (proc : Nat)
  | leave (proc : Nat)
deriving DecidableEq

/-- The state of the scheduler; `moves` records who entered and left the queue,
and no function reads it. -/
structure Sched where
  task : Nat -> Task
  current : Nat
  idleproc : Nat
  /-- `rq->run_list` -/
  runList : List Nat
  /-- `rq->proc_num` -/
  procNum : Int
  timerList : List Timer
  moves : List Move

/-- The error codes of process calls. -/
inductive Errno where
  | noMem
  | noFreeProc
  | badProc
  | inval
  | killed
deriving DecidableEq, Repr

inductive Fault where
  | assertion (text : String)
  | panic (text : String)
  | divisionByZero
deriving DecidableEq, Repr

abbrev Call (Value : Type) := Program Sched Errno Fault Value

namespace Sched

def setTask (sched : Sched) (proc : Nat) (task : Task) : Sched :=
  { sched with task := Function.update sched.task proc task }

/-- The processes that have entered the queue, in order. -/
def entered (sched : Sched) : List Nat := sched.moves.filterMap fun
  | .enter proc => some proc
  | .leave _ => none

/-- The processes that have left the queue, in order. -/
def left (sched : Sched) : List Nat := sched.moves.filterMap fun
  | .enter _ => none
  | .leave proc => some proc

/-- What `RR_enqueue` does. -/
def enqueue (sched : Sched) (proc : Nat) : Sched :=
  let task := sched.task proc
  let slice := if task.timeSlice = 0 \/ task.timeSlice > maxTimeSlice then maxTimeSlice else task.timeSlice
  { sched.setTask proc { task with timeSlice := slice, onRq := true } with
    runList := sched.runList ++ [proc]
    procNum := sched.procNum + 1
    moves := sched.moves ++ [.enter proc] }

/-- What `RR_dequeue` does. -/
def dequeue (sched : Sched) (proc : Nat) : Sched :=
  { sched with
    runList := sched.runList.erase proc
    procNum := sched.procNum - 1
    moves := sched.moves ++ [.leave proc] }

end Sched

def schedInit : Call Unit :=
  modify (fun sched => { sched with timerList := [], runList := [], procNum := 0, moves := [] })

/-! ## The round-robin class -/

def rrEnqueue (proc : Nat) : Call Unit := do
  let sched <- get
  assert (proc ∉ sched.runList) (.assertion "list_empty(&(proc->run_link))")
  modify (fun sched => sched.enqueue proc)

def rrDequeue (proc : Nat) : Call Unit := do
  let sched <- get
  assert (proc ∈ sched.runList /\ (sched.task proc).onRq = true)
    (.assertion "!list_empty(&(proc->run_link)) && proc->rq == rq")
  modify (fun sched => sched.dequeue proc)

def rrPickNext : Call (Option Nat) := do
  let sched <- get
  pure sched.runList.head?

/-- What `RR_proc_tick` does to a process. -/
def Task.tick (task : Task) : Task :=
  let slice := if task.timeSlice > 0 then task.timeSlice - 1 else task.timeSlice
  { task with timeSlice := slice, needResched := if slice = 0 then true else task.needResched }

def rrProcTick (proc : Nat) : Call Unit := modify (fun sched => sched.setTask proc (sched.task proc).tick)

/-! ## The scheduler -/

def schedClassEnqueue (proc : Nat) : Call Unit := do
  let sched <- get
  if proc ≠ sched.idleproc then rrEnqueue proc else pure ()

def schedClassProcTick (proc : Nat) : Call Unit := do
  let sched <- get
  if proc ≠ sched.idleproc then rrProcTick proc
  else modify (fun sched => sched.setTask proc { sched.task proc with needResched := true })

def wakeupProc (proc : Nat) : Call Unit := do
  let sched <- get
  assert ((sched.task proc).state ≠ .zombie) (.assertion "proc->state != PROC_ZOMBIE")
  if (sched.task proc).state ≠ .runnable then do
    modify (fun sched => sched.setTask proc { sched.task proc with state := .runnable, waitState := 0 })
    if proc ≠ sched.current then schedClassEnqueue proc else pure ()
  else pure ()

/-- The choice of `schedule`: the process picked and dequeued, or else
`idleproc`. -/
def pickNext : Call Nat := do
  let next <- rrPickNext
  match next with
  | some proc => do
      rrDequeue proc
      pure proc
  | none => do
      let sched <- get
      pure sched.idleproc

/-- `schedule`, up to the switch in `proc_run` -/
def schedule : Call Unit := do
  modify (fun sched => sched.setTask sched.current { sched.task sched.current with needResched := false })
  let sched <- get
  if (sched.task sched.current).state = .runnable then schedClassEnqueue sched.current else pure ()
  let next <- pickNext
  modify (fun sched => { sched.setTask next { sched.task next with runs := (sched.task next).runs + 1 } with
    current := next })

/-! ## Timers -/

/-- The loop of `add_timer` -/
def insertTimer (timer : Timer) : List Timer -> List Timer
  | [] => [timer]
  | next :: rest =>
      if timer.expires < next.expires then timer :: { next with expires := next.expires - timer.expires } :: rest
      else next :: insertTimer { timer with expires := timer.expires - next.expires } rest

def addTimer (timer : Timer) : Call Unit := do
  assert (timer.expires > 0) (.assertion "timer->expires > 0 && timer->proc != NULL")
  let sched <- get
  assert (timer.address ∉ sched.timerList.map Timer.address) (.assertion "list_empty(&(timer->timer_link))")
  modify (fun sched => { sched with timerList := insertTimer timer sched.timerList })

/-- `next->expires += timer->expires`, unless there is no next one. -/
def passOn (expires : Int) : List Timer -> List Timer
  | [] => []
  | next :: rest => { next with expires := next.expires + expires } :: rest

/-- What `del_timer` does to the list that a timer may be on. -/
def removeTimer (address : Nat) : List Timer -> List Timer
  | [] => []
  | timer :: rest =>
      if timer.address = address then if timer.expires ≠ 0 then passOn timer.expires rest else rest
      else timer :: removeTimer address rest

def delTimer (address : Nat) : Call Unit :=
  modify (fun sched => { sched with timerList := removeTimer address sched.timerList })

/-- One timer of the loop of `run_timer_list`. -/
def fireTimer (timer : Timer) : Call Unit := do
  let sched <- get
  if (sched.task timer.proc).waitState ≠ 0 then
    assert ((sched.task timer.proc).waitState &&& wtInterrupted ≠ 0) (.assertion "proc->wait_state & WT_INTERRUPTED")
  else pure ()
  wakeupProc timer.proc
  delTimer timer.address

/-- The loop of `run_timer_list` -/
def fireLoop : List Timer -> Call Unit
  | [] => pure ()
  | timer :: rest =>
      if timer.expires = 0 then do
        fireTimer timer
        fireLoop rest
      else pure ()

/-- `run_timer_list`, up to the tick of the current process -/
def countDown : List Timer -> Call Unit
  | [] => pure ()
  | timer :: rest => do
      assert (timer.expires ≠ 0) (.assertion "timer->expires != 0")
      let timers := { timer with expires := timer.expires - 1 } :: rest
      modify (fun sched => { sched with timerList := timers })
      fireLoop timers

def runTimerList : Call Unit := do
  let sched <- get
  countDown sched.timerList
  schedClassProcTick sched.current

/-! ## Rules -/

section Rules

variable {sched : Sched} {proc : Nat} {done : Unit -> Sched -> Prop} {fail : Errno -> Sched -> Prop}
  {stop : Fault -> Prop}

theorem schedClassEnqueue_meets (idle : proc = sched.idleproc -> done () sched)
    (twice : proc ∈ sched.runList -> proc ≠ sched.idleproc -> stop (.assertion "list_empty(&(proc->run_link))"))
    (entered : proc ≠ sched.idleproc -> proc ∉ sched.runList -> done () (sched.enqueue proc)) :
    Meets (schedClassEnqueue proc) sched ⟨done, fail, stop⟩ := by
  unfold schedClassEnqueue rrEnqueue
  simp only [meets_bind, meets_get, meets_ite, meets_assert, meets_modify, meets_pure]
  split
  · rename_i other
    exact ⟨fun absent => entered other absent, fun present => twice (not_not.mp present) other⟩
  · rename_i same
    exact idle (not_not.mp same)

/-- A process that is made runnable. -/
def Sched.awaken (sched : Sched) (proc : Nat) : Sched :=
  sched.setTask proc { sched.task proc with state := .runnable, waitState := 0 }

theorem wakeupProc_meets
    (zombie : (sched.task proc).state = .zombie -> stop (.assertion "proc->state != PROC_ZOMBIE"))
    (runnable : (sched.task proc).state = .runnable -> done () sched)
    (twice : proc ∈ sched.runList -> (sched.task proc).state ≠ .runnable -> proc ≠ sched.current ->
      proc ≠ sched.idleproc -> stop (.assertion "list_empty(&(proc->run_link))"))
    (aside : (sched.task proc).state ≠ .zombie -> (sched.task proc).state ≠ .runnable ->
      proc = sched.current \/ proc = sched.idleproc -> done () (sched.awaken proc))
    (woken : (sched.task proc).state ≠ .zombie -> (sched.task proc).state ≠ .runnable -> proc ≠ sched.current ->
      proc ≠ sched.idleproc -> proc ∉ sched.runList -> done () ((sched.awaken proc).enqueue proc)) :
    Meets (wakeupProc proc) sched ⟨done, fail, stop⟩ := by
  unfold wakeupProc
  simp only [meets_bind, meets_get, meets_assert, meets_ite, meets_modify, meets_pure]
  refine ⟨fun alive => ?_, fun dead => zombie (not_not.mp dead)⟩
  split
  · rename_i asleep
    split
    · rename_i elsewhere
      apply schedClassEnqueue_meets
      · exact fun idle => aside alive asleep (.inr idle)
      · exact fun queued busy => twice queued asleep elsewhere busy
      · exact fun busy absent => woken alive asleep elsewhere busy absent
    · rename_i here
      exact aside alive asleep (.inl (not_not.mp here))
  · rename_i awake
    exact runnable (not_not.mp awake)

theorem schedClassProcTick_meets (ticked : forall task,
      (task.state = (sched.task proc).state /\ task.waitState = (sched.task proc).waitState /\
        task.onRq = (sched.task proc).onRq /\
        (0 <= (sched.task proc).timeSlice -> 0 <= task.timeSlice /\ task.timeSlice <= (sched.task proc).timeSlice)) ->
      done () (sched.setTask proc task)) : Meets (schedClassProcTick proc) sched ⟨done, fail, stop⟩ := by
  unfold schedClassProcTick rrProcTick
  simp only [meets_bind, meets_get, meets_ite, meets_modify]
  split
  · refine ticked _ ⟨rfl, rfl, rfl, fun nonneg => ?_⟩
    unfold Task.tick
    dsimp only
    split <;> omega
  · exact ticked _ ⟨rfl, rfl, rfl, fun nonneg => ⟨nonneg, Int.le_refl _⟩⟩

end Rules

end Scheduler
end Ucore
