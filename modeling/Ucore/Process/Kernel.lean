import Ucore.Library.Run
import Ucore.Process.Family

namespace Ucore
namespace Process

open Library
open Program
open Scheduler

/-!
# The kernel

The calls by which processes are made, end, wait and are woken.  Kernel code is
switched out in `schedule` only, so that a call that sleeps is cut there: it
first sets the state of the process, and goes on when the process is current
again.  An interrupt may come in between.
-/

/-- What a process waits for when it calls `schedule`, with the variables of
the call. -/
inductive Wait where
  /-- In `do_wait`, with whether `code_store` is set -/
  | child (pid : Int) (codeStore : Bool)
  /-- In `do_sleep` -/
  | timer
  /-- In `__down` -/
  | ksem (sem : Nat)
  /-- In `dev_stdin_read`, with how many characters it still wants and those
  it has -/
  | kbd (wanted : Nat) (buf : List UInt8)
  /-- In `do_exit` -/
  | exit
deriving DecidableEq

/-- Where a process is in the kernel. -/
inductive Place where
  /-- In no call that sleeps -/
  | outside
  /-- It has set its state, and calls `schedule` next. -/
  | entering (wait : Wait)
  /-- It has called `schedule`. -/
  | inside (wait : Wait)
deriving DecidableEq

namespace Place

def isEntering : Place -> Bool
  | .entering _ => true
  | .outside => false
  | .inside _ => false

def isInside : Place -> Bool
  | .inside _ => true
  | .outside => false
  | .entering _ => false

/-- The place of a process after it has called `schedule`. -/
def switched : Place -> Place
  | .outside => .outside
  | .entering wait => .inside wait
  | .inside wait => .inside wait

end Place

/-- `semaphore_t`, with counts that no function reads. -/
structure Semaphore where
  value : Int
  /-- The calls of `up` -/
  ups : Nat
  /-- The calls of `down` and `try_down` that were granted -/
  grants : Nat

/-- Which `wait_queue_t` is meant. -/
inductive QueueName where
  | sem (sem : Nat)
  | stdin
deriving DecidableEq

/-- `wait_queue_t`, with the processes that were linked and unlinked, which no
function reads. -/
structure WaitQueue where
  waiting : List Nat
  linked : List Nat
  unlinked : List Nat

def stdinBufsize : Int := 4096

/-- The buffer of the standard input, with the characters that it has accepted
and delivered, which no function reads. -/
structure Stdin where
  buffer : Nat -> UInt8
  rpos : Int
  wpos : Int
  accepted : List UInt8
  delivered : List UInt8

structure Kernel where
  sched : Sched
  initproc : Nat
  family : Family
  /-- The processes that have their `struct proc_struct` -/
  allocated : Nat -> Bool
  /-- `flags & PF_EXITING` -/
  exiting : Nat -> Bool
  exitCode : Nat -> Int
  place : Nat -> Place
  /-- The process that a call of `do_fork` is making -/
  forking : Nat -> Option Nat
  semaphore : Nat -> Semaphore
  waitQueue : QueueName -> WaitQueue
  /-- The `wakeup_flags` of the `wait_t` in the call of a process -/
  wakeupFlags : Nat -> UInt32
  stdin : Stdin

abbrev Routine (Value : Type) := Program Kernel Errno Fault Value

/-- How a call goes on: it returns, or it calls `schedule` first. -/
inductive Progress (Value : Type) where
  | returned (value : Value)
  | sleeps

namespace Kernel

def current (kernel : Kernel) : Nat := kernel.sched.current

def state (kernel : Kernel) (proc : Nat) : ProcState := (kernel.sched.task proc).state

def waitState (kernel : Kernel) (proc : Nat) : UInt32 := (kernel.sched.task proc).waitState

/-- Set the state and the wait state of a process. -/
def setState (kernel : Kernel) (proc : Nat) (state : ProcState) (waitState : UInt32) : Kernel :=
  { kernel with sched := kernel.sched.setTask proc { kernel.sched.task proc with state, waitState } }

def setPlace (kernel : Kernel) (place : Place) : Kernel :=
  { kernel with place := Function.update kernel.place kernel.current place }

/-- The current process calls `schedule` next. -/
def sleep (kernel : Kernel) (wait : Wait) (waitState : UInt32) : Kernel :=
  (kernel.setState kernel.current .sleeping waitState).setPlace (.entering wait)

def setFamily (kernel : Kernel) (family : Family) : Kernel := { kernel with family }

def setForking (kernel : Kernel) (child : Option Nat) : Kernel :=
  { kernel with forking := Function.update kernel.forking kernel.current child }

/-- `kfree` of a process -/
def kfree (kernel : Kernel) (proc : Nat) : Kernel :=
  { kernel with allocated := Function.update kernel.allocated proc false }

/-- `alloc_proc`, at the address that `kmalloc` gives -/
def allocProc (kernel : Kernel) (proc : Nat) : Kernel :=
  { kernel with
    sched := kernel.sched.setTask proc ⟨.uninit, 0, false, 0, 0, false⟩
    family := kernel.family.allocProc proc
    allocated := Function.update kernel.allocated proc true
    exiting := Function.update kernel.exiting proc false
    place := Function.update kernel.place proc .outside
    forking := Function.update kernel.forking proc none }

def setSemaphore (kernel : Kernel) (sem : Nat) (semaphore : Semaphore) : Kernel :=
  { kernel with semaphore := Function.update kernel.semaphore sem semaphore }

def setQueue (kernel : Kernel) (name : QueueName) (queue : WaitQueue) : Kernel :=
  { kernel with waitQueue := Function.update kernel.waitQueue name queue }

end Kernel

def onSched {Value : Type} (program : Scheduler.Call Value) : Routine Value :=
  zoom Kernel.sched (fun sched kernel => { kernel with sched }) program

/-- `wakeup_proc` -/
def wakeup (proc : Nat) : Routine Unit := onSched (wakeupProc proc)

/-- A pointer that is followed. -/
def follow : Option Nat -> Routine Nat
  | some address => pure address
  | none => halt (.panic "load from NULL")

/-- A loop that has not ended. -/
def endless : Fault := .panic "endless loop"

/-! ## Wait queues -/

/-- `wait_queue_add` -/
def WaitQueue.add (queue : WaitQueue) (proc : Nat) : WaitQueue :=
  { queue with waiting := queue.waiting ++ [proc], linked := queue.linked ++ [proc] }

/-- `list_del_init` in `wait_queue_del` -/
def WaitQueue.del (queue : WaitQueue) (proc : Nat) : WaitQueue :=
  { queue with waiting := queue.waiting.erase proc, unlinked := queue.unlinked ++ [proc] }

def waitQueueDel (name : QueueName) (proc : Nat) : Routine Unit := do
  let kernel <- get
  assert (proc ∈ (kernel.waitQueue name).waiting)
    (.assertion "!list_empty(&(wait->wait_link)) && wait->wait_queue == queue")
  modify (fun kernel => kernel.setQueue name ((kernel.waitQueue name).del proc))

/-- `wait_current_set`, and on to `schedule`.  The `wait_t` is initialised here,
so that `wait_queue_add` finds it unlinked. -/
def waitCurrentSet (name : QueueName) (wait : Wait) (waitState : UInt32) : Routine Unit :=
  modify fun kernel =>
    let waits := { kernel with wakeupFlags := Function.update kernel.wakeupFlags kernel.current wtInterrupted }
    (waits.sleep wait waitState).setQueue name ((waits.waitQueue name).add kernel.current)

def waitCurrentDel (name : QueueName) : Routine Unit := do
  let kernel <- get
  if kernel.current ∈ (kernel.waitQueue name).waiting then waitQueueDel name kernel.current else pure ()

/-- `wakeup_wait`, with `del` set -/
def wakeupWait (name : QueueName) (proc : Nat) (wakeupFlags : UInt32) : Routine Unit := do
  waitQueueDel name proc
  modify (fun kernel => { kernel with wakeupFlags := Function.update kernel.wakeupFlags proc wakeupFlags })
  wakeup proc

/-- `wakeup_queue`, with `del` set: each time round, the first in the queue -/
def wakeupQueue (name : QueueName) (wakeupFlags : UInt32) : List Nat -> Routine Unit
  | [] => pure ()
  | proc :: rest => do
      wakeupWait name proc wakeupFlags
      wakeupQueue name wakeupFlags rest

/-! ## Semaphores -/

def up (sem : Nat) : Routine Unit := do
  modify (fun kernel => kernel.setSemaphore sem { kernel.semaphore sem with ups := (kernel.semaphore sem).ups + 1 })
  let kernel <- get
  match (kernel.waitQueue (.sem sem)).waiting with
  | [] => modify (fun kernel =>
      kernel.setSemaphore sem { kernel.semaphore sem with value := (kernel.semaphore sem).value + 1 })
  | proc :: _ => do
      assert (kernel.waitState proc = wtKsem) (.assertion "wait->proc->wait_state == wait_state")
      wakeupWait (.sem sem) proc wtKsem
      modify (fun kernel =>
        kernel.setSemaphore sem { kernel.semaphore sem with grants := (kernel.semaphore sem).grants + 1 })

/-- `sem->value --` -/
def take (sem : Nat) : Routine Unit :=
  modify (fun kernel => kernel.setSemaphore sem { kernel.semaphore sem with
    value := (kernel.semaphore sem).value - 1
    grants := (kernel.semaphore sem).grants + 1 })

/-- `down`, up to `schedule` -/
def down (sem : Nat) : Routine (Progress Unit) := do
  let kernel <- get
  if (kernel.semaphore sem).value > 0 then do
    take sem
    pure (.returned ())
  else do
    waitCurrentSet (.sem sem) (.ksem sem) wtKsem
    pure .sleeps

/-- `down`, after `schedule` -/
def downWoken (sem : Nat) : Routine Unit := do
  waitCurrentDel (.sem sem)
  let kernel <- get
  let flags := if kernel.wakeupFlags kernel.current ≠ wtKsem then kernel.wakeupFlags kernel.current else 0
  assert (flags = 0) (.assertion "flags == 0")
  modify (fun kernel => kernel.setPlace .outside)

def tryDown (sem : Nat) : Routine Bool := do
  let kernel <- get
  if (kernel.semaphore sem).value > 0 then do
    take sem
    pure true
  else pure false

/-! ## The standard input -/

/-- What `dev_stdin_write` does to the buffer. -/
def Stdin.write (stdin : Stdin) (c : UInt8) : Stdin :=
  let filled := { stdin with buffer := Function.update stdin.buffer (stdin.wpos % stdinBufsize).toNat c }
  if filled.wpos - filled.rpos < stdinBufsize then
    { filled with wpos := filled.wpos + 1, accepted := filled.accepted ++ [c] }
  else filled

def devStdinWrite (c : UInt8) : Routine Unit :=
  if c ≠ 0 then do
    modify (fun kernel => { kernel with stdin := kernel.stdin.write c })
    let kernel <- get
    wakeupQueue .stdin wtKbd (kernel.waitQueue .stdin).waiting
  else pure ()

/-- The loop of `dev_stdin_read`, up to `schedule`; the characters read -/
def devStdinRead : Nat -> List UInt8 -> Routine (Progress (List UInt8))
  | 0, buf => pure (.returned buf)
  | wanted + 1, buf => do
      let kernel <- get
      if kernel.stdin.rpos < kernel.stdin.wpos then do
        let c := kernel.stdin.buffer (kernel.stdin.rpos % stdinBufsize).toNat
        modify (fun kernel => { kernel with stdin := { kernel.stdin with
          rpos := kernel.stdin.rpos + 1
          delivered := kernel.stdin.delivered ++ [c] } })
        devStdinRead wanted (buf ++ [c])
      else do
        waitCurrentSet .stdin (.kbd (wanted + 1) buf) wtKbd
        pure .sleeps

/-- `dev_stdin_read`, after `schedule` -/
def devStdinWoken (wanted : Nat) (buf : List UInt8) : Routine (Progress (List UInt8)) := do
  waitCurrentDel .stdin
  modify (fun kernel => kernel.setPlace .outside)
  let kernel <- get
  if kernel.wakeupFlags kernel.current = wtKbd then devStdinRead wanted buf else pure (.returned buf)

/-! ## Processes -/

/-- `do_fork`, up to `copy_mm`, which may sleep on a semaphore; `memory` is what
`kmalloc` gives, and `stack` whether `setup_kstack` succeeds -/
def doFork (memory : Option Nat) (stack : Bool) : Routine Unit := do
  let kernel <- get
  if kernel.family.nrProcess >= maxProcess then throw .noFreeProc
  else
    match memory with
    | none => throw .noMem
    | some proc => do
        modify (fun kernel => kernel.allocProc proc)
        modify (fun kernel => kernel.setFamily { kernel.family with
          parent := Function.update kernel.family.parent proc (some kernel.current) })
        let kernel <- get
        assert (kernel.waitState kernel.current = 0) (.assertion "current->wait_state == 0")
        if stack then modify (fun kernel => kernel.setForking (some proc))
        else do
          modify (fun kernel => kernel.kfree proc)
          throw .noMem

def getPid : Routine Int := do
  let kernel <- get
  match kernel.family.getPid with
  | some family => do
      modify (fun kernel => kernel.setFamily family)
      pure family.lastPid
  | none => halt endless

/-- The rest of `do_fork`; `copied` is whether `copy_mm` and `copy_files`
succeed -/
def doForkCopied (proc : Nat) (copied : Bool) : Routine Int := do
  modify (fun kernel => kernel.setForking none)
  if copied then do
    let pid <- getPid
    modify (fun kernel => kernel.setFamily { kernel.family with pid := Function.update kernel.family.pid proc pid })
    modify (fun kernel => kernel.setFamily (kernel.family.hashProc proc))
    let kernel <- get
    let parent <- follow (kernel.family.parent proc)
    modify (fun kernel => kernel.setFamily (kernel.family.setLinks proc parent))
    wakeup proc
    pure pid
  else do
    modify (fun kernel => kernel.kfree proc)
    throw .noMem

/-- Wake a process if it waits for a child. -/
def wakeupWaiting (proc : Nat) : Routine Unit := do
  let kernel <- get
  if kernel.waitState proc = wtChild then wakeup proc else pure ()

/-- The loop of `do_exit` that gives the children to `initproc`, unless there
are more than so many -/
def giveChildren : Nat -> Routine Unit
  | 0 => do
      let kernel <- get
      assert (kernel.family.cptr kernel.current = none) endless
  | fuel + 1 => do
      let kernel <- get
      match kernel.family.cptr kernel.current with
      | none => pure ()
      | some proc => do
          modify (fun kernel => kernel.setFamily (kernel.family.adopt kernel.current kernel.initproc proc))
          if kernel.state proc = .zombie then wakeupWaiting kernel.initproc else pure ()
          giveChildren fuel

/-- `do_exit`, up to `schedule` -/
def doExit (errorCode : Int) : Routine Unit := do
  let kernel <- get
  if kernel.current = kernel.sched.idleproc then halt (.panic "idleproc exit.\n")
  else if kernel.current = kernel.initproc then halt (.panic "initproc exit.\n")
  else do
    modify (fun kernel => (kernel.setState kernel.current .zombie (kernel.waitState kernel.current)).setPlace
      (.entering .exit))
    modify (fun kernel => { kernel with exitCode := Function.update kernel.exitCode kernel.current errorCode })
    let parent <- follow (kernel.family.parent kernel.current)
    wakeupWaiting parent
    giveChildren kernel.family.procList.length

/-- What the search of `do_wait` finds: whether there is a child to wait for,
and one that is a zombie -/
def Kernel.search (kernel : Kernel) (pid : Int) : Option (Bool × Option Nat) :=
  let zombie := fun proc => decide (kernel.state proc = .zombie)
  if pid ≠ 0 then
    match kernel.family.findProc pid with
    | some proc =>
        if kernel.family.parent proc = some kernel.current then some (true, [proc].find? zombie)
        else some (false, none)
    | none => some (false, none)
  else (kernel.family.children kernel.current).map fun children => (!children.isEmpty, children.find? zombie)

/-- The end of `do_wait`; what is written to `code_store` -/
def reap (proc : Nat) (codeStore : Bool) : Routine (Option Int) := do
  let kernel <- get
  if proc = kernel.sched.idleproc \/ proc = kernel.initproc then halt (.panic "wait idleproc or initproc.\n")
  else do
    let stored := if codeStore then some (kernel.exitCode proc) else none
    modify (fun kernel => kernel.setFamily (kernel.family.unhashProc proc))
    let parent <- follow (kernel.family.parent proc)
    modify (fun kernel => kernel.setFamily (kernel.family.removeLinks proc parent))
    modify (fun kernel => kernel.kfree proc)
    pure stored

/-- `do_wait` from `repeat` on, up to `schedule`; what is written to
`code_store` -/
def doWaitRepeat (pid : Int) (codeStore : Bool) : Routine (Progress (Option Int)) := do
  let kernel <- get
  match kernel.search pid with
  | none => halt endless
  | some (_, some proc) => do
      let stored <- reap proc codeStore
      pure (.returned stored)
  | some (true, none) => do
      modify (fun kernel => kernel.sleep (.child pid codeStore) wtChild)
      pure .sleeps
  | some (false, none) => throw .badProc

/-- `do_wait`; `codeStore` is, where it is not `NULL`, whether `user_mem_check`
accepts it -/
def doWait (pid : Int) (codeStore : Option Bool) : Routine (Progress (Option Int)) :=
  if codeStore = some false then throw .inval else doWaitRepeat pid codeStore.isSome

/-- `-E_KILLED` -/
def killedCode : Int := -9

/-- `do_wait`, after `schedule` -/
def doWaitWoken (pid : Int) (codeStore : Bool) : Routine (Progress (Option Int)) := do
  modify (fun kernel => kernel.setPlace .outside)
  let kernel <- get
  if kernel.exiting kernel.current then do
    doExit killedCode
    pure .sleeps
  else doWaitRepeat pid codeStore

def doKill (pid : Int) : Routine Unit := do
  let kernel <- get
  match kernel.family.findProc pid with
  | none => throw .inval
  | some proc =>
      if kernel.exiting proc = true then throw .killed
      else do
        modify (fun kernel => { kernel with exiting := Function.update kernel.exiting proc true })
        if kernel.waitState proc &&& wtInterrupted ≠ 0 then wakeup proc else pure ()

/-- `do_sleep`, up to `schedule` -/
def doSleep (time : Nat) : Routine (Progress Unit) :=
  if time = 0 then pure (.returned ())
  else do
    modify (fun kernel => kernel.sleep .timer wtTimer)
    let kernel <- get
    onSched (addTimer ⟨kernel.current, time, kernel.current⟩)
    pure .sleeps

/-- `do_sleep`, after `schedule` -/
def doSleepWoken : Routine Unit := do
  let kernel <- get
  onSched (delTimer kernel.current)
  modify (fun kernel => kernel.setPlace .outside)

def doYield : Routine Unit :=
  modify fun kernel => { kernel with
    sched := kernel.sched.setTask kernel.current { kernel.sched.task kernel.current with needResched := true } }

/-! ## The machine -/

/-- `schedule`, up to where the current process goes on -/
def switch : Routine Unit := do
  modify (fun kernel => kernel.setPlace (kernel.place kernel.current).switched)
  onSched schedule

/-- The current process goes on after its call of `schedule`. -/
def resume : Routine Unit := do
  let kernel <- get
  match kernel.place kernel.current with
  | .inside (.child pid codeStore) => do
      let _ <- doWaitWoken pid codeStore
  | .inside .timer => doSleepWoken
  | .inside (.ksem sem) => downWoken sem
  | .inside (.kbd wanted buf) => do
      let _ <- devStdinWoken wanted buf
  | .inside .exit => halt (.panic "do_exit will not return!! %d.\n")
  | .outside => pure ()
  | .entering _ => pure ()

/-- What happens next: an interrupt, or a call of the current process. -/
inductive Event where
  /-- A timer interrupt -/
  | tick
  /-- An interrupt that brings a character -/
  | key (c : UInt8)
  | schedule
  | resume
  | fork (memory : Option Nat) (stack : Bool)
  | forkCopied (copied : Bool)
  | exit (errorCode : Int)
  | wait (pid : Int) (codeStore : Option Bool)
  | kill (pid : Int)
  | sleep (time : Nat)
  | yield
  | down (sem : Nat)
  | up (sem : Nat)
  | tryDown (sem : Nat)
  | read (wanted : Nat)

def perform : Event -> Routine Unit
  | .tick => onSched runTimerList
  | .key c => devStdinWrite c
  | .schedule => switch
  | .resume => resume
  | .fork memory stack => doFork memory stack
  | .forkCopied copied => do
      let kernel <- get
      match kernel.forking kernel.current with
      | some proc => do
          let _ <- doForkCopied proc copied
      | none => pure ()
  | .exit errorCode => doExit errorCode
  | .wait pid codeStore => do
      let _ <- doWait pid codeStore
  | .kill pid => doKill pid
  | .sleep time => do
      let _ <- doSleep time
  | .yield => doYield
  | .down sem => do
      let _ <- down sem
  | .up sem => up sem
  | .tryDown sem => do
      let _ <- tryDown sem
  | .read wanted => do
      let _ <- devStdinRead wanted []

namespace Kernel

/-- The current process may make a call.  The idle process makes none: after
the start it is in the loop of `cpu_idle`. -/
def Calls (kernel : Kernel) : Prop := kernel.place kernel.current = .outside /\ kernel.current ≠ kernel.sched.idleproc

/-- The current process may make a call that `do_fork` does not make. -/
def Free (kernel : Kernel) : Prop := kernel.Calls /\ kernel.forking kernel.current = none

instance (kernel : Kernel) : Decidable kernel.Calls := inferInstanceAs (Decidable (_ /\ _))

instance (kernel : Kernel) : Decidable kernel.Free := inferInstanceAs (Decidable (_ /\ _))

/-- What may happen next.  In the middle of `do_fork` the current process only
takes and gives back semaphores.  An `up` does not overflow `sem->value`, which
no code checks: the value is an `int`, and in C its overflow has no meaning. -/
def Allows (kernel : Kernel) : Event -> Prop
  | .tick => True
  | .key _ => True
  | .schedule => (kernel.place kernel.current).isEntering = true \/
      (kernel.place kernel.current = .outside /\ kernel.forking kernel.current = none)
  | .resume => (kernel.place kernel.current).isInside = true
  | .fork memory _ => kernel.Free /\ memory.all (fun proc => !kernel.allocated proc) = true
  | .forkCopied _ => kernel.Calls /\ kernel.forking kernel.current ≠ none
  | .exit _ => kernel.Free
  | .wait .. => kernel.Free
  | .kill _ => kernel.Free
  | .sleep _ => kernel.Free
  | .yield => kernel.Free
  | .down _ => kernel.Calls
  | .up sem => kernel.Calls /\ ((kernel.waitQueue (.sem sem)).waiting = [] -> (kernel.semaphore sem).value < 2 ^ 31 - 1)
  | .tryDown _ => kernel.Calls
  | .read _ => kernel.Free

instance (kernel : Kernel) : forall event, Decidable (kernel.Allows event)
  | .tick => inferInstanceAs (Decidable True)
  | .key _ => inferInstanceAs (Decidable True)
  | .schedule => inferInstanceAs (Decidable (_ \/ _))
  | .resume => inferInstanceAs (Decidable (_ = true))
  | .fork .. => inferInstanceAs (Decidable (_ /\ _))
  | .forkCopied _ => inferInstanceAs (Decidable (_ /\ _))
  | .exit _ => inferInstanceAs (Decidable kernel.Free)
  | .wait .. => inferInstanceAs (Decidable kernel.Free)
  | .kill _ => inferInstanceAs (Decidable kernel.Free)
  | .sleep _ => inferInstanceAs (Decidable kernel.Free)
  | .yield => inferInstanceAs (Decidable kernel.Free)
  | .down _ => inferInstanceAs (Decidable kernel.Calls)
  | .up _ => inferInstanceAs (Decidable (_ /\ (_ -> _)))
  | .tryDown _ => inferInstanceAs (Decidable kernel.Calls)
  | .read _ => inferInstanceAs (Decidable kernel.Free)

end Kernel

/-- One event at a time. -/
def machine : Machine Kernel Event where
  step kernel event := if kernel.Allows event then (perform event kernel).state else none

/-! ## The start -/

/-- The kernel before `proc_init`, with semaphores of any values. -/
def powerOn (value : Nat -> Int) : Kernel where
  sched := ⟨fun _ => ⟨.uninit, 0, false, 0, 0, false⟩, 0, 0, [], 0, [], []⟩
  initproc := 0
  family := ⟨fun _ => 0, fun _ => none, fun _ => none, fun _ => none, fun _ => none, [], fun _ => [], 0, maxPid, maxPid⟩
  allocated := fun _ => false
  exiting := fun _ => false
  exitCode := fun _ => 0
  place := fun _ => .outside
  forking := fun _ => none
  semaphore := fun sem => ⟨value sem, 0, 0⟩
  waitQueue := fun _ => ⟨[], [], []⟩
  wakeupFlags := fun _ => 0
  stdin := ⟨fun _ => 0, 0, 0, [], []⟩

/-- `proc_init`, with the addresses that `kmalloc` gives -/
def procInit (idle init : Nat) : Routine Unit := do
  modify (fun kernel => kernel.allocProc idle)
  modify (fun kernel => kernel.setFamily { kernel.family with
    pid := Function.update kernel.family.pid idle 0
    nrProcess := kernel.family.nrProcess + 1 })
  modify (fun kernel => { kernel with sched := { kernel.sched.setTask idle ⟨.runnable, 0, true, 0, 0, false⟩ with
    current := idle
    idleproc := idle } })
  doFork (some init) true
  let pid <- doForkCopied init true
  if pid <= 0 then halt (.panic "create init_main failed.\n")
  else do
    let kernel <- get
    let initproc <- follow (kernel.family.findProc pid)
    modify (fun kernel => { kernel with initproc })
    let kernel <- get
    assert (kernel.family.pid kernel.sched.idleproc = 0) (.assertion "idleproc != NULL && idleproc->pid == 0")
    assert (kernel.family.pid kernel.initproc = 1) (.assertion "initproc != NULL && initproc->pid == 1")

end Process
end Ucore
