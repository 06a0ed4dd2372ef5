import Ucore.Library.Threads
import Mathlib.Data.Fintype.Sum
import Mathlib.Tactic.DeriveFintype

namespace Ucore
namespace Monitor

open Library
open Threads

/-!
# The monitor

A monitor is made of semaphores: `mutex`, `next`, and one for each condition
variable, with the counters `next_count` and `count`.  The processes run
routines of it.  A routine is any code that works on the data of the monitor and
calls `cond_wait` and `cond_signal`, and what it does may depend on the data.

Each statement of `cond_signal` and `cond_wait` is a point of the code of its
own, so that the processes may be switched between any two of them.
-/

/-- The semaphores of a monitor. -/
inductive Gate (Condition : Type) where
  | mutex
  | next
  | cv (condition : Condition)
deriving DecidableEq, Fintype

/-- What a routine does next, and how it goes on. -/
inductive Command (Condition Local : Type) where
  | run (rest : Local)
  | condSignal (condition : Condition) (rest : Local)
  | condWait (condition : Condition) (rest : Local)
  | leave (rest : Local)

/-- The points of the code, each before the statement it names. -/
inductive Stage (Condition Local : Type) where
  /-- `down(&(mtp->mutex))` -/
  | enter (rest : Local)
  /-- The body of a routine -/
  | inside (rest : Local)
  /-- `if (cvp->count > 0)` of `cond_signal` -/
  | signal (condition : Condition) (rest : Local)
  /-- `mtp->next_count++` -/
  | announce (condition : Condition) (rest : Local)
  /-- `up(&(cvp->sem))` -/
  | release (condition : Condition) (rest : Local)
  /-- `down(&(mtp->next))` -/
  | yield (rest : Local)
  /-- `mtp->next_count--` -/
  | retract (rest : Local)
  /-- `cvp->count++` of `cond_wait` -/
  | wait (condition : Condition) (rest : Local)
  /-- `if (mtp->next_count > 0)` of `cond_wait` -/
  | pass (condition : Condition) (rest : Local)
  /-- `up(&(mtp->next))` or `up(&(mtp->mutex))` -/
  | handOver (gate : Gate Condition) (condition : Condition) (rest : Local)
  /-- `down(&(cvp->sem))` -/
  | suspend (condition : Condition) (rest : Local)
  /-- `cvp->count--` -/
  | resume (condition : Condition) (rest : Local)
  /-- `if (mtp->next_count > 0)` at the end of a routine -/
  | leave (rest : Local)
  /-- `up(&(mtp->next))` or `up(&(mtp->mutex))` -/
  | exit (gate : Gate Condition) (rest : Local)

variable {Process Condition Local Shared : Type} [DecidableEq Process] [DecidableEq Condition]

def Command.stage : Command Condition Local -> Stage Condition Local
  | .run rest => .inside rest
  | .condSignal condition rest => .signal condition rest
  | .condWait condition rest => .wait condition rest
  | .leave rest => .leave rest

/-- The counters of a monitor, and the data of its routines. -/
structure Data (Condition Shared : Type) where
  nextCount : Int
  count : Condition -> Int
  shared : Shared

/-- The gate that a process leaves through. -/
def Data.opens (data : Data Condition Shared) : Gate Condition := if data.nextCount > 0 then .next else .mutex

def Data.setCount (data : Data Condition Shared) (condition : Condition) (count : Int) : Data Condition Shared :=
  { data with count := Function.update data.count condition count }

/-- The code of the processes. -/
def code (routine : Process -> Local -> Shared -> Shared × Command Condition Local) (process : Process) :
    Stage Condition Local -> Op (Gate Condition) (Stage Condition Local) (Data Condition Shared)
  | .enter rest => .down .mutex (.inside rest)
  | .inside rest => .act fun data =>
      ({ data with shared := (routine process rest data.shared).1 }, (routine process rest data.shared).2.stage)
  | .signal condition rest => .act fun data =>
      (data, if data.count condition > 0 then .announce condition rest else .inside rest)
  | .announce condition rest => .act fun data =>
      ({ data with nextCount := data.nextCount + 1 }, .release condition rest)
  | .release condition rest => .up (.cv condition) (.yield rest)
  | .yield rest => .down .next (.retract rest)
  | .retract rest => .act fun data => ({ data with nextCount := data.nextCount - 1 }, .inside rest)
  | .wait condition rest => .act fun data =>
      (data.setCount condition (data.count condition + 1), .pass condition rest)
  | .pass condition rest => .act fun data => (data, .handOver data.opens condition rest)
  | .handOver gate condition rest => .up gate (.suspend condition rest)
  | .suspend condition rest => .down (.cv condition) (.resume condition rest)
  | .resume condition rest => .act fun data =>
      (data.setCount condition (data.count condition - 1), .inside rest)
  | .leave rest => .act fun data => (data, .exit data.opens rest)
  | .exit gate rest => .up gate (.enter rest)

/-- The state that `monitor_init` makes, with each process before a routine. -/
def monitorInit (shared : Shared) (routines : Process -> Local) :
    Threads Process (Gate Condition) (Stage Condition Local) (Data Condition Shared) where
  data := { nextCount := 0, count := fun _ => 0, shared := shared }
  sem := fun
    | .mutex => { value := 1, waitQueue := [] }
    | .next => { value := 0, waitQueue := [] }
    | .cv _ => { value := 0, waitQueue := [] }
  thread := fun process => { control := .enter (routines process), sleep := .awake }
  ups := fun _ => 0
  downs := fun _ => 0

/-! ## What is counted -/

namespace Stage

/-- A process is in the monitor, unless it is before a `down`. -/
def active : Stage Condition Local -> Bool
  | .enter _ | .yield _ | .suspend .. => false
  | _ => true

/-- Between the two changes of `next_count` in `cond_signal`. -/
def signals : Stage Condition Local -> Bool
  | .release .. | .yield _ | .retract _ => true
  | _ => false

/-- Between the two changes of `count` in `cond_wait`. -/
def waits (condition : Condition) : Stage Condition Local -> Bool
  | .pass other _ | .handOver _ other _ | .suspend other _ | .resume other _ => other = condition
  | _ => false

end Stage

abbrev State (Process Condition Local Shared : Type) :=
  Threads Process (Gate Condition) (Stage Condition Local) (Data Condition Shared)

/-- The right to be in the monitor. -/
def token : Account Process (Gate Condition) (Stage Condition Local) (Data Condition Shared) where
  worth := fun _ => 1
  hold := fun _ stage => if stage.active then 1 else 0
  stock := fun _ _ _ => 0

def signalling : Account Process (Gate Condition) (Stage Condition Local) (Data Condition Shared) where
  worth := fun _ => 0
  hold := fun _ stage => if stage.signals then 1 else 0
  stock := fun data _ _ => - data.nextCount

def waiting (condition : Condition) :
    Account Process (Gate Condition) (Stage Condition Local) (Data Condition Shared) where
  worth := fun _ => 0
  hold := fun _ stage => if stage.waits condition then 1 else 0
  stock := fun data _ _ => - data.count condition

variable {routine : Process -> Local -> Shared -> Shared × Command Condition Local}
  {state next : State Process Condition Local Shared} {process : Process}

omit [DecidableEq Condition] in
theorem active_stage (command : Command Condition Local) : command.stage.active = true := by
  cases command <;> rfl

omit [DecidableEq Condition] in
theorem signals_stage (command : Command Condition Local) : command.stage.signals = false := by
  cases command <;> rfl

theorem waits_stage (condition : Condition) (command : Command Condition Local) :
    command.stage.waits condition = false := by
  cases command <;> rfl

omit [DecidableEq Process] in
theorem token_balanced : Balanced (code routine) token state process := by
  unfold Threads.Balanced token
  cases (state.thread process).control with
  | inside rest =>
      simp only [code, active_stage]
      rfl
  | signal condition rest =>
      by_cases found : state.data.count condition > 0 <;> simp [code, found, Stage.active]
  | _ => rfl

omit [DecidableEq Process] in
theorem signalling_balanced : Balanced (code routine) signalling state process := by
  unfold Threads.Balanced signalling
  cases (state.thread process).control with
  | inside rest =>
      simp only [code, signals_stage]
      rfl
  | signal condition rest =>
      by_cases found : state.data.count condition > 0 <;> simp [code, found, Stage.signals]
  | announce condition rest =>
      simp only [code, Stage.signals]
      simp
  | retract rest =>
      simp only [code, Stage.signals, if_true, Bool.false_eq_true, if_false]
      omega
  | _ => rfl

omit [DecidableEq Process] in
theorem waiting_balanced (condition : Condition) : Balanced (code routine) (waiting condition) state process := by
  unfold Threads.Balanced waiting
  cases (state.thread process).control with
  | inside rest =>
      simp only [code, waits_stage]
      rfl
  | signal other rest =>
      by_cases found : state.data.count other > 0 <;> simp [code, found, Stage.waits]
  | wait other rest =>
      by_cases same : other = condition
      · simp [code, Stage.waits, Data.setCount, same]
      · simp [code, Stage.waits, Data.setCount, same, Function.update_of_ne (Ne.symm same)]
  | resume other rest =>
      by_cases same : other = condition
      · simp [code, Stage.waits, Data.setCount, same]
        omega
      · simp [code, Stage.waits, Data.setCount, same, Function.update_of_ne (Ne.symm same)]
  | handOver gate other rest => simp [code, Stage.waits]
  | suspend other rest => simp [code, Stage.waits]
  | _ => rfl

end Monitor
end Ucore
