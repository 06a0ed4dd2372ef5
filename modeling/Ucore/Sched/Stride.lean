import Ucore.Library.SkewHeap
import Ucore.Sched.RunQueue
import Mathlib.Tactic.Ring

namespace Ucore
namespace Stride

open Library
open Program
open Scheduler (ProcState Errno Fault maxTimeSlice)

/-!
# The stride scheduler

The stride class keeps the runnable processes in a skew heap, by their
strides.  A stride has 32 bits, and two strides are compared by the sign of
their difference.

The strides that 32 bits do not hold are recorded too, and no function reads
them.
-/

def bigStride : Nat := 2 ^ 30

/-- The fields of `struct proc_struct` that the scheduler works on. -/
structure Task where
  state : ProcState
  needResched : Bool
  runs : Int
  timeSlice : Int
  /-- `proc->rq == rq` -/
  onRq : Bool
  /-- `lab6_stride` -/
  stride : BitVec 32
  /-- `lab6_priority` -/
  priority : Nat

structure StrideSched where
  task : Nat -> Task
  current : Nat
  idleproc : Nat
  /-- `rq->lab6_run_pool` -/
  pool : SkewHeap Nat
  procNum : Int
  /-- The strides as they are before they wrap. -/
  unwrapped : Nat -> Nat

abbrev Call (Value : Type) := Program StrideSched Errno Fault Value

/-- `proc_stride_comp_f` -/
def procStrideComp (task : Nat -> Task) (p q : Nat) : Int :=
  let c := ((task p).stride - (task q).stride).toInt
  if c > 0 then 1 else if c = 0 then 0 else -1

/-- The test of `skew_heap_merge` -/
def before (task : Nat -> Task) (p q : Nat) : Bool := decide (procStrideComp task p q = -1)

/-- The stride that a pick costs. -/
def pass (priority : Nat) : Nat := bigStride / priority

namespace StrideSched

def setTask (sched : StrideSched) (proc : Nat) (task : Task) : StrideSched :=
  { sched with task := Function.update sched.task proc task }

/-- What `stride_enqueue` does. -/
def enqueue (sched : StrideSched) (proc : Nat) : StrideSched :=
  let task := sched.task proc
  let slice := if task.timeSlice = 0 \/ task.timeSlice > maxTimeSlice then maxTimeSlice else task.timeSlice
  { sched.setTask proc { task with timeSlice := slice, onRq := true } with
    pool := sched.pool.insert (before sched.task) proc
    procNum := sched.procNum + 1 }

/-- What `stride_dequeue` does. -/
def dequeue (sched : StrideSched) (proc : Nat) : StrideSched :=
  { sched with
    pool := sched.pool.remove (before sched.task) proc
    procNum := sched.procNum - 1 }

/-- `proc->lab6_stride += BIG_STRIDE / proc->lab6_priority` -/
def advance (sched : StrideSched) (proc : Nat) : StrideSched :=
  let task := sched.task proc
  { sched.setTask proc { task with stride := task.stride + BitVec.ofNat 32 (pass task.priority) } with
    unwrapped := Function.update sched.unwrapped proc (sched.unwrapped proc + pass task.priority) }

/-- `current->need_resched = 0` -/
def clearResched (sched : StrideSched) : StrideSched :=
  sched.setTask sched.current { sched.task sched.current with needResched := false }

/-- `next->runs++` and the switch -/
def switchTo (sched : StrideSched) (next : Nat) : StrideSched :=
  { sched.setTask next { sched.task next with runs := (sched.task next).runs + 1 } with current := next }

end StrideSched

/-! ## The stride class -/

def strideEnqueue (proc : Nat) : Call Unit := modify (fun sched => sched.enqueue proc)

def strideDequeue (proc : Nat) : Call Unit := do
  let sched <- get
  assert ((sched.task proc).onRq = true /\ sched.procNum > 0) (.assertion "proc->rq == rq && rq->proc_num > 0")
  modify (fun sched => sched.dequeue proc)

def stridePickNext : Call (Option Nat) := do
  let sched <- get
  match sched.pool.top with
  | none => pure none
  | some proc => do
      assert ((sched.task proc).priority ≠ 0) .divisionByZero
      modify (fun sched => sched.advance proc)
      pure (some proc)

def strideProcTick (proc : Nat) : Call Unit := modify fun sched =>
  let task := sched.task proc
  let slice := if task.timeSlice > 0 then task.timeSlice - 1 else task.timeSlice
  sched.setTask proc { task with timeSlice := slice, needResched := if slice = 0 then true else task.needResched }

/-! ## The scheduler -/

def schedClassEnqueue (proc : Nat) : Call Unit := do
  let sched <- get
  if proc ≠ sched.idleproc then strideEnqueue proc else pure ()

def schedClassProcTick (proc : Nat) : Call Unit := do
  let sched <- get
  if proc ≠ sched.idleproc then strideProcTick proc
  else modify (fun sched => sched.setTask proc { sched.task proc with needResched := true })

def wakeupProc (proc : Nat) : Call Unit := do
  let sched <- get
  assert ((sched.task proc).state ≠ .zombie) (.assertion "proc->state != PROC_ZOMBIE")
  if (sched.task proc).state ≠ .runnable then do
    modify (fun sched => sched.setTask proc { sched.task proc with state := .runnable })
    if proc ≠ sched.current then schedClassEnqueue proc else pure ()
  else pure ()

/-- The choice of `schedule`: the process picked and dequeued, or else
`idleproc`. -/
def pickNext : Call Nat := do
  let next <- stridePickNext
  match next with
  | some proc => do
      strideDequeue proc
      pure proc
  | none => do
      let sched <- get
      pure sched.idleproc

/-- `schedule`, up to the switch in `proc_run` -/
def schedule : Call Unit := do
  modify StrideSched.clearResched
  let sched <- get
  if (sched.task sched.current).state = .runnable then schedClassEnqueue sched.current else pure ()
  let next <- pickNext
  modify (fun sched => sched.switchTo next)

/-! ## Comparison -/

/-- The wrapped difference of numbers that are not far apart. -/
theorem toInt_sub_ofNat {one two : Nat} (within : one <= two + bigStride /\ two <= one + bigStride) :
    (BitVec.ofNat 32 one - BitVec.ofNat 32 two).toInt = (one : Int) - two := by
  have wide : bigStride = 1073741824 := rfl
  rw [BitVec.toInt_sub, BitVec.toInt_ofNat', BitVec.toInt_ofNat', Int.sub_bmod_bmod, Int.bmod_sub_bmod,
    Int.bmod_eq_of_le] <;> omega

section Comparing

variable {sched : StrideSched} {bound p q : Nat}

/-- The strides are the unwrapped ones modulo their width. -/
def StrideSched.Wraps (sched : StrideSched) : Prop :=
  forall proc, (sched.task proc).stride = BitVec.ofNat 32 (sched.unwrapped proc)

/-- The unwrapped strides of two processes are at most `bound` apart.  Up to half
of the 32-bit range the wrapped difference has the right sign. -/
def StrideSched.Close (sched : StrideSched) (bound p q : Nat) : Prop :=
  sched.unwrapped p <= sched.unwrapped q + bound /\ sched.unwrapped q <= sched.unwrapped p + bound

/-- `p` is not ahead of `q`. -/
def StrideSched.Behind (sched : StrideSched) (p q : Nat) : Prop := sched.unwrapped p <= sched.unwrapped q

/-- The comparison is that of the unwrapped strides. -/
theorem procStrideComp_eq (wraps : sched.Wraps) (close : sched.Close bigStride p q) :
    procStrideComp sched.task p q =
      if sched.unwrapped q < sched.unwrapped p then 1 else if sched.unwrapped p = sched.unwrapped q then 0 else -1 := by
  unfold procStrideComp
  rw [wraps p, wraps q, toInt_sub_ofNat close]
  refine if_congr (by omega) rfl (if_congr (by omega) rfl rfl)

theorem before_agrees (wraps : sched.Wraps) {procs : List Nat} (small : bound <= bigStride)
    (close : forall p, p ∈ procs -> forall q, q ∈ procs -> sched.Close bound p q) :
    SkewHeap.Agrees (before sched.task) sched.Behind procs := by
  intro p here q there
  have near := close p here q there
  have comp := procStrideComp_eq wraps (p := p) (q := q) ⟨by have := near.1; omega, by have := near.2; omega⟩
  unfold before StrideSched.Behind
  rw [comp]
  constructor
  · intro first
    have minus := of_decide_eq_true first
    split at minus
    · cases minus
    · omega
  · intro second
    have other := of_decide_eq_false second
    split at other
    · omega
    · split at other
      · omega
      · exact absurd rfl other

theorem StrideSched.Behind.trans {one two three : Nat} (first : sched.Behind one two)
    (second : sched.Behind two three) :
    sched.Behind one three := Nat.le_trans first second

end Comparing

/-! ## The pool -/

/-- The pool is a heap by the unwrapped strides, which are at most `bound`
apart. -/
structure StrideSched.Pooled (bound : Nat) (sched : StrideSched) : Prop where
  once : sched.pool.toList.Nodup
  wraps : sched.Wraps
  ordered : sched.pool.Ordered sched.Behind
  close : forall p, p ∈ sched.pool.toList -> forall q, q ∈ sched.pool.toList -> sched.Close bound p q
  runnable : forall p, p ∈ sched.pool.toList -> (sched.task p).state = .runnable
  onRq : forall p, p ∈ sched.pool.toList -> (sched.task p).onRq = true
  busy : sched.idleproc ∉ sched.pool.toList
  number : sched.procNum = sched.pool.toList.length

/-- A task that differs only where the pool does not look. -/
structure Task.Alike (task other : Task) : Prop where
  state : task.state = other.state
  onRq : task.onRq = other.onRq
  stride : task.stride = other.stride
  priority : task.priority = other.priority

section Pool

variable {sched : StrideSched} {bound proc : Nat}

theorem StrideSched.task_setTask (proc : Nat) (task : Task) : (sched.setTask proc task).task proc = task :=
  Function.update_self ..

theorem StrideSched.task_setTask_of_ne {other : Nat} (different : other ≠ proc) (task : Task) :
    (sched.setTask proc task).task other = sched.task other := Function.update_of_ne different ..

theorem StrideSched.alike_setTask {task : Task} (alike : task.Alike (sched.task proc)) (other : Nat) :
    ((sched.setTask proc task).task other).Alike (sched.task other) := by
  by_cases same : other = proc
  · subst same
    rw [StrideSched.task_setTask]
    exact alike
  · rw [StrideSched.task_setTask_of_ne same]
    exact ⟨rfl, rfl, rfl, rfl⟩

theorem StrideSched.alike_clearResched (sched : StrideSched) (other : Nat) :
    (sched.clearResched.task other).Alike (sched.task other) := by
  apply StrideSched.alike_setTask
  exact ⟨rfl, rfl, rfl, rfl⟩

theorem StrideSched.alike_switchTo (sched : StrideSched) (next other : Nat) :
    ((sched.switchTo next).task other).Alike (sched.task other) := by
  apply StrideSched.alike_setTask
  exact ⟨rfl, rfl, rfl, rfl⟩

/-- Only some fields of the tasks matter to the pool. -/
theorem StrideSched.Pooled.retask {after : StrideSched} (pooled : sched.Pooled bound)
    (strides : forall p, (after.task p).stride = (sched.task p).stride)
    (members : forall p, p ∈ sched.pool.toList -> (after.task p).state = .runnable /\ (after.task p).onRq = true)
    (pool : after.pool = sched.pool) (unwrapped : after.unwrapped = sched.unwrapped)
    (idleproc : after.idleproc = sched.idleproc) (procNum : after.procNum = sched.procNum) : after.Pooled bound := by
  rcases after with ⟨task, current, _, _, _, _⟩
  subst pool unwrapped idleproc procNum
  exact ⟨pooled.once, fun p => (strides p).trans (pooled.wraps p), pooled.ordered, pooled.close,
    fun p member => (members p member).1, fun p member => (members p member).2, pooled.busy, pooled.number⟩

theorem StrideSched.Pooled.alike {after : StrideSched} (pooled : sched.Pooled bound)
    (alike : forall p, (after.task p).Alike (sched.task p)) (pool : after.pool = sched.pool)
    (unwrapped : after.unwrapped = sched.unwrapped) (idleproc : after.idleproc = sched.idleproc)
    (procNum : after.procNum = sched.procNum) : after.Pooled bound :=
  pooled.retask (fun p => (alike p).stride)
    (fun p member => ⟨(alike p).state.trans (pooled.runnable p member), (alike p).onRq.trans (pooled.onRq p member)⟩)
    pool unwrapped idleproc procNum

/-- A process with a stride that is close to those in the pool. -/
theorem StrideSched.Pooled.enqueue (pooled : sched.Pooled bound) (small : bound <= bigStride)
    (absent : proc ∉ sched.pool.toList) (other : proc ≠ sched.idleproc) (runnable : (sched.task proc).state = .runnable)
    (near : forall q, q ∈ sched.pool.toList -> sched.Close bound proc q) : (sched.enqueue proc).Pooled bound := by
  have perm : (sched.enqueue proc).pool.toList.Perm (proc :: sched.pool.toList) := SkewHeap.insert_perm ..
  have close : forall p, p ∈ proc :: sched.pool.toList -> forall q, q ∈ proc :: sched.pool.toList ->
      sched.Close bound p q := by
    intro p here q there
    rcases List.mem_cons.mp here with rfl | old
    · rcases List.mem_cons.mp there with rfl | older
      · exact ⟨Nat.le_add_right .., Nat.le_add_right ..⟩
      · exact near q older
    · rcases List.mem_cons.mp there with rfl | older
      · exact (near p old).symm
      · exact pooled.close p old q older
  have task : forall p, p ∈ sched.pool.toList -> (sched.enqueue proc).task p = sched.task p := by
    intro p member
    have different : p ≠ proc := fun same => absent (same ▸ member)
    exact Function.update_of_ne different ..
  have self : (sched.enqueue proc).task proc = { sched.task proc with
      timeSlice := if (sched.task proc).timeSlice = 0 \/ (sched.task proc).timeSlice > maxTimeSlice then maxTimeSlice
        else (sched.task proc).timeSlice
      onRq := true } := Function.update_self ..
  refine ⟨?_, ?_, ?_, ?_, ?_, ?_, ?_, ?_⟩
  · exact perm.nodup_iff.mpr (List.nodup_cons.mpr ⟨absent, pooled.once⟩)
  · intro p
    by_cases same : p = proc
    · rw [same, self]
      exact pooled.wraps proc
    · rw [show (sched.enqueue proc).task p = sched.task p from Function.update_of_ne same ..]
      exact pooled.wraps p
  · exact SkewHeap.insert_ordered (fun _ _ _ first second => first.trans second)
      (before_agrees pooled.wraps small close) pooled.ordered
  · exact fun p here q there => close p (perm.subset here) q (perm.subset there)
  · intro p member
    rcases List.mem_cons.mp (perm.subset member) with rfl | old
    · rw [self]
      exact runnable
    · rw [task p old]
      exact pooled.runnable p old
  · intro p member
    rcases List.mem_cons.mp (perm.subset member) with rfl | old
    · rw [self]
    · rw [task p old]
      exact pooled.onRq p old
  · intro member
    rcases List.mem_cons.mp (perm.subset member) with same | old
    · exact other same.symm
    · exact pooled.busy old
  · rw [perm.length_eq, List.length_cons, Nat.cast_succ, ← pooled.number]
    rfl

/-- What a pick leaves: the process that is furthest behind is out of the pool,
and has been moved on by its pass. -/
structure StrideSched.Picked (bound : Nat) (sched : StrideSched) (next : Nat) (after : StrideSched) : Prop where
  pooled : after.Pooled bound
  member : next ∈ sched.pool.toList
  least : forall q, q ∈ sched.pool.toList -> sched.unwrapped next <= sched.unwrapped q
  pool : forall q, q ∈ after.pool.toList <-> q ∈ sched.pool.toList /\ q ≠ next
  near : forall q, q ∈ after.pool.toList -> after.Close bound next q
  unwrapped : after.unwrapped =
    Function.update sched.unwrapped next (sched.unwrapped next + pass (sched.task next).priority)
  idleproc : after.idleproc = sched.idleproc
  current : after.current = sched.current
  state : forall q, (after.task q).state = (sched.task q).state
  priority : forall q, (after.task q).priority = (sched.task q).priority

/-- The top is a process with the least stride. -/
theorem pickNext_meets (pooled : sched.Pooled bound) (small : bound <= bigStride)
    (passes : forall p, p ∈ sched.pool.toList -> (sched.task p).priority ≠ 0 /\ pass (sched.task p).priority <= bound) :
    Meets pickNext sched
      ⟨fun next after => (sched.pool.toList = [] /\ next = sched.idleproc /\ after = sched) \/
          sched.Picked bound next after,
        fun _ _ => False, fun _ => False⟩ := by
  unfold pickNext stridePickNext
  simp only [meets_bind, meets_get]
  cases heap : sched.pool with
  | nil => exact .inl ⟨rfl, rfl, rfl⟩
  | node left root right =>
      have member : root ∈ sched.pool.toList := by
        rw [heap]
        exact List.mem_cons_self ..
      have split : sched.pool.toList = root :: (left.toList ++ right.toList) := by
        rw [heap]
        rfl
      have once := pooled.once
      rw [split] at once
      have apart := List.nodup_cons.mp once
      have ordered := pooled.ordered
      rw [heap] at ordered
      have least : forall q, q ∈ sched.pool.toList -> sched.unwrapped root <= sched.unwrapped q := by
        rw [split]
        intro q there
        rcases List.mem_cons.mp there with rfl | under
        · exact Nat.le_refl _
        · exact ordered.1 q under
      have unwrapped : (sched.advance root).unwrapped =
          Function.update sched.unwrapped root (sched.unwrapped root + pass (sched.task root).priority) := rfl
      have fields : forall q, ((sched.advance root).task q).state = (sched.task q).state /\
          ((sched.advance root).task q).onRq = (sched.task q).onRq /\
          ((sched.advance root).task q).priority = (sched.task q).priority := by
        intro q
        by_cases same : q = root
        · subst same
          have self : (sched.advance q).task q = { sched.task q with
              stride := (sched.task q).stride + BitVec.ofNat 32 (pass (sched.task q).priority) } :=
                Function.update_self ..
          rw [self]
          exact ⟨rfl, rfl, rfl⟩
        · have other : (sched.advance root).task q = sched.task q := Function.update_of_ne same ..
          rw [other]
          exact ⟨rfl, rfl, rfl⟩
      have under : forall q, q ∈ left.toList ++ right.toList -> q ≠ root /\ q ∈ sched.pool.toList := by
        intro q below
        refine ⟨fun same => apart.1 (same ▸ below), ?_⟩
        rw [split]
        exact List.mem_cons_of_mem _ below
      have kept : forall q, q ≠ root -> (sched.advance root).unwrapped q = sched.unwrapped q :=
        fun q different => Function.update_of_ne different ..
      have moved : (sched.advance root).unwrapped root = sched.unwrapped root + pass (sched.task root).priority :=
        Function.update_self ..
      have wraps : (sched.advance root).Wraps := by
        intro q
        by_cases same : q = root
        · subst same
          have self : (sched.advance q).task q = { sched.task q with
              stride := (sched.task q).stride + BitVec.ofNat 32 (pass (sched.task q).priority) } :=
                Function.update_self ..
          rw [moved, BitVec.ofNat_add, ← pooled.wraps, self]
        · have other : (sched.advance root).task q = sched.task q := Function.update_of_ne same ..
          rw [kept q same, ← pooled.wraps, other]
      have close : forall p, p ∈ left.toList ++ right.toList -> forall q, q ∈ left.toList ++ right.toList ->
          (sched.advance root).Close bound p q := by
        intro p here q there
        unfold StrideSched.Close
        rw [kept p (under p here).1, kept q (under q there).1]
        exact pooled.close p (under p here).2 q (under q there).2
      have behind : forall {heap : SkewHeap Nat}, heap.toList ⊆ left.toList ++ right.toList ->
          heap.Ordered sched.Behind -> heap.Ordered (sched.advance root).Behind := by
        intro heap within before
        apply before.congr
        intro one here two there
        unfold StrideSched.Behind
        rw [kept one (under one (within here)).1, kept two (under two (within there)).1]
        exact id
      have number : sched.procNum = (left.toList ++ right.toList).length + 1 := by
        rw [pooled.number, split, List.length_cons, Nat.cast_succ]
      have removed : ((sched.advance root).dequeue root).pool =
          SkewHeap.merge (before (sched.advance root).task) left right := by
        change sched.pool.remove _ root = _
        rw [heap]
        exact SkewHeap.remove_top
      have perm : ((sched.advance root).dequeue root).pool.toList.Perm (left.toList ++ right.toList) := by
        rw [removed]
        exact SkewHeap.merge_perm ..
      unfold strideDequeue
      simp only [SkewHeap.top, meets_bind, meets_assert, meets_modify, meets_pure, meets_get]
      refine ⟨fun _ => ⟨fun _ => .inr ?_, fun broken => absurd ⟨?_, ?_⟩ broken⟩,
        fun zero => absurd (passes root member).1 zero⟩
      · have pool : forall q, q ∈ ((sched.advance root).dequeue root).pool.toList <->
            q ∈ sched.pool.toList /\ q ≠ root := by
          intro q
          rw [perm.mem_iff, split, List.mem_cons]
          constructor
          · exact fun below => ⟨.inr below, (under q below).1⟩
          · rintro ⟨same | below, different⟩
            · exact absurd same different
            · exact below
        refine ⟨⟨?_, wraps, ?_, ?_, ?_, ?_, ?_, ?_⟩, member, least, pool, ?_, unwrapped, rfl, rfl,
          fun q => (fields q).1, fun q => (fields q).2.2⟩
        · exact perm.nodup_iff.mpr apart.2
        · rw [removed]
          exact SkewHeap.merge_ordered (fun _ _ _ first second => first.trans second) (before_agrees wraps small close)
            (behind (List.subset_append_left ..) ordered.2.1) (behind (List.subset_append_right ..) ordered.2.2)
        · exact fun p here q there => close p (perm.subset here) q (perm.subset there)
        · exact fun p here => (fields p).1.trans (pooled.runnable p ((pool p).mp here).1)
        · exact fun p here => (fields p).2.1.trans (pooled.onRq p ((pool p).mp here).1)
        · exact fun here => pooled.busy ((pool _).mp here).1
        · rw [perm.length_eq]
          change sched.procNum - 1 = _
          omega
        · intro q here
          have different := ((pool q).mp here).2
          have there := ((pool q).mp here).1
          have below := least q there
          have near := pooled.close root member q there
          have cost := (passes root member).2
          change (sched.advance root).unwrapped root <= (sched.advance root).unwrapped q + bound /\
            (sched.advance root).unwrapped q <= (sched.advance root).unwrapped root + bound
          rw [moved, kept q different]
          unfold StrideSched.Close at near
          omega
      · exact (fields root).2.1.trans (pooled.onRq root member)
      · change sched.procNum > 0
        omega

end Pool

/-! ## The scheduler's step -/

/-- The process will be in the pool when the scheduler picks. -/
def StrideSched.Queued (sched : StrideSched) (proc : Nat) : Prop :=
  proc ∈ sched.pool.toList \/
    (proc = sched.current /\ proc ≠ sched.idleproc /\ (sched.task proc).state = .runnable)

/-- The running process is not in the pool, and close to it. -/
structure StrideSched.Running (bound : Nat) (sched : StrideSched) : Prop where
  pooled : sched.Pooled bound
  apart : sched.current ∉ sched.pool.toList
  near : sched.current ≠ sched.idleproc -> (sched.task sched.current).state ≠ .zombie ->
    forall q, q ∈ sched.pool.toList -> sched.Close bound sched.current q
  idle : (sched.task sched.idleproc).state = .runnable

/-- What `schedule` does: nothing is queued and the idle process runs, or the
queued process that is furthest behind runs and has been moved on. -/
structure StrideSched.Scheduled (sched after : StrideSched) : Prop where
  idleproc : after.idleproc = sched.idleproc
  state : forall q, (after.task q).state = (sched.task q).state
  priority : forall q, (after.task q).priority = (sched.task q).priority
  next : ((forall q, ¬ sched.Queued q) /\ after.current = sched.idleproc /\ after.unwrapped = sched.unwrapped /\
      after.pool.toList = []) \/
    (sched.Queued after.current /\ (forall q, sched.Queued q -> sched.unwrapped after.current <= sched.unwrapped q) /\
      (forall q, q ∈ after.pool.toList <-> sched.Queued q /\ q ≠ after.current) /\
      after.unwrapped = Function.update sched.unwrapped after.current
        (sched.unwrapped after.current + pass (sched.task after.current).priority))

section Scheduling

variable {sched : StrideSched} {bound : Nat}

/-- The end of `schedule`, from a pool with all that are queued. -/
theorem pick_meets {start : StrideSched} (pooled : sched.Pooled bound) (small : bound <= bigStride)
    (passes : forall p, start.Queued p -> (start.task p).priority ≠ 0 /\ pass (start.task p).priority <= bound)
    (pool : forall p, p ∈ sched.pool.toList <-> start.Queued p) (unwrapped : sched.unwrapped = start.unwrapped)
    (idleproc : sched.idleproc = start.idleproc) (idle : (start.task start.idleproc).state = .runnable)
    (state : forall p, (sched.task p).state = (start.task p).state)
    (priority : forall p, (sched.task p).priority = (start.task p).priority) :
    Meets pickNext sched
      ⟨fun next after => StrideSched.Running bound (after.switchTo next) /\ start.Scheduled (after.switchTo next),
        fun _ _ => False, fun _ => False⟩ := by
  refine (pickNext_meets pooled small fun p member => ?_).mono ?_ (fun _ _ failed => failed) (fun _ stopped => stopped)
  · rw [priority p]
    exact passes p ((pool p).mp member)
  · intro next after picked
    have alike := after.alike_switchTo next
    rcases picked with ⟨empty, rfl, rfl⟩ | picked
    · have nobody : forall q, ¬ start.Queued q := by
        intro q queued
        have member := (pool q).mpr queued
        rw [empty] at member
        exact List.not_mem_nil member
      refine ⟨⟨pooled.alike alike rfl rfl rfl rfl, pooled.busy, fun busy => absurd rfl busy, ?_⟩,
        ⟨idleproc, fun q => (alike q).state.trans (state q), fun q => (alike q).priority.trans (priority q),
          .inl ⟨nobody, idleproc, unwrapped, empty⟩⟩⟩
      refine (alike _).state.trans ((state _).trans ?_)
      change (start.task after.idleproc).state = _
      rw [idleproc]
      exact idle
    · have chosen := (pool next).mp picked.member
      refine ⟨⟨picked.pooled.alike alike rfl rfl rfl rfl, ?_, fun _ _ => picked.near, ?_⟩,
        ⟨picked.idleproc.trans idleproc, ?_, ?_, .inr ⟨chosen, ?_, ?_, ?_⟩⟩⟩
      · exact fun here => ((picked.pool next).mp here).2 rfl
      · refine (alike _).state.trans ((picked.state _).trans ((state _).trans ?_))
        change (start.task after.idleproc).state = _
        rw [picked.idleproc, idleproc]
        exact idle
      · exact fun q => (alike q).state.trans ((picked.state q).trans (state q))
      · exact fun q => (alike q).priority.trans ((picked.priority q).trans (priority q))
      · intro q queued
        rw [← unwrapped]
        exact picked.least q ((pool q).mpr queued)
      · exact fun q => (picked.pool q).trans (and_congr_left fun _ => pool q)
      · rw [← unwrapped]
        exact picked.unwrapped.trans (by rw [priority]; rfl)

/-- `schedule` picks a process with the least stride of those queued. -/
theorem schedule_meets (running : sched.Running bound) (small : bound <= bigStride)
    (passes : forall p, sched.Queued p -> (sched.task p).priority ≠ 0 /\ pass (sched.task p).priority <= bound) :
    Meets schedule sched
      ⟨fun _ after => after.Running bound /\ sched.Scheduled after, fun _ _ => False, fun _ => False⟩ := by
  have reset := sched.alike_clearResched
  have quiet : sched.clearResched.Pooled bound := running.pooled.alike reset rfl rfl rfl rfl
  have alone (all : forall q, q ∈ sched.pool.toList <-> sched.Queued q) :=
    pick_meets quiet small passes all rfl rfl running.idle (fun p => (reset p).state) (fun p => (reset p).priority)
  have current : (sched.clearResched.task sched.current).state = (sched.task sched.current).state := (reset _).state
  unfold schedule schedClassEnqueue strideEnqueue
  simp only [meets_bind, meets_modify, meets_get, meets_ite, meets_pure]
  split
  · rename_i runnable
    change (sched.clearResched.task sched.current).state = _ at runnable
    rw [current] at runnable
    split
    · rename_i busy
      change sched.current ≠ sched.idleproc at busy
      have near := running.near busy (by rw [runnable]; decide)
      have entered := quiet.enqueue small running.apart busy (current.trans runnable) near
      have perm : (sched.clearResched.enqueue sched.current).pool.toList.Perm (sched.current :: sched.pool.toList) :=
        SkewHeap.insert_perm ..
      have tasks : forall q, ((sched.clearResched.enqueue sched.current).task q).state = (sched.task q).state /\
          ((sched.clearResched.enqueue sched.current).task q).priority = (sched.task q).priority := by
        intro q
        have alike := reset q
        unfold StrideSched.enqueue
        dsimp only
        by_cases same : q = sched.current
        · subst same
          rw [StrideSched.task_setTask]
          exact ⟨alike.state, alike.priority⟩
        · rw [StrideSched.task_setTask_of_ne same]
          exact ⟨alike.state, alike.priority⟩
      refine pick_meets entered small passes ?_ rfl rfl running.idle (fun q => (tasks q).1) (fun q => (tasks q).2)
      intro q
      refine perm.mem_iff.trans ?_
      rw [List.mem_cons]
      constructor
      · rintro (rfl | old)
        · exact .inr ⟨rfl, busy, runnable⟩
        · exact .inl old
      · rintro (old | ⟨here, _⟩)
        · exact .inr old
        · exact .inl here
    · rename_i idle
      refine alone fun q => ⟨.inl, ?_⟩
      rintro (old | ⟨rfl, other, _⟩)
      · exact old
      · exact absurd other idle
  · rename_i asleep
    change ¬ (sched.clearResched.task sched.current).state = _ at asleep
    rw [current] at asleep
    refine alone fun q => ⟨.inl, ?_⟩
    rintro (old | ⟨rfl, _, awake⟩)
    · exact old
    · exact absurd awake asleep

end Scheduling

end Stride
end Ucore
