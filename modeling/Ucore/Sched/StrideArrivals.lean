import Ucore.Library.Run
import Ucore.Sched.Stride

namespace Ucore
namespace Stride

open Library
open Program
open Scheduler (ProcState Errno Fault)

/-!
# Arrivals at the stride scheduler

A process that is forked starts with the stride 0, and one that wakes up still
has the stride it went to sleep with.  While all who arrive are close to those
in the pool and to the running process, the wrapped strides compare as the
unwrapped ones do.
-/

/-- `alloc_proc` -/
def Task.fresh : Task := ⟨.uninit, false, 0, 0, false, 0, 0⟩

def allocProc (proc : Nat) : Call Unit :=
  modify (fun sched => { sched.setTask proc Task.fresh with unwrapped := Function.update sched.unwrapped proc 0 })

/-- `lab6_set_priority`, for any process -/
def setPriority (proc priority : Nat) : Call Unit :=
  modify (fun sched => sched.setTask proc { sched.task proc with priority := if priority = 0 then 1 else priority })

inductive Event where
  | fork (child : Nat)
  | prioritise (proc priority : Nat)
  | sleep
  | exit
  | wakeup (proc : Nat)
  | tick
  | schedule

/-- The memory of the process is free. -/
def StrideSched.Free (sched : StrideSched) (proc : Nat) : Prop :=
  ((sched.task proc).state = .uninit \/ (sched.task proc).state = .zombie) /\ proc ≠ sched.current /\
    proc ≠ sched.idleproc

instance (sched : StrideSched) (proc : Nat) : Decidable (sched.Free proc) := inferInstanceAs (Decidable (_ /\ _))

/-- The event can happen. -/
def Event.Possible (sched : StrideSched) : Event -> Prop
  | .fork child => sched.Free child
  | .prioritise .. => True
  | .sleep => sched.current ≠ sched.idleproc /\ (sched.task sched.current).state = .runnable
  | .exit => sched.current ≠ sched.idleproc /\ (sched.task sched.current).state = .runnable
  | .wakeup proc => (sched.task proc).state ≠ .uninit
  | .tick => True
  | .schedule => True

instance (sched : StrideSched) (event : Event) : Decidable (event.Possible sched) := by
  cases event <;> unfold Event.Possible <;> infer_instance

/-- The running process goes to another state. -/
def setState (state : ProcState) : Call Unit :=
  modify (fun sched => sched.setTask sched.current { sched.task sched.current with state := state })

def Event.program : Event -> Call Unit
  | .fork child => do
      allocProc child
      wakeupProc child
  | .prioritise proc priority => setPriority proc priority
  | .sleep => setState .sleeping
  | .exit => setState .zombie
  | .wakeup proc => wakeupProc proc
  | .tick => do
      let sched <- get
      schedClassProcTick sched.current
  | .schedule => Stride.schedule

/-- Events that can happen; one that stops the machine has no next state. -/
def strides : Machine StrideSched Event where
  step sched event := if event.Possible sched then (event.program sched).state else none

/-- `proc_init`: only `idleproc` runs. -/
def boot : StrideSched where
  task := fun proc => if proc = 0 then { Task.fresh with state := .runnable } else Task.fresh
  current := 0
  idleproc := 0
  pool := .nil
  procNum := 0
  unwrapped := fun _ => 0

/-- A stride is close to those in the pool and to that of the running process,
if this one can enter the pool again. -/
def StrideSched.Arrives (sched : StrideSched) (stride : Nat) : Prop :=
  forall q, q ∈ sched.pool.toList \/ (q = sched.current /\ q ≠ sched.idleproc /\ (sched.task q).state ≠ .zombie) ->
    stride <= sched.unwrapped q + bigStride /\ sched.unwrapped q <= stride + bigStride

/-- Who arrives is close, and who can be picked has a priority.  A process that
slept while the others went on comes back with its old stride, which the 32-bit
difference may put on the wrong side. -/
def Event.Close (sched : StrideSched) : Event -> Prop
  | .fork _ => sched.Arrives 0
  | .wakeup proc => (sched.task proc).state = .sleeping -> proc ≠ sched.current -> sched.Arrives (sched.unwrapped proc)
  | .schedule => forall p, sched.Queued p -> 1 <= (sched.task p).priority
  | _ => True

instance (sched : StrideSched) (stride : Nat) : Decidable (sched.Arrives stride) :=
  decidable_of_iff ((forall q, q ∈ sched.pool.toList ->
      stride <= sched.unwrapped q + bigStride /\ sched.unwrapped q <= stride + bigStride) /\
      (sched.current ≠ sched.idleproc -> (sched.task sched.current).state ≠ .zombie ->
        stride <= sched.unwrapped sched.current + bigStride /\ sched.unwrapped sched.current <= stride + bigStride)) (by
    constructor
    · rintro both q (pooled | ⟨rfl, busy, alive⟩)
      · exact both.1 q pooled
      · exact both.2 busy alive
    · exact fun all => ⟨fun q pooled => all q (.inl pooled), fun busy alive => all _ (.inr ⟨rfl, busy, alive⟩)⟩)

instance (sched : StrideSched) : Decidable (forall p, sched.Queued p -> 1 <= (sched.task p).priority) :=
  decidable_of_iff ((forall p, p ∈ sched.pool.toList -> 1 <= (sched.task p).priority) /\
      (sched.current ≠ sched.idleproc -> (sched.task sched.current).state = .runnable ->
        1 <= (sched.task sched.current).priority)) (by
    constructor
    · rintro both p (pooled | ⟨rfl, busy, runnable⟩)
      · exact both.1 p pooled
      · exact both.2 busy runnable
    · exact fun all => ⟨fun p pooled => all p (.inl pooled), fun busy runnable => all _ (.inr ⟨rfl, busy, runnable⟩)⟩)

instance (sched : StrideSched) (event : Event) : Decidable (event.Close sched) := by
  cases event <;> unfold Event.Close <;> infer_instance

/-- The strides in the pool are close, they compare as the unwrapped ones do,
and the least is picked. -/
structure StrideSched.Compares (sched : StrideSched) : Prop where
  close : forall p, p ∈ sched.pool.toList -> forall q, q ∈ sched.pool.toList -> sched.Close bigStride p q
  comp : forall p, p ∈ sched.pool.toList -> forall q, q ∈ sched.pool.toList -> procStrideComp sched.task p q =
    if sched.unwrapped q < sched.unwrapped p then 1 else if sched.unwrapped p = sched.unwrapped q then 0 else -1
  least : forall next after, stridePickNext sched = .done (some next) after ->
    next ∈ sched.pool.toList /\ forall q, q ∈ sched.pool.toList -> sched.unwrapped next <= sched.unwrapped q

section Events

variable {sched : StrideSched} {bound : Nat}

theorem StrideSched.Running.compares (running : sched.Running bigStride) : sched.Compares where
  close := running.pooled.close
  comp := fun p here q there => procStrideComp_eq running.pooled.wraps (running.pooled.close p here q there)
  least := by
    intro next after picked
    have met : Meets stridePickNext sched ⟨fun found _ => found = sched.pool.top, fun _ _ => True, fun _ => True⟩ := by
      unfold stridePickNext
      simp only [meets_bind, meets_get]
      cases sched.pool.top with
      | none => rfl
      | some proc =>
          simp only [meets_bind, meets_assert, meets_modify, meets_pure]
          exact ⟨fun _ => trivial, fun _ => trivial⟩
    have top : sched.pool.top = some next := (met.of_done picked).symm
    have refl : forall p, sched.Behind p p := fun _ => Nat.le_refl _
    refine ⟨?_, running.pooled.ordered.top_below refl top⟩
    cases pool : sched.pool with
    | nil =>
        rw [pool] at top
        cases top
    | node left root right =>
        rw [pool] at top
        cases top
        exact List.mem_cons_self ..

/-- A change of the running process that keeps its stride. -/
theorem StrideSched.Running.setCurrent (running : sched.Running bound) {task : Task}
    (stride : task.stride = (sched.task sched.current).stride)
    (state : sched.current = sched.idleproc -> task.state = .runnable)
    (alive : task.state ≠ .zombie -> (sched.task sched.current).state ≠ .zombie) :
    (sched.setTask sched.current task).Running bound := by
  have self : (sched.setTask sched.current task).task sched.current = task := StrideSched.task_setTask ..
  have other : forall p, p ≠ sched.current -> (sched.setTask sched.current task).task p = sched.task p :=
    fun p different => StrideSched.task_setTask_of_ne different task
  refine ⟨running.pooled.retask ?_ ?_ rfl rfl rfl rfl, running.apart, ?_, ?_⟩
  · intro p
    by_cases same : p = sched.current
    · rw [same, self]
      exact stride
    · rw [other p same]
  · intro p member
    have different : p ≠ sched.current := fun same => running.apart (same ▸ member)
    rw [other p different]
    exact ⟨running.pooled.runnable p member, running.pooled.onRq p member⟩
  · intro busy living
    change ((sched.setTask sched.current task).task sched.current).state ≠ _ at living
    rw [self] at living
    exact running.near busy (alive living)
  · change ((sched.setTask sched.current task).task sched.idleproc).state = _
    by_cases same : sched.current = sched.idleproc
    · rw [← same, self]
      exact state same
    · rw [other _ (Ne.symm same)]
      exact running.idle

theorem StrideSched.Running.setPriority (running : sched.Running bound) (proc priority : Nat) :
    (sched.setTask proc { sched.task proc with priority := priority }).Running bound := by
  have fields : forall p, ((sched.setTask proc { sched.task proc with priority := priority }).task p).state =
      (sched.task p).state /\ ((sched.setTask proc { sched.task proc with priority := priority }).task p).onRq =
      (sched.task p).onRq /\ ((sched.setTask proc { sched.task proc with priority := priority }).task p).stride =
      (sched.task p).stride := by
    intro p
    by_cases same : p = proc
    · subst same
      rw [StrideSched.task_setTask]
      exact ⟨rfl, rfl, rfl⟩
    · rw [StrideSched.task_setTask_of_ne same]
      exact ⟨rfl, rfl, rfl⟩
  refine ⟨running.pooled.retask (fun p => (fields p).2.2) ?_ rfl rfl rfl rfl, running.apart, ?_,
    (fields _).1.trans running.idle⟩
  · intro p member
    rw [(fields p).1, (fields p).2.1]
    exact ⟨running.pooled.runnable p member, running.pooled.onRq p member⟩
  · exact fun busy alive => running.near busy fun dead => alive ((fields _).1.trans dead)

/-- A new process, not yet in the pool. -/
theorem StrideSched.Running.alloc (running : sched.Running bound) {proc : Nat} (free : sched.Free proc) :
    StrideSched.Running bound
      { sched.setTask proc Task.fresh with unwrapped := Function.update sched.unwrapped proc 0 } := by
  have absent : proc ∉ sched.pool.toList := by
    intro member
    have runnable := running.pooled.runnable proc member
    rcases free.1 with uninit | zombie
    · rw [uninit] at runnable
      cases runnable
    · rw [zombie] at runnable
      cases runnable
  have apart : forall p, p ∈ sched.pool.toList -> p ≠ proc := fun p member same => absent (same ▸ member)
  have task : forall p, p ≠ proc -> (sched.setTask proc Task.fresh).task p = sched.task p :=
    fun p different => StrideSched.task_setTask_of_ne different _
  have stride : forall p, p ≠ proc -> Function.update sched.unwrapped proc 0 p = sched.unwrapped p :=
    fun p different => Function.update_of_ne different ..
  have current : sched.current ≠ proc := Ne.symm free.2.1
  have idle : sched.idleproc ≠ proc := Ne.symm free.2.2
  have pooled := running.pooled
  refine ⟨⟨pooled.once, ?_, ?_, ?_, ?_, ?_, pooled.busy, pooled.number⟩, running.apart, ?_, ?_⟩
  · intro p
    change ((sched.setTask proc Task.fresh).task p).stride = BitVec.ofNat 32 (Function.update sched.unwrapped proc 0 p)
    by_cases same : p = proc
    · subst same
      rw [StrideSched.task_setTask, Function.update_self]
      rfl
    · rw [task p same, stride p same]
      exact pooled.wraps p
  · refine pooled.ordered.congr fun one here two there => ?_
    change _ -> Function.update sched.unwrapped proc 0 one <= Function.update sched.unwrapped proc 0 two
    rw [stride one (apart one here), stride two (apart two there)]
    exact id
  · intro p here q there
    change Function.update sched.unwrapped proc 0 p <= Function.update sched.unwrapped proc 0 q + bound /\
      Function.update sched.unwrapped proc 0 q <= Function.update sched.unwrapped proc 0 p + bound
    rw [stride p (apart p here), stride q (apart q there)]
    exact pooled.close p here q there
  · intro p here
    change ((sched.setTask proc Task.fresh).task p).state = _
    rw [task p (apart p here)]
    exact pooled.runnable p here
  · intro p here
    change ((sched.setTask proc Task.fresh).task p).onRq = _
    rw [task p (apart p here)]
    exact pooled.onRq p here
  · intro busy alive q there
    change ((sched.setTask proc Task.fresh).task sched.current).state ≠ _ at alive
    rw [task _ current] at alive
    change Function.update sched.unwrapped proc 0 sched.current <= Function.update sched.unwrapped proc 0 q + bound /\
      Function.update sched.unwrapped proc 0 q <= Function.update sched.unwrapped proc 0 sched.current + bound
    rw [stride _ current, stride q (apart q there)]
    exact running.near busy alive q there
  · change ((sched.setTask proc Task.fresh).task sched.idleproc).state = _
    rw [task _ idle]
    exact running.idle

/-- `wakeup_proc` of a process that is close, or running. -/
theorem wakeupProc_meets {proc : Nat} (running : sched.Running bigStride)
    (arrives : (sched.task proc).state ≠ .zombie -> (sched.task proc).state ≠ .runnable -> proc ≠ sched.current ->
      sched.Arrives (sched.unwrapped proc)) :
    Meets (wakeupProc proc) sched
      ⟨fun _ after => after.Running bigStride, fun _ _ => False, fun _ => (sched.task proc).state = .zombie⟩ := by
  unfold wakeupProc schedClassEnqueue strideEnqueue
  simp only [meets_bind, meets_get, meets_assert, meets_ite, meets_modify, meets_pure]
  refine ⟨fun alive => ?_, fun dead => not_not.mp dead⟩
  split
  · rename_i asleep
    by_cases here : proc = sched.current
    · rw [if_neg (not_not.mpr here)]
      subst here
      exact running.setCurrent rfl (fun _ => rfl) (fun _ => alive)
    · rw [if_pos here]
      have absent : proc ∉ sched.pool.toList := fun member => asleep (running.pooled.runnable proc member)
      have busy : proc ≠ sched.idleproc := fun same => asleep (same ▸ running.idle)
      have near := arrives alive asleep here
      have task : forall p, p ≠ proc ->
          (sched.setTask proc { sched.task proc with state := .runnable }).task p = sched.task p :=
        fun p different => StrideSched.task_setTask_of_ne different _
      have apart : forall p, p ∈ sched.pool.toList -> p ≠ proc := fun p member same => absent (same ▸ member)
      have awake : (sched.setTask proc { sched.task proc with state := .runnable }).Pooled bigStride := by
        refine running.pooled.retask ?_ ?_ rfl rfl rfl rfl
        · intro p
          by_cases same : p = proc
          · subst same
            rw [StrideSched.task_setTask]
          · rw [task p same]
        · intro p member
          rw [task p (apart p member)]
          exact ⟨running.pooled.runnable p member, running.pooled.onRq p member⟩
      have entered := awake.enqueue (Nat.le_refl _) absent busy
        (congrArg Task.state (StrideSched.task_setTask ..)) fun q member => near q (.inl member)
      have perm : ((sched.setTask proc { sched.task proc with state := .runnable }).enqueue proc).pool.toList.Perm
          (proc :: sched.pool.toList) := SkewHeap.insert_perm ..
      have others : forall p, p ≠ proc ->
          ((sched.setTask proc { sched.task proc with state := .runnable }).enqueue proc).task p = sched.task p :=
        fun p different => (Function.update_of_ne different ..).trans (task p different)
      have elsewhere : proc ≠ (sched.setTask proc { sched.task proc with state := .runnable }).idleproc := busy
      rw [if_pos elsewhere]
      refine ⟨entered, ?_, ?_, ?_⟩
      · intro member
        rcases List.mem_cons.mp (perm.subset member) with same | old
        · exact here same.symm
        · exact running.apart old
      · intro other living q member
        change (((sched.setTask proc { sched.task proc with state := .runnable }).enqueue proc).task
          sched.current).state ≠ _ at living
        rw [others _ (Ne.symm here)] at living
        rcases List.mem_cons.mp (perm.subset member) with rfl | old
        · exact (near sched.current (.inr ⟨rfl, other, living⟩)).symm
        · exact running.near other living q old
      · change (((sched.setTask proc { sched.task proc with state := .runnable }).enqueue proc).task
          sched.idleproc).state = _
        rw [others _ (Ne.symm busy)]
        exact running.idle
  · exact running

/-- An event keeps the pool in order, if who arrives is close. -/
theorem Event.program_meets (event : Event) (running : sched.Running bigStride) (possible : event.Possible sched)
    (close : event.Close sched) :
    Meets event.program sched ⟨fun _ after => after.Running bigStride, fun _ _ => False, fun _ => True⟩ := by
  cases event with
  | prioritise proc priority => exact running.setPriority proc _
  | sleep =>
      refine running.setCurrent rfl (fun idle => absurd idle possible.1) fun _ => ?_
      rw [possible.2]
      exact fun dead => nomatch dead
  | exit => exact running.setCurrent rfl (fun idle => absurd idle possible.1) fun alive => absurd rfl alive
  | tick =>
      unfold Event.program schedClassProcTick strideProcTick
      simp only [meets_bind, meets_get, meets_ite, meets_modify]
      split
      · rename_i busy
        exact running.setCurrent rfl (fun idle => absurd idle busy) fun alive => alive
      · rename_i idle
        refine running.setCurrent rfl (fun _ => ?_) fun alive => alive
        rw [not_not.mp idle]
        exact running.idle
  | wakeup proc =>
      refine (wakeupProc_meets running fun alive asleep elsewhere => ?_).mono (fun _ _ kept => kept)
        (fun _ _ failed => failed) (fun _ _ => trivial)
      refine close ?_ elsewhere
      cases state : (sched.task proc).state with
      | uninit => exact absurd state possible
      | sleeping => rfl
      | runnable => exact absurd state asleep
      | zombie => exact absurd state alive
  | fork child =>
      unfold Event.program allocProc
      simp only [meets_bind, meets_modify]
      refine (wakeupProc_meets (running.alloc possible) fun _ _ _ => ?_).mono (fun _ _ kept => kept)
        (fun _ _ failed => failed) (fun _ _ => trivial)
      intro q there
      change Function.update sched.unwrapped child 0 child <= Function.update sched.unwrapped child 0 q + bigStride /\
        Function.update sched.unwrapped child 0 q <= Function.update sched.unwrapped child 0 child + bigStride
      have different : q ≠ child := by
        rintro rfl
        rcases there with pooled | ⟨here, _⟩
        · have runnable := running.pooled.runnable q pooled
          rcases possible.1 with uninit | zombie
          · rw [uninit] at runnable
            cases runnable
          · rw [zombie] at runnable
            cases runnable
        · exact possible.2.1 here
      rw [Function.update_self, Function.update_of_ne different]
      refine close q (there.imp_right fun running => ⟨running.1, running.2.1, ?_⟩)
      have task : (sched.setTask child Task.fresh).task q = sched.task q := StrideSched.task_setTask_of_ne different _
      rw [← task]
      exact running.2.2
  | schedule =>
      refine (schedule_meets running (Nat.le_refl _) fun p queued => ⟨?_, Nat.div_le_self ..⟩).mono
        (fun _ _ both => both.1) (fun _ _ failed => failed) (fun _ stopped => stopped.elim)
      exact Nat.one_le_iff_ne_zero.mp (close p queued)

end Events

theorem boot_running : boot.Running bigStride where
  pooled := ⟨List.nodup_nil, by
      intro p
      unfold boot Task.fresh
      dsimp only
      split <;> rfl,
    trivial, fun _ member => absurd member List.not_mem_nil, fun _ member => absurd member List.not_mem_nil,
    fun _ member => absurd member List.not_mem_nil, List.not_mem_nil, rfl⟩
  apart := List.not_mem_nil
  near := fun _ _ _ member => absurd member List.not_mem_nil
  idle := rfl

/-- While all who arrive are close, the strides compare as the unwrapped ones
do, and the least is picked. -/
theorem run_keeps_comparison {events : List Event} {sched : StrideSched}
    (close : strides.Along (fun sched event => event.Close sched) boot events)
    (ran : strides.run boot events = some sched) :
    sched.Compares := by
  have running : sched.Running bigStride := by
    refine Machine.run_invariant (fun before event after running close stepped => ?_) boot_running close ran
    change (if event.Possible before then _ else none) = some after at stepped
    split at stepped
    · rename_i possible
      have met := event.program_meets running possible close
      cases result : event.program before with
      | done value next =>
          rw [result] at stepped
          cases stepped
          exact met.of_done result
      | fail error next =>
          exact (met.of_fail result).elim
      | stop fault =>
          rw [result] at stepped
          cases stepped
    · cases stepped
  exact running.compares

/-- Two processes of which one sleeps and wakes up. -/
def sleepAndWake : List Event :=
  [.fork 1, .prioritise 1 2, .schedule, .fork 2, .prioritise 2 1, .sleep, .schedule, .wakeup 1]

theorem sleepAndWake_runs : (strides.run boot sleepAndWake).isSome = true := by decide +kernel

theorem sleepAndWake_compares : Exists fun sched => strides.run boot sleepAndWake = some sched /\ sched.Compares := by
  rcases Option.isSome_iff_exists.mp sleepAndWake_runs with ⟨sched, ran⟩
  have close : strides.Along (fun sched event => event.Close sched) boot sleepAndWake := by decide +kernel
  exact ⟨sched, ran, run_keeps_comparison close ran⟩

/-- The first process passes three times before two others are forked, and
sleeps while one of these runs. -/
def passAndFork : List Event :=
  [.fork 1, .prioritise 1 1, .schedule, .schedule, .schedule, .fork 2, .prioritise 2 1, .fork 3, .prioritise 3 1,
    .sleep,
    .schedule, .wakeup 1]

/-- The first and the second process are in the pool, three passes apart. -/
theorem passAndFork_breaks : Exists fun sched => strides.run boot passAndFork = some sched /\
    ¬ sched.Compares := by
  have pooled : (strides.run boot passAndFork).map (fun sched => sched.pool.toList) = some [1, 2] := by decide +kernel
  have first : (strides.run boot passAndFork).map (fun sched => sched.unwrapped 1) = some (3 * bigStride) := by
    decide +kernel
  have second : (strides.run boot passAndFork).map (fun sched => sched.unwrapped 2) = some 0 := by decide +kernel
  rcases Option.map_eq_some_iff.mp pooled with ⟨sched, ran, pool⟩
  rw [ran] at first second
  refine ⟨sched, ran, fun compares => ?_⟩
  have far := (compares.close 1 (by rw [pool]; decide) 2 (by rw [pool]; decide)).1
  have one : sched.unwrapped 1 = 3 * bigStride := Option.some.inj first
  have two : sched.unwrapped 2 = 0 := Option.some.inj second
  rw [one, two] at far
  exact absurd far (by decide)

end Stride
end Ucore
