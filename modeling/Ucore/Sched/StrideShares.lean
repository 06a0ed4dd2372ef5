import Ucore.Sched.Stride
import Mathlib.Algebra.Order.Group.Int
import Mathlib.Algebra.Order.Group.Abs

namespace Ucore
namespace Stride

open Library
open Program
open Scheduler (Errno Fault)

/-!
# Shares of the stride scheduler

When all processes stay runnable, the strides of any two are never further
apart than one pass of the lowest priority.  So the picks of a process are in
proportion to its priority, however often the strides wrap.
-/

/-- `schedule`, so many times; the processes picked. -/
def schedules : Nat -> Call (List Nat)
  | 0 => pure []
  | count + 1 => do
      let picks <- schedules count
      schedule
      let sched <- get
      pure (sched.current :: picks)

/-- All the processes are in the pool, but for one that may be running, and have
the same stride, which may be any.  A priority of zero is left out:
`stride_pick_next` would divide by it. -/
structure StrideSched.Start (procs : List Nat) (sched : StrideSched) : Prop where
  members : forall p, p ∈ procs <-> sched.Queued p
  current : sched.current ≠ sched.idleproc -> sched.current ∈ procs
  runnable : forall p, p ∈ procs -> (sched.task p).state = .runnable
  once : sched.pool.toList.Nodup
  apart : sched.current ∉ sched.pool.toList
  busy : sched.idleproc ∉ sched.pool.toList
  onRq : forall p, p ∈ sched.pool.toList -> (sched.task p).onRq = true
  number : sched.procNum = sched.pool.toList.length
  idle : (sched.task sched.idleproc).state = .runnable
  counted : forall p, sched.unwrapped p = (sched.task p).stride.toNat
  equal : forall p, p ∈ procs -> forall q, q ∈ procs -> (sched.task p).stride = (sched.task q).stride
  priority : forall p, p ∈ procs -> 1 <= (sched.task p).priority

/-- Where the scheduler is after the picks. -/
structure StrideSched.Shared (procs : List Nat) (bound : Nat) (start : StrideSched) (picks : List Nat)
    (sched : StrideSched) : Prop where
  running : sched.Running bound
  members : forall p, p ∈ procs <-> sched.Queued p
  runnable : forall p, p ∈ procs -> (sched.task p).state = .runnable
  priority : forall p, (sched.task p).priority = (start.task p).priority
  passed : forall p, p ∈ procs ->
    sched.unwrapped p = start.unwrapped p + picks.count p * pass (start.task p).priority

section Sharing

variable {procs : List Nat} {start sched : StrideSched} {bound : Nat} {picks : List Nat}

/-- A higher priority has a smaller pass. -/
theorem pass_le {low high : Nat} (positive : 1 <= low) (ordered : low <= high) : pass high <= pass low :=
  Nat.div_le_div_left ordered positive

theorem pass_le_bigStride (priority : Nat) : pass priority <= bigStride := Nat.div_le_self ..

/-- Any two of the processes are close. -/
theorem StrideSched.Shared.close (shared : StrideSched.Shared procs bound start picks sched) {p q : Nat}
    (here : p ∈ procs)
    (there : q ∈ procs) : sched.Close bound p q := by
  have running := shared.running
  rcases (shared.members p).mp here with pooled | ⟨rfl, busy, runnable⟩
  · rcases (shared.members q).mp there with also | ⟨rfl, busy, runnable⟩
    · exact running.pooled.close p pooled q also
    · exact (running.near busy (by rw [runnable]; decide) p pooled).symm
  · rcases (shared.members q).mp there with pooled | ⟨rfl, _, _⟩
    · exact running.near busy (by rw [runnable]; decide) q pooled
    · exact ⟨Nat.le_add_right .., Nat.le_add_right ..⟩

theorem StrideSched.Start.shared (fresh : start.Start procs) : StrideSched.Shared procs bound start [] start := by
  have same : forall p, p ∈ procs -> forall q, q ∈ procs -> start.unwrapped p = start.unwrapped q := by
    intro p here q there
    rw [fresh.counted, fresh.counted, fresh.equal p here q there]
  have pooled : forall p, p ∈ start.pool.toList -> p ∈ procs := fun p member => (fresh.members p).mpr (.inl member)
  have close : forall p, p ∈ procs -> forall q, q ∈ procs -> start.Close bound p q := by
    intro p here q there
    unfold StrideSched.Close
    rw [same p here q there]
    exact ⟨Nat.le_add_right .., Nat.le_add_right ..⟩
  have ordered : forall heap : SkewHeap Nat, (forall p, p ∈ heap.toList -> p ∈ procs) -> heap.Ordered start.Behind := by
    intro heap within
    induction heap with
    | nil => trivial
    | node left root right leftHypothesis rightHypothesis =>
        refine ⟨fun p member => ?_, leftHypothesis fun p member => ?_, rightHypothesis fun p member => ?_⟩
        · exact Nat.le_of_eq
            (same root (within root (List.mem_cons_self ..)) p (within p (List.mem_cons_of_mem _ member)))
        · exact within p (List.mem_cons_of_mem _ (List.mem_append_left _ member))
        · exact within p (List.mem_cons_of_mem _ (List.mem_append_right _ member))
  refine ⟨⟨⟨fresh.once, ?_, ordered _ pooled, ?_, ?_, fresh.onRq, fresh.busy, fresh.number⟩, fresh.apart, ?_,
    fresh.idle⟩,
    fresh.members, fresh.runnable, fun _ => rfl, ?_⟩
  · intro p
    rw [fresh.counted, BitVec.ofNat_toNat, BitVec.setWidth_eq]
  · exact fun p here q there => close p (pooled p here) q (pooled q there)
  · exact fun p here => fresh.runnable p (pooled p here)
  · exact fun busy _ q there => close _ (fresh.current busy) q (pooled q there)
  · intro p _
    rw [List.count_nil, Nat.zero_mul, Nat.add_zero]

theorem StrideSched.Shared.schedule (shared : StrideSched.Shared procs bound start picks sched)
    (small : bound <= bigStride)
    (passes : forall p, p ∈ procs -> (start.task p).priority ≠ 0 /\ pass (start.task p).priority <= bound)
    (some : procs ≠ []) : Meets Stride.schedule sched
      ⟨fun _ after => StrideSched.Shared procs bound start (after.current :: picks) after, fun _ _ => False,
        fun _ => False⟩ := by
  refine (schedule_meets shared.running small fun p queued => ?_).mono ?_ (fun _ _ failed => failed)
    (fun _ stopped => stopped)
  · rw [shared.priority]
    exact passes p ((shared.members p).mpr queued)
  · rintro _ after ⟨running, scheduled⟩
    rcases scheduled.next with ⟨nobody, _⟩ | ⟨chosen, least, pool, unwrapped⟩
    · rcases List.exists_mem_of_ne_nil procs some with ⟨p, member⟩
      exact absurd ((shared.members p).mp member) (nobody p)
    · have next := (shared.members _).mpr chosen
      have state : forall p, p ∈ procs -> (after.task p).state = .runnable :=
        fun p member => (scheduled.state p).trans (shared.runnable p member)
      have busy : after.current ≠ after.idleproc := by
        rw [scheduled.idleproc]
        rcases chosen with pooled | ⟨_, busy, _⟩
        · exact fun same => shared.running.pooled.busy (same ▸ pooled)
        · exact busy
      refine ⟨running, ?_, state, fun p => (scheduled.priority p).trans (shared.priority p), ?_⟩
      · intro p
        rw [shared.members p]
        constructor
        · intro queued
          by_cases same : p = after.current
          · subst same
            exact .inr ⟨rfl, busy, state _ next⟩
          · exact .inl ((pool p).mpr ⟨queued, same⟩)
        · rintro (pooled | ⟨rfl, _, _⟩)
          · exact ((pool p).mp pooled).1
          · exact chosen
      · intro p member
        have passed := shared.passed p member
        rw [unwrapped, List.count_cons]
        by_cases same : p = after.current
        · subst same
          rw [Function.update_self, passed, shared.priority, if_pos (beq_self_eq_true _), Nat.add_mul, Nat.one_mul,
            Nat.add_assoc]
        · rw [Function.update_of_ne same, passed, if_neg (by rw [beq_iff_eq]; exact Ne.symm same), Nat.add_zero]

theorem schedules_shared (fresh : start.Start procs) (small : bound <= bigStride)
    (passes : forall p, p ∈ procs -> (start.task p).priority ≠ 0 /\ pass (start.task p).priority <= bound)
    (some : procs ≠ []) (count : Nat) : Meets (schedules count) start
      ⟨fun picks after => picks.length = count /\ StrideSched.Shared procs bound start picks after, fun _ _ => False,
        fun _ => False⟩ := by
  induction count with
  | zero => exact ⟨rfl, fresh.shared⟩
  | succ count inductionHypothesis =>
      rw [schedules]
      simp only [meets_bind, meets_get, meets_pure]
      refine inductionHypothesis.mono ?_ (fun _ _ failed => failed) (fun _ stopped => stopped)
      rintro picks middle ⟨length, shared⟩
      refine (shared.schedule small passes some).mono ?_ (fun _ _ failed => failed) (fun _ stopped => stopped)
      intro _ after next
      refine ⟨?_, next⟩
      rw [List.length_cons, length]

end Sharing

/-- Two processes, with the priorities 1 and 3, and the second running. -/
def twoProcs : StrideSched where
  task := fun p => ⟨.runnable, false, 0, 5, true, 0, if p = 2 then 3 else 1⟩
  current := 2
  idleproc := 0
  pool := .node .nil 1 .nil
  procNum := 1
  unwrapped := fun _ => 0

theorem twoProcs_start : twoProcs.Start [1, 2] where
  members := by
    intro p
    unfold StrideSched.Queued twoProcs SkewHeap.toList
    simp [SkewHeap.toList]
    omega
  current := fun _ => List.mem_cons_of_mem _ (List.mem_singleton_self _)
  runnable := fun _ _ => rfl
  once := List.nodup_singleton _
  apart := by decide
  busy := by decide
  onRq := fun _ _ => rfl
  number := rfl
  idle := rfl
  counted := fun _ => rfl
  equal := fun _ _ _ _ => rfl
  priority := by decide

end Stride
end Ucore
