import Ucore.Sync.Monitor

namespace Ucore
namespace Monitor

open Library
open Threads

/-!
# One process in the monitor

There is one right to be in the monitor.  It is in the value of a semaphore,
under way to a process taken out of a wait queue, or with the process that is
active.  So when `cond_signal` gives it to a condition variable, the next
process in the monitor is one that waits for that variable.
-/

variable {Process Condition Local Shared : Type}
  {routine : Process -> Local -> Shared -> Shared × Command Condition Local}
  {state next : State Process Condition Local Shared} {process : Process}

def active (state : State Process Condition Local Shared) (process : Process) : Bool :=
  (state.thread process).control.active

/-- Taken out of a wait queue, and not yet run -/
def released (state : State Process Condition Local Shared) (process : Process) : Bool :=
  (state.thread process).sleep = .woken

/-- The share of a process in the right to be in the monitor. -/
def share (state : State Process Condition Local Shared) (process : Process) : Int :=
  (if active state process then 1 else 0) + if released state process then 1 else 0

theorem share_nonneg (state : State Process Condition Local Shared) (process : Process) : 0 <= share state process := by
  unfold share
  split <;> split <;> decide

theorem share_pos {state : State Process Condition Local Shared} {process : Process}
    (holds : active state process = true \/ released state process = true) : 0 < share state process := by
  unfold share
  rcases holds with holds | holds <;> rw [if_pos holds] <;> split <;> decide

/-! ## The stages -/

variable [DecidableEq Condition]

/-- A process at an `act` is in the monitor. -/
theorem active_of_act {stage : Stage Condition Local} {effect : Data Condition Shared ->
    Data Condition Shared × Stage Condition Local} (op : code routine process stage = .act effect) :
    stage.active = true := by
  cases stage <;> first | rfl | cases op

/-- A process that waits is before the `down` of `cond_wait`, if another is in
the monitor. -/
theorem waits_suspend {condition : Condition} {stage : Stage Condition Local} (waits : stage.waits condition = true)
    (outside : stage.active = false) : Exists fun rest => stage = .suspend condition rest := by
  cases stage with
  | suspend other rest => exact ⟨rest, congrArg (Stage.suspend · rest) (of_decide_eq_true waits)⟩
  | _ => first | cases waits | cases outside

theorem down_cv {condition : Condition} {stage after : Stage Condition Local}
    (op : code routine process stage = .down (.cv condition) after) :
    Exists fun rest => stage = .suspend condition rest /\ after = .resume condition rest := by
  cases stage <;> cases op
  exact ⟨_, rfl, rfl⟩

/-- A process at an `up` is in the monitor. -/
theorem active_of_up {stage after : Stage Condition Local} {gate : Gate Condition}
    (op : code routine process stage = .up gate after) : stage.active = true := by
  cases stage <;> first | rfl | cases op

theorem flight_one (queued : Queued (code routine) state) (process : Process) :
    flight (code routine) (fun _ => 1) process (state.thread process) = if released state process then 1 else 0 := by
  unfold released flight
  split
  · rename_i woken _
    rw [woken]
    rfl
  · rename_i other
    split
    · rename_i woken
      have asleep := of_decide_eq_true woken
      rcases queued.slept process (by rw [asleep]; decide) with ⟨sem, after, op⟩
      exact absurd op (other sem after asleep)
    · rfl

/-! ## The invariant -/

variable [Fintype Process]

/-- A count of processes that no semaphore takes part in. -/
theorem holdings_zero (holds : Stage Condition Local -> Bool) (thread : Process -> Thread (Stage Condition Local)) :
    holdings (code routine) (fun _ => 0) (fun _ stage => if holds stage then 1 else 0) thread =
      (Finset.univ.filter (fun process => holds (thread process).control)).card := by
  have none : forall process, flight (code routine) (fun _ => 0) process (thread process) = 0 := by
    intro process
    unfold flight
    split <;> rfl
  unfold holdings
  simp only [none, Int.add_zero, Finset.sum_boole]

variable [Fintype Condition]

structure Invariant (routine : Process -> Local -> Shared -> Shared × Command Condition Local)
    (state : State Process Condition Local Shared) : Prop where
  queued : Queued (code routine) state
  token : total (code routine) token state = 1
  signals : total (code routine) signalling state = 0
  waits : forall condition, total (code routine) (waiting condition) state = 0
  /-- Before `up(&(cvp->sem))` a process is known to wait. -/
  found : forall process condition rest, (state.thread process).control = .announce condition rest \/
    (state.thread process).control = .release condition rest -> 0 < state.data.count condition

theorem invariant_monitorInit (shared : Shared) (routines : Process -> Local) :
    Invariant routine (monitorInit shared routines : State Process Condition Local Shared) where
  queued := by
    apply queued_start
    · exact fun _ => rfl
    · intro gate
      cases gate <;> rfl
    · intro gate
      cases gate with
      | mutex => exact Int.le_of_lt Int.one_pos
      | _ => exact Int.le_refl 0
  token := by
    have values : semaphores (fun _ => 1) (monitorInit shared routines : State Process Condition Local Shared).sem =
      1 := by
      unfold semaphores
      rw [Finset.sum_eq_single Gate.mutex]
      · rfl
      · intro gate _ other
        cases gate with
        | mutex => exact absurd rfl other
        | _ => rfl
      · exact fun absent => absurd (Finset.mem_univ _) absent
    rw [total_start (fun _ => rfl) (fun _ => rfl)]
    unfold token
    rw [values]
    rfl
  signals := by
    rw [total_start (fun _ => rfl) (fun _ => rfl)]
    unfold signalling
    rw [semaphores_zero]
    rfl
  waits := fun condition => by
    rw [total_start (fun _ => rfl) (fun _ => rfl)]
    unfold waiting
    rw [semaphores_zero]
    rfl
  found := fun process condition rest stage => by
    rcases stage with stage | stage <;> cases stage

/-! ## The right to be in the monitor -/

theorem Invariant.sum (invariant : Invariant routine state) :
    ∑ gate, (state.sem gate).value + ∑ process, share state process = 1 := by
  have total := invariant.token
  unfold Threads.total semaphores holdings Monitor.token at total
  simp only [one_mul, zero_add, flight_one invariant.queued] at total
  exact total

variable [DecidableEq Process]

/-- A process with a share is the only one, and no semaphore has a unit. -/
theorem Invariant.holder (invariant : Invariant routine state)
    (holds : active state process = true \/ released state process = true) :
    (forall gate, (state.sem gate).value = 0) /\ forall other,
      active state other = true \/ released state other = true -> other = process := by
  have sum := invariant.sum
  have mine := share_pos holds
  have nonneg := fun gate (_ : gate ∈ Finset.univ) => invariant.queued.nonnegative gate
  have shares := Finset.single_le_sum (fun other _ => share_nonneg state other) (Finset.mem_univ process)
  constructor
  · intro gate
    have value := Finset.single_le_sum nonneg (Finset.mem_univ gate)
    have low := invariant.queued.nonnegative gate
    omega
  · intro other holdsToo
    by_contra different
    have pair := pair_le_sum (share_nonneg state) different
    have yours := share_pos holdsToo
    have values := Finset.sum_nonneg nonneg
    omega

/-- A semaphore with a unit is the only one, and no process has a share. -/
theorem Invariant.unit (invariant : Invariant routine state) {gate : Gate Condition}
    (unit : 0 < (state.sem gate).value) :
    (forall other, 0 < (state.sem other).value -> other = gate) /\ forall process,
      active state process = false /\ released state process = false := by
  constructor
  · intro other unitToo
    by_contra different
    have pair := pair_le_sum invariant.queued.nonnegative different
    have sum := invariant.sum
    have shares := Finset.sum_nonneg (fun other (_ : other ∈ Finset.univ) => share_nonneg state other)
    omega
  · intro process
    constructor
    · by_contra holds
      have empty := (invariant.holder (.inl (Bool.eq_true_of_not_eq_false holds))).1 gate
      omega
    · by_contra holds
      have empty := (invariant.holder (.inr (Bool.eq_true_of_not_eq_false holds))).1 gate
      omega

/-! ## Steps -/

/-- The counters are stable while another process is in the monitor. -/
theorem Invariant.stable (invariant : Invariant routine state) {other : Process}
    (holds : active state other = true) (different : process ≠ other)
    (ran : step (code routine) state process = some next) : next.data = state.data := by
  apply step_data ran
  intro effect op
  exact different ((invariant.holder (.inl holds)).2 process (.inl (active_of_act op)))

/-- A process comes to `up(&(cvp->sem))` through the test of `count`. -/
theorem found_step (invariant : Invariant routine state) (ran : step (code routine) state process = some next)
    {condition : Condition} {rest : Local} (stage : (next.thread process).control = .announce condition rest \/
      (next.thread process).control = .release condition rest) : 0 < next.data.count condition := by
  cases here : (state.thread process).control with
  | signal other local_ =>
      have moved := step_act ran (by rw [here]; rfl)
      subst moved
      simp only [setThread, Function.update_self] at stage ⊢
      by_cases waits : state.data.count other > 0
      · rw [if_pos waits] at stage
        rcases stage with same | clash
        · cases same
          exact waits
        · cases clash
      · rw [if_neg waits] at stage
        rcases stage with clash | clash <;> cases clash
  | announce other local_ =>
      have moved := step_act ran (by rw [here]; rfl)
      subst moved
      simp only [setThread, Function.update_self] at stage ⊢
      rcases stage with clash | same
      · cases clash
      · cases same
        exact invariant.found process condition rest (.inl here)
  | inside local_ =>
      have self := step_self ran
      rw [here] at self
      rcases stage with stage | stage <;> rw [stage] at self <;>
        cases command : (routine process local_ state.data.shared).2 <;>
        simp only [code, command, Command.stage, reduceCtorEq] at self
  | _ =>
      have self := step_self ran
      rw [here] at self
      rcases stage with stage | stage <;> rw [stage] at self <;> simp only [code, reduceCtorEq, or_self] at self

theorem Invariant.step (invariant : Invariant routine state) (ran : step (code routine) state process = some next) :
    Invariant routine next where
  queued := invariant.queued.step ran
  token := (total_step invariant.queued token_balanced ran).trans invariant.token
  signals := (total_step invariant.queued signalling_balanced ran).trans invariant.signals
  waits := fun condition =>
    (total_step invariant.queued (waiting_balanced condition) ran).trans (invariant.waits condition)
  found := fun other condition rest stage => by
    by_cases same : other = process
    · subst same
      exact found_step invariant ran stage
    · have before := step_other ran same
      rw [before] at stage
      have holds : active state other = true := by
        unfold active
        rcases stage with stage | stage <;> rw [stage] <;> rfl
      rw [invariant.stable holds (Ne.symm same) ran]
      exact invariant.found other condition rest stage

/-! ## What the invariant says -/

/-- At most one process is in the monitor, and the counters count what they
are for. -/
structure Sound (state : State Process Condition Local Shared) : Prop where
  exclusive : forall first second, active state first = true -> active state second = true -> first = second
  token : (state.sem .mutex).value +
    (∑ gate ∈ Finset.univ.erase .mutex, (state.sem gate).value + (Finset.univ.filter (released state ·)).card) +
    (Finset.univ.filter (active state ·)).card = 1
  signals : state.data.nextCount = (Finset.univ.filter (fun process => (state.thread process).control.signals)).card
  waits : forall condition, state.data.count condition =
    (Finset.univ.filter (fun process => (state.thread process).control.waits condition)).card

theorem Invariant.sound (invariant : Invariant routine state) : Sound state where
  exclusive := fun first second holds holdsToo => ((invariant.holder (.inl holdsToo)).2 first (.inl holds))
  token := by
    have sum := invariant.sum
    unfold share at sum
    rw [Finset.sum_add_distrib, Finset.sum_boole, Finset.sum_boole,
      ← Finset.add_sum_erase _ (fun gate => (state.sem gate).value) (Finset.mem_univ .mutex)] at sum
    omega
  signals := by
    have total := invariant.signals
    unfold Threads.total signalling at total
    dsimp only at total
    rw [semaphores_zero, holdings_zero] at total
    omega
  waits := fun condition => by
    have total := invariant.waits condition
    unfold Threads.total waiting at total
    dsimp only at total
    rw [semaphores_zero, holdings_zero (fun stage => stage.waits condition)] at total
    omega

theorem invariant_run {shared : Shared} {routines : Process -> Local} {schedule : List Process}
    (ran : (machine (code routine)).run (monitorInit shared routines) schedule = some state) :
    Invariant routine state :=
  Machine.run_invariant_always (fun _ _ _ invariant stepped => invariant.step stepped)
    (invariant_monitorInit shared routines) ran

/-! ## Signals -/

/-- No process is in the monitor. -/
def Quiet (state : State Process Condition Local Shared) : Prop := forall process, active state process = false

/-- A process that waits for the condition variable has the right to go on, or
can take it. -/
def Ready (condition : Condition) (state : State Process Condition Local Shared) : Prop :=
  Exists fun process => Exists fun rest => (state.thread process).control = .suspend condition rest /\
    ((state.thread process).sleep = .woken \/
      ((state.thread process).sleep = .awake /\ 0 < (state.sem (.cv condition)).value))

/-- The monitor is left to those that wait for the variable, or one of them is
the process in the monitor. -/
def Given (condition : Condition) (state : State Process Condition Local Shared) : Prop :=
  (Quiet state /\ Ready condition state) \/
    Exists fun waiter => Exists fun rest => state.thread waiter = ⟨.resume condition rest, .awake⟩

/-- The `up` of `cond_signal` leaves the monitor to those that wait. -/
theorem release_ready (invariant : Invariant routine state) {condition : Condition} {rest : Local}
    (stage : (state.thread process).control = .release condition rest)
    (ran : step (code routine) state process = some next) : Quiet next /\ Ready condition next := by
  have holds : active state process = true := by
    unfold active
    rw [stage]
    rfl
  have op : code routine process (state.thread process).control = .up (.cv condition) (.yield rest) := by
    rw [stage]
    rfl
  have alone := (invariant.holder (.inl holds)).2
  have count := invariant.found process condition rest (.inr stage)
  rw [invariant.sound.waits condition, Int.natCast_pos, Finset.card_pos] at count
  rcases count with ⟨waiter, found⟩
  have waits := (Finset.mem_filter.mp found).2
  have other : waiter ≠ process := by
    rintro rfl
    rw [stage] at waits
    cases waits
  have outside : active state waiter = false := by
    by_contra inside
    exact other (alone waiter (.inl (Bool.eq_true_of_not_eq_false inside)))
  rcases waits_suspend waits outside with ⟨waiterRest, suspended⟩
  constructor
  · intro any
    unfold active
    by_cases same : any = process
    · have self := step_self ran
      rw [op] at self
      rw [same, self]
      rfl
    · rw [step_other ran same]
      by_contra inside
      exact same (alone any (.inl (Bool.eq_true_of_not_eq_false inside)))
  · cases stepped ran with
    | raise gate after sleep same empty =>
        cases op.symm.trans same
        refine ⟨waiter, waiterRest, ?_, .inr ⟨?_, ?_⟩⟩
        · rw [step_other ran other]
          exact suspended
        · change (Function.update state.thread process _ waiter).sleep = .awake
          rw [Function.update_of_ne other]
          cases asleep : (state.thread waiter).sleep with
          | awake => rfl
          | woken => exact absurd (alone waiter (.inr (decide_eq_true asleep))) other
          | asleep =>
              have queued := (invariant.queued.member (.cv condition) waiter).mpr
                ⟨asleep, .resume condition waiterRest, by rw [suspended]; rfl⟩
              rw [empty] at queued
              cases queued
        · change 0 < (Function.update state.sem (.cv condition) _ (.cv condition)).value
          rw [Function.update_self]
          have nonneg := invariant.queued.nonnegative (.cv condition)
          dsimp only
          omega
    | hand gate after first others sleep same waiting =>
        cases op.symm.trans same
        rcases invariant.queued.first waiting with ⟨asleep, later, firstOp⟩
        rcases down_cv firstOp with ⟨firstRest, firstStage, _⟩
        have notFirst : first ≠ process := by
          rintro rfl
          rw [sleep] at asleep
          cases asleep
        refine ⟨first, firstRest, ?_, .inl ?_⟩
        · rw [step_other ran notFirst]
          exact firstStage
        · change (Function.update (Function.update state.thread first _) process _ first).sleep = .woken
          rw [Function.update_of_ne notFirst, Function.update_self]
    | resume _ _ _ same => cases op.symm.trans same
    | take _ _ _ same _ => cases op.symm.trans same
    | block _ _ _ same _ => cases op.symm.trans same
    | act _ _ same => cases op.symm.trans same

/-- A step while the monitor is left to those that wait: one of them goes on,
or nothing of it changes. -/
theorem ready_step (invariant : Invariant routine state) {condition : Condition} (quiet : Quiet state)
    (ready : Ready condition state) (ran : step (code routine) state process = some next) :
    Given condition next := by
  rcases ready with ⟨waiter, rest, suspended, right⟩
  cases stepped ran with
  | resume gate after sleep op =>
      right
      have holder := invariant.holder (.inr (decide_eq_true sleep))
      have same : waiter = process := by
        rcases right with woken | ⟨_, value⟩
        · exact holder.2 waiter (.inr (decide_eq_true woken))
        · have empty := holder.1 (.cv condition)
          omega
      rw [← same, suspended] at op
      cases op
      exact ⟨process, rest, Function.update_self ..⟩
  | take gate after sleep op positive =>
      right
      rcases right with woken | ⟨_, value⟩
      · have empty := (invariant.holder (.inr (decide_eq_true woken))).1 gate
        omega
      · have same := (invariant.unit value).1 gate positive
        rw [same] at op
        rcases down_cv op with ⟨other, _, later⟩
        exact ⟨process, other, later ▸ Function.update_self ..⟩
  | block gate after sleep op empty =>
      left
      have other : waiter ≠ process := by
        rintro rfl
        rcases right with woken | ⟨_, value⟩
        · rw [sleep] at woken
          cases woken
        · rw [suspended] at op
          cases op
          exact empty value
      constructor
      · intro any
        unfold active
        by_cases same : any = process
        · rw [same]
          change (Function.update state.thread process _ process).control.active = false
          rw [Function.update_self]
          exact quiet process
        · rw [step_other ran same]
          exact quiet any
      · refine ⟨waiter, rest, (step_other ran other).trans suspended, ?_⟩
        change (Function.update state.thread process _ waiter).sleep = .woken \/
          ((Function.update state.thread process _ waiter).sleep = .awake /\
            0 < (Function.update state.sem gate _ (.cv condition)).value)
        rw [Function.update_of_ne other]
        refine right.imp_right (fun awake => ⟨awake.1, ?_⟩)
        by_cases same : Gate.cv condition = gate
        · rw [same, Function.update_self]
          exact same ▸ awake.2
        · rw [Function.update_of_ne same]
          exact awake.2
  | raise gate after sleep op _ => exact absurd (active_of_up op) (Bool.eq_false_iff.mp (quiet process))
  | hand gate after _ _ sleep op _ => exact absurd (active_of_up op) (Bool.eq_false_iff.mp (quiet process))
  | act effect sleep op => exact absurd (active_of_act op) (Bool.eq_false_iff.mp (quiet process))

/-- In every interleaving of any routines at most one process is in the
monitor; and once `cond_signal` has found a waiter, the next process in the
monitor is one that waits for that variable. -/
theorem monitor_excludes (routine : Process -> Local -> Shared -> Shared × Command Condition Local) (shared : Shared)
    (routines : Process -> Local) (schedule : List Process)
    (ran : (machine (code routine)).run (monitorInit shared routines) schedule = some state) :
    Sound state /\ forall process condition rest, (state.thread process).control = .release condition rest ->
      forall next, step (code routine) state process = some next ->
        forall later last, (machine (code routine)).Along (fun state _ => Quiet state) next later ->
          (machine (code routine)).run next later = some last -> Given condition last := by
  have invariant := invariant_run ran
  refine ⟨invariant.sound, ?_⟩
  intro process condition rest stage next released later last along ranToo
  have kept : (fun state => Invariant routine state /\ Given condition state) last := by
    apply Machine.run_invariant _ _ along ranToo
    · rintro before process after ⟨holds, ready | ⟨waiter, rest, resumed⟩⟩ quiet stepped
      · exact ⟨holds.step stepped, ready_step holds quiet ready.2 stepped⟩
      · have inside := quiet waiter
        unfold active at inside
        rw [resumed] at inside
        cases inside
    · exact ⟨invariant.step released, .inl (release_ready invariant stage released)⟩
  exact kept.2

/-! ## A waiter and a signaller -/

/-- One process waits for the variable, the other one signals it. -/
def waitOrSignal (process : Fin 2) (again : Bool) (shared : Unit) : Unit × Command (Fin 1) Bool :=
  (shared, if again then .leave false else if process = 0 then .condWait 0 true else .condSignal 0 true)

def signalled : State (Fin 2) (Fin 1) Bool Unit :=
  ((machine (code waitOrSignal)).run (monitorInit () (fun _ => false)) [0, 0, 0, 0, 0, 0, 1, 1, 1, 1]).get (by decide)

theorem signalled_excludes : Sound signalled /\
    forall next, step (code waitOrSignal) signalled 1 = some next -> Given 0 next := by
  have both := monitor_excludes waitOrSignal () (fun _ => false) [0, 0, 0, 0, 0, 0, 1, 1, 1, 1]
    (Option.some_get (by decide)).symm
  exact ⟨both.1, fun next released => both.2 1 0 true (by rfl) next released [] next trivial rfl⟩

end Monitor
end Ucore
