import Ucore.Sync.MonitorRun
import Ucore.Sync.PhilosophersSema

namespace Ucore
namespace Philosophers
namespace Condvar

open Library
open Threads
open Monitor (Gate Stage Command)

/-!
# Philosophers with a monitor

Taking and putting the forks are routines of a monitor with a condition
variable for each philosopher.  A philosopher that a neighbour grants the forks
is waiting for its variable; one that grants them to itself signals a variable
that nobody waits for.
-/

/-- The points in the bodies of the routines. -/
inductive Body where
  /-- `state_condvar[i] = HUNGRY` -/
  | hungry
  /-- The condition of `phi_test_condvar` -/
  | test (place : Place)
  /-- `state_condvar[i] = EATING`, and then `cond_signal` -/
  | eat (place : Place)
  /-- `if (state_condvar[i] == HUNGRY)`.  Nothing reads the way in which
  `phi_test_condvar` has returned. -/
  | check (granted : Bool)
  /-- The end of `phi_take_forks_condvar` -/
  | taken
  /-- `state_condvar[i] = THINKING` -/
  | think
  /-- The end of `phi_put_forks_condvar` -/
  | done
deriving DecidableEq, Repr

/-- What follows a call of `phi_test_condvar`. -/
def Body.afterTest (granted : Bool) : Place -> Body
  | .own => .check granted
  | .left => .test .right
  | .right => .done

variable {size : Nat}

/-- The routines of philosopher `i`. -/
def routine (i : Fin size) (body : Body) (table : Table size) : Table size × Command (Fin size) Body :=
  match body with
  | .hungry => (table.hungry i, .run (.test .own))
  | .test place => (table, .run (if table.MayEat (place.seat i) then .eat place else .afterTest false place))
  | .eat place => (table.eat (place.seat i), .condSignal (place.seat i) (.afterTest true place))
  | .check _ => (table, if table.state i = .hungry then .condWait i .taken else .run .taken)
  | .taken => (table, .leave .think)
  | .think => (table.think i, .run (.test .left))
  | .done => (table, .leave .hungry)

abbrev State (size : Nat) := Monitor.State (Fin size) (Fin size) Body (Table size)

/-- The state that `check_sync` makes. -/
def initial (size : Nat) : State size := Monitor.monitorInit (Table.laid size) (fun _ => .hungry)

abbrev code : Fin size -> Stage (Fin size) Body -> Op (Gate (Fin size)) (Stage (Fin size) Body)
    (Monitor.Data (Fin size) (Table size)) := Monitor.code routine

/-! ## The invariant -/

/-- The forks of philosopher `i` are being granted by the philosopher at the
stage, or are in use by it. -/
def grants (i philosopher : Fin size) : Stage (Fin size) Body -> Bool
  | .signal other _ | .announce other _ | .release other _ => other = i
  | .inside (.check true) | .inside .taken | .inside .think | .resume .. | .leave .think | .exit _ .think
  | .enter .think => philosopher = i
  | _ => false

def grant (i : Fin size) :
    Account (Fin size) (Gate (Fin size)) (Stage (Fin size) Body) (Monitor.Data (Fin size) (Table size)) where
  worth := fun gate => if gate = .cv i then 1 else 0
  hold := fun philosopher stage => if grants i philosopher stage then 1 else 0
  stock := fun data _ _ => if data.shared.state i = .eating then -1 else 0

/-- What is known of the table where a philosopher is. -/
def Outline (table : Table size) (i : Fin size) : Stage (Fin size) Body -> Prop
  | .enter rest | .leave rest => rest = .hungry /\ table.state i = .thinking \/ rest = .think
  | .exit gate rest =>
      (gate = .mutex \/ gate = .next) /\ (rest = .hungry /\ table.state i = .thinking \/ rest = .think)
  | .inside (.test .own) | .inside (.check false) => table.state i = .hungry
  | .inside (.eat .own) => table.MayEat i
  | .inside (.check true) | .inside .taken | .inside .think => True
  | .inside .hungry | .inside (.test _) | .inside .done => table.state i = .thinking
  | .inside (.eat place) => table.state i = .thinking /\ table.MayEat (place.seat i)
  | .signal other rest => other = i /\ rest = .check true \/
      table.state i = .thinking /\ (other = left i /\ rest = .test .right \/ other = right i /\ rest = .done)
  | .announce other rest | .release other rest =>
      table.state i = .thinking /\ (other = left i /\ rest = .test .right \/ other = right i /\ rest = .done)
  | .yield rest | .retract rest => table.state i = .thinking /\ (rest = .test .right \/ rest = .done)
  | .wait other rest | .pass other rest => other = i /\ rest = .taken /\ table.state i = .hungry
  | .handOver gate other rest =>
      (gate = .mutex \/ gate = .next) /\ other = i /\ rest = .taken /\ table.state i = .hungry
  | .suspend other rest | .resume other rest => other = i /\ rest = .taken

structure Invariant (state : State size) : Prop where
  monitor : Monitor.Invariant routine state
  grant : forall i, total code (grant i) state = 0
  ledger : forall i, total code (ledger (.cv i)) state = 0
  fair : state.data.shared.Fair
  outline : forall i, Outline state.data.shared i (state.thread i).control

variable {state next : State size} {philosopher : Fin size}

theorem worth_nonneg (i : Fin size) (gate : Gate (Fin size)) : 0 <= (grant i).worth gate := by
  unfold grant
  dsimp only
  split <;> decide

theorem hold_nonneg (i philosopher : Fin size) (stage : Stage (Fin size) Body) :
    0 <= (grant i).hold philosopher stage := by
  unfold grant
  dsimp only
  split <;> decide

/-- A philosopher that has its forks is eating. -/
theorem Invariant.eats (invariant : Invariant state) {i : Fin size}
    (granted : grants i philosopher (state.thread philosopher).control = true) :
    state.data.shared.state i = .eating := by
  have bound := hold_le invariant.monitor.queued (worth_nonneg i) (hold_nonneg i) philosopher
  rw [invariant.grant i] at bound
  unfold Condvar.grant at bound
  dsimp only at bound
  rw [if_pos granted] at bound
  by_contra other
  rw [if_neg other] at bound
  omega

/-- The forks are granted to a philosopher once at a time. -/
theorem Invariant.once (invariant : Invariant state) {i first second : Fin size}
    (granted : grants i first (state.thread first).control = true)
    (grantedToo : grants i second (state.thread second).control = true) : first = second := by
  by_contra different
  have total := invariant.grant i
  have shares : forall philosopher, 0 <= (Condvar.grant i).hold philosopher (state.thread philosopher).control +
      flight code (Condvar.grant i).worth philosopher (state.thread philosopher) := fun philosopher =>
    Int.add_nonneg (hold_nonneg i philosopher _) (flight_nonneg (worth_nonneg i) philosopher _)
  have pair := pair_le_sum shares different
  have firstFlight := @flight_nonneg _ _ _ _ code _ (worth_nonneg i) first (state.thread first)
  have secondFlight := @flight_nonneg _ _ _ _ code _ (worth_nonneg i) second (state.thread second)
  have values : 0 <= semaphores (Condvar.grant i).worth state.sem :=
    Finset.sum_nonneg (fun gate _ => Int.mul_nonneg (worth_nonneg i gate) (invariant.monitor.queued.nonnegative gate))
  have firstHold : (Condvar.grant i).hold first (state.thread first).control = 1 := if_pos granted
  have secondHold : (Condvar.grant i).hold second (state.thread second).control = 1 := if_pos grantedToo
  have stock : -1 <= (Condvar.grant i).stock state.data state.ups state.downs := by
    unfold Condvar.grant
    dsimp only
    split <;> decide
  unfold Threads.total holdings at total
  omega

/-- A philosopher that waits for a variable waits for its own. -/
theorem Outline.waits {table : Table size} {i other : Fin size} {stage : Stage (Fin size) Body}
    (outline : Outline table i stage) (waits : stage.waits other = true) : other = i := by
  cases stage with
  | pass condition rest => exact (of_decide_eq_true waits).symm.trans outline.1
  | handOver gate condition rest => exact (of_decide_eq_true waits).symm.trans outline.2.1
  | suspend condition rest => exact (of_decide_eq_true waits).symm.trans outline.1
  | resume condition rest => exact (of_decide_eq_true waits).symm.trans outline.1
  | _ => cases waits

theorem Invariant.count_pos (invariant : Invariant state) {i : Fin size} :
    0 < state.data.count i <-> (state.thread i).control.waits i = true := by
  rw [invariant.monitor.sound.waits i, Int.natCast_pos, Finset.card_pos]
  constructor
  · rintro ⟨other, found⟩
    have waits := (Finset.mem_filter.mp found).2
    have same := (invariant.outline other).waits waits
    rwa [← same] at waits
  · exact fun waits => ⟨i, Finset.mem_filter.mpr ⟨Finset.mem_univ i, waits⟩⟩

/-- A philosopher does not wait for the variable that it signals. -/
theorem Invariant.signal_own (invariant : Invariant state) {rest : Body}
    (here : (state.thread philosopher).control = .signal philosopher rest) :
    ¬ 0 < state.data.count philosopher := by
  rw [invariant.count_pos, here]
  exact fun waits => nomatch waits

/-- A neighbour's signal finds the philosopher waiting. -/
theorem Invariant.signal_waits (invariant : Invariant state) {other : Fin size} {rest : Body}
    (here : (state.thread philosopher).control = .signal other rest) (different : other ≠ philosopher) :
    0 < state.data.count other := by
  rw [invariant.count_pos]
  have granted : grants other philosopher (state.thread philosopher).control = true := by
    rw [here]
    exact decide_eq_true rfl
  have eating := invariant.eats granted
  have inside : Monitor.active state philosopher = true := by
    unfold Monitor.active
    rw [here]
    rfl
  have outside : (state.thread other).control.active = false := by
    by_contra active
    exact different ((invariant.monitor.holder (.inl inside)).2 other (.inl (Bool.eq_true_of_not_eq_false active)))
  have outline := invariant.outline other
  cases there : (state.thread other).control with
  | enter rest =>
      rw [there] at outline
      rcases outline with ⟨_, thinking⟩ | leaving
      · rw [thinking] at eating
        cases eating
      · have grantedToo : grants other other (state.thread other).control = true := by
          rw [there, leaving]
          exact decide_eq_true rfl
        exact absurd (invariant.once grantedToo granted) different
  | yield rest =>
      rw [there] at outline
      have thinking := outline.1
      rw [eating] at thinking
      cases thinking
  | suspend condition rest =>
      rw [there] at outline
      exact decide_eq_true outline.1
  | _ =>
      rw [there] at outside
      cases outside

theorem grant_balanced (large : 2 <= size) (invariant : Invariant state) (i : Fin size) :
    Balanced code (grant i) state philosopher := by
  have outline := invariant.outline philosopher
  unfold Threads.Balanced grant
  cases here : (state.thread philosopher).control with
  | inside body =>
      rw [here] at outline
      cases body with
      | hungry =>
          have thinking : state.data.shared.state philosopher = .thinking := outline
          by_cases same : i = philosopher
          · simp [code, Monitor.code, routine, Command.stage, grants, Table.hungry, same, thinking]
          · simp [code, Monitor.code, routine, Command.stage, grants, Table.hungry, Function.update_of_ne same]
      | test place =>
          by_cases may : state.data.shared.MayEat (place.seat philosopher) <;> cases place <;>
            simp [code, Monitor.code, routine, Command.stage, grants, may, Body.afterTest]
      | eat place =>
          have hungry : state.data.shared.state (place.seat philosopher) = .hungry := by
            cases place with
            | own => exact outline.1
            | left => exact outline.2.1
            | right => exact outline.2.1
          by_cases same : i = place.seat philosopher
          · simp [code, Monitor.code, routine, Command.stage, grants, Table.eat, same, hungry]
          · simp [code, Monitor.code, routine, Command.stage, grants, Table.eat, Function.update_of_ne same,
              Ne.symm same]
      | check granted =>
          cases granted with
          | true =>
              have eating : state.data.shared.state philosopher = .eating := by
                apply invariant.eats
                rw [here]
                exact decide_eq_true rfl
              simp [code, Monitor.code, routine, Command.stage, grants, eating]
          | false =>
              have hungry : state.data.shared.state philosopher = .hungry := outline
              simp [code, Monitor.code, routine, Command.stage, grants, hungry]
      | taken => simp [code, Monitor.code, routine, Command.stage, grants]
      | think =>
          have eating : state.data.shared.state philosopher = .eating := by
            apply invariant.eats
            rw [here]
            exact decide_eq_true rfl
          by_cases same : i = philosopher
          · simp [code, Monitor.code, routine, Command.stage, grants, Table.think, same, eating]
          · simp [code, Monitor.code, routine, Command.stage, grants, Table.think, Function.update_of_ne same,
              Ne.symm same]
      | done => simp [code, Monitor.code, routine, Command.stage, grants]
  | enter rest =>
      rw [here] at outline
      rcases outline with ⟨same, _⟩ | same <;> simp [code, Monitor.code, grants, same]
  | signal other rest =>
      rw [here] at outline
      rcases outline with ⟨same, own⟩ | ⟨_, ⟨same, _⟩ | ⟨same, _⟩⟩
      · rw [same] at here ⊢
        have alone := invariant.signal_own here
        simp [code, Monitor.code, grants, own, alone]
      · have waits := invariant.signal_waits here (same ▸ left_ne large philosopher)
        simp [code, Monitor.code, grants, waits]
      · have waits := invariant.signal_waits here (same ▸ right_ne large philosopher)
        simp [code, Monitor.code, grants, waits]
  | announce other rest => simp [code, Monitor.code, grants]
  | release other rest => simp [code, Monitor.code, grants]
  | yield rest => simp [code, Monitor.code, grants]
  | retract rest =>
      rw [here] at outline
      rcases outline.2 with same | same <;> simp [code, Monitor.code, grants, same]
  | wait other rest => simp [code, Monitor.code, grants, Monitor.Data.setCount]
  | pass other rest => simp [code, Monitor.code, grants]
  | handOver gate other rest =>
      rw [here] at outline
      rcases outline.1 with same | same <;> simp [code, Monitor.code, grants, same]
  | suspend other rest =>
      rw [here] at outline
      simp [code, Monitor.code, grants, outline.1]
  | resume other rest =>
      rw [here] at outline
      simp [code, Monitor.code, grants, Monitor.Data.setCount, outline.2]
  | leave rest =>
      rw [here] at outline
      rcases outline with ⟨same, _⟩ | same <;> simp [code, Monitor.code, grants, same]
  | exit gate rest =>
      rw [here] at outline
      rcases outline with ⟨gateSame | gateSame, ⟨same, _⟩ | same⟩ <;>
        simp [code, Monitor.code, grants, same, gateSame]

theorem invariant_initial (size : Nat) : Invariant (initial size) where
  monitor := Monitor.invariant_monitorInit _ _
  grant := fun i => by
    rw [total_start (fun _ => rfl) (fun _ => rfl)]
    unfold semaphores grant
    rw [Finset.sum_eq_zero]
    · rfl
    · intro gate _
      cases gate <;> simp [initial, Monitor.monitorInit]
  ledger := fun i => by
    rw [total_start (fun _ => rfl) (fun _ => rfl)]
    unfold semaphores ledger
    rw [Finset.sum_eq_zero]
    · rfl
    · intro gate _
      cases gate <;> simp [initial, Monitor.monitorInit]
  fair := Table.fair_laid size
  outline := fun _ => .inl ⟨rfl, rfl⟩

/-- What a step does to the table. -/
theorem data_step (ran : step code state philosopher = some next) :
    next.data.shared = match (state.thread philosopher).control with
      | .inside .hungry => state.data.shared.hungry philosopher
      | .inside (.eat place) => state.data.shared.eat (place.seat philosopher)
      | .inside .think => state.data.shared.think philosopher
      | _ => state.data.shared := by
  cases here : (state.thread philosopher).control with
  | inside body =>
      have moved := step_act ran (by rw [here]; rfl)
      rw [moved]
      cases body <;> rfl
  | signal other rest => rw [step_act ran (by rw [here]; rfl)]; rfl
  | announce other rest => rw [step_act ran (by rw [here]; rfl)]; rfl
  | retract rest => rw [step_act ran (by rw [here]; rfl)]; rfl
  | wait other rest => rw [step_act ran (by rw [here]; rfl)]; rfl
  | pass other rest => rw [step_act ran (by rw [here]; rfl)]; rfl
  | resume other rest => rw [step_act ran (by rw [here]; rfl)]; rfl
  | leave rest => rw [step_act ran (by rw [here]; rfl)]; rfl
  | _ =>
      rw [step_data ran]
      intro effect op
      rw [here] at op
      cases op

theorem Invariant.mayEat (invariant : Invariant state) {place : Place}
    (here : (state.thread philosopher).control = .inside (.eat place)) :
    state.data.shared.MayEat (place.seat philosopher) := by
  have outline := invariant.outline philosopher
  rw [here] at outline
  cases place with
  | own => exact outline
  | left => exact outline.2
  | right => exact outline.2

theorem Invariant.fair_step (large : 2 <= size) (invariant : Invariant state)
    (ran : step code state philosopher = some next) : next.data.shared.Fair := by
  have data := data_step ran
  cases here : (state.thread philosopher).control with
  | inside body =>
      rw [here] at data
      cases body with
      | hungry =>
          have outline := invariant.outline philosopher
          rw [here] at outline
          rw [data]
          exact invariant.fair.hungry outline
      | eat place =>
          rw [data]
          exact invariant.fair.eat large (invariant.mayEat here)
      | think =>
          have granted : grants philosopher philosopher (state.thread philosopher).control = true := by
            rw [here]
            exact decide_eq_true rfl
          rw [data]
          exact invariant.fair.think (invariant.eats granted)
      | _ =>
          rw [data]
          exact invariant.fair
  | _ =>
      rw [here] at data
      rw [data]
      exact invariant.fair

/-- A step leaves another philosopher thinking. -/
theorem Invariant.stays_thinking (invariant : Invariant state) (ran : step code state philosopher = some next)
    {i : Fin size} (thinking : state.data.shared.state i = .thinking) (different : i ≠ philosopher) :
    next.data.shared.state i = .thinking := by
  have data := data_step ran
  cases here : (state.thread philosopher).control with
  | inside body =>
      rw [here] at data
      rw [data]
      cases body with
      | hungry => exact (Function.update_of_ne different _ _).trans thinking
      | think => exact (Function.update_of_ne different _ _).trans thinking
      | eat place =>
          have hungry := (invariant.mayEat here).1
          have other : i ≠ place.seat philosopher := by
            rintro rfl
            rw [thinking] at hungry
            cases hungry
          exact (Function.update_of_ne other _ _).trans thinking
      | _ => exact thinking
  | _ =>
      rw [here] at data
      rw [data]
      exact thinking

/-- What is known of another philosopher stays true. -/
theorem Invariant.outline_other (invariant : Invariant state) (ran : step code state philosopher = some next)
    {i : Fin size} (different : i ≠ philosopher) :
    Outline next.data.shared i (next.thread i).control := by
  have outline := invariant.outline i
  rw [step_other ran different]
  cases inside : (state.thread i).control.active with
  | true => rwa [invariant.monitor.stable inside (Ne.symm different) ran]
  | false =>
      cases here : (state.thread i).control with
      | enter rest =>
          rw [here] at outline
          exact outline.imp_left (fun both => ⟨both.1, invariant.stays_thinking ran both.2 different⟩)
      | yield rest =>
          rw [here] at outline
          exact ⟨invariant.stays_thinking ran outline.1 different, outline.2⟩
      | suspend other rest =>
          rw [here] at outline
          exact outline
      | _ =>
          rw [here] at inside
          cases inside

/-- What a body leaves known of the table. -/
theorem outline_routine {table : Table size} {body : Body} (outline : Outline table philosopher (.inside body)) :
    Outline (routine philosopher body table).1 philosopher (routine philosopher body table).2.stage := by
  -- a philosopher that thinks is not the hungry one it grants the forks
  have thinks : forall i, table.state philosopher = .thinking -> table.MayEat i ->
      (table.eat i).state philosopher = .thinking := by
    intro i thinking may
    have other : philosopher ≠ i := by
      rintro rfl
      have hungry := may.1
      rw [thinking] at hungry
      cases hungry
    exact (Function.update_of_ne other _ _).trans thinking
  cases body with
  | hungry => exact Function.update_self ..
  | test place =>
      dsimp only [routine]
      by_cases may : table.MayEat (place.seat philosopher)
      · rw [if_pos may]
        cases place with
        | own => exact may
        | left => exact ⟨outline, may⟩
        | right => exact ⟨outline, may⟩
      · rw [if_neg may]
        cases place <;> exact outline
  | eat place =>
      cases place with
      | own => exact .inl ⟨rfl, rfl⟩
      | left => exact .inr ⟨thinks _ outline.1 outline.2, .inl ⟨rfl, rfl⟩⟩
      | right => exact .inr ⟨thinks _ outline.1 outline.2, .inr ⟨rfl, rfl⟩⟩
  | check granted =>
      dsimp only [routine]
      split
      · rename_i hungry
        exact ⟨rfl, rfl, hungry⟩
      · trivial
  | taken => exact .inr rfl
  | think => exact Function.update_self ..
  | done => exact .inl ⟨rfl, outline⟩

theorem Invariant.outline_self (large : 2 <= size) (invariant : Invariant state)
    (ran : step code state philosopher = some next) :
    Outline next.data.shared philosopher (next.thread philosopher).control := by
  have outline := invariant.outline philosopher
  have data := data_step ran
  have self := step_self ran
  cases here : (state.thread philosopher).control with
  | inside body =>
      have moved := step_act ran (by rw [here]; rfl)
      rw [here] at outline self
      rw [self, moved]
      exact outline_routine outline
  | enter rest =>
      rw [here] at outline data self
      rw [data]
      rcases self with self | self <;> rw [self]
      · rcases outline with ⟨same, thinking⟩ | same <;> rw [same]
        · exact thinking
        · trivial
      · exact outline
  | signal other rest =>
      rw [here] at outline data self
      rw [data, self]
      rcases outline with ⟨same, own⟩ | ⟨thinking, place⟩
      · rw [same] at here ⊢
        dsimp only
        rw [if_neg (invariant.signal_own here), own]
        trivial
      · have waits : state.data.count other > 0 := by
          apply invariant.signal_waits here
          rcases place with ⟨same, _⟩ | ⟨same, _⟩
          · exact same ▸ left_ne large philosopher
          · exact same ▸ right_ne large philosopher
        dsimp only
        rw [if_pos waits]
        exact ⟨thinking, place⟩
  | announce other rest =>
      rw [here] at outline data self
      rw [data, self]
      exact outline
  | release other rest =>
      rw [here] at outline data self
      rw [data, self]
      exact ⟨outline.1, outline.2.imp And.right And.right⟩
  | yield rest =>
      rw [here] at outline data self
      rw [data]
      rcases self with self | self <;> rw [self] <;> exact outline
  | retract rest =>
      rw [here] at outline data self
      rw [data, self]
      rcases outline.2 with same | same <;> rw [same] <;> exact outline.1
  | wait other rest =>
      rw [here] at outline data self
      rw [data, self]
      exact outline
  | pass other rest =>
      rw [here] at outline data self
      rw [data, self]
      refine ⟨?_, outline⟩
      unfold Monitor.Data.opens
      split
      · exact .inr rfl
      · exact .inl rfl
  | handOver gate other rest =>
      rw [here] at outline data self
      rw [data, self]
      exact ⟨outline.2.1, outline.2.2.1⟩
  | suspend other rest =>
      rw [here] at outline data self
      rw [data]
      rcases self with self | self <;> rw [self] <;> exact outline
  | resume other rest =>
      rw [here] at outline data self
      rw [data, self, outline.2]
      trivial
  | leave rest =>
      rw [here] at outline data self
      rw [data, self]
      refine ⟨?_, outline⟩
      unfold Monitor.Data.opens
      split
      · exact .inr rfl
      · exact .inl rfl
  | exit gate rest =>
      rw [here] at outline data self
      rw [data, self]
      exact outline.2

theorem Invariant.step (large : 2 <= size) (invariant : Invariant state)
    (ran : step code state philosopher = some next) : Invariant next where
  monitor := invariant.monitor.step ran
  grant := fun i => (total_step invariant.monitor.queued (grant_balanced large invariant i) ran).trans
    (invariant.grant i)
  ledger := fun i => (total_step invariant.monitor.queued (ledger_balanced (.cv i) state philosopher) ran).trans
    (invariant.ledger i)
  fair := invariant.fair_step large ran
  outline := fun i => by
    by_cases same : i = philosopher
    · rw [same]
      exact invariant.outline_self large ran
    · exact invariant.outline_other ran same

/-! ## What the invariant says -/

/-- Neighbours do not eat at the same time, who has taken its forks is eating,
and who signals a philosopher's variable wakes it up for the call that it is
in. -/
structure Safe (state : State size) : Prop where
  apart : forall i, ¬ (state.data.shared.state i = .eating /\ state.data.shared.state (right i) = .eating)
  served : forall i, (state.thread i).control = .enter .think -> state.data.shared.state i = .eating
  /-- Each call is granted the forks once. -/
  matched : forall i, state.data.shared.takes i = state.data.shared.wakeups i + (state.data.shared.state i).owed
  /-- A neighbour's signal finds a waiter, and a philosopher's own does not. -/
  found : forall philosopher other rest, (state.thread philosopher).control = .signal other rest ->
    (0 < state.data.count other <-> other ≠ philosopher)
  /-- A unit that is given and not yet taken is for the call that is not over. -/
  given : forall i, state.ups (.cv i) = state.downs (.cv i) \/
    (state.ups (.cv i) = state.downs (.cv i) + 1 /\ (state.thread i).control = .suspend i .taken)

/-- Where a philosopher may be that is eating without the forks. -/
theorem Outline.suspended {table : Table size} {i : Fin size} {stage : Stage (Fin size) Body}
    (outline : Outline table i stage) (eating : table.state i = .eating) (other : grants i i stage = false) :
    stage = .suspend i .taken := by
  have notThinking : table.state i ≠ .thinking := by
    rw [eating]
    decide
  have notHungry : table.state i ≠ .hungry := by
    rw [eating]
    decide
  cases stage with
  | suspend condition rest =>
      rw [outline.1, outline.2]
  | enter rest =>
      rcases outline with both | same
      · exact absurd both.2 notThinking
      · rw [same] at other
        exact absurd (decide_eq_true rfl) (Bool.eq_false_iff.mp other)
  | leave rest =>
      rcases outline with both | same
      · exact absurd both.2 notThinking
      · rw [same] at other
        exact absurd (decide_eq_true rfl) (Bool.eq_false_iff.mp other)
  | exit gate rest =>
      rcases outline.2 with both | same
      · exact absurd both.2 notThinking
      · rw [same] at other
        exact absurd (decide_eq_true rfl) (Bool.eq_false_iff.mp other)
  | inside body =>
      cases body with
      | hungry => exact absurd outline notThinking
      | test place =>
          cases place with
          | own => exact absurd outline notHungry
          | _ => exact absurd outline notThinking
      | eat place =>
          cases place with
          | own => exact absurd outline.1 notHungry
          | _ => exact absurd outline.1 notThinking
      | check granted =>
          cases granted with
          | true => exact absurd (decide_eq_true rfl) (Bool.eq_false_iff.mp other)
          | false => exact absurd outline notHungry
      | done => exact absurd outline notThinking
      | _ => exact absurd (decide_eq_true rfl) (Bool.eq_false_iff.mp other)
  | signal condition rest =>
      rcases outline with both | both
      · rw [both.1] at other
        exact absurd (decide_eq_true rfl) (Bool.eq_false_iff.mp other)
      · exact absurd both.1 notThinking
  | announce condition rest => exact absurd outline.1 notThinking
  | release condition rest => exact absurd outline.1 notThinking
  | yield rest => exact absurd outline.1 notThinking
  | retract rest => exact absurd outline.1 notThinking
  | wait condition rest => exact absurd outline.2.2 notHungry
  | pass condition rest => exact absurd outline.2.2 notHungry
  | handOver gate condition rest => exact absurd outline.2.2.2 notHungry
  | resume condition rest => exact absurd (decide_eq_true rfl) (Bool.eq_false_iff.mp other)

theorem Invariant.given (invariant : Invariant state) (i : Fin size) :
    state.ups (.cv i) = state.downs (.cv i) \/
      (state.ups (.cv i) = state.downs (.cv i) + 1 /\ (state.thread i).control = .suspend i .taken) := by
  have ledger := invariant.ledger i
  have granted := invariant.grant i
  have value := invariant.monitor.queued.nonnegative (.cv i)
  have flying := underWay_nonneg code (.cv i) state
  rw [total_ledger] at ledger
  unfold Condvar.grant at granted
  rw [total_single] at granted
  have holds : forall other, (0 : Int) <= if grants i other (state.thread other).control = true then 1 else 0 := by
    intro other
    split <;> decide
  have mine := Finset.single_le_sum (fun other _ => holds other) (Finset.mem_univ i)
  have sum := Finset.sum_nonneg (fun other (_ : other ∈ Finset.univ) => holds other)
  by_cases eating : state.data.shared.state i = .eating
  · rw [if_pos eating] at granted
    cases own : grants i i (state.thread i).control with
    | true =>
        rw [if_pos own] at mine
        omega
    | false =>
        have suspended := (invariant.outline i).suspended eating own
        by_cases equal : state.ups (.cv i) = state.downs (.cv i)
        · exact .inl equal
        · exact .inr ⟨by omega, suspended⟩
  · rw [if_neg eating] at granted
    omega

theorem Invariant.safe (invariant : Invariant state) : Safe state where
  apart := invariant.fair.apart
  served := fun i here => by
    have granted : grants i i (state.thread i).control = true := by
      rw [here]
      exact decide_eq_true rfl
    exact invariant.eats granted
  matched := invariant.fair.matched
  found := fun philosopher other rest here => by
    constructor
    · rintro waits rfl
      exact invariant.signal_own here waits
    · exact invariant.signal_waits here
  given := invariant.given

theorem safe_run (large : 2 <= size) {schedule : List (Fin size)}
    (ran : (machine code).run (initial size) schedule = some state) : Safe state :=
  Invariant.safe (Machine.run_invariant_always (fun _ _ _ invariant stepped => invariant.step large stepped)
    (invariant_initial size) ran)

end Condvar

/-- In a ring of three or more philosophers both solutions are safe in every
interleaving of any number of rounds. -/
theorem philosophers_safe {size : Nat} (large : 3 <= size) (schedule : List (Fin size)) :
    (forall state, (Library.Threads.machine Sema.code).run (Sema.initial size) schedule = some state ->
      Sema.Safe state) /\
      forall state, (Library.Threads.machine Condvar.code).run (Condvar.initial size) schedule = some state ->
        Condvar.Safe state :=
  ⟨fun _ ran => Sema.safe_run (by omega) ran, fun _ ran => Condvar.safe_run (by omega) ran⟩

/-- The first philosopher takes its forks while its neighbour asks for some. -/
theorem fivePhilosophers_safe :
    (Exists fun state =>
      (Library.Threads.machine Sema.code).run (Sema.initial 5) [0, 0, 1, 0, 0, 0, 0, 0] = some state /\
        Sema.Safe state) /\
    Exists fun state =>
      (Library.Threads.machine Condvar.code).run (Condvar.initial 5) [0, 0, 1, 0, 0, 0, 0, 0] = some state /\
        Condvar.Safe state := by
  have both := @philosophers_safe 5 (by decide) [0, 0, 1, 0, 0, 0, 0, 0]
  constructor
  · rcases Option.isSome_iff_exists.mp (show ((Library.Threads.machine Sema.code).run (Sema.initial 5)
      [0, 0, 1, 0, 0, 0, 0, 0]).isSome by decide) with ⟨state, ran⟩
    exact ⟨state, ran, both.1 state ran⟩
  · rcases Option.isSome_iff_exists.mp (show ((Library.Threads.machine Condvar.code).run (Condvar.initial 5)
      [0, 0, 1, 0, 0, 0, 0, 0]).isSome by decide) with ⟨state, ran⟩
    exact ⟨state, ran, both.2 state ran⟩

end Philosophers
end Ucore
