import Ucore.Library.Threads
import Ucore.Sync.Philosophers
import Mathlib.Data.Fintype.Sum
import Mathlib.Tactic.DeriveFintype

namespace Ucore
namespace Philosophers
namespace Sema

open Library
open Threads

/-!
# Philosophers with semaphores

The table is changed with `mutex` down.  A philosopher that is granted the
forks, by itself or by a neighbour, gets a unit of its own semaphore, and takes
it at the end of `phi_take_forks_sema`.
-/

inductive Gate (size : Nat) where
  | mutex
  | s (i : Fin size)
deriving DecidableEq, Fintype

/-- The points of the code, each before the statement it names. -/
inductive Point where
  /-- `down(&mutex)` of `phi_take_forks_sema` -/
  | take
  /-- `state_sema[i]=HUNGRY` -/
  | hungry
  /-- The condition of `phi_test_sema` -/
  | test (place : Place)
  /-- `state_sema[i]=EATING` -/
  | eat (place : Place)
  /-- `up(&s[i])` -/
  | wake (place : Place)
  /-- `up(&mutex)` of `phi_take_forks_sema` -/
  | taken
  /-- `down(&s[i])` -/
  | await
  /-- The return of `phi_take_forks_sema`, up to `down(&mutex)` of
  `phi_put_forks_sema` -/
  | put
  /-- `state_sema[i]=THINKING` -/
  | think
  /-- `up(&mutex)` of `phi_put_forks_sema` -/
  | done
deriving DecidableEq, Repr

/-- What follows a call of `phi_test_sema`. -/
def Point.afterTest : Place -> Point
  | .own => .taken
  | .left => .test .right
  | .right => .done

variable {size : Nat}

/-- The code of philosopher `i`. -/
def code (i : Fin size) : Point -> Op (Gate size) Point (Table size)
  | .take => .down .mutex .hungry
  | .hungry => .act fun table => (table.hungry i, .test .own)
  | .test place => .act fun table => (table, if table.MayEat (place.seat i) then .eat place else .afterTest place)
  | .eat place => .act fun table => (table.eat (place.seat i), .wake place)
  | .wake place => .up (.s (place.seat i)) (.afterTest place)
  | .taken => .up .mutex .await
  | .await => .down (.s i) .put
  | .put => .down .mutex .think
  | .think => .act fun table => (table.think i, .test .left)
  | .done => .up .mutex .take

abbrev State (size : Nat) := Threads (Fin size) (Gate size) Point (Table size)

/-- The state that `check_sync` makes. -/
def initial (size : Nat) : State size where
  data := Table.laid size
  sem := fun
    | .mutex => { value := 1, waitQueue := [] }
    | .s _ => { value := 0, waitQueue := [] }
  thread := fun _ => { control := .take, sleep := .awake }
  ups := fun _ => 0
  downs := fun _ => 0

/-! ## Accounts -/

/-- Between `down(&mutex)` and `up(&mutex)` -/
def Point.inside : Point -> Bool
  | .take | .await | .put => false
  | _ => true

def token : Account (Fin size) (Gate size) Point (Table size) where
  worth := fun gate => if gate = .mutex then 1 else 0
  hold := fun _ point => if point.inside then 1 else 0
  stock := fun _ _ _ => 0

/-- The forks of philosopher `i` are being granted by the philosopher at the
point, or are in use by it. -/
def Point.grants (i : Fin size) (philosopher : Fin size) : Point -> Bool
  | .wake place => place.seat philosopher = i
  | .put | .think => philosopher = i
  | _ => false

def grant (i : Fin size) : Account (Fin size) (Gate size) Point (Table size) where
  worth := fun gate => if gate = .s i then 1 else 0
  hold := fun philosopher point => if point.grants i philosopher then 1 else 0
  stock := fun table _ _ => if table.state i = .eating then -1 else 0

/-- Philosopher `i` has asked for the forks and not taken its unit. -/
def Point.asks (i : Fin size) (philosopher : Fin size) : Point -> Bool
  | .test .own | .eat .own | .wake .own | .taken | .await => philosopher = i
  | _ => false

def request (i : Fin size) : Account (Fin size) (Gate size) Point (Table size) where
  worth := fun _ => 0
  hold := fun philosopher point => if point.asks i philosopher then 1 else 0
  stock := fun table _ downs => downs (.s i) - table.takes i

/-! ## The invariant -/

/-- Before the philosopher asks for the forks, or after it has put them down -/
def Point.idle : Point -> Bool
  | .take | .hungry | .done | .test .left | .test .right | .eat .left | .eat .right | .wake .left | .wake .right => true
  | _ => false

structure Invariant (state : State size) : Prop where
  queued : Queued code state
  token : total code token state = 1
  grant : forall i, total code (grant i) state = 0
  request : forall i, total code (request i) state = 0
  ledger : forall i, total code (ledger (.s i)) state = 0
  fair : state.data.Fair
  thinks : forall i, (state.thread i).control.idle = true -> state.data.state i = .thinking
  mayEat : forall i place, (state.thread i).control = .eat place -> state.data.MayEat (place.seat i)

variable {state next : State size} {philosopher : Fin size}

theorem Invariant.alone (invariant : Invariant state) {first second : Fin size}
    (inside : (state.thread first).control.inside = true) (insideToo : (state.thread second).control.inside = true) :
    first = second := by
  apply exclusive invariant.queued invariant.token rfl
  · intro gate
    unfold Sema.token
    dsimp only
    split <;> decide
  · intro other point
    unfold Sema.token
    dsimp only
    split <;> decide
  · unfold Sema.token
    dsimp only
    rw [if_pos inside]
    decide
  · unfold Sema.token
    dsimp only
    rw [if_pos insideToo]
    decide

theorem inside_of_act {point : Point} {effect : Table size -> Table size × Point}
    (op : code philosopher point = .act effect) : point.inside = true := by
  cases point <;> first | rfl | cases op

/-- The table is stable while another philosopher has the mutex. -/
theorem Invariant.stable (invariant : Invariant state) {other : Fin size}
    (inside : (state.thread other).control.inside = true) (different : philosopher ≠ other)
    (ran : step code state philosopher = some next) : next.data = state.data := by
  apply step_data ran
  intro effect op
  exact different (invariant.alone (inside_of_act op) inside)

/-- A philosopher that has its forks is eating. -/
theorem Invariant.eats (invariant : Invariant state) {i : Fin size}
    (grants : (state.thread philosopher).control.grants i philosopher = true) : state.data.state i = .eating := by
  have bound : (Sema.grant i).stock state.data state.ups state.downs +
      (Sema.grant i).hold philosopher (state.thread philosopher).control <= total code (Sema.grant i) state := by
    apply hold_le invariant.queued
    · intro gate
      unfold Sema.grant
      dsimp only
      split <;> decide
    · intro other point
      unfold Sema.grant
      dsimp only
      split <;> decide
  rw [invariant.grant i] at bound
  unfold Sema.grant at bound
  dsimp only at bound
  rw [if_pos grants] at bound
  by_contra other
  rw [if_neg other] at bound
  omega

theorem token_balanced : Balanced code token state philosopher := by
  unfold Threads.Balanced token
  cases (state.thread philosopher).control with
  | test place =>
      by_cases may : state.data.MayEat (place.seat philosopher) <;> cases place <;>
        simp [code, may, Point.inside, Point.afterTest]
  | wake place => cases place <;> simp [code, Point.inside, Point.afterTest]
  | _ => simp [code, Point.inside]

theorem request_balanced (i : Fin size) : Balanced code (request i) state philosopher := by
  unfold Threads.Balanced request
  cases (state.thread philosopher).control with
  | test place =>
      by_cases may : state.data.MayEat (place.seat philosopher) <;> cases place <;>
        simp [code, may, Point.asks, Point.afterTest]
  | wake place => cases place <;> simp [code, Point.asks, Point.afterTest]
  | hungry =>
      by_cases same : philosopher = i
      · simp [code, Point.asks, Table.hungry, same]
        omega
      · simp [code, Point.asks, Table.hungry, same, Function.update_of_ne (Ne.symm same)]
  | await =>
      by_cases same : philosopher = i
      · simp [code, Point.asks, same]
        omega
      · simp [code, Point.asks, same, Ne.symm same]
  | eat place => cases place <;> simp [code, Point.asks, Table.eat]
  | _ => simp [code, Point.asks, Table.think]

theorem grant_balanced (invariant : Invariant state) (i : Fin size) : Balanced code (grant i) state philosopher := by
  unfold Threads.Balanced grant
  cases here : (state.thread philosopher).control with
  | hungry =>
      have thinking := invariant.thinks philosopher (by rw [here]; rfl)
      by_cases same : i = philosopher
      · simp [code, Point.grants, Table.hungry, same, thinking]
      · simp [code, Point.grants, Table.hungry, Function.update_of_ne same]
  | test place =>
      by_cases may : state.data.MayEat (place.seat philosopher) <;> cases place <;>
        simp [code, may, Point.grants, Point.afterTest]
  | eat place =>
      have may := (invariant.mayEat philosopher place here).1
      by_cases same : i = place.seat philosopher
      · simp [code, Point.grants, Table.eat, same, may]
      · simp [code, Point.grants, Table.eat, Function.update_of_ne same, Ne.symm same]
  | wake place =>
      by_cases same : place.seat philosopher = i <;> cases place <;> simp_all [code, Point.grants, Point.afterTest]
  | await =>
      by_cases same : philosopher = i <;> simp [code, Point.grants, same]
  | think =>
      by_cases same : philosopher = i
      · have grants : (state.thread philosopher).control.grants i philosopher = true := by
          rw [here]
          exact decide_eq_true same
        have eating := invariant.eats grants
        simp [code, Point.grants, Table.think, same, eating]
      · simp [code, Point.grants, Table.think, same, Function.update_of_ne (Ne.symm same)]
  | put => simp [code, Point.grants]
  | _ => simp [code, Point.grants]

theorem invariant_initial (size : Nat) : Invariant (initial size) where
  queued := by
    apply queued_start
    · exact fun _ => rfl
    · intro gate
      cases gate <;> rfl
    · intro gate
      cases gate with
      | mutex => exact Int.le_of_lt Int.one_pos
      | s i => exact Int.le_refl 0
  token := by
    rw [total_start (fun _ => rfl) (fun _ => rfl)]
    unfold semaphores token
    rw [Finset.sum_eq_single Gate.mutex]
    · rfl
    · intro gate _ other
      dsimp only
      rw [if_neg other, Int.zero_mul]
    · exact fun absent => absurd (Finset.mem_univ _) absent
  grant := fun i => by
    rw [total_start (fun _ => rfl) (fun _ => rfl)]
    unfold semaphores grant
    rw [Finset.sum_eq_zero]
    · rfl
    · intro gate _
      cases gate <;> simp [initial]
  request := fun i => by
    rw [total_start (fun _ => rfl) (fun _ => rfl)]
    unfold request
    rw [semaphores_zero]
    rfl
  ledger := fun i => by
    rw [total_start (fun _ => rfl) (fun _ => rfl)]
    unfold semaphores ledger
    rw [Finset.sum_eq_zero]
    · rfl
    · intro gate _
      cases gate <;> simp [initial]
  fair := Table.fair_laid size
  thinks := fun _ _ => rfl
  mayEat := fun _ _ same => nomatch same

/-- What a step does to the table. -/
theorem data_step (ran : step code state philosopher = some next) :
    next.data = match (state.thread philosopher).control with
      | .hungry => state.data.hungry philosopher
      | .eat place => state.data.eat (place.seat philosopher)
      | .think => state.data.think philosopher
      | _ => state.data := by
  cases here : (state.thread philosopher).control with
  | hungry => exact congrArg Threads.data (step_act ran (by rw [here]; rfl))
  | test place =>
      rw [step_act ran (show code philosopher (state.thread philosopher).control = .act _ by rw [here]; rfl)]
      rfl
  | eat place => exact congrArg Threads.data (step_act ran (by rw [here]; rfl))
  | think => exact congrArg Threads.data (step_act ran (by rw [here]; rfl))
  | _ => exact step_data ran (fun effect op => by rw [here] at op; cases op)

theorem Invariant.fair_step (large : 2 <= size) (invariant : Invariant state)
    (ran : step code state philosopher = some next) : next.data.Fair := by
  have data := data_step ran
  cases here : (state.thread philosopher).control with
  | hungry =>
      rw [here] at data
      rw [data]
      exact invariant.fair.hungry (invariant.thinks philosopher (by rw [here]; rfl))
  | eat place =>
      rw [here] at data
      rw [data]
      exact invariant.fair.eat large (invariant.mayEat philosopher place here)
  | think =>
      rw [here] at data
      rw [data]
      have grants : (state.thread philosopher).control.grants philosopher philosopher = true := by
        rw [here]
        exact decide_eq_true rfl
      exact invariant.fair.think (invariant.eats grants)
  | _ =>
      rw [here] at data
      rw [data]
      exact invariant.fair

/-- A step leaves a thinking philosopher thinking, unless it asks for the forks. -/
theorem Invariant.stays_thinking (invariant : Invariant state) (ran : step code state philosopher = some next)
    {i : Fin size} (thinking : state.data.state i = .thinking)
    (elsewhere : i = philosopher -> (state.thread philosopher).control ≠ .hungry) : next.data.state i = .thinking := by
  have data := data_step ran
  cases here : (state.thread philosopher).control with
  | hungry =>
      rw [here] at data
      rw [data]
      have other : i ≠ philosopher := fun same => elsewhere same here
      exact (Function.update_of_ne other _ _).trans thinking
  | eat place =>
      rw [here] at data
      rw [data]
      have hungry := (invariant.mayEat philosopher place here).1
      have other : i ≠ place.seat philosopher := by
        rintro rfl
        rw [thinking] at hungry
        cases hungry
      exact (Function.update_of_ne other _ _).trans thinking
  | think =>
      rw [here] at data
      rw [data]
      by_cases same : i = philosopher
      · rw [same]
        exact Function.update_self ..
      · exact (Function.update_of_ne same _ _).trans thinking
  | _ =>
      rw [here] at data
      rw [data]
      exact thinking

theorem Invariant.thinks_step (invariant : Invariant state) (ran : step code state philosopher = some next)
    (i : Fin size) (idle : (next.thread i).control.idle = true) : next.data.state i = .thinking := by
  by_cases same : i = philosopher
  · subst same
    have self := step_self ran
    by_cases before : (state.thread i).control.idle = true
    · apply invariant.stays_thinking ran (invariant.thinks i before)
      intro _ here
      rw [here] at self
      rw [self] at idle
      cases idle
    · cases here : (state.thread i).control with
      | think =>
          have data := data_step ran
          rw [here] at data
          rw [data]
          exact Function.update_self ..
      | test place =>
          rw [here] at self before
          cases place with
          | own =>
              by_cases may : state.data.MayEat i <;> simp only [code, Place.seat, may, if_true, if_false] at self <;>
                rw [self] at idle <;> cases idle
          | _ => exact absurd rfl before
      | eat place =>
          rw [here] at self before
          cases place with
          | own =>
              rw [self] at idle
              cases idle
          | _ => exact absurd rfl before
      | wake place =>
          rw [here] at self before
          cases place with
          | own =>
              rw [self] at idle
              cases idle
          | _ => exact absurd rfl before
      | taken =>
          rw [here] at self
          rw [self] at idle
          cases idle
      | await =>
          rw [here] at self
          rcases self with self | self <;> rw [self] at idle <;> cases idle
      | put =>
          rw [here] at self
          rcases self with self | self <;> rw [self] at idle <;> cases idle
      | _ =>
          rw [here] at before
          exact absurd rfl before
  · rw [step_other ran same] at idle
    exact invariant.stays_thinking ran (invariant.thinks i idle) (fun clash => absurd clash same)

theorem Invariant.mayEat_step (invariant : Invariant state) (ran : step code state philosopher = some next)
    (i : Fin size) (place : Place) (point : (next.thread i).control = .eat place) :
    next.data.MayEat (place.seat i) := by
  by_cases same : i = philosopher
  · subst same
    have self := step_self ran
    have data := data_step ran
    cases here : (state.thread i).control with
    | test other =>
        rw [here] at self data
        rw [data]
        by_cases may : state.data.MayEat (other.seat i)
        · simp only [code, may, if_true] at self
          rw [self] at point
          cases point
          exact may
        · simp only [code, may, if_false] at self
          rw [self] at point
          cases other <;> cases point
    | wake other =>
        rw [here] at self
        rw [self] at point
        cases other <;> cases point
    | hungry =>
        rw [here] at self
        rw [self] at point
        cases point
    | eat other =>
        rw [here] at self
        rw [self] at point
        cases point
    | think =>
        rw [here] at self
        rw [self] at point
        cases point
    | taken =>
        rw [here] at self
        rw [self] at point
        cases point
    | done =>
        rw [here] at self
        rw [self] at point
        cases point
    | _ =>
        rw [here] at self
        rcases self with self | self <;> rw [self] at point <;> cases point
  · have before := step_other ran same
    rw [before] at point
    have inside : (state.thread i).control.inside = true := by
      rw [point]
      rfl
    rw [invariant.stable inside (Ne.symm same) ran]
    exact invariant.mayEat i place point

theorem Invariant.step (large : 2 <= size) (invariant : Invariant state)
    (ran : step code state philosopher = some next) : Invariant next where
  queued := invariant.queued.step ran
  token := (total_step invariant.queued token_balanced ran).trans invariant.token
  grant := fun i => (total_step invariant.queued (grant_balanced invariant i) ran).trans (invariant.grant i)
  request := fun i => (total_step invariant.queued (request_balanced i) ran).trans (invariant.request i)
  ledger := fun i => (total_step invariant.queued (ledger_balanced (.s i) state philosopher) ran).trans
    (invariant.ledger i)
  fair := invariant.fair_step large ran
  thinks := invariant.thinks_step ran
  mayEat := invariant.mayEat_step ran

/-! ## What the invariant says -/

/-- Neighbours do not eat at the same time, who has taken its forks is eating,
and the units of a philosopher's semaphore go to its calls of
`phi_take_forks_sema` one by one. -/
structure Safe (state : State size) : Prop where
  apart : forall i, ¬ (state.data.state i = .eating /\ state.data.state (right i) = .eating)
  served : forall i, (state.thread i).control = .put -> state.data.state i = .eating
  /-- Each call is granted the forks once. -/
  matched : forall i, state.data.takes i = state.data.wakeups i + (state.data.state i).owed
  /-- A call that is not over has not taken its unit, and all others have. -/
  taken : forall i, state.data.takes i = state.downs (.s i) + if (state.thread i).control.asks i i then 1 else 0
  /-- A unit that is given and not yet taken is for the call that is not over. -/
  given : forall i, state.downs (.s i) <= state.ups (.s i) /\ state.ups (.s i) <= state.data.takes i

theorem Invariant.taken (invariant : Invariant state) (i : Fin size) :
    state.data.takes i = state.downs (.s i) + if (state.thread i).control.asks i i then 1 else 0 := by
  have total := invariant.request i
  have only : forall other, other ≠ i -> (state.thread other).control.asks i other = false := by
    intro other different
    cases (state.thread other).control with
    | test place => cases place <;> first | rfl | exact decide_eq_false different
    | eat place => cases place <;> first | rfl | exact decide_eq_false different
    | wake place => cases place <;> first | rfl | exact decide_eq_false different
    | _ => first | rfl | exact decide_eq_false different
  have sum : ∑ other, (if (state.thread other).control.asks i other = true then (1 : Int) else 0) =
      if (state.thread i).control.asks i i = true then 1 else 0 := by
    apply Finset.sum_eq_single i
    · intro other _ different
      rw [only other different]
      rfl
    · exact fun absent => absurd (Finset.mem_univ _) absent
  have none : forall other, flight code (fun _ => 0) other (state.thread other) = 0 := by
    intro other
    unfold flight
    split <;> rfl
  unfold Threads.total Sema.request holdings at total
  dsimp only at total
  rw [semaphores_zero] at total
  simp only [none, Int.add_zero] at total
  rw [sum] at total
  split at total <;> rename_i asks <;> simp only [asks, if_true, if_false, Bool.false_eq_true] <;> omega

/-- What a philosopher does without a unit of its own. -/
theorem Point.cases_asks (i : Fin size) (point : Point) (other : point.asks i i = false) :
    point.idle = true \/ point.grants i i = true := by
  cases point with
  | test place => cases place <;> first | exact .inl rfl | exact absurd other (by simp [Point.asks])
  | eat place => cases place <;> first | exact .inl rfl | exact absurd other (by simp [Point.asks])
  | wake place => cases place <;> first | exact .inl rfl | exact absurd other (by simp [Point.asks])
  | put => exact .inr (decide_eq_true rfl)
  | think => exact .inr (decide_eq_true rfl)
  | taken => exact absurd other (by simp [Point.asks])
  | await => exact absurd other (by simp [Point.asks])
  | _ => exact .inl rfl

theorem Invariant.given (invariant : Invariant state) (i : Fin size) :
    state.downs (.s i) <= state.ups (.s i) /\ state.ups (.s i) <= state.data.takes i := by
  have ledger := invariant.ledger i
  have granted := invariant.grant i
  have taken := invariant.taken i
  have value := invariant.queued.nonnegative (.s i)
  have flying := underWay_nonneg code (.s i) state
  rw [total_ledger] at ledger
  unfold Sema.grant at granted
  rw [total_single] at granted
  have holds : forall other, (0 : Int) <= if (state.thread other).control.grants i other = true then 1 else 0 := by
    intro other
    split <;> decide
  have mine := Finset.single_le_sum (fun other _ => holds other) (Finset.mem_univ i)
  cases asks : (state.thread i).control.asks i i with
  | true =>
      rw [if_pos asks] at taken
      split at granted <;> omega
  | false =>
      rw [asks] at taken
      rcases Point.cases_asks i _ asks with idle | grants
      · rw [invariant.thinks i idle, if_neg (by decide)] at granted
        simp only [Bool.false_eq_true, if_false] at taken
        omega
      · rw [if_pos grants] at mine
        simp only [Bool.false_eq_true, if_false] at taken
        split at granted <;> omega

theorem Invariant.safe (invariant : Invariant state) : Safe state where
  apart := invariant.fair.apart
  served := fun i here => by
    have grants : (state.thread i).control.grants i i = true := by
      rw [here]
      exact decide_eq_true rfl
    exact invariant.eats grants
  matched := invariant.fair.matched
  taken := invariant.taken
  given := invariant.given

theorem safe_run (large : 2 <= size) {schedule : List (Fin size)}
    (ran : (machine code).run (initial size) schedule = some state) : Safe state :=
  Invariant.safe (Machine.run_invariant_always (fun _ _ _ invariant stepped => invariant.step large stepped)
    (invariant_initial size) ran)

end Sema
end Philosophers
end Ucore
