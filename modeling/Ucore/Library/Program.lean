import Mathlib.Logic.Basic

namespace Ucore
namespace Library

universe u v w

/-!
# Programs with errors and faults

A program over a state ends in one of three ways: with a value, with an error
that its caller sees, or in a fault that stops the machine, such as a failed
assertion.  An error keeps the changes made before it.

`Meets program state post` is the weakest precondition of a program for a
postcondition on each of the three endings.  There is one rule for every way
to build a program, and each rule is an equivalence.
-/

/-- How a program ends. -/
inductive Outcome (State Error Fault Value : Type) where
  | done (value : Value) (state : State)
  | fail (error : Error) (state : State)
  | stop (fault : Fault)

/-- The state a program leaves, unless it stops. -/
def Outcome.state {State Error Fault Value : Type} : Outcome State Error Fault Value -> Option State
  | .done _ state => some state
  | .fail _ state => some state
  | .stop _ => none

/-- What a program returns. -/
def Outcome.value {State Error Fault Value : Type} : Outcome State Error Fault Value -> Option Value
  | .done value _ => some value
  | .fail _ _ => none
  | .stop _ => none

/-- The error a program ends with. -/
def Outcome.error {State Error Fault Value : Type} : Outcome State Error Fault Value -> Option Error
  | .done _ _ => none
  | .fail error _ => some error
  | .stop _ => none

def Program (State Error Fault Value : Type) := State -> Outcome State Error Fault Value

/-- What is asked of each ending: of a value, of an error that the caller sees,
and of a fault, after which there is no state. -/
structure Post (State Error Fault Value : Type) where
  done : Value -> State -> Prop
  fail : Error -> State -> Prop
  stop : Fault -> Prop

namespace Program

variable {State Error Fault Value Next : Type}

instance : Monad (Program State Error Fault) where
  pure value := fun state => .done value state
  bind program next := fun state =>
    match program state with
    | .done value after => next value after
    | .fail error after => .fail error after
    | .stop fault => .stop fault

/-- The current state. -/
def get : Program State Error Fault State := fun state => .done state state

def modify (change : State -> State) : Program State Error Fault Unit := fun state => .done () (change state)

def throw (error : Error) : Program State Error Fault Value := fun state => .fail error state

def halt (fault : Fault) : Program State Error Fault Value := fun _ => .stop fault

def assert (condition : Prop) [Decidable condition] (fault : Fault) : Program State Error Fault Unit :=
  if condition then pure () else halt fault

/-- On an error, clean up and pass the error on. -/
def onError (program : Program State Error Fault Value) (cleanup : Program State Error Fault Unit) :
    Program State Error Fault Value := fun state =>
  match program state with
  | .done value after => .done value after
  | .fail error after => (cleanup >>= fun _ => throw error) after
  | .stop fault => .stop fault

/-- Turn an error into a value. -/
def attempt (program : Program State Error Fault Value) : Program State Error Fault (Except Error Value) :=
  fun state =>
    match program state with
    | .done value after => .done (.ok value) after
    | .fail error after => .done (.error error) after
    | .stop fault => .stop fault

/-- Clean up after the program, whether it returns or fails. -/
def ensuring (program : Program State Error Fault Value) (cleanup : Program State Error Fault Unit) :
    Program State Error Fault Value := fun state =>
  match program state with
  | .done value after => (cleanup >>= fun _ => pure value) after
  | .fail error after => (cleanup >>= fun _ => throw error) after
  | .stop fault => .stop fault

/-- A program on a part of the state. -/
def zoom {Part : Type} (view : State -> Part) (put : Part -> State -> State)
    (program : Program Part Error Fault Value) : Program State Error Fault Value := fun state =>
  match program (view state) with
  | .done value part => .done value (put part state)
  | .fail error part => .fail error (put part state)
  | .stop fault => .stop fault

/-- Run the body at `count` numbers from `start` on. -/
def forRange (body : Nat -> Program State Error Fault Unit) : Nat -> Nat -> Program State Error Fault Unit
  | _, 0 => pure ()
  | start, count + 1 => body start >>= fun _ => forRange body (start + 1) count

theorem bind_pure (program : Program State Error Fault Value) : (program >>= fun value => pure value) = program := by
  funext state
  change (match program state with
    | .done value after => .done value after
    | .fail error after => .fail error after
    | .stop fault => .stop fault) = program state
  cases program state <;> rfl

theorem bind_assoc {Last : Type} (program : Program State Error Fault Value)
    (next : Value -> Program State Error Fault Next) (last : Next -> Program State Error Fault Last) :
    (program >>= next >>= last) = program >>= fun value => next value >>= last := by
  funext state
  change (match (match program state with
    | .done value after => next value after
    | .fail error after => .fail error after
    | .stop fault => .stop fault) with
    | .done value after => last value after
    | .fail error after => .fail error after
    | .stop fault => .stop fault) = (match program state with
    | .done value after => (next value >>= last) after
    | .fail error after => .fail error after
    | .stop fault => .stop fault)
  cases program state <;> rfl

/-- The weakest precondition. -/
def Meets (program : Program State Error Fault Value) (state : State) (post : Post State Error Fault Value) :
    Prop :=
  match program state with
  | .done value after => post.done value after
  | .fail error after => post.fail error after
  | .stop fault => post.stop fault

theorem Outcome.of_value {State Error Fault Value : Type} {outcome : Outcome State Error Fault Value} {value : Value}
    (returned : outcome.value = some value) : Exists fun state => outcome = .done value state := by
  cases outcome with
  | done other state => exact ⟨state, congrArg (Outcome.done · state) (Option.some.inj returned)⟩
  | fail error state => cases returned
  | stop fault => cases returned

theorem Outcome.of_error {State Error Fault Value : Type} {outcome : Outcome State Error Fault Value} {error : Error}
    (failed : outcome.error = some error) : Exists fun state => outcome = .fail error state := by
  cases outcome with
  | done value state => cases failed
  | fail other state => exact ⟨state, congrArg (Outcome.fail · state) (Option.some.inj failed)⟩
  | stop fault => cases failed

/-! ## Rules -/

variable {program : Program State Error Fault Value} {next : Value -> Program State Error Fault Next}
  {cleanup : Program State Error Fault Unit} {state : State} {post : Post State Error Fault Value}

@[simp] theorem meets_pure (value : Value) :
    Meets (pure value : Program State Error Fault Value) state post <-> post.done value state := Iff.rfl

@[simp] theorem meets_bind {post : Post State Error Fault Next} :
    Meets (program >>= next) state post <->
      Meets program state ⟨fun value after => Meets (next value) after post, post.fail, post.stop⟩ := by
  unfold Meets
  change (match (match program state with
    | .done value after => next value after
    | .fail error after => .fail error after
    | .stop fault => .stop fault) with
    | .done value after => post.done value after
    | .fail error after => post.fail error after
    | .stop fault => post.stop fault) <-> _
  cases program state <;> rfl

@[simp] theorem meets_get {post : Post State Error Fault State} :
    Meets (get : Program State Error Fault State) state post <-> post.done state state := Iff.rfl

@[simp] theorem meets_modify (change : State -> State) {post : Post State Error Fault Unit} :
    Meets (modify change : Program State Error Fault Unit) state post <-> post.done () (change state) := Iff.rfl

@[simp] theorem meets_throw (error : Error) :
    Meets (throw error : Program State Error Fault Value) state post <-> post.fail error state := Iff.rfl

@[simp] theorem meets_halt (fault : Fault) :
    Meets (halt fault : Program State Error Fault Value) state post <-> post.stop fault := Iff.rfl

@[simp] theorem meets_ite (condition : Prop) [Decidable condition] {other : Program State Error Fault Value} :
    Meets (if condition then program else other) state post <->
      if condition then Meets program state post else Meets other state post := by
  split <;> rfl

theorem meets_assert (condition : Prop) [Decidable condition] (fault : Fault)
    {post : Post State Error Fault Unit} :
    Meets (assert condition fault : Program State Error Fault Unit) state post <->
      (condition -> post.done () state) /\ (¬ condition -> post.stop fault) := by
  unfold assert
  by_cases holds : condition
  · rw [if_pos holds, meets_pure]
    exact ⟨fun done => ⟨fun _ => done, fun absent => absurd holds absent⟩, fun both => both.1 holds⟩
  · rw [if_neg holds, meets_halt]
    exact ⟨fun stop => ⟨fun present => absurd present holds, fun _ => stop⟩, fun both => both.2 holds⟩

@[simp] theorem meets_onError :
    Meets (onError program cleanup) state post <->
      Meets program state ⟨post.done,
        fun error after => Meets cleanup after ⟨fun _ cleaned => post.fail error cleaned, post.fail, post.stop⟩,
        post.stop⟩ := by
  unfold Meets onError
  cases program state with
  | done value after => rfl
  | stop fault => rfl
  | fail error after =>
      change Meets (cleanup >>= fun _ => throw error) after post <-> _
      exact meets_bind

@[simp] theorem meets_attempt {post : Post State Error Fault (Except Error Value)} :
    Meets (attempt program) state post <->
      Meets program state ⟨fun value after => post.done (.ok value) after,
        fun error after => post.done (.error error) after, post.stop⟩ := by
  unfold Meets attempt
  cases program state <;> rfl

@[simp] theorem meets_ensuring :
    Meets (ensuring program cleanup) state post <->
      Meets program state
        ⟨fun value after => Meets cleanup after ⟨fun _ cleaned => post.done value cleaned, post.fail, post.stop⟩,
          fun error after => Meets cleanup after ⟨fun _ cleaned => post.fail error cleaned, post.fail, post.stop⟩,
          post.stop⟩ := by
  unfold Meets ensuring
  cases program state with
  | stop fault => rfl
  | done value after =>
      change Meets (cleanup >>= fun _ => pure value) after post <-> _
      exact meets_bind
  | fail error after =>
      change Meets (cleanup >>= fun _ => throw error) after post <-> _
      exact meets_bind

@[simp] theorem meets_zoom {Part : Type} {view : State -> Part} {put : Part -> State -> State}
    {inner : Program Part Error Fault Value} :
    Meets (zoom view put inner) state post <->
      Meets inner (view state) ⟨fun value part => post.done value (put part state),
        fun error part => post.fail error (put part state), post.stop⟩ := by
  unfold Meets zoom
  cases inner (view state) <;> rfl

theorem Meets.mono {stronger : Post State Error Fault Value} (meets : Meets program state stronger)
    (done : forall value after, stronger.done value after -> post.done value after)
    (fail : forall error after, stronger.fail error after -> post.fail error after)
    (stop : forall fault, stronger.stop fault -> post.stop fault) : Meets program state post := by
  unfold Meets at *
  cases ran : program state with
  | done value after =>
      rw [ran] at meets
      exact done value after meets
  | fail error after =>
      rw [ran] at meets
      exact fail error after meets
  | stop fault =>
      rw [ran] at meets
      exact stop fault meets

theorem Meets.any (program : Program State Error Fault Value) (state : State) :
    Meets program state ⟨fun _ _ => True, fun _ _ => True, fun _ => True⟩ := by
  unfold Meets
  cases program state <;> trivial

theorem Meets.and {other : Post State Error Fault Value} (meets : Meets program state post)
    (too : Meets program state other) :
    Meets program state ⟨fun value after => post.done value after /\ other.done value after,
      fun error after => post.fail error after /\ other.fail error after,
      fun fault => post.stop fault /\ other.stop fault⟩ := by
  unfold Meets at *
  cases ran : program state with
  | done value after =>
      rw [ran] at meets too
      exact ⟨meets, too⟩
  | fail error after =>
      rw [ran] at meets too
      exact ⟨meets, too⟩
  | stop fault =>
      rw [ran] at meets too
      exact ⟨meets, too⟩

/-- What a program that returns has met. -/
theorem Meets.of_done {value : Value} {after : State} (meets : Meets program state post)
    (ran : program state = .done value after) : post.done value after := by
  unfold Meets at meets
  rw [ran] at meets
  exact meets

theorem Meets.of_fail {error : Error} {after : State} (meets : Meets program state post)
    (ran : program state = .fail error after) : post.fail error after := by
  unfold Meets at meets
  rw [ran] at meets
  exact meets

theorem Meets.of_stop {fault : Fault} (meets : Meets program state post)
    (ran : program state = .stop fault) : post.stop fault := by
  unfold Meets at meets
  rw [ran] at meets
  exact meets

/-- A program that neither returns nor fails stops. -/
theorem Meets.stopped {stop : Fault -> Prop}
    (meets : Meets program state ⟨fun _ _ => False, fun _ _ => False, stop⟩) :
    Exists fun fault => program state = .stop fault /\ stop fault := by
  unfold Meets at meets
  cases ran : program state with
  | done value after =>
      rw [ran] at meets
      exact meets.elim
  | fail error after =>
      rw [ran] at meets
      exact meets.elim
  | stop fault =>
      rw [ran] at meets
      exact ⟨fault, rfl, meets⟩

/-- A program that neither fails nor stops returns. -/
theorem Meets.returned {done : Value -> State -> Prop}
    (meets : Meets program state ⟨done, fun _ _ => False, fun _ => False⟩) :
    Exists fun value => Exists fun after => program state = .done value after /\ done value after := by
  unfold Meets at meets
  cases ran : program state with
  | done value after =>
      rw [ran] at meets
      exact ⟨value, after, rfl, meets⟩
  | fail error after =>
      rw [ran] at meets
      exact meets.elim
  | stop fault =>
      rw [ran] at meets
      exact meets.elim

/-- A program that left a state has returned or failed there. -/
theorem Meets.of_state {after : State} {conclusion : Prop} (meets : Meets program state post)
    (ran : (program state).state = some after) (done : forall value, post.done value after -> conclusion)
    (fail : forall error, post.fail error after -> conclusion) : conclusion := by
  unfold Meets at meets
  cases outcome : program state with
  | done value final =>
      rw [outcome] at meets ran
      cases ran
      exact done value meets
  | fail error final =>
      rw [outcome] at meets ran
      cases ran
      exact fail error meets
  | stop fault =>
      rw [outcome] at ran
      cases ran

/-- The loop rule: `invariant` holds at every number, and an error or a fault
of the body is one of the loop. -/
theorem meets_forRange {body : Nat -> Program State Error Fault Unit} {post : Post State Error Fault Unit}
    (invariant : Nat -> State -> Prop) (start count : Nat)
    (step : forall number current, start <= number -> number < start + count -> invariant number current ->
      Meets (body number) current ⟨fun _ after => invariant (number + 1) after, post.fail, post.stop⟩)
    (leave : forall current, invariant (start + count) current -> post.done () current)
    (enter : invariant start state) : Meets (forRange body start count) state post := by
  induction count generalizing start state with
  | zero => exact leave state enter
  | succ count inductionHypothesis =>
      unfold forRange
      rw [meets_bind]
      refine (step start state (Nat.le_refl _) (by omega) enter).mono ?_ (fun _ _ failed => failed)
        (fun _ stopped => stopped)
      intro _ after holds
      apply inductionHypothesis (start + 1) _ _ holds
      · intro number current low high
        exact step number current (by omega) (by omega)
      · intro current last
        apply leave
        rwa [show start + (count + 1) = start + 1 + count by omega]

end Program

end Library
end Ucore
