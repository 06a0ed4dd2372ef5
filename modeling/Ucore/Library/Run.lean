import Mathlib.Data.List.Basic

namespace Ucore
namespace Library

universe u v w

/-!
# Runs of deterministic machines

A machine is a partial step function.  A step that yields nothing is one the
environment may not ask for, or one from which the machine does not return.
Safety results about a machine speak of every finite run; results that hold
only while each step meets a condition speak of every run *along* it.  The
induction over runs is done here once, so that an invariant of a concrete
machine needs its step lemma only.
-/

/-- A partial step function on states.  An action that leads to no state is one
that the system does not take, or from which it does not come back. -/
structure Machine (State : Type u) (Action : Type v) where
  step : State -> Action -> Option State

namespace Machine

variable {State : Type u} {Action : Type v}

/-- Take the listed steps in order. -/
def run (machine : Machine State Action) : State -> List Action -> Option State
  | state, [] => some state
  | state, action :: rest =>
      match machine.step state action with
      | none => none
      | some next => machine.run next rest

/-- Every step of the run is asked for in a state that meets the condition. -/
def Along (machine : Machine State Action) (condition : State -> Action -> Prop) :
    State -> List Action -> Prop
  | _, [] => True
  | state, action :: rest =>
      condition state action /\
        forall next, machine.step state action = some next -> machine.Along condition next rest

variable (machine : Machine State Action)

/-- Only the state a step leads to has to be looked at. -/
theorem along_cons (condition : State -> Action -> Prop) (state : State) (action : Action)
    (rest : List Action) :
    machine.Along condition state (action :: rest) <->
      condition state action /\
        (machine.step state action).elim True (fun next => machine.Along condition next rest) := by
  rw [Along]
  cases stepped : machine.step state action with
  | none => simp
  | some next => simp

/-- A decidable condition can be checked along a run. -/
def decideAlong (condition : State -> Action -> Prop) [forall state action, Decidable (condition state action)] :
    forall state actions, Decidable (machine.Along condition state actions)
  | _, [] => isTrue trivial
  | state, action :: rest =>
      have : Decidable ((machine.step state action).elim True
          (fun next => machine.Along condition next rest)) :=
        match machine.step state action with
        | none => isTrue trivial
        | some next => decideAlong condition next rest
      decidable_of_iff' _ (machine.along_cons condition state action rest)

instance (condition : State -> Action -> Prop) [forall state action, Decidable (condition state action)]
    (state : State) (actions : List Action) : Decidable (machine.Along condition state actions) :=
  machine.decideAlong condition state actions

@[simp] theorem run_nil (state : State) : machine.run state [] = some state := rfl

theorem run_cons (state : State) (action : Action) (rest : List Action) :
    machine.run state (action :: rest) =
      (machine.step state action).bind (fun next => machine.run next rest) := by
  rw [run]
  cases machine.step state action <;> rfl

/-- A run splits at every intermediate state. -/
theorem run_append (state : State) (first second : List Action) :
    machine.run state (first ++ second) =
      (machine.run state first).bind (fun next => machine.run next second) := by
  induction first generalizing state with
  | nil => rfl
  | cons action rest inductionHypothesis =>
      rw [List.cons_append, run_cons, run_cons]
      cases machine.step state action with
      | none => rfl
      | some next => exact inductionHypothesis next

/-- A run with one more step at its end. -/
theorem run_concat (state : State) (first : List Action) (action : Action) :
    machine.run state (first ++ [action]) = (machine.run state first).bind (fun next => machine.step next action) := by
  rw [run_append]
  congr 1
  funext next
  rw [run_cons]
  cases machine.step next action <;> rfl

/-- The unconditional run meets the trivial condition. -/
theorem along_true (state : State) (actions : List Action) :
    machine.Along (fun _ _ => True) state actions := by
  induction actions generalizing state with
  | nil => trivial
  | cons action rest inductionHypothesis =>
      exact ⟨trivial, fun next _ => inductionHypothesis next⟩

/-- A condition on the steps that are asked for. -/
theorem along_of_forall {condition : Action -> Prop} {actions : List Action}
    (all : forall action, action ∈ actions -> condition action) (state : State) :
    machine.Along (fun _ action => condition action) state actions := by
  induction actions generalizing state with
  | nil => trivial
  | cons action rest inductionHypothesis =>
      exact ⟨all action (List.mem_cons_self ..), fun next _ =>
        inductionHypothesis (fun other member => all other (List.mem_cons_of_mem _ member)) next⟩

variable {machine}

/-- A run meets a condition if each of its parts does. -/
theorem Along.append {condition : State -> Action -> Prop} {state : State} {first second : List Action}
    (along : machine.Along condition state first)
    (later : forall next, machine.run state first = some next -> machine.Along condition next second) :
    machine.Along condition state (first ++ second) := by
  induction first generalizing state with
  | nil => exact later state rfl
  | cons action rest inductionHypothesis =>
      refine ⟨along.1, fun next stepped => inductionHypothesis (along.2 next stepped) fun last ran => later last ?_⟩
      rw [run_cons, stepped]
      exact ran

/-- A weaker condition holds along every run on which the stronger one does. -/
theorem Along.mono {condition weaker : State -> Action -> Prop}
    (implies : forall state action, condition state action -> weaker state action)
    {state : State} {actions : List Action} (along : machine.Along condition state actions) :
    machine.Along weaker state actions := by
  induction actions generalizing state with
  | nil => trivial
  | cons action rest inductionHypothesis =>
      exact ⟨implies state action along.1, fun next stepped => inductionHypothesis (along.2 next stepped)⟩

/-- Two conditions that hold along a run hold together. -/
theorem Along.and {first second : State -> Action -> Prop} {state : State} {actions : List Action}
    (along : machine.Along first state actions) (too : machine.Along second state actions) :
    machine.Along (fun state action => first state action /\ second state action) state actions := by
  induction actions generalizing state with
  | nil => trivial
  | cons action rest inductionHypothesis =>
      exact ⟨⟨along.1, too.1⟩, fun next stepped => inductionHypothesis (along.2 next stepped) (too.2 next stepped)⟩

/-- The invariant rule: what one step under the condition preserves, a whole
run along the condition preserves. -/
theorem run_invariant {condition : State -> Action -> Prop} {invariant : State -> Prop}
    (preserved : forall state action next, invariant state -> condition state action ->
      machine.step state action = some next -> invariant next)
    {state last : State} {actions : List Action} (initial : invariant state)
    (along : machine.Along condition state actions) (ran : machine.run state actions = some last) :
    invariant last := by
  induction actions generalizing state with
  | nil =>
      rw [run_nil] at ran
      exact Option.some.inj ran ▸ initial
  | cons action rest inductionHypothesis =>
      rw [run_cons] at ran
      cases stepped : machine.step state action with
      | none =>
          rw [stepped] at ran
          cases ran
      | some next =>
          rw [stepped] at ran
          exact inductionHypothesis (preserved state action next initial along.1 stepped)
            (along.2 next stepped) ran

/-- Two machines that step alike run alike. -/
theorem run_map {View : Type w} {image : Machine View Action} {view : State -> View}
    {condition : State -> Action -> Prop} {invariant : State -> Prop}
    (alike : forall state action, invariant state -> condition state action ->
      (machine.step state action).map view = image.step (view state) action /\
        forall next, machine.step state action = some next -> invariant next)
    {state : State} {actions : List Action} (initial : invariant state)
    (along : machine.Along condition state actions) :
    (machine.run state actions).map view = image.run (view state) actions := by
  induction actions generalizing state with
  | nil => rfl
  | cons action rest inductionHypothesis =>
      have step := alike state action initial along.1
      rw [run_cons, run_cons, ← step.1]
      cases stepped : machine.step state action with
      | none => rfl
      | some next => exact inductionHypothesis (step.2 next stepped) (along.2 next stepped)

/-- The invariant rule without a condition. -/
theorem run_invariant_always {invariant : State -> Prop}
    (preserved : forall state action next, invariant state ->
      machine.step state action = some next -> invariant next)
    {state last : State} {actions : List Action} (initial : invariant state)
    (ran : machine.run state actions = some last) : invariant last :=
  run_invariant (fun state action next held _ stepped => preserved state action next held stepped)
    initial (machine.along_true state actions) ran

/-- The progress rule: an invariant under which every admitted step returns
makes every run along the condition return. -/
theorem run_returns {condition : State -> Action -> Prop} {invariant : State -> Prop}
    (returns : forall state action, invariant state -> condition state action ->
      Exists fun next => machine.step state action = some next /\ invariant next)
    {state : State} {actions : List Action} (initial : invariant state)
    (along : machine.Along condition state actions) :
    Exists fun last => machine.run state actions = some last /\ invariant last := by
  induction actions generalizing state with
  | nil => exact ⟨state, rfl, initial⟩
  | cons action rest inductionHypothesis =>
      rcases returns state action initial along.1 with ⟨next, stepped, held⟩
      rcases inductionHypothesis held (along.2 next stepped) with ⟨last, ran, final⟩
      refine ⟨last, ?_, final⟩
      rw [run_cons, stepped]
      exact ran

/-- The exact rule: where an invariant gives the property, and a step meets the
condition if it keeps the invariant and also if the property survives it, the
property holds at every point of a run exactly if the run meets the condition. -/
theorem always_iff_along {condition : State -> Action -> Prop} {invariant property : State -> Prop}
    (holds : forall state, invariant state -> property state)
    (keeps : forall state action next, invariant state -> condition state action ->
      machine.step state action = some next -> invariant next)
    (needs : forall state action next, invariant state -> machine.step state action = some next -> property next ->
      condition state action)
    (blocked : forall state action, invariant state -> machine.step state action = none -> condition state action)
    {state : State} {actions : List Action} (initial : invariant state) :
    (forall done rest reached, actions = done ++ rest -> machine.run state done = some reached -> property reached) <->
      machine.Along condition state actions := by
  induction actions generalizing state with
  | nil =>
      refine ⟨fun _ => trivial, fun _ done rest reached split ran => ?_⟩
      rw [(List.append_eq_nil_iff.mp split.symm).1] at ran
      exact Option.some.inj ran ▸ holds state initial
  | cons action rest inductionHypothesis =>
      constructor
      · intro always
        have admitted : condition state action := by
          cases stepped : machine.step state action with
          | none => exact blocked state action initial stepped
          | some next =>
              refine needs state action next initial stepped (always [action] rest next rfl ?_)
              rw [run_cons, stepped]
              rfl
        refine ⟨admitted, fun next stepped => ?_⟩
        refine (inductionHypothesis (keeps state action next initial admitted stepped)).mp ?_
        intro done last reached split ran
        refine always (action :: done) last reached (by rw [split]; rfl) ?_
        rw [run_cons, stepped]
        exact ran
      · rintro ⟨admitted, later⟩ done last reached split ran
        cases done with
        | nil => exact Option.some.inj ran ▸ holds state initial
        | cons other done =>
            cases split
            rw [run_cons] at ran
            cases stepped : machine.step state action with
            | none =>
                rw [stepped] at ran
                cases ran
            | some next =>
                rw [stepped] at ran
                have next_along := later next stepped
                exact (inductionHypothesis (keeps state action next initial admitted stepped)).mpr next_along done last
                  reached rfl ran

end Machine

end Library
end Ucore
