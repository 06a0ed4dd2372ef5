import Ucore.Library.Program

namespace Ucore
namespace Library
namespace Program

/-!
# What programs leave alone

A view of the state that no step of a program changes is the same after every
ending of it.  There is one rule for every way to build a program.
-/

variable {State Error Fault Value Next View : Type}

/-- However the program returns or fails, the view of the state is the same. -/
structure Fixes (view : State -> View) (program : Program State Error Fault Value) : Prop where
  meets : forall state, Meets program state
    ⟨fun _ after => view after = view state, fun _ after => view after = view state, fun _ => True⟩

variable {view : State -> View} {program other : Program State Error Fault Value}
  {next : Value -> Program State Error Fault Next} {cleanup : Program State Error Fault Unit}

@[simp] theorem fixes_pure (value : Value) : Fixes view (pure value : Program State Error Fault Value) :=
  ⟨fun _ => rfl⟩

@[simp] theorem fixes_get : Fixes view (get : Program State Error Fault State) := ⟨fun _ => rfl⟩

@[simp] theorem fixes_throw (error : Error) : Fixes view (throw error : Program State Error Fault Value) :=
  ⟨fun _ => rfl⟩

@[simp] theorem fixes_halt (fault : Fault) : Fixes view (halt fault : Program State Error Fault Value) :=
  ⟨fun _ => trivial⟩

theorem fixes_modify {change : State -> State} (same : forall state, view (change state) = view state) :
    Fixes view (modify change : Program State Error Fault Unit) := ⟨same⟩

@[simp] theorem fixes_assert (condition : Prop) [Decidable condition] (fault : Fault) :
    Fixes view (assert condition fault : Program State Error Fault Unit) :=
  ⟨fun _ => (meets_assert condition fault).mpr ⟨fun _ => rfl, fun _ => trivial⟩⟩

@[simp] theorem Fixes.bind (first : Fixes view program) (second : forall value, Fixes view (next value)) :
    Fixes view (program >>= next) := by
  refine ⟨fun state => ?_⟩
  rw [meets_bind]
  refine (first.meets state).mono ?_ (fun _ _ same => same) (fun _ stopped => stopped)
  intro value middle same
  refine ((second value).meets middle).mono ?_ ?_ (fun _ stopped => stopped)
  · exact fun _ _ later => later.trans same
  · exact fun _ _ later => later.trans same

@[simp] theorem Fixes.ite {condition : Prop} [Decidable condition] (first : Fixes view program)
    (second : Fixes view other) : Fixes view (if condition then program else other) := by
  split
  · exact first
  · exact second

@[simp] theorem Fixes.dite {condition : Prop} [Decidable condition]
    {left : condition -> Program State Error Fault Value} {right : ¬ condition -> Program State Error Fault Value}
    (first : forall holds, Fixes view (left holds)) (second : forall fails, Fixes view (right fails)) :
    Fixes view (if holds : condition then left holds else right holds) := by
  split
  · exact first _
  · exact second _

@[simp] theorem Fixes.attempt (first : Fixes view program) : Fixes view (attempt program) :=
  ⟨fun state => meets_attempt.mpr (first.meets state)⟩

@[simp] theorem Fixes.onError (first : Fixes view program) (second : Fixes view cleanup) :
    Fixes view (onError program cleanup) := by
  refine ⟨fun state => meets_onError.mpr ?_⟩
  refine (first.meets state).mono (fun _ _ same => same) ?_ (fun _ stopped => stopped)
  intro _ middle same
  refine (second.meets middle).mono ?_ ?_ (fun _ stopped => stopped)
  · exact fun _ _ later => later.trans same
  · exact fun _ _ later => later.trans same

theorem fixes_forRange {body : Nat -> Program State Error Fault Unit}
    (step : forall number, Fixes view (body number)) (start count : Nat) : Fixes view (forRange body start count) := by
  induction count generalizing start with
  | zero => exact fixes_pure ()
  | succ count inductionHypothesis => exact (step start).bind fun _ => inductionHypothesis (start + 1)

/-- What comes before the part that matters -/
theorem Fixes.before {base : View} {state : State} {done : Next -> State -> Prop} (first : Fixes view program)
    (here : view state = base)
    (rest : forall value middle, view middle = base ->
      Meets (next value) middle ⟨done, fun _ _ => True, fun _ => True⟩) :
    Meets (program >>= next) state ⟨done, fun _ _ => True, fun _ => True⟩ := by
  rw [meets_bind]
  exact (first.meets state).mono (fun value middle same => rest value middle (same.trans here))
    (fun _ _ _ => trivial) (fun _ _ => trivial)

end Program
end Library
end Ucore
