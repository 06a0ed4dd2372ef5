import Ucore.Library.Program

namespace Ucore
namespace Library

/-!
# Simulation of programs

Two programs over different states run alike when they end in the same way,
with the same result, error or fault, and in related states.  The rules follow
the ways to build a program, so a concrete module is compared with an abstract
one call by call, and runs of calls then agree.
-/

/-- Two programs have ended in the same way, in related states. -/
inductive Alike {State Other Error Fault Value : Type} (related : State -> Other -> Prop) :
    Outcome State Error Fault Value -> Outcome Other Error Fault Value -> Prop where
  | done {value : Value} {state : State} {other : Other} (holds : related state other) :
      Alike related (.done value state) (.done value other)
  | fail {error : Error} {state : State} {other : Other} (holds : related state other) :
      Alike related (.fail error state) (.fail error other)
  | stop {fault : Fault} : Alike related (.stop fault) (.stop fault)

namespace Program

variable {State Other Error Fault Value Next Call : Type} {related : State -> Other -> Prop}

/-- From related states the programs run alike. -/
def Simulates (related : State -> Other -> Prop) (program : Program State Error Fault Value)
    (image : Program Other Error Fault Value) : Prop :=
  forall state other, related state other -> Alike related (program state) (image other)

/-- Make the calls in order; an error is a reply. -/
def serve (perform : Call -> Program State Error Fault Value) :
    List Call -> Program State Error Fault (List (Except Error Value))
  | [] => pure []
  | call :: rest =>
      attempt (perform call) >>= fun reply => serve perform rest >>= fun replies => pure (reply :: replies)

theorem simulates_pure (value : Value) :
    Simulates related (pure value : Program State Error Fault Value) (pure value) :=
  fun _ _ holds => .done holds

theorem simulates_modify {change : State -> State} {alter : Other -> Other}
    (kept : forall state other, related state other -> related (change state) (alter other)) :
    Simulates related (modify change : Program State Error Fault Unit) (modify alter) :=
  fun state other holds => .done (kept state other holds)

theorem bind_done {program : Program State Error Fault Value} {next : Value -> Program State Error Fault Next}
    {state after : State} {value : Value} (ran : program state = .done value after) :
    (program >>= next) state = next value after := by
  simp only [bind, ran]

theorem bind_fail {program : Program State Error Fault Value} {next : Value -> Program State Error Fault Next}
    {state after : State} {error : Error} (ran : program state = .fail error after) :
    (program >>= next) state = .fail error after := by
  simp only [bind, ran]

theorem bind_stop {program : Program State Error Fault Value} {next : Value -> Program State Error Fault Next}
    {state : State} {fault : Fault} (ran : program state = .stop fault) : (program >>= next) state = .stop fault := by
  simp only [bind, ran]

theorem Simulates.bind {program : Program State Error Fault Value} {image : Program Other Error Fault Value}
    {next : Value -> Program State Error Fault Next} {follow : Value -> Program Other Error Fault Next}
    (first : Simulates related program image) (second : forall value, Simulates related (next value) (follow value)) :
    Simulates related (program >>= next) (image >>= follow) := by
  intro state other holds
  have ended := first state other holds
  generalize ran : program state = outcome at ended
  generalize went : image other = result at ended
  cases ended with
  | done holds =>
    rw [bind_done ran, bind_done went]
    exact second _ _ _ holds
  | fail holds =>
    rw [bind_fail ran, bind_fail went]
    exact .fail holds
  | stop =>
    rw [bind_stop ran, bind_stop went]
    exact .stop

/-- What the programs do may depend on what they read. -/
theorem simulates_get {next : State -> Program State Error Fault Value}
    {follow : Other -> Program Other Error Fault Value}
    (reads : forall state other, related state other -> Simulates related (next state) (follow other)) :
    Simulates related (get >>= next) (get >>= follow) :=
  fun state other holds => reads state other holds state other holds

theorem Simulates.attempt {program : Program State Error Fault Value} {image : Program Other Error Fault Value}
    (alike : Simulates related program image) :
    Simulates related (Program.attempt program) (Program.attempt image) := by
  intro state other holds
  have ended := alike state other holds
  unfold Program.attempt
  generalize program state = outcome at ended
  generalize image other = result at ended
  cases ended with
  | done holds => exact .done holds
  | fail holds => exact .done holds
  | stop => exact .stop

/-- Programs of different shape are compared by what each of them meets. -/
theorem alike_of_meets {program : Program State Error Fault Value} {image : Program Other Error Fault Value}
    {state : State} {other : Other}
    (meets : Meets program state
      ⟨fun value after =>
        Meets image other ⟨fun result final => result = value /\ related after final, fun _ _ => False, fun _ => False⟩,
        fun error after =>
          Meets image other ⟨fun _ _ => False, fun code final => code = error /\ related after final, fun _ => False⟩,
        fun fault => Meets image other ⟨fun _ _ => False, fun _ _ => False, fun broken => broken = fault⟩⟩) :
    Alike related (program state) (image other) := by
  unfold Meets at meets
  generalize program state = outcome at meets
  generalize image other = result at meets
  cases outcome with
  | done value after =>
    cases result with
    | done value final => exact meets.1 ▸ .done meets.2
    | fail error final => exact meets.elim
    | stop fault => exact meets.elim
  | fail error after =>
    cases result with
    | done value final => exact meets.elim
    | fail error final => exact meets.1 ▸ .fail meets.2
    | stop fault => exact meets.elim
  | stop fault =>
    cases result with
    | done value final => exact meets.elim
    | fail error final => exact meets.elim
    | stop broken => exact meets ▸ .stop

/-- Runs of calls agree when the calls do. -/
theorem Simulates.serve {perform : Call -> Program State Error Fault Value}
    {image : Call -> Program Other Error Fault Value} {calls : List Call}
    (alike : forall call, call ∈ calls -> Simulates related (perform call) (image call)) :
    Simulates related (Program.serve perform calls) (Program.serve image calls) := by
  induction calls with
  | nil => exact simulates_pure []
  | cons call rest inductionHypothesis =>
    refine (alike call List.mem_cons_self).attempt.bind fun reply => ?_
    exact (inductionHypothesis fun other member => alike other (List.mem_cons_of_mem _ member)).bind fun replies =>
      simulates_pure _

end Program

end Library
end Ucore
