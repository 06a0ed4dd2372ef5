import Mathlib.Logic.Function.Basic

namespace Ucore
namespace Philosophers

/-!
# The table

The philosophers sit in a ring, each between two forks.  Both solutions keep
one state for each of them, and grant both forks to a hungry philosopher when
neither neighbour is eating.

The table also counts, for each philosopher, the calls that ask for the forks
and the grants, which no function reads.
-/

inductive Phase where
  | thinking
  | hungry
  | eating
deriving DecidableEq, Repr

/-- A hungry philosopher has not been granted the forks it asked for. -/
def Phase.owed : Phase -> Nat
  | .hungry => 1
  | _ => 0

variable {size : Nat}

def left (i : Fin size) : Fin size := ⟨(i.val + size - 1) % size, Nat.mod_lt _ i.pos⟩

def right (i : Fin size) : Fin size := ⟨(i.val + 1) % size, Nat.mod_lt _ i.pos⟩

theorem left_right (i : Fin size) : left (right i) = i := by
  apply Fin.ext
  have bound := i.isLt
  change ((i.val + 1) % size + size - 1) % size = i.val
  by_cases last : i.val + 1 = size
  · rw [last, Nat.mod_self, Nat.zero_add, Nat.mod_eq_of_lt (by omega)]
    omega
  · have next : (i.val + 1) % size = i.val + 1 := Nat.mod_eq_of_lt (by omega)
    rw [next, show i.val + 1 + size - 1 = i.val + size by omega, Nat.add_mod_right, Nat.mod_eq_of_lt bound]

theorem right_ne (large : 2 <= size) (i : Fin size) : right i ≠ i := by
  intro same
  have values := congrArg Fin.val same
  have bound := i.isLt
  change (i.val + 1) % size = i.val at values
  by_cases last : i.val + 1 = size
  · rw [last, Nat.mod_self] at values
    omega
  · rw [Nat.mod_eq_of_lt (by omega)] at values
    omega

theorem left_ne (large : 2 <= size) (i : Fin size) : left i ≠ i := by
  intro same
  have values := congrArg Fin.val same
  have bound := i.isLt
  change (i.val + size - 1) % size = i.val at values
  by_cases first : i.val = 0
  · rw [first, Nat.mod_eq_of_lt (by omega)] at values
    omega
  · rw [show i.val + size - 1 = i.val - 1 + size by omega, Nat.add_mod_right, Nat.mod_eq_of_lt (by omega)] at values
    omega

structure Table (size : Nat) where
  state : Fin size -> Phase
  takes : Fin size -> Nat
  wakeups : Fin size -> Nat

/-- Whose forks a call of `phi_test_sema` or `phi_test_condvar` is about. -/
inductive Place where
  | own
  | left
  | right
deriving DecidableEq, Repr

def Place.seat (place : Place) (i : Fin size) : Fin size :=
  match place with
  | .own => i
  | .left => Philosophers.left i
  | .right => Philosophers.right i

namespace Table

/-- The table before the first call. -/
def laid (size : Nat) : Table size where
  state := fun _ => .thinking
  takes := fun _ => 0
  wakeups := fun _ => 0

/-- The condition of `phi_test_sema` and `phi_test_condvar`. -/
def MayEat (table : Table size) (i : Fin size) : Prop :=
  table.state i = .hungry /\ table.state (left i) ≠ .eating /\ table.state (right i) ≠ .eating

instance (table : Table size) (i : Fin size) : Decidable (table.MayEat i) := inferInstanceAs (Decidable (_ /\ _))

/-- `state[i] = HUNGRY` at the start of taking the forks -/
def hungry (table : Table size) (i : Fin size) : Table size :=
  { table with
    state := Function.update table.state i .hungry
    takes := Function.update table.takes i (table.takes i + 1) }

/-- `state[i] = EATING` -/
def eat (table : Table size) (i : Fin size) : Table size :=
  { table with
    state := Function.update table.state i .eating
    wakeups := Function.update table.wakeups i (table.wakeups i + 1) }

/-- `state[i] = THINKING` -/
def think (table : Table size) (i : Fin size) : Table size :=
  { table with state := Function.update table.state i .thinking }

/-- No two neighbours eat, and each call that asks for the forks has been
granted them once, or waits for it. -/
structure Fair (table : Table size) : Prop where
  apart : forall i, ¬ (table.state i = .eating /\ table.state (right i) = .eating)
  matched : forall i, table.takes i = table.wakeups i + (table.state i).owed

theorem fair_laid (size : Nat) : Fair (laid size) where
  apart := fun _ both => nomatch both.1
  matched := fun _ => rfl

theorem Fair.hungry {table : Table size} (fair : Fair table) {i : Fin size} (thinking : table.state i = .thinking) :
    Fair (table.hungry i) where
  apart := fun other both => by
    unfold Table.hungry at both
    dsimp only at both
    rw [Function.update_apply, Function.update_apply] at both
    rcases both with ⟨first, second⟩
    split at first
    · cases first
    · split at second
      · cases second
      · exact fair.apart other ⟨first, second⟩
  matched := fun other => by
    unfold Table.hungry
    dsimp only
    by_cases same : other = i
    · have before := fair.matched i
      rw [thinking] at before
      rw [same, Function.update_self, Function.update_self, before]
      rfl
    · rw [Function.update_of_ne same, Function.update_of_ne same]
      exact fair.matched other

theorem Fair.eat (large : 2 <= size) {table : Table size} (fair : Fair table) {i : Fin size} (may : table.MayEat i) :
    Fair (table.eat i) where
  apart := fun other both => by
    unfold Table.eat at both
    dsimp only at both
    by_cases same : other = i
    · rw [same, Function.update_of_ne (right_ne large i)] at both
      exact may.2.2 both.2
    · rw [Function.update_of_ne same] at both
      by_cases next : right other = i
      · have before : other = left i := by rw [← next, left_right]
        exact may.2.1 (before ▸ both.1)
      · rw [Function.update_of_ne next] at both
        exact fair.apart other both
  matched := fun other => by
    unfold Table.eat
    dsimp only
    by_cases same : other = i
    · have before := fair.matched i
      rw [may.1] at before
      rw [same, Function.update_self, Function.update_self, before]
      rfl
    · rw [Function.update_of_ne same, Function.update_of_ne same]
      exact fair.matched other

theorem Fair.think {table : Table size} (fair : Fair table) {i : Fin size} (eating : table.state i = .eating) :
    Fair (table.think i) where
  apart := fun other both => by
    unfold Table.think at both
    dsimp only at both
    rw [Function.update_apply, Function.update_apply] at both
    rcases both with ⟨first, second⟩
    split at first
    · cases first
    · split at second
      · cases second
      · exact fair.apart other ⟨first, second⟩
  matched := fun other => by
    unfold Table.think
    dsimp only
    by_cases same : other = i
    · have before := fair.matched i
      rw [eating] at before
      rw [same, Function.update_self, before]
      rfl
    · rw [Function.update_of_ne same]
      exact fair.matched other

end Table

end Philosophers
end Ucore
