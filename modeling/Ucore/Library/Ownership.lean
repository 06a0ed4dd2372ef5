import Mathlib.Logic.Function.Basic

namespace Ucore
namespace Library

universe u v

/-!
# Exclusive ownership

Places hold resources.  Ownership is exclusive when no two places hold the
same resource and no held resource is free.  A free resource may move to a
place, and a place may give its resource back.
-/

variable {Place : Type u} {Resource : Type v}

/-- No resource is held twice, and none is held and free. -/
structure Exclusive (holds : Place -> Option Resource) (free : Resource -> Prop) : Prop where
  once : forall first second resource, holds first = some resource -> holds second = some resource ->
    first = second
  inUse : forall place resource, holds place = some resource -> ¬ free resource

namespace Exclusive

variable {holds other : Place -> Option Resource} {free stillFree : Resource -> Prop}

theorem weaken (exclusive : Exclusive holds free)
    (subset : forall place resource, other place = some resource -> holds place = some resource)
    (freed : forall place resource, other place = some resource -> stillFree resource -> free resource) :
    Exclusive other stillFree where
  once := fun first second resource firstHolds secondHolds =>
    exclusive.once first second resource (subset first resource firstHolds) (subset second resource secondHolds)
  inUse := fun place resource held isFree =>
    exclusive.inUse place resource (subset place resource held) (freed place resource held isFree)

variable [DecidableEq Place]

/-- A free resource moves to a place. -/
theorem take (exclusive : Exclusive holds free) {place : Place} {resource : Resource}
    (wasFree : free resource)
    (shrinks : forall other, stillFree other -> free other /\ other ≠ resource) :
    Exclusive (Function.update holds place (some resource)) stillFree where
  once := by
    intro first second held firstHolds secondHolds
    by_cases firstAt : first = place <;> by_cases secondAt : second = place
    · exact firstAt.trans secondAt.symm
    · rw [firstAt, Function.update_self] at firstHolds
      rw [Function.update_of_ne secondAt] at secondHolds
      cases firstHolds
      exact absurd wasFree (exclusive.inUse second resource secondHolds)
    · rw [secondAt, Function.update_self] at secondHolds
      rw [Function.update_of_ne firstAt] at firstHolds
      cases secondHolds
      exact absurd wasFree (exclusive.inUse first resource firstHolds)
    · rw [Function.update_of_ne firstAt] at firstHolds
      rw [Function.update_of_ne secondAt] at secondHolds
      exact exclusive.once first second held firstHolds secondHolds
  inUse := by
    intro candidate held holding isFree
    by_cases atPlace : candidate = place
    · rw [atPlace, Function.update_self] at holding
      cases holding
      exact (shrinks resource isFree).2 rfl
    · rw [Function.update_of_ne atPlace] at holding
      exact exclusive.inUse candidate held holding (shrinks held isFree).1

/-- A place gives its resource back. -/
theorem release (exclusive : Exclusive holds free) {place : Place} {resource : Resource}
    (held : holds place = some resource)
    (grows : forall other, stillFree other -> free other \/ other = resource) :
    Exclusive (Function.update holds place none) stillFree where
  once := by
    intro first second found firstHolds secondHolds
    by_cases firstAt : first = place
    · rw [firstAt, Function.update_self] at firstHolds
      cases firstHolds
    · by_cases secondAt : second = place
      · rw [secondAt, Function.update_self] at secondHolds
        cases secondHolds
      · rw [Function.update_of_ne firstAt] at firstHolds
        rw [Function.update_of_ne secondAt] at secondHolds
        exact exclusive.once first second found firstHolds secondHolds
  inUse := by
    intro candidate found holding isFree
    by_cases atPlace : candidate = place
    · rw [atPlace, Function.update_self] at holding
      cases holding
    · rw [Function.update_of_ne atPlace] at holding
      rcases grows found isFree with wasFree | same
      · exact exclusive.inUse candidate found holding wasFree
      · subst same
        exact atPlace (exclusive.once candidate place found holding held)

end Exclusive

end Library
end Ucore
