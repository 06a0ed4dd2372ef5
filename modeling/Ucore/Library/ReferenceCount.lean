import Mathlib.Data.Set.Card
import Mathlib.Logic.Function.Basic

namespace Ucore
namespace Library

universe u v

/-!
# Reference counts

Slots point at objects, and every object of a given set carries a count.
The counts are exact when each equals the number of slots that point at the
object.  Pointing an empty slot at an object and clearing a slot move one
count by one and keep the others.
-/

variable {Slot : Type u} {Object : Type v}

/-- The slots that point at an object. -/
def referrers (target : Slot -> Option Object) (object : Object) : Set Slot :=
  {slot | target slot = some object}

/-- The counts of the given objects are the numbers of their referrers. -/
def Counted (target : Slot -> Option Object) (count : Object -> Int) (objects : Set Object) : Prop :=
  forall object, object ∈ objects ->
    (referrers target object).Finite /\ count object = (referrers target object).ncard

namespace Counted

variable {target : Slot -> Option Object} {count : Object -> Int} {objects : Set Object}

/-- Counts depend only on the listed objects. -/
theorem congr {other : Object -> Int} {fewer : Set Object} (exact : Counted target count objects)
    (subset : fewer ⊆ objects) (same : forall object, object ∈ fewer -> other object = count object) :
    Counted target other fewer := by
  intro object member
  rw [same object member]
  exact exact object (subset member)

theorem pos (exact : Counted target count objects) {slot : Slot} {object : Object}
    (member : object ∈ objects) (points : target slot = some object) : 0 < count object := by
  rcases exact object member with ⟨finite, counted⟩
  have positive := (Set.ncard_pos finite).mpr ⟨slot, points⟩
  omega

theorem eq_zero_iff (exact : Counted target count objects) {object : Object} (member : object ∈ objects) :
    count object = 0 <-> forall slot, target slot ≠ some object := by
  rcases exact object member with ⟨finite, counted⟩
  rw [counted, Int.natCast_eq_zero, Set.ncard_eq_zero finite, Set.eq_empty_iff_forall_notMem]
  rfl

variable [DecidableEq Slot] [DecidableEq Object]

/-- Pointing an empty slot at an object. -/
theorem point (exact : Counted target count objects) {slot : Slot} (vacant : target slot = none)
    (object : Object) :
    Counted (Function.update target slot (some object)) (Function.update count object (count object + 1))
      objects := by
  intro other member
  rcases exact other member with ⟨finite, counted⟩
  by_cases same : other = object
  · subst same
    have grown : referrers (Function.update target slot (some other)) other =
        insert slot (referrers target other) := by
      ext candidate
      change Function.update target slot (some other) candidate = some other <->
        candidate = slot \/ target candidate = some other
      by_cases atSlot : candidate = slot
      · rw [atSlot, Function.update_self]
        simp
      · rw [Function.update_of_ne atSlot]
        simp [atSlot]
    have outside : slot ∉ referrers target other := by
      change target slot ≠ some other
      rw [vacant]
      exact Option.some_ne_none other |>.symm
    rw [grown, Function.update_self, Set.ncard_insert_of_notMem outside finite, counted]
    exact ⟨finite.insert slot, rfl⟩
  · have kept : referrers (Function.update target slot (some object)) other = referrers target other := by
      ext candidate
      change Function.update target slot (some object) candidate = some other <->
        target candidate = some other
      by_cases atSlot : candidate = slot
      · rw [atSlot, Function.update_self, vacant]
        simp [Ne.symm same]
      · rw [Function.update_of_ne atSlot]
    rw [kept, Function.update_of_ne same]
    exact ⟨finite, counted⟩

theorem clear (exact : Counted target count objects) {slot : Slot} {object : Object}
    (points : target slot = some object) :
    Counted (Function.update target slot none) (Function.update count object (count object - 1)) objects := by
  intro other member
  rcases exact other member with ⟨finite, counted⟩
  by_cases same : other = object
  · subst same
    have shrunk : referrers (Function.update target slot none) other = referrers target other \ {slot} := by
      ext candidate
      change Function.update target slot none candidate = some other <->
        target candidate = some other /\ candidate ≠ slot
      by_cases atSlot : candidate = slot
      · rw [atSlot, Function.update_self]
        simp
      · rw [Function.update_of_ne atSlot]
        simp [atSlot]
    have inside : slot ∈ referrers target other := points
    have smaller := Set.ncard_sdiff_singleton_add_one inside finite
    rw [shrunk, Function.update_self]
    exact ⟨finite.sdiff, by omega⟩
  · have kept : referrers (Function.update target slot none) other = referrers target other := by
      ext candidate
      change Function.update target slot none candidate = some other <-> target candidate = some other
      by_cases atSlot : candidate = slot
      · rw [atSlot, Function.update_self, points]
        simp [Ne.symm same]
      · rw [Function.update_of_ne atSlot]
    rw [kept, Function.update_of_ne same]
    exact ⟨finite, counted⟩

/-- A slot points elsewhere, or nowhere. -/
theorem move {later : Object -> Int} (exact : Counted target count Set.univ) (slot : Slot) (next : Option Object)
    (balance : forall object, later object + (if target slot = some object then 1 else 0) =
      count object + (if next = some object then 1 else 0)) :
    Counted (Function.update target slot next) later Set.univ := by
  -- the slot is cleared first
  have cleared : Exists fun without => Counted (Function.update target slot none) without Set.univ /\
      forall object, without object + (if target slot = some object then 1 else 0) = count object := by
    cases points : target slot with
    | none =>
        refine ⟨count, ?_, fun object => by rw [if_neg nofun, Int.add_zero]⟩
        rw [← points, Function.update_eq_self]
        exact exact
    | some old =>
        refine ⟨_, exact.clear points, ?_⟩
        intro object
        by_cases same : object = old
        · rw [same, Function.update_self, if_pos rfl, Int.sub_add_cancel]
        · rw [Function.update_of_ne same, if_neg fun equal => same (Option.some.inj equal).symm, Int.add_zero]
  rcases cleared with ⟨without, counted, counts⟩
  cases next with
  | none =>
      refine counted.congr (fun _ member => member) ?_
      intro object _
      have before := counts object
      have after := balance object
      rw [if_neg (show (none : Option Object) ≠ some object from nofun)] at after
      omega
  | some new =>
      have pointed := counted.point (Function.update_self ..) new
      rw [Function.update_idem] at pointed
      refine pointed.congr (fun _ member => member) ?_
      intro object _
      have before := counts object
      have after := balance object
      by_cases same : object = new
      · rw [same, Function.update_self]
        rw [same] at before after
        rw [if_pos rfl] at after
        omega
      · rw [Function.update_of_ne same]
        rw [if_neg fun equal => same (Option.some.inj equal).symm] at after
        omega

end Counted

end Library
end Ucore
