import Mathlib.Logic.Function.Basic
import Mathlib.Data.List.GetD

namespace Ucore
namespace Library

universe u

/-!
# Copying into a map

A map from numbers gets the first values of another one from a place on.
Copies that follow each other are one copy.
-/

/-- `target` with the first `length` values of `source` from `start` on. -/
def paste {Value : Type u} (start length : Nat) (source target : Nat -> Value) : Nat -> Value :=
  fun place => if start <= place /\ place < start + length then source (place - start) else target place

section Paste

variable {Value : Type u} {start length more place : Nat} {source other target : Nat -> Value}

theorem paste_inside (low : start <= place) (high : place < start + length) :
    paste start length source target place = source (place - start) := if_pos ⟨low, high⟩

theorem paste_outside (outside : place < start \/ start + length <= place) :
    paste start length source target place = target place := if_neg (by omega)

@[simp] theorem paste_zero : paste start 0 source target = target := by
  funext place
  exact paste_outside (by omega)

theorem paste_congr (same : forall index, index < length -> source index = other index) :
    paste start length source target = paste start length other target := by
  funext place
  by_cases inside : start <= place /\ place < start + length
  · rw [paste_inside inside.1 inside.2, paste_inside inside.1 inside.2]
    exact same _ (by omega)
  · rw [paste_outside (by omega), paste_outside (by omega)]

theorem paste_append : paste (start + length) more (fun index => source (length + index))
    (paste start length source target) = paste start (length + more) source target := by
  funext place
  by_cases later : start + length <= place /\ place < start + length + more
  · rw [paste_inside later.1 later.2, paste_inside (by omega) (by omega)]
    congr 1
    omega
  · rw [paste_outside (by omega)]
    by_cases earlier : start <= place /\ place < start + length
    · rw [paste_inside earlier.1 earlier.2, paste_inside (by omega) (by omega)]
    · rw [paste_outside (by omega), paste_outside (by omega)]

theorem paste_one : paste start 1 source target = Function.update target start (source 0) := by
  funext place
  by_cases here : place = start
  · rw [here, paste_inside (by omega) (by omega), Function.update_self, Nat.sub_self]
  · rw [paste_outside (by omega), Function.update_of_ne here]

/-- One copy is put in front of another. -/
theorem paste_before : paste start length source
    (paste (start + length) more (fun index => source (length + index)) target) =
      paste start (length + more) source target := by
  funext place
  by_cases inside : start <= place /\ place < start + length
  · rw [paste_inside inside.1 inside.2, paste_inside (by omega) (by omega)]
  · rw [paste_outside (by omega), ← paste_append]
    by_cases later : start + length <= place /\ place < start + length + more
    · rw [paste_inside later.1 later.2, paste_inside later.1 later.2]
    · rw [paste_outside (by omega), paste_outside (by omega), paste_outside (by omega)]

section Lists

variable {first second : List Value} {default : Value}

/-- A list is copied part by part, -/
theorem paste_list_append : paste (start + first.length) second.length (second.getD · default)
    (paste start first.length (first.getD · default) target) =
      paste start (first ++ second).length ((first ++ second).getD · default) target := by
  have front : paste start first.length (first.getD · default) target =
      paste start first.length ((first ++ second).getD · default) target :=
    paste_congr fun index low => (List.getD_append first second default index low).symm
  have back : (second.getD · default) = fun index => (first ++ second).getD (first.length + index) default := by
    funext index
    rw [List.getD_append_right _ _ _ _ (Nat.le_add_right ..), Nat.add_sub_cancel_left]
  rw [front, back, List.length_append]
  exact @paste_append Value start first.length second.length ((first ++ second).getD · default) target

/-- or the parts from the last one on. -/
theorem paste_list_before : paste start first.length (first.getD · default)
    (paste (start + first.length) second.length (second.getD · default) target) =
      paste start (first ++ second).length ((first ++ second).getD · default) target := by
  have back : (second.getD · default) = fun index => (first ++ second).getD (first.length + index) default := by
    funext index
    rw [List.getD_append_right _ _ _ _ (Nat.le_add_right ..), Nat.add_sub_cancel_left]
  have front : forall other : Nat -> Value, paste start first.length (first.getD · default) other =
      paste start first.length ((first ++ second).getD · default) other :=
    fun other => paste_congr fun index low => (List.getD_append first second default index low).symm
  rw [front, back, List.length_append]
  exact @paste_before Value start first.length second.length ((first ++ second).getD · default) target

end Lists

end Paste

end Library
end Ucore
