import Ucore.Library.Paste

namespace Ucore
namespace Library

universe u

/-!
# Contents of files

A file is the list of its values.  A write replaces a part of it and may go on
past its end, a seek past the end extends it, and a read takes a part of it.
A map from numbers holds the file when it has its values, and `default` after
them.
-/

section Contents

variable {Value : Type u}

/-- `contents` with `data` from a place on. -/
def overwrite (contents : List Value) (offset : Nat) (data : List Value) : List Value :=
  contents.take offset ++ data ++ contents.drop (offset + data.length)

/-- At most `count` values of `contents` from a place on. -/
def readFrom (contents : List Value) (offset count : Nat) : List Value := (contents.drop offset).take count

variable {contents data : List Value} {offset count length : Nat} {default : Value}

theorem length_overwrite (within : offset <= contents.length) :
    (overwrite contents offset data).length = max contents.length (offset + data.length) := by
  unfold overwrite
  rw [List.length_append, List.length_append, List.length_take, List.length_drop]
  omega

@[simp] theorem overwrite_nil : overwrite contents offset [] = contents := by
  unfold overwrite
  rw [List.append_nil, List.length_nil, Nat.add_zero, List.take_append_drop]

theorem getD_overwrite (within : offset <= contents.length) :
    ((overwrite contents offset data).getD · default) =
      paste offset data.length (data.getD · default) (contents.getD · default) := by
  funext place
  have front : (contents.take offset).length = offset := List.length_take_of_le within
  have middle : (contents.take offset ++ data).length = offset + data.length := by
    rw [List.length_append, front]
  unfold overwrite
  by_cases before : place < offset
  · rw [paste_outside (.inl before), List.getD_append _ _ _ _ (by omega), List.getD_append _ _ _ _ (by omega),
      List.getD_eq_getElem?_getD, List.getD_eq_getElem?_getD, List.getElem?_take_of_lt before]
  · by_cases inside : place < offset + data.length
    · rw [paste_inside (Nat.le_of_not_lt before) inside, List.getD_append _ _ _ _ (by omega),
        List.getD_append_right _ _ _ _ (by omega), front]
    · rw [paste_outside (.inr (Nat.le_of_not_lt inside)), List.getD_append_right _ _ _ _ (by omega), middle,
        List.getD_eq_getElem?_getD, List.getD_eq_getElem?_getD, List.getElem?_drop,
        Nat.add_sub_cancel' (Nat.le_of_not_lt inside)]

theorem getD_rightpad : ((contents.rightpad length default).getD · default) = (contents.getD · default) := by
  funext place
  unfold List.rightpad
  by_cases inside : place < contents.length
  · exact List.getD_append _ _ _ _ inside
  · rw [List.getD_append_right _ _ _ _ (Nat.le_of_not_lt inside), List.getD_eq_getElem?_getD,
      List.getElem?_getD_replicate_default_eq, List.getD_eq_default _ _ (Nat.le_of_not_lt inside)]

theorem length_readFrom : (readFrom contents offset count).length = min count (contents.length - offset) := by
  unfold readFrom
  rw [List.length_take, List.length_drop]

/-- What is asked for beyond the end is not there. -/
theorem readFrom_min :
    readFrom contents offset (min count (contents.length - offset)) = readFrom contents offset count := by
  unfold readFrom
  rw [List.take_eq_take_iff, List.length_drop, Nat.min_assoc, Nat.min_self]

/-- The values of a part are those of the map that holds the file. -/
theorem map_getD_eq_readFrom (default : Value) (within : count <= contents.length - offset) :
    (List.range count).map (fun place => contents.getD (offset + place) default) = readFrom contents offset count := by
  refine List.ext_getElem ?_ fun place low high => ?_
  · rw [List.length_map, List.length_range, length_readFrom, Nat.min_eq_left within]
  · rw [List.length_map, List.length_range] at low
    have part : (readFrom contents offset count)[place] = contents[offset + place] :=
      List.getElem_take.trans List.getElem_drop
    rw [List.getElem_map, List.getElem_range, List.getD_eq_getElem _ _ (by omega), part]

/-- The list of the first values of a map -/
theorem getD_map_range {bytes : Nat -> Value} {place : Nat} (low : place < count) :
    ((List.range count).map bytes).getD place default = bytes place := by
  rw [List.getD_eq_getElem _ _ (by rwa [List.length_map, List.length_range]), List.getElem_map, List.getElem_range]

end Contents

end Library
end Ucore
