import Mathlib.Data.List.Perm.Basic
import Mathlib.Data.List.Nodup

namespace Ucore
namespace Library

/-!
# Skew heaps

A skew heap is a tree whose root is a minimum.  Two heaps are merged along
their right spines, and the children are swapped on the way.  Nothing else is
needed to insert an element or to take one out.

The comparison is any function.  It is trusted on the elements at hand only,
where it has to agree with a transitive relation.
-/

inductive SkewHeap (Element : Type) where
  | nil
  | node (left : SkewHeap Element) (root : Element) (right : SkewHeap Element)

namespace SkewHeap

variable {Element : Type}

def toList : SkewHeap Element -> List Element
  | nil => []
  | node left root right => root :: (left.toList ++ right.toList)

/-- The element at the top. -/
def top : SkewHeap Element -> Option Element
  | nil => none
  | node _ root _ => some root

/-- Merge a heap, of which the right child can be merged already, into the
right spine of another one. -/
def mergeInto (before : Element -> Element -> Bool) (left : SkewHeap Element) (root : Element)
    (right : SkewHeap Element) (mergeRight : SkewHeap Element -> SkewHeap Element) :
    SkewHeap Element -> SkewHeap Element
  | nil => node left root right
  | node otherLeft other otherRight =>
      if before root other then node (mergeRight (node otherLeft other otherRight)) root left
      else node (mergeInto before left root right mergeRight otherRight) other otherLeft

def merge (before : Element -> Element -> Bool) : SkewHeap Element -> SkewHeap Element -> SkewHeap Element
  | nil => fun other => other
  | node left root right => mergeInto before left root right (merge before right)

def insert (before : Element -> Element -> Bool) (heap : SkewHeap Element) (element : Element) : SkewHeap Element :=
  merge before heap (node nil element nil)

/-- Put the merged children of an element in its place. -/
def remove [DecidableEq Element] (before : Element -> Element -> Bool) (element : Element) :
    SkewHeap Element -> SkewHeap Element
  | nil => nil
  | node left root right =>
      if root = element then merge before left right
      else node (remove before element left) root (remove before element right)

section Merging

variable {before : Element -> Element -> Bool}

@[simp] theorem merge_nil_left (heap : SkewHeap Element) : merge before nil heap = heap := rfl

@[simp] theorem merge_nil_right (heap : SkewHeap Element) : merge before heap nil = heap := by
  cases heap <;> rfl

theorem merge_node (left : SkewHeap Element) (root : Element) (right otherLeft : SkewHeap Element) (other : Element)
    (otherRight : SkewHeap Element) : merge before (node left root right) (node otherLeft other otherRight) =
      if before root other then node (merge before right (node otherLeft other otherRight)) root left
      else node (merge before (node left root right) otherRight) other otherLeft := rfl

/-- Induction along the spines that a merge walks. -/
theorem merge_induction {motive : SkewHeap Element -> SkewHeap Element -> Prop} (empty : forall heap, motive nil heap)
    (emptyRight : forall heap, motive heap nil)
    (step : forall left root right otherLeft other otherRight, motive right (node otherLeft other otherRight) ->
      motive (node left root right) otherRight -> motive (node left root right) (node otherLeft other otherRight)) :
    forall first second, motive first second := by
  intro first
  induction first with
  | nil => exact empty
  | node left root right _ rightHypothesis =>
      intro second
      induction second with
      | nil => exact emptyRight _
      | node otherLeft other otherRight _ otherHypothesis =>
          exact step left root right otherLeft other otherRight (rightHypothesis _) otherHypothesis

/-- Merging loses nothing and adds nothing. -/
theorem merge_perm (first second : SkewHeap Element) :
    (merge before first second).toList.Perm (first.toList ++ second.toList) := by
  induction first, second using merge_induction with
  | empty heap => exact List.Perm.refl _
  | emptyRight heap =>
      rw [merge_nil_right, toList, List.append_nil]
  | step left root right otherLeft other otherRight rightHypothesis otherHypothesis =>
      rw [merge_node]
      split
      · have inner : ((merge before right (node otherLeft other otherRight)).toList ++ left.toList).Perm
            ((left.toList ++ right.toList) ++ (node otherLeft other otherRight).toList) := by
          refine (rightHypothesis.append_right _).trans (List.perm_append_comm.trans ?_)
          rw [List.append_assoc]
        exact List.Perm.cons root inner
      · have inner : ((merge before (node left root right) otherRight).toList ++ otherLeft.toList).Perm
            ((node left root right).toList ++ (otherLeft.toList ++ otherRight.toList)) := by
          refine (otherHypothesis.append_right _).trans ?_
          rw [List.append_assoc]
          exact List.Perm.append_left _ List.perm_append_comm
        exact (List.Perm.cons other inner).trans List.perm_middle.symm

/-- The top of one of the heaps becomes that of both. -/
theorem merge_top (first second : SkewHeap Element) :
    (merge before first second).top = first.top \/ (merge before first second).top = second.top := by
  cases first with
  | nil => exact .inr rfl
  | node left root right =>
      cases second with
      | nil => exact .inl rfl
      | node otherLeft other otherRight =>
          rw [merge_node]
          split
          · exact .inl rfl
          · exact .inr rfl

theorem mem_merge {first second : SkewHeap Element} {element : Element} :
    element ∈ (merge before first second).toList <-> element ∈ first.toList \/ element ∈ second.toList := by
  rw [(merge_perm first second).mem_iff, List.mem_append]

theorem insert_perm (heap : SkewHeap Element) (element : Element) :
    (insert before heap element).toList.Perm (element :: heap.toList) :=
  (merge_perm heap (node nil element nil)).trans List.perm_append_comm

end Merging

/-! ## Order -/

/-- Every element is below those under it. -/
def Ordered (below : Element -> Element -> Prop) : SkewHeap Element -> Prop
  | nil => True
  | node left root right =>
      (forall element, element ∈ left.toList ++ right.toList -> below root element) /\ Ordered below left /\
        Ordered below right

/-- The comparison agrees with a relation on the elements of a list. -/
def Agrees (before : Element -> Element -> Bool) (below : Element -> Element -> Prop) (elements : List Element) :
    Prop :=
  forall first, first ∈ elements -> forall second, second ∈ elements ->
    (before first second = true -> below first second) /\ (before first second = false -> below second first)

section Ordering

variable {before : Element -> Element -> Bool} {below : Element -> Element -> Prop} {first second : SkewHeap Element}

theorem Agrees.mono {elements fewer : List Element} (agrees : Agrees before below elements)
    (within : fewer ⊆ elements) : Agrees before below fewer :=
  fun one here other there => agrees one (within here) other (within there)

/-- The top of an ordered heap is a minimum. -/
theorem Ordered.top_below (refl : forall element, below element element) {heap : SkewHeap Element} {root : Element}
    (ordered : heap.Ordered below) (top : heap.top = some root) : forall element, element ∈ heap.toList ->
      below root element := by
  cases heap with
  | nil => cases top
  | node left other right =>
      cases top
      intro element member
      rcases List.mem_cons.mp member with rfl | under
      · exact refl _
      · exact ordered.1 element under

theorem merge_ordered (trans : forall one two three, below one two -> below two three -> below one three)
    (agrees : Agrees before below (first.toList ++ second.toList)) (firstOrdered : first.Ordered below)
    (secondOrdered : second.Ordered below) : (merge before first second).Ordered below := by
  induction first, second using merge_induction with
  | empty heap => exact secondOrdered
  | emptyRight heap =>
      rw [merge_nil_right]
      exact firstOrdered
  | step left root right otherLeft other otherRight rightHypothesis otherHypothesis =>
      have roots := agrees root (List.mem_append_left _ (List.mem_cons_self ..)) other
        (List.mem_append_right _ (List.mem_cons_self ..))
      rw [merge_node]
      cases compared : before root other with
      | true =>
          have rootBelow := roots.1 compared
          rw [if_pos rfl]
          refine ⟨?_, ?_, firstOrdered.2.1⟩
          · intro element member
            rcases List.mem_append.mp member with merged | under
            · rcases mem_merge.mp merged with under | excess
              · exact firstOrdered.1 element (List.mem_append_right _ under)
              · rcases List.mem_cons.mp excess with rfl | later
                · exact rootBelow
                · exact trans _ _ _ rootBelow (secondOrdered.1 element later)
            · exact firstOrdered.1 element (List.mem_append_left _ under)
          · apply rightHypothesis
            · refine agrees.mono (List.append_subset.mpr ⟨?_, List.subset_append_right ..⟩)
              exact fun element member =>
                List.mem_append_left _ (List.mem_cons_of_mem _ (List.mem_append_right _ member))
            · exact firstOrdered.2.2
            · exact secondOrdered
      | false =>
          have otherBelow := roots.2 compared
          rw [if_neg Bool.false_ne_true]
          refine ⟨?_, ?_, secondOrdered.2.1⟩
          · intro element member
            rcases List.mem_append.mp member with merged | under
            · rcases mem_merge.mp merged with excess | under
              · rcases List.mem_cons.mp excess with rfl | later
                · exact otherBelow
                · exact trans _ _ _ otherBelow (firstOrdered.1 element later)
              · exact secondOrdered.1 element (List.mem_append_right _ under)
            · exact secondOrdered.1 element (List.mem_append_left _ under)
          · apply otherHypothesis
            · refine agrees.mono (List.append_subset.mpr ⟨List.subset_append_left .., ?_⟩)
              exact fun element member =>
                List.mem_append_right _ (List.mem_cons_of_mem _ (List.mem_append_right _ member))
            · exact firstOrdered
            · exact secondOrdered.2.2

theorem insert_ordered {heap : SkewHeap Element} {element : Element}
    (trans : forall one two three, below one two -> below two three -> below one three)
    (agrees : Agrees before below (element :: heap.toList)) (ordered : heap.Ordered below) :
    (insert before heap element).Ordered below := by
  apply merge_ordered trans _ ordered
  · exact ⟨fun _ member => absurd member List.not_mem_nil, trivial, trivial⟩
  · exact agrees.mono List.perm_append_comm.subset

/-- The order matters only for elements of the heap. -/
theorem Ordered.congr {other : Element -> Element -> Prop} {heap : SkewHeap Element} (ordered : heap.Ordered below)
    (same : forall one, one ∈ heap.toList -> forall two, two ∈ heap.toList -> below one two -> other one two) :
    heap.Ordered other := by
  induction heap with
  | nil => trivial
  | node left root right leftHypothesis rightHypothesis =>
      have inLeft : forall element, element ∈ left.toList -> element ∈ (node left root right).toList :=
        fun _ member => List.mem_cons_of_mem _ (List.mem_append_left _ member)
      have inRight : forall element, element ∈ right.toList -> element ∈ (node left root right).toList :=
        fun _ member => List.mem_cons_of_mem _ (List.mem_append_right _ member)
      refine ⟨?_, ?_, ?_⟩
      · exact fun element member => same root (List.mem_cons_self ..) element (List.mem_cons_of_mem _ member)
          (ordered.1 element member)
      · exact leftHypothesis ordered.2.1 fun one here two there => same one (inLeft one here) two (inLeft two there)
      · exact rightHypothesis ordered.2.2 fun one here two there => same one (inRight one here) two (inRight two there)

/-- The children of the top, merged. -/
theorem remove_top [DecidableEq Element] {left right : SkewHeap Element} {root : Element} :
    remove before root (node left root right) = merge before left right := if_pos rfl

end Ordering

/-! ## Removal -/

section Removal

variable [DecidableEq Element] {before : Element -> Element -> Bool} {heap : SkewHeap Element} {element : Element}

theorem remove_not_mem (absent : element ∉ heap.toList) : remove before element heap = heap := by
  induction heap with
  | nil => rfl
  | node left root right leftHypothesis rightHypothesis =>
      have different : root ≠ element := by
        rintro rfl
        exact absent (List.mem_cons_self ..)
      have inLeft : element ∉ left.toList :=
        fun member => absent (List.mem_cons_of_mem _ (List.mem_append_left _ member))
      have inRight : element ∉ right.toList :=
        fun member => absent (List.mem_cons_of_mem _ (List.mem_append_right _ member))
      rw [remove, if_neg different, leftHypothesis inLeft, rightHypothesis inRight]

theorem remove_subset : (remove before element heap).toList ⊆ heap.toList := by
  induction heap with
  | nil => exact List.Subset.refl _
  | node left root right leftHypothesis rightHypothesis =>
      rw [remove]
      split
      · intro other member
        exact List.mem_cons_of_mem _ (List.mem_append.mpr (mem_merge.mp member))
      · intro other member
        rcases List.mem_cons.mp member with rfl | under
        · exact List.mem_cons_self ..
        · refine List.mem_cons_of_mem _ (List.mem_append.mpr ?_)
          exact (List.mem_append.mp under).imp (@leftHypothesis other) (@rightHypothesis other)

theorem remove_perm (nodup : heap.toList.Nodup) (member : element ∈ heap.toList) :
    heap.toList.Perm (element :: (remove before element heap).toList) := by
  induction heap with
  | nil => exact absurd member List.not_mem_nil
  | node left root right leftHypothesis rightHypothesis =>
      obtain ⟨fresh, rest⟩ := List.nodup_cons.mp nodup
      obtain ⟨leftNodup, rightNodup, apart⟩ := List.nodup_append.mp rest
      rw [remove]
      by_cases here : root = element
      · rw [if_pos here, here]
        exact List.Perm.cons element (merge_perm left right).symm
      · rw [if_neg here]
        have under := (List.mem_cons.mp member).resolve_left (Ne.symm here)
        refine List.Perm.trans ?_ (List.Perm.swap element root _)
        refine List.Perm.cons root ?_
        rcases List.mem_append.mp under with inLeft | inRight
        · have absent : element ∉ right.toList := fun inRight => apart element inLeft element inRight rfl
          rw [remove_not_mem absent]
          exact (leftHypothesis leftNodup inLeft).append_right _
        · have absent : element ∉ left.toList := fun inLeft => apart element inLeft element inRight rfl
          rw [remove_not_mem absent]
          exact ((rightHypothesis rightNodup inRight).append_left _).trans List.perm_middle

theorem remove_ordered {below : Element -> Element -> Prop}
    (trans : forall one two three, below one two -> below two three -> below one three)
    (agrees : Agrees before below heap.toList) (ordered : heap.Ordered below) :
    (remove before element heap).Ordered below := by
  induction heap with
  | nil => trivial
  | node left root right leftHypothesis rightHypothesis =>
      have lower : left.toList ++ right.toList ⊆ (node left root right).toList := List.subset_cons_self ..
      rw [remove]
      split
      · exact merge_ordered trans (agrees.mono lower) ordered.2.1 ordered.2.2
      · refine ⟨fun other member => ordered.1 other ?_, ?_, ?_⟩
        · exact List.mem_append.mpr ((List.mem_append.mp member).imp (@remove_subset _ _ before left element other)
            (@remove_subset _ _ before right element other))
        · exact leftHypothesis (agrees.mono (List.Subset.trans (List.subset_append_left ..) lower)) ordered.2.1
        · exact rightHypothesis (agrees.mono (List.Subset.trans (List.subset_append_right ..) lower)) ordered.2.2

end Removal

end SkewHeap
end Library
end Ucore
