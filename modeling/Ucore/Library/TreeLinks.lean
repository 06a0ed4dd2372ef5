import Ucore.Library.SkewHeap
import Mathlib.Logic.Function.Basic

namespace Ucore
namespace Library

/-!
# Trees in memory

A node has pointers to its parent and to its two children.  A memory holds a
tree at a pointer if the children of every node are where the node says, and
name it as their parent.  What the root says about its parent is left open,
and so a tree stays one when it is hung below another node.
-/

structure TreeLinks (Node : Type) where
  parent : Option Node
  left : Option Node
  right : Option Node

abbrev TreeMemory (Node : Type) := Node -> TreeLinks Node

namespace TreeMemory

variable {Node : Type}

/-- The node, if there is one, has this parent. -/
def HasParent (memory : TreeMemory Node) (root parent : Option Node) : Prop :=
  forall node, root = some node -> (memory node).parent = parent

def Holds (memory : TreeMemory Node) : SkewHeap Node -> Option Node -> Prop
  | .nil, root => root = none
  | .node left top right, root => root = some top /\
      Holds memory left (memory top).left /\ HasParent memory (memory top).left (some top) /\
      Holds memory right (memory top).right /\ HasParent memory (memory top).right (some top)

section Holding

variable {memory after : TreeMemory Node} {tree : SkewHeap Node} {root : Option Node} {node : Node}

theorem Holds.root_mem (holds : Holds memory tree (some node)) : node ∈ tree.toList := by
  cases tree with
  | nil => cases holds
  | node left top right =>
      rw [Option.some.inj holds.1]
      exact List.mem_cons_self ..

theorem Holds.root_eq_top (holds : Holds memory tree root) : root = tree.top := by
  cases tree with
  | nil => exact holds
  | node left top right => exact holds.1

/-- A tree depends on the children of its nodes, and on the parents of those
that are not the root. -/
theorem Holds.congr (holds : Holds memory tree root) (nodup : tree.toList.Nodup)
    (children : forall node, node ∈ tree.toList -> (after node).left = (memory node).left /\
      (after node).right = (memory node).right)
    (parents : forall node, node ∈ tree.toList -> root ≠ some node -> (after node).parent = (memory node).parent) :
    Holds after tree root := by
  induction tree generalizing root with
  | nil => exact holds
  | node left top right leftHypothesis rightHypothesis =>
      obtain ⟨rfl, leftHolds, leftParent, rightHolds, rightParent⟩ := holds
      obtain ⟨fresh, rest⟩ := List.nodup_cons.mp nodup
      obtain ⟨leftNodup, rightNodup, apart⟩ := List.nodup_append.mp rest
      have here := children top (List.mem_cons_self ..)
      have inLeft : forall node, node ∈ left.toList -> node ∈ (SkewHeap.node left top right).toList :=
        fun _ member => List.mem_cons_of_mem _ (List.mem_append_left _ member)
      have inRight : forall node, node ∈ right.toList -> node ∈ (SkewHeap.node left top right).toList :=
        fun _ member => List.mem_cons_of_mem _ (List.mem_append_right _ member)
      have lower : forall node, node ∈ left.toList ++ right.toList -> (some top : Option Node) ≠ some node := by
        rintro node member ⟨⟩
        exact fresh member
      have leftAfter : Holds after left (memory top).left := by
        refine leftHypothesis leftHolds leftNodup (fun node member => children node (inLeft node member)) ?_
        exact fun node member _ => parents node (inLeft node member) (lower node (List.mem_append_left _ member))
      have rightAfter : Holds after right (memory top).right := by
        refine rightHypothesis rightHolds rightNodup (fun node member => children node (inRight node member)) ?_
        exact fun node member _ => parents node (inRight node member) (lower node (List.mem_append_right _ member))
      refine ⟨rfl, here.1 ▸ leftAfter, ?_, here.2 ▸ rightAfter, ?_⟩
      · intro node child
        rw [here.1] at child
        have member : node ∈ left.toList := (child ▸ leftHolds).root_mem
        rw [parents node (inLeft node member) (lower node (List.mem_append_left _ member))]
        exact leftParent node child
      · intro node child
        rw [here.2] at child
        have member : node ∈ right.toList := (child ▸ rightHolds).root_mem
        rw [parents node (inRight node member) (lower node (List.mem_append_right _ member))]
        exact rightParent node child

/-- Nothing in the tree has changed. -/
theorem Holds.frame (holds : Holds memory tree root) (nodup : tree.toList.Nodup)
    (same : forall node, node ∈ tree.toList -> after node = memory node) : Holds after tree root :=
  holds.congr nodup (fun node member => by rw [same node member]; exact ⟨rfl, rfl⟩)
    fun node member _ => by rw [same node member]

theorem HasParent.frame {parent : Option Node} (has : HasParent memory root parent) (holds : Holds memory tree root)
    (same : forall node, node ∈ tree.toList -> after node = memory node) : HasParent after root parent := by
  intro node here
  rw [same node (here ▸ holds).root_mem]
  exact has node here

/-- A node has a parent in the tree that is above it in the order of the tree,
unless it is the root. -/
theorem Holds.parent_below {below : Node -> Node -> Prop} (holds : Holds memory tree root)
    (ordered : tree.Ordered below) (member : node ∈ tree.toList) : root = some node \/
      Exists fun parent => parent ∈ tree.toList /\ (memory node).parent = some parent /\ below parent node := by
  induction tree generalizing root with
  | nil => exact absurd member List.not_mem_nil
  | node left top right leftHypothesis rightHypothesis =>
      obtain ⟨rfl, leftHolds, leftParent, rightHolds, rightParent⟩ := holds
      rcases List.mem_cons.mp member with rfl | under
      · exact .inl rfl
      · refine .inr ?_
        have child : forall {root : Option Node}, HasParent memory root (some top) -> root = some node ->
            Exists fun parent => parent ∈ (SkewHeap.node left top right).toList /\
              (memory node).parent = some parent /\ below parent node := by
          intro root parent here
          exact ⟨top, List.mem_cons_self .., parent node here, ordered.1 node under⟩
        rcases List.mem_append.mp under with inLeft | inRight
        · rcases leftHypothesis leftHolds ordered.2.1 inLeft with here | ⟨parent, there, is, above⟩
          · exact child leftParent here
          · exact ⟨parent, List.mem_cons_of_mem _ (List.mem_append_left _ there), is, above⟩
        · rcases rightHypothesis rightHolds ordered.2.2 inRight with here | ⟨parent, there, is, above⟩
          · exact child rightParent here
          · exact ⟨parent, List.mem_cons_of_mem _ (List.mem_append_right _ there), is, above⟩

/-- If every node is below its parent, then every node is below all above it. -/
theorem Holds.ordered {below : Node -> Node -> Prop}
    (trans : forall one two three, below one two -> below two three -> below one three) (holds : Holds memory tree root)
    (parents : forall node, node ∈ tree.toList -> root ≠ some node -> forall parent, parent ∈ tree.toList ->
      (memory node).parent = some parent -> below parent node) (nodup : tree.toList.Nodup) : tree.Ordered below := by
  induction tree generalizing root with
  | nil => trivial
  | node left top right leftHypothesis rightHypothesis =>
      obtain ⟨rfl, leftHolds, leftParent, rightHolds, rightParent⟩ := holds
      obtain ⟨fresh, rest⟩ := List.nodup_cons.mp nodup
      obtain ⟨leftNodup, rightNodup, apart⟩ := List.nodup_append.mp rest
      have lower : forall node, node ∈ left.toList ++ right.toList -> (some top : Option Node) ≠ some node := by
        rintro node member ⟨⟩
        exact fresh member
      have leftOrdered : left.Ordered below := by
        refine leftHypothesis leftHolds (fun node member _ parent there => ?_) leftNodup
        exact parents node (List.mem_cons_of_mem _ (List.mem_append_left _ member))
          (lower node (List.mem_append_left _ member)) parent (List.mem_cons_of_mem _ (List.mem_append_left _ there))
      have rightOrdered : right.Ordered below := by
        refine rightHypothesis rightHolds (fun node member _ parent there => ?_) rightNodup
        exact parents node (List.mem_cons_of_mem _ (List.mem_append_right _ member))
          (lower node (List.mem_append_right _ member)) parent (List.mem_cons_of_mem _ (List.mem_append_right _ there))
      -- The child is below the top, and the rest of its tree below the child.
      have child : forall {heap : SkewHeap Node} {root : Option Node}, Holds memory heap root ->
          HasParent memory root (some top) -> heap.Ordered below -> heap.toList ⊆ left.toList ++ right.toList ->
          forall node, node ∈ heap.toList -> below top node := by
        intro heap root holds parent ordered within node member
        cases heap with
        | nil => exact absurd member List.not_mem_nil
        | node under first others =>
            have inside := within (List.mem_cons_self ..)
            have above : below top first := by
              apply parents first (List.mem_cons_of_mem _ inside) (lower first inside) top (List.mem_cons_self ..)
              exact parent first holds.1
            rcases List.mem_cons.mp member with rfl | later
            · exact above
            · exact trans _ _ _ above (ordered.1 node later)
      refine ⟨fun node member => ?_, leftOrdered, rightOrdered⟩
      rcases List.mem_append.mp member with inLeft | inRight
      · exact child leftHolds leftParent leftOrdered (List.subset_append_left ..) node inLeft
      · exact child rightHolds rightParent rightOrdered (List.subset_append_right ..) node inRight

end Holding

end TreeMemory
end Library
end Ucore
