import Mathlib.Data.List.Nodup
import Mathlib.Logic.Function.Basic

namespace Ucore
namespace Library

universe u

/-!
# Circular doubly linked lists

Intrusive lists store two pointers in every node.  A memory of such nodes is
a pair of total functions, so stale pointers of unlinked nodes are visible to
the theory.  A *path* is a chain of nodes linked both ways, and a *ring* is a
path without repetition from a head back to itself.

The two edits are insertion between two given nodes and the removal of a
node through its own pointers.  Both are local: an edit touches the pointers
of a node and its two neighbours, and every path that avoids them is kept.
-/

/-- The two pointers of every node, linked or not: nothing is said yet of what
they point to. -/
structure Links (Node : Type u) where
  prev : Node -> Node
  next : Node -> Node

namespace Links

variable {Node : Type u}

/-- Two nodes that point at each other. -/
def Adjacent (links : Links Node) (left right : Node) : Prop :=
  links.next left = right /\ links.prev right = left

/-- The nodes strictly between two ends, in `next` order. -/
def Path (links : Links Node) : Node -> List Node -> Node -> Prop
  | left, [], right => links.Adjacent left right
  | left, node :: rest, right => links.Adjacent left node /\ links.Path node rest right

/-- A circular list: the head followed by distinct members. -/
structure Ring (links : Links Node) (head : Node) (members : List Node) : Prop where
  path : links.Path head members head
  distinct : (head :: members).Nodup

theorem path_append (links : Links Node) (left : Node) (before : List Node) (node : Node)
    (after : List Node) (right : Node) :
    links.Path left (before ++ node :: after) right <->
      links.Path left before node /\ links.Path node after right := by
  induction before generalizing left with
  | nil => rfl
  | cons first rest inductionHypothesis =>
      rw [List.cons_append, Path, Path, inductionHypothesis, and_assoc]

/-- A path reads `next` of its left end and its nodes, and `prev` of its
nodes and its right end. -/
theorem Path.congr {links other : Links Node} {left right : Node} {nodes : List Node}
    (path : links.Path left nodes right)
    (sameNext : forall node, node ∈ left :: nodes -> other.next node = links.next node)
    (samePrev : forall node, node ∈ nodes ++ [right] -> other.prev node = links.prev node) :
    other.Path left nodes right := by
  induction nodes generalizing left with
  | nil =>
      exact ⟨(sameNext left List.mem_cons_self).trans path.1,
        (samePrev right (by simp)).trans path.2⟩
  | cons node rest inductionHypothesis =>
      refine ⟨⟨(sameNext left List.mem_cons_self).trans path.1.1,
        (samePrev node (by simp)).trans path.1.2⟩, ?_⟩
      apply inductionHypothesis path.2
      · intro member found
        exact sameNext member (List.mem_cons_of_mem _ found)
      · intro member found
        exact samePrev member (List.mem_cons_of_mem _ found)

/-- The rightmost node before the right end. -/
theorem Path.prev_right {links : Links Node} {left right : Node} {nodes : List Node}
    (path : links.Path left nodes right) : links.prev right = (left :: nodes).getLast (by simp) := by
  induction nodes generalizing left with
  | nil => exact path.2
  | cons node rest inductionHypothesis =>
      rw [inductionHypothesis path.2, List.getLast_cons_cons]

/-- The leftmost node after the left end. -/
theorem Path.next_left {links : Links Node} {left right : Node} {nodes : List Node}
    (path : links.Path left nodes right) : links.next left = nodes.headD right := by
  cases nodes with
  | nil => exact path.1
  | cons node rest => exact path.1.1

/-- The nodes of a path that avoids its right end are determined by the
pointers. -/
theorem Path.unique {links : Links Node} {left right : Node} {nodes others : List Node}
    (path : links.Path left nodes right) (other : links.Path left others right) (avoids : right ∉ nodes)
    (otherAvoids : right ∉ others) : nodes = others := by
  have next := path.next_left.symm.trans other.next_left
  induction nodes generalizing left others with
  | nil =>
      cases others with
      | nil => rfl
      | cons node rest =>
          have same : right = node := next
          exact absurd (same ▸ List.mem_cons_self) otherAvoids
  | cons node rest inductionHypothesis =>
      cases others with
      | nil =>
          have same : node = right := next
          exact absurd (same ▸ List.mem_cons_self) avoids
      | cons otherNode otherRest =>
          have same : node = otherNode := next
          subst same
          rw [inductionHypothesis path.2 other.2 (List.not_mem_of_not_mem_cons avoids)
            (List.not_mem_of_not_mem_cons otherAvoids) (path.2.next_left.symm.trans other.2.next_left)]

theorem Ring.unique {links : Links Node} {head : Node} {members others : List Node}
    (ring : links.Ring head members) (other : links.Ring head others) : members = others :=
  ring.path.unique other.path (List.nodup_cons.mp ring.distinct).1 (List.nodup_cons.mp other.distinct).1

theorem Ring.backward_distinct {links : Links Node} {head : Node} {members : List Node}
    (ring : links.Ring head members) : (members ++ [head]).Nodup := by
  have distinct := ring.distinct
  rw [List.nodup_append_comm]
  exact distinct

/-- Two pointer memories that agree on the nodes of a ring have the same ring. -/
theorem Ring.congr {links other : Links Node} {head : Node} {members : List Node}
    (ring : links.Ring head members)
    (same : forall node, node ∈ head :: members ->
      other.next node = links.next node /\ other.prev node = links.prev node) :
    other.Ring head members where
  path := by
    apply ring.path.congr
    · exact fun node member => (same node member).1
    · intro node member
      refine (same node ?_).2
      simpa [or_comm] using member
  distinct := ring.distinct

/-- The neighbours a node of a ring points at. -/
theorem Ring.neighbours {links : Links Node} {head node : Node} {before after : List Node}
    (ring : links.Ring head (before ++ node :: after)) :
    links.prev node = (head :: before).getLast (by simp) /\ links.next node = after.headD head := by
  have parts := (links.path_append head before node after head).mp ring.path
  exact ⟨parts.1.prev_right, parts.2.next_left⟩

/-- The neighbours of a member belong to its ring. -/
theorem Ring.neighbours_mem {links : Links Node} {head node : Node} {members : List Node}
    (ring : links.Ring head members) (member : node ∈ head :: members) :
    links.prev node ∈ head :: members /\ links.next node ∈ head :: members := by
  rcases List.mem_cons.mp member with atHead | inside
  · subst atHead
    have last : (node :: members).getLast (by simp) ∈ node :: members := List.getLast_mem (by simp)
    refine ⟨ring.path.prev_right ▸ last, ?_⟩
    rw [ring.path.next_left]
    cases members <;> simp
  · rcases List.append_of_mem inside with ⟨before, after, split⟩
    subst split
    have last : (head :: before).getLast (by simp) ∈ head :: before := List.getLast_mem (by simp)
    refine ⟨ring.neighbours.1 ▸ ?_, ring.neighbours.2 ▸ ?_⟩
    · rcases List.mem_cons.mp last with atHead | inBefore
      · rw [atHead]
        exact List.mem_cons_self
      · exact List.mem_cons_of_mem head (List.mem_append_left _ inBefore)
    · cases after <;> simp

/-- The two nodes at a seam of a ring point at each other. -/
theorem Ring.seam {links : Links Node} {head : Node} {before after : List Node}
    (ring : links.Ring head (before ++ after)) :
    links.Adjacent ((head :: before).getLast (by simp)) (after.headD head) := by
  cases after with
  | nil =>
      rw [List.append_nil] at ring
      refine ⟨?_, ring.path.prev_right⟩
      rcases List.eq_nil_or_concat before with atHead | ⟨first, last, split⟩
      · subst atHead
        exact ring.path.1
      · subst split
        have shifted : links.Ring head (first ++ last :: []) := by simpa using ring
        simpa using shifted.neighbours.2
  | cons node rest =>
      refine ⟨?_, ring.neighbours.1⟩
      rcases List.eq_nil_or_concat before with atHead | ⟨first, last, split⟩
      · subst atHead
        exact ring.path.1.1
      · subst split
        have shifted : links.Ring head (first ++ last :: node :: rest) := by simpa using ring
        simpa using shifted.neighbours.2

/-- In a ring the two pointers undo each other. -/
theorem Ring.prev_next {links : Links Node} {head node : Node} {members : List Node}
    (ring : links.Ring head members) (member : node ∈ head :: members) :
    links.prev (links.next node) = node := by
  rcases List.mem_cons.mp member with atHead | inside
  · have whole : links.Ring head ([] ++ members) := ring
    have seam : links.Adjacent head (members.headD head) := whole.seam
    rw [atHead, seam.1, seam.2]
  · rcases List.append_of_mem inside with ⟨before, after, split⟩
    have shifted : links.Ring head ((before ++ [node]) ++ after) := by simpa [split] using ring
    have seam := shifted.seam
    have last : (head :: (before ++ [node])).getLast (by simp) = node := by simp
    rw [last] at seam
    rw [seam.1, seam.2]

/-! ## Edits -/

section Edits

variable [DecidableEq Node]

/-- Make a node its own neighbour. -/
def reset (links : Links Node) (node : Node) : Links Node where
  prev := Function.update links.prev node node
  next := Function.update links.next node node

/-- Put a node between two given nodes. -/
def insertBetween (links : Links Node) (node left right : Node) : Links Node where
  next := Function.update (Function.update links.next left node) node right
  prev := Function.update (Function.update links.prev right node) node left

/-- Make the two given nodes neighbours. -/
def join (links : Links Node) (left right : Node) : Links Node where
  next := Function.update links.next left right
  prev := Function.update links.prev right left

/-- Remove a node through its own pointers.  The node keeps them. -/
def unlink (links : Links Node) (node : Node) : Links Node :=
  links.join (links.prev node) (links.next node)

theorem insertBetween_next (links : Links Node) (node left right other : Node) :
    (links.insertBetween node left right).next other =
      if other = node then right else if other = left then node else links.next other := by
  simp only [insertBetween, Function.update_apply]

theorem insertBetween_prev (links : Links Node) (node left right other : Node) :
    (links.insertBetween node left right).prev other =
      if other = node then left else if other = right then node else links.prev other := by
  simp only [insertBetween, Function.update_apply]

theorem join_next (links : Links Node) (left right other : Node) :
    (links.join left right).next other = if other = left then right else links.next other := by
  simp only [join, Function.update_apply]

theorem join_prev (links : Links Node) (left right other : Node) :
    (links.join left right).prev other = if other = right then left else links.prev other := by
  simp only [join, Function.update_apply]

/-- Insertion at a seam of a path.  The neighbours are the last node before
the seam and the first one after it, the ends included. -/
theorem Path.insertBetween {links : Links Node} {left right node : Node} {before after : List Node}
    (path : links.Path left (before ++ after) right)
    (forwardDistinct : (left :: (before ++ after)).Nodup)
    (backwardDistinct : (before ++ after ++ [right]).Nodup)
    (fresh : node ∉ left :: (before ++ after)) (notRight : node ≠ right) :
    (links.insertBetween node ((left :: before).getLast (by simp)) (after.headD right)).Path
      left (before ++ node :: after) right := by
  induction before generalizing left with
  | nil =>
      have notLeft : left ≠ node := fun same => fresh (same ▸ List.mem_cons_self)
      refine ⟨⟨?_, ?_⟩, ?_⟩
      · simp [insertBetween_next, notLeft]
      · simp [insertBetween_prev]
      · cases after with
        | nil => exact ⟨by simp [insertBetween_next], by simp [insertBetween_prev, notRight.symm]⟩
        | cons first rest =>
            have notFirst : first ≠ node := fun same => fresh (by simp [same])
            refine ⟨⟨by simp [insertBetween_next], by simp [insertBetween_prev, notFirst]⟩, ?_⟩
            apply Path.congr path.2
            · intro other member
              have notNode : other ≠ node := fun same => fresh (List.mem_cons_of_mem _ (same ▸ member))
              have notLeft' : other ≠ left := fun same =>
                (List.nodup_cons.mp forwardDistinct).1 (same ▸ member)
              simp [insertBetween_next, notNode, notLeft']
            · intro other member
              have notNode : other ≠ node := by
                intro same
                rcases List.mem_append.mp member with inRest | atRight
                · exact fresh (by simp [← same, inRest])
                · exact notRight (same ▸ List.mem_singleton.mp atRight)
              have notFirst' : other ≠ first := by
                intro same
                exact (List.nodup_cons.mp backwardDistinct).1 (same ▸ member)
              simp [insertBetween_prev, notNode, notFirst']
  | cons first rest inductionHypothesis =>
      have distinct := List.nodup_cons.mp forwardDistinct
      have distinctBack := List.nodup_cons.mp backwardDistinct
      have lastMember : (first :: rest).getLast (by simp) ∈ first :: rest := List.getLast_mem (by simp)
      have headMember : after.headD right ∈ after ++ [right] := by
        cases after <;> simp
      have notLeft : left ≠ node := fun same => fresh (same ▸ List.mem_cons_self)
      have notFirst : first ≠ node := fun same => fresh (by simp [same])
      have leftNotLast : left ≠ (first :: rest).getLast (by simp) := by
        intro same
        exact distinct.1 (same ▸ List.mem_append_left after lastMember)
      have firstNotHead : first ≠ after.headD right := by
        intro same
        apply distinctBack.1
        rw [same]
        change after.headD right ∈ rest ++ after ++ [right]
        rw [List.append_assoc]
        exact List.mem_append_right rest headMember
      rw [List.getLast_cons_cons]
      refine ⟨⟨?_, ?_⟩, ?_⟩
      · rw [insertBetween_next, if_neg notLeft, if_neg leftNotLast]
        exact path.1.1
      · rw [insertBetween_prev, if_neg notFirst, if_neg firstNotHead]
        exact path.1.2
      · exact inductionHypothesis path.2 distinct.2 distinctBack.2
          (fun member => fresh (List.mem_cons_of_mem _ member))

/-- Removal of one node of a path by joining its neighbours. -/
theorem Path.join {links : Links Node} {left right node : Node} {before after : List Node}
    (path : links.Path left (before ++ node :: after) right)
    (forwardDistinct : (left :: (before ++ node :: after)).Nodup)
    (backwardDistinct : (before ++ node :: after ++ [right]).Nodup) :
    (links.join ((left :: before).getLast (by simp)) (after.headD right)).Path
      left (before ++ after) right := by
  induction before generalizing left with
  | nil =>
      have forward := List.nodup_cons.mp forwardDistinct
      cases after with
      | nil => exact ⟨by simp [join_next], by simp [join_prev]⟩
      | cons first rest =>
          refine ⟨⟨by simp [join_next], by simp [join_prev]⟩, ?_⟩
          apply Path.congr path.2.2
          · intro other member
            have notLeft : other ≠ left := fun same => forward.1 (List.mem_cons_of_mem _ (same ▸ member))
            simp [join_next, notLeft]
          · intro other member
            have notFirst : other ≠ first := by
              intro same
              exact (List.nodup_cons.mp (List.nodup_cons.mp backwardDistinct).2).1 (same ▸ member)
            simp [join_prev, notFirst]
  | cons first rest inductionHypothesis =>
      have distinct := List.nodup_cons.mp forwardDistinct
      have distinctBack := List.nodup_cons.mp backwardDistinct
      have lastMember : (first :: rest).getLast (by simp) ∈ first :: rest := List.getLast_mem (by simp)
      have headMember : after.headD right ∈ after ++ [right] := by
        cases after <;> simp
      have leftNotLast : left ≠ (first :: rest).getLast (by simp) := by
        intro same
        exact distinct.1 (same ▸ List.mem_append_left (node :: after) lastMember)
      have firstNotHead : first ≠ after.headD right := by
        intro same
        apply distinctBack.1
        rw [same]
        change after.headD right ∈ rest ++ node :: after ++ [right]
        rw [List.append_assoc]
        exact List.mem_append_right rest (List.mem_cons_of_mem node headMember)
      rw [List.getLast_cons_cons]
      refine ⟨⟨?_, ?_⟩, ?_⟩
      · rw [join_next, if_neg leftNotLast]
        exact path.1.1
      · rw [join_prev, if_neg firstNotHead]
        exact path.1.2
      · exact inductionHypothesis path.2 distinct.2 distinctBack.2

/-! ## Rings under the edits -/

/-- A node that points at itself both ways is an empty ring. -/
theorem ring_reset (links : Links Node) (head : Node) : (links.reset head).Ring head [] where
  path := ⟨Function.update_self .., Function.update_self ..⟩
  distinct := by simp

/-- Resetting another node keeps a ring. -/
theorem Ring.reset_other {links : Links Node} {head other : Node} {members : List Node}
    (ring : links.Ring head members) (outside : other ∉ head :: members) :
    (links.reset other).Ring head members := by
  apply ring.congr
  intro node member
  have different : node ≠ other := fun same => outside (same ▸ member)
  exact ⟨Function.update_of_ne different _ _, Function.update_of_ne different _ _⟩

/-- Insertion of a fresh node at a seam of a ring. -/
theorem Ring.insertBetween {links : Links Node} {head node : Node} {before after : List Node}
    (ring : links.Ring head (before ++ after)) (fresh : node ∉ head :: (before ++ after)) :
    (links.insertBetween node ((head :: before).getLast (by simp)) (after.headD head)).Ring head
      (before ++ node :: after) where
  path := ring.path.insertBetween ring.distinct ring.backward_distinct fresh
    (fun same => fresh (same ▸ List.mem_cons_self))
  distinct := by
    have distinct := ring.distinct
    simp only [List.nodup_cons, List.nodup_append, List.mem_append, List.mem_cons] at distinct fresh ⊢
    grind

/-- Removal of a member of a ring through its own pointers. -/
theorem Ring.unlink {links : Links Node} {head node : Node} {before after : List Node}
    (ring : links.Ring head (before ++ node :: after)) :
    (links.unlink node).Ring head (before ++ after) where
  path := by
    rw [Links.unlink, ring.neighbours.1, ring.neighbours.2]
    exact ring.path.join ring.distinct ring.backward_distinct
  distinct := by
    have distinct := ring.distinct
    simp only [List.nodup_cons, List.nodup_append, List.mem_append, List.mem_cons] at distinct ⊢
    grind

/-- Insertion between members of one ring keeps every ring apart from it. -/
theorem Ring.insertBetween_other {links : Links Node} {head node left right : Node}
    {members : List Node} (ring : links.Ring head members)
    (outside : node ∉ head :: members) (leftOutside : left ∉ head :: members)
    (rightOutside : right ∉ head :: members) :
    (links.insertBetween node left right).Ring head members := by
  apply ring.congr
  intro other member
  have notNode : other ≠ node := fun same => outside (same ▸ member)
  have notLeft : other ≠ left := fun same => leftOutside (same ▸ member)
  have notRight : other ≠ right := fun same => rightOutside (same ▸ member)
  exact ⟨by rw [insertBetween_next, if_neg notNode, if_neg notLeft],
    by rw [insertBetween_prev, if_neg notNode, if_neg notRight]⟩

/-- Joining members of one ring keeps every ring apart from it. -/
theorem Ring.join_other {links : Links Node} {head left right : Node}
    {members : List Node} (ring : links.Ring head members)
    (leftOutside : left ∉ head :: members) (rightOutside : right ∉ head :: members) :
    (links.join left right).Ring head members := by
  apply ring.congr
  intro other member
  have notLeft : other ≠ left := fun same => leftOutside (same ▸ member)
  have notRight : other ≠ right := fun same => rightOutside (same ▸ member)
  exact ⟨by rw [join_next, if_neg notLeft], by rw [join_prev, if_neg notRight]⟩

end Edits

end Links

end Library
end Ucore
