import Mathlib.Data.List.Nodup
import Mathlib.Logic.Function.Basic

namespace Ucore
namespace Library

universe u

/-!
# Chains

A chain is a list that is kept in the nodes themselves: each has a link to the
next node and one to the node before it.  The first node's link back may name a
node in front of the chain, so that the rest of a chain is a chain as well.
-/

variable {Node : Type u}

/-- Set the link of a node, if there is one. -/
def relink [DecidableEq Node] (link : Node -> Option Node) : Option Node -> Option Node -> Node -> Option Node
  | none, _ => link
  | some node, target => Function.update link node target

/-- The nodes that are met from the head on, in order. -/
def Chain (next back : Node -> Option Node) : Option Node -> Option Node -> List Node -> Prop
  | head, _, [] => head = none
  | head, before, node :: rest =>
      head = some node /\ back node = before /\ Chain next back (next node) (some node) rest

section

variable [DecidableEq Node]

theorem relink_other {link : Node -> Option Node} {at_ target : Option Node} {node : Node} (other : at_ ≠ some node) :
    relink link at_ target node = link node := by
  cases at_ with
  | none => rfl
  | some changed => exact Function.update_of_ne (fun same => other (congrArg some same.symm)) _ _

theorem relink_self (link : Node -> Option Node) (node : Node) (target : Option Node) :
    relink link (some node) target node = target := Function.update_self ..

end

namespace Chain

variable {next back : Node -> Option Node} {head before : Option Node} {members : List Node}

/-- Links of other nodes do not matter. -/
theorem congr {next' back' : Node -> Option Node} (chain : Chain next back head before members)
    (sameNext : forall node, node ∈ members -> next' node = next node)
    (sameBack : forall node, node ∈ members -> back' node = back node) : Chain next' back' head before members := by
  induction members generalizing head before with
  | nil => exact chain
  | cons node rest inductionHypothesis =>
      rcases chain with ⟨first, behind, tail⟩
      refine ⟨first, (sameBack node (List.mem_cons_self ..)).trans behind, ?_⟩
      rw [sameNext node (List.mem_cons_self ..)]
      exact inductionHypothesis tail (fun other member => sameNext other (List.mem_cons_of_mem _ member))
        (fun other member => sameBack other (List.mem_cons_of_mem _ member))

theorem head_eq (chain : Chain next back head before members) : head = members.head? := by
  cases members with
  | nil => exact chain
  | cons node rest => exact chain.1

/-- A node of the chain links back to the one before it. -/
theorem back_of_split {front rest : List Node} {node : Node}
    (chain : Chain next back head before (front ++ node :: rest)) :
    back node = (front.getLast?).or before := by
  induction front generalizing head before with
  | nil => exact chain.2.1
  | cons first front inductionHypothesis =>
      rw [inductionHypothesis chain.2.2]
      cases front with
      | nil => rfl
      | cons second front =>
          rw [List.getLast?_cons_cons]
          rfl

theorem next_of_split {front rest : List Node} {node : Node}
    (chain : Chain next back head before (front ++ node :: rest)) : next node = rest.head? := by
  induction front generalizing head before with
  | nil => exact chain.2.2.head_eq
  | cons first front inductionHypothesis => exact inductionHypothesis chain.2.2

/-- What is reached from a node of the chain is its rest. -/
theorem drop {front rest : List Node} {node : Node} (chain : Chain next back head before (front ++ node :: rest)) :
    Chain next back (next node) (some node) rest := by
  induction front generalizing head before with
  | nil => exact chain.2.2
  | cons first front inductionHypothesis => exact inductionHypothesis chain.2.2

/-- Two chains from one head have the same nodes. -/
theorem unique {others : List Node} {behind : Option Node} (chain : Chain next back head before members)
    (other : Chain next back head behind others) : members = others := by
  induction members generalizing head before behind others with
  | nil =>
      cases others with
      | nil => rfl
      | cons node rest => exact absurd (chain.symm.trans other.1) (by simp)
  | cons node rest inductionHypothesis =>
      cases others with
      | nil => exact absurd (chain.1.symm.trans other) (by simp)
      | cons otherNode otherRest =>
          have same : node = otherNode := Option.some.inj (chain.1.symm.trans other.1)
          subst same
          rw [inductionHypothesis chain.2.2 other.2.2]

/-- No node is met twice: what follows it the first time would be what follows
it the second time. -/
theorem nodup (chain : Chain next back head before members) : members.Nodup := by
  induction members generalizing head before with
  | nil => exact List.nodup_nil
  | cons node rest inductionHypothesis =>
      refine List.nodup_cons.mpr ⟨fun again => ?_, inductionHypothesis chain.2.2⟩
      rcases List.append_of_mem again with ⟨front, rear, rfl⟩
      have same : front ++ node :: rear = rear := chain.2.2.unique (drop chain.2.2)
      have lengths := congrArg List.length same
      rw [List.length_append, List.length_cons] at lengths
      omega

theorem next_mem {node other : Node} (chain : Chain next back head before members) (member : node ∈ members)
    (onward : next node = some other) : other ∈ members := by
  rcases List.append_of_mem member with ⟨front, rear, rfl⟩
  rw [chain.next_of_split] at onward
  exact List.mem_append_right _ (List.mem_cons_of_mem _ (List.mem_of_mem_head? onward))

theorem back_mem {node other : Node} (chain : Chain next back head none members) (member : node ∈ members)
    (behind : back node = some other) : other ∈ members := by
  rcases List.append_of_mem member with ⟨front, rear, rfl⟩
  rw [chain.back_of_split, Option.or_none] at behind
  exact List.mem_append_left _ (List.mem_of_getLast? behind)

section

variable [DecidableEq Node]

/-- A node is put in front of the first. -/
theorem push {node : Node} (chain : Chain next back head none members) (fresh : node ∉ members) :
    Chain (Function.update next node head) (relink (Function.update back node none) head (some node)) (some node) none
      (node :: members) := by
  have apart : head ≠ some node := by
    intro same
    rw [chain.head_eq] at same
    exact fresh (List.mem_of_mem_head? same)
  refine ⟨rfl, (relink_other apart).trans (Function.update_self ..), ?_⟩
  rw [Function.update_self]
  have other : forall member, member ∈ members -> member ≠ node := fun member present same => fresh (same ▸ present)
  have once := chain.nodup
  cases members with
  | nil => exact chain
  | cons first rest =>
      rcases chain with ⟨rfl, _, tail⟩
      refine ⟨rfl, relink_self .., ?_⟩
      rw [Function.update_of_ne (other first (List.mem_cons_self ..))]
      refine tail.congr (fun member present => ?_) (fun member present => ?_)
      · exact Function.update_of_ne (other member (List.mem_cons_of_mem _ present)) _ _
      · have behind : first ≠ member := fun same => (List.nodup_cons.mp once).1 (same ▸ present)
        rw [relink_other fun same => behind (Option.some.inj same)]
        exact Function.update_of_ne (other member (List.mem_cons_of_mem _ present)) _ _

/-- A node is taken out: the nodes on its two sides are linked to each other. -/
theorem remove_between {front rear : List Node} {node : Node}
    (chain : Chain next back head before (front ++ node :: rear))
    (once : (before.toList ++ (front ++ node :: rear)).Nodup) :
    Chain (relink next (back node) (next node)) (relink back (next node) (back node))
      (if front = [] then next node else head) before (front ++ rear) := by
  have onward := chain.next_of_split
  induction front generalizing head before with
  | nil =>
      rcases chain with ⟨_, named, tail⟩
      rw [if_pos rfl, List.nil_append]
      cases rear with
      | nil => exact tail
      | cons first rest =>
          rcases tail with ⟨there, _, tail⟩
          have apart : forall member, member ∈ first :: rest -> back node ≠ some member := by
            intro member present same
            rw [named] at same
            rw [same] at once
            exact (List.nodup_cons.mp once).1 (List.mem_cons_of_mem _ present)
          have later : first ∉ rest :=
            (List.nodup_cons.mp (List.nodup_cons.mp (List.nodup_append.mp once).2.1).2).1
          refine ⟨there, ?_, ?_⟩
          · rw [there, relink_self, named]
          · rw [relink_other (apart first (List.mem_cons_self ..))]
            refine tail.congr (fun member present => ?_) (fun member present => ?_)
            · exact relink_other (apart member (List.mem_cons_of_mem _ present))
            · refine relink_other fun same => later ?_
              rw [there] at same
              exact Option.some.inj same ▸ present
  | cons first front inductionHypothesis =>
      rcases chain with ⟨start, named, tail⟩
      have inner : (first :: (front ++ node :: rear)).Nodup := (List.nodup_append.mp once).2.1
      have absent := (List.nodup_cons.mp inner).1
      rw [if_neg (List.cons_ne_nil _ _)]
      refine ⟨start, ?_, ?_⟩
      · rw [relink_other, named]
        intro same
        rw [onward] at same
        exact absent (List.mem_append_right _ (List.mem_cons_of_mem _ (List.mem_of_mem_head? same)))
      · have rest := inductionHypothesis tail inner
        cases front with
        | nil =>
            rw [if_pos rfl] at rest
            rw [tail.2.1] at rest ⊢
            rw [relink_self]
            exact rest
        | cons second front =>
            rw [if_neg (List.cons_ne_nil _ _)] at rest
            rw [relink_other]
            · exact rest
            · rw [tail.back_of_split, List.getLast?_eq_some_getLast (List.cons_ne_nil second front), Option.some_or]
              intro same
              have last := List.getLast_mem (List.cons_ne_nil second front)
              exact absent (List.mem_append_left _ (Option.some.inj same ▸ last))

theorem remove {node : Node} (chain : Chain next back head none members) (member : node ∈ members) :
    Chain (relink next (back node) (next node)) (relink back (next node) (back node))
      (if back node = none then next node else head) none (members.erase node) := by
  have once := chain.nodup
  rcases List.append_of_mem member with ⟨front, rear, rfl⟩
  have apart : node ∉ front := fun present =>
    (List.nodup_append.mp once).2.2 node present node (List.mem_cons_self ..) rfl
  rw [List.erase_append_right _ apart, List.erase_cons_head]
  have first : back node = none <-> front = [] := by
    rw [chain.back_of_split, Option.or_none, List.getLast?_eq_none_iff]
  have removed := chain.remove_between once
  by_cases empty : front = []
  · rw [if_pos empty] at removed
    rw [if_pos (first.mpr empty)]
    exact removed
  · rw [if_neg empty] at removed
    rw [if_neg fun none => empty (first.mp none)]
    exact removed

end

end Chain

end Library
end Ucore
