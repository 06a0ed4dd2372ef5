import Mathlib.Data.List.Basic
import Mathlib.Logic.Function.Basic

namespace Ucore
namespace Library

/-!
# Lists linked through memory

A list of addresses is linked when every address holds the next one, and the
last one holds zero.  Changes of other cells leave the list linked.
-/

/-- The addresses of a list, from its first one on. -/
def Linked (memory : Nat -> Nat) : Nat -> List Nat -> Prop
  | head, [] => head = 0
  | head, address :: rest => head = address /\ address ≠ 0 /\ Linked memory (memory address) rest

namespace Linked

variable {memory after : Nat -> Nat} {head address : Nat} {members : List Nat}

theorem congr (linked : Linked memory head members)
    (same : forall address, address ∈ members -> after address = memory address) : Linked after head members := by
  induction members generalizing head with
  | nil => exact linked
  | cons first rest inductionHypothesis =>
      refine ⟨linked.1, linked.2.1, ?_⟩
      rw [same first (List.mem_cons_self ..)]
      exact inductionHypothesis linked.2.2 fun address member => same address (List.mem_cons_of_mem _ member)

/-- The list is empty exactly when it starts from zero. -/
theorem eq_nil_iff (linked : Linked memory head members) : members = [] <-> head = 0 := by
  cases members with
  | nil => exact ⟨fun _ => linked, fun _ => rfl⟩
  | cons first rest =>
      constructor
      · exact fun wrong => nomatch wrong
      · exact fun zero => absurd (linked.1.symm.trans zero) linked.2.1

/-- Where the list does not start from zero, it starts with its head. -/
theorem exists_cons (linked : Linked memory head members) (some : head ≠ 0) :
    Exists fun rest => members = head :: rest /\ Linked memory (memory head) rest := by
  cases members with
  | nil => exact absurd linked some
  | cons first rest =>
      have same := linked.1
      subst same
      exact ⟨rest, rfl, linked.2.2⟩

/-- The rest of the list is linked from each of its addresses. -/
theorem rest {front back : List Nat} (linked : Linked memory head (front ++ address :: back)) :
    Linked memory (memory address) back := by
  induction front generalizing head with
  | nil => exact linked.2.2
  | cons first rest inductionHypothesis => exact inductionHypothesis linked.2.2

theorem unique {others : List Nat} (linked : Linked memory head members) (too : Linked memory head others) :
    members = others := by
  induction members generalizing head others with
  | nil => exact (too.eq_nil_iff.mpr linked).symm
  | cons first rest inductionHypothesis =>
      cases others with
      | nil => exact absurd (linked.1.symm.trans too) linked.2.1
      | cons other others =>
          cases linked.1.symm.trans too.1
          rw [inductionHypothesis linked.2.2 too.2.2]

/-- An address that came twice would be followed by lists of two lengths. -/
theorem nodup (linked : Linked memory head members) : members.Nodup := by
  induction members generalizing head with
  | nil => exact List.nodup_nil
  | cons first rest inductionHypothesis =>
      refine List.nodup_cons.mpr ⟨fun again => ?_, inductionHypothesis linked.2.2⟩
      obtain ⟨front, back, split⟩ := List.append_of_mem again
      have after := linked.2.2
      rw [split] at after
      have same := congrArg List.length (linked.2.2.unique after.rest)
      rw [split, List.length_append, List.length_cons] at same
      omega

theorem push (linked : Linked memory head members) (fresh : address ∉ members) (some : address ≠ 0) :
    Linked (Function.update memory address head) address (address :: members) := by
  refine ⟨rfl, some, ?_⟩
  rw [Function.update_self]
  exact linked.congr fun other member => Function.update_of_ne (ne_of_mem_of_not_mem member fresh) _ _

end Linked

end Library
end Ucore
