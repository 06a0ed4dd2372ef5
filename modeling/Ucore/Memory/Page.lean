import Mathlib.Algebra.GroupWithZero.Nat
import Ucore.Library.Ring

set_option linter.style.nameCheck false

namespace Ucore
namespace Memory

open Library

/-!
# Page descriptors and the lists through them

Physical pages are described by an array of `struct Page`; a descriptor is
named here by its index from `pages`.  The `page_link` fields and the list
heads form one memory of two-way links, kept apart from the other fields, so
the list primitives of `libs/list.h` are the edits of a link memory.  They
are total: as in C, nothing stops a caller from unlinking a node that is on
no list.
-/

/-- A list node is a list head or the `page_link` of a descriptor. -/
inductive ListNode (Head : Type) where
  | head (list : Head)
  | page (index : Nat)
deriving DecidableEq, Repr

/-- `le2page`: the descriptor around a `page_link`.  A list head is inside no
descriptor, and the pointer computed from it is wild. -/
def le2page {Head : Type} : ListNode Head -> Option Nat
  | .head _ => none
  | .page index => some index

section ListPrimitives

variable {Node : Type} [DecidableEq Node]

def listInit (links : Links Node) (elm : Node) : Links Node := links.reset elm

def __listAdd (links : Links Node) (elm prev next : Node) : Links Node :=
  links.insertBetween elm prev next

def listAddAfter (links : Links Node) (listelm elm : Node) : Links Node :=
  __listAdd links elm listelm (links.next listelm)

def listAddBefore (links : Links Node) (listelm elm : Node) : Links Node :=
  __listAdd links elm (links.prev listelm) listelm

def listAdd (links : Links Node) (listelm elm : Node) : Links Node :=
  listAddAfter links listelm elm

def __listDel (links : Links Node) (prev next : Node) : Links Node := links.join prev next

def listDel (links : Links Node) (listelm : Node) : Links Node :=
  __listDel links (links.prev listelm) (links.next listelm)

def listEmpty (links : Links Node) (list : Node) : Bool := decide (links.next list = list)

def listNext (links : Links Node) (listelm : Node) : Node := links.next listelm

def listPrev (links : Links Node) (listelm : Node) : Node := links.prev listelm

/-- Adding after the last node of a prefix. -/
theorem ring_listAdd {links : Links Node} {head elm : Node} {before after : List Node}
    (ring : links.Ring head (before ++ after)) (fresh : elm ∉ head :: (before ++ after)) :
    (listAdd links ((head :: before).getLast (by simp)) elm).Ring head (before ++ elm :: after) := by
  have inserted := ring.insertBetween fresh
  rw [← ring.seam.1] at inserted
  exact inserted

/-- Adding right after the head makes the new node the first member. -/
theorem ring_listAdd_head {links : Links Node} {head elm : Node} {members : List Node}
    (ring : links.Ring head members) (fresh : elm ∉ head :: members) :
    (listAdd links head elm).Ring head (elm :: members) := by
  have seam : links.Ring head ([] ++ members) := ring
  exact ring_listAdd seam fresh

theorem ring_listAddBefore {links : Links Node} {head elm node : Node} {before after : List Node}
    (ring : links.Ring head (before ++ node :: after)) (fresh : elm ∉ head :: (before ++ node :: after)) :
    (listAddBefore links node elm).Ring head (before ++ elm :: node :: after) := by
  have inserted := ring.insertBetween fresh
  rw [← ring.neighbours.1] at inserted
  exact inserted

theorem ring_listDel {links : Links Node} {head node : Node} {before after : List Node}
    (ring : links.Ring head (before ++ node :: after)) :
    (listDel links node).Ring head (before ++ after) := ring.unlink

/-- Deletion of a member leaves every ring alone that shares no node with it. -/
theorem ring_listDel_other {links : Links Node} {head other node : Node}
    {members otherMembers : List Node} (ring : links.Ring head members) (member : node ∈ members)
    (otherRing : links.Ring other otherMembers)
    (apart : forall node, node ∈ head :: members -> node ∉ other :: otherMembers) :
    (listDel links node).Ring other otherMembers := by
  have neighbours := ring.neighbours_mem (List.mem_cons_of_mem head member)
  exact otherRing.join_other (apart _ neighbours.1) (apart _ neighbours.2)

/-- Adding right after one head leaves every ring alone that shares no node
with its list. -/
theorem ring_listAdd_other {links : Links Node} {head other elm : Node}
    {members otherMembers : List Node} (ring : links.Ring head members)
    (otherRing : links.Ring other otherMembers) (fresh : elm ∉ other :: otherMembers)
    (apart : forall node, node ∈ head :: members -> node ∉ other :: otherMembers) :
    (listAdd links head elm).Ring other otherMembers := by
  have neighbours := ring.neighbours_mem (List.mem_cons_self (l := members))
  exact otherRing.insertBetween_other fresh (apart _ List.mem_cons_self) (apart _ neighbours.2)

/-- A list is empty exactly when its ring has no member. -/
theorem listEmpty_iff {links : Links Node} {head : Node} {members : List Node}
    (ring : links.Ring head members) : listEmpty links head = true <-> members = [] := by
  rw [listEmpty, decide_eq_true_eq, ring.path.next_left]
  cases members with
  | nil => simp
  | cons first rest =>
      have notHead : first ≠ head := fun same =>
        (List.nodup_cons.mp ring.distinct).1 (same ▸ List.mem_cons_self)
      simp [notHead]

end ListPrimitives

/-- The bits of `flags` that the allocators look at. -/
structure PageFlags where
  reserved : Bool := false
  property : Bool := false
deriving DecidableEq, Repr

/-- `struct Page` without its list links. -/
structure Page where
  ref : Int := 0
  flags : PageFlags := {}
  property : Nat := 0
deriving DecidableEq, Repr

def setPageProperty (page : Page) : Page := { page with flags := { page.flags with property := true } }

def clearPageProperty (page : Page) : Page := { page with flags := { page.flags with property := false } }

def pageProperty (page : Page) : Bool := page.flags.property

def pageReserved (page : Page) : Bool := page.flags.reserved

@[simp] theorem pageProperty_set (page : Page) : pageProperty (setPageProperty page) = true := rfl

@[simp] theorem pageProperty_clear (page : Page) : pageProperty (clearPageProperty page) = false := rfl

@[simp] theorem property_set (page : Page) : (setPageProperty page).property = page.property := rfl

@[simp] theorem property_clear (page : Page) : (clearPageProperty page).property = page.property := rfl

end Memory
end Ucore
