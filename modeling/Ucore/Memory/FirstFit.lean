import Ucore.Library.Run
import Ucore.Memory.Page

namespace Ucore
namespace Memory

open Library

/-!
# The first-fit allocator

One list holds the free blocks by address.  The head descriptor of a block
carries its size and the `PG_property` flag.  There is one list head, so the
test `le != &free_list` followed by `le2page` is a match on the node.

The walks follow `next` pointers, which nothing bounds in C.  Here they take
fuel, and `none` stands for a walk that has not returned, as well as for a
failed assertion.
-/

/-- The value of an `unsigned int` assignment. -/
def unsignedInt (value : Nat) : Nat := value % 2 ^ 32

structure FirstFit where
  page : Nat -> Page
  links : Links (ListNode Unit)
  nrFree : UInt32

/-- `&free_list` -/
abbrev freeList : ListNode Unit := .head ()

namespace FirstFit

/-- `default_init` -/
def init (sys : FirstFit) : FirstFit := { sys with links := listInit sys.links freeList, nrFree := 0 }

/-- The first loop of `default_init_memmap`. -/
def clearReserved : Nat -> Nat -> FirstFit -> Option FirstFit
  | _, 0, sys => some sys
  | p, remain + 1, sys =>
      if pageReserved (sys.page p) = true then
        clearReserved (p + 1) remain { sys with page := Function.update sys.page p {} }
      else none

/-- The first loop of `default_free_pages`.  The property field is kept. -/
def clearHeld : Nat -> Nat -> FirstFit -> Option FirstFit
  | _, 0, sys => some sys
  | p, remain + 1, sys =>
      if pageReserved (sys.page p) = false /\ pageProperty (sys.page p) = false then
        clearHeld (p + 1) remain
          { sys with page := Function.update sys.page p { sys.page p with flags := {}, ref := 0 } }
      else none

/-- `base->property = n; SetPageProperty(base); nr_free += n;` -/
def markFree (sys : FirstFit) (base n : Nat) : FirstFit :=
  { sys with
    page := Function.update sys.page base (setPageProperty { sys.page base with property := unsignedInt n })
    nrFree := sys.nrFree + UInt32.ofNat n }

/-- The insertion loop.  The branch for the end of the list has no `break`. -/
def insertLoop (base : Nat) : Nat -> FirstFit -> ListNode Unit -> Option FirstFit
  | 0, _, _ => none
  | fuel + 1, sys, le =>
      match listNext sys.links le with
      | .head _ => some sys
      | .page page =>
          if base < page then
            some { sys with links := listAddBefore sys.links (.page page) (.page base) }
          else if listNext sys.links (.page page) = freeList then
            insertLoop base fuel { sys with links := listAdd sys.links (.page page) (.page base) } (.page page)
          else insertLoop base fuel sys (.page page)

/-- The insertion of a block, the same in initialisation and release. -/
def insertFree (fuel : Nat) (sys : FirstFit) (base : Nat) : Option FirstFit :=
  if listEmpty sys.links freeList = true then
    some { sys with links := listAdd sys.links freeList (.page base) }
  else insertLoop base fuel sys freeList

/-- `default_init_memmap` -/
def initMemmap (fuel : Nat) (sys : FirstFit) (base n : Nat) : Option FirstFit :=
  if n > 0 then
    (sys.clearReserved base n).bind (fun cleared => (cleared.markFree base n).insertFree fuel base)
  else none

/-- The search for the first block that is large enough. -/
def findFit (sys : FirstFit) (n : Nat) : Nat -> ListNode Unit -> Option (Option Nat)
  | 0, _ => none
  | fuel + 1, le =>
      match listNext sys.links le with
      | .head _ => some none
      | .page p => if (sys.page p).property >= n then some (some p) else findFit sys n fuel (.page p)

/-- List the rest of a split block after a given node. -/
def relist (sys : FirstFit) (prev : ListNode Unit) (p size : Nat) : FirstFit :=
  { sys with
    page := Function.update sys.page p (setPageProperty { sys.page p with property := unsignedInt size })
    links := listAdd sys.links prev (.page p) }

/-- `nr_free -= n; ClearPageProperty(page);` -/
def grant (sys : FirstFit) (page n : Nat) : FirstFit :=
  { sys with
    page := Function.update sys.page page (clearPageProperty (sys.page page))
    nrFree := sys.nrFree - UInt32.ofNat n }

theorem relist_page (sys : FirstFit) (prev : ListNode Unit) (start size p : Nat) :
    (sys.relist prev start size).page p =
      if p = start then setPageProperty { sys.page start with property := unsignedInt size }
      else sys.page p := Function.update_apply ..

theorem grant_page (sys : FirstFit) (start n p : Nat) :
    (sys.grant start n).page p = if p = start then clearPageProperty (sys.page start) else sys.page p :=
  Function.update_apply ..

/-- Take the first `n` pages of a listed block, and relist what remains at the
same place. -/
def takeFrom (sys : FirstFit) (page n : Nat) : FirstFit :=
  let prev := listPrev sys.links (.page page)
  let unlinked := { sys with links := listDel sys.links (.page page) }
  if (sys.page page).property > n then
    (unlinked.relist prev (page + n) ((sys.page page).property - n)).grant page n
  else unlinked.grant page n

/-- `default_alloc_pages` -/
def allocPages (fuel : Nat) (sys : FirstFit) (n : Nat) : Option (Option Nat × FirstFit) :=
  if n > 0 then
    if n > sys.nrFree.toNat then some (none, sys)
    else
      match sys.findFit n fuel freeList with
      | none => none
      | some none => some (none, sys)
      | some (some page) => some (some page, sys.takeFrom page n)
  else none

/-- `p->property += q->property; ClearPageProperty(q); list_del(&(q->page_link));`
for two adjacent blocks, as both merges of the release do it. -/
def coalesce (sys : FirstFit) (p q : Nat) : FirstFit :=
  let grown := Function.update sys.page p
    { sys.page p with property := unsignedInt ((sys.page p).property + (sys.page q).property) }
  { sys with
    page := Function.update grown q (clearPageProperty (grown q))
    links := listDel sys.links (.page q) }

/-- The merge with the block before, and the head of the result. -/
def mergeBefore (sys : FirstFit) (base : Nat) : FirstFit × Nat :=
  match listPrev sys.links (.page base) with
  | .head _ => (sys, base)
  | .page p => if p + (sys.page p).property = base then (sys.coalesce p base, p) else (sys, base)

/-- The merge with the block after. -/
def mergeAfter (sys : FirstFit) (base : Nat) : FirstFit :=
  match listNext sys.links (.page base) with
  | .head _ => sys
  | .page p => if base + (sys.page base).property = p then sys.coalesce base p else sys

/-- `default_free_pages` -/
def freePages (fuel : Nat) (sys : FirstFit) (base n : Nat) : Option FirstFit :=
  if n > 0 then
    (sys.clearHeld base n).bind (fun cleared =>
      ((cleared.markFree base n).insertFree fuel base).map (fun inserted =>
        let merged := inserted.mergeBefore base
        merged.1.mergeAfter merged.2))
  else none

end FirstFit

/-! ## Histories -/

inductive FirstFitAction where
  | alloc (n : Nat)
  | free (base n : Nat)
deriving DecidableEq, Repr

/-- The allocator with the size of its region, the blocks it has returned so
far, and the pages its callers hold. -/
structure FirstFitHistory where
  sys : FirstFit
  size : Nat
  returned : List (Nat × Nat)
  held : List Nat

namespace FirstFitHistory

/-- The range lies in a block returned earlier and is still held. -/
def MayFree (history : FirstFitHistory) (base n : Nat) : Prop :=
  (Exists fun block => block ∈ history.returned /\ block.1 <= base /\ base + n <= block.1 + block.2) /\
    forall page, page ∈ List.range' base n -> page ∈ history.held

instance (history : FirstFitHistory) (base n : Nat) : Decidable (history.MayFree base n) :=
  inferInstanceAs (Decidable ((Exists fun _ => _ /\ _ /\ _) /\ _))

/-- A walk is given as many steps as the region has pages, and one for the
list head. -/
def fuel (history : FirstFitHistory) : Nat := history.size + 2

def step (history : FirstFitHistory) : FirstFitAction -> Option FirstFitHistory
  | .alloc n =>
      match history.sys.allocPages history.fuel n with
      | none => none
      | some (none, sys) => some { history with sys := sys }
      | some (some base, sys) =>
          some { history with
            sys := sys
            returned := (base, n) :: history.returned
            held := List.range' base n ++ history.held }
  | .free base n =>
      if history.MayFree base n then
        (history.sys.freePages history.fuel base n).map (fun sys =>
          { history with
            sys := sys
            held := history.held.filter (fun page => page ∉ List.range' base n) })
      else none

end FirstFitHistory

def firstFitMachine : Machine FirstFitHistory FirstFitAction := ⟨FirstFitHistory.step⟩

end Memory
end Ucore
