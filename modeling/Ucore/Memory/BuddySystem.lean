import Ucore.Library.Run
import Ucore.Memory.Page

namespace Ucore
namespace Memory

open Library

/-!
# The buddy allocator

`buddy_array` holds one list of free blocks for each order below `MAX_ORDER`.
An allocation rounds the request up to a power of two, takes the first block
of the smallest order that has one, and splits it on the way down.  A release
walks the orders upwards and merges as long as the buddy descriptor claims to
head a free block of the same order.

Descriptors are a total function of their index.  Those outside the region
given to `default_init_memmap`, and those past the end of the descriptor
array, hold whatever the memory holds: the release reads them when the buddy
falls there.
-/

def maxOrder : Nat := 14

/-- The descriptors, the link memory and the counters of the allocator. -/
structure BuddySystem where
  page : Nat -> Page
  links : Links (ListNode Nat)
  /-- `buddy_array[order].nr_free` -/
  areaNrFree : Nat -> UInt32
  nrFree : UInt32
  /-- The amount of physical memory in pages, counted from address zero. -/
  npage : Nat

namespace BuddySystem

/-- `buddy_system_init` -/
def init (sys : BuddySystem) : BuddySystem :=
  let cleared := (List.range maxOrder).foldl (fun (sys : BuddySystem) order =>
    { sys with
      links := listInit sys.links (.head order)
      areaNrFree := Function.update sys.areaNrFree order 0 }) sys
  { cleared with nrFree := 0 }

/-- `get_buddy`: the exclusive or is taken on the page index. -/
def getBuddy (base order : Nat) : Nat := base ^^^ 2 ^ order

/-- Link a block head on the list of its order, after setting its property
field and flag.  The three places that put a block on a list do exactly
this. -/
def linkBlock (sys : BuddySystem) (base order : Nat) : BuddySystem :=
  { sys with
    page := Function.update sys.page base (setPageProperty { sys.page base with property := 2 ^ order })
    links := listAdd sys.links (.head order) (.page base)
    areaNrFree := Function.update sys.areaNrFree order (sys.areaNrFree order + 1) }

/-- Take a node off the list of an order. -/
def unlinkBlock (sys : BuddySystem) (base order : Nat) : BuddySystem :=
  { sys with
    links := listDel sys.links (.page base)
    areaNrFree := Function.update sys.areaNrFree order (sys.areaNrFree order - 1) }

/-- `while (adjusted_pages < requested_pages && target_order < MAX_ORDER)`,
the loop with which both allocation and release round a request. -/
def roundUpLoop (requested : Nat) : Nat -> Nat -> Nat -> Nat
  | 0, _, order => order
  | fuel + 1, adjusted, order =>
      if adjusted < requested /\ order < maxOrder then
        roundUpLoop requested fuel (adjusted * 2) (order + 1)
      else order

def roundUpOrder (requested : Nat) : Nat := roundUpLoop requested maxOrder 1 0

/-- `while (found_order < MAX_ORDER && list_empty(...)) found_order++;` -/
def findOrder (sys : BuddySystem) : Nat -> Nat -> Nat
  | 0, found => found
  | fuel + 1, found =>
      if found < maxOrder /\ listEmpty sys.links (.head found) = true then
        findOrder sys fuel (found + 1)
      else found

/-- The split loop, from the order found down to the order wanted. -/
def splitDown (target allocated : Nat) : Nat -> BuddySystem -> BuddySystem
  | 0, sys => sys
  | found + 1, sys =>
      if target < found + 1 then
        splitDown target allocated found (sys.linkBlock (allocated + 2 ^ found) found)
      else sys

/-- `buddy_system_alloc_pages`.  The outer `none` is a wild pointer. -/
def allocPages (sys : BuddySystem) (requested : Nat) : Option (Option Nat × BuddySystem) :=
  let target := roundUpOrder requested
  let found := sys.findOrder (maxOrder - target) target
  if found >= maxOrder then some (none, sys)
  else
    match le2page (listNext sys.links (.head found)) with
    | none => none
    | some allocated =>
        let cut := splitDown target allocated found (sys.unlinkBlock allocated found)
        some (some allocated,
          { cut with
            page := Function.update cut.page allocated
              { clearPageProperty (cut.page allocated) with property := 0 }
            nrFree := cut.nrFree - UInt32.ofNat (2 ^ target) })

/-- The test of the merge loop: the descriptor is below `pages + npage` and
claims to head a free block of this order. -/
def claimsFree (sys : BuddySystem) (buddy order : Nat) : Bool :=
  decide (buddy < sys.npage) && pageProperty (sys.page buddy) &&
    decide ((sys.page buddy).property = 2 ^ order)

/-- The merge loop.  The swap puts the lower address in `base`; what is then
unlinked is the node in `buddy`, whichever of the two that is. -/
def mergeLoop : Nat -> BuddySystem -> Nat -> Nat -> BuddySystem × Nat
  | 0, sys, _, order => (sys, order)
  | fuel + 1, sys, base, order =>
      if order < maxOrder then
        let buddy := getBuddy base order
        if sys.claimsFree buddy order = true then
          if base > buddy then mergeLoop fuel (sys.unlinkBlock base order) buddy (order + 1)
          else mergeLoop fuel (sys.unlinkBlock buddy order) base (order + 1)
        else (sys.linkBlock base order, order)
      else (sys, order)

/-- `buddy_system_free_pages` -/
def freePages (sys : BuddySystem) (base n : Nat) : BuddySystem :=
  let order := roundUpOrder n
  let merged := mergeLoop (maxOrder - order) sys base order
  { merged.1 with nrFree := merged.1.nrFree + UInt32.ofNat (2 ^ merged.2) }

/-- The first loop of `default_init_memmap`: every descriptor must be
reserved, and is cleared. -/
def clearRegion : Nat -> Nat -> BuddySystem -> Option BuddySystem
  | _, 0, sys => some sys
  | p, remain + 1, sys =>
      if pageReserved (sys.page p) = true then
        clearRegion (p + 1) remain { sys with page := Function.update sys.page p {} }
      else none

/-- The largest order whose bit of the index is still clear, plus one, as the
source computes it before stepping back. -/
def alignLoop (idx : Nat) : Nat -> Nat -> Nat
  | 0, order => order
  | fuel + 1, order =>
      if idx.testBit order = false /\ order < maxOrder - 1 then alignLoop idx fuel (order + 1) else order

def maxAlignOrder (idx : Nat) : Nat :=
  let order := alignLoop idx maxOrder 0
  if order > 0 then order - 1 else order

def sizeLoop (remain : Nat) : Nat -> Nat -> Nat
  | 0, order => order
  | fuel + 1, order =>
      if 2 ^ order * 2 <= remain /\ order < maxOrder - 1 then sizeLoop remain fuel (order + 1) else order

def sizeLimitOrder (remain : Nat) : Nat := sizeLoop remain maxOrder 0

/-- The second loop of `default_init_memmap`. -/
def carve : Nat -> Nat -> Nat -> BuddySystem -> BuddySystem
  | 0, _, _, sys => sys
  | fuel + 1, pos, remain, sys =>
      if remain > 0 then
        let order := min (maxAlignOrder pos) (sizeLimitOrder remain)
        let linked := sys.linkBlock pos order
        carve fuel (pos + 2 ^ order) (remain - 2 ^ order)
          { linked with nrFree := linked.nrFree + UInt32.ofNat (2 ^ order) }
      else sys

/-- `default_init_memmap`; `none` is a failed assertion. -/
def initMemmap (sys : BuddySystem) (base n : Nat) : Option BuddySystem :=
  if n > 0 then (sys.clearRegion base n).map (carve n base n) else none

end BuddySystem

/-! ## Histories of allocations and releases -/

inductive BuddyAction where
  | alloc (n : Nat)
  | free (base n : Nat)
deriving DecidableEq, Repr

/-- The allocator together with the blocks its callers hold, each with the
size it was asked for. -/
structure BuddyHistory where
  sys : BuddySystem
  live : List (Nat × Nat)

namespace BuddyHistory

/-- A release is a step only for a block that is held, with the size of its
allocation. -/
def step (history : BuddyHistory) : BuddyAction -> Option BuddyHistory
  | .alloc n =>
      match history.sys.allocPages n with
      | none => none
      | some (none, sys) => some { history with sys := sys }
      | some (some base, sys) => some ⟨sys, (base, n) :: history.live⟩
  | .free base n =>
      if (base, n) ∈ history.live then
        some ⟨history.sys.freePages base n, history.live.erase (base, n)⟩
      else none

end BuddyHistory

def buddyMachine : Machine BuddyHistory BuddyAction := ⟨BuddyHistory.step⟩

end Memory
end Ucore
