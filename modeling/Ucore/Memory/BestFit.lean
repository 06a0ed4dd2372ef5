import Ucore.Memory.FirstFit

namespace Ucore
namespace Memory

open Library

/-!
# The best-fit allocator

The free area and the descriptors are those of the first-fit allocator, and so
are the steps on one block: clearing, marking, cutting and merging.  The
search takes the smallest block that is large enough, a release walks to the
place of the block and links it there, and the initialisation orders the list
by size.
-/

namespace BestFit

/-- `best_fit_init` -/
def init (sys : FirstFit) : FirstFit := sys.init

/-- The insertion loop of `best_fit_init_memmap`.  It compares sizes, and the
branch for the end of the list has no `break`. -/
def insertLoop (base : Nat) : Nat -> FirstFit -> ListNode Unit -> Option FirstFit
  | 0, _, _ => none
  | fuel + 1, sys, le =>
      match listNext sys.links le with
      | .head _ => some sys
      | .page page =>
          if (sys.page base).property < (sys.page page).property then
            some { sys with links := listAddBefore sys.links (.page page) (.page base) }
          else if listNext sys.links (.page page) = freeList then
            insertLoop base fuel { sys with links := listAdd sys.links (.page page) (.page base) } (.page page)
          else insertLoop base fuel sys (.page page)

/-- `best_fit_init_memmap` -/
def initMemmap (fuel : Nat) (sys : FirstFit) (base n : Nat) : Option FirstFit :=
  if n > 0 then
    (sys.clearReserved base n).bind fun cleared =>
      let marked := cleared.markFree base n
      if listEmpty marked.links freeList = true then
        some { marked with links := listAdd marked.links freeList (.page base) }
      else insertLoop base fuel marked freeList
  else none

/-- The search: `page` is the best block so far, and `minSize` its size. -/
def findBest (sys : FirstFit) (n : Nat) : Nat -> ListNode Unit -> Option Nat -> Nat -> Option (Option Nat)
  | 0, _, _, _ => none
  | fuel + 1, le, page, minSize =>
      match listNext sys.links le with
      | .head _ => some page
      | .page p =>
          if (sys.page p).property >= n then
            if (sys.page p).property = n then some (some p)
            else if (sys.page p).property < minSize then findBest sys n fuel (.page p) (some p) (sys.page p).property
            else findBest sys n fuel (.page p) page minSize
          else findBest sys n fuel (.page p) page minSize

/-- `best_fit_alloc_pages`.  The sum `nr_free + 1` is one of `unsigned int`. -/
def allocPages (fuel : Nat) (sys : FirstFit) (n : Nat) : Option (Option Nat × FirstFit) :=
  if n > 0 then
    if n > sys.nrFree.toNat then some (none, sys)
    else
      match findBest sys n fuel freeList none (sys.nrFree + 1).toNat with
      | none => none
      | some none => some (none, sys)
      | some (some page) => some (some page, sys.takeFrom page n)
  else none

/-- The walk of `best_fit_free_pages` to the last block below the released
one. -/
def findPlace (sys : FirstFit) (base : Nat) : Nat -> ListNode Unit -> Option (ListNode Unit)
  | 0, _ => none
  | fuel + 1, le =>
      match listNext sys.links le with
      | .head _ => some le
      | .page page => if base < page then some le else findPlace sys base fuel (.page page)

/-- The insertion of a released block. -/
def insertFree (fuel : Nat) (sys : FirstFit) (base : Nat) : Option FirstFit :=
  if listEmpty sys.links freeList = true then
    some { sys with links := listAdd sys.links freeList (.page base) }
  else
    (findPlace sys base fuel freeList).map fun le =>
      { sys with links := listAddAfter sys.links le (.page base) }

/-- `best_fit_free_pages` -/
def freePages (fuel : Nat) (sys : FirstFit) (base n : Nat) : Option FirstFit :=
  if n > 0 then
    (sys.clearHeld base n).bind fun cleared =>
      (insertFree fuel (cleared.markFree base n) base).map fun inserted =>
        let merged := inserted.mergeBefore base
        merged.1.mergeAfter merged.2
  else none

end BestFit

/-! ## Histories -/

inductive BestFitAction where
  | alloc (n : Nat)
  | free (base n : Nat)
deriving DecidableEq, Repr

/-- The allocator with the size of its region and the pages that its callers
hold. -/
structure BestFitHistory where
  sys : FirstFit
  size : Nat
  held : List Nat

namespace BestFitHistory

/-- A walk is given as many steps as the region has pages, and one for the
list head. -/
def fuel (history : BestFitHistory) : Nat := history.size + 2

/-- A release is of pages that are held. -/
def step (history : BestFitHistory) : BestFitAction -> Option BestFitHistory
  | .alloc n =>
      match BestFit.allocPages history.fuel history.sys n with
      | none => none
      | some (none, sys) => some { history with sys := sys }
      | some (some base, sys) => some { history with sys := sys, held := List.range' base n ++ history.held }
  | .free base n =>
      if forall page, page ∈ List.range' base n -> page ∈ history.held then
        (BestFit.freePages history.fuel history.sys base n).map fun sys =>
          { history with sys := sys, held := history.held.filter fun page => page ∉ List.range' base n }
      else none

end BestFitHistory

def bestFitMachine : Machine BestFitHistory BestFitAction := ⟨BestFitHistory.step⟩

end Memory
end Ucore
