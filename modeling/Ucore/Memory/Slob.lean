import Ucore.Library.Circle
import Ucore.Library.Program
import Ucore.Library.Run
import Ucore.Library.BlockTiling

namespace Ucore
namespace Slob

open Library
open Program

/-!
# The small-block heap

A block starts with a header of two words: its size in units, and the block
after it in the free list.  Addresses are counted in bytes, and the memory is
modelled at the headers only, as one map for each field.  What a client writes
into its block may change these maps inside of the block.

The page allocator is a parameter: `answer` says what each call yields, the
address of a page or nothing.
-/

def slobUnit : Nat := 16

def pageSize : Nat := 4096

def slobUnits (size : Nat) : Nat := (size + slobUnit - 1) / slobUnit

structure Heap where
  units : Nat -> Nat
  next : Nat -> Nat
  slobfree : Nat
  /-- The calls of `__slob_get_free_page` so far -/
  asked : Nat

inductive Fault where
  | assertion (text : String)
  /-- A loop goes on for longer than there are blocks. -/
  | endless
deriving DecidableEq, Repr

abbrev Call (Value : Type) := Program Heap Empty Fault Value

namespace Heap

def width (heap : Heap) (block : Nat) : Nat := slobUnit * heap.units block

/-- More than the steps of any of the loops. -/
def limit (heap : Heap) : Nat := 4 * pageSize * (heap.asked + 2)

/-- The free list, read from `slobfree`. -/
def entries (heap : Heap) : List Nat := Circle.upto heap.next heap.slobfree heap.limit heap.slobfree

end Heap

def setUnits (block units : Nat) : Call Unit :=
  modify (fun heap => { heap with units := Function.update heap.units block units })

def setNext (block next : Nat) : Call Unit :=
  modify (fun heap => { heap with next := Function.update heap.next block next })

/-! ## `slob_free` -/

/-- The loop of `slob_free`: the entry after which the block goes. -/
def insertionPoint (b : Nat) : Nat -> Nat -> Call Nat
  | 0, _ => halt .endless
  | fuel + 1, cur => do
      let heap <- get
      if cur < b /\ b < heap.next cur then pure cur
      else if heap.next cur <= cur /\ (cur < b \/ b < heap.next cur) then pure cur
      else insertionPoint b fuel (heap.next cur)

def joinNext (b cur : Nat) : Call Unit := do
  let heap <- get
  if b + heap.width b = heap.next cur then do
    setUnits b (heap.units b + heap.units (heap.next cur))
    setNext b (heap.next (heap.next cur))
  else setNext b (heap.next cur)

def joinPrevious (b cur : Nat) : Call Unit := do
  let heap <- get
  if cur + heap.width cur = b then do
    setUnits cur (heap.units cur + heap.units b)
    setNext cur (heap.next b)
  else setNext cur b

/-- `slob_free` from the search on -/
def slobInsert (b : Nat) : Call Unit := do
  let heap <- get
  let cur <- insertionPoint b heap.limit heap.slobfree
  joinNext b cur
  joinPrevious b cur
  modify (fun heap => { heap with slobfree := cur })

def slobFree (block size : Nat) : Call Unit :=
  if block = 0 then pure ()
  else if size ≠ 0 then do
    setUnits block (slobUnits size)
    slobInsert block
  else slobInsert block

/-! ## `slob_alloc` -/

/-- The unlinking of an exact fit, or the fragmentation of a larger entry. -/
def carve (units prev cur : Nat) : Call Unit := do
  let heap <- get
  if heap.units cur = units then setNext prev (heap.next cur)
  else do
    setNext prev (cur + slobUnit * units)
    let heap <- get
    setUnits (heap.next prev) (heap.units cur - units)
    let heap <- get
    setNext (heap.next prev) (heap.next cur)
    setUnits cur units

/-- The branch of `slob_alloc` for an entry with room. -/
def take (units prev cur : Nat) : Call Nat := do
  carve units prev cur
  modify (fun heap => { heap with slobfree := prev })
  pure cur

variable (answer : Nat -> Option Nat)

/-- `__slob_get_free_page` -/
def getFreePage : Call (Option Nat) := do
  let heap <- get
  modify (fun heap => { heap with asked := heap.asked + 1 })
  pure (answer heap.asked)

/-- The page goes on the free list, and the search starts again. -/
def useFreePage (retry : Nat -> Call Nat) : Option Nat -> Call Nat
  | none => pure 0
  | some page => do
      slobFree page pageSize
      let heap <- get
      retry heap.slobfree

/-- The branch of `slob_alloc` for a free list without room. -/
def grow (size : Nat) (retry : Nat -> Call Nat) : Call Nat :=
  if size = pageSize then pure 0
  else do
    let page <- getFreePage answer
    useFreePage retry page

/-- The loop of `slob_alloc`. -/
def searchLoop (size : Nat) : Nat -> Nat -> Call Nat
  | 0, _ => halt .endless
  | fuel + 1, prev => do
      let heap <- get
      if slobUnits size <= heap.units (heap.next prev) then take (slobUnits size) prev (heap.next prev)
      else if heap.next prev = heap.slobfree then grow answer size (searchLoop size fuel)
      else searchLoop size fuel (heap.next prev)

/-- `slob_alloc` without alignment, as every caller asks for -/
def slobAlloc (size : Nat) : Call Nat := do
  assert (size + slobUnit < pageSize) (.assertion "(size + SLOB_UNIT) < PAGE_SIZE")
  let heap <- get
  searchLoop answer size heap.limit heap.slobfree

/-- `__kmalloc` for a `size` less than `PAGE_SIZE - SLOB_UNIT` -/
def kmalloc (size : Nat) : Call Nat := do
  let m <- slobAlloc answer (size + slobUnit)
  pure (if m = 0 then 0 else m + slobUnit)

/-- `kfree` while no large blocks are allocated -/
def kfree (block : Nat) : Call Unit :=
  if block = 0 then pure () else slobFree (block - slobUnit) 0

end Slob
end Ucore
