import Mathlib.Algebra.Group.Nat.Defs
import Ucore.Library.Linked
import Ucore.Library.Program
import Ucore.Library.Run

namespace Ucore
namespace Memory

open Library
open Program

/-!
# The slab allocator

A cache hands out objects of one size from slabs, which it obtains from the
host.  A free object holds the address of the next one in its first word.
`kmem_cache_alloc` takes objects from the list of a slab only, and
`kmem_cache_free` puts them on the list of the processor, which nothing reads.
-/

namespace Slub

def pageSize : Nat := 4096

/-- `sizeof(struct page)` -/
def sizeofPage : Nat := 48

/-- `calculate_order`, from an order on -/
def calculateOrderLoop (size : Nat) : Nat -> Nat -> Nat
  | 0, _ => (10 <<< 16) ||| ((pageSize <<< 10) / size)
  | fuel + 1, order =>
      let numObjects := ((1 <<< order) * pageSize - sizeofPage) / size
      if numObjects >= 4 then (order <<< 16) ||| numObjects else calculateOrderLoop size fuel (order + 1)

def calculateOrder (size : Nat) : Nat := calculateOrderLoop size 11 0

/-- The fields of `struct kmem_cache` that allocation and release read. -/
structure Cache where
  size : Nat
  /-- `oo.x >> 16` -/
  order : Nat
  /-- `oo.x & 0xffff` -/
  objects : Nat
  /-- `cpu_partial` -/
  cpuPartial : Nat
  word : 8 <= size
  fits : objects * size <= 2 ^ order * pageSize
  batch : 2 <= cpuPartial

/-- The bytes of a slab. -/
def Cache.span (cache : Cache) : Nat := 2 ^ cache.order * pageSize

theorem calculateOrderLoop_fits (size fuel order : Nat) (total : order + fuel = 11) :
    (calculateOrderLoop size fuel order &&& 0xffff) * size <= 2 ^ (calculateOrderLoop size fuel order >>> 16) *
      pageSize := by
  have packed : forall order number, number * size <= 2 ^ order * pageSize ->
      (((order <<< 16) ||| number) &&& 0xffff) * size <= 2 ^ (((order <<< 16) ||| number) >>> 16) * pageSize := by
    intro order number fits
    have objects : ((order <<< 16) ||| number) &&& 0xffff <= number := by
      rw [Nat.and_or_distrib_right]
      have low : (order <<< 16) &&& 0xffff = 0 := by
        rw [show (0xffff : Nat) = 2 ^ 16 - 1 from rfl, Nat.and_two_pow_sub_one_eq_mod, Nat.shiftLeft_eq,
          Nat.mul_mod_left]
      rw [low, Nat.zero_or]
      exact Nat.and_le_left
    have pages : order <= ((order <<< 16) ||| number) >>> 16 := by
      rw [Nat.shiftRight_or_distrib, Nat.shiftLeft_shiftRight]
      exact Nat.left_le_or
    calc (((order <<< 16) ||| number) &&& 0xffff) * size
        <= number * size := Nat.mul_le_mul_right _ objects
      _ <= 2 ^ order * pageSize := fits
      _ <= 2 ^ (((order <<< 16) ||| number) >>> 16) * pageSize :=
          Nat.mul_le_mul_right _ (Nat.pow_le_pow_right Nat.two_pos pages)
  induction fuel generalizing order with
  | zero =>
      refine packed 10 _ ?_
      rw [Nat.shiftLeft_eq, Nat.mul_comm pageSize]
      exact Nat.div_mul_le_self _ _
  | succ fuel inductionHypothesis =>
      rw [calculateOrderLoop]
      split
      · refine packed order _ (Nat.le_trans (Nat.div_mul_le_self _ _) ?_)
        rw [Nat.one_shiftLeft]
        exact Nat.sub_le _ _
      · exact inductionHypothesis (order + 1) (by omega)

/-- `kmem_cache_create`, for a size that is at least one byte. -/
def kmemCacheCreate (size : Nat) (some : 0 < size) : Cache where
  size := (size + 7) / 8 * 8
  order := calculateOrder ((size + 7) / 8 * 8) >>> 16
  objects := calculateOrder ((size + 7) / 8 * 8) &&& 0xffff
  cpuPartial := 30
  word := by omega
  fits := calculateOrderLoop_fits _ 11 0 rfl
  batch := by decide

/-! ## The state -/

/-- The fields of `struct page`, but for those that link it. -/
structure Slab where
  freelist : Nat
  inuse : Int
  objects : Int
  sMem : Nat

end Slub

/-- A cache with the memory of its slabs.  A pointer is an address, zero for
`NULL`. -/
structure Slub where
  memory : Nat -> Nat
  page : Nat -> Slub.Slab
  /-- `cpu_slab->freelist` -/
  cpuFreelist : Nat
  /-- `cpu_slab->page` -/
  cpuPage : Option Nat
  /-- `cpu_slab->partial` -/
  cpuPartial : List Nat
  /-- `node[0]->nr_partial` -/
  nrPartial : Int
  /-- `node[0]->partial` -/
  nodePartial : List Nat
  /-- The pages that the host has given and not taken back -/
  slabs : List Nat
  /-- Where the slabs are and were that the host has given -/
  regions : List Nat
  /-- The objects that the callers hold -/
  live : List Nat
  /-- The objects that were put on the list of the processor, the last one first -/
  freed : List Nat

namespace Slub

/-- The stop of a load from `NULL`, and that of calls that do not end. -/
inductive Fault where
  | nullLoad
  | endless
deriving DecidableEq

abbrev Routine (Value : Type) := Program Slub Empty Fault Value

/-- The state after `kmem_cache_create`. -/
def empty (memory : Nat -> Nat) (page : Nat -> Slab) : Slub := ⟨memory, page, 0, none, [], 0, [], [], [], [], []⟩

def setPage (slub : Slub) (page : Nat) (slab : Slab) : Slub := { slub with page := Function.update slub.page page slab }

/-- `list_add(&page->list, &n->partial); n->nr_partial++` -/
def addPartial (slub : Slub) (page : Nat) : Slub :=
  { slub with nodePartial := page :: slub.nodePartial, nrPartial := slub.nrPartial + 1 }

/-- The loop of `init_slab_page`, from object `i` on: the memory and the list -/
def initLoop (cache : Cache) (start : Nat) : Nat -> Nat -> (Nat -> Nat) -> Nat -> (Nat -> Nat) × Nat
  | 0, _, memory, freelist => (memory, freelist)
  | fuel + 1, i, memory, freelist =>
      let obj := start + i * cache.size
      initLoop cache start fuel (i + 1) (Function.update memory obj freelist) obj

/-- `alloc_pages` and `init_slab_page`, where the host gives the `struct page`
and the memory. -/
def newSlab (cache : Cache) (page start : Nat) (slub : Slub) : Slub :=
  let listed := initLoop cache start cache.objects 0 slub.memory 0
  { slub.setPage page ⟨listed.2, 0, cache.objects, start⟩ with
    memory := listed.1
    slabs := page :: slub.slabs
    regions := start :: slub.regions }

/-- `page->freelist = *(void**)object; page->inuse++` -/
def taken (page object : Nat) (slub : Slub) : Slub :=
  { slub.setPage page { slub.page page with
      freelist := slub.memory object
      inuse := (slub.page page).inuse + 1 } with
    live := object :: slub.live }

/-- The first object of a slab is taken. -/
def takeObject (page : Nat) : Routine Nat := do
  let slub <- get
  if (slub.page page).freelist = 0 then halt .nullLoad
  else do
    modify (taken page (slub.page page).freelist)
    pure (slub.page page).freelist

/-- A current page that is full goes on the list of the node. -/
def retired (slub : Slub) : Slub :=
  match slub.cpuPage with
  | none => slub
  | some page => if (slub.page page).inuse = (slub.page page).objects then slub.addPartial page else slub

/-- The loop of `kmem_cache_alloc` that takes pages from the node, with the
free objects that it has taken so far -/
def refill (target : Int) : List Nat -> Int -> Slub -> Slub
  | [], _, slub => slub
  | page :: rest, current, slub =>
      if current < target then
        refill target rest (current + ((slub.page page).objects - (slub.page page).inuse))
          { slub with
            nodePartial := rest
            nrPartial := slub.nrPartial - 1
            cpuPartial := page :: slub.cpuPartial }
      else slub

/-- `kmem_cache_alloc`, where `host` is what `alloc_pages` gives.  It calls
itself once, after it has taken pages from the node. -/
def kmemCacheAlloc (cache : Cache) (host : Option (Nat × Nat)) : Nat -> Routine (Option Nat)
  | 0 => halt .endless
  | fuel + 1 => do
      let slub <- get
      match slub.cpuPage.filter (fun page => (slub.page page).freelist ≠ 0) with
      | some page => some <$> takeObject page
      | none =>
          match slub.cpuPartial with
          | page :: rest => do
              modify (fun slub => { retired slub with cpuPage := some page, cpuPartial := rest })
              some <$> takeObject page
          | [] =>
              match slub.nodePartial with
              | _ :: _ => do
                  modify (fun slub => refill (cache.cpuPartial / 2 : Nat) slub.nodePartial 0 slub)
                  kmemCacheAlloc cache host fuel
              | [] =>
                  match host with
                  | none => pure none
                  | some (page, start) => do
                      modify (newSlab cache page start)
                      modify (fun slub => { retired slub with cpuPage := some page })
                      some <$> takeObject page

/-- The object goes on the list of the processor. -/
def put (object : Nat) (slub : Slub) : Slub :=
  { slub with
    memory := Function.update slub.memory object slub.cpuFreelist
    cpuFreelist := object
    live := slub.live.erase object
    freed := object :: slub.freed }

/-- What becomes of the current page when it has lost an object. -/
def released (page : Nat) (slub : Slub) : Slub :=
  if (slub.page page).inuse = 0 then { slub with slabs := slub.slabs.erase page, cpuPage := none }
  else if (slub.page page).inuse < (slub.page page).objects / 2 then
    { slub.addPartial page with cpuPage := none }
  else slub

def kmemCacheFree (cache : Cache) (object : Nat) : Routine Unit := do
  if object = 0 then pure ()
  else do
    let slub <- get
    match slub.cpuPage.filter fun page =>
        (slub.page page).sMem <= object /\ object < (slub.page page).sMem + cache.span with
    | none => modify (put object)
    | some page => do
        modify (put object)
        modify (fun slub => slub.setPage page { slub.page page with inuse := (slub.page page).inuse - 1 })
        modify (released page)

/-! ## Runs -/

inductive Event where
  | alloc (host : Option (Nat × Nat))
  | free (object : Nat)
  /-- A caller, or the constructor, writes to an object that is held. -/
  | write (object : Nat) (change : Nat -> Nat)

def written (cache : Cache) (object : Nat) (change : Nat -> Nat) (slub : Slub) : Slub :=
  { slub with
    memory := fun address =>
      if object <= address /\ address < object + cache.size then change address else slub.memory address }

def perform (cache : Cache) : Event -> Routine Unit
  | .alloc host => do
      let _ <- kmemCacheAlloc cache host 2
  | .free object => kmemCacheFree cache object
  | .write object change => modify (written cache object change)

/-- Two slabs, or a slab and the memory of another one, do not overlap. -/
def Disjoint (cache : Cache) (start other : Nat) : Prop := start + cache.span <= other \/ other + cache.span <= start

instance (cache : Cache) (start other : Nat) : Decidable (Disjoint cache start other) :=
  inferInstanceAs (Decidable (_ \/ _))

/-- The host gives memory that is not in use.  Only objects that are held are
freed and written. -/
def Allows (cache : Cache) (slub : Slub) : Event -> Prop
  | .alloc none => True
  | .alloc (some (page, start)) => page ∉ slub.slabs /\ 0 < start /\
      forall other, other ∈ slub.slabs -> Disjoint cache start (slub.page other).sMem
  | .free object => object = 0 \/ object ∈ slub.live
  | .write object _ => object ∈ slub.live

instance (cache : Cache) (slub : Slub) : forall event, Decidable (Allows cache slub event)
  | .alloc none => inferInstanceAs (Decidable True)
  | .alloc (some _) => inferInstanceAs (Decidable (_ /\ _ /\ _))
  | .free _ => inferInstanceAs (Decidable (_ \/ _))
  | .write _ _ => inferInstanceAs (Decidable (_ ∈ _))

def machine (cache : Cache) : Machine Slub Event where
  step slub event := if Allows cache slub event then (perform cache event slub).state else none

end Slub

end Memory
end Ucore
