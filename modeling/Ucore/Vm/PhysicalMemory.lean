import Mathlib.Data.List.Nodup
import Mathlib.Logic.Function.Basic

namespace Ucore
namespace Vm

/-!
# Page frames

Physical page managers are reached through `struct pmm_manager`.  The virtual
memory code allocates and frees single pages, so a manager is seen here
through these two calls and `nr_free_pages`.  Its state is its own.

What a manager promises is split.  While it is in order, it hands out the
lowest page of its pool, a call fails exactly when the pool is empty, and it
stays in order.  A page that is given back joins the pool only if the release
is clean: the manager of this kernel spoils its list by other releases, and
hands out pages that are in use from then on.

The reference count and the flags of a descriptor are kept by the kernel.
Freeing a page clears both, as the managers do.
-/

/-- A physical page manager, for single pages.  Nothing is promised of a state
that is not `Sound`, so every result on calls that give pages back has to say
why its releases are `clean`. -/
structure PmmManager where
  State : Type
  allocPage : State -> Option (Nat × State)
  freePage : State -> Nat -> State
  nrFreePages : State -> Nat
  /-- The page is in the pool. -/
  isFree : State -> Nat -> Bool
  /-- The manager has the page in its pool, or has handed it out. -/
  Manages : Nat -> Prop
  /-- The manager is in order. -/
  Sound : State -> Prop
  /-- Giving the page back keeps the manager in order. -/
  clean : State -> Nat -> Bool
  alloc_spec : forall state page next, Sound state -> allocPage state = some (page, next) ->
    isFree state page = true /\ nrFreePages state = nrFreePages next + 1 /\ Sound next /\
      forall other, isFree next other = true <-> isFree state other = true /\ other ≠ page
  alloc_least : forall state page next, Sound state -> allocPage state = some (page, next) ->
    forall other, isFree state other = true -> page <= other
  alloc_none : forall state, Sound state -> (allocPage state = none <-> nrFreePages state = 0)
  free_none : forall state, Sound state -> nrFreePages state = 0 -> forall page, isFree state page = false
  free_manages : forall state page, Sound state -> isFree state page = true -> Manages page
  free_spec : forall state page, Sound state -> Manages page -> isFree state page = false -> clean state page = true ->
    Sound (freePage state page) /\
      forall other, isFree (freePage state page) other = true <-> isFree state other = true \/ other = page
  clean_lowest : forall state page, Sound state -> Manages page ->
    (forall other, isFree state other = true -> page < other) -> clean state page = true

/-- The pool, the descriptor fields the virtual memory code uses, and the
bytes of every page. -/
structure Frames (M : PmmManager) where
  pool : M.State
  ref : Nat -> Int
  cow : Nat -> Bool
  content : Nat -> Nat -> UInt8

namespace Frames

variable {M : PmmManager}

/-- The page is in the pool of the manager. -/
def IsFree (frames : Frames M) (page : Nat) : Prop := M.isFree frames.pool page = true

instance (frames : Frames M) (page : Nat) : Decidable (frames.IsFree page) :=
  inferInstanceAs (Decidable (_ = _))

/-- The manager of the pool is in order. -/
def Sound (frames : Frames M) : Prop := M.Sound frames.pool

/-- Giving the page back keeps the manager in order. -/
def Clean (frames : Frames M) (page : Nat) : Prop := M.clean frames.pool page = true

instance (frames : Frames M) (page : Nat) : Decidable (frames.Clean page) :=
  inferInstanceAs (Decidable (_ = _))

/-- `alloc_page()`; `none` is `NULL`. -/
def allocPage (frames : Frames M) : Option (Nat × Frames M) :=
  (M.allocPage frames.pool).map (fun result => (result.1, { frames with pool := result.2 }))

def freePage (frames : Frames M) (page : Nat) : Frames M :=
  { frames with
    pool := M.freePage frames.pool page
    ref := Function.update frames.ref page 0
    cow := Function.update frames.cow page false }

def setPageRef (frames : Frames M) (page : Nat) (val : Int) : Frames M :=
  { frames with ref := Function.update frames.ref page val }

def pageRefInc (frames : Frames M) (page : Nat) : Frames M := frames.setPageRef page (frames.ref page + 1)

def pageRefDec (frames : Frames M) (page : Nat) : Frames M := frames.setPageRef page (frames.ref page - 1)

/-- `page_ref_dec`, and `free_page` when the count has come to zero. -/
def dropReference (frames : Frames M) (page : Nat) : Frames M :=
  let dropped := frames.pageRefDec page
  if dropped.ref page = 0 then dropped.freePage page else dropped

/-- `SetPageCow` and `ClearPageCow` -/
def setPageCow (frames : Frames M) (page : Nat) (flag : Bool) : Frames M :=
  { frames with cow := Function.update frames.cow page flag }

/-- Replace all bytes of a page, for `memset` and `memcpy` of whole pages. -/
def fill (frames : Frames M) (page : Nat) (bytes : Nat -> UInt8) : Frames M :=
  { frames with content := Function.update frames.content page bytes }

/-! ## Allocation -/

/-- One page has left a pool in order: the lowest one. -/
structure Takes (frames next : Frames M) (page : Nat) : Prop where
  wasFree : frames.IsFree page
  free : forall other, next.IsFree other <-> frames.IsFree other /\ other ≠ page
  nrFree : M.nrFreePages frames.pool = M.nrFreePages next.pool + 1
  least : forall other, frames.IsFree other -> page <= other
  sound : next.Sound

/-- What an allocation changes: one page leaves the pool. -/
theorem allocPage_takes {frames next : Frames M} {page : Nat} (sound : frames.Sound)
    (allocated : frames.allocPage = some (page, next)) : frames.Takes next page := by
  rcases Option.map_eq_some_iff.mp allocated with ⟨result, taken, equal⟩
  cases equal
  have spec := M.alloc_spec _ _ _ sound taken
  exact ⟨spec.1, spec.2.2.2, spec.2.1, M.alloc_least _ _ _ sound taken, spec.2.2.1⟩

/-- An allocation leaves the descriptors and the bytes of all pages alone. -/
theorem allocPage_keeps {frames next : Frames M} {page : Nat} (allocated : frames.allocPage = some (page, next)) :
    next.ref = frames.ref /\ next.cow = frames.cow /\ next.content = frames.content := by
  rcases Option.map_eq_some_iff.mp allocated with ⟨result, taken, equal⟩
  cases equal
  exact ⟨rfl, rfl, rfl⟩

theorem allocPage_eq_none_iff {frames : Frames M} (sound : frames.Sound) :
    frames.allocPage = none <-> M.nrFreePages frames.pool = 0 := by
  rw [allocPage, Option.map_eq_none_iff]
  exact M.alloc_none frames.pool sound

theorem Takes.taken {frames next : Frames M} {page : Nat} (takes : frames.Takes next page) : ¬ next.IsFree page :=
  fun free => ((takes.free page).mp free).2 rfl

theorem Takes.shrinks {frames next : Frames M} {page other : Nat} (takes : frames.Takes next page)
    (free : next.IsFree other) : frames.IsFree other := ((takes.free other).mp free).1

/-! ## Release -/

/-- A page below all free ones may be given back, as may any page to an empty
pool. -/
theorem clean_lowest {frames : Frames M} {page : Nat} (sound : frames.Sound) (managed : M.Manages page)
    (lowest : forall other, frames.IsFree other -> page < other) : frames.Clean page :=
  M.clean_lowest frames.pool page sound managed lowest

theorem clean_of_empty {frames : Frames M} {page : Nat} (sound : frames.Sound) (managed : M.Manages page)
    (empty : M.nrFreePages frames.pool = 0) : frames.Clean page :=
  clean_lowest sound managed fun other free =>
    absurd ((M.free_none frames.pool sound empty other).symm.trans free) Bool.false_ne_true

theorem freePage_spec {frames : Frames M} {page : Nat} (sound : frames.Sound) (managed : M.Manages page)
    (used : ¬ frames.IsFree page) (clean : frames.Clean page) :
    (frames.freePage page).Sound /\
      forall other, (frames.freePage page).IsFree other <-> frames.IsFree other \/ other = page :=
  M.free_spec frames.pool page sound managed (Bool.eq_false_iff.mpr used) clean

/-- If this is the last reference to the page, its release is clean. -/
def DropsCleanly (frames : Frames M) (page : Nat) : Prop := frames.ref page = 1 -> frames.Clean page

instance (frames : Frames M) (page : Nat) : Decidable (frames.DropsCleanly page) :=
  inferInstanceAs (Decidable (_ -> _))

/-- The count goes down by one and the bytes stay, whatever becomes of the
pool. -/
theorem dropReference_keeps (frames : Frames M) (page : Nat) :
    (frames.dropReference page).ref = Function.update frames.ref page (frames.ref page - 1) /\
      (frames.dropReference page).content = frames.content := by
  have dropped : (frames.pageRefDec page).ref page = frames.ref page - 1 := Function.update_self ..
  rw [dropReference]
  by_cases last : frames.ref page = 1
  · rw [if_pos (by omega)]
    refine ⟨?_, rfl⟩
    change Function.update (Function.update frames.ref page _) page 0 = _
    rw [Function.update_idem, last]
    rfl
  · rw [if_neg (by omega)]
    exact ⟨rfl, rfl⟩

theorem dropReference_pool (frames : Frames M) (page : Nat) :
    (frames.dropReference page).pool = if frames.ref page = 1 then M.freePage frames.pool page else frames.pool := by
  have dropped : (frames.pageRefDec page).ref page = frames.ref page - 1 := Function.update_self ..
  rw [dropReference]
  by_cases last : frames.ref page = 1
  · rw [if_pos (by omega), if_pos last]
    rfl
  · rw [if_neg (by omega), if_neg last]
    rfl

/-- The last reference returns the page. -/
theorem dropReference_spec {frames : Frames M} {page : Nat} (sound : frames.Sound) (managed : M.Manages page)
    (used : ¬ frames.IsFree page) (clean : frames.DropsCleanly page) :
    (frames.dropReference page).Sound /\ forall other, (frames.dropReference page).IsFree other <->
      frames.IsFree other \/ (other = page /\ frames.ref page = 1) := by
  unfold Sound IsFree
  rw [dropReference_pool]
  by_cases last : frames.ref page = 1
  · rw [if_pos last]
    have freed := freePage_spec sound managed used (clean last)
    refine ⟨freed.1, fun other => (freed.2 other).trans (or_congr_right ?_)⟩
    exact (and_iff_left last).symm
  · rw [if_neg last]
    refine ⟨sound, fun other => (or_iff_left fun both => last both.2).symm⟩

end Frames

end Vm
end Ucore
