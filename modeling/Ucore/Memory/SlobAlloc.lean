import Ucore.Memory.SlobFree

namespace Ucore
namespace Slob

open Library
open Program

/-!
# Allocating a small block

The search goes once around the free list.  When no entry has room, a page is
put on the list, and the second round finds the entry that covers the page.
The entry is then taken out of the list, or cut, which needs a second entry on
the list.
-/

variable {heap : Heap} {free live : Finset Nat} {done : Nat -> Heap -> Prop}
  {fail : Empty -> Heap -> Prop} {stop : Fault -> Prop}

/-! ## The memory of the heap -/

def pageSpan : Option Nat -> Finset Nat
  | none => ∅
  | some page => Finset.Ico page (page + pageSize)

/-- The static unit and the pages obtained so far. -/
def owned (answer : Nat -> Option Nat) (arena : Nat) : Nat -> Finset Nat
  | 0 => Finset.Ico arena (arena + slobUnit)
  | asked + 1 => owned answer arena asked ∪ pageSpan (answer asked)

/-- The page allocator returns fresh disjoint pages, at no time the address
zero, which `slob_alloc` takes for a failure. -/
structure FreshPages (answer : Nat -> Option Nat) (arena : Nat) : Prop where
  nonzero : 0 < arena
  page : forall asked page, answer asked = some page ->
    0 < page /\ Disjoint (owned answer arena asked) (Finset.Ico page (page + pageSize))

variable {answer : Nat -> Option Nat} {arena : Nat}

theorem card_owned_le (asked : Nat) : (owned answer arena asked).card <= slobUnit + pageSize * asked := by
  induction asked with
  | zero =>
      rw [owned, Nat.card_Ico]
      omega
  | succ asked inductionHypothesis =>
      have union := Finset.card_union_le (owned answer arena asked) (pageSpan (answer asked))
      have span : (pageSpan (answer asked)).card <= pageSize := by
        cases answer asked with
        | none => exact Nat.zero_le _
        | some page =>
            rw [pageSpan, Nat.card_Ico]
            omega
      rw [owned, Nat.mul_succ]
      omega

theorem FreshPages.zero_notMem (fresh : FreshPages answer arena) (asked : Nat) : 0 ∉ owned answer arena asked := by
  induction asked with
  | zero =>
      have positive := fresh.nonzero
      rw [owned, Finset.mem_Ico]
      omega
  | succ asked inductionHypothesis =>
      rw [owned, Finset.mem_union]
      rintro (old | new)
      · exact inductionHypothesis old
      · cases answered : answer asked with
        | none =>
            rw [answered] at new
            exact Finset.notMem_empty _ new
        | some page =>
            have positive := (fresh.page asked page answered).1
            rw [answered, pageSpan, Finset.mem_Ico] at new
            omega

/-- There are fewer free entries than owned addresses. -/
theorem Laid.card_le (laid : Laid heap free live (owned answer arena heap.asked)) :
    free.card <= slobUnit + pageSize * heap.asked :=
  calc free.card <= (free ∪ live).card := Finset.card_le_card Finset.subset_union_left
    _ <= (owned answer arena heap.asked).card := Finset.card_le_card laid.tiling.subset
    _ <= slobUnit + pageSize * heap.asked := card_owned_le heap.asked

theorem Laid.card_lt (laid : Laid heap free live (owned answer arena heap.asked)) : free.card < heap.limit := by
  have few := laid.card_le
  unfold slobUnit pageSize at few
  unfold Heap.limit pageSize
  omega

theorem Laid.mem_entries (laid : Laid heap free live (owned answer arena heap.asked)) {entry : Nat} :
    entry ∈ heap.entries <-> entry ∈ free := laid.circle.mem_upto laid.start laid.card_lt

/-! ## The entry found -/

/-- What a request leaves: `cur` has become a live block of that many units,
and does not end at the only free entry. -/
structure Taken (heap after : Heap) (live owned : Finset Nat) (units cur : Nat) : Prop where
  asked : after.asked = heap.asked
  lives : forall block, block ∈ live -> after.units block = heap.units block
  fits : after.units cur = units
  absent : cur ∉ live
  laid : Exists fun rest => Laid after rest (insert cur live) owned
  returns : after.next after.slobfree = after.slobfree -> cur + after.width cur ≠ after.slobfree

/-- The state in which an entry has been cut after `units` units. -/
def Heap.fragment (heap : Heap) (units prev cur : Nat) : Heap :=
  { heap with
    units := Function.update (Function.update heap.units (cur + slobUnit * units) (heap.units cur - units)) cur units
    next := Function.update (Function.update heap.next prev (cur + slobUnit * units)) (cur + slobUnit * units)
      (Function.update heap.next prev (cur + slobUnit * units) cur) }

variable {owned : Finset Nat} {units prev : Nat}

theorem take_meets {cur : Nat} (fit : heap.units cur = units ->
      done cur { heap.link prev (heap.next cur) with slobfree := prev })
    (larger : heap.units cur ≠ units -> done cur { heap.fragment units prev cur with slobfree := prev }) :
    Meets (take units prev cur) heap ⟨done, fail, stop⟩ := by
  unfold take carve setUnits setNext
  simp only [meets_bind, meets_get, meets_ite, meets_modify, meets_pure, Function.update_self]
  split
  · rename_i same
    exact fit same
  · rename_i different
    exact larger different

theorem swap_union {cur : Nat} (member : cur ∈ free) : free.erase cur ∪ insert cur live = free ∪ live := by
  rw [Finset.union_insert, ← Finset.insert_union, Finset.insert_erase member]

theorem Laid.unlink (laid : Laid heap free live owned) (member : prev ∈ free) (several : heap.next prev ≠ prev) :
    Laid { heap.link prev (heap.next (heap.next prev)) with slobfree := prev } (free.erase (heap.next prev))
      (insert (heap.next prev) live) owned where
  circle := by
    apply laid.circle.unlink member several
    · exact Function.update_self _ _ _
    · exact fun entry _ notPrev _ => Function.update_of_ne notPrev _ _
  start := Finset.mem_erase.mpr ⟨several.symm, member⟩
  tiling := by
    rw [swap_union (laid.circle.closed _ member)]
    exact laid.tiling
  apart := by
    rw [Finset.disjoint_insert_right]
    exact ⟨Finset.notMem_erase _ _, Finset.disjoint_of_subset_left (Finset.erase_subset _ _) laid.apart⟩
  gaps := fun entry other found present =>
    laid.gaps entry other (Finset.mem_of_mem_erase found) (Finset.mem_of_mem_erase present)

/-- The rest of a cut entry lies in the gap that the entry leaves. -/
theorem between_rest {width next : Nat -> Nat} {new : Nat} (circle : Circle next free)
    (tiling : BlockTiling width (free ∪ live) owned) (member : prev ∈ free)
    (after : next prev < new) (before : new < next prev + width (next prev)) :
    Between prev new (next (next prev)) := by
  have here := circle.closed _ member
  have there := circle.closed _ here
  have first := circle.empty _ _ member there
  have second := circle.empty _ _ here member
  have low := tiling.apart _ prev (Finset.mem_union_left _ here) (Finset.mem_union_left _ member)
  have high := tiling.apart _ _ (Finset.mem_union_left _ here) (Finset.mem_union_left _ there)
  unfold Between at *
  omega

theorem Laid.cut (laid : Laid heap free live owned) (member : prev ∈ free) (several : heap.next prev ≠ prev)
    (positive : 0 < units) (larger : units < heap.units (heap.next prev)) :
    Laid { heap.fragment units prev (heap.next prev) with slobfree := prev }
      (insert (heap.next prev + slobUnit * units) (free.erase (heap.next prev)))
        (insert (heap.next prev) live) owned := by
  have here := laid.circle.closed _ member
  generalize entry_eq : heap.next prev = cur at *
  generalize new_eq : cur + slobUnit * units = new at *
  have above : cur < new := by
    unfold slobUnit at new_eq
    omega
  have below : new < cur + heap.width cur := by
    unfold Heap.width slobUnit at *
    omega
  have absent : new ∉ free ∪ live := by
    intro found
    have wide := laid.tiling.positive _ found
    have same := laid.tiling.unique found (Finset.mem_union_left _ here) (Nat.le_refl new) (by omega)
      (Nat.le_of_lt above) below
    omega
  have notPrev : new ≠ prev := by
    rintro rfl
    exact absent (Finset.mem_union_left _ member)
  have nextNew : (heap.fragment units prev cur).next new = heap.next cur := by
    unfold Heap.fragment
    dsimp only
    rw [new_eq, Function.update_self, Function.update_of_ne several]
  have nextPrev : (heap.fragment units prev cur).next prev = new := by
    unfold Heap.fragment
    dsimp only
    rw [new_eq, Function.update_of_ne notPrev.symm, Function.update_self]
  have unitsCur : (heap.fragment units prev cur).units cur = units := Function.update_self _ _ _
  have unitsNew : (heap.fragment units prev cur).units new = heap.units cur - units := by
    unfold Heap.fragment
    dsimp only
    rw [Function.update_of_ne (Nat.ne_of_gt above), new_eq, Function.update_self]
  have unitsOther : forall entry, entry ∈ free ∪ live -> entry ≠ cur ->
      (heap.fragment units prev cur).units entry = heap.units entry := by
    intro entry found notCur
    have notNew : entry ≠ new := by
      rintro rfl
      exact absent found
    unfold Heap.fragment
    dsimp only
    rw [Function.update_of_ne notCur, new_eq, Function.update_of_ne notNew]
  have split : BlockTiling (heap.fragment units prev cur).width (insert new (free ∪ live)) owned := by
    rw [← new_eq]
    apply laid.tiling.split (Finset.mem_union_left _ here)
    · unfold slobUnit
      omega
    · unfold Heap.width slobUnit
      omega
    · unfold Heap.width
      rw [unitsCur]
    · unfold Heap.width
      rw [new_eq, unitsNew, Nat.mul_sub]
    · intro entry found notCur
      unfold Heap.width
      rw [unitsOther entry found notCur]
  constructor
  · have unlinked : Circle (Function.update heap.next prev (heap.next cur)) (free.erase cur) := by
      rw [← entry_eq]
      apply laid.circle.unlink member
      · rwa [entry_eq]
      · exact Function.update_self _ _ _
      · exact fun entry _ notPrev _ => Function.update_of_ne notPrev _ _
    apply unlinked.insert (Finset.mem_erase.mpr ⟨several.symm, member⟩)
    · rw [Function.update_self, ← entry_eq]
      apply between_rest laid.circle laid.tiling member <;> rwa [entry_eq]
    · exact nextPrev
    · rw [Function.update_self]
      exact nextNew
    · intro entry found notPrevToo
      have notNew : entry ≠ new := by
        rintro rfl
        exact absent (Finset.mem_union_left _ (Finset.mem_of_mem_erase found))
      rw [Function.update_of_ne notPrevToo]
      change (heap.fragment units prev cur).next entry = _
      unfold Heap.fragment
      dsimp only
      rw [new_eq, Function.update_of_ne notNew, Function.update_of_ne notPrevToo]
  · exact Finset.mem_insert_of_mem (Finset.mem_erase.mpr ⟨several.symm, member⟩)
  · rw [Finset.insert_union, swap_union here]
    exact split
  · rw [Finset.disjoint_insert_right, Finset.disjoint_insert_left, Finset.mem_insert]
    refine ⟨?_, fun found => absent (Finset.mem_union_right _ found),
      Finset.disjoint_of_subset_left (Finset.erase_subset _ _) laid.apart⟩
    rintro (same | found)
    · omega
    · exact Finset.notMem_erase _ _ found
  · intro entry another found present
    change entry + slobUnit * (heap.fragment units prev cur).units entry ≠ another
    rcases Finset.mem_insert.mp found with isNew | old
    · rw [isNew, unitsNew]
      rcases Finset.mem_insert.mp present with same | other
      · rw [same]
        unfold slobUnit
        omega
      · have whole := laid.gaps cur another here (Finset.mem_of_mem_erase other)
        unfold Heap.width at whole
        rw [Nat.mul_sub, ← new_eq]
        unfold slobUnit at *
        omega
    · rcases Finset.mem_erase.mp old with ⟨notCur, oldFree⟩
      have oldBlock := Finset.mem_union_left live oldFree
      rw [unitsOther entry oldBlock notCur]
      rcases Finset.mem_insert.mp present with same | other
      · have before := laid.tiling.apart entry cur oldBlock (Finset.mem_union_left _ here)
        have behind := laid.tiling.apart cur entry (Finset.mem_union_left _ here) oldBlock
        change entry + heap.width entry ≠ another
        have wide := laid.tiling.positive entry oldBlock
        omega
      · exact laid.gaps entry another oldFree (Finset.mem_of_mem_erase other)

/-- What `slob_alloc` leaves when it has found an entry with room. -/
theorem take_taken (laid : Laid heap free live owned) (member : prev ∈ free) (several : heap.next prev ≠ prev)
    (positive : 0 < units) (room : units <= heap.units (heap.next prev))
    (taken : forall cur after, Taken heap after live owned units cur -> done cur after) :
    Meets (take units prev (heap.next prev)) heap ⟨done, fail, stop⟩ := by
  have here := laid.circle.closed _ member
  have absent := Finset.disjoint_left.mp laid.apart here
  apply take_meets
  · intro fit
    exact taken _ _ ⟨rfl, fun _ _ => rfl, fit, absent, ⟨_, laid.unlink member several⟩,
      fun _ => laid.gaps _ _ here member⟩
  · intro larger
    apply taken
    have cut := laid.cut member several positive (by omega : units < heap.units (heap.next prev))
    -- No block starts where the entry is cut.
    have inside : forall block, block ∈ free ∪ live -> block ≠ heap.next prev ->
        block ≠ heap.next prev + slobUnit * units := by
      rintro block found notCur rfl
      have wide := laid.tiling.positive _ found
      have same := laid.tiling.unique found (Finset.mem_union_left _ here) (Nat.le_refl _)
        (by omega) (by omega) (by
          unfold Heap.width slobUnit
          omega)
      exact notCur same
    refine ⟨rfl, ?_, Function.update_self _ _ _, absent, ⟨_, cut⟩, fun alone => ?_⟩
    · intro block found
      have notCur : block ≠ heap.next prev := by
        rintro rfl
        exact absent found
      have notNew := inside block (Finset.mem_union_right _ found) notCur
      unfold Heap.fragment
      dsimp only
      rw [Function.update_of_ne notCur, Function.update_of_ne notNew]
    · have reached := cut.circle.only cut.start (Finset.mem_insert_self _ _) alone
      exact absurd reached.symm (inside prev (Finset.mem_union_left _ member) several.symm)

/-! ## The search -/

/-- The search ends when an entry ahead has room. -/
theorem searchLoop_finds {size fuel place roomy : Nat} (laid : Laid heap free live owned) (member : place ∈ free)
    (several : forall entry, entry ∈ free -> heap.next entry ≠ entry) (positive : 0 < slobUnits size)
    (found : roomy ∈ free) (room : slobUnits size <= heap.units roomy)
    (reach : roomy = heap.slobfree \/ roomy ∈ Circle.ahead free place heap.slobfree)
    (enough : (Circle.ahead free place heap.slobfree).card < fuel)
    (taken : forall cur after, Taken heap after live owned (slobUnits size) cur -> done cur after) :
    Meets (searchLoop answer size fuel place) heap ⟨done, fail, stop⟩ := by
  induction fuel generalizing place with
  | zero => omega
  | succ fuel inductionHypothesis =>
      unfold searchLoop
      simp only [meets_bind, meets_get, meets_ite]
      split
      · rename_i fits
        exact take_taken laid member (several place member) positive fits taken
      · rename_i small
        have elsewhere : roomy ≠ heap.next place := by
          rintro rfl
          exact small room
        split
        · rename_i round
          exfalso
          rcases reach with last | later
          · exact elsewhere (last.trans round.symm)
          · rw [← round] at later
            exact laid.circle.empty _ _ member found (Finset.mem_filter.mp later).2
        · rename_i onward
          have unpassed := laid.circle.empty _ _ member laid.start
          have fewer := laid.circle.ahead_lt member onward unpassed
          apply inductionHypothesis (laid.circle.closed _ member)
          · rcases reach with last | later
            · exact .inl last
            · exact .inr ((laid.circle.ahead_step member later).resolve_left elsewhere)
          · omega

/-- The search goes once around and then asks for a page. -/
theorem searchLoop_grows {size fuel place spare : Nat} {post : Post Heap Empty Fault Nat}
    (laid : Laid heap free live owned) (member : place ∈ free)
    (full : forall entry, entry ∈ free -> ¬ slobUnits size <= heap.units entry)
    (enough : (Circle.ahead free place heap.slobfree).card + spare < fuel)
    (grown : forall fuel, spare <= fuel -> Meets (grow answer size (searchLoop answer size fuel)) heap post) :
    Meets (searchLoop answer size fuel place) heap post := by
  induction fuel generalizing place with
  | zero => omega
  | succ fuel inductionHypothesis =>
      have after := laid.circle.closed _ member
      unfold searchLoop
      simp only [meets_bind, meets_get, meets_ite]
      rw [if_neg (full _ after)]
      split
      · exact grown fuel (by omega)
      · rename_i onward
        have unpassed := laid.circle.empty _ _ member laid.start
        have fewer := laid.circle.ahead_lt member onward unpassed
        exact inductionHypothesis after (by omega)

end Slob
end Ucore
