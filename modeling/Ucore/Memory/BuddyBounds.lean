import Ucore.Memory.BuddyAllocation
import Ucore.Memory.BuddyInit

namespace Ucore
namespace Memory

open Library

/-!
# What a release reads and writes

The descriptor array has `npage - nbase` entries, but the merge loop tests a
buddy against `pages + npage`.  The traces below list the descriptors that the
loop looks at and the nodes it writes.  The test goes wrong at one place only:
when a block ends with the array, and its order is such that the buddy would
come after it.
-/

namespace BuddySystem

/-! ## The traces -/

/-- The descriptors whose flag and property field the merge loop reads; the
bound comes first in its test. -/
def mergeReads : Nat -> BuddySystem -> Nat -> Nat -> List Nat
  | 0, _, _, _ => []
  | fuel + 1, sys, base, order =>
      if order < maxOrder then
        let buddy := getBuddy base order
        (if buddy < sys.npage then [buddy] else []) ++
          if sys.claimsFree buddy order = true then
            if base > buddy then mergeReads fuel (sys.unlinkBlock base order) buddy (order + 1)
            else mergeReads fuel (sys.unlinkBlock buddy order) base (order + 1)
          else []
      else []

/-- `list_del` writes the two neighbours of the node. -/
def unlinkWrites (sys : BuddySystem) (start : Nat) : List (ListNode Nat) :=
  [sys.links.prev (.page start), sys.links.next (.page start)]

/-- Linking a block writes its descriptor, the head and the first node. -/
def linkWrites (sys : BuddySystem) (start order : Nat) : List (ListNode Nat) :=
  [.page start, .head order, sys.links.next (.head order)]

/-- The nodes that the merge loop writes. -/
def mergeWrites : Nat -> BuddySystem -> Nat -> Nat -> List (ListNode Nat)
  | 0, _, _, _ => []
  | fuel + 1, sys, base, order =>
      if order < maxOrder then
        let buddy := getBuddy base order
        if sys.claimsFree buddy order = true then
          if base > buddy then
            sys.unlinkWrites base ++ mergeWrites fuel (sys.unlinkBlock base order) buddy (order + 1)
          else
            sys.unlinkWrites buddy ++ mergeWrites fuel (sys.unlinkBlock buddy order) base (order + 1)
        else sys.linkWrites base order
      else []

def freeReads (sys : BuddySystem) (base n : Nat) : List Nat :=
  mergeReads (maxOrder - roundUpOrder n) sys base (roundUpOrder n)

def freeWrites (sys : BuddySystem) (base n : Nat) : List (ListNode Nat) :=
  mergeWrites (maxOrder - roundUpOrder n) sys base (roundUpOrder n)

theorem mergeReads_round {sys : BuddySystem} {fuel base order : Nat} (bound : order < maxOrder)
    (claims : sys.claimsFree (getBuddy base order) order = true) :
    mergeReads (fuel + 1) sys base order =
      (if getBuddy base order < sys.npage then [getBuddy base order] else []) ++
        mergeReads fuel (sys.unlinkBlock (max base (getBuddy base order)) order)
          (min base (getBuddy base order)) (order + 1) := by
  rw [mergeReads, if_pos bound]
  simp only [if_pos claims]
  by_cases below : base > getBuddy base order
  · rw [if_pos below, Nat.max_eq_left (Nat.le_of_lt below), Nat.min_eq_right (Nat.le_of_lt below)]
  · rw [if_neg below, Nat.max_eq_right (Nat.le_of_not_lt below), Nat.min_eq_left (Nat.le_of_not_lt below)]

theorem mergeWrites_round {sys : BuddySystem} {fuel base order : Nat} (bound : order < maxOrder)
    (claims : sys.claimsFree (getBuddy base order) order = true) :
    mergeWrites (fuel + 1) sys base order =
      sys.unlinkWrites (max base (getBuddy base order)) ++
        mergeWrites fuel (sys.unlinkBlock (max base (getBuddy base order)) order)
          (min base (getBuddy base order)) (order + 1) := by
  rw [mergeWrites, if_pos bound]
  simp only [if_pos claims]
  by_cases below : base > getBuddy base order
  · rw [if_pos below, Nat.max_eq_left (Nat.le_of_lt below), Nat.min_eq_right (Nat.le_of_lt below)]
  · rw [if_neg below, Nat.max_eq_right (Nat.le_of_not_lt below), Nat.min_eq_left (Nat.le_of_not_lt below)]

theorem unlinkBlock_frame (sys : BuddySystem) (start order : Nat) (node : ListNode Nat)
    (outside : node ∉ sys.unlinkWrites start) :
    (sys.unlinkBlock start order).links.next node = sys.links.next node /\
      (sys.unlinkBlock start order).links.prev node = sys.links.prev node := by
  simp only [unlinkWrites, List.mem_cons, List.not_mem_nil, or_false, not_or] at outside
  constructor
  · exact (Links.join_next ..).trans (if_neg outside.1)
  · exact (Links.join_prev ..).trans (if_neg outside.2)

/-- The trace is complete: what it does not list is left as it was. -/
theorem mergeLoop_frame (fuel base order : Nat) (sys : BuddySystem) (node : ListNode Nat)
    (outside : node ∉ mergeWrites fuel sys base order) :
    ((mergeLoop fuel sys base order).1.links.next node = sys.links.next node /\
      (mergeLoop fuel sys base order).1.links.prev node = sys.links.prev node) /\
      forall index, node = .page index -> (mergeLoop fuel sys base order).1.page index = sys.page index := by
  induction fuel generalizing base order sys with
  | zero => exact ⟨⟨rfl, rfl⟩, fun _ _ => rfl⟩
  | succ fuel inductionHypothesis =>
      rw [mergeWrites] at outside
      rw [mergeLoop]
      by_cases bound : order < maxOrder
      · rw [if_pos bound] at outside ⊢
        by_cases claims : sys.claimsFree (getBuddy base order) order = true
        · simp only [if_pos claims] at outside ⊢
          by_cases below : base > getBuddy base order
          · rw [if_pos below, List.mem_append, not_or] at outside
            rw [if_pos below]
            have unlinked := sys.unlinkBlock_frame base order node outside.1
            have rest := inductionHypothesis _ _ _ outside.2
            exact ⟨⟨rest.1.1.trans unlinked.1, rest.1.2.trans unlinked.2⟩, rest.2⟩
          · rw [if_neg below, List.mem_append, not_or] at outside
            rw [if_neg below]
            have unlinked := sys.unlinkBlock_frame (getBuddy base order) order node outside.1
            have rest := inductionHypothesis _ _ _ outside.2
            exact ⟨⟨rest.1.1.trans unlinked.1, rest.1.2.trans unlinked.2⟩, rest.2⟩
        · simp only [if_neg claims] at outside ⊢
          simp only [linkWrites, List.mem_cons, List.not_mem_nil, or_false, not_or] at outside
          refine ⟨⟨?_, ?_⟩, fun index same => Function.update_of_ne (fun equal => ?_) ..⟩
          · exact (Links.insertBetween_next ..).trans (by rw [if_neg outside.1, if_neg outside.2.1])
          · exact (Links.insertBetween_prev ..).trans (by rw [if_neg outside.1, if_neg outside.2.2])
          · exact outside.1 (equal ▸ same)
      · rw [if_neg bound]
        exact ⟨⟨rfl, rfl⟩, fun _ _ => rfl⟩

/-- A release leaves every descriptor alone that is not in its trace. -/
theorem freePages_frame (sys : BuddySystem) (base n index : Nat)
    (outside : ListNode.page index ∉ sys.freeWrites base n) :
    (sys.freePages base n).page index = sys.page index /\
      (sys.freePages base n).links.next (.page index) = sys.links.next (.page index) /\
      (sys.freePages base n).links.prev (.page index) = sys.links.prev (.page index) := by
  have frame := mergeLoop_frame _ base (roundUpOrder n) sys (.page index) outside
  exact ⟨frame.2 index rfl, frame.1⟩

/-! ## The condition -/

/-- The blocks that a release forms: none of them ends with the array while
its buddy would follow it, each merge unlinks the node of the listed buddy, and
the last order is not merged. -/
def ContainedMerge (sys : BuddySystem) (nbase : Nat) : Nat -> Nat -> Nat -> Prop
  | 0, _, _ => False
  | fuel + 1, base, order =>
      (nbase = 0 \/ (base + 2 ^ order = sys.npage - nbase -> 2 ^ (order + 1) ∣ sys.npage - nbase)) /\
        (sys.claimsFree (getBuddy base order) order = true ->
          (base < getBuddy base order \/ SameLinks sys.links base (getBuddy base order)) /\
            sys.ContainedMerge nbase fuel (min base (getBuddy base order)) (order + 1))

def decideContainedMerge (sys : BuddySystem) (nbase : Nat) :
    forall fuel base order, Decidable (sys.ContainedMerge nbase fuel base order)
  | 0, _, _ => inferInstanceAs (Decidable False)
  | fuel + 1, _, _ =>
      have := decideContainedMerge sys nbase fuel
      inferInstanceAs (Decidable ((_ \/ (_ -> _)) /\ (_ -> (_ \/ _) /\ _)))

instance (sys : BuddySystem) (nbase fuel base order : Nat) :
    Decidable (sys.ContainedMerge nbase fuel base order) :=
  sys.decideContainedMerge nbase fuel base order

section Bounds

variable {low high nbase : Nat} {live : List (Nat × Nat)}

/-- The descriptors of the array outside the region do not claim to be free. -/
def OutsideUnmarked (sys : BuddySystem) (low high nbase : Nat) : Prop :=
  forall index, index < sys.npage - nbase -> ¬ (low <= index /\ index < high) ->
    pageProperty (sys.page index) = false

/-- A buddy that the loop looks at is in the array. -/
theorem buddy_in_array {sys : BuddySystem} {free : Nat -> List Nat} {base order : Nat}
    (shape : BuddyShape sys.page sys.links low high free live {⟨base, order⟩})
    (region : high <= sys.npage - nbase)
    (ends : nbase = 0 \/ (base + 2 ^ order = sys.npage - nbase -> 2 ^ (order + 1) ∣ sys.npage - nbase))
    (tested : getBuddy base order < sys.npage) : getBuddy base order < sys.npage - nbase := by
  have member : (⟨base, order⟩ : Block) ∈ blocksOf free live {⟨base, order⟩} := .inr (.inr rfl)
  have aligned : 2 ^ order ∣ base := shape.tiling.aligned _ member
  have within : low <= base /\ base + 2 ^ order <= high := shape.tiling.within member
  have flipped : getBuddy base order =
      if 2 ^ (order + 1) ∣ base then base + 2 ^ order else base - 2 ^ order := xor_two_pow_of_dvd aligned
  have positive := Nat.two_pow_pos order
  by_cases lower : 2 ^ (order + 1) ∣ base
  · rw [if_pos lower] at flipped
    rcases ends with zero | divides
    · omega
    · by_cases last : base + 2 ^ order = sys.npage - nbase
      · -- The block starts and ends at multiples of twice its size, which is too long for it.
        have size : 2 ^ (order + 1) ∣ base + 2 ^ order := last ▸ divides last
        have half := (Nat.dvd_add_right lower).mp size
        have small := Nat.le_of_dvd positive half
        rw [pow_succ] at small
        omega
      · omega
  · rw [if_neg lower] at flipped
    omega

/-- A buddy that passes the test is in the region. -/
theorem claimed_inside {sys : BuddySystem} {free : Nat -> List Nat} {base order : Nat}
    (shape : BuddyShape sys.page sys.links low high free live {⟨base, order⟩})
    (region : high <= sys.npage - nbase) (unmarked : sys.OutsideUnmarked low high nbase)
    (ends : nbase = 0 \/ (base + 2 ^ order = sys.npage - nbase -> 2 ^ (order + 1) ∣ sys.npage - nbase))
    (claims : sys.claimsFree (getBuddy base order) order = true) :
    low <= getBuddy base order /\ getBuddy base order < high := by
  simp only [claimsFree, Bool.and_eq_true, decide_eq_true_eq] at claims
  have inArray := buddy_in_array shape region ends claims.1.1
  by_contra outside
  have flag := unmarked _ inArray outside
  rw [claims.1.2] at flag
  cases flag

/-- A listed descriptor is in the region, and so is every node of its list
that is a descriptor. -/
theorem ring_inside {sys : BuddySystem} {free : Nat -> List Nat} {hand : Set Block} {order index : Nat}
    (shape : BuddyShape sys.page sys.links low high free live hand)
    (member : ListNode.page index ∈ ListNode.head order :: (free order).map ListNode.page) :
    low <= index /\ index < high := by
  have listed := page_mem_ring.mp member
  exact (shape.tiling.covers index).mpr ⟨⟨index, order⟩, .inl listed, Block.covers_start _⟩

/-- Along a contained walk the loop reads inside the array, writes inside the
region, and merges cleanly. -/
theorem mergeLoop_contained {before sys : BuddySystem} {free : Nat -> List Nat} {fuel base order : Nat}
    (total : order + fuel = maxOrder)
    (shape : BuddyShape sys.page sys.links low high free live {⟨base, order⟩})
    (frame : MergeFrame before sys free order) (region : high <= sys.npage - nbase)
    (unmarked : sys.OutsideUnmarked low high nbase)
    (contained : before.ContainedMerge nbase fuel base order) :
    before.CleanMerge low high fuel base order /\
      (forall index, index ∈ mergeReads fuel sys base order -> index < sys.npage - nbase) /\
      forall index, ListNode.page index ∈ mergeWrites fuel sys base order -> low <= index /\ index < high := by
  induction fuel generalizing sys free base order with
  | zero => exact contained.elim
  | succ fuel inductionHypothesis =>
      have bound : order < maxOrder := by omega
      rcases contained with ⟨ends, merges⟩
      rw [← frame.npage] at ends
      have sameClaim : before.claimsFree (getBuddy base order) order =
          sys.claimsFree (getBuddy base order) order := by
        simp only [claimsFree, frame.page, frame.npage]
      have tested : forall index, index ∈ (if getBuddy base order < sys.npage then [getBuddy base order] else []) ->
          index < sys.npage - nbase := by
        intro index member
        split at member
        · rename_i small
          rw [List.mem_singleton.mp member]
          exact buddy_in_array shape region ends small
        · cases member
      by_cases claims : sys.claimsFree (getBuddy base order) order = true
      · rcases merges (sameClaim.trans claims) with ⟨stale, rest⟩
        have inside := claimed_inside shape region unmarked ends claims
        have listed := claimed_listed shape claims inside
        have ring := shape.rings order bound
        have neighbours := ring.neighbours_mem (List.mem_cons_of_mem _ (List.mem_map_of_mem listed))
        have links := stale_links shape frame listed stale
        rcases merge_round shape frame claims inside stale with ⟨nextFree, merged, mergedFrame, _⟩
        rcases inductionHypothesis (by omega) merged mergedFrame region unmarked rest with ⟨clean, reads, writes⟩
        rw [mergeReads_round bound claims, mergeWrites_round bound claims]
        refine ⟨fun _ => ⟨inside, ?_⟩, fun index member => ?_, fun index member => ?_⟩
        · have aligned := shape.tiling.aligned ⟨base, order⟩ (.inr (.inr rfl))
          have different : getBuddy base order ≠ base := Block.buddy_ne aligned
          rcases Nat.lt_or_gt_of_ne different with below | above
          · rw [Nat.min_eq_right (Nat.le_of_lt below)] at clean
            exact .inr ⟨below, stale.resolve_left (Nat.not_lt_of_lt below), clean⟩
          · rw [Nat.min_eq_left (Nat.le_of_lt above)] at clean
            exact .inl ⟨above, clean⟩
        · exact (List.mem_append.mp member).elim (tested index) (reads index)
        · rcases List.mem_append.mp member with unlinked | later
          · rw [unlinkWrites, links.1, links.2] at unlinked
            rcases List.mem_cons.mp unlinked with previous | next
            · exact ring_inside shape (previous ▸ neighbours.1)
            · exact ring_inside shape (List.mem_singleton.mp next ▸ neighbours.2)
          · exact writes index later
      · rw [mergeReads, mergeWrites, if_pos bound, if_pos bound]
        simp only [if_neg claims, List.append_nil]
        refine ⟨fun claimed => absurd (sameClaim ▸ claimed) claims, tested, fun index member => ?_⟩
        have ring := shape.rings order bound
        rcases List.mem_cons.mp member with same | others
        · have hand : (⟨base, order⟩ : Block) ∈ blocksOf free live {⟨base, order⟩} := .inr (.inr rfl)
          rw [ListNode.page.inj same]
          exact (shape.tiling.covers base).mpr ⟨_, hand, Block.covers_start _⟩
        · rcases List.mem_cons.mp others with head | first
          · cases head
          · exact ring_inside shape (List.mem_singleton.mp first ▸ (ring.neighbours_mem List.mem_cons_self).2)

/-- At a block that ends with the array and whose buddy would follow it, the
loop reads the first descriptor past the end. -/
theorem buddy_past_array {sys : BuddySystem} {base order : Nat} (aligned : 2 ^ order ∣ base) (some : nbase ≠ 0)
    (last : base + 2 ^ order = sys.npage - nbase) (odd : ¬ 2 ^ (order + 1) ∣ sys.npage - nbase) :
    getBuddy base order = sys.npage - nbase /\ getBuddy base order < sys.npage := by
  have flipped : getBuddy base order =
      if 2 ^ (order + 1) ∣ base then base + 2 ^ order else base - 2 ^ order := xor_two_pow_of_dvd aligned
  have positive := Nat.two_pow_pos order
  have lower : 2 ^ (order + 1) ∣ base := by
    rcases aligned with ⟨slot, equal⟩
    by_contra upper
    apply odd
    rw [← last, equal, pow_succ, ← Nat.mul_succ]
    rw [equal, pow_succ, Nat.mul_dvd_mul_iff_left positive] at upper
    exact Nat.mul_dvd_mul_left _ (by omega)
  rw [if_pos lower] at flipped
  omega

/-- So a clean release that reads inside the array is contained. -/
theorem mergeLoop_contained_of_reads {before sys : BuddySystem} {free : Nat -> List Nat} {fuel base order : Nat}
    (total : order + fuel = maxOrder)
    (shape : BuddyShape sys.page sys.links low high free live {⟨base, order⟩})
    (frame : MergeFrame before sys free order) (clean : before.CleanMerge low high fuel base order)
    (reads : forall index, index ∈ mergeReads fuel sys base order -> index < sys.npage - nbase) :
    before.ContainedMerge nbase fuel base order := by
  induction fuel generalizing sys free base order with
  | zero => exact clean.elim
  | succ fuel inductionHypothesis =>
      have bound : order < maxOrder := by omega
      have aligned : 2 ^ order ∣ base := shape.tiling.aligned ⟨base, order⟩ (.inr (.inr rfl))
      have first : getBuddy base order < sys.npage -> getBuddy base order < sys.npage - nbase := by
        intro small
        apply reads
        rw [mergeReads, if_pos bound]
        simp only [if_pos small]
        exact List.mem_append_left _ (List.mem_singleton_self _)
      rw [ContainedMerge, ← frame.npage]
      refine ⟨?_, fun claimed => ?_⟩
      · by_contra ends
        simp only [not_or, Classical.not_imp] at ends
        have past := buddy_past_array aligned ends.1 ends.2.1 ends.2.2
        have inArray := first past.2
        omega
      · have claims : sys.claimsFree (getBuddy base order) order = true := by
          rw [← claimed]
          simp only [claimsFree, frame.page, frame.npage]
        rcases clean.round claimed with ⟨inside, stale, rest⟩
        rcases merge_round shape frame claims inside stale with ⟨nextFree, merged, mergedFrame, _⟩
        rw [mergeReads_round bound claims] at reads
        exact ⟨stale, inductionHypothesis (by omega) merged mergedFrame rest fun index member =>
          reads index (List.mem_append_right _ member)⟩

/-- A contained release reads inside the array and writes inside the region. -/
theorem freePages_contained {sys : BuddySystem} {free : Nat -> List Nat} {entry : Nat × Nat}
    (shape : BuddyShape sys.page sys.links low high free live ∅) (member : entry ∈ live)
    (region : high <= sys.npage - nbase) (unmarked : sys.OutsideUnmarked low high nbase)
    (contained : sys.ContainedMerge nbase (maxOrder - roundUpOrder entry.2) entry.1 (roundUpOrder entry.2)) :
    sys.CleanMerge low high (maxOrder - roundUpOrder entry.2) entry.1 (roundUpOrder entry.2) /\
      (forall index, index ∈ sys.freeReads entry.1 entry.2 -> index < sys.npage - nbase) /\
      forall index, ListNode.page index ∈ sys.freeWrites entry.1 entry.2 -> low <= index /\ index < high := by
  have fits := shape.fits entry member
  have order : roundUpOrder entry.2 = Nat.clog 2 entry.2 := by
    rw [roundUpOrder_eq]
    omega
  unfold freeReads freeWrites
  rw [order] at contained ⊢
  exact mergeLoop_contained (by omega) (shape.takeBack member) (.refl sys free _) region unmarked contained

theorem freePages_contained_of_reads {sys : BuddySystem} {free : Nat -> List Nat} {entry : Nat × Nat}
    (shape : BuddyShape sys.page sys.links low high free live ∅) (member : entry ∈ live)
    (clean : sys.CleanMerge low high (maxOrder - roundUpOrder entry.2) entry.1 (roundUpOrder entry.2))
    (reads : forall index, index ∈ sys.freeReads entry.1 entry.2 -> index < sys.npage - nbase) :
    sys.ContainedMerge nbase (maxOrder - roundUpOrder entry.2) entry.1 (roundUpOrder entry.2) := by
  have fits := shape.fits entry member
  have order : roundUpOrder entry.2 = Nat.clog 2 entry.2 := by
    rw [roundUpOrder_eq]
    omega
  unfold freeReads at reads
  rw [order] at clean reads ⊢
  exact mergeLoop_contained_of_reads (by omega) (shape.takeBack member) (.refl sys free _) clean reads

end Bounds

end BuddySystem

/-! ## Whole histories -/

/-- The condition on one call: the release looks at no buddy behind the array.
The bound that the loop tests is `npage`, where the array ends at `npage -
nbase`. -/
def ContainedRelease (nbase : Nat) (history : BuddyHistory) : BuddyAction -> Prop
  | .alloc _ => True
  | .free base n =>
      history.sys.ContainedMerge nbase (maxOrder - BuddySystem.roundUpOrder n) base (BuddySystem.roundUpOrder n)

instance (nbase : Nat) (history : BuddyHistory) : forall action, Decidable (ContainedRelease nbase history action)
  | .alloc _ => inferInstanceAs (Decidable True)
  | .free _ _ => inferInstanceAs (Decidable (BuddySystem.ContainedMerge _ _ _ _ _))

/-- The invariant: the region lies in the array, and is partitioned; the rest
of the array is not marked. -/
def BuddyHistory.Enclosed (low high nbase : Nat) (history : BuddyHistory) : Prop :=
  Exists fun free => BuddyShape history.sys.page history.sys.links low high free history.live ∅ /\
    high <= history.sys.npage - nbase /\ history.sys.OutsideUnmarked low high nbase

/-- An allocation marks blocks of the region only. -/
theorem BuddySystem.Allocates.outsideUnmarked {sys next : BuddySystem} {low high nbase target found start : Nat}
    {free : Nat -> List Nat} {live : List (Nat × Nat)}
    (shape : BuddyShape sys.page sys.links low high free live ∅)
    (allocates : BuddySystem.Allocates sys free target found start next)
    (unmarked : sys.OutsideUnmarked low high nbase) : next.OutsideUnmarked low high nbase := by
  have listed : start ∈ free found := List.mem_of_mem_head? allocates.first
  have within : low <= start /\ start + 2 ^ found <= high :=
    @Tiling.within _ _ _ shape.tiling ⟨start, found⟩ (.inl listed)
  intro index inArray outside
  rw [allocates.npage] at inArray
  have different : index ≠ start := by
    have positive := Nat.two_pow_pos found
    omega
  rw [allocates.others index different fun order _ below => ?_]
  · exact unmarked index inArray outside
  · have smaller := Nat.pow_lt_pow_right Nat.one_lt_two below
    have positive := Nat.two_pow_pos order
    omega

theorem BuddyHistory.step_enclosed {low high nbase : Nat} {history next : BuddyHistory} {action : BuddyAction}
    (enclosed : history.Enclosed low high nbase) (contained : ContainedRelease nbase history action)
    (stepped : history.step action = some next) : next.Enclosed low high nbase := by
  rcases enclosed with ⟨free, shape, region, unmarked⟩
  cases action with
  | alloc n =>
      rcases BuddySystem.allocPages_shape shape n with exhausted | ⟨base, sys, nextFree, allocated, nextShape, _⟩
      · simp only [step, exhausted, Option.some.injEq] at stepped
        exact stepped ▸ ⟨free, shape, region, unmarked⟩
      · have npage := BuddySystem.allocPages_npage allocated
        have outside : sys.OutsideUnmarked low high nbase := by
          rcases BuddySystem.allocPages_cases shape.freeLists n with
            ⟨_, refused⟩ | ⟨found, start, other, _, taken, allocates⟩
          · rw [allocated] at refused
            cases refused
          · rw [allocated] at taken
            cases taken
            exact allocates.outsideUnmarked shape unmarked
        simp only [step, allocated, Option.some.injEq] at stepped
        exact stepped ▸ ⟨nextFree, nextShape, npage ▸ region, outside⟩
  | free base n =>
      by_cases member : (base, n) ∈ history.live
      · have npage : (history.sys.freePages base n).npage = history.sys.npage :=
          BuddySystem.mergeLoop_npage ..
        rcases BuddySystem.freePages_contained shape member region unmarked contained with ⟨clean, _, writes⟩
        rcases BuddySystem.freePages_shape shape member clean with ⟨nextFree, nextShape, _⟩
        have outside : (history.sys.freePages base n).OutsideUnmarked low high nbase := by
          intro index inArray apart
          rw [npage] at inArray
          rw [(BuddySystem.freePages_frame _ _ _ _ fun written => apart (writes index written)).1]
          exact unmarked index inArray apart
        simp only [step, if_pos member, Option.some.injEq] at stepped
        exact stepped ▸ ⟨nextFree, nextShape, npage ▸ region, outside⟩
      · simp only [step, if_neg member, reduceCtorEq] at stepped

/-- In every history of contained releases, each further contained release of
a live block looks only at descriptors of the array and writes only descriptors
of the region; and a clean release that is not contained looks past the end. -/
theorem run_stays_in_bounds {memory start : BuddySystem} {base n nbase : Nat} {actions : List BuddyAction}
    {last : BuddyHistory} (started : memory.init.initMemmap base n = some start)
    (inside : base + n <= memory.npage - nbase) (unmarked : memory.OutsideUnmarked base (base + n) nbase)
    (contained : buddyMachine.Along (ContainedRelease nbase) ⟨start, []⟩ actions)
    (ran : buddyMachine.run ⟨start, []⟩ actions = some last) :
    forall block count, (block, count) ∈ last.live ->
      (ContainedRelease nbase last (.free block count) ->
        (forall index, index ∈ last.sys.freeReads block count -> index < last.sys.npage - nbase) /\
          forall index, ListNode.page index ∈ last.sys.freeWrites block count -> base <= index /\ index < base + n) /\
      (CleanRelease base (base + n) last (.free block count) ->
        (forall index, index ∈ last.sys.freeReads block count -> index < last.sys.npage - nbase) ->
          ContainedRelease nbase last (.free block count)) := by
  have begun : BuddyHistory.Enclosed base (base + n) nbase ⟨start, []⟩ := by
    have npage := BuddySystem.initMemmap_npage started
    rcases BuddySystem.initMemmap_shape started with ⟨free, shape, _⟩
    refine ⟨free, shape, npage ▸ inside, fun index inArray outside => ?_⟩
    change index < start.npage - nbase at inArray
    rw [npage] at inArray
    exact (congrArg pageProperty (BuddySystem.initMemmap_outside started outside)).trans
      (unmarked index inArray outside)
  rcases Machine.run_invariant (fun _ _ _ => BuddyHistory.step_enclosed) begun contained ran with
    ⟨free, shape, region, outside⟩
  intro block count member
  exact ⟨fun release => (BuddySystem.freePages_contained shape member region outside release).2,
    BuddySystem.freePages_contained_of_reads shape member⟩

/-! ## The end of the array -/

/-- Four pages from index 1, in a memory of eight pages above `nbase`. -/
def roomyMemory : Option BuddySystem := (reservedMemory (0x80000 + 8)).init.initMemmap 1 4

theorem roomyMemory_isSome : roomyMemory.isSome = true := by decide

theorem borrowLast_stays_in_bounds :
    Exists fun last =>
      buddyMachine.run ⟨roomyMemory.get roomyMemory_isSome, []⟩ [.alloc 1] = some last /\ (4, 1) ∈ last.live /\
        (forall index, index ∈ last.sys.freeReads 4 1 -> index < last.sys.npage - 0x80000) /\
          forall index, ListNode.page index ∈ last.sys.freeWrites 4 1 -> 1 <= index /\ index < 1 + 4 := by
  have taken : (buddyMachine.run ⟨roomyMemory.get roomyMemory_isSome, []⟩ [.alloc 1]).map BuddyHistory.live =
      some [(4, 1)] := by decide
  rcases Option.map_eq_some_iff.mp taken with ⟨last, ran, live⟩
  have member : (4, 1) ∈ last.live := live ▸ List.mem_singleton_self _
  have contained : (buddyMachine.run ⟨roomyMemory.get roomyMemory_isSome, []⟩ [.alloc 1]).map
      (fun last => decide (ContainedRelease 0x80000 last (.free 4 1))) = some true := by decide
  rw [ran] at contained
  have release := of_decide_eq_true (Option.some.inj contained)
  have inside : 1 + 4 <= (reservedMemory (0x80000 + 8)).npage - 0x80000 := by decide
  have allowed : buddyMachine.Along (ContainedRelease 0x80000)
      ⟨roomyMemory.get roomyMemory_isSome, []⟩ [.alloc 1] := by decide
  have bounds := run_stays_in_bounds (Option.some_get roomyMemory_isSome).symm inside
    (fun _ _ _ => rfl) allowed ran 4 1 member
  exact ⟨last, ran, member, bounds.1 release⟩

/-- The same region at the end of a memory of five pages. -/
def tightMemory : Option BuddySystem := (reservedMemory (0x80000 + 5)).init.initMemmap 1 4

theorem tightMemory_isSome : tightMemory.isSome = true := by decide

/-- The release of the last page looks at the descriptor after the array. -/
theorem borrowLast_reads_past_array :
    Exists fun start => Exists fun last => tightMemory = some start /\
      buddyMachine.run ⟨start, []⟩ [.alloc 1] = some last /\ (4, 1) ∈ last.live /\
        Exists fun index => index ∈ last.sys.freeReads 4 1 /\ ¬ index < last.sys.npage - 0x80000 := by
  have reads : (buddyMachine.run ⟨tightMemory.get tightMemory_isSome, []⟩ [.alloc 1]).map
      (fun last => (last.live, last.sys.freeReads 4 1, last.sys.npage)) =
        some ([(4, 1)], [5], 0x80000 + 5) := by decide
  rcases Option.map_eq_some_iff.mp reads with ⟨last, ran, facts⟩
  have live : last.live = [(4, 1)] := congrArg Prod.fst facts
  have read : last.sys.freeReads 4 1 = [5] := congrArg (fun facts => facts.2.1) facts
  have npage : last.sys.npage = 0x80000 + 5 := congrArg (fun facts => facts.2.2) facts
  refine ⟨_, last, (Option.some_get tightMemory_isSome).symm, ran, live ▸ List.mem_singleton_self _, 5, ?_, ?_⟩
  · exact read ▸ List.mem_singleton_self _
  · rw [npage]
    decide

end Memory
end Ucore
