import Ucore.Memory.BuddyShape
import Ucore.Memory.BuddyCounters

namespace Ucore
namespace Memory

open Library

/-!
# The buddy allocator partitions its region

Allocation keeps the partition without any condition.  Release does not:
the merge loop swaps `base` and `buddy` when the buddy is the lower of the
two and then unlinks the upper one, the block being released, which is on no
list.  Its `page_link` is stale, and only when it happens to equal the link
of the listed buddy is the right node removed.  A merge at the top order
leaves the loop without linking the block, and the bound `pages + npage`
lets the loop read descriptors outside the region.  `CleanMerge` follows the
buddies of a release and excludes these three accidents.
-/

namespace BuddySystem

/-! ## Rounding -/

theorem roundUpLoop_eq (requested : Nat) (fuel order : Nat) (total : order + fuel = maxOrder)
    (below : order <= Nat.clog 2 requested) :
    roundUpLoop requested fuel (2 ^ order) order = min (Nat.clog 2 requested) maxOrder := by
  induction fuel generalizing order with
  | zero =>
      rw [roundUpLoop]
      omega
  | succ fuel inductionHypothesis =>
      rw [roundUpLoop]
      have small : order < maxOrder := by omega
      by_cases larger : 2 ^ order < requested
      · rw [if_pos ⟨larger, small⟩, ← pow_succ]
        exact inductionHypothesis (order + 1) (by omega)
          ((Nat.lt_clog_iff_pow_lt Nat.one_lt_two).mpr larger)
      · rw [if_neg (fun both => larger both.1)]
        have reached := (Nat.clog_le_iff_le_pow Nat.one_lt_two).mpr (Nat.le_of_not_lt larger)
        omega

/-- Both loops compute the ceiling of the logarithm, cut off at `MAX_ORDER`. -/
theorem roundUpOrder_eq (requested : Nat) :
    roundUpOrder requested = min (Nat.clog 2 requested) maxOrder :=
  roundUpLoop_eq requested maxOrder 0 (Nat.zero_add _) (Nat.zero_le _)

theorem findOrder_spec (sys : BuddySystem) (fuel found : Nat) (total : found + fuel = maxOrder) :
    found <= sys.findOrder fuel found /\
      (maxOrder <= sys.findOrder fuel found \/
        listEmpty sys.links (.head (sys.findOrder fuel found)) = false) := by
  induction fuel generalizing found with
  | zero => exact ⟨Nat.le_refl _, .inl (by rw [findOrder]; omega)⟩
  | succ fuel inductionHypothesis =>
      rw [findOrder]
      by_cases empty : listEmpty sys.links (.head found) = true
      · rw [if_pos ⟨by omega, empty⟩]
        have later := inductionHypothesis (found + 1) (by omega)
        exact ⟨by omega, later.2⟩
      · rw [if_neg (fun both => empty both.2)]
        exact ⟨Nat.le_refl _, .inr (Bool.eq_false_iff.mpr empty)⟩

/-! ## Allocation -/

section Shape

variable {low high : Nat} {live : List (Nat × Nat)}

theorem linkBlock_shape {sys : BuddySystem} {free : Nat -> List Nat} {hand : Set Block}
    {start order : Nat} (bound : order < maxOrder)
    (shape : BuddyShape sys.page sys.links low high free live (insert ⟨start, order⟩ hand))
    (apart : forall block, block ∈ hand -> block.start ≠ start) :
    BuddyShape (sys.linkBlock start order).page (sys.linkBlock start order).links low high
      (Function.update free order (start :: free order)) live hand :=
  shape.link bound apart rfl rfl

theorem splitDown_shape {target start found : Nat} {sys : BuddySystem} {free : Nat -> List Nat}
    (reach : target <= found) (bound : found < maxOrder)
    (shape : BuddyShape sys.page sys.links low high free live {⟨start, found⟩}) :
    Exists fun nextFree => BuddyShape (splitDown target start found sys).page
      (splitDown target start found sys).links low high nextFree live {⟨start, target⟩} /\
        Moves sys free (2 ^ found) (splitDown target start found sys) nextFree (2 ^ target) /\
          (NoPairs free -> NoPairs nextFree) := by
  induction found generalizing sys free with
  | zero =>
      have same : target = 0 := Nat.le_zero.mp reach
      subst same
      exact ⟨free, shape, .refl .., id⟩
  | succ found inductionHypothesis =>
      rw [splitDown]
      by_cases further : target < found + 1
      · rw [if_pos further]
        have halves := shape.splitHand
        have linked := @linkBlock_moves sys free (start + 2 ^ found) found (Nat.lt_of_succ_lt bound) (2 ^ found)
        rw [← Nat.two_mul, ← pow_succ'] at linked
        have lower := inductionHypothesis (Nat.lt_succ_iff.mp further) (by omega)
          (linkBlock_shape (by omega) halves ?_)
        · rcases lower with ⟨nextFree, cut, moves, unpaired⟩
          -- The buddy of the upper half is the lower half, which is in hand.
          have aligned := halves.tiling.aligned ⟨start, found⟩ (.inr (.inr (Set.mem_insert_of_mem _ rfl)))
          have divides : 2 ^ (found + 1) ∣ start := shape.tiling.aligned ⟨start, found + 1⟩ (.inr (.inr rfl))
          have flipped := xor_two_pow_of_dvd aligned
          rw [if_pos divides] at flipped
          have back : getBuddy (start + 2 ^ found) found = start := by
            rw [getBuddy, ← flipped, Nat.xor_xor_cancel_right]
          have alone : getBuddy (start + 2 ^ found) found ∉ free found := by
            rw [back]
            exact halves.handUnlisted ⟨start, found⟩ found (Set.mem_insert_of_mem _ rfl)
          exact ⟨nextFree, cut, linked.trans moves, fun noPairs => unpaired (noPairs.link alone)⟩
        · intro block isLower
          rw [Set.mem_singleton_iff.mp isLower]
          have positive := Nat.two_pow_pos found
          change start ≠ start + 2 ^ found
          omega
      · rw [if_neg further]
        have same : target = found + 1 := by omega
        subst same
        exact ⟨free, shape, .refl .., id⟩

/-- Allocation returns, and hands out a block of the rounded size or leaves
everything as it was. -/
theorem allocPages_shape {sys : BuddySystem} {free : Nat -> List Nat}
    (shape : BuddyShape sys.page sys.links low high free live ∅) (n : Nat) :
    sys.allocPages n = some (none, sys) \/
      Exists fun base => Exists fun next : BuddySystem => Exists fun nextFree =>
        sys.allocPages n = some (some base, next) /\
          BuddyShape next.page next.links low high nextFree ((base, n) :: live) ∅ /\
            Takes sys free (2 ^ roundUpOrder n) next nextFree /\ (NoPairs free -> NoPairs nextFree) := by
  have target := roundUpOrder_eq n
  have searched := sys.findOrder_spec (maxOrder - roundUpOrder n) (roundUpOrder n) (by omega)
  rw [allocPages]
  by_cases exhausted : sys.findOrder (maxOrder - roundUpOrder n) (roundUpOrder n) >= maxOrder
  · exact .inl (if_pos exhausted)
  · right
    simp only [if_neg exhausted]
    generalize sys.findOrder (maxOrder - roundUpOrder n) (roundUpOrder n) = found at searched exhausted ⊢
    have bound : found < maxOrder := Nat.lt_of_not_le exhausted
    have ring := shape.rings found bound
    cases members : free found with
    | nil =>
        rw [members] at ring
        have empty := (listEmpty_iff ring).mpr rfl
        rcases searched.2 with large | occupied
        · exact absurd large exhausted
        · rw [empty] at occupied
          cases occupied
    | cons allocated rest =>
        have first : listNext sys.links (.head found) = .page allocated := by
          have next := ring.path.next_left
          rw [members] at next
          exact next
        rw [first]
        have split : free found = [] ++ allocated :: rest := members
        have taken : BuddyShape (sys.unlinkBlock allocated found).page
            (sys.unlinkBlock allocated found).links low high (Function.update free found ([] ++ rest)) live
            (insert ⟨allocated, found⟩ ∅) := shape.unlink split
        rw [insert_empty_eq] at taken
        have order : roundUpOrder n = Nat.clog 2 n := by omega
        have fits : Nat.clog 2 n < maxOrder := by omega
        rw [order] at searched ⊢
        rcases splitDown_shape searched.1 bound taken with ⟨cutFree, cut, moves, unpaired⟩
        have moved := (@unlinkBlock_moves sys free _ _ _ _ bound split 0).trans
          (by rw [Nat.zero_add]; exact moves)
        refine ⟨allocated, _, cutFree, rfl, cut.handOut fits rfl,
          ⟨moved.pages.trans (Nat.add_zero _), ?_, fun areas => moved.areas areas⟩, fun noPairs => unpaired ?_⟩
        · exact congrArg (· - UInt32.ofNat (2 ^ Nat.clog 2 n)) moved.total
        · exact noPairs.mono fun order start listed =>
            ((shape.freeLists.mem_update_append split order start).mp listed).1

/-! ## Release -/

/-- Two nodes whose two pointers agree. -/
def SameLinks (links : Links (ListNode Nat)) (first second : Nat) : Prop :=
  links.prev (.page first) = links.prev (.page second) /\
    links.next (.page first) = links.next (.page second)

/-- Every merge of a release is with a block of the region, unlinks the node
of the listed buddy, and stays below the top order. -/
def CleanMerge (sys : BuddySystem) (low high : Nat) : Nat -> Nat -> Nat -> Prop
  | 0, _, _ => False
  | fuel + 1, base, order =>
      let buddy := getBuddy base order
      sys.claimsFree buddy order = true ->
        (low <= buddy /\ buddy < high) /\
          ((base < buddy /\ sys.CleanMerge low high fuel base (order + 1)) \/
            (buddy < base /\ SameLinks sys.links base buddy /\
              sys.CleanMerge low high fuel buddy (order + 1)))

instance (links : Links (ListNode Nat)) (first second : Nat) : Decidable (SameLinks links first second) :=
  inferInstanceAs (Decidable (_ /\ _))

def decideCleanMerge (sys : BuddySystem) (low high : Nat) :
    forall fuel base order, Decidable (sys.CleanMerge low high fuel base order)
  | 0, _, _ => inferInstanceAs (Decidable False)
  | fuel + 1, _, _ =>
      have := decideCleanMerge sys low high fuel
      inferInstanceAs (Decidable (_ -> _ /\ (_ /\ _ \/ _ /\ _ /\ _)))

instance (sys : BuddySystem) (low high fuel base order : Nat) :
    Decidable (sys.CleanMerge low high fuel base order) :=
  sys.decideCleanMerge low high fuel base order

/-- What the merge loop leaves as it was before the release: the descriptors,
and the pointers of every node that is not on a list of a smaller order. -/
structure MergeFrame (before sys : BuddySystem) (free : Nat -> List Nat) (order : Nat) : Prop where
  page : sys.page = before.page
  npage : sys.npage = before.npage
  links : forall node, (forall lower, lower < order ->
      node ∉ ListNode.head lower :: (free lower).map ListNode.page) ->
    sys.links.next node = before.links.next node /\ sys.links.prev node = before.links.prev node

theorem MergeFrame.refl (sys : BuddySystem) (free : Nat -> List Nat) (order : Nat) :
    MergeFrame sys sys free order := ⟨rfl, rfl, fun _ _ => ⟨rfl, rfl⟩⟩

/-- A descriptor of the region that claims to be the buddy is on the list. -/
theorem claimed_listed {sys : BuddySystem} {free : Nat -> List Nat} {base order : Nat}
    (shape : BuddyShape sys.page sys.links low high free live {⟨base, order⟩})
    (claims : sys.claimsFree (getBuddy base order) order = true)
    (inside : low <= getBuddy base order /\ getBuddy base order < high) :
    getBuddy base order ∈ free order := by
  have block : (⟨base, order⟩ : Block) ∈ blocksOf free live {⟨base, order⟩} := .inr (.inr rfl)
  have aligned := shape.tiling.aligned _ block
  simp only [claimsFree, Bool.and_eq_true, decide_eq_true_eq] at claims
  rcases shape.tiling.buddy_is_start block inside with ⟨found, member, _⟩
  rcases member with listed | inLive | inHand
  · have sizes := (shape.marked found _ listed).2.symm.trans claims.2
    have same : found = order := Nat.pow_right_injective (Nat.le_refl 2) sizes
    exact same ▸ listed
  · rcases List.mem_map.mp inLive with ⟨entry, entryMember, equal⟩
    have unmarked := shape.unmarked entry entryMember
    have start : entry.1 = getBuddy base order := congrArg Block.start equal
    rw [start, claims.1.2] at unmarked
    cases unmarked
  · exact absurd (congrArg Block.start inHand) (Block.buddy_ne aligned)

/-- A listed block passes the test, if the region lies below the bound. -/
theorem listed_claims {sys : BuddySystem} {free : Nat -> List Nat} {hand : Set Block} {start order : Nat}
    (shape : BuddyShape sys.page sys.links low high free live hand) (memory : high <= sys.npage)
    (listed : start ∈ free order) : sys.claimsFree start order = true := by
  have marked := shape.marked order start listed
  have inside := (shape.tiling.covers start).mpr ⟨⟨start, order⟩, .inl listed, Block.covers_start _⟩
  simp only [claimsFree, marked.1, marked.2, decide_true, Bool.and_true, decide_eq_true_eq]
  omega

/-- Unlinking a listed buddy keeps the frame for the next order. -/
theorem MergeFrame.unlink {before sys : BuddySystem} {free : Nat -> List Nat} {order buddy : Nat}
    {hand : Set Block} {first last : List Nat} (frame : MergeFrame before sys free order)
    (shape : BuddyShape sys.page sys.links low high free live hand)
    (split : free order = first ++ buddy :: last) :
    MergeFrame before (sys.unlinkBlock buddy order) (Function.update free order (first ++ last))
      (order + 1) where
  page := frame.page
  npage := frame.npage
  links := by
    intro node outside
    have member : buddy ∈ free order := split ▸ List.mem_append_right first List.mem_cons_self
    have ring := shape.rings order (shape.freeLists.order_lt member)
    rw [split, List.map_append, List.map_cons] at ring
    have shorter := ring_listDel ring
    have neighbours := ring.neighbours
    have lastMember : (ListNode.head order :: first.map ListNode.page).getLast (by simp) ∈
        ListNode.head order :: (first ++ last).map ListNode.page := by
      rw [List.map_append]
      exact List.mem_append_left (last.map ListNode.page) (List.getLast_mem _)
    have headMember : (last.map ListNode.page).headD (ListNode.head order) ∈
        ListNode.head order :: (first ++ last).map ListNode.page := by
      cases last <;> simp
    have offList := outside order (Nat.lt_succ_self order)
    rw [Function.update_self] at offList
    have notPrev : node ≠ sys.links.prev (.page buddy) := by
      rw [neighbours.1]
      exact fun same => offList (same ▸ lastMember)
    have notNext : node ≠ sys.links.next (.page buddy) := by
      rw [neighbours.2]
      exact fun same => offList (same ▸ headMember)
    have kept := frame.links node (fun lower less => by
      have offLower := outside lower (Nat.lt_succ_of_lt less)
      rw [Function.update_of_ne (Nat.ne_of_lt less)] at offLower
      exact offLower)
    change (sys.links.join _ _).next node = _ /\ (sys.links.join _ _).prev node = _
    rw [Links.join_next, if_neg notPrev, Links.join_prev, if_neg notNext]
    exact kept

/-- One merge: the listed buddy and the block in hand become their parent. -/
theorem merge_shape {sys : BuddySystem} {free : Nat -> List Nat} {base order : Nat}
    {first last : List Nat} (shape : BuddyShape sys.page sys.links low high free live {⟨base, order⟩})
    (split : free order = first ++ getBuddy base order :: last) :
    BuddyShape (sys.unlinkBlock (getBuddy base order) order).page
      (sys.unlinkBlock (getBuddy base order) order).links low high
      (Function.update free order (first ++ last)) live
      {⟨min base (getBuddy base order), order + 1⟩} := by
  have both : BuddyShape _ _ low high (Function.update free order (first ++ last)) live
      (insert (Block.buddy ⟨base, order⟩) {⟨base, order⟩}) := shape.unlink split
  exact both.joinHand

theorem unlinkBlock_congr (sys : BuddySystem) {first second : Nat} (order : Nat)
    (same : SameLinks sys.links first second) :
    sys.unlinkBlock first order = sys.unlinkBlock second order := by
  simp only [unlinkBlock, listDel, same.1, same.2]

/-- The pointers of the block in hand are those it had before the release. -/
theorem MergeFrame.hand {before sys : BuddySystem} {free : Nat -> List Nat} {base order : Nat}
    (frame : MergeFrame before sys free order)
    (shape : BuddyShape sys.page sys.links low high free live {⟨base, order⟩}) :
    sys.links.next (.page base) = before.links.next (.page base) /\
      sys.links.prev (.page base) = before.links.prev (.page base) :=
  frame.links _ fun lower _ member =>
    shape.handUnlisted ⟨base, order⟩ lower rfl (page_mem_ring.mp member)

/-- The pointers of a block on the list of the current order are too. -/
theorem MergeFrame.listed {before sys : BuddySystem} {free : Nat -> List Nat} {index order : Nat}
    {hand : Set Block} (frame : MergeFrame before sys free order)
    (shape : BuddyShape sys.page sys.links low high free live hand) (member : index ∈ free order) :
    sys.links.next (.page index) = before.links.next (.page index) /\
      sys.links.prev (.page index) = before.links.prev (.page index) :=
  frame.links _ fun _ less found =>
    Nat.ne_of_lt less (shape.order_eq (page_mem_ring.mp found) member)

/-- A release that merges with nothing. -/
theorem mergeLoop_alone {sys : BuddySystem} {fuel base order : Nat} (some : 0 < fuel) (bound : order < maxOrder)
    (alone : sys.claimsFree (getBuddy base order) order = false) :
    mergeLoop fuel sys base order = (sys.linkBlock base order, order) := by
  cases fuel with
  | zero => exact absurd some (Nat.lt_irrefl 0)
  | succ fuel =>
      rw [mergeLoop, if_pos bound]
      simp only [alone, Bool.false_eq_true, if_false]

/-- What the loop unlinks has the pointers of the listed buddy. -/
theorem stale_links {before sys : BuddySystem} {free : Nat -> List Nat} {base order : Nat}
    (shape : BuddyShape sys.page sys.links low high free live {⟨base, order⟩})
    (frame : MergeFrame before sys free order) (member : getBuddy base order ∈ free order)
    (stale : base < getBuddy base order \/ SameLinks before.links base (getBuddy base order)) :
    SameLinks sys.links (max base (getBuddy base order)) (getBuddy base order) := by
  by_cases above : base < getBuddy base order
  · rw [Nat.max_eq_right (Nat.le_of_lt above)]
    exact ⟨rfl, rfl⟩
  · have baseKept := frame.hand shape
    have buddyKept := frame.listed shape member
    have links := stale.resolve_left above
    rw [Nat.max_eq_left (Nat.le_of_not_lt above)]
    exact ⟨by rw [baseKept.2, buddyKept.2, links.1], by rw [baseKept.1, buddyKept.1, links.2]⟩

/-- One round of the merge loop, in either direction: the block in hand and its
buddy become their parent, and no list gains a block. -/
theorem merge_round {before sys : BuddySystem} {free : Nat -> List Nat} {base order : Nat}
    (shape : BuddyShape sys.page sys.links low high free live {⟨base, order⟩})
    (frame : MergeFrame before sys free order)
    (claims : sys.claimsFree (getBuddy base order) order = true)
    (inside : low <= getBuddy base order /\ getBuddy base order < high)
    (stale : base < getBuddy base order \/ SameLinks before.links base (getBuddy base order)) :
    Exists fun nextFree =>
      BuddyShape (sys.unlinkBlock (max base (getBuddy base order)) order).page
        (sys.unlinkBlock (max base (getBuddy base order)) order).links low high nextFree live
        {⟨min base (getBuddy base order), order + 1⟩} /\
      MergeFrame before (sys.unlinkBlock (max base (getBuddy base order)) order) nextFree (order + 1) /\
      forall other start, start ∈ nextFree other -> start ∈ free other := by
  have member := claimed_listed shape claims inside
  rcases List.append_of_mem member with ⟨first, last, split⟩
  rw [sys.unlinkBlock_congr order (stale_links shape frame member stale)]
  exact ⟨_, merge_shape shape split, frame.unlink shape split, fun other start listed =>
    ((shape.freeLists.mem_update_append split other start).mp listed).1⟩

/-- The loop goes on with the lower of the two blocks after unlinking the
other. -/
theorem mergeLoop_round {sys : BuddySystem} {fuel base order : Nat} (bound : order < maxOrder)
    (claims : sys.claimsFree (getBuddy base order) order = true) :
    mergeLoop (fuel + 1) sys base order =
      mergeLoop fuel (sys.unlinkBlock (max base (getBuddy base order)) order)
        (min base (getBuddy base order)) (order + 1) := by
  rw [mergeLoop, if_pos bound]
  simp only [if_pos claims]
  by_cases below : base > getBuddy base order
  · rw [if_pos below, Nat.max_eq_left (Nat.le_of_lt below), Nat.min_eq_right (Nat.le_of_lt below)]
  · rw [if_neg below, Nat.max_eq_right (Nat.le_of_not_lt below), Nat.min_eq_left (Nat.le_of_not_lt below)]

/-- A clean walk takes one round after the other. -/
theorem CleanMerge.round {sys : BuddySystem} {fuel base order : Nat}
    (clean : sys.CleanMerge low high (fuel + 1) base order)
    (claims : sys.claimsFree (getBuddy base order) order = true) :
    (low <= getBuddy base order /\ getBuddy base order < high) /\
      (base < getBuddy base order \/ SameLinks sys.links base (getBuddy base order)) /\
        sys.CleanMerge low high fuel (min base (getBuddy base order)) (order + 1) := by
  rcases clean claims with ⟨inside, ⟨above, rest⟩ | ⟨below, stale, rest⟩⟩
  · rw [Nat.min_eq_left (Nat.le_of_lt above)]
    exact ⟨inside, .inl above, rest⟩
  · rw [Nat.min_eq_right (Nat.le_of_lt below)]
    exact ⟨inside, .inr stale, rest⟩

theorem mergeLoop_shape {before sys : BuddySystem} {free : Nat -> List Nat} {fuel base order : Nat}
    (total : order + fuel = maxOrder)
    (shape : BuddyShape sys.page sys.links low high free live {⟨base, order⟩})
    (frame : MergeFrame before sys free order) (clean : before.CleanMerge low high fuel base order) :
    Exists fun nextFree => BuddyShape (mergeLoop fuel sys base order).1.page
      (mergeLoop fuel sys base order).1.links low high nextFree live ∅ /\
        (sys.claimsFree (getBuddy base order) order = false ->
          nextFree = Function.update free order (base :: free order)) /\
          (high <= sys.npage -> NoPairs free -> NoPairs nextFree) := by
  induction fuel generalizing sys free base order with
  | zero => exact clean.elim
  | succ fuel inductionHypothesis =>
      have bound : order < maxOrder := by omega
      by_cases claims : sys.claimsFree (getBuddy base order) order = true
      · have sameClaim : before.claimsFree (getBuddy base order) order = true := by
          rw [← claims]
          simp only [claimsFree, frame.page, frame.npage]
        rcases clean.round sameClaim with ⟨inside, stale, rest⟩
        rcases merge_round shape frame claims inside stale with ⟨mergedFree, merged, mergedFrame, fewer⟩
        rcases inductionHypothesis (by omega) merged mergedFrame rest with ⟨nextFree, final, _, unpaired⟩
        rw [mergeLoop_round bound claims]
        exact ⟨nextFree, final, fun alone => absurd claims (Bool.eq_false_iff.mp alone),
          fun memory noPairs => unpaired memory (noPairs.mono fewer)⟩
      · have alone : BuddyShape sys.page sys.links low high free live (insert ⟨base, order⟩ ∅) := by
          rw [insert_empty_eq]
          exact shape
        rw [mergeLoop_alone (Nat.succ_pos fuel) bound (Bool.eq_false_iff.mpr claims)]
        refine ⟨_, linkBlock_shape bound alone (fun _ found => found.elim), fun _ => rfl,
          fun memory noPairs => noPairs.link fun listed => claims ?_⟩
        exact listed_claims shape memory listed

theorem freePages_shape {sys : BuddySystem} {free : Nat -> List Nat} {entry : Nat × Nat}
    (shape : BuddyShape sys.page sys.links low high free live ∅) (member : entry ∈ live)
    (clean : sys.CleanMerge low high (maxOrder - roundUpOrder entry.2) entry.1 (roundUpOrder entry.2)) :
    Exists fun nextFree => BuddyShape (sys.freePages entry.1 entry.2).page
      (sys.freePages entry.1 entry.2).links low high nextFree (live.erase entry) ∅ /\
        (sys.claimsFree (getBuddy entry.1 (roundUpOrder entry.2)) (roundUpOrder entry.2) = false ->
          Gains sys free (2 ^ roundUpOrder entry.2) (sys.freePages entry.1 entry.2) nextFree) /\
          (high <= sys.npage -> NoPairs free -> NoPairs nextFree) := by
  have fits := shape.fits entry member
  have order : roundUpOrder entry.2 = Nat.clog 2 entry.2 := by
    rw [roundUpOrder_eq]
    omega
  rw [order] at clean
  rw [freePages, order]
  rcases mergeLoop_shape (by omega) (shape.takeBack member) (.refl sys free _) clean with
    ⟨nextFree, final, linked, unpaired⟩
  refine ⟨nextFree, final, fun alone => ?_, unpaired⟩
  rw [linked alone, mergeLoop_alone (by omega) fits alone]
  exact linkBlock_gains fits

/-! ## Initialisation -/

theorem init_rings (sys : BuddySystem) (order : Nat) (bound : order < maxOrder) :
    sys.init.links.Ring (.head order) [] := by
  have folded : forall (orders : List Nat) (sys : BuddySystem),
      order ∈ orders \/ sys.links.Ring (.head order) [] ->
        (orders.foldl (fun (sys : BuddySystem) order =>
          { sys with
            links := listInit sys.links (.head order)
            areaNrFree := Function.update sys.areaNrFree order 0 }) sys).links.Ring (.head order) [] := by
    intro orders
    induction orders with
    | nil =>
        rintro sys (absent | ring)
        · cases absent
        · exact ring
    | cons other rest inductionHypothesis =>
        intro sys held
        rw [List.foldl_cons]
        apply inductionHypothesis
        by_cases same : order = other
        · subst same
          exact .inr (Links.ring_reset _ _)
        · rcases held with member | ring
          · rcases List.mem_cons.mp member with equal | later
            · exact absurd equal same
            · exact .inl later
          · refine .inr (ring.reset_other ?_)
            simp only [List.mem_singleton, ListNode.head.injEq]
            exact Ne.symm same
  exact folded (List.range maxOrder) sys (.inl (List.mem_range.mpr bound))

theorem clearRegion_links {p remain : Nat} {sys next : BuddySystem}
    (cleared : clearRegion p remain sys = some next) : next.links = sys.links := by
  induction remain generalizing p sys with
  | zero =>
      cases cleared
      rfl
  | succ remain inductionHypothesis =>
      rw [clearRegion] at cleared
      by_cases reserved : pageReserved (sys.page p) = true
      · rw [if_pos reserved] at cleared
        have kept := inductionHypothesis cleared
        exact kept
      · rw [if_neg reserved] at cleared
        cases cleared

theorem alignLoop_spec (idx fuel order : Nat) (aligned : 2 ^ order ∣ idx) (bound : order < maxOrder) :
    2 ^ alignLoop idx fuel order ∣ idx /\ alignLoop idx fuel order < maxOrder := by
  induction fuel generalizing order with
  | zero => exact ⟨aligned, bound⟩
  | succ fuel inductionHypothesis =>
      rw [alignLoop]
      by_cases further : idx.testBit order = false /\ order < maxOrder - 1
      · rw [if_pos further]
        apply inductionHypothesis
        · rcases aligned with ⟨slot, equal⟩
          have clear := further.1
          rw [Nat.testBit_eq_decide_div_mod_eq, equal, Nat.mul_div_cancel_left _ (Nat.two_pow_pos order),
            decide_eq_false_iff_not] at clear
          rw [equal, pow_succ]
          exact Nat.mul_dvd_mul_left _ (Nat.dvd_of_mod_eq_zero (by omega))
        · omega
      · rw [if_neg further]
        exact ⟨aligned, bound⟩

theorem maxAlignOrder_spec (idx : Nat) :
    2 ^ maxAlignOrder idx ∣ idx /\ maxAlignOrder idx < maxOrder := by
  have loop := alignLoop_spec idx maxOrder 0 (one_dvd idx) (by decide)
  rw [maxAlignOrder]
  split
  · exact ⟨Nat.dvd_trans (Nat.pow_dvd_pow 2 (Nat.sub_le _ 1)) loop.1, by omega⟩
  · exact loop

theorem sizeLoop_spec (remain fuel order : Nat) (fits : 2 ^ order <= remain) :
    2 ^ sizeLoop remain fuel order <= remain := by
  induction fuel generalizing order with
  | zero => exact fits
  | succ fuel inductionHypothesis =>
      rw [sizeLoop]
      by_cases further : 2 ^ order * 2 <= remain /\ order < maxOrder - 1
      · rw [if_pos further]
        exact inductionHypothesis (order + 1) (pow_succ 2 order ▸ further.1)
      · rw [if_neg further]
        exact fits

/-- The blocks that the second loop of `default_init_memmap` links. -/
def carveBlocks : Nat -> Nat -> Nat -> List Block
  | 0, _, _ => []
  | fuel + 1, pos, remain =>
      if remain > 0 then
        let order := min (maxAlignOrder pos) (sizeLimitOrder remain)
        ⟨pos, order⟩ :: carveBlocks fuel (pos + 2 ^ order) (remain - 2 ^ order)
      else []

theorem carve_shape {fuel pos remain : Nat} {sys : BuddySystem} {free : Nat -> List Nat}
    (enough : remain <= fuel) (bounds : low <= pos)
    (shape : BuddyShape sys.page sys.links low pos free live ∅) :
    Exists fun nextFree => BuddyShape (carve fuel pos remain sys).page (carve fuel pos remain sys).links
      low (pos + remain) nextFree live ∅ /\ Gains sys free remain (carve fuel pos remain sys) nextFree /\
        forall order start, start ∈ nextFree order <->
          start ∈ free order \/ (⟨start, order⟩ : Block) ∈ carveBlocks fuel pos remain := by
  induction fuel generalizing pos remain sys free with
  | zero =>
      have done : remain = 0 := Nat.le_zero.mp enough
      subst done
      exact ⟨free, shape, .none sys free, fun order start => by simp [carveBlocks]⟩
  | succ fuel inductionHypothesis =>
      rw [carve, carveBlocks]
      by_cases more : remain > 0
      · simp only [if_pos more]
        have align := maxAlignOrder_spec pos
        have size := sizeLoop_spec remain maxOrder 0 more
        generalize orderEq : min (maxAlignOrder pos) (sizeLimitOrder remain) = order
        have alignLe : order <= maxAlignOrder pos := orderEq ▸ Nat.min_le_left _ _
        have sizeLe : order <= sizeLimitOrder remain := orderEq ▸ Nat.min_le_right _ _
        have fits : 2 ^ order <= remain :=
          Nat.le_trans (Nat.pow_le_pow_right Nat.two_pos sizeLe) size
        have positive := Nat.two_pow_pos order
        have bound : order < maxOrder := Nat.lt_of_le_of_lt alignLe align.2
        have extended := shape.extend bounds (Nat.dvd_trans (Nat.pow_dvd_pow 2 alignLe) align.1)
        rw [← insert_empty_eq] at extended
        have linked : BuddyShape ({ sys.linkBlock pos order with
            nrFree := (sys.linkBlock pos order).nrFree + UInt32.ofNat (2 ^ order) } : BuddySystem).page
            ({ sys.linkBlock pos order with
              nrFree := (sys.linkBlock pos order).nrFree + UInt32.ofNat (2 ^ order) } : BuddySystem).links low (pos +
                2 ^ order)
            (Function.update free order (pos :: free order)) live ∅ :=
          linkBlock_shape bound extended (fun _ found => found.elim)
        have total : pos + remain = pos + 2 ^ order + (remain - 2 ^ order) := by omega
        rw [total]
        have gained := @linkBlock_gains sys free pos order bound
        generalize { sys.linkBlock pos order with
          nrFree := (sys.linkBlock pos order).nrFree + UInt32.ofNat (2 ^ order) } = counted at gained linked ⊢
        rcases inductionHypothesis (show remain - 2 ^ order <= fuel by omega) (by omega) linked with
          ⟨nextFree, final, gains, members⟩
        refine ⟨nextFree, final, ?_, fun other start => ?_⟩
        · have all := gained.trans gains
          rwa [Nat.add_sub_cancel' fits] at all
        · rw [members, mem_update_cons, List.mem_cons, Block.mk.injEq]
          tauto
      · rw [if_neg more, if_neg more]
        have done : remain = 0 := by omega
        subst done
        exact ⟨free, shape, .none sys free, fun order start => by simp⟩

theorem initMemmap_shape {sys start : BuddySystem} {base n : Nat}
    (started : initMemmap sys.init base n = some start) :
    Exists fun free => BuddyShape start.page start.links base (base + n) free [] ∅ /\
      listedPages free = n /\ start.nrFree = UInt32.ofNat n /\ AreasCount start free /\
        forall order page, page ∈ free order <-> (⟨page, order⟩ : Block) ∈ carveBlocks n base n := by
  rw [initMemmap] at started
  by_cases positive : n > 0
  · rw [if_pos positive] at started
    rcases Option.map_eq_some_iff.mp started with ⟨cleared, clearing, carved⟩
    have links := clearRegion_links clearing
    have blank : BuddyShape cleared.page cleared.links base base (fun _ => []) [] ∅ := by
      refine ⟨fun order bound => ?_, fun _ _ => rfl, fun _ _ found => absurd found List.not_mem_nil,
        fun _ found => absurd found List.not_mem_nil, List.nodup_nil,
        fun _ found => absurd found List.not_mem_nil, fun _ _ found => found.elim,
        fun _ found => found.elim, ?_⟩
      · rw [links]
        exact init_rings sys order bound
      · have vacant : blocksOf (fun _ => []) [] ∅ = ∅ := by
          ext block
          change (block.start ∈ [] \/ block ∈ [] \/ False) <-> False
          simp
        rw [vacant]
        exact Tiling.empty base
    rw [← carved]
    rcases carve_shape (Nat.le_refl n) (Nat.le_refl base) blank with
      ⟨free, shape, gains, members⟩
    have counters := clearRegion_counters clearing
    have zero := init_counts sys
    have none : listedPages (fun _ => []) = 0 := Finset.sum_eq_zero fun _ _ => Nat.mul_zero _
    refine ⟨free, shape, ?_, ?_, gains.areas fun order bound => ?_, fun order page => ?_⟩
    · rw [gains.pages, none, Nat.zero_add]
    · rw [gains.total, counters.2, zero.2, UInt32.zero_add]
    · rw [counters.1]
      exact zero.1 order bound
    · rw [members]
      exact or_iff_right List.not_mem_nil
  · rw [if_neg positive] at started
    cases started

end Shape

end BuddySystem

/-! ## The partition over whole histories -/

/-- The free blocks, list by list, and the live blocks. -/
def partitionBlocks (free : Nat -> List Nat) (live : List (Nat × Nat)) : List Block :=
  (List.range maxOrder).flatMap (fun order => (free order).map (fun start => ⟨start, order⟩)) ++
    live.map liveBlock

/-- Every list is well formed, no descriptor is on two lists, and the free and
the live blocks are aligned, disjoint, and cover exactly the region. -/
def Partition (history : BuddyHistory) (low high : Nat) : Prop :=
  Exists fun free : Nat -> List Nat =>
    (forall order, order < maxOrder ->
      history.sys.links.Ring (.head order) ((free order).map .page)) /\
    (forall start first second, first < maxOrder -> second < maxOrder ->
      start ∈ free first -> start ∈ free second -> first = second) /\
    (partitionBlocks free history.live).Nodup /\
    Tiling {block | block ∈ partitionBlocks free history.live} low high

theorem BuddyShape.partition {history : BuddyHistory} {low high : Nat} {free : Nat -> List Nat}
    (shape : BuddyShape history.sys.page history.sys.links low high free history.live ∅) :
    Partition history low high := by
  have listed : forall block : Block, block ∈ (List.range maxOrder).flatMap
      (fun order => (free order).map (fun start => (⟨start, order⟩ : Block))) <->
        block.start ∈ free block.order := by
    intro block
    simp only [List.mem_flatMap, List.mem_range, List.mem_map]
    constructor
    · rintro ⟨order, _, start, member, equal⟩
      exact equal ▸ member
    · exact fun member => ⟨block.order, shape.freeLists.order_lt member, block.start, member, rfl⟩
  refine ⟨free, shape.rings, fun _ _ _ _ _ => shape.order_eq, ?_, ?_⟩
  · refine List.Nodup.append ?_ ?_ ?_
    · rw [List.nodup_flatMap]
      refine ⟨fun order member => ?_, ?_⟩
      · have distinct := (List.nodup_cons.mp (shape.rings order (List.mem_range.mp member)).distinct).2
        exact (List.Nodup.of_map _ distinct).map (fun _ _ equal => congrArg Block.start equal)
      · refine List.nodup_range.imp ?_
        intro first second different block inFirst inSecond
        rcases List.mem_map.mp inFirst with ⟨_, _, firstEq⟩
        rcases List.mem_map.mp inSecond with ⟨_, _, secondEq⟩
        exact different (congrArg Block.order (firstEq.trans secondEq.symm))
    · exact List.Nodup.of_map Block.start (by
        rw [List.map_map]
        exact shape.held)
    · intro block inFree inLive
      rcases List.mem_map.mp inLive with ⟨entry, member, equal⟩
      exact shape.held_unlisted member block.order (equal ▸ (listed block).mp inFree)
  · have same : {block | block ∈ partitionBlocks free history.live} = blocksOf free history.live ∅ := by
      ext block
      change block ∈ partitionBlocks free history.live <-> _ \/ _ \/ False
      rw [partitionBlocks, List.mem_append, listed, or_false]
    exact same ▸ shape.tiling

/-- The condition on one call: a release merges cleanly.  It shuts out a merge
with a buddy below the block, where the loop unlinks the node of the block that
is freed and leaves the buddy on its list. -/
def CleanRelease (low high : Nat) (history : BuddyHistory) : BuddyAction -> Prop
  | .alloc _ => True
  | .free base n =>
      history.sys.CleanMerge low high (maxOrder - BuddySystem.roundUpOrder n) base
        (BuddySystem.roundUpOrder n)

instance (low high : Nat) (history : BuddyHistory) :
    forall action, Decidable (CleanRelease low high history action)
  | .alloc _ => inferInstanceAs (Decidable True)
  | .free _ _ => inferInstanceAs (Decidable (BuddySystem.CleanMerge _ _ _ _ _ _))

/-- The invariant of histories: the lists have a shape. -/
def BuddyHistory.WellShaped (low high : Nat) (history : BuddyHistory) : Prop :=
  Exists fun free =>
    BuddyShape history.sys.page history.sys.links low high free history.live ∅

theorem BuddyHistory.step_wellShaped {low high : Nat} {history next : BuddyHistory} {action : BuddyAction}
    (shaped : history.WellShaped low high) (clean : CleanRelease low high history action)
    (stepped : history.step action = some next) : next.WellShaped low high := by
  rcases shaped with ⟨free, shape⟩
  cases action with
  | alloc n =>
      rcases BuddySystem.allocPages_shape shape n with exhausted | ⟨base, sys, nextFree, allocated, nextShape⟩
      · simp only [step, exhausted, Option.some.injEq] at stepped
        exact stepped ▸ ⟨free, shape⟩
      · simp only [step, allocated, Option.some.injEq] at stepped
        exact stepped ▸ ⟨nextFree, nextShape.1⟩
  | free base n =>
      by_cases member : (base, n) ∈ history.live
      · simp only [step, if_pos member, Option.some.injEq] at stepped
        rcases BuddySystem.freePages_shape shape member clean with ⟨nextFree, nextShape, _⟩
        exact stepped ▸ ⟨nextFree, nextShape⟩
      · simp only [step, if_neg member, reduceCtorEq] at stepped

/-- From one initialised region, every run of allocations and clean releases
keeps the region partitioned. -/
theorem run_keeps_partition {memory start : BuddySystem} {base n : Nat} {actions : List BuddyAction}
    {last : BuddyHistory} (started : memory.init.initMemmap base n = some start)
    (clean : buddyMachine.Along (CleanRelease base (base + n)) ⟨start, []⟩ actions)
    (ran : buddyMachine.run ⟨start, []⟩ actions = some last) : Partition last base (base + n) := by
  have initial : BuddyHistory.WellShaped base (base + n) ⟨start, []⟩ :=
    (BuddySystem.initMemmap_shape started).imp fun _ facts => facts.1
  rcases Machine.run_invariant (fun _ _ _ => BuddyHistory.step_wellShaped) initial clean ran with
    ⟨free, shape⟩
  exact shape.partition

/-! ## Merging upwards and downwards -/

/-- Descriptors as `page_init` leaves them: reserved, and on no list. -/
def reservedMemory (npage : Nat) : BuddySystem where
  page := fun _ => { flags := { reserved := true } }
  links := ⟨id, id⟩
  areaNrFree := fun _ => 0
  nrFree := 0
  npage := npage

/-- Pages 2 to 5 are listed as the single pages 3 and 2 and a pair from 4. -/
def fourPages : Option BuddySystem := (reservedMemory 8).init.initMemmap 2 4

theorem fourPages_isSome : fourPages.isSome = true := by decide

def fourPagesHistory : BuddyHistory := ⟨fourPages.get fourPages_isSome, []⟩

/-- Releasing the upper of two buddies first. -/
def upwardMerge : List BuddyAction := [.alloc 1, .alloc 1, .free 3 1, .free 2 1]

/-- Releasing the lower of two buddies first. -/
def downwardMerge : List BuddyAction := [.alloc 1, .alloc 1, .free 2 1, .free 3 1]

theorem upwardMerge_keeps_partition :
    Exists fun last => buddyMachine.run fourPagesHistory upwardMerge = some last /\
      Partition last 2 (2 + 4) := by
  have clean : buddyMachine.Along (CleanRelease 2 (2 + 4)) fourPagesHistory upwardMerge := by decide
  have returns : (buddyMachine.run fourPagesHistory upwardMerge).isSome = true := by decide
  rcases Option.isSome_iff_exists.mp returns with ⟨last, ran⟩
  exact ⟨last, ran, run_keeps_partition (Option.some_get fourPages_isSome).symm clean ran⟩

/-- The merge unlinks the released page 3 through the pointers it had before
page 2 followed it, so page 2 stays on list 0 and heads list 1 as well. -/
theorem downwardMerge_breaks_partition :
    Exists fun start => Exists fun last => fourPages = some start /\
      buddyMachine.run ⟨start, []⟩ downwardMerge = some last /\ ¬ Partition last 2 (2 + 4) := by
  have heads : (buddyMachine.run fourPagesHistory downwardMerge).map
      (fun last => (last.sys.links.next (.head 0), last.sys.links.next (.head 1))) =
        some (.page 2, .page 2) := by decide
  rcases Option.map_eq_some_iff.mp heads with ⟨last, ran, first⟩
  refine ⟨_, last, (Option.some_get fourPages_isSome).symm, ran, ?_⟩
  rintro ⟨free, rings, once, _⟩
  have listed : forall order, order < maxOrder -> last.sys.links.next (.head order) = .page 2 ->
      2 ∈ free order := by
    intro order bound points
    rw [(rings order bound).path.next_left] at points
    cases members : free order with
    | nil =>
        rw [members] at points
        cases points
    | cons first rest =>
        rw [members] at points
        cases points
        exact List.mem_cons_self
  have onZero := listed 0 (by decide) (congrArg Prod.fst first)
  have onOne := listed 1 (by decide) (congrArg Prod.snd first)
  exact absurd (once 2 0 1 (by decide) (by decide) onZero onOne) (by decide)

end Memory
end Ucore
