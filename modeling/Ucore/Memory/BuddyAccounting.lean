import Ucore.Memory.BuddyPartition

namespace Ucore
namespace Memory

open Library

/-!
# The buddy allocator counts its pages

An allocation takes the pages of the block that it hands out from `nr_free`,
and a release adds those of the block that it links in the end.  A release
that merges links a larger block than it was given, so that the pages of the
buddies are counted twice.
-/

namespace BuddySystem

/-- The merge loop leaves the counter of free pages to its caller. -/
theorem mergeLoop_nrFree (fuel : Nat) (sys : BuddySystem) (base order : Nat) :
    (mergeLoop fuel sys base order).1.nrFree = sys.nrFree := by
  induction fuel generalizing sys base order with
  | zero => rfl
  | succ fuel inductionHypothesis =>
      rw [mergeLoop]
      split
      · dsimp only
        split
        · split
          · exact inductionHypothesis ..
          · exact inductionHypothesis ..
        · rfl
      · rfl

/-- The order grows with every merge. -/
theorem mergeLoop_order (fuel : Nat) (sys : BuddySystem) (base order : Nat) :
    order <= (mergeLoop fuel sys base order).2 /\ (mergeLoop fuel sys base order).2 <= order + fuel := by
  induction fuel generalizing sys base order with
  | zero => exact ⟨Nat.le_refl _, Nat.le_refl _⟩
  | succ fuel inductionHypothesis =>
      have later : forall (sys : BuddySystem) base, order <= (mergeLoop fuel sys base (order + 1)).2 /\
          (mergeLoop fuel sys base (order + 1)).2 <= order + (fuel + 1) := by
        intro sys base
        have grown := inductionHypothesis sys base (order + 1)
        omega
      rw [mergeLoop]
      split
      · dsimp only
        split
        · split
          · exact later ..
          · exact later ..
        · exact ⟨Nat.le_refl _, Nat.le_add_right _ _⟩
      · exact ⟨Nat.le_refl _, Nat.le_add_right _ _⟩

/-- A release that merges links a larger block. -/
theorem mergeLoop_grows {fuel base order : Nat} {sys : BuddySystem} (some : 0 < fuel) (bound : order < maxOrder)
    (claims : sys.claimsFree (getBuddy base order) order = true) : order < (mergeLoop fuel sys base order).2 := by
  cases fuel with
  | zero => exact absurd some (Nat.lt_irrefl 0)
  | succ fuel =>
      rw [mergeLoop, if_pos bound]
      dsimp only
      rw [if_pos claims]
      split
      · exact (mergeLoop_order fuel _ _ (order + 1)).1
      · exact (mergeLoop_order fuel _ _ (order + 1)).1

theorem toNat_ofNat (count : Nat) : (UInt32.ofNat count).toNat = count % 2 ^ 32 := UInt32.toNat_ofNat'

/-- The sizes of blocks differ as machine numbers too. -/
theorem pow_injective {order other : Nat} (bound : order <= maxOrder) (boundToo : other <= maxOrder)
    (same : UInt32.ofNat (2 ^ order) = UInt32.ofNat (2 ^ other)) : order = other := by
  have small : forall order, order <= maxOrder -> 2 ^ order < 2 ^ 32 :=
    fun order bound => Nat.pow_lt_pow_right (by decide) (Nat.lt_of_le_of_lt bound (by decide))
  have sizes := congrArg UInt32.toNat same
  rw [toNat_ofNat, toNat_ofNat, Nat.mod_eq_of_lt (small order bound), Nat.mod_eq_of_lt (small other boundToo)] at sizes
  exact Nat.pow_right_injective (Nat.le_refl 2) sizes

/-- A release adds the pages that its allocation has taken exactly when it
merges with nothing. -/
theorem freePages_nrFree {sys : BuddySystem} {base n : Nat} (fits : roundUpOrder n < maxOrder) :
    (sys.freePages base n).nrFree = sys.nrFree + UInt32.ofNat (2 ^ roundUpOrder n) <->
      sys.claimsFree (getBuddy base (roundUpOrder n)) (roundUpOrder n) = false := by
  change (mergeLoop _ sys base (roundUpOrder n)).1.nrFree +
    UInt32.ofNat (2 ^ (mergeLoop _ sys base (roundUpOrder n)).2) = _ <->
    _
  rw [mergeLoop_nrFree, UInt32.add_right_inj]
  have fuel : 0 < maxOrder - roundUpOrder n := Nat.sub_pos_of_lt fits
  constructor
  · intro same
    refine Bool.eq_false_iff.mpr fun claims => ?_
    have grown := mergeLoop_grows fuel fits claims
    have limit := (mergeLoop_order (maxOrder - roundUpOrder n) sys base (roundUpOrder n)).2
    have equal := pow_injective (by omega) (Nat.le_of_lt fits) same
    omega
  · intro alone
    rw [mergeLoop_alone fuel fits alone]

end BuddySystem

open BuddySystem

/-! ## The counters over whole histories -/

/-- The condition on one call: a release merges with nothing.  `nr_free` grows by
the size of the merged block, in which the pages of the buddies are counted
already. -/
def LoneRelease (history : BuddyHistory) : BuddyAction -> Prop
  | .alloc _ => True
  | .free base n => history.sys.claimsFree (getBuddy base (roundUpOrder n)) (roundUpOrder n) = false

instance (history : BuddyHistory) : forall action, Decidable (LoneRelease history action)
  | .alloc _ => inferInstanceAs (Decidable True)
  | .free _ _ => inferInstanceAs (Decidable (_ = false))

/-- The pages of the blocks that are held. -/
def livePages (live : List (Nat × Nat)) : Nat := (live.map fun entry => 2 ^ roundUpOrder entry.2).sum

/-- The counters agree with the lists: as machine numbers, and as numbers
where the region has less than 2^32 pages. -/
def Accounted (history : BuddyHistory) (count : Nat) : Prop :=
  Exists fun free : Nat -> List Nat =>
    (forall order, order < maxOrder -> history.sys.links.Ring (.head order) ((free order).map .page)) /\
    (forall order, order < maxOrder -> (history.sys.areaNrFree order).toNat = (free order).length % 2 ^ 32) /\
    history.sys.nrFree.toNat =
      (∑ order ∈ Finset.range maxOrder, 2 ^ order * (history.sys.areaNrFree order).toNat) % 2 ^ 32 /\
    (count < 2 ^ 32 ->
      (forall order, order < maxOrder -> (history.sys.areaNrFree order).toNat = (free order).length) /\
      history.sys.nrFree.toNat = ∑ order ∈ Finset.range maxOrder, 2 ^ order * (history.sys.areaNrFree order).toNat)

/-- The invariant of histories: every page of the region is listed or held. -/
def BuddyHistory.Counts (low high : Nat) (history : BuddyHistory) : Prop :=
  Exists fun free =>
    BuddyShape history.sys.page history.sys.links low high free history.live ∅ /\ AreasCount history.sys free /\
      history.sys.nrFree = UInt32.ofNat (listedPages free) /\ listedPages free + livePages history.live = high - low

theorem BuddyHistory.Counts.accounted {history : BuddyHistory} {low high : Nat} (counts : history.Counts low high) :
    Accounted history (high - low) := by
  rcases counts with ⟨free, shape, areas, total, pages⟩
  have lengths : forall order, order < maxOrder -> (history.sys.areaNrFree order).toNat = (free order).length % 2 ^
    32 := by
    intro order bound
    rw [areas order bound]
    exact toNat_ofNat _
  refine ⟨free, shape.rings, lengths, ?_, fun small => ?_⟩
  · rw [total, toNat_ofNat]
    unfold listedPages
    rw [Finset.sum_nat_mod, Finset.sum_nat_mod (Finset.range maxOrder) (2 ^ 32) fun order =>
      2 ^ order * (history.sys.areaNrFree order).toNat]
    refine congrArg (· % 2 ^ 32) (Finset.sum_congr rfl fun order member => ?_)
    rw [lengths order (Finset.mem_range.mp member), Nat.mul_mod_mod]
  · have exact_ : forall order, order < maxOrder -> (history.sys.areaNrFree order).toNat = (free order).length := by
      intro order bound
      have one : 2 ^ order * (free order).length <= listedPages free := by
        unfold listedPages
        rw [← Finset.add_sum_erase _ (fun order => 2 ^ order * (free order).length) (Finset.mem_range.mpr bound)]
        exact Nat.le_add_right _ _
      have several := Nat.le_mul_of_pos_left (free order).length (Nat.two_pow_pos order)
      rw [lengths order bound]
      exact Nat.mod_eq_of_lt (by omega)
    refine ⟨exact_, ?_⟩
    rw [total, toNat_ofNat, Nat.mod_eq_of_lt (by omega)]
    exact Finset.sum_congr rfl fun order member => by rw [exact_ order (Finset.mem_range.mp member)]

/-- A release that merges with nothing merges cleanly. -/
theorem LoneRelease.clean {low high : Nat} {history : BuddyHistory} {base n : Nat} (fits : roundUpOrder n < maxOrder)
    (lone : LoneRelease history (.free base n)) : CleanRelease low high history (.free base n) := by
  change BuddySystem.CleanMerge _ _ _ _ _ _
  cases fuel : maxOrder - roundUpOrder n with
  | zero => omega
  | succ fuel =>
      intro claims
      cases claims.symm.trans lone

theorem roundUpOrder_lt {n : Nat} (fits : Nat.clog 2 n < maxOrder) : roundUpOrder n < maxOrder := by
  rw [roundUpOrder_eq]
  omega

theorem BuddyHistory.step_counts {low high : Nat} {history next : BuddyHistory} {action : BuddyAction}
    (counts : history.Counts low high) (lone : LoneRelease history action) (stepped : history.step action = some next) :
    next.Counts low high := by
  rcases counts with ⟨free, shape, areas, total, pages⟩
  cases action with
  | alloc n =>
      rcases allocPages_shape shape n with exhausted | ⟨base, sys, nextFree, allocated, nextShape, takes, _⟩
      · simp only [step, exhausted, Option.some.injEq] at stepped
        exact stepped ▸ ⟨free, shape, areas, total, pages⟩
      · simp only [step, allocated, Option.some.injEq] at stepped
        subst stepped
        have listed := takes.pages
        refine ⟨nextFree, nextShape, takes.areas areas, ?_, ?_⟩
        · rw [takes.total, total, ← listed, UInt32.ofNat_add]
          exact UInt32.add_sub_cancel _ _
        · change listedPages nextFree + (2 ^ roundUpOrder n + livePages history.live) = _
          omega
  | free base n =>
      by_cases member : (base, n) ∈ history.live
      · simp only [step, if_pos member, Option.some.injEq] at stepped
        have fits := roundUpOrder_lt (shape.fits _ member)
        rcases freePages_shape shape member (LoneRelease.clean fits lone) with ⟨nextFree, nextShape, gains, _⟩
        have gained := gains lone
        subst stepped
        refine ⟨nextFree, nextShape, gained.areas areas, ?_, ?_⟩
        · rw [gained.total, total, gained.pages, UInt32.ofNat_add]
        · have held : livePages history.live = 2 ^ roundUpOrder n + livePages (history.live.erase (base, n)) := by
            unfold livePages
            rw [((List.perm_cons_erase member).map _).sum_eq]
            rfl
          have listed : listedPages nextFree = listedPages free + 2 ^ roundUpOrder n := gained.pages
          change listedPages nextFree + livePages (history.live.erase (base, n)) = _
          omega
      · simp only [step, if_neg member, reduceCtorEq] at stepped

/-- From one initialised region, every run whose releases merge with nothing
keeps the counters; and a release gives back what its allocation has taken
exactly when it merges with nothing. -/
theorem run_keeps_counters {memory start : BuddySystem} {base n : Nat} {actions : List BuddyAction}
    {last : BuddyHistory}
    (started : memory.init.initMemmap base n = some start)
    (lone : buddyMachine.Along LoneRelease ⟨start, []⟩ actions)
    (ran : buddyMachine.run ⟨start, []⟩ actions = some last) :
    Accounted last n /\
      (forall count next, buddyMachine.step last (.alloc count) = some next ->
        next = last \/ next.sys.nrFree = last.sys.nrFree - UInt32.ofNat (2 ^ roundUpOrder count)) /\
      forall block count next, buddyMachine.step last (.free block count) = some next ->
        (next.sys.nrFree = last.sys.nrFree + UInt32.ofNat (2 ^ roundUpOrder count) <->
          LoneRelease last (.free block count)) := by
  have initial : BuddyHistory.Counts base (base + n) ⟨start, []⟩ := by
    rcases initMemmap_shape started with ⟨free, shape, pages, total, areas, _⟩
    refine ⟨free, shape, areas, by rw [total, pages], ?_⟩
    change listedPages free + 0 = _
    omega
  have counts := Machine.run_invariant (fun _ _ _ => BuddyHistory.step_counts) initial lone ran
  have accounted := counts.accounted
  rw [Nat.add_sub_cancel_left] at accounted
  rcases counts with ⟨free, shape, _⟩
  refine ⟨accounted, fun count next stepped => ?_, fun block count next stepped => ?_⟩
  · change last.step (.alloc count) = some next at stepped
    rcases allocPages_shape shape count with exhausted | ⟨block, sys, nextFree, allocated, _, takes, _⟩
    · simp only [BuddyHistory.step, exhausted, Option.some.injEq] at stepped
      exact .inl stepped.symm
    · simp only [BuddyHistory.step, allocated, Option.some.injEq] at stepped
      exact .inr (stepped ▸ takes.total)
  · change last.step (.free block count) = some next at stepped
    by_cases member : (block, count) ∈ last.live
    · simp only [BuddyHistory.step, if_pos member, Option.some.injEq] at stepped
      subst stepped
      exact freePages_nrFree (roundUpOrder_lt (shape.fits _ member))
    · simp only [BuddyHistory.step, if_neg member, reduceCtorEq] at stepped

/-! ## A release that merges -/

/-- Two pages are taken, and the upper one is given back. -/
def takeAndReturn : List BuddyAction := [.alloc 1, .alloc 1, .free 3 1]

theorem takeAndReturn_keeps_counters :
    Exists fun last => buddyMachine.run fourPagesHistory takeAndReturn = some last /\ Accounted last 4 := by
  have lone : buddyMachine.Along LoneRelease fourPagesHistory takeAndReturn := by decide
  have returns : (buddyMachine.run fourPagesHistory takeAndReturn).isSome = true := by decide
  rcases Option.isSome_iff_exists.mp returns with ⟨last, ran⟩
  exact ⟨last, ran, (run_keeps_counters (Option.some_get fourPages_isSome).symm lone ran).1⟩

/-- After the release of page 2, which merges with page 3, the counter of free
pages is five, and four pages are listed. -/
theorem upwardMerge_breaks_counters :
    Exists fun start => Exists fun last => fourPages = some start /\
      buddyMachine.run ⟨start, []⟩ upwardMerge = some last /\ ¬Accounted last 4 := by
  have counters : (buddyMachine.run fourPagesHistory upwardMerge).map (fun last =>
      (last.sys.nrFree.toNat, (List.range maxOrder).map fun order => (last.sys.areaNrFree order).toNat)) =
        some (5, [0, 2, 0, 0, 0, 0, 0, 0, 0, 0, 0, 0, 0, 0]) := by decide
  rcases Option.map_eq_some_iff.mp counters with ⟨last, ran, same⟩
  refine ⟨_, last, (Option.some_get fourPages_isSome).symm, ran, ?_⟩
  rintro ⟨free, _, _, total, _⟩
  have listed : (∑ order ∈ Finset.range maxOrder, 2 ^ order * (last.sys.areaNrFree order).toNat) = 4 := by
    have areas := (Prod.mk.inj same).2
    simp [maxOrder, List.range_succ] at areas
    simp [maxOrder, Finset.sum_range_succ, areas]
  rw [listed, (Prod.mk.inj same).1] at total
  exact absurd total (by decide)

end Memory
end Ucore
