import Ucore.Memory.BuddyPartition

namespace Ucore
namespace Memory

open Library

/-!
# The initial decomposition of a region

`default_init_memmap` cuts its region into aligned blocks, front to back.  The
order of each is limited by the alignment of its start and by the pages that
remain.  The alignment loop already stops at the largest order that divides the
index; the source then steps back once more, so that a block is only half as
large as its start would allow.
-/

namespace BuddySystem

/-! ## The two limits -/

theorem alignLoop_stops (idx fuel order : Nat) (aligned : 2 ^ order ∣ idx) (bound : order < maxOrder)
    (enough : maxOrder <= order + fuel) :
    ¬ 2 ^ (alignLoop idx fuel order + 1) ∣ idx \/ alignLoop idx fuel order = maxOrder - 1 := by
  induction fuel generalizing order with
  | zero => omega
  | succ fuel inductionHypothesis =>
      rw [alignLoop]
      rcases aligned with ⟨slot, equal⟩
      have bit : idx.testBit order = false <-> 2 ^ (order + 1) ∣ idx := by
        rw [Nat.testBit_eq_decide_div_mod_eq, equal, Nat.mul_div_cancel_left _ (Nat.two_pow_pos order),
          decide_eq_false_iff_not, pow_succ, Nat.mul_dvd_mul_iff_left (Nat.two_pow_pos order)]
        omega
      by_cases further : idx.testBit order = false /\ order < maxOrder - 1
      · rw [if_pos further]
        exact inductionHypothesis (order + 1) (bit.mp further.1) (by omega) (by omega)
      · rw [if_neg further]
        by_cases top : order < maxOrder - 1
        · exact .inl fun divides => further ⟨bit.mpr divides, top⟩
        · exact .inr (by omega)

/-- The loop finds the largest order that divides the index, and the source
goes back by one from there. -/
theorem maxAlignOrder_succ {idx order : Nat} (divides : 2 ^ (order + 1) ∣ idx) (bound : order + 1 < maxOrder) :
    order <= maxAlignOrder idx := by
  have reached : order + 1 <= alignLoop idx maxOrder 0 := by
    rcases alignLoop_stops idx maxOrder 0 (one_dvd idx) (by decide) (by omega) with stops | top
    · by_contra short
      exact stops (Nat.dvd_trans (Nat.pow_dvd_pow 2 (by omega)) divides)
    · omega
  rw [maxAlignOrder]
  simp only [if_pos (show alignLoop idx maxOrder 0 > 0 by omega)]
  omega

/-- It goes back even where the index would allow the larger block. -/
theorem maxAlignOrder_halved {idx : Nat} (even : 2 ∣ idx) :
    2 ^ (maxAlignOrder idx + 1) ∣ idx /\ maxAlignOrder idx + 1 < maxOrder := by
  have loop := alignLoop_spec idx maxOrder 0 (one_dvd idx) (by decide)
  have moved : 0 < alignLoop idx maxOrder 0 := by
    rcases alignLoop_stops idx maxOrder 0 (one_dvd idx) (by decide) (by omega) with stops | top
    · by_contra zero
      rw [Nat.le_zero.mp (Nat.le_of_not_lt zero)] at stops
      exact stops even
    · rw [top]
      decide
  have same : maxAlignOrder idx + 1 = alignLoop idx maxOrder 0 := by
    rw [maxAlignOrder]
    simp only [if_pos (show alignLoop idx maxOrder 0 > 0 from moved)]
    omega
  exact same ▸ loop

theorem maxAlignOrder_lt (idx : Nat) : maxAlignOrder idx + 1 < maxOrder := by
  have loop := (alignLoop_spec idx maxOrder 0 (one_dvd idx) (by decide)).2
  rw [maxAlignOrder]
  split
  · omega
  · have zero : alignLoop idx maxOrder 0 = 0 := by omega
    rw [zero]
    decide

theorem sizeLoop_stops (remain fuel order : Nat) (bound : order < maxOrder) (enough : maxOrder <= order + fuel) :
    sizeLoop remain fuel order < maxOrder /\
      (remain < 2 ^ (sizeLoop remain fuel order + 1) \/ sizeLoop remain fuel order = maxOrder - 1) := by
  induction fuel generalizing order with
  | zero => omega
  | succ fuel inductionHypothesis =>
      rw [sizeLoop]
      by_cases further : 2 ^ order * 2 <= remain /\ order < maxOrder - 1
      · rw [if_pos further]
        exact inductionHypothesis (order + 1) (by omega) (by omega)
      · rw [if_neg further]
        refine ⟨bound, ?_⟩
        by_cases top : order < maxOrder - 1
        · refine .inl ?_
          rw [pow_succ]
          by_contra large
          exact further ⟨Nat.le_of_not_lt large, top⟩
        · exact .inr (by omega)

/-! ## The loop over the region -/

/-- More rounds than pages change nothing. -/
theorem carve_fuel (extra fuel pos remain : Nat) (sys : BuddySystem) (enough : remain <= fuel) :
    carve (fuel + extra) pos remain sys = carve fuel pos remain sys := by
  induction fuel generalizing pos remain sys with
  | zero =>
      have done : remain = 0 := Nat.le_zero.mp enough
      subst done
      cases extra <;> rfl
  | succ fuel inductionHypothesis =>
      rw [Nat.succ_add, carve, carve]
      by_cases more : remain > 0
      · have positive := Nat.two_pow_pos (min (maxAlignOrder pos) (sizeLimitOrder remain))
        simp only [if_pos more]
        exact inductionHypothesis _ _ _ (by omega)
      · rw [if_neg more, if_neg more]

theorem init_frame (sys : BuddySystem) : sys.init.page = sys.page /\ sys.init.npage = sys.npage := by
  have folded : forall (orders : List Nat) (sys : BuddySystem),
      let cleared := orders.foldl (fun (sys : BuddySystem) order =>
        { sys with
          links := listInit sys.links (.head order)
          areaNrFree := Function.update sys.areaNrFree order 0 }) sys
      cleared.page = sys.page /\ cleared.npage = sys.npage := by
    intro orders
    induction orders with
    | nil => exact fun _ => ⟨rfl, rfl⟩
    | cons order rest inductionHypothesis => exact fun sys => inductionHypothesis _
  exact folded (List.range maxOrder) sys

theorem clearRegion_npage {p remain : Nat} {sys next : BuddySystem}
    (cleared : clearRegion p remain sys = some next) : next.npage = sys.npage := by
  induction remain generalizing p sys with
  | zero =>
      cases cleared
      rfl
  | succ remain inductionHypothesis =>
      rw [clearRegion] at cleared
      split at cleared
      · have kept := inductionHypothesis cleared
        exact kept
      · cases cleared

theorem carve_npage (fuel pos remain : Nat) (sys : BuddySystem) :
    (carve fuel pos remain sys).npage = sys.npage := by
  induction fuel generalizing pos remain sys with
  | zero => rfl
  | succ fuel inductionHypothesis =>
      rw [carve]
      split
      · exact inductionHypothesis ..
      · rfl

/-- The end of memory is not touched. -/
theorem initMemmap_npage {memory start : BuddySystem} {base n : Nat}
    (started : memory.init.initMemmap base n = some start) : start.npage = memory.npage := by
  rw [initMemmap] at started
  split at started
  · rcases Option.map_eq_some_iff.mp started with ⟨cleared, clearing, carved⟩
    rw [← carved, carve_npage, clearRegion_npage clearing, (init_frame memory).2]
  · cases started

/-- The assertion of the first loop is all that can fail. -/
theorem clearRegion_isSome (p remain : Nat) (sys : BuddySystem)
    (reserved : forall index, p <= index -> index < p + remain -> pageReserved (sys.page index) = true) :
    (clearRegion p remain sys).isSome = true := by
  induction remain generalizing p sys with
  | zero => rfl
  | succ remain inductionHypothesis =>
      rw [clearRegion, if_pos (reserved p (Nat.le_refl p) (by omega))]
      refine inductionHypothesis (p + 1) _ fun index above below => ?_
      have different : index ≠ p := by omega
      simp only [Function.update_of_ne different]
      exact reserved index (by omega) (by omega)

/-- Nor is a descriptor outside the region. -/
theorem clearRegion_outside {p remain index : Nat} {sys next : BuddySystem}
    (cleared : clearRegion p remain sys = some next) (outside : ¬ (p <= index /\ index < p + remain)) :
    next.page index = sys.page index := by
  induction remain generalizing p sys with
  | zero =>
      cases cleared
      rfl
  | succ remain inductionHypothesis =>
      rw [clearRegion] at cleared
      split at cleared
      · have different : index ≠ p := by omega
        exact (inductionHypothesis cleared (by omega)).trans (Function.update_of_ne different ..)
      · cases cleared

theorem carve_outside (fuel : Nat) {pos remain index : Nat} (sys : BuddySystem)
    (outside : ¬ (pos <= index /\ index < pos + remain)) :
    (carve fuel pos remain sys).page index = sys.page index := by
  induction fuel generalizing pos remain sys with
  | zero => rfl
  | succ fuel inductionHypothesis =>
      rw [carve]
      by_cases more : remain > 0
      · have fits : 2 ^ sizeLimitOrder remain <= remain := sizeLoop_spec remain maxOrder 0 more
        have size : 2 ^ min (maxAlignOrder pos) (sizeLimitOrder remain) <= remain :=
          Nat.le_trans (Nat.pow_le_pow_right Nat.two_pos (Nat.min_le_right ..)) fits
        have positive := Nat.two_pow_pos (min (maxAlignOrder pos) (sizeLimitOrder remain))
        have different : index ≠ pos := by omega
        simp only [if_pos more]
        refine (inductionHypothesis _ ?_).trans (Function.update_of_ne different ..)
        omega
      · rw [if_neg more]

theorem initMemmap_outside {memory start : BuddySystem} {base n index : Nat}
    (started : memory.init.initMemmap base n = some start) (outside : ¬ (base <= index /\ index < base + n)) :
    start.page index = memory.page index := by
  rw [initMemmap] at started
  split at started
  · rcases Option.map_eq_some_iff.mp started with ⟨cleared, clearing, carved⟩
    rw [← carved, carve_outside n cleared outside, clearRegion_outside clearing outside, (init_frame memory).1]
  · cases started

theorem initMemmap_returns {memory : BuddySystem} {base n : Nat} (positive : 0 < n)
    (reserved : forall index, base <= index -> index < base + n -> pageReserved (memory.page index) = true) :
    Exists fun start => memory.init.initMemmap base n = some start := by
  apply Option.isSome_iff_exists.mp
  rw [initMemmap, if_pos positive, Option.isSome_map]
  apply clearRegion_isSome
  rw [(init_frame memory).1]
  exact reserved

theorem blocksOf_listed (free : Nat -> List Nat) : blocksOf free [] ∅ = listedBlocks free := by
  ext block
  change (_ \/ block ∈ [] \/ False) <-> _
  simp only [List.not_mem_nil, or_false]
  rfl

/-- The region is cut into aligned blocks of orders below `MAX_ORDER` that
cover each of its pages once; the total is counted in an `unsigned int`. -/
theorem initMemmap_tiles (memory : BuddySystem) {base n : Nat} (positive : 0 < n)
    (reserved : forall index, base <= index -> index < base + n -> pageReserved (memory.page index) = true) :
    Exists fun start => Exists fun free =>
      memory.init.initMemmap base n = some start /\
        (forall extra, (memory.init.clearRegion base n).map (carve (n + extra) base n) = some start) /\
        FreeLists start.page start.links free /\ Tiling (listedBlocks free) base (base + n) /\
        start.nrFree.toNat = n % 2 ^ 32 := by
  rcases initMemmap_returns positive reserved with ⟨start, started⟩
  rcases initMemmap_shape started with ⟨free, shape, _, total, _⟩
  refine ⟨start, free, started, fun extra => ?_, shape.freeLists, blocksOf_listed free ▸ shape.tiling, ?_⟩
  · rw [initMemmap, if_pos positive] at started
    rw [← started]
    apply congrArg (fun carved => Option.map carved _)
    funext cleared
    exact carve_fuel extra n base n cleared (Nat.le_refl n)
  · rw [total, UInt32.toNat_ofNat']

theorem fourPages_tiles :
    Exists fun start => Exists fun free =>
      (reservedMemory 8).init.initMemmap 2 4 = some start /\
        (forall extra, ((reservedMemory 8).init.clearRegion 2 4).map (carve (4 + extra) 2 4) = some start) /\
        FreeLists start.page start.links free /\ Tiling (listedBlocks free) 2 (2 + 4) /\
        start.nrFree.toNat = 4 % 2 ^ 32 :=
  initMemmap_tiles (reservedMemory 8) (by decide) (fun _ _ _ => rfl)

/-- The counter of a region of `2 ^ 32` pages is zero. -/
theorem initMemmap_wraps :
    Exists fun start => (reservedMemory (2 ^ 32)).init.initMemmap 0 (2 ^ 32) = some start /\
      start.nrFree.toNat ≠ 2 ^ 32 := by
  rcases @initMemmap_returns (reservedMemory (2 ^ 32)) 0 (2 ^ 32) (by decide) (fun _ _ _ => rfl) with ⟨start, started⟩
  rcases initMemmap_shape started with ⟨free, _, _, total, _⟩
  refine ⟨start, started, ?_⟩
  rw [total, UInt32.toNat_ofNat']
  decide

/-! ## The end of memory -/

theorem splitDown_npage (target allocated found : Nat) (sys : BuddySystem) :
    (splitDown target allocated found sys).npage = sys.npage := by
  induction found generalizing sys with
  | zero => rfl
  | succ found inductionHypothesis =>
      rw [splitDown]
      split
      · exact inductionHypothesis _
      · rfl

theorem mergeLoop_npage (fuel base order : Nat) (sys : BuddySystem) :
    (mergeLoop fuel sys base order).1.npage = sys.npage := by
  induction fuel generalizing base order sys with
  | zero => rfl
  | succ fuel inductionHypothesis =>
      rw [mergeLoop]
      split
      · dsimp only
        split
        · split
          · exact inductionHypothesis ..
          · exact inductionHypothesis ..
        · rfl
      · rfl

theorem allocPages_npage {sys next : BuddySystem} {n : Nat} {granted : Option Nat}
    (allocated : sys.allocPages n = some (granted, next)) : next.npage = sys.npage := by
  rw [allocPages] at allocated
  dsimp only at allocated
  split at allocated
  · cases allocated
    rfl
  · split at allocated
    · cases allocated
    · cases allocated
      exact splitDown_npage ..

end BuddySystem

end Memory
end Ucore
