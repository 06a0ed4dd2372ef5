import Ucore.Memory.BuddyInit

namespace Ucore
namespace Memory

open Library

/-!
# Maximal coalescing

Two buddies of one order should never both be listed, the last order apart.
Allocation keeps this: of two halves one stays in hand.  A clean release keeps
it too, since it stops merging only where the buddy is not listed.  The initial
decomposition is what breaks it: by going back one order it cuts every block
in two that its alignment would just allow.
-/

/-- After an odd first page, the pages of the region start at a multiple of a
power of two larger than their number. -/
def FitsAlignment (base n : Nat) : Prop :=
  Exists fun order => order < maxOrder /\ n - base % 2 < 2 ^ order /\ 2 ^ order ∣ base + base % 2

instance (base n : Nat) : Decidable (FitsAlignment base n) :=
  inferInstanceAs (Decidable (Exists fun order => order < maxOrder /\ n - base % 2 < 2 ^ order /\
    2 ^ order ∣ base + base % 2))

namespace BuddySystem

/-! ## The initial decomposition -/

/-- Below its alignment, a piece is cut into blocks of falling orders, and the
parent of each reaches past the end. -/
theorem carveBlocks_reach {low fuel pos remain order : Nat} (enough : remain <= fuel) (bound : order < maxOrder)
    (short : remain < 2 ^ order) (aligned : 2 ^ order ∣ pos) {block : Block}
    (member : block ∈ carveBlocks fuel pos remain) : ¬ block.parent.Within low (pos + remain) := by
  induction fuel generalizing pos remain order with
  | zero => cases member
  | succ fuel inductionHypothesis =>
      rw [carveBlocks] at member
      by_cases more : remain > 0
      · rw [if_pos more] at member
        have fits : 2 ^ sizeLimitOrder remain <= remain := sizeLoop_spec remain maxOrder 0 more
        have stops := sizeLoop_stops remain maxOrder 0 (by decide) (by omega)
        have smaller : sizeLimitOrder remain < order :=
          (Nat.pow_lt_pow_iff_right Nat.one_lt_two).mp (Nat.lt_of_le_of_lt fits short)
        have limit : remain < 2 ^ (sizeLimitOrder remain + 1) :=
          stops.2.resolve_right fun top => by
            have same : sizeLimitOrder remain = maxOrder - 1 := top
            omega
        have divides : 2 ^ (sizeLimitOrder remain + 1) ∣ pos :=
          Nat.dvd_trans (Nat.pow_dvd_pow 2 smaller) aligned
        have halfDivides : 2 ^ sizeLimitOrder remain ∣ pos :=
          Nat.dvd_trans (Nat.pow_dvd_pow 2 (Nat.le_succ _)) divides
        have chosen : min (maxAlignOrder pos) (sizeLimitOrder remain) = sizeLimitOrder remain :=
          Nat.min_eq_right (maxAlignOrder_succ divides (by omega))
        simp only [chosen] at member
        rw [pow_succ] at limit
        rcases List.mem_cons.mp member with first | later
        · subst first
          have flipped := xor_two_pow_of_dvd halfDivides
          rw [if_pos divides] at flipped
          rintro ⟨_, last⟩
          change min pos (pos ^^^ 2 ^ sizeLimitOrder remain) + 2 ^ (sizeLimitOrder remain + 1) <= _ at last
          rw [flipped, Nat.min_eq_left (Nat.le_add_right _ _), pow_succ] at last
          omega
        · have rest := inductionHypothesis (show remain - 2 ^ sizeLimitOrder remain <= fuel by omega)
            (Nat.lt_trans smaller bound) (by omega) (Nat.dvd_add halfDivides (Nat.dvd_refl _)) later
          have total : pos + 2 ^ sizeLimitOrder remain + (remain - 2 ^ sizeLimitOrder remain) = pos + remain := by
            omega
          exact total ▸ rest
      · rw [if_neg more] at member
        cases member

/-- The top order is never used. -/
theorem carveBlocks_order_lt {fuel pos remain : Nat} {block : Block}
    (member : block ∈ carveBlocks fuel pos remain) : block.order < maxOrder - 1 := by
  induction fuel generalizing pos remain with
  | zero => cases member
  | succ fuel inductionHypothesis =>
      rw [carveBlocks] at member
      by_cases more : remain > 0
      · rw [if_pos more] at member
        rcases List.mem_cons.mp member with first | later
        · have small := maxAlignOrder_lt pos
          rw [first]
          exact Nat.lt_of_le_of_lt (Nat.min_le_left ..) (by omega)
        · exact inductionHypothesis later
      · rw [if_neg more] at member
        cases member

/-- The first block of an even piece leaves its buddy inside, unless the piece
is shorter than its alignment. -/
theorem carveBlocks_first {low fuel pos remain : Nat} (bounds : low <= pos) (more : 0 < remain) (even : 2 ∣ pos)
    (outside : forall block, block ∈ carveBlocks (fuel + 1) pos remain ->
      ¬ block.parent.Within low (pos + remain)) :
    Exists fun order => order < maxOrder /\ remain < 2 ^ order /\ 2 ^ order ∣ pos := by
  have halved := maxAlignOrder_halved even
  generalize chosen : min (maxAlignOrder pos) (sizeLimitOrder remain) = order
  have small : order <= maxAlignOrder pos := chosen ▸ Nat.min_le_left ..
  have divides : 2 ^ (order + 1) ∣ pos := Nat.dvd_trans (Nat.pow_dvd_pow 2 (by omega)) halved.1
  have flipped := xor_two_pow_of_dvd (Nat.dvd_trans (Nat.pow_dvd_pow 2 (Nat.le_succ order)) divides)
  rw [if_pos divides] at flipped
  have member : (⟨pos, order⟩ : Block) ∈ carveBlocks (fuel + 1) pos remain := by
    rw [carveBlocks, if_pos more]
    simp only [chosen]
    exact List.mem_cons_self
  refine ⟨order + 1, by omega, ?_, divides⟩
  by_contra long
  refine outside _ member ⟨?_, ?_⟩
  · change low <= min pos (pos ^^^ 2 ^ order)
    omega
  · change min pos (pos ^^^ 2 ^ order) + 2 ^ (order + 1) <= _
    omega

/-- An odd page is a block of its own, and its parent begins before it. -/
theorem carveBlocks_odd {fuel base n : Nat} (positive : 0 < n) (odd : base % 2 = 1) :
    carveBlocks (fuel + 1) base n = ⟨base, 0⟩ :: carveBlocks fuel (base + 1) (n - 1) := by
  have bit : base.testBit 0 = true := by
    rw [Nat.testBit_zero, odd]
    rfl
  have align : maxAlignOrder base = 0 := by
    have stopped : alignLoop base maxOrder 0 = 0 := by
      rw [maxOrder, alignLoop, bit]
      exact if_neg (fun both => Bool.noConfusion both.1)
    rw [maxAlignOrder, stopped]
    rfl
  rw [carveBlocks, if_pos positive]
  simp only [align, Nat.zero_min, pow_zero]

theorem odd_parent_outside {base n : Nat} (odd : base % 2 = 1) :
    ¬ (⟨base, 0⟩ : Block).parent.Within base (base + n) := by
  rintro ⟨first, _⟩
  have flipped := @xor_two_pow_of_dvd base 0 (one_dvd base)
  rw [if_neg (fun even => by
    have divides : 2 ∣ base := even
    omega)] at flipped
  change base <= min base (base ^^^ 2 ^ 0) at first
  rw [flipped] at first
  omega

/-- The blocks of the initial decomposition are maximal exactly when the
region fits its alignment. -/
theorem carveBlocks_maximal_iff {base n : Nat} (positive : 0 < n) :
    (forall block, block ∈ carveBlocks n base n -> ¬ block.parent.Within base (base + n)) <->
      FitsAlignment base n := by
  rcases Nat.exists_eq_succ_of_ne_zero (Nat.ne_of_gt positive) with ⟨rest, equal⟩
  rcases Nat.mod_two_eq_zero_or_one base with even | odd
  · unfold FitsAlignment
    rw [even, Nat.sub_zero, Nat.add_zero]
    constructor
    · intro outside
      rw [equal] at outside ⊢
      exact carveBlocks_first (Nat.le_refl base) (Nat.succ_pos rest) (Nat.dvd_of_mod_eq_zero even) outside
    · rintro ⟨order, bound, short, aligned⟩ block member
      exact carveBlocks_reach (Nat.le_refl n) bound short aligned member
  · unfold FitsAlignment
    rw [odd]
    have tail : n - 1 = rest := by omega
    have total : base + n = base + 1 + rest := by omega
    have blocks : carveBlocks n base n = ⟨base, 0⟩ :: carveBlocks rest (base + 1) rest := by
      have cut := @carveBlocks_odd rest base n positive odd
      rw [tail, ← Nat.succ_eq_add_one, ← equal] at cut
      exact cut
    rw [blocks, tail]
    constructor
    · intro outside
      cases rest with
      | zero => exact ⟨0, by decide, by decide, one_dvd _⟩
      | succ rest =>
          apply carveBlocks_first (Nat.le_succ base) (Nat.succ_pos rest) (by omega)
          intro block member
          rw [← total]
          exact outside block (List.mem_cons_of_mem _ member)
    · rintro ⟨order, bound, short, aligned⟩ block member
      rcases List.mem_cons.mp member with first | later
      · rw [first]
        exact odd_parent_outside odd
      · rw [total]
        exact carveBlocks_reach (Nat.le_refl rest) bound short aligned later

/-- The lists right after the initialisation have no pair exactly when the
region fits its alignment. -/
theorem initMemmap_noPairs_iff {memory start : BuddySystem} {base n : Nat}
    (started : memory.init.initMemmap base n = some start) :
    (Exists fun free => FreeLists start.page start.links free /\ NoPairs free) <-> FitsAlignment base n := by
  have positive : 0 < n := by
    by_contra zero
    rw [initMemmap, if_neg zero] at started
    cases started
  rcases initMemmap_shape started with ⟨free, shape, _, _, _, members⟩
  have tiling : Tiling (listedBlocks free) base (base + n) := blocksOf_listed free ▸ shape.tiling
  have bounded : forall block, block ∈ listedBlocks free -> block.order <= maxOrder - 1 :=
    fun block listed => Nat.le_pred_of_lt (shape.freeLists.order_lt listed)
  rw [← carveBlocks_maximal_iff positive]
  constructor
  · rintro ⟨other, lists, noPairs⟩ block member inside
    rw [← shape.freeLists.unique lists] at noPairs
    have listed : block ∈ listedBlocks free := (members block.order block.start).mpr member
    have maximal := tiling.maximal_of_unpaired noPairs bounded listed
    exact maximal.largest (carveBlocks_order_lt member) inside
  · intro outside
    refine ⟨free, shape.freeLists, tiling.unpaired_of_maximal fun block listed => ?_⟩
    exact ⟨tiling.aligned block listed, tiling.within listed, bounded block listed,
      fun _ => outside block ((members block.order block.start).mp listed)⟩

end BuddySystem

/-! ## Whole histories -/

/-- The invariant: a partitioned region below the end of memory, without
pairs. -/
def BuddyHistory.Coalesced (low high : Nat) (history : BuddyHistory) : Prop :=
  Exists fun free => BuddyShape history.sys.page history.sys.links low high free history.live ∅ /\
    NoPairs free /\ high <= history.sys.npage

theorem BuddyHistory.step_coalesced {low high : Nat} {history next : BuddyHistory} {action : BuddyAction}
    (coalesced : history.Coalesced low high) (clean : CleanRelease low high history action)
    (stepped : history.step action = some next) : next.Coalesced low high := by
  rcases coalesced with ⟨free, shape, noPairs, memory⟩
  cases action with
  | alloc n =>
      rcases BuddySystem.allocPages_shape shape n with exhausted | ⟨base, sys, nextFree, allocated, nextShape, _, kept⟩
      · simp only [step, exhausted, Option.some.injEq] at stepped
        exact stepped ▸ ⟨free, shape, noPairs, memory⟩
      · have same := BuddySystem.allocPages_npage allocated
        simp only [step, allocated, Option.some.injEq] at stepped
        exact stepped ▸ ⟨nextFree, nextShape, kept noPairs, same ▸ memory⟩
  | free base n =>
      by_cases member : (base, n) ∈ history.live
      · have same : (history.sys.freePages base n).npage = history.sys.npage :=
          BuddySystem.mergeLoop_npage ..
        simp only [step, if_pos member, Option.some.injEq] at stepped
        rcases BuddySystem.freePages_shape shape member clean with ⟨nextFree, nextShape, _, kept⟩
        exact stepped ▸ ⟨nextFree, nextShape, kept memory noPairs, same ▸ memory⟩
      · simp only [step, if_neg member, reduceCtorEq] at stepped

/-- The lists right after the initialisation have no pair exactly when the
region fits its alignment.  If it does, no history of allocations and clean
releases makes a pair, and once everything is free again the lists are the
canonical decomposition of the region. -/
theorem run_coalesces {memory start : BuddySystem} {base n : Nat}
    (started : memory.init.initMemmap base n = some start) (inside : base + n <= memory.npage) :
    ((Exists fun free => FreeLists start.page start.links free /\ NoPairs free) <-> FitsAlignment base n) /\
      (FitsAlignment base n -> forall actions last,
        buddyMachine.Along (CleanRelease base (base + n)) ⟨start, []⟩ actions ->
          buddyMachine.run ⟨start, []⟩ actions = some last ->
            Exists fun free => FreeLists last.sys.page last.sys.links free /\ NoPairs free /\
              (last.live = [] -> listedBlocks free = canonical base (base + n) (maxOrder - 1))) := by
  have initial := BuddySystem.initMemmap_noPairs_iff started
  refine ⟨initial, fun fits actions last clean ran => ?_⟩
  have begun : BuddyHistory.Coalesced base (base + n) ⟨start, []⟩ := by
    rcases initial.mpr fits with ⟨free, lists, noPairs⟩
    rcases BuddySystem.initMemmap_shape started with ⟨other, shape, _⟩
    rw [shape.freeLists.unique lists] at shape
    exact ⟨free, shape, noPairs, BuddySystem.initMemmap_npage started ▸ inside⟩
  rcases Machine.run_invariant (fun _ _ _ => BuddyHistory.step_coalesced) begun clean ran with
    ⟨free, shape, noPairs, _⟩
  refine ⟨free, shape.freeLists, noPairs, fun returned => ?_⟩
  have tiling : Tiling (listedBlocks free) base (base + n) := by
    rw [← BuddySystem.blocksOf_listed, ← returned]
    exact shape.tiling
  exact (tiling.unpaired_iff_canonical fun block listed =>
    Nat.le_pred_of_lt (shape.freeLists.order_lt listed)).mp noPairs

/-! ## A region that fits and one that does not -/

/-- Pages 8 to 13 are listed as a block of four and a pair. -/
def sixPages : Option BuddySystem := (reservedMemory 16).init.initMemmap 8 6

theorem sixPages_isSome : sixPages.isSome = true := by decide

def sixPagesHistory : BuddyHistory := ⟨sixPages.get sixPages_isSome, []⟩

/-- The lower page of the pair is taken and given back. -/
def splitAndMerge : List BuddyAction := [.alloc 1, .free 12 1]

theorem splitAndMerge_coalesces :
    Exists fun last => buddyMachine.run sixPagesHistory splitAndMerge = some last /\
      Exists fun free => FreeLists last.sys.page last.sys.links free /\ NoPairs free /\
        listedBlocks free = canonical 8 (8 + 6) (maxOrder - 1) := by
  have clean : buddyMachine.Along (CleanRelease 8 (8 + 6)) sixPagesHistory splitAndMerge := by decide
  have returns : (buddyMachine.run sixPagesHistory splitAndMerge).isSome = true := by decide
  have returned : (buddyMachine.run sixPagesHistory splitAndMerge).map BuddyHistory.live = some [] := by decide
  rcases Option.map_eq_some_iff.mp returned with ⟨last, ran, empty⟩
  have coalesces := run_coalesces (Option.some_get sixPages_isSome).symm (by decide)
  rcases coalesces.2 (by decide) splitAndMerge last clean ran with ⟨free, lists, noPairs, decomposed⟩
  exact ⟨last, ran, free, lists, noPairs, decomposed empty⟩

/-- Pages 2 and 3 are buddies, and both are listed as single pages from the
start. -/
theorem fourPages_pairs :
    Exists fun start => fourPages = some start /\
      ¬ Exists fun free => FreeLists start.page start.links free /\ NoPairs free := by
  refine ⟨_, (Option.some_get fourPages_isSome).symm, fun unpaired => ?_⟩
  have fits : FitsAlignment 2 4 :=
    (BuddySystem.initMemmap_noPairs_iff (Option.some_get fourPages_isSome).symm).mp unpaired
  exact absurd fits (by decide)

end Memory
end Ucore
