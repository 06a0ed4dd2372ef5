import Mathlib.Data.Nat.Bitwise
import Ucore.Library.DyadicTiling

namespace Ucore
namespace Library

/-!
# The canonical tiling of an interval

Among the aligned blocks of an interval whose orders stay below a bound, those
that no larger one contains tile the interval.  They are the only tiling in
which no two buddies of an order below the bound occur together: if the buddy
of a block is missing it is cut into smaller blocks, and the smallest of these
stands next to its own buddy.
-/

namespace Block

/-- The block lies in the interval. -/
def Within (block : Block) (low high : Nat) : Prop :=
  low <= block.start /\ block.start + 2 ^ block.order <= high

/-- Two blocks share an index. -/
def Meets (first second : Block) : Prop := Exists fun index => first.Covers index /\ second.Covers index

/-- An aligned block of the interval that no larger one contains. -/
structure Maximal (low high top : Nat) (block : Block) : Prop where
  aligned : block.Aligned
  within : block.Within low high
  bounded : block.order <= top
  largest : block.order < top -> ¬ block.parent.Within low high

theorem Aligned.within {small large : Block} (smallAligned : small.Aligned) (largeAligned : large.Aligned)
    (orders : small.order <= large.order) (meets : small.Meets large) {low high : Nat}
    (inside : large.Within low high) : small.Within low high := by
  rcases meets with ⟨index, inSmall, inLarge⟩
  have nested := smallAligned.nested largeAligned orders inSmall inLarge
  exact ⟨Nat.le_trans inside.1 nested.1, Nat.le_trans nested.2 inside.2⟩

/-- Aligned blocks of one order are equal or apart. -/
theorem Aligned.eq_of_order {first second : Block} (firstAligned : first.Aligned)
    (secondAligned : second.Aligned) (orders : first.order = second.order) (meets : first.Meets second) :
    first = second := by
  rcases meets with ⟨index, inFirst, inSecond⟩
  have forward := firstAligned.nested secondAligned (Nat.le_of_eq orders) inFirst inSecond
  have backward := secondAligned.nested firstAligned (Nat.le_of_eq orders.symm) inSecond inFirst
  exact Block.ext (Nat.le_antisymm backward.1 forward.1) orders

/-- A block that a larger one meets is contained in it together with its
buddy. -/
theorem Aligned.parent_within {small large : Block} (smallAligned : small.Aligned)
    (largeAligned : large.Aligned) (orders : small.order < large.order) (meets : small.Meets large)
    {low high : Nat} (inside : large.Within low high) : small.parent.Within low high := by
  rcases meets with ⟨index, inSmall, inLarge⟩
  have parent := parent_spec smallAligned
  exact parent.1.within largeAligned orders ⟨index, (parent.2 index).mpr (.inl inSmall), inLarge⟩ inside

/-- Maximal blocks are equal or apart. -/
theorem Maximal.eq_of_meets {low high top : Nat} {first second : Block}
    (firstMaximal : first.Maximal low high top) (secondMaximal : second.Maximal low high top)
    (meets : first.Meets second) : first = second := by
  rcases Nat.lt_trichotomy first.order second.order with less | equal | greater
  · exact absurd (firstMaximal.aligned.parent_within secondMaximal.aligned less meets secondMaximal.within)
      (firstMaximal.largest (Nat.lt_of_lt_of_le less secondMaximal.bounded))
  · exact firstMaximal.aligned.eq_of_order secondMaximal.aligned equal meets
  · have swapped : second.Meets first := meets.imp fun _ both => both.symm
    exact absurd (secondMaximal.aligned.parent_within firstMaximal.aligned greater swapped firstMaximal.within)
      (secondMaximal.largest (Nat.lt_of_lt_of_le greater firstMaximal.bounded))

end Block

/-- The maximal blocks of an interval, of orders up to `top`. -/
def canonical (low high top : Nat) : Set Block := fun block => block.Maximal low high top

/-- No block of an order below `top` occurs together with its buddy. -/
def Unpaired (blocks : Set Block) (top : Nat) : Prop :=
  forall block, block ∈ blocks -> block.order < top -> block.buddy ∉ blocks

theorem Block.buddy_buddy (block : Block) : block.buddy.buddy = block :=
  Block.ext (Nat.xor_xor_cancel_right ..) rfl

theorem Block.buddy_ne_self (block : Block) : block.buddy ≠ block := by
  intro same
  have flipped : block.start ^^^ 2 ^ block.order = block.start ^^^ 0 := by
    rw [Nat.xor_zero]
    exact congrArg Block.start same
  exact Nat.ne_of_gt (Nat.two_pow_pos block.order) (Nat.xor_right_injective flipped)

theorem Unpaired.mono {blocks other : Set Block} {top : Nat} (unpaired : Unpaired blocks top)
    (fewer : other ⊆ blocks) : Unpaired other top :=
  fun block member below buddyMember => unpaired block (fewer member) below (fewer buddyMember)

/-- A block whose buddy is not there makes no pair. -/
theorem Unpaired.insert {blocks : Set Block} {top : Nat} {block : Block} (unpaired : Unpaired blocks top)
    (alone : block.order < top -> block.buddy ∉ blocks) : Unpaired (insert block blocks) top := by
  rintro other (new | old) below (buddyNew | buddyOld)
  · exact block.buddy_ne_self ((congrArg Block.buddy new).symm.trans buddyNew)
  · exact alone (new ▸ below) (new ▸ buddyOld)
  · have isBuddy : other = block.buddy := by rw [← buddyNew, Block.buddy_buddy]
    have orders : block.order = other.order := (congrArg Block.order buddyNew).symm
    exact alone (orders ▸ below) (isBuddy ▸ old)
  · exact unpaired other old below buddyOld

namespace Tiling

variable {blocks : Set Block} {low high top : Nat}

theorem within (tiling : Tiling blocks low high) {block : Block} (member : block ∈ blocks) :
    block.Within low high := by
  have positive := Nat.two_pow_pos block.order
  have first := (tiling.covers block.start).mpr ⟨block, member, block.covers_start⟩
  have last := (tiling.covers (block.start + 2 ^ block.order - 1)).mpr
    ⟨block, member, by simp only [Block.Covers]; omega⟩
  exact ⟨first.1, by omega⟩

/-- Where the tiling has no pair, an aligned block that it only refines is one
of its blocks. -/
theorem mem_of_refined (tiling : Tiling blocks low high) (unpaired : Unpaired blocks top) :
    forall (order start : Nat), (⟨start, order⟩ : Block).Aligned -> (⟨start, order⟩ : Block).Within low high ->
      order <= top ->
        (forall block, block ∈ blocks -> block.Meets ⟨start, order⟩ -> block.order <= order) ->
          (⟨start, order⟩ : Block) ∈ blocks := by
  intro order
  induction order with
  | zero =>
      intro start aligned within _ refined
      have inside : low <= start /\ start < high := by
        have size := within.2
        simp only [pow_zero] at size
        exact ⟨within.1, by omega⟩
      rcases (tiling.covers start).mp inside with ⟨block, member, covered⟩
      have meets : block.Meets ⟨start, 0⟩ := ⟨start, covered, Block.covers_start _⟩
      have same := (tiling.aligned block member).eq_of_order aligned
        (Nat.le_zero.mp (refined block member meets)) meets
      exact same ▸ member
  | succ order inductionHypothesis =>
      intro start aligned within bound refined
      by_cases whole : Exists fun block => block ∈ blocks /\ block.Meets ⟨start, order + 1⟩ /\ block.order = order + 1
      · rcases whole with ⟨block, member, meets, orders⟩
        have same := (tiling.aligned block member).eq_of_order aligned orders meets
        exact same ▸ member
      · -- All blocks that meet this one are smaller, so the tiling refines both halves.
        have doubled : 2 ^ (order + 1) = 2 ^ order + 2 ^ order := by
          rw [pow_succ]
          ring
        have halfAligned : 2 ^ order ∣ start := Nat.dvd_trans (Nat.pow_dvd_pow 2 (Nat.le_succ order)) aligned
        have positive := Nat.two_pow_pos order
        have bounds : low <= start /\ start + 2 ^ (order + 1) <= high := within
        have smaller : forall half, (forall index, (⟨half, order⟩ : Block).Covers index ->
            (⟨start, order + 1⟩ : Block).Covers index) ->
              forall block, block ∈ blocks -> block.Meets ⟨half, order⟩ -> block.order <= order := by
          intro half inside block member meets
          rcases meets with ⟨index, inBlock, inHalf⟩
          have meets : block.Meets ⟨start, order + 1⟩ := ⟨index, inBlock, inside index inHalf⟩
          have le : block.order <= order + 1 := refined block member meets
          have different : block.order ≠ order + 1 := fun equal => whole ⟨block, member, meets, equal⟩
          omega
        have lower : (⟨start, order⟩ : Block) ∈ blocks := by
          refine inductionHypothesis start halfAligned ⟨bounds.1, ?_⟩ (by omega) (smaller start ?_)
          · change start + 2 ^ order <= high
            omega
          · intro index
            simp only [Block.Covers]
            omega
        have upper : (⟨start + 2 ^ order, order⟩ : Block) ∈ blocks := by
          refine inductionHypothesis (start + 2 ^ order) (Nat.dvd_add halfAligned (Nat.dvd_refl _))
            ⟨?_, ?_⟩ (by omega) (smaller _ ?_)
          · change low <= start + 2 ^ order
            omega
          · change start + 2 ^ order + 2 ^ order <= high
            omega
          · intro index
            simp only [Block.Covers]
            omega
        have isBuddy : (⟨start, order⟩ : Block).buddy = ⟨start + 2 ^ order, order⟩ := by
          have flipped := xor_two_pow_of_dvd halfAligned
          rw [if_pos (show 2 ^ (order + 1) ∣ start from aligned)] at flipped
          exact Block.ext flipped rfl
        exact absurd (isBuddy ▸ upper) (unpaired _ lower bound)

/-- A tiling without pairs consists of maximal blocks. -/
theorem maximal_of_unpaired (tiling : Tiling blocks low high) (unpaired : Unpaired blocks top)
    (bounded : forall block, block ∈ blocks -> block.order <= top) {block : Block} (member : block ∈ blocks) :
    block.Maximal low high top := by
  have aligned := tiling.aligned block member
  refine ⟨aligned, tiling.within member, bounded block member, fun below inside => ?_⟩
  have parent := Block.parent_spec aligned
  have buddyAligned := Block.buddy_aligned aligned
  have buddyMeets : block.buddy.Meets block.parent :=
    ⟨_, Block.covers_start _, (parent.2 _).mpr (.inr (Block.covers_start _))⟩
  refine unpaired block member below (tiling.mem_of_refined unpaired block.order block.buddy.start buddyAligned
    (buddyAligned.within parent.1 (Nat.le_succ _) buddyMeets inside) (Nat.le_of_lt below) ?_)
  rintro other otherMember ⟨index, inOther, inBuddy⟩
  by_contra larger
  have nested := parent.1.nested (tiling.aligned other otherMember) (Nat.lt_of_not_le larger)
    ((parent.2 index).mpr (.inr inBuddy)) inOther
  have inParent := (parent.2 block.start).mpr (.inl block.covers_start)
  have covered : other.Covers block.start :=
    ⟨Nat.le_trans nested.1 inParent.1, Nat.lt_of_lt_of_le inParent.2 nested.2⟩
  have same := tiling.disjoint other block _ otherMember member covered block.covers_start
  exact larger (Nat.le_of_eq (congrArg Block.order same))

/-- A tiling by maximal blocks has all of them. -/
theorem eq_canonical (tiling : Tiling blocks low high)
    (maximal : forall block, block ∈ blocks -> block.Maximal low high top) : blocks = canonical low high top := by
  ext block
  constructor
  · exact maximal block
  · intro largest
    have positive := Nat.two_pow_pos block.order
    have within : low <= block.start /\ block.start + 2 ^ block.order <= high := largest.within
    have inside : low <= block.start /\ block.start < high := ⟨within.1, by omega⟩
    rcases (tiling.covers block.start).mp inside with ⟨found, member, covered⟩
    have same := largest.eq_of_meets (maximal found member) ⟨_, block.covers_start, covered⟩
    exact same ▸ member

/-- Maximal blocks do not come in pairs. -/
theorem unpaired_of_maximal (tiling : Tiling blocks low high)
    (maximal : forall block, block ∈ blocks -> block.Maximal low high top) : Unpaired blocks top := by
  intro block member below buddyMember
  have aligned := tiling.aligned block member
  have inside := tiling.within member
  have buddyInside := tiling.within buddyMember
  have doubled : 2 ^ (block.order + 1) = 2 ^ block.order + 2 ^ block.order := by
    rw [pow_succ]
    ring
  refine (maximal block member).largest below ?_
  have bounds : low <= block.start /\ block.start + 2 ^ block.order <= high := inside
  have buddyBounds : low <= block.buddy.start /\ block.buddy.start + 2 ^ block.order <= high := buddyInside
  change low <= min block.start block.buddy.start /\ min block.start block.buddy.start + 2 ^ (block.order + 1) <= high
  rcases Block.buddy_start aligned with ⟨_, equal⟩ | ⟨_, _, equal⟩
  · omega
  · omega

/-- The canonical tiling is the only one without pairs. -/
theorem unpaired_iff_canonical (tiling : Tiling blocks low high)
    (bounded : forall block, block ∈ blocks -> block.order <= top) :
    Unpaired blocks top <-> blocks = canonical low high top := by
  constructor
  · exact fun unpaired => tiling.eq_canonical fun _ => tiling.maximal_of_unpaired unpaired bounded
  · intro same
    exact tiling.unpaired_of_maximal fun block member => by
      rw [same] at member
      exact member

end Tiling

end Library
end Ucore
