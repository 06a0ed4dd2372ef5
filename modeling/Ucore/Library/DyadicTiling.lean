import Mathlib.Data.Set.Insert
import Mathlib.Tactic.Ring

namespace Ucore
namespace Library

/-!
# Tilings of an interval by aligned blocks of power-of-two size

A block of order `k` covers `2 ^ k` consecutive indices and is aligned when
it starts at a multiple of its size.  Aligned blocks are nested or disjoint,
so the buddy of a block, found by flipping one bit of its start, is the first
index of a block of the tiling that is not larger, unless it lies outside the
tiled interval.  Splitting a block into two buddies and joining two buddies
keep a tiling.
-/

/-- A run of `2 ^ order` indices from `start`. -/
@[ext] structure Block where
  start : Nat
  order : Nat
deriving DecidableEq, Repr

namespace Block

/-- The index lies in the block. -/
def Covers (block : Block) (index : Nat) : Prop :=
  block.start <= index /\ index < block.start + 2 ^ block.order

instance (block : Block) (index : Nat) : Decidable (block.Covers index) :=
  inferInstanceAs (Decidable (_ /\ _))

/-- The block starts at a multiple of its size. -/
def Aligned (block : Block) : Prop := 2 ^ block.order ∣ block.start

theorem covers_start (block : Block) : block.Covers block.start :=
  ⟨Nat.le_refl _, Nat.lt_add_of_pos_right (Nat.two_pow_pos _)⟩

/-- Aligned blocks that share an index are nested. -/
theorem Aligned.nested {small large : Block} (smallAligned : small.Aligned)
    (largeAligned : large.Aligned) (orders : small.order <= large.order) {index : Nat}
    (inSmall : small.Covers index) (inLarge : large.Covers index) :
    large.start <= small.start /\
      small.start + 2 ^ small.order <= large.start + 2 ^ large.order := by
  rcases smallAligned with ⟨smallSlot, smallEq⟩
  rcases largeAligned with ⟨largeSlot, largeEq⟩
  rcases Nat.exists_eq_add_of_le orders with ⟨extra, extraEq⟩
  have sizes : 2 ^ large.order = 2 ^ small.order * 2 ^ extra := by rw [extraEq, pow_add]
  have positive := Nat.two_pow_pos small.order
  have lower : small.start < large.start + 2 ^ large.order := Nat.lt_of_le_of_lt inSmall.1 inLarge.2
  have upper : large.start < small.start + 2 ^ small.order := Nat.lt_of_le_of_lt inLarge.1 inSmall.2
  have largeMultiple : large.start = 2 ^ small.order * (2 ^ extra * largeSlot) := by
    rw [largeEq, sizes]
    ring
  have endMultiple : large.start + 2 ^ large.order =
      2 ^ small.order * (2 ^ extra * largeSlot + 2 ^ extra) := by
    rw [largeMultiple, sizes]
    ring
  rw [smallEq, endMultiple] at lower
  have slotLower := Nat.lt_of_mul_lt_mul_left lower
  have endEq : small.start + 2 ^ small.order = 2 ^ small.order * (smallSlot + 1) := by
    rw [smallEq]
    ring
  rw [endEq, largeMultiple] at upper
  have slotUpper := Nat.lt_of_mul_lt_mul_left upper
  constructor
  · rw [smallEq, largeMultiple]
    exact Nat.mul_le_mul_left _ (Nat.le_of_lt_succ slotUpper)
  · rw [endEq, endMultiple]
    exact Nat.mul_le_mul_left _ slotLower

/-- An aligned block that covers a multiple of its size starts there. -/
theorem Aligned.start_of_covers {small large : Block} (smallAligned : small.Aligned)
    (largeAligned : large.Aligned) (orders : small.order <= large.order)
    (inSmall : small.Covers large.start) : small.start = large.start := by
  have nested := smallAligned.nested largeAligned orders inSmall large.covers_start
  exact Nat.le_antisymm inSmall.1 nested.1

end Block

/-! ## Buddies -/

/-- Flipping bit `order` of a multiple of `2 ^ order` moves to the other half
of the enclosing block of the next order. -/
theorem xor_two_pow_of_dvd {start order : Nat} (aligned : 2 ^ order ∣ start) :
    start ^^^ 2 ^ order = if 2 ^ (order + 1) ∣ start then start + 2 ^ order else start - 2 ^ order := by
  rcases aligned with ⟨slot, slotEq⟩
  have shifted : start ^^^ 2 ^ order = 2 ^ order * (slot ^^^ 1) := by
    have shift := Nat.shiftLeft_xor_distrib (a := slot) (b := 1) (i := order)
    rw [Nat.shiftLeft_eq, Nat.shiftLeft_eq, Nat.shiftLeft_eq, Nat.one_mul] at shift
    rw [slotEq, Nat.mul_comm, ← shift, Nat.mul_comm]
  have positive := Nat.two_pow_pos order
  have divides : 2 ^ (order + 1) ∣ start <-> slot % 2 = 0 := by
    rw [slotEq, pow_succ, Nat.mul_dvd_mul_iff_left positive]
    exact Nat.dvd_iff_mod_eq_zero
  have flipped : slot ^^^ 1 = if slot % 2 = 0 then slot + 1 else slot - 1 := by
    have high := Nat.xor_div_two (a := slot) (b := 1)
    have low := Nat.xor_mod_two_eq_one (a := slot) (b := 1)
    simp only [Nat.reduceDiv, Nat.xor_zero] at high
    split <;> omega
  rw [shifted, flipped]
  by_cases even : slot % 2 = 0
  · rw [if_pos even, if_pos (divides.mpr even), slotEq]
    ring
  · rw [if_neg even, if_neg (fun held => even (divides.mp held)), slotEq, Nat.mul_sub, Nat.mul_one]

namespace Block

/-- The other half of the enclosing block of the next order. -/
def buddy (block : Block) : Block where
  start := block.start ^^^ 2 ^ block.order
  order := block.order

/-- The block made of two buddies. -/
def parent (block : Block) : Block where
  start := min block.start block.buddy.start
  order := block.order + 1

theorem buddy_start {block : Block} (aligned : block.Aligned) :
    (2 ^ (block.order + 1) ∣ block.start /\ block.buddy.start = block.start + 2 ^ block.order) \/
      (¬ 2 ^ (block.order + 1) ∣ block.start /\ 2 ^ block.order <= block.start /\
        block.buddy.start = block.start - 2 ^ block.order) := by
  have flipped := xor_two_pow_of_dvd aligned
  by_cases lower : 2 ^ (block.order + 1) ∣ block.start
  · rw [if_pos lower] at flipped
    exact .inl ⟨lower, flipped⟩
  · rw [if_neg lower] at flipped
    have nonzero : block.start ≠ 0 := fun zero => lower (zero ▸ Nat.dvd_zero _)
    exact .inr ⟨lower, Nat.le_of_dvd (Nat.pos_of_ne_zero nonzero) aligned, flipped⟩

theorem buddy_ne {block : Block} (aligned : block.Aligned) : block.buddy.start ≠ block.start := by
  have positive := Nat.two_pow_pos block.order
  rcases buddy_start aligned with ⟨_, equal⟩ | ⟨_, bound, equal⟩ <;> omega

theorem buddy_aligned {block : Block} (aligned : block.Aligned) : block.buddy.Aligned := by
  rcases buddy_start aligned with ⟨_, equal⟩ | ⟨_, _, equal⟩
  · change 2 ^ block.order ∣ block.buddy.start
    rw [equal]
    exact Nat.dvd_add aligned (Nat.dvd_refl _)
  · change 2 ^ block.order ∣ block.buddy.start
    rw [equal]
    exact Nat.dvd_sub aligned (Nat.dvd_refl _)

/-- The parent is aligned and covers exactly what the two buddies cover. -/
theorem parent_spec {block : Block} (aligned : block.Aligned) :
    block.parent.Aligned /\
      forall index, block.parent.Covers index <-> block.Covers index \/ block.buddy.Covers index := by
  have doubled : 2 ^ (block.order + 1) = 2 ^ block.order + 2 ^ block.order := by
    rw [pow_succ]
    ring
  have buddyOrder : block.buddy.order = block.order := rfl
  rcases buddy_start aligned with ⟨lower, equal⟩ | ⟨upper, bound, equal⟩
  · have start : block.parent.start = block.start := by
      change min block.start block.buddy.start = block.start
      omega
    refine ⟨?_, fun index => ?_⟩
    · change 2 ^ (block.order + 1) ∣ block.parent.start
      rw [start]
      exact lower
    · change block.parent.start <= index /\ index < block.parent.start + 2 ^ (block.order + 1) <-> _
      simp only [Covers, start, equal, buddyOrder]
      omega
  · have start : block.parent.start = block.start - 2 ^ block.order := by
      change min block.start block.buddy.start = _
      omega
    refine ⟨?_, fun index => ?_⟩
    · rcases aligned with ⟨slot, slotEq⟩
      change 2 ^ (block.order + 1) ∣ block.parent.start
      have odd : slot % 2 = 1 := by
        by_contra even
        apply upper
        rw [slotEq, pow_succ]
        exact Nat.mul_dvd_mul_left _ (Nat.dvd_of_mod_eq_zero (by omega))
      rw [start, slotEq, pow_succ, ← Nat.mul_sub_one]
      exact Nat.mul_dvd_mul_left _ (Nat.dvd_of_mod_eq_zero (by omega))
    · change block.parent.start <= index /\ index < block.parent.start + 2 ^ (block.order + 1) <-> _
      simp only [Covers, start, equal, buddyOrder]
      omega

end Block

/-! ## Packings -/

/-- Aligned blocks of which no two share an index.  Unlike a tiling, they may
leave gaps. -/
structure Packing (blocks : Set Block) : Prop where
  aligned : forall block, block ∈ blocks -> block.Aligned
  disjoint : forall first second index, first ∈ blocks -> second ∈ blocks ->
    first.Covers index -> second.Covers index -> first = second

namespace Packing

variable {blocks other : Set Block}

theorem mono (packing : Packing blocks) (fewer : other ⊆ blocks) : Packing other where
  aligned := fun block member => packing.aligned block (fewer member)
  disjoint := fun first second index firstMember secondMember =>
    packing.disjoint first second index (fewer firstMember) (fewer secondMember)

/-- A block apart from the others may be replaced by its two halves. -/
theorem halve {start order : Nat} (packing : Packing (insert ⟨start, order + 1⟩ blocks))
    (fresh : (⟨start, order + 1⟩ : Block) ∉ blocks) :
    Packing (insert ⟨start, order⟩ (insert ⟨start + 2 ^ order, order⟩ blocks)) := by
  have whole := Set.mem_insert (⟨start, order + 1⟩ : Block) blocks
  have aligned : 2 ^ (order + 1) ∣ start := packing.aligned _ whole
  have halfAligned : 2 ^ order ∣ start := Nat.dvd_trans (Nat.pow_dvd_pow 2 (Nat.le_succ order)) aligned
  have doubled : 2 ^ (order + 1) = 2 ^ order + 2 ^ order := by
    rw [pow_succ]
    ring
  have positive := Nat.two_pow_pos order
  have lowerInside : forall index, (⟨start, order⟩ : Block).Covers index ->
      (⟨start, order + 1⟩ : Block).Covers index := by
    intro index
    simp only [Block.Covers]
    omega
  have upperInside : forall index, (⟨start + 2 ^ order, order⟩ : Block).Covers index ->
      (⟨start, order + 1⟩ : Block).Covers index := by
    intro index
    simp only [Block.Covers]
    omega
  have halvesApart : forall index, (⟨start, order⟩ : Block).Covers index ->
      ¬ (⟨start + 2 ^ order, order⟩ : Block).Covers index := by
    intro index
    simp only [Block.Covers]
    omega
  have apart : forall candidate index, candidate ∈ blocks -> candidate.Covers index ->
      ¬ (⟨start, order + 1⟩ : Block).Covers index := by
    intro candidate index found covered inside
    have same := packing.disjoint candidate _ index (Set.mem_insert_of_mem _ found) whole covered inside
    exact fresh (same ▸ found)
  constructor
  · rintro block (lower | upper | old)
    · exact lower ▸ halfAligned
    · exact upper ▸ Nat.dvd_add halfAligned (Nat.dvd_refl _)
    · exact packing.aligned block (Set.mem_insert_of_mem _ old)
  · rintro first second index (firstLower | firstUpper | firstOld) (secondLower | secondUpper | secondOld)
      firstCovers secondCovers
    · exact firstLower.trans secondLower.symm
    · exact absurd (secondUpper ▸ secondCovers) (halvesApart index (firstLower ▸ firstCovers))
    · exact absurd (lowerInside index (firstLower ▸ firstCovers)) (apart second index secondOld secondCovers)
    · exact absurd (firstUpper ▸ firstCovers) (halvesApart index (secondLower ▸ secondCovers))
    · exact firstUpper.trans secondUpper.symm
    · exact absurd (upperInside index (firstUpper ▸ firstCovers)) (apart second index secondOld secondCovers)
    · exact absurd (lowerInside index (secondLower ▸ secondCovers)) (apart first index firstOld firstCovers)
    · exact absurd (upperInside index (secondUpper ▸ secondCovers)) (apart first index firstOld firstCovers)
    · exact packing.disjoint first second index (Set.mem_insert_of_mem _ firstOld)
        (Set.mem_insert_of_mem _ secondOld) firstCovers secondCovers

end Packing

/-! ## Tilings -/

/-- Aligned blocks that cover each index of the interval exactly once and no
other index. -/
structure Tiling (blocks : Set Block) (low high : Nat) : Prop where
  aligned : forall block, block ∈ blocks -> block.Aligned
  disjoint : forall first second index, first ∈ blocks -> second ∈ blocks ->
    first.Covers index -> second.Covers index -> first = second
  covers : forall index, (low <= index /\ index < high) <->
    Exists fun block => block ∈ blocks /\ block.Covers index

namespace Tiling

variable {blocks other : Set Block} {low high : Nat}

theorem empty (index : Nat) : Tiling ∅ index index where
  aligned := fun block member => member.elim
  disjoint := fun first _ _ member => member.elim
  covers := by
    intro other
    constructor
    · omega
    · rintro ⟨block, member, _⟩
      exact member.elim

/-- A block appended at the end of the interval. -/
theorem append (tiling : Tiling blocks low high) (bounds : low <= high) {order : Nat}
    (aligned : 2 ^ order ∣ high)
    (same : forall block, block ∈ other <-> block ∈ blocks \/ block = ⟨high, order⟩) :
    Tiling other low (high + 2 ^ order) := by
  have below : forall block index, block ∈ blocks -> block.Covers index -> index < high :=
    fun block index member covered => ((tiling.covers index).mpr ⟨block, member, covered⟩).2
  have positive := Nat.two_pow_pos order
  refine ⟨?_, ?_, ?_⟩
  · intro block member
    rcases (same block).mp member with old | new
    · exact tiling.aligned block old
    · exact new ▸ aligned
  · intro first second index firstMember secondMember firstCovers secondCovers
    rcases (same first).mp firstMember with firstOld | firstNew <;>
      rcases (same second).mp secondMember with secondOld | secondNew
    · exact tiling.disjoint first second index firstOld secondOld firstCovers secondCovers
    · have inside := below first index firstOld firstCovers
      subst secondNew
      exact absurd secondCovers.1 (Nat.not_le_of_lt inside)
    · have inside := below second index secondOld secondCovers
      subst firstNew
      exact absurd firstCovers.1 (Nat.not_le_of_lt inside)
    · exact firstNew.trans secondNew.symm
  · intro index
    constructor
    · rintro ⟨above, bounded⟩
      by_cases old : index < high
      · rcases (tiling.covers index).mp ⟨above, old⟩ with ⟨block, member, covered⟩
        exact ⟨block, (same block).mpr (.inl member), covered⟩
      · exact ⟨⟨high, order⟩, (same _).mpr (.inr rfl), Nat.le_of_not_lt old, bounded⟩
    · rintro ⟨block, member, covered⟩
      rcases (same block).mp member with old | new
      · have inside := (tiling.covers index).mpr ⟨block, old, covered⟩
        omega
      · subst new
        have lower := covered.1
        have upper := covered.2
        simp only at lower upper
        omega

/-- Two buddies of a tiling may be replaced by their parent. -/
theorem join (tiling : Tiling blocks low high) {block : Block} (member : block ∈ blocks)
    (buddyMember : block.buddy ∈ blocks)
    (same : forall candidate, candidate ∈ other <->
      (candidate ∈ blocks /\ candidate ≠ block /\ candidate ≠ block.buddy) \/ candidate = block.parent) :
    Tiling other low high := by
  have aligned := tiling.aligned block member
  have parent := Block.parent_spec aligned
  refine ⟨?_, ?_, ?_⟩
  · intro candidate found
    rcases (same candidate).mp found with old | new
    · exact tiling.aligned candidate old.1
    · exact new ▸ parent.1
  · have apart : forall candidate index, candidate ∈ blocks -> candidate ≠ block ->
        candidate ≠ block.buddy -> candidate.Covers index -> ¬ block.parent.Covers index := by
      intro candidate index found notBlock notBuddy covered inParent
      rcases (parent.2 index).mp inParent with inBlock | inBuddy
      · exact notBlock (tiling.disjoint candidate block index found member covered inBlock)
      · exact notBuddy (tiling.disjoint candidate block.buddy index found buddyMember covered inBuddy)
    intro first second index firstMember secondMember firstCovers secondCovers
    rcases (same first).mp firstMember with firstOld | firstNew <;>
      rcases (same second).mp secondMember with secondOld | secondNew
    · exact tiling.disjoint first second index firstOld.1 secondOld.1 firstCovers secondCovers
    · exact absurd (secondNew ▸ secondCovers)
        (apart first index firstOld.1 firstOld.2.1 firstOld.2.2 firstCovers)
    · exact absurd (firstNew ▸ firstCovers)
        (apart second index secondOld.1 secondOld.2.1 secondOld.2.2 secondCovers)
    · exact firstNew.trans secondNew.symm
  · intro index
    rw [tiling.covers index]
    constructor
    · rintro ⟨candidate, found, covered⟩
      by_cases isBlock : candidate = block
      · exact ⟨block.parent, (same _).mpr (.inr rfl), (parent.2 index).mpr (.inl (isBlock ▸ covered))⟩
      · by_cases isBuddy : candidate = block.buddy
        · exact ⟨block.parent, (same _).mpr (.inr rfl), (parent.2 index).mpr (.inr (isBuddy ▸ covered))⟩
        · exact ⟨candidate, (same _).mpr (.inl ⟨found, isBlock, isBuddy⟩), covered⟩
    · rintro ⟨candidate, found, covered⟩
      rcases (same candidate).mp found with old | new
      · exact ⟨candidate, old.1, covered⟩
      · rcases (parent.2 index).mp (new ▸ covered) with inBlock | inBuddy
        · exact ⟨block, member, inBlock⟩
        · exact ⟨block.buddy, buddyMember, inBuddy⟩

/-- A block of a tiling may be replaced by its two halves. -/
theorem split (tiling : Tiling blocks low high) {start order : Nat}
    (member : (⟨start, order + 1⟩ : Block) ∈ blocks)
    (same : forall candidate, candidate ∈ other <->
      (candidate ∈ blocks /\ candidate ≠ ⟨start, order + 1⟩) \/
        candidate = ⟨start, order⟩ \/ candidate = ⟨start + 2 ^ order, order⟩) :
    Tiling other low high := by
  have aligned : 2 ^ (order + 1) ∣ start := tiling.aligned _ member
  have halfAligned : 2 ^ order ∣ start := Nat.dvd_trans (Nat.pow_dvd_pow 2 (Nat.le_succ order)) aligned
  have doubled : 2 ^ (order + 1) = 2 ^ order + 2 ^ order := by
    rw [pow_succ]
    ring
  have halves : forall index, (⟨start, order + 1⟩ : Block).Covers index <->
      (⟨start, order⟩ : Block).Covers index \/ (⟨start + 2 ^ order, order⟩ : Block).Covers index := by
    intro index
    simp only [Block.Covers]
    omega
  have positive := Nat.two_pow_pos order
  have halvesApart : forall index, (⟨start, order⟩ : Block).Covers index ->
      ¬ (⟨start + 2 ^ order, order⟩ : Block).Covers index := by
    intro index
    simp only [Block.Covers]
    omega
  have apart : forall candidate index, candidate ∈ blocks -> candidate ≠ ⟨start, order + 1⟩ ->
      candidate.Covers index -> ¬ (⟨start, order + 1⟩ : Block).Covers index :=
    fun candidate index found different covered inside =>
      different (tiling.disjoint candidate _ index found member covered inside)
  refine ⟨?_, ?_, ?_⟩
  · intro candidate found
    rcases (same candidate).mp found with old | new | new
    · exact tiling.aligned candidate old.1
    · exact new ▸ halfAligned
    · exact new ▸ Nat.dvd_add halfAligned (Nat.dvd_refl _)
  · intro first second index firstMember secondMember firstCovers secondCovers
    rcases (same first).mp firstMember with firstOld | firstNew | firstNew <;>
      rcases (same second).mp secondMember with secondOld | secondNew | secondNew
    · exact tiling.disjoint first second index firstOld.1 secondOld.1 firstCovers secondCovers
    · exact absurd ((halves index).mpr (.inl (secondNew ▸ secondCovers)))
        (apart first index firstOld.1 firstOld.2 firstCovers)
    · exact absurd ((halves index).mpr (.inr (secondNew ▸ secondCovers)))
        (apart first index firstOld.1 firstOld.2 firstCovers)
    · exact absurd ((halves index).mpr (.inl (firstNew ▸ firstCovers)))
        (apart second index secondOld.1 secondOld.2 secondCovers)
    · exact firstNew.trans secondNew.symm
    · exact absurd (secondNew ▸ secondCovers) (halvesApart index (firstNew ▸ firstCovers))
    · exact absurd ((halves index).mpr (.inr (firstNew ▸ firstCovers)))
        (apart second index secondOld.1 secondOld.2 secondCovers)
    · exact absurd (firstNew ▸ firstCovers) (halvesApart index (secondNew ▸ secondCovers))
    · exact firstNew.trans secondNew.symm
  · intro index
    rw [tiling.covers index]
    constructor
    · rintro ⟨candidate, found, covered⟩
      by_cases isBlock : candidate = ⟨start, order + 1⟩
      · rcases (halves index).mp (isBlock ▸ covered) with lower | upper
        · exact ⟨_, (same _).mpr (.inr (.inl rfl)), lower⟩
        · exact ⟨_, (same _).mpr (.inr (.inr rfl)), upper⟩
      · exact ⟨candidate, (same _).mpr (.inl ⟨found, isBlock⟩), covered⟩
    · rintro ⟨candidate, found, covered⟩
      rcases (same candidate).mp found with old | new | new
      · exact ⟨candidate, old.1, covered⟩
      · exact ⟨_, member, (halves index).mpr (.inl (new ▸ covered))⟩
      · exact ⟨_, member, (halves index).mpr (.inr (new ▸ covered))⟩

/-- The buddy of a block of the tiling is the first index of a block that is
not larger, if the tiling reaches it at all. -/
theorem buddy_is_start (tiling : Tiling blocks low high) {block : Block} (member : block ∈ blocks)
    (inside : low <= block.buddy.start /\ block.buddy.start < high) :
    Exists fun order => (⟨block.buddy.start, order⟩ : Block) ∈ blocks /\ order <= block.order := by
  have aligned := tiling.aligned block member
  rcases (tiling.covers _).mp inside with ⟨found, foundMember, covered⟩
  by_cases orders : found.order <= block.order
  · have start := (tiling.aligned found foundMember).start_of_covers
      (Block.buddy_aligned aligned) orders covered
    exact ⟨found.order, start ▸ foundMember, orders⟩
  · have parent := Block.parent_spec aligned
    have covered' : block.parent.Covers block.buddy.start :=
      (parent.2 _).mpr (.inr block.buddy.covers_start)
    have nested := parent.1.nested (tiling.aligned found foundMember)
      (Nat.lt_of_not_le orders) covered' covered
    have startCovered := (parent.2 block.start).mpr (.inl block.covers_start)
    have inFound : found.Covers block.start :=
      ⟨Nat.le_trans nested.1 startCovered.1, Nat.lt_of_lt_of_le startCovered.2 nested.2⟩
    have equal := tiling.disjoint found block _ foundMember member inFound block.covers_start
    exact absurd (Nat.le_of_eq (congrArg Block.order equal)) orders

theorem packing (tiling : Tiling blocks low high) : Packing blocks := ⟨tiling.aligned, tiling.disjoint⟩

end Tiling

end Library
end Ucore
