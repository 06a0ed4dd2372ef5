import Mathlib.Order.Interval.Finset.Nat

namespace Ucore
namespace Library

/-!
# Tilings by blocks

Blocks of given widths *tile* a set of addresses when each address of the set
lies in exactly one of them.  Blocks are split, merged with the block after
them, and added on new addresses.
-/

/-- `size` addresses from `start` on. -/
structure Span where
  start : Nat
  size : Nat
deriving DecidableEq, Repr

namespace Span

def Apart (first second : Span) : Prop :=
  first.start + first.size <= second.start \/ second.start + second.size <= first.start

instance (first second : Span) : Decidable (Apart first second) := inferInstanceAs (Decidable (_ \/ _))

theorem Apart.symm {first second : Span} (apart : Apart first second) : Apart second first := Or.symm apart

theorem Apart.within {first second other : Span} (apart : Apart first second) (low : first.start <= other.start)
    (high : other.start + other.size <= first.start + first.size) : Apart other second := by
  unfold Apart at *
  omega

end Span

/-- The blocks that start at these addresses tile `owned`. -/
structure BlockTiling (width : Nat -> Nat) (blocks owned : Finset Nat) : Prop where
  positive : forall block, block ∈ blocks -> 0 < width block
  apart : forall block other, block ∈ blocks -> other ∈ blocks -> block < other -> block + width block <= other
  exact : forall address, address ∈ owned <-> Exists fun block =>
    block ∈ blocks /\ block <= address /\ address < block + width block

namespace BlockTiling

variable {width other : Nat -> Nat} {blocks owned : Finset Nat} {block neighbour size : Nat}

theorem congr (tiling : BlockTiling width blocks owned)
    (same : forall block, block ∈ blocks -> other block = width block) :
    BlockTiling other blocks owned where
  positive := fun _ member => by
    rw [same _ member]
    exact tiling.positive _ member
  apart := fun _ _ member found below => by
    rw [same _ member]
    exact tiling.apart _ _ member found below
  exact := fun address => by
    rw [tiling.exact]
    constructor
    · rintro ⟨block, member, low, high⟩
      exact ⟨block, member, low, (same block member).symm ▸ high⟩
    · rintro ⟨block, member, low, high⟩
      exact ⟨block, member, low, same block member ▸ high⟩

/-- Two blocks do not share an address. -/
theorem unique (tiling : BlockTiling width blocks owned) {first second address : Nat} (member : first ∈ blocks)
    (found : second ∈ blocks) (low : first <= address) (high : address < first + width first)
    (lower : second <= address) (higher : address < second + width second) : first = second := by
  rcases Nat.lt_trichotomy first second with below | same | above
  · have apart := tiling.apart _ _ member found below
    omega
  · exact same
  · have apart := tiling.apart _ _ found member above
    omega

/-- A block owns the address it starts at. -/
theorem subset (tiling : BlockTiling width blocks owned) : blocks ⊆ owned := fun block member =>
  (tiling.exact block).mpr ⟨block, member, Nat.le_refl _, Nat.lt_add_of_pos_right (tiling.positive _ member)⟩

/-- A span with no address of the tiled set is apart from every block. -/
theorem apart_of_outside (tiling : BlockTiling width blocks owned) {span : Span} (positive : 0 < span.size)
    (outside : forall address, address ∈ owned -> ¬ (span.start <= address /\ address < span.start + span.size))
    (member : block ∈ blocks) : Span.Apart ⟨block, width block⟩ span := by
  have wide := tiling.positive _ member
  unfold Span.Apart
  dsimp only
  by_contra meets
  have shared := (tiling.exact (max block span.start)).mpr ⟨block, member, by omega, by omega⟩
  exact outside _ shared (by omega)

theorem split (tiling : BlockTiling width blocks owned) (member : block ∈ blocks) (positive : 0 < size)
    (less : size < width block) (front : other block = size) (back : other (block + size) = width block - size)
    (same : forall entry, entry ∈ blocks -> entry ≠ block -> other entry = width entry) :
    BlockTiling other (insert (block + size) blocks) owned where
  positive := fun entry found => by
    rcases Finset.mem_insert.mp found with new | old
    · rw [new, back]
      omega
    · by_cases here : entry = block
      · rwa [here, front]
      · rw [same entry old here]
        exact tiling.positive _ old
  apart := fun entry another found present below => by
    have before := tiling.apart entry block
    have after := tiling.apart block another member
    have beyond := tiling.apart block entry member
    have between := tiling.apart entry another
    have agree := same entry
    have wide := tiling.positive entry
    grind
  exact := fun address => by
    rw [tiling.exact]
    constructor
    · rintro ⟨entry, found, low, high⟩
      by_cases here : entry = block
      · by_cases early : address < block + size
        · exact ⟨block, Finset.mem_insert_of_mem member, here ▸ low, front.symm ▸ early⟩
        · refine ⟨block + size, Finset.mem_insert_self _ _, by omega, ?_⟩
          rw [here] at high
          omega
      · exact ⟨entry, Finset.mem_insert_of_mem found, low, (same entry found here).symm ▸ high⟩
    · rintro ⟨entry, found, low, high⟩
      rcases Finset.mem_insert.mp found with new | old
      · refine ⟨block, member, by omega, ?_⟩
        rw [new, back] at high
        omega
      · by_cases here : entry = block
        · refine ⟨block, member, here ▸ low, ?_⟩
          rw [here, front] at high
          omega
        · exact ⟨entry, old, low, same entry old here ▸ high⟩

/-- A block and the one it ends at become one. -/
theorem merge (other : Nat -> Nat) (tiling : BlockTiling width blocks owned) (member : block ∈ blocks)
    (contiguous : block + width block ∈ blocks)
    (joined : other block = width block + width (block + width block))
    (same : forall entry, entry ∈ blocks -> entry ≠ block -> entry ≠ block + width block ->
      other entry = width entry) :
    BlockTiling other (blocks.erase (block + width block)) owned where
  positive := fun entry found => by
    have wide := tiling.positive _ (Finset.mem_of_mem_erase found)
    have agree := same entry
    have first := tiling.positive _ member
    grind
  apart := fun entry another found present below => by
    have between := tiling.apart entry another
    have first := tiling.apart block another member
    have second := tiling.apart (block + width block) another contiguous
    have agree := same entry
    grind
  exact := fun address => by
    have first := tiling.positive _ member
    rw [tiling.exact]
    constructor
    · rintro ⟨entry, found, low, high⟩
      by_cases here : entry = block
      · refine ⟨block, Finset.mem_erase.mpr ⟨by omega, member⟩, here ▸ low, ?_⟩
        rw [here] at high
        omega
      · by_cases there : entry = block + width block
        · refine ⟨block, Finset.mem_erase.mpr ⟨by omega, member⟩, by omega, ?_⟩
          rw [there] at high
          omega
        · exact ⟨entry, Finset.mem_erase.mpr ⟨there, found⟩, low, (same entry found here there).symm ▸ high⟩
    · rintro ⟨entry, found, low, high⟩
      rcases Finset.mem_erase.mp found with ⟨there, old⟩
      by_cases here : entry = block
      · rw [here, joined] at high
        by_cases early : address < block + width block
        · exact ⟨block, member, here ▸ low, early⟩
        · exact ⟨block + width block, contiguous, by omega, by omega⟩
      · exact ⟨entry, old, low, same entry old here there ▸ high⟩

/-- A block is added on addresses not yet owned. -/
theorem extend (tiling : BlockTiling width blocks owned) (positive : 0 < size)
    (fresh : Disjoint owned (Finset.Ico block (block + size))) (wide : other block = size)
    (same : forall entry, entry ∈ blocks -> other entry = width entry) :
    BlockTiling other (insert block blocks) (owned ∪ Finset.Ico block (block + size)) := by
  have outside : forall address, address ∈ owned -> ¬ (block <= address /\ address < block + size) :=
    fun address found inside => Finset.disjoint_left.mp fresh found (Finset.mem_Ico.mpr inside)
  have absent : block ∉ blocks := fun found =>
    outside block (tiling.subset found) ⟨Nat.le_refl _, Nat.lt_add_of_pos_right positive⟩
  constructor
  · intro entry found
    rcases Finset.mem_insert.mp found with new | old
    · rwa [new, wide]
    · rw [same entry old]
      exact tiling.positive _ old
  · intro entry another found present below
    rcases Finset.mem_insert.mp found with new | old <;> rcases Finset.mem_insert.mp present with newer | older
    · omega
    · rw [new, wide]
      have owns := outside another (tiling.subset older)
      omega
    · rw [same entry old, newer]
      by_contra overlap
      have covered := (tiling.exact block).mpr ⟨entry, old, by omega, by omega⟩
      exact outside block covered ⟨Nat.le_refl _, Nat.lt_add_of_pos_right positive⟩
    · rw [same entry old]
      exact tiling.apart _ _ old older below
  · intro address
    rw [Finset.mem_union, tiling.exact, Finset.mem_Ico]
    constructor
    · rintro (⟨entry, found, low, high⟩ | inside)
      · exact ⟨entry, Finset.mem_insert_of_mem found, low, (same entry found).symm ▸ high⟩
      · exact ⟨block, Finset.mem_insert_self _ _, inside.1, wide.symm ▸ inside.2⟩
    · rintro ⟨entry, found, low, high⟩
      rcases Finset.mem_insert.mp found with new | old
      · rw [new, wide] at high
        exact .inr ⟨new ▸ low, high⟩
      · exact .inl ⟨entry, old, low, same entry old ▸ high⟩

end BlockTiling

end Library
end Ucore
