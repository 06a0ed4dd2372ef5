import Mathlib.Data.Nat.Log
import Ucore.Memory.BuddyLists

namespace Ucore
namespace Memory

open Library

/-!
# The shape of the buddy lists

The invariant ties together the rings, the descriptor marks and the tiling
of the region.  A block in a caller's hands is *live*; a block that one of
the loops has taken off a list and not yet put back is *in hand*.  Linking
and unlinking move a block between the lists and the hand and leave the set
of blocks alone; only splitting and joining blocks in hand change it.
-/

/-- The block a caller holds after a request. -/
def liveBlock (entry : Nat × Nat) : Block := ⟨entry.1, Nat.clog 2 entry.2⟩

/-- The listed, the live and the blocks in hand. -/
def blocksOf (free : Nat -> List Nat) (live : List (Nat × Nat)) (hand : Set Block) : Set Block :=
  fun block => block.start ∈ free block.order \/ block ∈ live.map liveBlock \/ block ∈ hand

/-- `free order` are the descriptors on the list of an order, first to last. -/
structure BuddyShape (page : Nat -> Page) (links : Links (ListNode Nat)) (low high : Nat)
    (free : Nat -> List Nat) (live : List (Nat × Nat)) (hand : Set Block) : Prop where
  rings : forall order, order < maxOrder -> links.Ring (.head order) ((free order).map .page)
  bounded : forall order, maxOrder <= order -> free order = []
  marked : forall order start, start ∈ free order ->
    pageProperty (page start) = true /\ (page start).property = 2 ^ order
  unmarked : forall entry, entry ∈ live -> pageProperty (page entry.1) = false
  held : (live.map Prod.fst).Nodup
  fits : forall entry, entry ∈ live -> Nat.clog 2 entry.2 < maxOrder
  handUnlisted : forall block order, block ∈ hand -> block.start ∉ free order
  handUnheld : forall block, block ∈ hand -> block.start ∉ live.map Prod.fst
  tiling : Tiling (blocksOf free live hand) low high

namespace BuddyShape

variable {page : Nat -> Page} {links : Links (ListNode Nat)} {low high : Nat}
  {free : Nat -> List Nat} {live : List (Nat × Nat)} {hand : Set Block}

/-- The lists of a partitioned region. -/
theorem freeLists (shape : BuddyShape page links low high free live hand) : FreeLists page links free where
  rings := shape.rings
  bounded := shape.bounded
  marked := shape.marked
  packed := shape.tiling.packing.mono fun _ listed => .inl listed

theorem order_eq (shape : BuddyShape page links low high free live hand) {start first second : Nat}
    (inFirst : start ∈ free first) (inSecond : start ∈ free second) : first = second :=
  shape.freeLists.order_eq inFirst inSecond

theorem held_unlisted (shape : BuddyShape page links low high free live hand) {entry : Nat × Nat}
    (member : entry ∈ live) (order : Nat) : entry.1 ∉ free order := by
  intro listed
  have marked := (shape.marked order entry.1 listed).1
  rw [shape.unmarked entry member] at marked
  cases marked

/-- Taking a block off its list puts it in hand. -/
theorem unlink (shape : BuddyShape page links low high free live hand) {start order : Nat}
    {before after : List Nat} (split : free order = before ++ start :: after) :
    BuddyShape page (listDel links (.page start)) low high
      (Function.update free order (before ++ after)) live (insert ⟨start, order⟩ hand) := by
  have member : start ∈ free order := split ▸ List.mem_append_right before List.mem_cons_self
  have unlinked := (shape.freeLists.unlink split).lists
  have left := shape.freeLists.mem_update_append split
  refine ⟨unlinked.rings, unlinked.bounded, unlinked.marked, shape.unmarked, shape.held, shape.fits, ?_, ?_, ?_⟩
  · intro block other inHand listed
    rcases Set.mem_insert_iff.mp inHand with new | old
    · subst new
      exact ((left other _).mp listed).2 rfl
    · exact shape.handUnlisted block other old ((left other _).mp listed).1
  · intro block inHand
    rcases Set.mem_insert_iff.mp inHand with new | old
    · subst new
      intro inLive
      rcases List.mem_map.mp inLive with ⟨entry, entryMember, entryStart⟩
      exact shape.held_unlisted entryMember order (entryStart ▸ member)
    · exact shape.handUnheld block old
  · have same : blocksOf (Function.update free order (before ++ after)) live
        (insert ⟨start, order⟩ hand) = blocksOf free live hand := by
      ext block
      constructor
      · rintro (listed | inLive | inHand)
        · exact .inl ((left _ _).mp listed).1
        · exact .inr (.inl inLive)
        · rcases Set.mem_insert_iff.mp inHand with new | old
          · subst new
            exact .inl member
          · exact .inr (.inr old)
      · rintro (listed | inLive | inHand)
        · by_cases isBlock : block.start = start
          · have orders := shape.order_eq (isBlock ▸ listed) member
            exact .inr (.inr (Set.mem_insert_iff.mpr (.inl (Block.ext isBlock orders))))
          · exact .inl ((left _ _).mpr ⟨listed, isBlock⟩)
        · exact .inr (.inl inLive)
        · exact .inr (.inr (Set.mem_insert_of_mem _ inHand))
    exact same ▸ shape.tiling

/-- A block in hand is held apart from the lists. -/
theorem holdsBlock {start order : Nat}
    (shape : BuddyShape page links low high free live (insert ⟨start, order⟩ hand)) :
    HoldsBlock page links free start order where
  lists := shape.freeLists
  fresh := fun other => shape.handUnlisted _ other (Set.mem_insert _ _)
  packed := by
    apply shape.tiling.packing.mono
    rintro block (inHand | listed)
    · exact .inr (.inr (Set.mem_insert_iff.mpr (.inl inHand)))
    · exact .inl listed

/-- Putting a block from the hand on the list of its order. -/
theorem link {start order : Nat} (bound : order < maxOrder)
    (shape : BuddyShape page links low high free live (insert ⟨start, order⟩ hand))
    (apart : forall block, block ∈ hand -> block.start ≠ start) {marked : Page}
    (flag : pageProperty marked = true) (size : marked.property = 2 ^ order) :
    BuddyShape (Function.update page start marked) (listAdd links (.head order) (.page start)) low high
      (Function.update free order (start :: free order)) live hand := by
  have linked := shape.holdsBlock.link bound flag size
  have unheld : start ∉ live.map Prod.fst := shape.handUnheld ⟨start, order⟩ (Set.mem_insert _ _)
  refine ⟨linked.rings, linked.bounded, linked.marked, ?_, shape.held, shape.fits, ?_, ?_, ?_⟩
  · intro entry member
    have different : entry.1 ≠ start := fun equal => unheld (equal ▸ List.mem_map_of_mem member)
    rw [Function.update_of_ne different]
    exact shape.unmarked entry member
  · intro block other found listed
    rcases (mem_update_cons ..).mp listed with old | new
    · exact shape.handUnlisted block other (Set.mem_insert_of_mem _ found) old
    · exact apart block found new.2
  · exact fun block found => shape.handUnheld block (Set.mem_insert_of_mem _ found)
  · have same : blocksOf (Function.update free order (start :: free order)) live hand =
        blocksOf free live (insert ⟨start, order⟩ hand) := by
      ext block
      constructor
      · rintro (listed | inLive | found)
        · rcases (mem_update_cons ..).mp listed with old | new
          · exact .inl old
          · exact .inr (.inr (Set.mem_insert_iff.mpr (.inl (Block.ext new.2 new.1))))
        · exact .inr (.inl inLive)
        · exact .inr (.inr (Set.mem_insert_of_mem _ found))
      · rintro (listed | inLive | found)
        · exact .inl ((mem_update_cons ..).mpr (.inl listed))
        · exact .inr (.inl inLive)
        · rcases Set.mem_insert_iff.mp found with new | old
          · subst new
            exact .inl ((mem_update_cons ..).mpr (.inr ⟨rfl, rfl⟩))
          · exact .inr (.inr old)
    exact same ▸ shape.tiling

theorem splitHand {start order : Nat}
    (shape : BuddyShape page links low high free live {⟨start, order + 1⟩}) :
    BuddyShape page links low high free live
      (insert ⟨start + 2 ^ order, order⟩ {⟨start, order⟩}) := by
  have positive := Nat.two_pow_pos order
  have whole : (⟨start, order + 1⟩ : Block) ∈ blocksOf free live {⟨start, order + 1⟩} := .inr (.inr rfl)
  -- The upper half starts inside the block in hand, so no other block starts there.
  have upper : forall block, block ∈ blocksOf free live {⟨start, order + 1⟩} ->
      block.start ≠ start + 2 ^ order := by
    intro block member equal
    have covered : (⟨start, order + 1⟩ : Block).Covers block.start := by
      simp only [Block.Covers, equal, pow_succ]
      omega
    have same := shape.tiling.disjoint block _ _ member whole block.covers_start covered
    rw [same] at equal
    simp only at equal
    omega
  refine ⟨shape.rings, shape.bounded, shape.marked, shape.unmarked, shape.held, shape.fits, ?_, ?_, ?_⟩
  · intro block other found listed
    rcases Set.mem_insert_iff.mp found with isUpper | isLower
    · subst isUpper
      exact upper ⟨start + 2 ^ order, other⟩ (.inl listed) rfl
    · rw [Set.mem_singleton_iff.mp isLower] at listed
      exact shape.handUnlisted _ other rfl listed
  · intro block found inLive
    rcases Set.mem_insert_iff.mp found with isUpper | isLower
    · subst isUpper
      rcases List.mem_map.mp inLive with ⟨entry, member, equal⟩
      exact upper (liveBlock entry) (.inr (.inl (List.mem_map_of_mem member))) equal
    · rw [Set.mem_singleton_iff.mp isLower] at inLive
      exact shape.handUnheld _ rfl inLive
  · apply shape.tiling.split whole
    intro block
    constructor
    · rintro (listed | inLive | found)
      · refine .inl ⟨.inl listed, fun equal => ?_⟩
        rw [equal] at listed
        exact shape.handUnlisted _ _ rfl listed
      · refine .inl ⟨.inr (.inl inLive), fun equal => ?_⟩
        rcases List.mem_map.mp inLive with ⟨entry, member, same⟩
        have started : entry.1 = start := congrArg Block.start (same.trans equal)
        exact shape.handUnheld _ rfl (started ▸ List.mem_map_of_mem member)
      · rcases Set.mem_insert_iff.mp found with isUpper | isLower
        · exact .inr (.inr isUpper)
        · exact .inr (.inl isLower)
    · rintro (⟨listed | inLive | found, different⟩ | isLower | isUpper)
      · exact .inl listed
      · exact .inr (.inl inLive)
      · exact absurd found different
      · exact .inr (.inr (Set.mem_insert_of_mem _ isLower))
      · exact .inr (.inr (Set.mem_insert_iff.mpr (.inl isUpper)))

theorem joinHand {block : Block}
    (shape : BuddyShape page links low high free live (insert block.buddy {block})) :
    BuddyShape page links low high free live {block.parent} := by
  have blockHand : block ∈ insert block.buddy ({block} : Set Block) := Set.mem_insert_of_mem _ rfl
  have buddyHand : block.buddy ∈ insert block.buddy ({block} : Set Block) := Set.mem_insert _ _
  have starts : block.parent.start = block.start \/ block.parent.start = block.buddy.start := by
    change min _ _ = _ \/ min _ _ = _
    omega
  refine ⟨shape.rings, shape.bounded, shape.marked, shape.unmarked, shape.held, shape.fits, ?_, ?_, ?_⟩
  · intro candidate other found
    rw [Set.mem_singleton_iff.mp found]
    rcases starts with lower | upper
    · exact lower ▸ shape.handUnlisted _ other blockHand
    · exact upper ▸ shape.handUnlisted _ other buddyHand
  · intro candidate found
    rw [Set.mem_singleton_iff.mp found]
    rcases starts with lower | upper
    · exact lower ▸ shape.handUnheld _ blockHand
    · exact upper ▸ shape.handUnheld _ buddyHand
  · apply shape.tiling.join (.inr (.inr blockHand)) (.inr (.inr buddyHand))
    have apart : forall candidate, (candidate.start ∈ free candidate.order \/
        candidate ∈ live.map liveBlock) -> candidate ∉ insert block.buddy ({block} : Set Block) := by
      rintro candidate (listed | inLive) found
      · exact shape.handUnlisted candidate _ found listed
      · rcases List.mem_map.mp inLive with ⟨entry, member, same⟩
        exact shape.handUnheld candidate found (same ▸ List.mem_map_of_mem member)
    intro candidate
    constructor
    · rintro (listed | inLive | found)
      · have outside := apart candidate (.inl listed)
        exact .inl ⟨.inl listed, fun same => outside (same ▸ blockHand), fun same => outside (same ▸ buddyHand)⟩
      · have outside := apart candidate (.inr inLive)
        exact .inl ⟨.inr (.inl inLive), fun same => outside (same ▸ blockHand),
          fun same => outside (same ▸ buddyHand)⟩
      · exact .inr found
    · rintro (⟨listed | inLive | found, notBlock, notBuddy⟩ | isParent)
      · exact .inl listed
      · exact .inr (.inl inLive)
      · rcases Set.mem_insert_iff.mp found with isBuddy | isBlock
        · exact absurd isBuddy notBuddy
        · exact absurd isBlock notBlock
      · exact .inr (.inr isParent)

/-- Handing the block in hand to a caller, after its mark is cleared. -/
theorem handOut {start n : Nat} (bound : Nat.clog 2 n < maxOrder)
    (shape : BuddyShape page links low high free live {⟨start, Nat.clog 2 n⟩}) {cleared : Page}
    (flag : pageProperty cleared = false) :
    BuddyShape (Function.update page start cleared) links low high free ((start, n) :: live) ∅ := by
  have unlisted : forall other, start ∉ free other := fun other => shape.handUnlisted _ other rfl
  have unheld : start ∉ live.map Prod.fst := shape.handUnheld _ rfl
  refine ⟨shape.rings, shape.bounded, ?_, ?_, ?_, ?_, fun _ _ found => found.elim,
    fun _ found => found.elim, ?_⟩
  · intro order index found
    have different : index ≠ start := fun equal => unlisted order (equal ▸ found)
    rw [Function.update_of_ne different]
    exact shape.marked order index found
  · intro entry member
    rcases List.mem_cons.mp member with new | old
    · rw [new, Function.update_self]
      exact flag
    · have different : entry.1 ≠ start := fun equal => unheld (equal ▸ List.mem_map_of_mem old)
      rw [Function.update_of_ne different]
      exact shape.unmarked entry old
  · rw [List.map_cons]
    exact List.nodup_cons.mpr ⟨unheld, shape.held⟩
  · intro entry member
    rcases List.mem_cons.mp member with new | old
    · rw [new]
      exact bound
    · exact shape.fits entry old
  · have same : blocksOf free ((start, n) :: live) ∅ = blocksOf free live {⟨start, Nat.clog 2 n⟩} := by
      ext block
      constructor
      · rintro (listed | inLive | found)
        · exact .inl listed
        · rcases List.mem_cons.mp inLive with new | old
          · exact .inr (.inr new)
          · exact .inr (.inl old)
        · exact found.elim
      · rintro (listed | inLive | found)
        · exact .inl listed
        · exact .inr (.inl (List.mem_cons_of_mem _ inLive))
        · exact .inr (.inl (List.mem_cons.mpr (.inl found)))
    exact same ▸ shape.tiling

theorem takeBack {entry : Nat × Nat} (shape : BuddyShape page links low high free live ∅)
    (member : entry ∈ live) :
    BuddyShape page links low high free (live.erase entry) {liveBlock entry} := by
  have permuted := List.perm_cons_erase member
  have starts : ((entry :: live.erase entry).map Prod.fst).Nodup :=
    (permuted.map Prod.fst).nodup_iff.mp shape.held
  have gone := (List.nodup_cons.mp starts).1
  refine ⟨shape.rings, shape.bounded, shape.marked,
    fun other found => shape.unmarked other (List.mem_of_mem_erase found), (List.nodup_cons.mp starts).2,
    fun other found => shape.fits other (List.mem_of_mem_erase found), ?_, ?_, ?_⟩
  · intro block order found
    rw [Set.mem_singleton_iff.mp found]
    exact shape.held_unlisted member order
  · intro block found
    rw [Set.mem_singleton_iff.mp found]
    exact gone
  · have same : blocksOf free (live.erase entry) {liveBlock entry} = blocksOf free live ∅ := by
      ext block
      have members : block ∈ live.map liveBlock <->
          block = liveBlock entry \/ block ∈ (live.erase entry).map liveBlock := by
        rw [(permuted.map liveBlock).mem_iff, List.map_cons, List.mem_cons]
      change (_ \/ _ \/ block = liveBlock entry) <-> (_ \/ block ∈ live.map liveBlock \/ False)
      rw [members]
      tauto
    exact same ▸ shape.tiling

/-- The next piece of the region is tiled as a block in hand. -/
theorem extend {order : Nat} (shape : BuddyShape page links low high free live ∅)
    (bounds : low <= high) (aligned : 2 ^ order ∣ high) :
    BuddyShape page links low (high + 2 ^ order) free live {⟨high, order⟩} := by
  have below : forall block, block ∈ blocksOf free live ∅ -> block.start ≠ high := by
    intro block member
    have inside := (shape.tiling.covers block.start).mpr ⟨block, member, block.covers_start⟩
    omega
  refine ⟨shape.rings, shape.bounded, shape.marked, shape.unmarked, shape.held, shape.fits, ?_, ?_, ?_⟩
  · intro block other found listed
    rw [Set.mem_singleton_iff.mp found] at listed
    exact below ⟨high, other⟩ (.inl listed) rfl
  · intro block found inLive
    rw [Set.mem_singleton_iff.mp found] at inLive
    rcases List.mem_map.mp inLive with ⟨entry, member, equal⟩
    exact below (liveBlock entry) (.inr (.inl (List.mem_map_of_mem member))) equal
  · apply shape.tiling.append bounds aligned
    intro block
    change (_ \/ _ \/ block = _) <-> (_ \/ _ \/ False) \/ _
    tauto

end BuddyShape

end Memory
end Ucore
