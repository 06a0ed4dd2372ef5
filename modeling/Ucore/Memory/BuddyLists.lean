import Ucore.Library.CanonicalTiling
import Ucore.Memory.BuddySystem

namespace Ucore
namespace Memory

open Library

/-!
# The lists of the buddy allocator

Nothing is said here about a region or about the blocks in use: the free
blocks are on the list of their order, marked, aligned and disjoint.  Taking a
block off its list leaves it in hand, and a block in hand may be put on the
list of its order.
-/

/-- The blocks on the lists. -/
def listedBlocks (free : Nat -> List Nat) : Set Block := fun block => block.start ∈ free block.order

/-- `free order` are the descriptors on the list of an order, first to last;
each of them is marked as the head of a free block of that order. -/
structure FreeLists (page : Nat -> Page) (links : Links (ListNode Nat)) (free : Nat -> List Nat) : Prop where
  rings : forall order, order < maxOrder -> links.Ring (.head order) ((free order).map .page)
  bounded : forall order, maxOrder <= order -> free order = []
  marked : forall order start, start ∈ free order ->
    pageProperty (page start) = true /\ (page start).property = 2 ^ order
  packed : Packing (listedBlocks free)

/-- A block has been taken off the lists and is apart from every block on
them. -/
structure HoldsBlock (page : Nat -> Page) (links : Links (ListNode Nat)) (free : Nat -> List Nat)
    (start order : Nat) : Prop where
  lists : FreeLists page links free
  fresh : forall other, start ∉ free other
  packed : Packing (insert ⟨start, order⟩ (listedBlocks free))

theorem page_mem_ring {index order : Nat} {members : List Nat} :
    ListNode.page index ∈ ListNode.head order :: members.map ListNode.page <-> index ∈ members := by
  simp

variable {page : Nat -> Page} {links : Links (ListNode Nat)} {free : Nat -> List Nat}

theorem mem_update_cons (free : Nat -> List Nat) (start order other index : Nat) :
    index ∈ Function.update free order (start :: free order) other <->
      index ∈ free other \/ (other = order /\ index = start) := by
  by_cases same : other = order
  · subst same
    simp [or_comm]
  · simp [same]

theorem listedBlocks_update_cons (free : Nat -> List Nat) (start order : Nat) :
    listedBlocks (Function.update free order (start :: free order)) =
      insert ⟨start, order⟩ (listedBlocks free) := by
  ext block
  constructor
  · intro listed
    rcases (mem_update_cons ..).mp listed with old | new
    · exact Set.mem_insert_of_mem _ old
    · exact Set.mem_insert_iff.mpr (.inl (Block.ext new.2 new.1))
  · rintro (new | old)
    · exact (mem_update_cons ..).mpr (.inr (new ▸ ⟨rfl, rfl⟩))
    · exact (mem_update_cons ..).mpr (.inl old)

/-- No two buddies are on the list of one order, except the last. -/
def NoPairs (free : Nat -> List Nat) : Prop := Unpaired (listedBlocks free) (maxOrder - 1)

theorem NoPairs.mono {other : Nat -> List Nat} (noPairs : NoPairs free)
    (fewer : forall order start, start ∈ other order -> start ∈ free order) : NoPairs other :=
  Unpaired.mono noPairs fun block => fewer block.order block.start

/-- A block without its buddy on the list makes no pair. -/
theorem NoPairs.link {start order : Nat} (noPairs : NoPairs free)
    (alone : BuddySystem.getBuddy start order ∉ free order) :
    NoPairs (Function.update free order (start :: free order)) := by
  unfold NoPairs
  rw [listedBlocks_update_cons]
  exact Unpaired.insert noPairs fun _ => alone

namespace FreeLists

/-- The property field says which list a head is on. -/
theorem order_eq (lists : FreeLists page links free) {start first second : Nat} (inFirst : start ∈ free first)
    (inSecond : start ∈ free second) : first = second := by
  have sizes := (lists.marked first start inFirst).2.symm.trans (lists.marked second start inSecond).2
  exact Nat.pow_right_injective (Nat.le_refl 2) sizes

theorem order_lt (lists : FreeLists page links free) {start order : Nat} (member : start ∈ free order) :
    order < maxOrder := by
  by_contra large
  rw [lists.bounded order (Nat.le_of_not_lt large)] at member
  cases member

/-- The links leave no choice for the lists. -/
theorem unique (lists : FreeLists page links free) {other : Nat -> List Nat}
    (otherLists : FreeLists page links other) : free = other := by
  funext order
  by_cases bound : order < maxOrder
  · have nodes := (lists.rings order bound).unique (otherLists.rings order bound)
    exact List.map_injective_iff.mpr (fun _ _ equal => ListNode.page.inj equal) nodes
  · rw [lists.bounded order (Nat.le_of_not_lt bound), otherLists.bounded order (Nat.le_of_not_lt bound)]

/-- Rings of two orders share no node. -/
theorem rings_apart (lists : FreeLists page links free) {order other : Nat} (different : order ≠ other)
    (node : ListNode Nat) (member : node ∈ ListNode.head order :: (free order).map .page) :
    node ∉ ListNode.head other :: (free other).map .page := by
  intro otherMember
  cases node with
  | head list =>
      simp only [List.mem_cons, ListNode.head.injEq, List.mem_map, reduceCtorEq, and_false, exists_false,
        or_false] at member otherMember
      exact different (member.symm.trans otherMember)
  | page index =>
      simp only [List.mem_cons, reduceCtorEq, List.mem_map, ListNode.page.injEq, exists_eq_right,
        false_or] at member otherMember
      exact different (lists.order_eq member otherMember)

/-- What is listed after a block has left its list. -/
theorem mem_update_append (lists : FreeLists page links free) {start order : Nat} {before after : List Nat}
    (split : free order = before ++ start :: after) (other index : Nat) :
    index ∈ Function.update free order (before ++ after) other <-> index ∈ free other /\ index ≠ start := by
  have member : start ∈ free order := split ▸ List.mem_append_right before List.mem_cons_self
  have distinct : (before ++ start :: after).Nodup := by
    have nodes := (List.nodup_cons.mp (lists.rings order (lists.order_lt member)).distinct).2
    rw [split] at nodes
    exact List.Nodup.of_map _ nodes
  have gone : start ∉ before ++ after := (List.nodup_middle.mp distinct |> List.nodup_cons.mp).1
  by_cases same : other = order
  · subst same
    rw [Function.update_self, split, List.mem_append, List.mem_append, List.mem_cons]
    constructor
    · intro found
      exact ⟨by tauto, fun equal => gone (equal ▸ List.mem_append.mpr found)⟩
    · tauto
  · rw [Function.update_of_ne same]
    exact ⟨fun found => ⟨found, fun equal => same (lists.order_eq (equal ▸ found) member)⟩, And.left⟩

/-- Taking a block off its list puts it in hand. -/
theorem unlink (lists : FreeLists page links free) {start order : Nat} {before after : List Nat}
    (split : free order = before ++ start :: after) :
    HoldsBlock page (listDel links (.page start)) (Function.update free order (before ++ after)) start order := by
  have member : start ∈ free order := split ▸ List.mem_append_right before List.mem_cons_self
  have ring := lists.rings order (lists.order_lt member)
  have left := lists.mem_update_append split
  refine ⟨⟨?_, ?_, ?_, ?_⟩, fun other listed => ((left other start).mp listed).2 rfl, ?_⟩
  · intro other otherBound
    by_cases same : other = order
    · subst same
      rw [Function.update_self, List.map_append]
      rw [split, List.map_append, List.map_cons] at ring
      exact ring_listDel ring
    · rw [Function.update_of_ne same]
      exact ring_listDel_other ring (List.mem_map_of_mem member) (lists.rings other otherBound)
        (fun node found => lists.rings_apart (Ne.symm same) node found)
  · intro other large
    have different : other ≠ order := fun same => by
      have bound := lists.order_lt member
      omega
    rw [Function.update_of_ne different]
    exact lists.bounded other large
  · exact fun other index found => lists.marked other index ((left other index).mp found).1
  · exact lists.packed.mono fun block listed => ((left block.order block.start).mp listed).1
  · apply lists.packed.mono
    rintro block (equal | listed)
    · exact equal ▸ member
    · exact ((left block.order block.start).mp listed).1

end FreeLists

namespace HoldsBlock

variable {start order : Nat}

/-- Putting a block from the hand on the list of its order. -/
theorem link (holds : HoldsBlock page links free start order) (bound : order < maxOrder) {marked : Page}
    (flag : pageProperty marked = true) (size : marked.property = 2 ^ order) :
    FreeLists (Function.update page start marked) (listAdd links (.head order) (.page start))
      (Function.update free order (start :: free order)) := by
  have lists := holds.lists
  refine ⟨?_, ?_, ?_, ?_⟩
  · intro other otherBound
    have fresh : ListNode.page start ∉ ListNode.head other :: (free other).map ListNode.page :=
      fun member => holds.fresh other (page_mem_ring.mp member)
    by_cases same : other = order
    · subst same
      rw [Function.update_self, List.map_cons]
      exact ring_listAdd_head (lists.rings other otherBound) fresh
    · rw [Function.update_of_ne same]
      exact ring_listAdd_other (lists.rings order bound) (lists.rings other otherBound) fresh
        (fun node found => lists.rings_apart (Ne.symm same) node found)
  · intro other large
    have different : other ≠ order := by omega
    rw [Function.update_of_ne different]
    exact lists.bounded other large
  · intro other index found
    rcases (mem_update_cons ..).mp found with old | new
    · have different : index ≠ start := fun equal => holds.fresh other (equal ▸ old)
      rw [Function.update_of_ne different]
      exact lists.marked other index old
    · rw [new.1, new.2, Function.update_self]
      exact ⟨flag, size⟩
  · rw [listedBlocks_update_cons]
    exact holds.packed

/-- Halving the block in hand: the upper half may go on a list, and the lower
half is then still in hand. -/
theorem halve (holds : HoldsBlock page links free start (order + 1)) :
    HoldsBlock page links free (start + 2 ^ order) order /\
      (forall {nextPage nextLinks},
        FreeLists nextPage nextLinks (Function.update free order ((start + 2 ^ order) :: free order)) ->
          HoldsBlock nextPage nextLinks (Function.update free order ((start + 2 ^ order) :: free order))
            start order) := by
  have unlisted : (⟨start, order + 1⟩ : Block) ∉ listedBlocks free := holds.fresh (order + 1)
  have halves := holds.packed.halve unlisted
  have positive := Nat.two_pow_pos order
  -- The upper half lies inside the block in hand, so no listed block starts there.
  have upperFresh : forall other, start + 2 ^ order ∉ free other := by
    intro other listed
    have covered : (⟨start, order + 1⟩ : Block).Covers (start + 2 ^ order) := by
      simp only [Block.Covers, pow_succ]
      omega
    have same := holds.packed.disjoint ⟨start + 2 ^ order, other⟩ ⟨start, order + 1⟩ _
      (Set.mem_insert_of_mem _ listed) (Set.mem_insert _ _) (Block.covers_start _) covered
    have starts := congrArg Block.start same
    simp only at starts
    omega
  refine ⟨⟨holds.lists, upperFresh, halves.mono (Set.subset_insert _ _)⟩, fun lists => ⟨lists, ?_, ?_⟩⟩
  · intro other listed
    rcases (mem_update_cons ..).mp listed with old | new
    · exact holds.fresh other old
    · omega
  · rw [listedBlocks_update_cons]
    exact halves

end HoldsBlock

end Memory
end Ucore
