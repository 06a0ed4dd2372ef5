import Ucore.Memory.Slob

namespace Ucore
namespace Slob

open Library
open Program

/-!
# Freeing a small block

The free entries make a circle in address order, and together with the live
blocks they tile the memory of the heap.  A block that is freed goes into the
gap it lies in, and is joined to the entries on either side of it when it
touches them.  The list needs a second entry when the block ends at the first.
-/

/-- The free entries and the live blocks in the memory of the heap. -/
structure Laid (heap : Heap) (free live owned : Finset Nat) : Prop where
  circle : Circle heap.next free
  start : heap.slobfree ∈ free
  tiling : BlockTiling heap.width (free ∪ live) owned
  apart : Disjoint free live
  gaps : forall entry other, entry ∈ free -> other ∈ free -> entry + heap.width entry ≠ other

/-- A block outside of the free list and of the live blocks, about to be linked
after `cur`. -/
structure Loose (heap : Heap) (free live owned : Finset Nat) (b cur : Nat) : Prop where
  circle : Circle (Function.update heap.next cur (heap.next b)) free
  member : cur ∈ free
  gap : Between cur b (heap.next b)
  tiling : BlockTiling heap.width (insert b (free ∪ live)) owned
  apart : Disjoint free live
  notFree : b ∉ free
  notLive : b ∉ live
  gaps : forall entry other, entry ∈ free -> other ∈ free -> entry + heap.width entry ≠ other
  ends : forall other, other ∈ free -> b + heap.width b ≠ other

variable {heap : Heap} {free live owned : Finset Nat} {b cur : Nat} {done : Unit -> Heap -> Prop}
  {fail : Empty -> Heap -> Prop} {stop : Fault -> Prop}

/-- The loop ends at the entry in whose gap the block lies. -/
theorem insertionPoint_meets (circle : Circle heap.next free) (absent : b ∉ free) {place fuel : Nat}
    (member : place ∈ free) (enough : (Circle.ahead free place b).card < fuel) {done : Nat -> Heap -> Prop}
    (found : forall cur, cur ∈ free -> Between cur b (heap.next cur) -> done cur heap) :
    Meets (insertionPoint b fuel place) heap ⟨done, fail, stop⟩ := by
  induction fuel generalizing place with
  | zero => omega
  | succ fuel inductionHypothesis =>
      unfold insertionPoint
      simp only [meets_bind, meets_get, meets_ite, meets_pure]
      split
      · rename_i inside
        exact found place member (.inl inside)
      · rename_i outside
        split
        · rename_i wrapped
          exact found place member (.inr wrapped)
        · rename_i unwrapped
          have unpassed : ¬ Between place b (heap.next place) := fun between => between.elim outside unwrapped
          have unreached : heap.next place ≠ b := fun reached => absent (reached ▸ circle.closed _ member)
          have fewer := circle.ahead_lt member unreached unpassed
          exact inductionHypothesis (circle.closed _ member) (by omega)

/-- The state in which a block has swallowed another. -/
def Heap.join (heap : Heap) (block other : Nat) : Heap :=
  { heap with
    units := Function.update heap.units block (heap.units block + heap.units other)
    next := Function.update heap.next block (heap.next other) }

def Heap.link (heap : Heap) (block next : Nat) : Heap :=
  { heap with next := Function.update heap.next block next }

theorem joinNext_meets (touches : b + heap.width b = heap.next cur -> done () (heap.join b (heap.next cur)))
    (leaves : b + heap.width b ≠ heap.next cur -> done () (heap.link b (heap.next cur))) :
    Meets (joinNext b cur) heap ⟨done, fail, stop⟩ := by
  unfold joinNext setUnits setNext
  simp only [meets_bind, meets_get, meets_ite, meets_modify]
  split
  · rename_i contiguous
    exact touches contiguous
  · rename_i open_
    exact leaves open_

theorem joinPrevious_meets (touches : cur + heap.width cur = b -> done () (heap.join cur b))
    (leaves : cur + heap.width cur ≠ b -> done () (heap.link cur b)) :
    Meets (joinPrevious b cur) heap ⟨done, fail, stop⟩ := by
  unfold joinPrevious setUnits setNext
  simp only [meets_bind, meets_get, meets_ite, meets_modify]
  split
  · rename_i contiguous
    exact touches contiguous
  · rename_i open_
    exact leaves open_

@[simp] theorem width_link (heap : Heap) (block next : Nat) : (heap.link block next).width = heap.width := rfl

theorem width_join_self (heap : Heap) (block other : Nat) :
    (heap.join block other).width block = heap.width block + heap.width other := by
  unfold Heap.width Heap.join
  dsimp only
  rw [Function.update_self, Nat.mul_add]

theorem width_join_other (heap : Heap) {block other entry : Nat} (different : entry ≠ block) :
    (heap.join block other).width entry = heap.width entry := by
  unfold Heap.width Heap.join
  dsimp only
  rw [Function.update_of_ne different]

/-- What a block lies between when the entry after the gap is left out. -/
theorem between_skip {next : Nat -> Nat} (circle : Circle next free) (member : cur ∈ free)
    (gap : Between cur b (next cur))
    (absent : b ∉ free) (several : next cur ≠ cur) : Between cur b (next (next cur)) := by
  have after := circle.closed _ member
  have empty := circle.empty _ _ after member
  have different : b ≠ cur := fun same => absent (same ▸ member)
  unfold Between at *
  omega

/-- After `joinNext` the block is loose, and touches no entry after it. -/
theorem joinNext_loose (laid : Circle heap.next free) (member : cur ∈ free) (gap : Between cur b (heap.next cur))
    (tiling : BlockTiling heap.width (insert b (free ∪ live)) owned) (apart : Disjoint free live)
    (notFree : b ∉ free) (notLive : b ∉ live)
    (gaps : forall entry other, entry ∈ free -> other ∈ free -> entry + heap.width entry ≠ other)
    (several : heap.next cur = cur -> b + heap.width b ≠ cur) :
    Meets (joinNext b cur) heap ⟨fun _ after => after.asked = heap.asked /\ heap.units b <= after.units b /\
      (forall block, block ≠ b -> after.units block = heap.units block) /\
      Exists fun rest => Loose after rest live owned b cur /\ rest ⊆ free /\
        forall entry, entry ∈ free -> b + heap.width b ≠ entry -> entry ∈ rest, fail, stop⟩ := by
  have different : b ≠ cur := fun same => notFree (same ▸ member)
  have after := laid.closed _ member
  have other : b ≠ heap.next cur := fun same => notFree (same ▸ after)
  apply joinNext_meets
  · intro contiguous
    have more : heap.next cur ≠ cur := fun alone => several alone (contiguous.trans alone)
    refine ⟨rfl, ?_, fun block outside => Function.update_of_ne outside _ _, free.erase (heap.next cur), ?_,
      Finset.erase_subset _ _, ?_⟩
    · unfold Heap.join
      dsimp only
      rw [Function.update_self]
      omega
    · have nextB : (heap.join b (heap.next cur)).next b = heap.next (heap.next cur) := Function.update_self _ _ _
      constructor
      · rw [nextB]
        apply laid.unlink member more
        · exact Function.update_self _ _ _
        · intro entry found notCur _
          have notB : entry ≠ b := fun same => notFree (same ▸ found)
          rw [Function.update_of_ne notCur]
          exact Function.update_of_ne notB _ _
      · exact Finset.mem_erase.mpr ⟨more.symm, member⟩
      · rw [nextB]
        exact between_skip laid member gap notFree more
      · have joined := tiling.merge (heap.join b (heap.next cur)).width (Finset.mem_insert_self _ _)
          (by
            rw [contiguous]
            exact Finset.mem_insert_of_mem (Finset.mem_union_left _ after))
          (by rw [width_join_self, contiguous]) (fun entry _ notB _ => width_join_other heap notB)
        rw [contiguous, Finset.erase_insert_of_ne other, Finset.erase_union_distrib,
          Finset.erase_eq_of_notMem (Finset.disjoint_left.mp apart after)] at joined
        exact joined
      · exact Finset.disjoint_of_subset_left (Finset.erase_subset _ _) apart
      · exact fun found => notFree (Finset.mem_of_mem_erase found)
      · exact notLive
      · intro entry another found present
        have notB : entry ≠ b := fun same => notFree (same ▸ Finset.mem_of_mem_erase found)
        rw [width_join_other heap notB]
        exact gaps entry another (Finset.mem_of_mem_erase found) (Finset.mem_of_mem_erase present)
      · intro another present
        rw [width_join_self]
        have apartNext := gaps (heap.next cur) another after (Finset.mem_of_mem_erase present)
        omega
    · intro entry found outside
      exact Finset.mem_erase.mpr ⟨fun same => outside (contiguous.trans same.symm), found⟩
  · intro leaves
    refine ⟨rfl, Nat.le_refl _, fun _ _ => rfl, free, ?_, Finset.Subset.refl _, fun entry found _ => found⟩
    have nextB : (heap.link b (heap.next cur)).next b = heap.next cur := Function.update_self _ _ _
    constructor
    · apply laid.congr
      intro entry found
      have notB : entry ≠ b := fun same => notFree (same ▸ found)
      by_cases here : entry = cur
      · rw [here, Function.update_self, nextB]
      · rw [Function.update_of_ne here]
        exact Function.update_of_ne notB _ _
    · exact member
    · rw [nextB]
      exact gap
    · exact tiling
    · exact apart
    · exact notFree
    · exact notLive
    · exact gaps
    · intro another present contiguous
      have above := tiling.apart b (heap.next cur) (Finset.mem_insert_self _ _)
        (Finset.mem_insert_of_mem (Finset.mem_union_left _ after))
      have wide := tiling.positive b (Finset.mem_insert_self _ _)
      have empty := laid.empty _ _ member present
      change b + heap.width b = another at contiguous
      unfold Between at gap empty
      omega

/-- A free entry that ends at the block is the one before the gap. -/
theorem Loose.before (loose : Loose heap free live owned b cur) {entry : Nat} (found : entry ∈ free)
    (contiguous : entry + heap.width entry = b) : entry = cur := by
  have wide := loose.tiling.positive entry (Finset.mem_insert_of_mem (Finset.mem_union_left _ found))
  have member := loose.member
  have gap := loose.gap
  have next : heap.next b ∈ free := by
    have closed := loose.circle.closed _ member
    rwa [Function.update_self] at closed
  have empty := loose.circle.empty _ _ member found
  rw [Function.update_self] at empty
  have above := loose.tiling.apart entry cur (Finset.mem_insert_of_mem (Finset.mem_union_left _ found))
    (Finset.mem_insert_of_mem (Finset.mem_union_left _ member))
  unfold Between at gap empty
  omega

/-- After `joinPrevious` the block is on the free list. -/
theorem joinPrevious_laid (loose : Loose heap free live owned b cur) :
    Meets (joinPrevious b cur) heap ⟨fun _ after => after.asked = heap.asked /\
      (forall block, block ∈ live -> after.units block = heap.units block) /\
      Exists fun rest => Laid { after with slobfree := cur } rest live owned /\ free ⊆ rest /\
        Exists fun cover => cover ∈ rest /\ heap.units b <= after.units cover /\
          (cover = b \/ (cover = cur /\ cur + heap.width cur = b)), fail, stop⟩ := by
  have different : b ≠ cur := fun same => loose.notFree (same ▸ loose.member)
  have curLive : cur ∉ live := Finset.disjoint_left.mp loose.apart loose.member
  apply joinPrevious_meets
  · intro contiguous
    refine ⟨rfl, ?_, free, ?_, Finset.Subset.refl _, cur, loose.member, ?_, .inr ⟨rfl, contiguous⟩⟩
    · intro block found
      have notCur : block ≠ cur := by
        rintro rfl
        exact curLive found
      exact Function.update_of_ne notCur _ _
    · constructor
      · apply loose.circle.congr
        intro entry found
        rfl
      · exact loose.member
      · have joined : BlockTiling (heap.join cur b).width
            ((insert b (free ∪ live)).erase (cur + heap.width cur)) owned := by
          apply loose.tiling.merge _ (Finset.mem_insert_of_mem (Finset.mem_union_left _ loose.member))
          · rw [contiguous]
            exact Finset.mem_insert_self _ _
          · rw [width_join_self, contiguous]
          · exact fun entry _ notCur _ => width_join_other heap notCur
        rw [contiguous, Finset.erase_insert] at joined
        · exact joined
        · exact fun found => (Finset.mem_union.mp found).elim loose.notFree loose.notLive
      · exact loose.apart
      · intro entry another found present
        by_cases here : entry = cur
        · have ends := loose.ends another present
          change entry + (heap.join cur b).width entry ≠ another
          rw [here, width_join_self]
          omega
        · change entry + (heap.join cur b).width entry ≠ another
          rw [width_join_other heap here]
          exact loose.gaps entry another found present
    · unfold Heap.join
      dsimp only
      rw [Function.update_self]
      omega
  · intro leaves
    refine ⟨rfl, fun _ _ => rfl, insert b free, ?_, Finset.subset_insert _ _, b, Finset.mem_insert_self _ _,
      Nat.le_refl _, .inl rfl⟩
    constructor
    · have gap := loose.gap
      have skip : heap.next b = Function.update heap.next cur (heap.next b) cur := by rw [Function.update_self]
      rw [skip] at gap
      apply loose.circle.insert loose.member gap
      · exact Function.update_self _ _ _
      · change Function.update heap.next cur b b = _
        rw [Function.update_of_ne different, Function.update_self]
      · intro entry found notCur
        change Function.update heap.next cur b entry = _
        rw [Function.update_of_ne notCur, Function.update_of_ne notCur]
    · exact Finset.mem_insert_of_mem loose.member
    · rw [Finset.insert_union]
      exact loose.tiling
    · exact Finset.disjoint_insert_left.mpr ⟨loose.notLive, loose.apart⟩
    · intro entry another found present
      change entry + heap.width entry ≠ another
      rcases Finset.mem_insert.mp found with new | old
      · rcases Finset.mem_insert.mp present with newer | older
        · have wide := loose.tiling.positive b (Finset.mem_insert_self _ _)
          rw [new, newer]
          omega
        · exact new ▸ loose.ends another older
      · rcases Finset.mem_insert.mp present with newer | older
        · intro contiguous
          have last := loose.before old (contiguous.trans newer)
          exact leaves (last ▸ contiguous.trans newer)
        · exact loose.gaps entry another old older

/-- What `slob_free` leaves: the block is covered by one of the free entries,
and an entry that does not touch it stays what it was. -/
structure Freed (heap after : Heap) (free live owned : Finset Nat) (b : Nat) : Prop where
  asked : after.asked = heap.asked
  lives : forall block, block ∈ live -> after.units block = heap.units block
  laid : Exists fun rest => Laid after rest live owned /\
    Exists fun cover => cover ∈ rest /\ heap.units b <= after.units cover /\
      forall entry, entry ∈ free -> entry + heap.width entry ≠ b -> b + heap.width b ≠ entry ->
        entry ∈ rest /\ entry ≠ cover

theorem slobInsert_meets (circle : Circle heap.next free) (start : heap.slobfree ∈ free)
    (tiling : BlockTiling heap.width (insert b (free ∪ live)) owned) (apart : Disjoint free live)
    (notFree : b ∉ free) (notLive : b ∉ live)
    (gaps : forall entry other, entry ∈ free -> other ∈ free -> entry + heap.width entry ≠ other)
    (several : heap.next heap.slobfree = heap.slobfree -> b + heap.width b ≠ heap.slobfree)
    (room : free.card < heap.limit) (freed : forall after, Freed heap after free live owned b -> done () after) :
    Meets (slobInsert b) heap ⟨done, fail, stop⟩ := by
  unfold slobInsert
  simp only [meets_bind, meets_get]
  apply insertionPoint_meets circle notFree start (Nat.lt_of_le_of_lt (Circle.ahead_card_le _ _) room)
  intro cur member gap
  have alone : heap.next cur = cur -> b + heap.width b ≠ cur := by
    intro single
    have same : heap.slobfree = cur := circle.only member start single
    rw [← same] at single ⊢
    exact several single
  refine (joinNext_loose circle member gap tiling apart notFree notLive gaps alone).mono ?_ (fun _ _ failed => failed)
    (fun _ stopped => stopped)
  rintro _ joined ⟨asked, wider, others, rest, loose, inside, kept⟩
  refine (joinPrevious_laid loose).mono ?_ (fun _ _ failed => failed) (fun _ stopped => stopped)
  rintro _ linked ⟨askedToo, lives, final, laid, more, cover, covers, large, which⟩
  apply freed
  constructor
  · exact askedToo.trans asked
  · intro block found
    exact (lives block found).trans (others block (fun same => notLive (same ▸ found)))
  · refine ⟨final, laid, cover, covers, Nat.le_trans wider large, ?_⟩
    intro entry found before behind
    refine ⟨more (kept entry found behind), ?_⟩
    rcases which with here | ⟨here, contiguous⟩
    · exact fun same => notFree (here ▸ same ▸ found)
    · intro same
      rw [same, here] at before
      apply before
      rw [← contiguous]
      have notB : cur ≠ b := fun clash => notFree (clash ▸ member)
      unfold Heap.width
      rw [others cur notB]

end Slob
end Ucore
