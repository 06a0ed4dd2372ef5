import Mathlib.Data.List.Perm.Subperm
import Ucore.Memory.FirstFit

namespace Ucore
namespace Memory

open Library

/-!
# The free list of the first-fit allocator

The invariant lists the free blocks by address.  Allocation and merging keep
it.  Insertion keeps it when some listed block lies above the new one, or the
list is empty: the loop then stops at its `break`.  A block above the last
one is inserted by the branch without `break`; the loop goes on, visits the
block it has just linked, and links it after itself.
-/

/-- The list node of a free block. -/
def blockNode (block : Nat × Nat) : ListNode Unit := .page block.1

/-- The first block ends before the second starts. -/
def Below (first second : Nat × Nat) : Prop := first.1 < second.1 /\ first.1 + first.2 <= second.1

/-- `blocks` are the listed blocks with their sizes, first to last.  The
region starts at `low` and has `n` pages, of which `default_init_memmap`
records `unsignedInt n`. -/
structure FreeBlocks (sys : FirstFit) (low n : Nat) (held : List Nat) (blocks : List (Nat × Nat)) : Prop where
  ring : sys.links.Ring freeList (blocks.map blockNode)
  sorted : blocks.Pairwise Below
  fields : forall block, block ∈ blocks -> (sys.page block.1).property = block.2
  flags : forall p, low <= p -> p < low + n ->
    (pageProperty (sys.page p) = true <-> p ∈ blocks.map Prod.fst)
  unreserved : forall p, low <= p -> p < low + n -> pageReserved (sys.page p) = false
  inside : forall block, block ∈ blocks ->
    low <= block.1 /\ block.1 < low + n /\ block.1 + block.2 <= low + unsignedInt n
  heldInside : forall p, p ∈ held -> low <= p /\ p < low + unsignedInt n
  apart : forall block p, block ∈ blocks -> p ∈ held -> p < block.1 \/ (p ≠ block.1 /\ block.1 + block.2 <= p)
  total : (blocks.map Prod.snd).sum = sys.nrFree.toNat

theorem unsignedInt_le (n : Nat) : unsignedInt n <= n := Nat.mod_le _ _

theorem unsignedInt_lt (n : Nat) : unsignedInt n < 2 ^ 32 := Nat.mod_lt _ (by decide)

theorem unsignedInt_eq {n : Nat} (small : n < 2 ^ 32) : unsignedInt n = n := Nat.mod_eq_of_lt small

/-- A middle element of a pairwise related list. -/
theorem pairwise_insert {Element : Type} {related : Element -> Element -> Prop}
    {before after : List Element} {element : Element} :
    (before ++ element :: after).Pairwise related <->
      (before ++ after).Pairwise related /\ (forall other, other ∈ before -> related other element) /\
        (forall other, other ∈ after -> related element other) := by
  simp only [List.pairwise_append, List.pairwise_cons, List.mem_cons]
  constructor
  · rintro ⟨first, ⟨head, second⟩, cross⟩
    exact ⟨⟨first, second, fun left leftMember right rightMember => cross left leftMember right (.inr rightMember)⟩,
      fun left leftMember => cross left leftMember element (.inl rfl), head⟩
  · rintro ⟨⟨first, second, cross⟩, left, head⟩
    refine ⟨first, ⟨head, second⟩, fun other member right choice => ?_⟩
    rcases choice with same | later
    · exact same ▸ left other member
    · exact cross other member right later

/-- Disjoint blocks in an interval have no more pages than the interval. -/
theorem sum_sizes_le {blocks : List (Nat × Nat)} {low high : Nat} (sorted : blocks.Pairwise Below)
    (inside : forall block, block ∈ blocks -> low <= block.1 /\ block.1 + block.2 <= high)
    (bounds : low <= high) : low + (blocks.map Prod.snd).sum <= high := by
  induction blocks generalizing low with
  | nil => exact bounds
  | cons block rest inductionHypothesis =>
      have parts := List.pairwise_cons.mp sorted
      have here := inside block List.mem_cons_self
      have later : block.1 + block.2 + (rest.map Prod.snd).sum <= high := inductionHypothesis parts.2
        (fun other member => ⟨(parts.1 other member).2, (inside other (List.mem_cons_of_mem _ member)).2⟩)
        here.2
      rw [List.map_cons, List.sum_cons]
      omega

namespace FreeBlocks

variable {sys : FirstFit} {low n : Nat} {held : List Nat} {blocks before after : List (Nat × Nat)}

/-- A held page heads no listed block. -/
theorem held_unlisted (free : FreeBlocks sys low n held blocks) {p : Nat} (member : p ∈ held) :
    p ∉ blocks.map Prod.fst := by
  intro listed
  rcases List.mem_map.mp listed with ⟨block, blockMember, start⟩
  rcases free.apart block p blockMember member with less | different
  · omega
  · exact different.1 start.symm

theorem fresh_node {p : Nat} (unlisted : p ∉ blocks.map Prod.fst) :
    ListNode.page p ∉ freeList :: blocks.map blockNode := by
  intro member
  rcases List.mem_cons.mp member with atHead | inside
  · cases atHead
  · rcases List.mem_map.mp inside with ⟨block, blockMember, same⟩
    cases same
    exact unlisted (List.mem_map_of_mem blockMember)

theorem length_le (free : FreeBlocks sys low n held blocks) : blocks.length <= n := by
  have starts : (blocks.map Prod.fst).Nodup := by
    rw [List.nodup_iff_pairwise_ne, List.pairwise_map]
    exact free.sorted.imp (fun below => Nat.ne_of_lt below.1)
  have sub : blocks.map Prod.fst ⊆ List.range' low n := by
    intro p member
    rcases List.mem_map.mp member with ⟨block, blockMember, start⟩
    have inside := free.inside block blockMember
    rw [List.mem_range'_1]
    omega
  have counted := (List.subperm_of_subset starts sub).length_le
  rw [List.length_map, List.length_range'] at counted
  exact counted

end FreeBlocks

namespace FirstFit

variable {sys : FirstFit} {low n : Nat} {held : List Nat} {blocks before after : List (Nat × Nat)}

/-! ## Walks -/

/-- The last node of a prefix of the list, the list head included. -/
def lastNode (before : List (Nat × Nat)) : ListNode Unit :=
  (freeList :: before.map blockNode).getLast (by simp)

@[simp] theorem lastNode_nil : lastNode [] = freeList := rfl

@[simp] theorem lastNode_append (before : List (Nat × Nat)) (block : Nat × Nat) :
    lastNode (before ++ [block]) = blockNode block := by
  simp [lastNode]

theorem seam (ring : sys.links.Ring freeList ((before ++ after).map blockNode)) :
    sys.links.Adjacent (lastNode before) ((after.map blockNode).headD freeList) := by
  rw [List.map_append] at ring
  exact ring.seam

/-- The search finds the first block that is large enough, or passes all. -/
theorem findFit_spec (request : Nat) {fuel : Nat}
    (ring : sys.links.Ring freeList ((before ++ after).map blockNode))
    (fields : forall block, block ∈ after -> (sys.page block.1).property = block.2)
    (enough : after.length < fuel) :
    (sys.findFit request fuel (lastNode before) = some none) \/
      Exists fun first => Exists fun block => Exists fun last =>
        after = first ++ block :: last /\ request <= block.2 /\
          sys.findFit request fuel (lastNode before) = some (some block.1) := by
  induction after generalizing before fuel with
  | nil =>
      rcases Nat.exists_eq_succ_of_ne_zero (Nat.ne_of_gt enough) with ⟨fuel, equal⟩
      subst equal
      left
      have next : listNext sys.links (lastNode before) = freeList := (seam ring).1
      rw [findFit, next]
  | cons block rest inductionHypothesis =>
      rcases Nat.exists_eq_succ_of_ne_zero (Nat.ne_of_gt (Nat.lt_of_le_of_lt (Nat.zero_le _) enough)) with
        ⟨fuel, equal⟩
      subst equal
      have next : listNext sys.links (lastNode before) = .page block.1 := (seam ring).1
      rw [findFit, next]
      simp only [fields block List.mem_cons_self]
      by_cases large : block.2 >= request
      · exact .inr ⟨[], block, rest, rfl, large, if_pos large⟩
      · rw [if_neg large]
        have split : before ++ block :: rest = (before ++ [block]) ++ rest := by simp
        rw [split] at ring
        have later := inductionHypothesis ring (fun other member => fields other (List.mem_cons_of_mem _ member))
          (by rw [List.length_cons] at enough; exact Nat.lt_of_succ_lt_succ enough)
        rw [lastNode_append] at later
        rcases later with missed | ⟨first, found, last, splitRest, fits, result⟩
        · exact .inl missed
        · exact .inr ⟨block :: first, found, last, by rw [splitRest]; rfl, fits, result⟩

/-- With a listed block above it, the new block goes before the first such
block, and the loop stops there. -/
theorem insertLoop_spec {base fuel : Nat}
    (ring : sys.links.Ring freeList ((before ++ after).map blockNode))
    (above : Exists fun block => block ∈ after /\ base < block.1) (enough : after.length < fuel) :
    Exists fun first => Exists fun block => Exists fun last =>
      after = first ++ block :: last /\ (forall other, other ∈ first -> other.1 <= base) /\ base < block.1 /\
        insertLoop base fuel sys (lastNode before) =
          some { sys with links := listAddBefore sys.links (blockNode block) (.page base) } := by
  induction after generalizing before fuel with
  | nil =>
      rcases above with ⟨_, member, _⟩
      cases member
  | cons block rest inductionHypothesis =>
      rcases Nat.exists_eq_succ_of_ne_zero (Nat.ne_of_gt (Nat.lt_of_le_of_lt (Nat.zero_le _) enough)) with
        ⟨fuel, equal⟩
      subst equal
      have next : listNext sys.links (lastNode before) = .page block.1 := (seam ring).1
      rw [insertLoop, next]
      by_cases less : base < block.1
      · exact ⟨[], block, rest, rfl, fun _ member => absurd member List.not_mem_nil, less, if_pos less⟩
      · have split : before ++ block :: rest = (before ++ [block]) ++ rest := by simp
        rw [split] at ring
        have restAbove : Exists fun other => other ∈ rest /\ base < other.1 := by
          rcases above with ⟨other, member, higher⟩
          rcases List.mem_cons.mp member with same | later
          · exact absurd (same ▸ higher) less
          · exact ⟨other, later, higher⟩
        have notLast : ¬ listNext sys.links (.page block.1) = freeList := by
          have following := (seam ring).1
          rw [lastNode_append] at following
          change ¬ sys.links.next (blockNode block) = freeList
          rw [following]
          cases rest with
          | nil =>
              rcases restAbove with ⟨_, member, _⟩
              cases member
          | cons other _ => exact fun same => by cases same
        have later := inductionHypothesis ring restAbove
          (by rw [List.length_cons] at enough; exact Nat.lt_of_succ_lt_succ enough)
        rw [lastNode_append] at later
        rcases later with ⟨first, found, last, splitRest, lower, higher, result⟩
        refine ⟨block :: first, found, last, by rw [splitRest]; rfl, ?_, higher, ?_⟩
        · intro other member
          rcases List.mem_cons.mp member with same | old
          · exact same ▸ Nat.le_of_not_lt less
          · exact lower other old
        · simp only [if_neg less, if_neg notLast]
          exact result

/-! ## Allocation -/

/-- What remains of a block after its first pages are taken. -/
def remainder (block : Nat × Nat) (request : Nat) : List (Nat × Nat) :=
  if block.2 > request then [(block.1 + request, block.2 - request)] else []

theorem mem_remainder {block other : Nat × Nat} {request : Nat} :
    other ∈ remainder block request <->
      block.2 > request /\ other = (block.1 + request, block.2 - request) := by
  rw [remainder]
  by_cases split : block.2 > request
  · simp [split]
  · simp [split]

theorem ring_takeFrom {block : Nat × Nat} {request : Nat}
    (ring : sys.links.Ring freeList ((before ++ block :: after).map blockNode))
    (field : (sys.page block.1).property = block.2)
    (unlisted : block.2 > request -> block.1 + request ∉ (before ++ after).map Prod.fst) :
    (sys.takeFrom block.1 request).links.Ring freeList
      ((before ++ remainder block request ++ after).map blockNode) := by
  rw [List.map_append, List.map_cons] at ring
  have shorter := ring_listDel ring
  have prev : listPrev sys.links (blockNode block) = lastNode before := ring.seam.2
  rw [takeFrom, remainder]
  simp only [field]
  by_cases split : block.2 > request
  · simp only [if_pos split]
    change (listAdd (listDel sys.links (blockNode block)) (listPrev sys.links (blockNode block))
      (.page (block.1 + request))).Ring freeList _
    rw [prev]
    have fresh := FreeBlocks.fresh_node (unlisted split)
    rw [List.map_append] at fresh
    have added := ring_listAdd shorter fresh
    simpa [lastNode, blockNode] using added
  · simp only [if_neg split, List.append_nil]
    rw [List.map_append]
    exact shorter

theorem takeFrom_page (sys : FirstFit) (start : Nat) {request : Nat} (positive : request > 0) (p : Nat) :
    (sys.takeFrom start request).page p =
      if p = start then clearPageProperty (sys.page start)
      else if (sys.page start).property > request /\ p = start + request then
        setPageProperty { sys.page p with property := unsignedInt ((sys.page start).property - request) }
      else sys.page p := by
  have apart : start ≠ start + request := by omega
  rw [takeFrom]
  by_cases split : (sys.page start).property > request
  · simp only [split, if_true, grant_page, relist_page, if_neg apart, true_and]
    split_ifs with atStart atRest
    · rfl
    · rw [atRest]
    · rfl
  · simp only [split, if_false, grant_page, false_and]

theorem takeFrom_nrFree (start request : Nat) :
    (sys.takeFrom start request).nrFree = sys.nrFree - UInt32.ofNat request := by
  rw [takeFrom]
  by_cases split : (sys.page start).property > request
  · rw [if_pos split]
    rfl
  · rw [if_neg split]
    rfl

theorem remainder_sum (before after : List (Nat × Nat)) {block : Nat × Nat} {request : Nat}
    (fits : request <= block.2) :
    ((before ++ remainder block request ++ after).map Prod.snd).sum + request =
      ((before ++ block :: after).map Prod.snd).sum := by
  rw [remainder]
  split <;>
    simp only [List.map_append, List.map_cons, List.map_nil, List.sum_append, List.sum_cons,
      List.sum_nil] <;> omega

/-- The counter drops by the taken pages. -/
theorem takeFrom_total {block : Nat × Nat} {request : Nat}
    (total : ((before ++ block :: after).map Prod.snd).sum = sys.nrFree.toNat) (fits : request <= block.2) :
    ((before ++ remainder block request ++ after).map Prod.snd).sum =
      (sys.takeFrom block.1 request).nrFree.toNat := by
  have sizes := remainder_sum before after fits
  have counted := sys.nrFree.toNat_lt
  have requestNat : (UInt32.ofNat request).toNat = request := UInt32.toNat_ofNat_of_lt' (by
    change request < 2 ^ 32
    omega)
  have enough : UInt32.ofNat request <= sys.nrFree := by
    rw [UInt32.le_iff_toNat_le, requestNat]
    omega
  rw [takeFrom_nrFree, UInt32.toNat_sub_of_le _ _ enough, requestNat]
  omega

/-- The taken pages move from the block to the held pages. -/
theorem takeFrom_blocks {block : Nat × Nat} {request : Nat}
    (free : FreeBlocks sys low n held (before ++ block :: after)) (positive : request > 0)
    (fits : request <= block.2) :
    FreeBlocks (sys.takeFrom block.1 request) low n (List.range' block.1 request ++ held)
      (before ++ remainder block request ++ after) := by
  have order := pairwise_insert.mp free.sorted
  have member : block ∈ before ++ block :: after := by simp
  have field := free.fields block member
  have inside := free.inside block member
  have small := unsignedInt_lt n
  have members : forall other, other ∈ before ++ remainder block request ++ after <->
      other ∈ before ++ after \/ (block.2 > request /\ other = (block.1 + request, block.2 - request)) := by
    intro other
    rw [← mem_remainder]
    simp only [List.mem_append]
    tauto
  have keeps : forall other, other ∈ before ++ after -> other ∈ before ++ block :: after := by
    intro other otherMember
    simp only [List.mem_append, List.mem_cons] at otherMember ⊢
    tauto
  have away : forall other, other ∈ before ++ after ->
      (other.1 < block.1 /\ other.1 + other.2 <= block.1) \/ (block.1 < other.1 /\ block.1 + block.2 <= other.1) := by
    intro other otherMember
    rcases List.mem_append.mp otherMember with earlier | later
    · exact .inl (order.2.1 other earlier)
    · exact .inr (order.2.2 other later)
  have pages := fun p => takeFrom_page sys block.1 positive p
  rw [field] at pages
  refine ⟨ring_takeFrom free.ring field fun split found => ?_, ?_, ?_, ?_, ?_, ?_, ?_, ?_, ?_⟩
  · rcases List.mem_map.mp found with ⟨other, otherMember, start⟩
    have place := away other otherMember
    omega
  · rw [remainder]
    split
    · rw [List.append_assoc, List.singleton_append, pairwise_insert]
      refine ⟨order.1, fun other earlier => ?_, fun other later => ?_⟩
      · have below := order.2.1 other earlier
        simp only [Below] at below ⊢
        omega
      · have below := order.2.2 other later
        simp only [Below] at below ⊢
        omega
    · rw [List.append_nil]
      exact order.1
  · intro other otherMember
    rcases (members other).mp otherMember with old | ⟨split, new⟩
    · have place := away other old
      rw [pages, if_neg (by omega), if_neg (by omega)]
      exact free.fields other (keeps other old)
    · subst new
      rw [pages, if_neg (by omega), if_pos ⟨split, rfl⟩]
      exact unsignedInt_eq (by omega)
  · intro p lower upper
    have old := free.flags p lower upper
    have starts : p ∈ (before ++ remainder block request ++ after).map Prod.fst <->
        p ∈ (before ++ after).map Prod.fst \/ (block.2 > request /\ p = block.1 + request) := by
      simp only [List.mem_map, members]
      constructor
      · rintro ⟨other, kept | ⟨split, new⟩, start⟩
        · exact .inl ⟨other, kept, start⟩
        · exact .inr ⟨split, by rw [← start, new]⟩
      · rintro (⟨other, kept, start⟩ | ⟨split, start⟩)
        · exact ⟨other, .inl kept, start⟩
        · exact ⟨_, .inr ⟨split, rfl⟩, start.symm⟩
    have oldStarts : p ∈ (before ++ block :: after).map Prod.fst <->
        p = block.1 \/ p ∈ (before ++ after).map Prod.fst := by
      simp only [List.map_append, List.map_cons, List.mem_append, List.mem_cons]
      tauto
    rw [oldStarts] at old
    rw [starts, pages]
    by_cases atStart : p = block.1
    · rw [if_pos atStart]
      have absent : p ∉ (before ++ after).map Prod.fst := by
        intro found
        rcases List.mem_map.mp found with ⟨other, otherMember, start⟩
        have place := away other otherMember
        omega
      simp only [pageProperty_clear, Bool.false_eq_true, absent, false_or, false_iff]
      omega
    · rw [if_neg atStart]
      by_cases atRest : block.2 > request /\ p = block.1 + request
      · rw [if_pos atRest, pageProperty_set]
        exact iff_of_true rfl (.inr atRest)
      · rw [if_neg atRest, old]
        tauto
  · intro p lower upper
    rw [pages]
    split_ifs with atStart atRest
    · rw [← atStart]
      exact free.unreserved p lower upper
    · exact free.unreserved p lower upper
    · exact free.unreserved p lower upper
  · intro other otherMember
    rcases (members other).mp otherMember with old | ⟨split, new⟩
    · exact free.inside other (keeps other old)
    · subst new
      have bounded := unsignedInt_le n
      exact ⟨by omega, by omega, by omega⟩
  · intro p found
    rcases List.mem_append.mp found with new | old
    · have range := List.mem_range'_1.mp new
      exact ⟨by omega, by omega⟩
    · exact free.heldInside p old
  · intro other p otherMember found
    rcases (members other).mp otherMember with kept | ⟨split, new⟩
    · rcases List.mem_append.mp found with taken | old
      · have range := List.mem_range'_1.mp taken
        have place := away other kept
        omega
      · exact free.apart other p (keeps other kept) old
    · subst new
      rcases List.mem_append.mp found with taken | old
      · have range := List.mem_range'_1.mp taken
        exact .inl range.2
      · have place := free.apart block p member old
        omega
  · exact takeFrom_total free.total fits

/-- Allocation returns, and serves the request from listed pages or leaves
everything as it was. -/
theorem allocPages_blocks {fuel request : Nat} (free : FreeBlocks sys low n held blocks)
    (positive : request > 0) (enough : n < fuel) :
    sys.allocPages fuel request = some (none, sys) \/
      Exists fun base => Exists fun next => Exists fun nextBlocks =>
        sys.allocPages fuel request = some (some base, next) /\
          (forall p, p ∈ List.range' base request -> p ∉ held) /\
          FreeBlocks next low n (List.range' base request ++ held) nextBlocks := by
  rw [allocPages, if_pos positive]
  by_cases scarce : request > sys.nrFree.toNat
  · exact .inl (if_pos scarce)
  · rw [if_neg scarce]
    have ring : sys.links.Ring freeList (([] ++ blocks).map blockNode) := free.ring
    have walk := findFit_spec request ring free.fields (Nat.lt_of_le_of_lt free.length_le enough)
    rw [lastNode_nil] at walk
    rcases walk with missed | ⟨before, block, after, split, fits, found⟩
    · exact .inl (by rw [missed])
    · subst split
      right
      refine ⟨block.1, sys.takeFrom block.1 request, _, by rw [found], ?_, takeFrom_blocks free positive fits⟩
      intro p taken member
      have range := List.mem_range'_1.mp taken
      have place := free.apart block p (by simp) member
      omega

/-! ## Release -/

/-- The block is below the last listed one, or nothing is listed. -/
def BelowLast (sys : FirstFit) (base : Nat) : Prop :=
  match listPrev sys.links freeList with
  | .head _ => True
  | .page last => base < last

instance (sys : FirstFit) (base : Nat) : Decidable (sys.BelowLast base) :=
  match found : listPrev sys.links freeList with
  | .head _ => isTrue (by
      rw [BelowLast, found]
      trivial)
  | .page last => decidable_of_iff (base < last) (by rw [BelowLast, found])

theorem clearHeld_spec {base count : Nat}
    (allowed : forall p, base <= p -> p < base + count ->
      pageReserved (sys.page p) = false /\ pageProperty (sys.page p) = false) :
    Exists fun cleared => clearHeld base count sys = some cleared /\
      cleared.links = sys.links /\ cleared.nrFree = sys.nrFree /\
      forall p, cleared.page p =
        if base <= p /\ p < base + count then { sys.page p with flags := {}, ref := 0 } else sys.page p := by
  induction count generalizing base sys with
  | zero =>
      refine ⟨sys, rfl, rfl, rfl, fun p => ?_⟩
      rw [if_neg (by omega)]
  | succ count inductionHypothesis =>
      let next : FirstFit :=
        { sys with page := Function.update sys.page base { sys.page base with flags := {}, ref := 0 } }
      have nextPage : forall p, next.page p =
          if p = base then { sys.page base with flags := {}, ref := 0 } else sys.page p :=
        fun p => Function.update_apply ..
      have laterAllowed : forall p, base + 1 <= p -> p < base + 1 + count ->
          pageReserved (next.page p) = false /\ pageProperty (next.page p) = false := by
        intro p lower upper
        rw [nextPage, if_neg (by omega)]
        exact allowed p (by omega) (by omega)
      rcases inductionHypothesis laterAllowed with ⟨cleared, result, links, nrFree, pages⟩
      refine ⟨cleared, ?_, links, nrFree, fun p => ?_⟩
      · rw [clearHeld, if_pos (allowed base (Nat.le_refl _) (by omega))]
        exact result
      · rw [pages, nextPage]
        by_cases atBase : p = base
        · subst atBase
          rw [if_neg (by omega), if_pos rfl, if_pos (by omega)]
        · rw [if_neg atBase]
          by_cases inside : base + 1 <= p /\ p < base + 1 + count
          · rw [if_pos inside, if_pos (by omega)]
          · rw [if_neg inside, if_neg (by omega)]

/-- A block below some listed one is inserted where the order wants it. -/
theorem insertFree_spec {fuel base : Nat} (ring : sys.links.Ring freeList (blocks.map blockNode))
    (sorted : blocks.Pairwise Below) (unlisted : base ∉ blocks.map Prod.fst) (below : sys.BelowLast base)
    (enough : blocks.length < fuel) (size : Nat) :
    Exists fun before => Exists fun after => Exists fun links =>
      blocks = before ++ after /\ (forall other, other ∈ before -> other.1 < base) /\
        (forall other, other ∈ after -> base < other.1) /\
        sys.insertFree fuel base = some { sys with links := links } /\
        links.Ring freeList ((before ++ (base, size) :: after).map blockNode) := by
  have fresh := FreeBlocks.fresh_node unlisted
  rw [insertFree]
  cases blocks with
  | nil =>
      rw [if_pos ((listEmpty_iff ring).mpr rfl)]
      exact ⟨[], [], _, rfl, fun _ member => absurd member List.not_mem_nil,
        fun _ member => absurd member List.not_mem_nil, rfl, ring_listAdd_head ring fresh⟩
  | cons block rest =>
      have occupied : ¬ listEmpty sys.links freeList = true := by
        intro empty
        have none := (listEmpty_iff ring).mp empty
        cases none
      rw [if_neg occupied]
      have above : Exists fun other => other ∈ block :: rest /\ base < other.1 := by
        refine ⟨(block :: rest).getLast (by simp), List.getLast_mem _, ?_⟩
        have last : listPrev sys.links freeList = blockNode ((block :: rest).getLast (by simp)) := by
          change sys.links.prev freeList = _
          rw [ring.path.prev_right]
          exact (List.getLast_cons (by simp)).trans (List.getLast_map (by simp))
        rw [BelowLast, last] at below
        exact below
      have whole : sys.links.Ring freeList (([] ++ (block :: rest)).map blockNode) := ring
      rcases insertLoop_spec whole above enough with ⟨before, next, after, split, lower, higher, result⟩
      rw [split] at ring sorted unlisted fresh
      refine ⟨before, next :: after, _, split, ?_, ?_, result, ?_⟩
      · intro other member
        refine Nat.lt_of_le_of_ne (lower other member) (fun same => unlisted ?_)
        exact same ▸ List.mem_map_of_mem (List.mem_append_left _ member)
      · intro other member
        rcases List.mem_cons.mp member with same | later
        · exact same ▸ higher
        · exact Nat.lt_trans higher ((pairwise_insert.mp sorted).2.2 other later).1
      · rw [List.map_append, List.map_cons] at ring fresh ⊢
        exact ring_listAddBefore ring fresh

/-- The descriptors of held pages pass the checks of the release. -/
theorem owned_allowed {base count : Nat} (free : FreeBlocks sys low n held blocks)
    (owned : forall p, p ∈ List.range' base count -> p ∈ held) (p : Nat) (lower : base <= p)
    (upper : p < base + count) :
    pageReserved (sys.page p) = false /\ pageProperty (sys.page p) = false := by
  have member := owned p (List.mem_range'_1.mpr ⟨lower, upper⟩)
  have inside := free.heldInside p member
  have recorded := unsignedInt_le n
  refine ⟨free.unreserved p inside.1 (by omega), ?_⟩
  rw [Bool.eq_false_iff]
  intro flagged
  exact free.held_unlisted member ((free.flags p inside.1 (by omega)).mp flagged)

/-- The released pages form a block, linked where the order wants it. -/
theorem mark_blocks {base count : Nat} {cleared : FirstFit} {links : Links (ListNode Unit)}
    (free : FreeBlocks sys low n held (before ++ after)) (positive : count > 0)
    (owned : forall p, p ∈ List.range' base count -> p ∈ held) (nrFree : cleared.nrFree = sys.nrFree)
    (pages : forall p, cleared.page p =
      if base <= p /\ p < base + count then { sys.page p with flags := {}, ref := 0 } else sys.page p)
    (lower : forall other, other ∈ before -> other.1 < base) (higher : forall other, other ∈ after -> base < other.1)
    (newRing : links.Ring freeList ((before ++ (base, count) :: after).map blockNode)) :
    FreeBlocks { cleared.markFree base count with links := links } low n
      (held.filter (fun p => p ∉ List.range' base count)) (before ++ (base, count) :: after) := by
  have range : forall p, p ∈ List.range' base count <-> base <= p /\ p < base + count :=
    fun p => List.mem_range'_1
  have first := owned base ((range base).mpr ⟨Nat.le_refl _, by omega⟩)
  have last := owned (base + count - 1) ((range _).mpr ⟨by omega, by omega⟩)
  have firstInside := free.heldInside _ first
  have lastInside := free.heldInside _ last
  have recorded := unsignedInt_le n
  have small := unsignedInt_lt n
  have newPages : forall p, (cleared.markFree base count).page p =
      if p = base then setPageProperty { cleared.page base with property := unsignedInt count }
      else cleared.page p := fun p => Function.update_apply ..
  have outside : forall block, block ∈ before ++ after ->
      (block.1 < base /\ block.1 + block.2 <= base) \/ (base < block.1 /\ base + count <= block.1) := by
    intro block member
    have place := free.apart block base member first
    by_cases less : block.1 < base
    · exact .inl ⟨less, by omega⟩
    · refine .inr ⟨by omega, ?_⟩
      by_contra overlaps
      have held := owned block.1 ((range _).mpr ⟨by omega, by omega⟩)
      exact free.held_unlisted held (List.mem_map_of_mem member)
  have members : forall block, block ∈ before ++ (base, count) :: after <->
      block = (base, count) \/ block ∈ before ++ after := by
    intro block
    simp only [List.mem_append, List.mem_cons]
    tauto
  have sorted : (before ++ (base, count) :: after).Pairwise Below := by
    refine pairwise_insert.mpr ⟨free.sorted, fun block earlier => ?_, fun block later => ?_⟩
    · have place := outside block (List.mem_append_left _ earlier)
      have less := lower block earlier
      exact ⟨less, by omega⟩
    · have place := outside block (List.mem_append_right _ later)
      have less := higher block later
      exact ⟨less, by omega⟩
  have inside : forall block, block ∈ before ++ (base, count) :: after ->
      low <= block.1 /\ block.1 < low + n /\ block.1 + block.2 <= low + unsignedInt n := by
    intro block member
    rcases (members block).mp member with new | old
    · subst new
      exact ⟨by omega, by omega, by omega⟩
    · exact free.inside block old
  refine ⟨newRing, sorted, ?_, ?_, ?_, inside, ?_, ?_, ?_⟩
  · intro block member
    change ((cleared.markFree base count).page block.1).property = _
    rcases (members block).mp member with new | old
    · subst new
      rw [newPages, if_pos rfl]
      exact unsignedInt_eq (by omega)
    · have place := outside block old
      rw [newPages, if_neg (by omega), pages, if_neg (by omega)]
      exact free.fields block old
  · intro p lowerBound upperBound
    change pageProperty ((cleared.markFree base count).page p) = true <-> _
    have starts : p ∈ (before ++ (base, count) :: after).map Prod.fst <->
        p = base \/ p ∈ (before ++ after).map Prod.fst := by
      simp only [List.map_append, List.map_cons, List.mem_append, List.mem_cons]
      tauto
    rw [starts, newPages]
    by_cases atBase : p = base
    · rw [if_pos atBase]
      exact iff_of_true rfl (.inl atBase)
    · rw [if_neg atBase, pages]
      by_cases freed : base <= p /\ p < base + count
      · rw [if_pos freed]
        refine iff_of_false Bool.false_ne_true ?_
        rintro (same | listed)
        · exact atBase same
        · exact free.held_unlisted (owned p ((range p).mpr freed)) listed
      · rw [if_neg freed, free.flags p lowerBound upperBound]
        exact ⟨.inr, fun choice => choice.resolve_left atBase⟩
  · intro p lowerBound upperBound
    change pageReserved ((cleared.markFree base count).page p) = false
    have clear : pageReserved (cleared.page p) = false := by
      rw [pages]
      split_ifs
      · rfl
      · exact free.unreserved p lowerBound upperBound
    rw [newPages]
    split_ifs with atBase
    · exact atBase ▸ clear
    · exact clear
  · intro p member
    exact free.heldInside p (List.mem_filter.mp member).1
  · intro block p blockMember member
    have parts := List.mem_filter.mp member
    have kept : ¬ (base <= p /\ p < base + count) := by
      have unfreed := of_decide_eq_true parts.2
      rw [range] at unfreed
      exact unfreed
    rcases (members block).mp blockMember with new | old
    · subst new
      omega
    · exact free.apart block p old parts.1
  · have counted := sum_sizes_le sorted
      (fun block member => ⟨(inside block member).1, (inside block member).2.2⟩) (Nat.le_add_right low _)
    have sizes : ((before ++ (base, count) :: after).map Prod.snd).sum =
        ((before ++ after).map Prod.snd).sum + count := by
      simp only [List.map_append, List.map_cons, List.sum_append, List.sum_cons]
      omega
    have old := free.total
    change _ = (cleared.nrFree + UInt32.ofNat count).toNat
    have countNat : (UInt32.ofNat count).toNat = count := UInt32.toNat_ofNat_of_lt' (by
      change count < 2 ^ 32
      omega)
    rw [nrFree, UInt32.toNat_add, countNat, Nat.mod_eq_of_lt (by omega)]
    omega

/-- The released pages form a listed block, before any merging. -/
theorem insert_blocks {fuel base count : Nat} (free : FreeBlocks sys low n held blocks)
    (positive : count > 0) (owned : forall p, p ∈ List.range' base count -> p ∈ held)
    (below : sys.BelowLast base) (enough : n < fuel) :
    Exists fun cleared => Exists fun inserted => Exists fun before => Exists fun after =>
      sys.clearHeld base count = some cleared /\
        (cleared.markFree base count).insertFree fuel base = some inserted /\
        FreeBlocks inserted low n (held.filter (fun p => p ∉ List.range' base count))
          (before ++ (base, count) :: after) := by
  have unlisted := free.held_unlisted (owned base (List.mem_range'_1.mpr ⟨Nat.le_refl _, by omega⟩))
  rcases clearHeld_spec (owned_allowed free owned) with ⟨cleared, clearing, links, nrFree, pages⟩
  have ring : (cleared.markFree base count).links.Ring freeList (blocks.map blockNode) := by
    change cleared.links.Ring _ _
    rw [links]
    exact free.ring
  have stillBelow : (cleared.markFree base count).BelowLast base := by
    change match listPrev cleared.links freeList with | .head _ => True | .page last => base < last
    rw [links]
    exact below
  rcases insertFree_spec ring free.sorted unlisted stillBelow (Nat.lt_of_le_of_lt free.length_le enough) count with
    ⟨before, after, newLinks, split, lower, higher, inserting, newRing⟩
  subst split
  exact ⟨cleared, _, before, after, clearing, inserting,
    mark_blocks free positive owned nrFree pages lower higher newRing⟩

/-! ## Merging -/

theorem coalesce_page (sys : FirstFit) (p q index : Nat) (different : q ≠ p) :
    (sys.coalesce p q).page index =
      if index = q then clearPageProperty (sys.page q)
      else if index = p then
        { sys.page p with property := unsignedInt ((sys.page p).property + (sys.page q).property) }
      else sys.page index := by
  simp only [coalesce, Function.update_apply, if_neg different]

theorem coalesce_blocks {start size next : Nat}
    (free : FreeBlocks sys low n held (before ++ (start, size) :: (start + size, next) :: after)) :
    FreeBlocks (sys.coalesce start (start + size)) low n held (before ++ (start, size + next) :: after) := by
  have order := pairwise_insert.mp free.sorted
  have tailOrder : ((before ++ [(start, size)]) ++ (start + size, next) :: after).Pairwise Below := by
    simpa using free.sorted
  have tail := pairwise_insert.mp tailOrder
  have headMember : (start, size) ∈ before ++ (start, size) :: (start + size, next) :: after := by simp
  have nextMember : (start + size, next) ∈ before ++ (start, size) :: (start + size, next) :: after := by simp
  have positive := (order.2.2 _ List.mem_cons_self).1
  have headField := free.fields _ headMember
  have nextField := free.fields _ nextMember
  have headInside := free.inside _ headMember
  have nextInside := free.inside _ nextMember
  have small := unsignedInt_lt n
  simp only at positive headField nextField headInside nextInside
  have different : start + size ≠ start := by omega
  have pages := fun index => coalesce_page sys start (start + size) index different
  have members : forall block, block ∈ before ++ (start, size + next) :: after <->
      block = (start, size + next) \/ block ∈ before ++ after := by
    intro block
    simp only [List.mem_append, List.mem_cons]
    tauto
  have keeps : forall block, block ∈ before ++ after ->
      block ∈ before ++ (start, size) :: (start + size, next) :: after := by
    intro block member
    simp only [List.mem_append, List.mem_cons] at member ⊢
    tauto
  have away : forall block, block ∈ before ++ after -> block.1 ≠ start /\ block.1 ≠ start + size := by
    intro block member
    rcases List.mem_append.mp member with earlier | later
    · have below := (order.2.1 block earlier).1
      simp only at below
      omega
    · have below := (tail.2.2 block later).1
      simp only at below
      omega
  refine ⟨?_, ?_, ?_, ?_, ?_, ?_, free.heldInside, ?_, ?_⟩
  · have ring := free.ring
    have split : (before ++ (start, size) :: (start + size, next) :: after).map blockNode =
        (before ++ [(start, size)]).map blockNode ++ blockNode (start + size, next) :: after.map blockNode := by
      simp
    rw [split] at ring
    have shorter := ring_listDel ring
    have joined : (before ++ (start, size + next) :: after).map blockNode =
        (before ++ [(start, size)]).map blockNode ++ after.map blockNode := by
      simp [blockNode]
    rw [joined]
    exact shorter
  · refine pairwise_insert.mpr ⟨?_, fun block earlier => order.2.1 block earlier, fun block later => ?_⟩
    · exact free.sorted.sublist (List.Sublist.append (List.Sublist.refl _)
        ((List.sublist_cons_self _ _).trans (List.sublist_cons_self _ _)))
    · have below := tail.2.2 block later
      simp only [Below] at below ⊢
      omega
  · intro block member
    rcases (members block).mp member with new | old
    · subst new
      rw [pages, if_neg (by omega), if_pos rfl, headField, nextField]
      exact unsignedInt_eq (by omega)
    · have place := away block old
      rw [pages, if_neg place.2, if_neg place.1]
      exact free.fields block (keeps block old)
  · intro p lowerBound upperBound
    have flags := free.flags p lowerBound upperBound
    have oldStarts : p ∈ (before ++ (start, size) :: (start + size, next) :: after).map Prod.fst <->
        p = start \/ p = start + size \/ p ∈ (before ++ after).map Prod.fst := by
      simp only [List.map_append, List.map_cons, List.mem_append, List.mem_cons]
      tauto
    have newStarts : p ∈ (before ++ (start, size + next) :: after).map Prod.fst <->
        p = start \/ p ∈ (before ++ after).map Prod.fst := by
      simp only [List.map_append, List.map_cons, List.mem_append, List.mem_cons]
      tauto
    have absent : start + size ∉ (before ++ after).map Prod.fst := by
      intro listed
      rcases List.mem_map.mp listed with ⟨block, member, same⟩
      exact (away block member).2 same
    rw [oldStarts] at flags
    rw [newStarts, pages]
    by_cases atNext : p = start + size
    · rw [if_pos atNext, atNext]
      refine iff_of_false Bool.false_ne_true ?_
      rintro (same | listed)
      · exact different same
      · exact absent listed
    · rw [if_neg atNext]
      have kept : pageProperty (sys.page p) = true <-> p = start \/ p ∈ (before ++ after).map Prod.fst := by
        rw [flags]
        exact ⟨fun choice => choice.imp_right (fun rest => rest.resolve_left atNext),
          fun choice => choice.imp_right .inr⟩
      by_cases atStart : p = start
      · rw [if_pos atStart]
        rw [atStart] at kept ⊢
        exact kept
      · rw [if_neg atStart]
        exact kept
  · intro p lowerBound upperBound
    rw [pages]
    split_ifs with atNext atStart
    · exact atNext ▸ free.unreserved p lowerBound upperBound
    · exact atStart ▸ free.unreserved p lowerBound upperBound
    · exact free.unreserved p lowerBound upperBound
  · intro block member
    rcases (members block).mp member with new | old
    · subst new
      exact ⟨headInside.1, headInside.2.1, by simp only; omega⟩
    · exact free.inside block (keeps block old)
  · intro block p member found
    rcases (members block).mp member with new | old
    · subst new
      have first := free.apart _ p headMember found
      have second := free.apart _ p nextMember found
      simp only at first second ⊢
      omega
    · exact free.apart block p (keeps block old) found
  · rw [show (sys.coalesce start (start + size)).nrFree = sys.nrFree from rfl, ← free.total]
    simp only [List.map_append, List.map_cons, List.sum_append, List.sum_cons]
    omega

/-- Two blocks with a page between them. -/
def Apart (first second : Nat × Nat) : Prop := first.1 + first.2 < second.1

/-- A page of one of the blocks. -/
def Covers (blocks : List (Nat × Nat)) (p : Nat) : Prop :=
  Exists fun block => block ∈ blocks /\ block.1 <= p /\ p < block.1 + block.2

/-- Two adjacent blocks cover what the one does that they become. -/
theorem covers_join {start size next p : Nat} :
    Covers (before ++ (start, size) :: (start + size, next) :: after) p <->
      Covers (before ++ (start, size + next) :: after) p := by
  simp only [Covers, List.mem_append, List.mem_cons]
  constructor
  · rintro ⟨block, earlier | rfl | rfl | later, lower, upper⟩
    · exact ⟨block, .inl earlier, lower, upper⟩
    · exact ⟨_, .inr (.inl rfl), lower, by dsimp only at upper ⊢; omega⟩
    · exact ⟨_, .inr (.inl rfl), by dsimp only at lower ⊢; omega, by dsimp only at upper ⊢; omega⟩
    · exact ⟨block, .inr (.inr later), lower, upper⟩
  · rintro ⟨block, earlier | rfl | later, lower, upper⟩
    · exact ⟨block, .inl earlier, lower, upper⟩
    · by_cases low : p < start + size
      · exact ⟨_, .inr (.inl rfl), lower, low⟩
      · exact ⟨_, .inr (.inr (.inl rfl)), Nat.le_of_not_lt low, by dsimp only at upper ⊢; omega⟩
    · exact ⟨block, .inr (.inr (.inr later)), lower, upper⟩

/-- The merge with the block before leaves no block that ends at the result. -/
theorem mergeBefore_blocks {base count : Nat}
    (free : FreeBlocks sys low n held (before ++ (base, count) :: after)) :
    Exists fun first => Exists fun size =>
      FreeBlocks (sys.mergeBefore base).1 low n held (first ++ ((sys.mergeBefore base).2, size) :: after) /\
        first.Sublist before /\
        (before.Pairwise Apart -> forall block, block ∈ first -> Apart block ((sys.mergeBefore base).2, size)) /\
        forall p, Covers (before ++ (base, count) :: after) p <->
          Covers (first ++ ((sys.mergeBefore base).2, size) :: after) p := by
  have ring := free.ring
  rw [List.map_append, List.map_cons] at ring
  have prev : listPrev sys.links (.page base) = lastNode before := ring.seam.2
  rw [mergeBefore, prev]
  rcases List.eq_nil_or_concat before with none | ⟨first, ⟨start, size⟩, split⟩
  · subst none
    exact ⟨[], count, free, .refl _, fun _ _ member => absurd member List.not_mem_nil, fun _ => .rfl⟩
  · rw [List.concat_eq_append] at split
    subst split
    rw [lastNode_append]
    have field := free.fields (start, size) (by simp)
    have order := (pairwise_insert.mp free.sorted).2.1 (start, size) (by simp)
    simp only [blockNode, field]
    by_cases adjacent : start + size = base
    · subst adjacent
      rw [if_pos rfl]
      have whole : FreeBlocks sys low n held (first ++ (start, size) :: (start + size, count) :: after) := by
        simpa using free
      refine ⟨first, size + count, coalesce_blocks whole, List.sublist_append_left _ _, fun apart block member => ?_,
        fun p => ?_⟩
      · exact (List.pairwise_append.mp apart).2.2 block member (start, size) (List.mem_singleton_self _)
      · rw [List.append_assoc, List.singleton_append]
        exact covers_join
    · rw [if_neg adjacent]
      refine ⟨first ++ [(start, size)], count, free, .refl _, fun apart block member => ?_, fun _ => .rfl⟩
      simp only [Below] at order
      rcases List.mem_append.mp member with earlier | here
      · have gap := (List.pairwise_append.mp apart).2.2 block earlier (start, size) (List.mem_singleton_self _)
        simp only [Apart] at gap ⊢
        omega
      · rw [List.mem_singleton.mp here]
        simp only [Apart]
        omega

/-- The merge with the block after leaves no block that begins at its end. -/
theorem mergeAfter_blocks {base count : Nat}
    (free : FreeBlocks sys low n held (before ++ (base, count) :: after)) :
    Exists fun blocks => FreeBlocks (sys.mergeAfter base) low n held blocks /\
      ((before ++ after).Pairwise Apart -> (forall block, block ∈ before -> Apart block (base, count)) ->
        blocks.Pairwise Apart) /\
      forall p, Covers (before ++ (base, count) :: after) p <-> Covers blocks p := by
  have ring := free.ring
  rw [List.map_append, List.map_cons] at ring
  have next : listNext sys.links (.page base) = (after.map blockNode).headD freeList := ring.neighbours.2
  rw [mergeAfter, next]
  cases after with
  | nil =>
      refine ⟨_, free, fun apart lower => pairwise_insert.mpr ⟨apart, lower, ?_⟩, fun _ => .rfl⟩
      exact fun _ member => absurd member List.not_mem_nil
  | cons block rest =>
      rcases block with ⟨start, size⟩
      have field := free.fields (base, count) (by simp)
      have order := (pairwise_insert.mp free.sorted).2.2 (start, size) List.mem_cons_self
      simp only [List.map_cons, List.headD_cons, blockNode, field]
      by_cases adjacent : base + count = start
      · subst adjacent
        rw [if_pos rfl]
        refine ⟨_, coalesce_blocks free, fun apart lower => ?_, fun p => covers_join⟩
        have parts := pairwise_insert.mp apart
        refine pairwise_insert.mpr ⟨parts.1, lower, fun other later => ?_⟩
        have gap := parts.2.2 other later
        simp only [Apart] at gap ⊢
        omega
      · rw [if_neg adjacent]
        refine ⟨_, free, fun apart lower => pairwise_insert.mpr ⟨apart, lower, fun other later => ?_⟩, fun _ => .rfl⟩
        simp only [Below] at order
        rcases List.mem_cons.mp later with same | further
        · rw [same]
          simp only [Apart]
          omega
        · have gap := (pairwise_insert.mp apart).2.2 other further
          simp only [Apart] at gap ⊢
          omega

/-- A release below the last listed block returns and keeps the list. -/
theorem freePages_blocks {fuel base count : Nat} (free : FreeBlocks sys low n held blocks)
    (positive : count > 0) (owned : forall p, p ∈ List.range' base count -> p ∈ held)
    (below : sys.BelowLast base) (enough : n < fuel) :
    Exists fun next => Exists fun nextBlocks => sys.freePages fuel base count = some next /\
      FreeBlocks next low n (held.filter (fun p => p ∉ List.range' base count)) nextBlocks := by
  rcases insert_blocks free positive owned below enough with
    ⟨cleared, inserted, before, after, clearing, inserting, listed⟩
  rcases mergeBefore_blocks listed with ⟨first, size, merged, _⟩
  rcases mergeAfter_blocks merged with ⟨nextBlocks, final, _⟩
  refine ⟨_, nextBlocks, ?_, final⟩
  rw [freePages, if_pos positive, clearing, Option.bind_some, inserting, Option.map_some]

/-! ## Initialisation -/

theorem clearReserved_spec {p remain : Nat} {cleared : FirstFit}
    (clearing : clearReserved p remain sys = some cleared) :
    cleared.links = sys.links /\ cleared.nrFree = sys.nrFree /\
      (forall index, (p <= index /\ index < p + remain) -> cleared.page index = {}) /\
      forall index, ¬ (p <= index /\ index < p + remain) -> cleared.page index = sys.page index := by
  induction remain generalizing p sys with
  | zero =>
      cases clearing
      exact ⟨rfl, rfl, fun index inside => absurd inside (by omega), fun _ _ => rfl⟩
  | succ remain inductionHypothesis =>
      rw [clearReserved] at clearing
      by_cases reserved : pageReserved (sys.page p) = true
      · rw [if_pos reserved] at clearing
        rcases inductionHypothesis clearing with ⟨links, nrFree, inside, outside⟩
        refine ⟨links, nrFree, fun index range => ?_, fun index away => ?_⟩
        · by_cases atHead : index = p
          · rw [outside index (by omega), atHead]
            exact Function.update_self ..
          · exact inside index (by omega)
        · rw [outside index (by omega)]
          exact Function.update_of_ne (by omega) _ _
      · rw [if_neg reserved] at clearing
        cases clearing

theorem initMemmap_blocks {fuel : Nat} {start : FirstFit}
    (started : sys.init.initMemmap fuel low n = some start) :
    FreeBlocks start low n [] [(low, unsignedInt n)] := by
  rw [initMemmap] at started
  by_cases positive : n > 0
  · rw [if_pos positive] at started
    rcases Option.bind_eq_some_iff.mp started with ⟨cleared, clearing, inserting⟩
    rcases clearReserved_spec clearing with ⟨links, nrFree, inside, _⟩
    have ring : (cleared.markFree low n).links.Ring freeList [] := by
      change cleared.links.Ring freeList []
      rw [links]
      exact Links.ring_reset _ _
    rw [insertFree, if_pos ((listEmpty_iff ring).mpr rfl)] at inserting
    cases inserting
    have recorded := unsignedInt_le n
    have pages : forall p, (cleared.markFree low n).page p =
        if p = low then setPageProperty { cleared.page low with property := unsignedInt n }
        else cleared.page p := fun p => Function.update_apply ..
    refine ⟨ring_listAdd_head ring (by simp), List.pairwise_singleton _ _, ?_, ?_, ?_, ?_,
      fun p member => absurd member List.not_mem_nil, fun _ p _ member => absurd member List.not_mem_nil, ?_⟩
    · intro block member
      rw [List.mem_singleton.mp member]
      change ((cleared.markFree low n).page low).property = _
      rw [pages, if_pos rfl]
      rfl
    · intro p lower upper
      change pageProperty ((cleared.markFree low n).page p) = true <-> p ∈ [low]
      rw [pages, List.mem_singleton]
      by_cases atLow : p = low
      · rw [if_pos atLow]
        exact iff_of_true rfl atLow
      · rw [if_neg atLow, inside p ⟨lower, upper⟩]
        exact iff_of_false Bool.false_ne_true atLow
    · intro p lower upper
      change pageReserved ((cleared.markFree low n).page p) = false
      rw [pages, inside low ⟨Nat.le_refl _, by omega⟩, inside p ⟨lower, upper⟩]
      split_ifs <;> rfl
    · intro block member
      rw [List.mem_singleton.mp member]
      exact ⟨Nat.le_refl _, by simp only; omega, Nat.le_refl _⟩
    · change unsignedInt n + 0 = (cleared.nrFree + UInt32.ofNat n).toNat
      rw [nrFree]
      change unsignedInt n + 0 = ((0 : UInt32) + UInt32.ofNat n).toNat
      rw [UInt32.zero_add, UInt32.toNat_ofNat', Nat.add_zero]
      rfl
  · rw [if_neg positive] at started
    cases started

end FirstFit

/-! ## The free list over whole histories -/

/-- What is said of the free list: it is a ring of the heads of disjoint blocks
by address, apart from the held pages, `PG_property` marks these heads, and
`nr_free` counts their pages. -/
def FreeListSound (history : FirstFitHistory) (low : Nat) : Prop :=
  Exists fun blocks : List (Nat × Nat) =>
    history.sys.links.Ring freeList (blocks.map blockNode) /\
    blocks.Pairwise Below /\
    (forall block p, block ∈ blocks -> p ∈ history.held -> ¬ (block.1 <= p /\ p < block.1 + block.2)) /\
    (forall p, low <= p -> p < low + history.size ->
      (pageProperty (history.sys.page p) = true <-> p ∈ blocks.map Prod.fst)) /\
    (forall block, block ∈ blocks -> (history.sys.page block.1).property = block.2) /\
    (blocks.map Prod.snd).sum = history.sys.nrFree.toNat

/-- No request is served with a page that is still held. -/
def NoDoubleAllocation (history : FirstFitHistory) : Prop :=
  forall n base sys, history.sys.allocPages history.fuel n = some (some base, sys) ->
    forall p, p ∈ List.range' base n -> p ∉ history.held

namespace FirstFitHistory

/-- The invariant of histories. -/
def WellListed (low n : Nat) (history : FirstFitHistory) : Prop :=
  history.size = n /\ Exists fun blocks => FreeBlocks history.sys low n history.held blocks

/-- The condition on one call: a release is below the last listed block.  The
branch that links a block at the end of the list has no `break`. -/
def FreesBelowLast (history : FirstFitHistory) : FirstFitAction -> Prop
  | .alloc _ => True
  | .free base _ => history.sys.BelowLast base

instance (history : FirstFitHistory) : forall action, Decidable (history.FreesBelowLast action)
  | .alloc _ => inferInstanceAs (Decidable True)
  | .free base _ => inferInstanceAs (Decidable (history.sys.BelowLast base))

theorem allocPages_positive {history : FirstFitHistory} {n : Nat} {result : Option Nat × FirstFit}
    (returned : history.sys.allocPages history.fuel n = some result) : n > 0 := by
  by_contra zero
  rw [FirstFit.allocPages, if_neg zero] at returned
  cases returned

theorem step_wellListed {low n : Nat} {history next : FirstFitHistory} {action : FirstFitAction}
    (listed : history.WellListed low n) (below : history.FreesBelowLast action)
    (stepped : history.step action = some next) : next.WellListed low n := by
  rcases listed with ⟨size, blocks, free⟩
  have enough : n < history.fuel := by
    rw [fuel, size]
    omega
  cases action with
  | alloc request =>
      cases result : history.sys.allocPages history.fuel request with
      | none => simp only [step, result, reduceCtorEq] at stepped
      | some outcome =>
          have positive := allocPages_positive result
          rcases FirstFit.allocPages_blocks free positive enough with
            missed | ⟨base, sys, nextBlocks, served, _, nextFree⟩
          · simp only [step, missed, Option.some.injEq] at stepped
            exact stepped ▸ ⟨size, blocks, free⟩
          · simp only [step, served, Option.some.injEq] at stepped
            exact stepped ▸ ⟨size, nextBlocks, nextFree⟩
  | free base count =>
      by_cases allowed : history.MayFree base count
      · simp only [step, if_pos allowed] at stepped
        rcases Option.map_eq_some_iff.mp stepped with ⟨sys, freed, result⟩
        have positive : count > 0 := by
          by_contra zero
          rw [FirstFit.freePages, if_neg zero] at freed
          cases freed
        rcases FirstFit.freePages_blocks free positive allowed.2 below enough with
          ⟨sys', nextBlocks, freed', nextFree⟩
        rw [freed'] at freed
        cases freed
        exact result ▸ ⟨size, nextBlocks, nextFree⟩
      · simp only [step, if_neg allowed, reduceCtorEq] at stepped

theorem WellListed.sound {low n : Nat} {history : FirstFitHistory} (listed : history.WellListed low n) :
    FreeListSound history low /\ NoDoubleAllocation history := by
  rcases listed with ⟨size, blocks, free⟩
  have enough : n < history.fuel := by
    rw [fuel, size]
    omega
  refine ⟨⟨blocks, free.ring, free.sorted, fun block p member found => ?_, ?_, free.fields, free.total⟩, ?_⟩
  · have place := free.apart block p member found
    omega
  · rw [size]
    exact free.flags
  · intro request base sys served p taken
    rcases FirstFit.allocPages_blocks free (allocPages_positive served) enough with
      missed | ⟨found, next, _, served', apart, _⟩
    · rw [missed] at served
      cases served
    · rw [served'] at served
      cases served
      exact apart p taken

end FirstFitHistory

/-- From one initialised region, every run of allocations and releases below
the last listed block keeps the free list sound. -/
theorem run_keeps_free_list {memory start : FirstFit} {low n : Nat} {actions : List FirstFitAction}
    {last : FirstFitHistory} (started : memory.init.initMemmap (n + 2) low n = some start)
    (below : firstFitMachine.Along FirstFitHistory.FreesBelowLast ⟨start, n, [], []⟩ actions)
    (ran : firstFitMachine.run ⟨start, n, [], []⟩ actions = some last) :
    FreeListSound last low /\ NoDoubleAllocation last := by
  have initial : FirstFitHistory.WellListed low n ⟨start, n, [], []⟩ :=
    ⟨rfl, _, FirstFit.initMemmap_blocks started⟩
  have final := Machine.run_invariant (fun _ _ _ => FirstFitHistory.step_wellListed) initial below ran
  exact final.sound

/-! ## A release above the last block -/

/-- Four reserved pages, before `default_init`. -/
def fourReserved : FirstFit where
  page := fun _ => { flags := { reserved := true } }
  links := ⟨id, id⟩
  nrFree := 0

def fourListed : Option FirstFit := fourReserved.init.initMemmap 6 0 4

theorem fourListed_isSome : fourListed.isSome = true := by decide

def fourHistory : FirstFitHistory := ⟨fourListed.get fourListed_isSome, 4, [], []⟩

/-- Blocks released downwards: each below the listed one. -/
def releaseDownwards : List FirstFitAction :=
  [.alloc 1, .alloc 1, .alloc 2, .free 2 2, .free 0 1, .alloc 1, .free 1 1]

/-- Page 0, and then pages 2 and 3 above it. -/
def releaseUpwards : List FirstFitAction := [.alloc 1, .alloc 1, .alloc 2, .free 0 1, .free 2 2]

theorem releaseDownwards_keeps_free_list :
    Exists fun last => firstFitMachine.run fourHistory releaseDownwards = some last /\
      FreeListSound last 0 /\ NoDoubleAllocation last := by
  have below : firstFitMachine.Along FirstFitHistory.FreesBelowLast fourHistory releaseDownwards := by decide
  have returns : (firstFitMachine.run fourHistory releaseDownwards).isSome = true := by decide
  rcases Option.isSome_iff_exists.mp returns with ⟨last, ran⟩
  exact ⟨last, ran, run_keeps_free_list (Option.some_get fourListed_isSome).symm below ran⟩

/-- The loop links page 2 after page 0 and then after itself. -/
theorem releaseUpwards_breaks_free_list :
    Exists fun start => Exists fun last => fourListed = some start /\
      firstFitMachine.run ⟨start, 4, [], []⟩ releaseUpwards = some last /\ ¬ FreeListSound last 0 := by
  have pointers : (firstFitMachine.run fourHistory releaseUpwards).map
      (fun last => (last.sys.links.next freeList, last.sys.links.next (.page 0), last.sys.links.prev (.page 2))) =
        some (.page 0, .page 2, .page 2) := by decide
  rcases Option.map_eq_some_iff.mp pointers with ⟨last, ran, read⟩
  refine ⟨_, last, (Option.some_get fourListed_isSome).symm, ran, ?_⟩
  rintro ⟨blocks, ring, _⟩
  have first : last.sys.links.next freeList = .page 0 := congrArg Prod.fst read
  have second : last.sys.links.next (.page 0) = .page 2 := congrArg (fun tuple => tuple.2.1) read
  have third : last.sys.links.prev (.page 2) = .page 2 := congrArg (fun tuple => tuple.2.2) read
  have member := (ring.neighbours_mem List.mem_cons_self).2
  rw [first] at member
  have undone := ring.prev_next member
  rw [second, third] at undone
  cases undone

end Memory
end Ucore
