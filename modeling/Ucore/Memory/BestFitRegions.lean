import Mathlib.Data.List.Induction
import Ucore.Memory.BestFitOrder

namespace Ucore
namespace Memory

open Library
open FirstFit

/-!
# Registering regions with the best-fit allocator

The insertion loop of `best_fit_init_memmap` goes by size.  The new region is
linked before the first one that is larger, and so the list is by address only
if the sizes agree with the addresses.  Where no region is larger, the branch
for the end of the list has no `break`: the loop goes on to the region it has
just linked, and links it after itself.  Then its `prev` pointer is its own.
-/

namespace BestFit

variable {sys memory : FirstFit} {blocks before after : List (Nat × Nat)} {base fuel : Nat}

/-! ## The insertion loop -/

/-- With a larger block on the list, the new one goes before the first such
block, and the loop stops there. -/
theorem insertLoop_larger (ring : sys.links.Ring freeList ((before ++ after).map blockNode))
    (fields : forall block, block ∈ after -> (sys.page block.1).property = block.2)
    (larger : Exists fun block => block ∈ after /\ (sys.page base).property < block.2) (enough : after.length < fuel) :
    Exists fun first => Exists fun block => Exists fun last => after = first ++ block :: last /\
      (forall other, other ∈ first -> other.2 <= (sys.page base).property) /\ (sys.page base).property < block.2 /\
        insertLoop base fuel sys (lastNode before) =
          some { sys with links := listAddBefore sys.links (blockNode block) (.page base) } := by
  induction after generalizing before fuel with
  | nil =>
      obtain ⟨_, member, _⟩ := larger
      exact absurd member List.not_mem_nil
  | cons block rest inductionHypothesis =>
      obtain ⟨fuel, rfl⟩ := Nat.exists_eq_succ_of_ne_zero (Nat.ne_zero_of_lt enough)
      have next : listNext sys.links (lastNode before) = .page block.1 := (seam ring).1
      have size := fields block List.mem_cons_self
      rw [insertLoop, next]
      by_cases less : (sys.page base).property < block.2
      · refine ⟨[], block, rest, rfl, fun _ member => absurd member List.not_mem_nil, less, ?_⟩
        exact if_pos (size ▸ less)
      · have split : before ++ block :: rest = (before ++ [block]) ++ rest := by simp
        rw [split] at ring
        have restLarger : Exists fun other => other ∈ rest /\ (sys.page base).property < other.2 := by
          obtain ⟨other, member, higher⟩ := larger
          rcases List.mem_cons.mp member with rfl | later
          · exact absurd higher less
          · exact ⟨other, later, higher⟩
        have notLast : ¬ listNext sys.links (.page block.1) = freeList := by
          have following := (seam ring).1
          rw [lastNode_append] at following
          change ¬ sys.links.next (blockNode block) = freeList
          rw [following]
          obtain ⟨other, member, _⟩ := restLarger
          cases rest with
          | nil => exact absurd member List.not_mem_nil
          | cons other _ => exact fun same => by cases same
        have later :=
          inductionHypothesis ring (fun other member => fields other (List.mem_cons_of_mem _ member)) restLarger
          (Nat.lt_of_succ_lt_succ enough)
        rw [lastNode_append] at later
        obtain ⟨first, found, last, splitRest, smaller, higher, result⟩ := later
        refine ⟨block :: first, found, last, by rw [splitRest]; rfl, fun other member => ?_, higher, ?_⟩
        · rcases List.mem_cons.mp member with rfl | old
          · exact Nat.le_of_not_lt less
          · exact smaller other old
        · have kept : ¬ (sys.page base).property < (sys.page block.1).property := size ▸ less
          simp only [if_neg kept, if_neg notLast]
          exact result

/-- The two insertions at the end of the list -/
def twice (links : Links (ListNode Unit)) (last base : Nat) : Links (ListNode Unit) :=
  listAdd (listAdd links (.page last) (.page base)) (.page base) (.page base)

section Twice

variable {last : Nat}

theorem twice_prev (links : Links (ListNode Unit)) (last base : Nat) :
    (twice links last base).prev (.page base) = .page base :=
  (Links.insertBetween_prev ..).trans (if_pos rfl)

theorem once_next (atEnd : listNext sys.links (.page last) = freeList) (node : ListNode Unit) :
    (listAdd sys.links (.page last) (.page base)).next node =
      if node = .page base then freeList else if node = .page last then .page base else sys.links.next node := by
  refine (Links.insertBetween_next ..).trans ?_
  rw [show sys.links.next (.page last) = freeList from atEnd]

theorem twice_next (atEnd : listNext sys.links (.page last) = freeList) (different : base ≠ last) :
    (twice sys.links last base).next (.page last) = .page base := by
  have apart : (ListNode.page last : ListNode Unit) ≠ .page base := fun same => different (ListNode.page.inj same).symm
  refine (Links.insertBetween_next ..).trans ?_
  rw [if_neg apart, if_neg apart, once_next atEnd, if_neg apart, if_pos rfl]

/-- The loop visits the region it has linked, and links it again. -/
theorem insertLoop_twice (atEnd : listNext sys.links (.page last) = freeList) (different : base ≠ last) (fuel : Nat) :
    insertLoop base (fuel + 2) { sys with links := listAdd sys.links (.page last) (.page base) } (.page last) =
      some { sys with links := twice sys.links last base } := by
  have apart : (ListNode.page last : ListNode Unit) ≠ .page base := fun same => different (ListNode.page.inj same).symm
  have visited : listNext (listAdd sys.links (.page last) (.page base)) (.page last) = .page base := by
    refine (once_next atEnd _).trans ?_
    rw [if_neg apart, if_pos rfl]
  have ends : listNext (listAdd sys.links (.page last) (.page base)) (.page base) = freeList :=
    (once_next atEnd _).trans (if_pos rfl)
  have passed : listNext (twice sys.links last base) (.page base) = freeList := by
    refine (Links.insertBetween_next ..).trans ?_
    rw [if_pos rfl]
    exact ends
  rw [insertLoop, visited]
  simp only [Nat.lt_irrefl, if_false, if_pos ends]
  unfold twice at passed ⊢
  rw [insertLoop, passed]

end Twice

/-- Without a larger block, the new one is linked after the last one and then
after itself. -/
theorem insertLoop_largest (ring : sys.links.Ring freeList ((before ++ after).map blockNode))
    (fields : forall block, block ∈ after -> (sys.page block.1).property = block.2)
    (unlisted : base ∉ (before ++ after).map Prod.fst) (filled : after ≠ [])
    (smaller : forall block, block ∈ after -> block.2 <= (sys.page base).property) (enough : after.length + 1 < fuel) :
    Exists fun links => Exists fun block => insertLoop base fuel sys (lastNode before) =
      some { sys with links := links } /\
      block ∈ after /\ links.next (blockNode block) = .page base /\ links.prev (.page base) = .page base := by
  induction after generalizing before fuel with
  | nil => exact absurd rfl filled
  | cons block rest inductionHypothesis =>
      obtain ⟨fuel, rfl⟩ := Nat.exists_eq_succ_of_ne_zero (Nat.ne_zero_of_lt enough)
      have next : listNext sys.links (lastNode before) = .page block.1 := (seam ring).1
      have size := fields block List.mem_cons_self
      have kept : ¬ (sys.page base).property < (sys.page block.1).property :=
        size ▸ Nat.not_lt.mpr (smaller block List.mem_cons_self)
      have split : before ++ block :: rest = (before ++ [block]) ++ rest := by simp
      rw [split] at ring unlisted
      have following := (seam ring).1
      rw [lastNode_append] at following
      rw [insertLoop, next]
      cases rest with
      | nil =>
          have last : listNext sys.links (.page block.1) = freeList := following
          have different : base ≠ block.1 := fun same => unlisted (by simp [same])
          simp only [if_neg kept, if_pos last]
          obtain ⟨fuel, rfl⟩ := Nat.exists_eq_succ_of_ne_zero (Nat.ne_zero_of_lt (Nat.lt_of_succ_lt_succ enough))
          obtain ⟨fuel, rfl⟩ := Nat.exists_eq_succ_of_ne_zero
            (Nat.ne_zero_of_lt (Nat.lt_of_succ_lt_succ (Nat.lt_of_succ_lt_succ enough)))
          exact ⟨_, block, insertLoop_twice last different _, List.mem_cons_self, twice_next last different,
            twice_prev _ _ _⟩
      | cons other rest =>
          have notLast : ¬ listNext sys.links (.page block.1) = freeList := by
            change ¬ sys.links.next (blockNode block) = freeList
            rw [following]
            exact fun same => by cases same
          have later := inductionHypothesis ring (fun other member => fields other (List.mem_cons_of_mem _ member))
            unlisted (List.cons_ne_nil _ _) (fun other member => smaller other (List.mem_cons_of_mem _ member))
            (Nat.lt_of_succ_lt_succ enough)
          rw [lastNode_append] at later
          obtain ⟨links, found, result, member, rest⟩ := later
          refine ⟨links, found, ?_, List.mem_cons_of_mem _ member, rest⟩
          simp only [if_neg kept, if_neg notLast]
          exact result

end BestFit

/-! ## Regions -/

/-- A region has a first page and a number of pages. -/
def InRegion (region : Nat × Nat) (p : Nat) : Prop := region.1 <= p /\ p < region.1 + region.2

/-- The block of a region, with the size that is recorded -/
def regionBlock (region : Nat × Nat) : Nat × Nat := (region.1, unsignedInt region.2)

/-- Each region is linked once, and the list is a ring by address. -/
def Registered (sys : FirstFit) (regions : List (Nat × Nat)) : Prop := Exists fun order : List Nat =>
  sys.links.Ring freeList (order.map ListNode.page) /\ order.Perm (regions.map Prod.fst) /\ order.Pairwise (· < ·)

/-- The blocks of the regions are listed by address, and the other pages are
as they were. -/
structure RegisteredAs (memory sys : FirstFit) (regions blocks : List (Nat × Nat)) : Prop where
  ring : sys.links.Ring freeList (blocks.map blockNode)
  order : blocks.Perm (regions.map regionBlock)
  sorted : blocks.Pairwise fun first second => first.1 < second.1
  fields : forall block, block ∈ blocks -> (sys.page block.1).property = block.2
  untouched : forall p, (forall region, region ∈ regions -> ¬ InRegion region p) -> sys.page p = memory.page p

/-- The next block by address is larger than the new one, and those below are
not. -/
def FitsOrder (blocks : List (Nat × Nat)) (block : Nat × Nat) : Prop := blocks = [] \/ Exists fun above =>
  above ∈ blocks /\ block.1 < above.1 /\ block.2 < above.2 /\
    forall other, other ∈ blocks -> other.1 < above.1 -> other.1 < block.1 /\ other.2 <= block.2

theorem FitsOrder.congr {blocks others : List (Nat × Nat)} {block : Nat × Nat} (same : blocks.Perm others) :
    FitsOrder blocks block <-> FitsOrder others block := by
  unfold FitsOrder
  simp only [same.mem_iff]
  rw [show blocks = [] <-> others = [] from ⟨fun empty => by rw [empty] at same; exact same.symm.eq_nil,
    fun empty => by rw [empty] at same; exact same.eq_nil⟩]

/-- The block goes before the first larger one, which is where the order wants
it exactly if it fits. -/
theorem fitsOrder_iff {first last : List (Nat × Nat)} {block found : Nat × Nat}
    (sorted : (first ++ found :: last).Pairwise fun one other => one.1 < other.1)
    (smaller : forall other, other ∈ first -> other.2 <= block.2) (larger : block.2 < found.2) :
    FitsOrder (first ++ found :: last) block <->
      (first ++ block :: found :: last).Pairwise fun one other => one.1 < other.1 := by
  have parts := pairwise_insert.mp sorted
  constructor
  · rintro (empty | ⟨above, member, below, size, others⟩)
    · exact absurd empty (by simp)
    have here : above = found := by
      rcases List.mem_append.mp member with early | rest
      · exact absurd (smaller above early) (Nat.not_le.mpr size)
      · rcases List.mem_cons.mp rest with same | late
        · exact same
        · have less := (others found (by simp) (parts.2.2 above late)).2
          exact absurd less (Nat.not_le.mpr larger)
    rw [here] at below others
    refine pairwise_insert.mpr ⟨sorted, fun other early => ?_, fun other late => ?_⟩
    · exact (others other (List.mem_append_left _ early) (parts.2.1 other early)).1
    · rcases List.mem_cons.mp late with rfl | later
      · exact below
      · exact Nat.lt_trans below (parts.2.2 other later)
  · intro placed
    have bounds := pairwise_insert.mp placed
    refine .inr ⟨found, by simp, bounds.2.2 found List.mem_cons_self, larger, fun other member less => ?_⟩
    rcases List.mem_append.mp member with early | rest
    · exact ⟨bounds.2.1 other early, smaller other early⟩
    · rcases List.mem_cons.mp rest with rfl | late
      · exact absurd less (Nat.lt_irrefl _)
      · exact absurd less (Nat.lt_asymm (parts.2.2 other late))

/-! ## One registration -/

namespace BestFit

variable {sys memory : FirstFit} {done blocks : List (Nat × Nat)} {region : Nat × Nat} {fuel : Nat}

theorem clearReserved_returns (p remain : Nat)
    (reserved : forall index, p <= index -> index < p + remain -> pageReserved (sys.page index) = true) :
    Exists fun cleared => clearReserved p remain sys = some cleared := by
  induction remain generalizing p sys with
  | zero => exact ⟨sys, rfl⟩
  | succ remain inductionHypothesis =>
      rw [clearReserved, if_pos (reserved p (Nat.le_refl _) (by omega))]
      apply inductionHypothesis
      intro index low high
      dsimp only
      rw [Function.update_of_ne (by omega)]
      exact reserved index (by omega) (by omega)

/-- The pages of the region are cleared and its first one is marked, before
the list is looked at. -/
theorem initMemmap_marked (reserved : forall p, InRegion region p -> pageReserved (sys.page p) = true)
    (positive : 0 < region.2) (fuel : Nat) : Exists fun marked : FirstFit =>
      initMemmap fuel sys region.1 region.2 = (if listEmpty marked.links freeList = true then
        some { marked with links := listAdd marked.links freeList (.page region.1) }
      else insertLoop region.1 fuel marked freeList) /\
      marked.links = sys.links /\ (marked.page region.1).property = unsignedInt region.2 /\
        forall p, ¬ InRegion region p -> marked.page p = sys.page p := by
  obtain ⟨cleared, clearing⟩ := clearReserved_returns region.1 region.2 fun index low high => reserved index ⟨low, high⟩
  obtain ⟨links, _, _, outside⟩ := clearReserved_spec clearing
  refine ⟨cleared.markFree region.1 region.2, ?_, links, ?_, fun p away => ?_⟩
  · rw [initMemmap, if_pos positive, clearing]
    rfl
  · unfold markFree
    dsimp only
    rw [Function.update_self]
    rfl
  · have other : p ≠ region.1 := fun same => away ⟨Nat.le_of_eq same.symm, by omega⟩
    exact (Function.update_of_ne other ..).trans (outside p away)

/-- The region is linked once and in its place, exactly if it fits the order. -/
theorem initMemmap_step (registered : RegisteredAs memory sys done blocks)
    (reserved : forall p, InRegion region p -> pageReserved (sys.page p) = true) (positive : 0 < region.2)
    (filled : forall other, other ∈ done -> 0 < other.2)
    (apart : forall other, other ∈ done -> forall p, InRegion other p -> ¬ InRegion region p)
    (enough : done.length + 1 < fuel) :
    Exists fun next => initMemmap fuel sys region.1 region.2 = some next /\
      (FitsOrder (done.map regionBlock) (regionBlock region) ->
        Exists fun listed => RegisteredAs memory next (region :: done) listed) /\
      (Registered next (region :: done) -> FitsOrder (done.map regionBlock) (regionBlock region)) := by
  obtain ⟨marked, result, links, property, outside⟩ := initMemmap_marked reserved positive fuel
  have source : forall block, block ∈ blocks -> Exists fun other => other ∈ done /\ regionBlock other = block :=
    fun block member => List.mem_map.mp (registered.order.mem_iff.mp member)
  have away : forall block, block ∈ blocks -> ¬ InRegion region block.1 := by
    intro block member
    obtain ⟨other, old, rfl⟩ := source block member
    exact apart other old _ ⟨Nat.le_refl _, Nat.lt_add_of_pos_right (filled other old)⟩
  have unlisted : region.1 ∉ blocks.map Prod.fst := by
    intro listed
    obtain ⟨block, member, same⟩ := List.mem_map.mp listed
    exact away block member (same ▸ ⟨Nat.le_refl _, Nat.lt_add_of_pos_right positive⟩)
  have fields : forall block, block ∈ blocks -> (marked.page block.1).property = block.2 := by
    intro block member
    rw [outside block.1 (away block member)]
    exact registered.fields block member
  have ring : marked.links.Ring freeList (blocks.map blockNode) := links ▸ registered.ring
  have count : blocks.length = done.length := by rw [registered.order.length_eq, List.length_map]
  have fresh := FreeBlocks.fresh_node unlisted
  -- what a list with the new block in its place needs
  have listed : forall links : Links (ListNode Unit), forall first last, blocks = first ++ last ->
      links.Ring freeList ((first ++ regionBlock region :: last).map blockNode) ->
        ((first ++ regionBlock region :: last).Pairwise fun one other => one.1 < other.1) ->
          RegisteredAs memory { marked with links := links } (region :: done)
            (first ++ regionBlock region :: last) := by
    intro links first last split placed sorted
    refine ⟨placed, ?_, sorted, fun block member => ?_, fun p untouched => ?_⟩
    · exact List.perm_middle.trans ((split ▸ registered.order).cons _)
    · rcases List.mem_append.mp member with early | rest
      · exact fields block (split ▸ List.mem_append_left _ early)
      · rcases List.mem_cons.mp rest with rfl | late
        · exact property
        · exact fields block (split ▸ List.mem_append_right _ late)
    · rw [List.forall_mem_cons] at untouched
      exact (outside p untouched.1).trans (registered.untouched p untouched.2)
  rw [result, ← FitsOrder.congr registered.order]
  cases blocks with
  | nil =>
      rw [if_pos ((listEmpty_iff ring).mpr rfl)]
      exact ⟨_, rfl, fun _ => ⟨_, listed _ [] [] rfl (ring_listAdd_head ring fresh) (List.pairwise_singleton _ _)⟩,
        fun _ => .inl rfl⟩
  | cons block rest =>
      have occupied : ¬ listEmpty marked.links freeList = true := fun empty => by
        have none_listed := (listEmpty_iff ring).mp empty
        cases none_listed
      rw [if_neg occupied]
      have room : (block :: rest).length + 1 < fuel := by
        rw [count]
        exact enough
      have whole : marked.links.Ring freeList (([] ++ (block :: rest)).map blockNode) := ring
      by_cases larger : Exists fun other => other ∈ block :: rest /\ (marked.page region.1).property < other.2
      · obtain ⟨first, found, last, split, smaller, higher, inserted⟩ := insertLoop_larger whole fields larger
          (Nat.lt_of_succ_lt room)
        rw [split] at ring fresh registered ⊢
        rw [property] at smaller higher
        have placed : (listAddBefore marked.links (blockNode found) (.page region.1)).Ring freeList
            ((first ++ regionBlock region :: found :: last).map blockNode) := by
          rw [List.map_append, List.map_cons] at ring fresh ⊢
          exact ring_listAddBefore ring fresh
        have order : FitsOrder (first ++ found :: last) (regionBlock region) <->
            (first ++ regionBlock region :: found :: last).Pairwise fun one other => one.1 < other.1 :=
          fitsOrder_iff registered.sorted smaller higher
        refine ⟨_, inserted, fun fits => ⟨_, listed _ first (found :: last) split placed (order.mp fits)⟩, ?_⟩
        rintro ⟨addresses, other, _, sorted⟩
        have same : addresses = (first ++ regionBlock region :: found :: last).map Prod.fst := by
          apply List.map_injective_iff.mpr fun _ _ => ListNode.page.inj
          rw [other.unique placed, List.map_map]
          rfl
        rw [same, List.pairwise_map] at sorted
        exact order.mpr sorted
      · have smaller : forall other, other ∈ block :: rest -> other.2 <= (marked.page region.1).property :=
          fun other member => Nat.le_of_not_lt fun less => larger ⟨other, member, less⟩
        obtain ⟨links, last, inserted, member, next, prev⟩ :=
          insertLoop_largest whole fields unlisted (List.cons_ne_nil _ _)
          smaller room
        refine ⟨_, inserted, fun fits => ?_, ?_⟩
        · rcases fits with empty | ⟨above, listed, _, size, _⟩
          · cases empty
          · have less := smaller above listed
            rw [property] at less
            exact absurd less (Nat.not_le.mpr size)
        · rintro ⟨addresses, other, order, _⟩
          obtain ⟨old, oldMember, rfl⟩ := source last member
          have there : ListNode.page old.1 ∈ freeList :: addresses.map ListNode.page := by
            refine List.mem_cons_of_mem _ (List.mem_map_of_mem (order.mem_iff.mpr ?_))
            exact List.mem_cons_of_mem _ (List.mem_map_of_mem oldMember)
          have back := other.prev_next there
          dsimp only at back
          rw [show links.next (.page old.1) = .page region.1 from next, prev] at back
          have listedOld : old.1 ∈ (block :: rest).map Prod.fst := List.mem_map.mpr ⟨regionBlock old, member, rfl⟩
          rw [← ListNode.page.inj back] at listedOld
          exact absurd listedOld unlisted

end BestFit

/-! ## All the registrations -/

/-- The step function of the boot, which registers one region after another -/
def regionMachine (fuel : Nat) : Machine FirstFit (Nat × Nat) :=
  ⟨fun sys region => BestFit.initMemmap fuel sys region.1 region.2⟩

theorem RegisteredAs.registered {memory sys : FirstFit} {regions blocks : List (Nat × Nat)}
    (registered : RegisteredAs memory sys regions blocks) : Registered sys regions := by
  refine ⟨blocks.map Prod.fst, ?_, ?_, List.pairwise_map.mpr registered.sorted⟩
  · rw [List.map_map]
    exact registered.ring
  · have same := registered.order.map Prod.fst
    rw [List.map_map] at same
    exact same

theorem RegisteredAs.congr {memory sys : FirstFit} {regions others blocks : List (Nat × Nat)}
    (registered : RegisteredAs memory sys regions blocks) (same : regions.Perm others) :
    RegisteredAs memory sys others blocks where
  ring := registered.ring
  order := registered.order.trans (same.map _)
  sorted := registered.sorted
  fields := registered.fields
  untouched := fun p away => registered.untouched p fun region member => away region (same.mem_iff.mp member)

theorem Registered.congr {sys : FirstFit} {regions others : List (Nat × Nat)} (registered : Registered sys regions)
    (same : regions.Perm others) : Registered sys others := by
  obtain ⟨addresses, ring, order, sorted⟩ := registered
  exact ⟨addresses, ring, order.trans (same.map _), sorted⟩

/-- Each region fits the order of the ones before it: the insertion compares
sizes, and this is when that order is the one by address. -/
def InOrder (regions : List (Nat × Nat)) : Prop := forall done region rest, regions = done ++ region :: rest ->
  FitsOrder (done.map regionBlock) (regionBlock region)

theorem InOrder.left {done rest : List (Nat × Nat)} (inOrder : InOrder (done ++ rest)) : InOrder done := by
  intro first region last split
  apply inOrder first region (last ++ rest)
  rw [split, List.append_assoc]
  rfl

theorem InOrder.concat {done : List (Nat × Nat)} {region : Nat × Nat} (inOrder : InOrder done)
    (fits : FitsOrder (done.map regionBlock) (regionBlock region)) : InOrder (done ++ [region]) := by
  intro first next rest split
  cases rest using List.reverseRecOn with
  | nil =>
      obtain ⟨rfl, same⟩ := List.append_inj' split rfl
      cases same
      exact fits
  | append_singleton rest last =>
      rw [← List.cons_append, ← List.append_assoc] at split
      exact inOrder first next rest (List.append_inj' split rfl).1

section Regions

variable {memory : FirstFit} {regions : List (Nat × Nat)} {fuel : Nat}

/-- What the callers of `init_memmap` pass: reserved pages, at least one for
each region, and no page twice. -/
structure DisjointRegions (memory : FirstFit) (regions : List (Nat × Nat)) : Prop where
  reserved : forall region, region ∈ regions -> forall p, InRegion region p -> pageReserved (memory.page p) = true
  positive : forall region, region ∈ regions -> 0 < region.2
  apart : regions.Pairwise fun first second => forall p, InRegion first p -> ¬ InRegion second p

theorem DisjointRegions.left {done rest : List (Nat × Nat)} (disjoint : DisjointRegions memory (done ++ rest)) :
    DisjointRegions memory done where
  reserved := fun region member => disjoint.reserved region (List.mem_append_left _ member)
  positive := fun region member => disjoint.positive region (List.mem_append_left _ member)
  apart := (List.pairwise_append.mp disjoint.apart).1

/-- The step lemma at the end of a run. -/
theorem register_last {done blocks : List (Nat × Nat)} {region : Nat × Nat} {sys : FirstFit}
    (disjoint : DisjointRegions memory (done ++ [region]))
    (registered : RegisteredAs (BestFit.init memory) sys done blocks)
    (enough : done.length + 1 < fuel) :
    Exists fun next => (regionMachine fuel).step sys region = some next /\
      (FitsOrder (done.map regionBlock) (regionBlock region) ->
        Exists fun listed => RegisteredAs (BestFit.init memory) next (region :: done) listed) /\
      (Registered next (region :: done) -> FitsOrder (done.map regionBlock) (regionBlock region)) := by
  have apart : forall other, other ∈ done -> forall p, InRegion other p -> ¬ InRegion region p :=
    fun other member => (List.pairwise_append.mp disjoint.apart).2.2 other member region List.mem_cons_self
  have last : region ∈ done ++ [region] := List.mem_append_right _ List.mem_cons_self
  apply BestFit.initMemmap_step registered ?_ (disjoint.positive region last)
    (fun other member => disjoint.positive other (List.mem_append_left _ member)) apart enough
  intro p inside
  rw [registered.untouched p fun other member here => apart other member p here inside]
  exact disjoint.reserved region last p inside

/-- A run whose regions fit leaves them listed by address. -/
theorem register_run (disjoint : DisjointRegions memory regions) (inOrder : InOrder regions)
    (enough : regions.length < fuel) :
    Exists fun sys => Exists fun blocks => (regionMachine fuel).run (BestFit.init memory) regions = some sys /\
      RegisteredAs (BestFit.init memory) sys regions blocks := by
  induction regions using List.reverseRecOn with
  | nil =>
      refine ⟨BestFit.init memory, [], rfl, Links.ring_reset .., List.Perm.refl _, List.Pairwise.nil, ?_,
        fun p _ => rfl⟩
      exact fun block member => absurd member List.not_mem_nil
  | append_singleton done region inductionHypothesis =>
      rw [List.length_append, List.length_singleton] at enough
      obtain ⟨sys, blocks, ran, registered⟩ := inductionHypothesis disjoint.left inOrder.left (Nat.lt_of_succ_lt enough)
      obtain ⟨next, stepped, fits, _⟩ := register_last disjoint registered enough
      obtain ⟨listed, final⟩ := fits (inOrder done region [] rfl)
      refine ⟨next, listed, ?_, final.congr (List.perm_append_singleton region done).symm⟩
      rw [Machine.run_concat, ran]
      exact stepped

/-- Every region is linked once and by address, at every point of the boot,
exactly if each one fits the order of the ones before it. -/
theorem initMemmap_registers (memory : FirstFit) (regions : List (Nat × Nat)) (fuel : Nat)
    (disjoint : DisjointRegions memory regions) (enough : regions.length < fuel) :
    (forall done rest, regions = done ++ rest -> Exists fun sys =>
      (regionMachine fuel).run (BestFit.init memory) done = some sys /\ Registered sys done) <-> InOrder regions := by
  constructor
  · intro always
    induction regions using List.reverseRecOn with
    | nil => exact fun done region rest split => by simp at split
    | append_singleton done region inductionHypothesis =>
        rw [List.length_append, List.length_singleton] at enough
        have inOrder : InOrder done := inductionHypothesis disjoint.left (Nat.lt_of_succ_lt enough)
          fun first rest split => always first (rest ++ [region]) (by rw [split, List.append_assoc])
        obtain ⟨sys, blocks, ran, registered⟩ := register_run disjoint.left inOrder (Nat.lt_of_succ_lt enough)
        obtain ⟨next, stepped, _, fits⟩ := register_last disjoint registered enough
        obtain ⟨last, whole, final⟩ := always (done ++ [region]) [] (List.append_nil _).symm
        rw [Machine.run_concat, ran] at whole
        cases Option.some.inj (stepped.symm.trans whole)
        exact inOrder.concat (fits (final.congr (List.perm_append_singleton region done)))
  · intro inOrder done rest split
    subst split
    rw [List.length_append] at enough
    obtain ⟨sys, blocks, ran, registered⟩ := register_run disjoint.left inOrder.left
      (Nat.lt_of_le_of_lt (Nat.le_add_right ..) enough)
    exact ⟨sys, ran, registered.registered⟩

end Regions

/-! ## Two regions -/

/-- The descriptors before the boot gives any page away -/
def reservedPages : FirstFit where
  page := fun _ => { flags := { reserved := true } }
  links := ⟨id, id⟩
  nrFree := 0

theorem twoRegions_disjoint {first second : Nat × Nat} (positive : 0 < first.2 /\ 0 < second.2)
    (below : first.1 + first.2 <= second.1 \/ second.1 + second.2 <= first.1) :
    DisjointRegions reservedPages [first, second] where
  reserved := fun _ _ _ _ => rfl
  positive := List.forall_mem_cons.mpr ⟨positive.1, List.forall_mem_singleton.mpr positive.2⟩
  apart := by
    refine List.pairwise_pair.mpr fun p inside other => ?_
    unfold InRegion at inside other
    omega

/-- A large region and a smaller one below it are registered. -/
theorem initMemmap_registers_smaller : DisjointRegions reservedPages [(8, 4), (0, 2)] /\
    forall done rest, [(8, 4), (0, 2)] = done ++ rest -> Exists fun sys =>
      (regionMachine 3).run (BestFit.init reservedPages) done = some sys /\ Registered sys done := by
  have disjoint : DisjointRegions reservedPages [(8, 4), (0, 2)] := twoRegions_disjoint (by decide) (by decide)
  have first : InOrder [] := fun done region rest split => by simp at split
  have second : InOrder ([] ++ [(8, 4)]) := first.concat (.inl rfl)
  have third : InOrder ([] ++ [(8, 4)] ++ [(0, 2)]) :=
    second.concat (.inr ⟨(8, 4), by decide, by decide, by decide, by decide⟩)
  exact ⟨disjoint, (initMemmap_registers reservedPages [(8, 4), (0, 2)] 3 disjoint (by decide)).mpr third⟩

/-- A larger region above the first one is linked after itself. -/
theorem initMemmap_self_linked : DisjointRegions reservedPages [(0, 2), (8, 4)] /\
    Exists fun sys => (regionMachine 4).run (BestFit.init reservedPages) [(0, 2), (8, 4)] = some sys /\
      sys.links.prev (.page 8) = .page 8 /\ ¬ Registered sys [(0, 2), (8, 4)] := by
  refine ⟨twoRegions_disjoint (by decide) (by decide), _, rfl, by decide, ?_⟩
  rintro ⟨addresses, ring, order, _⟩
  have member : ListNode.page 0 ∈ freeList :: addresses.map ListNode.page :=
    List.mem_cons_of_mem _ (List.mem_map_of_mem (order.mem_iff.mpr (by decide)))
  exact absurd (ring.prev_next member) (by decide)

end Memory
end Ucore
