import Ucore.Memory.BestFit
import Ucore.Memory.FirstFitOrder

namespace Ucore
namespace Memory

open Library
open FirstFit

/-!
# The free list of the best-fit allocator

A release is linked where the order wants it, and merges with the block before
and the block after.  So there is a held page between any two free blocks, and
every page of the region is held or free.
-/

namespace BestFit

variable {sys : FirstFit} {low n : Nat} {held : List Nat} {blocks before after : List (Nat × Nat)}

/-! ## Walks -/

/-- A page that heads a listed block that is large enough. -/
def Fits (blocks : List (Nat × Nat)) (request : Nat) (page : Option Nat) : Prop :=
  forall p, page = some p -> Exists fun block => block ∈ blocks /\ block.1 = p /\ request <= block.2

/-- The search ends, and finds a listed block that is large enough, if any. -/
theorem findBest_fits {request fuel : Nat} {page : Option Nat} (minSize : Nat)
    (ring : sys.links.Ring freeList ((before ++ after).map blockNode))
    (fields : forall block, block ∈ after -> (sys.page block.1).property = block.2) (enough : after.length < fuel)
    (fits : Fits (before ++ after) request page) :
    Exists fun found => findBest sys request fuel (lastNode before) page minSize = some found /\
      Fits (before ++ after) request found := by
  induction after generalizing before fuel page minSize with
  | nil =>
      rcases Nat.exists_eq_succ_of_ne_zero (Nat.ne_of_gt enough) with ⟨fuel, rfl⟩
      have next : listNext sys.links (lastNode before) = freeList := (seam ring).1
      refine ⟨page, ?_, fits⟩
      rw [findBest, next]
  | cons block rest inductionHypothesis =>
      rcases Nat.exists_eq_succ_of_ne_zero (Nat.ne_of_gt (Nat.lt_of_le_of_lt (Nat.zero_le _) enough)) with ⟨fuel, rfl⟩
      have next : listNext sys.links (lastNode before) = .page block.1 := (seam ring).1
      have split : before ++ block :: rest = (before ++ [block]) ++ rest := by simp
      have member : block ∈ before ++ block :: rest := by simp
      rw [split] at ring fits member ⊢
      have onward : forall page minSize, Fits ((before ++ [block]) ++ rest) request page -> Exists fun found =>
          findBest sys request fuel (blockNode block) page minSize = some found /\
            Fits ((before ++ [block]) ++ rest) request found := by
        intro page minSize fits
        rw [← lastNode_append before block]
        exact inductionHypothesis minSize ring (fun other member => fields other (List.mem_cons_of_mem _ member))
          (Nat.lt_of_succ_lt_succ enough) fits
      rw [findBest, next]
      simp only [fields block List.mem_cons_self]
      split
      · rename_i large
        have here : Fits ((before ++ [block]) ++ rest) request (some block.1) := by
          rintro p ⟨⟩
          exact ⟨block, member, rfl, large⟩
        split
        · exact ⟨_, rfl, here⟩
        · split
          · exact onward _ _ here
          · exact onward _ _ fits
      · exact onward _ _ fits

/-- The walk of a release ends at the last block below the released one. -/
theorem findPlace_splits {base fuel : Nat} (ring : sys.links.Ring freeList ((before ++ after).map blockNode))
    (sorted : after.Pairwise Below) (unlisted : base ∉ after.map Prod.fst) (enough : after.length < fuel) :
    Exists fun first => Exists fun last => after = first ++ last /\ (forall other, other ∈ first -> other.1 < base) /\
      (forall other, other ∈ last -> base < other.1) /\
        findPlace sys base fuel (lastNode before) = some (lastNode (before ++ first)) := by
  induction after generalizing before fuel with
  | nil =>
      rcases Nat.exists_eq_succ_of_ne_zero (Nat.ne_of_gt enough) with ⟨fuel, rfl⟩
      have next : listNext sys.links (lastNode before) = freeList := (seam ring).1
      refine ⟨[], [], rfl, fun _ member => absurd member List.not_mem_nil,
        fun _ member => absurd member List.not_mem_nil, ?_⟩
      rw [findPlace, next, List.append_nil]
  | cons block rest inductionHypothesis =>
      rcases Nat.exists_eq_succ_of_ne_zero (Nat.ne_of_gt (Nat.lt_of_le_of_lt (Nat.zero_le _) enough)) with ⟨fuel, rfl⟩
      have next : listNext sys.links (lastNode before) = .page block.1 := (seam ring).1
      have order := List.pairwise_cons.mp sorted
      rw [List.map_cons, List.mem_cons, not_or] at unlisted
      rw [findPlace, next]
      by_cases less : base < block.1
      · refine ⟨[], block :: rest, rfl, fun _ member => absurd member List.not_mem_nil, fun other member => ?_, ?_⟩
        · rcases List.mem_cons.mp member with same | later
          · exact same ▸ less
          · exact Nat.lt_trans less (order.1 other later).1
        · rw [List.append_nil]
          exact if_pos less
      · have split : before ++ block :: rest = (before ++ [block]) ++ rest := by simp
        rw [split] at ring
        rcases inductionHypothesis ring order.2 unlisted.2 (Nat.lt_of_succ_lt_succ enough) with
          ⟨first, last, splitRest, lower, higher, found⟩
        refine ⟨block :: first, last, by rw [splitRest]; rfl, fun other member => ?_, higher, ?_⟩
        · rcases List.mem_cons.mp member with same | later
          · rw [same]
            exact Nat.lt_of_le_of_ne (Nat.le_of_not_lt less) (Ne.symm unlisted.1)
          · exact lower other later
        · rw [lastNode_append, List.append_assoc, List.singleton_append] at found
          simp only [if_neg less]
          exact found

/-! ## Allocation and release -/

/-- The invariant: the free blocks are apart, and every page of the region is
free or held. -/
structure Partitioned (sys : FirstFit) (low n : Nat) (held : List Nat) (blocks : List (Nat × Nat)) : Prop where
  free : FreeBlocks sys low n held blocks
  apart : blocks.Pairwise Apart
  covered : forall p, low <= p -> p < low + unsignedInt n -> p ∈ held \/ Covers blocks p

/-- The rest of a cut block stays apart from the others. -/
theorem remainder_apart {block : Nat × Nat} {request : Nat} (apart : (before ++ block :: after).Pairwise Apart) :
    (before ++ remainder block request ++ after).Pairwise Apart := by
  have parts := pairwise_insert.mp apart
  rw [remainder]
  split
  · rw [List.append_assoc, List.singleton_append]
    refine pairwise_insert.mpr ⟨parts.1, fun other earlier => ?_, fun other later => ?_⟩
    · have gap := parts.2.1 other earlier
      simp only [Apart] at gap ⊢
      omega
    · have gap := parts.2.2 other later
      simp only [Apart] at gap ⊢
      omega
  · rw [List.append_nil]
    exact parts.1

/-- A page of a cut block is taken, or in the rest. -/
theorem remainder_covers {block : Nat × Nat} {request p : Nat} (covers : Covers (before ++ block :: after) p) :
    p ∈ List.range' block.1 request \/ Covers (before ++ remainder block request ++ after) p := by
  rcases covers with ⟨other, member, lower, upper⟩
  have kept : other ∈ before \/ other ∈ after -> Covers (before ++ remainder block request ++ after) p := by
    intro either
    refine ⟨other, ?_, lower, upper⟩
    simp only [List.mem_append]
    tauto
  rcases List.mem_append.mp member with earlier | rest
  · exact .inr (kept (.inl earlier))
  · rcases List.mem_cons.mp rest with same | later
    · rw [same] at lower upper
      by_cases taken : p < block.1 + request
      · exact .inl (List.mem_range'_1.mpr ⟨lower, taken⟩)
      · refine .inr ⟨(block.1 + request, block.2 - request), ?_, Nat.le_of_not_lt taken, ?_⟩
        · have split : block.2 > request := by omega
          simp [remainder, split]
        · dsimp only
          omega
    · exact .inr (kept (.inr later))

/-- Allocation returns, and serves the request from free pages or leaves
everything as it was. -/
theorem allocPages_partitioned {fuel request : Nat} (partitioned : Partitioned sys low n held blocks)
    (positive : request > 0) (enough : n < fuel) :
    allocPages fuel sys request = some (none, sys) \/
      Exists fun base => Exists fun next => Exists fun nextBlocks =>
        allocPages fuel sys request = some (some base, next) /\
          Partitioned next low n (List.range' base request ++ held) nextBlocks := by
  have free := partitioned.free
  rw [allocPages, if_pos positive]
  by_cases scarce : request > sys.nrFree.toNat
  · exact .inl (if_pos scarce)
  · rw [if_neg scarce]
    have ring : sys.links.Ring freeList (([] ++ blocks).map blockNode) := free.ring
    have nothing : Fits ([] ++ blocks) request none := fun _ wrong => nomatch wrong
    rcases findBest_fits (sys.nrFree + 1).toNat ring free.fields (Nat.lt_of_le_of_lt free.length_le enough)
      nothing with ⟨found, search, fits⟩
    rw [lastNode_nil] at search
    rw [search]
    cases found with
    | none => exact .inl rfl
    | some base =>
        right
        rcases fits base rfl with ⟨block, member, rfl, large⟩
        rcases List.append_of_mem (show block ∈ blocks from member) with ⟨before, after, rfl⟩
        refine ⟨block.1, _, _, rfl, takeFrom_blocks free positive large, remainder_apart partitioned.apart,
          fun p lower upper => ?_⟩
        rcases partitioned.covered p lower upper with old | covers
        · exact .inl (List.mem_append_right _ old)
        · exact (remainder_covers covers).imp_left (List.mem_append_left _)

/-- A released block is linked where the order wants it. -/
theorem insertFree_splits {fuel base : Nat} (count : Nat) (ring : sys.links.Ring freeList (blocks.map blockNode))
    (sorted : blocks.Pairwise Below) (unlisted : base ∉ blocks.map Prod.fst) (enough : blocks.length < fuel) :
    Exists fun before => Exists fun after => Exists fun links =>
      blocks = before ++ after /\ (forall other, other ∈ before -> other.1 < base) /\
        (forall other, other ∈ after -> base < other.1) /\
        insertFree fuel sys base = some { sys with links := links } /\
        links.Ring freeList ((before ++ (base, count) :: after).map blockNode) := by
  have fresh := FreeBlocks.fresh_node unlisted
  rw [insertFree]
  split
  · rename_i empty
    have none := (listEmpty_iff ring).mp empty
    rw [List.map_eq_nil_iff] at none
    subst none
    exact ⟨[], [], _, rfl, fun _ member => absurd member List.not_mem_nil,
      fun _ member => absurd member List.not_mem_nil, rfl, ring_listAdd_head ring fresh⟩
  · have whole : sys.links.Ring freeList (([] ++ blocks).map blockNode) := ring
    rcases findPlace_splits whole sorted unlisted enough with ⟨before, after, split, lower, higher, found⟩
    subst split
    rw [lastNode_nil, List.nil_append] at found
    refine ⟨before, after, _, rfl, lower, higher, by rw [found]; rfl, ?_⟩
    rw [List.map_append] at ring fresh
    rw [List.map_append, List.map_cons]
    exact ring_listAdd ring fresh

/-- A release returns, and its pages are free. -/
theorem freePages_partitioned {fuel base count : Nat} (partitioned : Partitioned sys low n held blocks)
    (positive : count > 0) (owned : forall p, p ∈ List.range' base count -> p ∈ held) (enough : n < fuel) :
    Exists fun next => Exists fun nextBlocks => freePages fuel sys base count = some next /\
      Partitioned next low n (held.filter fun p => p ∉ List.range' base count) nextBlocks := by
  have free := partitioned.free
  have unlisted := free.held_unlisted (owned base (List.mem_range'_1.mpr ⟨Nat.le_refl _, by omega⟩))
  rcases clearHeld_spec (owned_allowed free owned) with ⟨cleared, clearing, links, nrFree, pages⟩
  have ring : (cleared.markFree base count).links.Ring freeList (blocks.map blockNode) := by
    change cleared.links.Ring _ _
    rw [links]
    exact free.ring
  rcases insertFree_splits count ring free.sorted unlisted (Nat.lt_of_le_of_lt free.length_le enough) with
    ⟨before, after, newLinks, split, lower, higher, inserting, newRing⟩
  subst split
  have listed := mark_blocks free positive owned nrFree pages lower higher newRing
  rcases mergeBefore_blocks listed with ⟨first, size, merged, fewer, below, coversBefore⟩
  rcases mergeAfter_blocks merged with ⟨nextBlocks, final, apart, coversAfter⟩
  refine ⟨_, nextBlocks, ?_, final, ?_, fun p lower upper => ?_⟩
  · rw [freePages, if_pos positive, clearing, Option.bind_some, inserting, Option.map_some]
  · refine apart (partitioned.apart.sublist (fewer.append (.refl _))) (below ?_)
    exact partitioned.apart.sublist (List.sublist_append_left _ _)
  · rw [← coversAfter, ← coversBefore]
    by_cases released : p ∈ List.range' base count
    · have range := List.mem_range'_1.mp released
      exact .inr ⟨(base, count), by simp, range.1, range.2⟩
    · rcases partitioned.covered p lower upper with old | ⟨block, member, inside⟩
      · exact .inl (List.mem_filter.mpr ⟨old, decide_eq_true released⟩)
      · refine .inr ⟨block, ?_, inside⟩
        simp only [List.mem_append, List.mem_cons] at member ⊢
        tauto

/-- The initialisation lists the region as one block. -/
theorem initMemmap_partitioned {fuel : Nat} {start : FirstFit}
    (started : initMemmap fuel (init sys) low n = some start) :
    Partitioned start low n [] [(low, unsignedInt n)] := by
  have same : (init sys).initMemmap fuel low n = some start := by
    rw [initMemmap] at started
    rw [FirstFit.initMemmap]
    split
    · rename_i positive
      rw [if_pos positive] at started
      rcases Option.bind_eq_some_iff.mp started with ⟨cleared, clearing, inserting⟩
      rw [clearing, Option.bind_some]
      rcases clearReserved_spec clearing with ⟨links, _⟩
      have ring : (cleared.markFree low n).links.Ring freeList [] := by
        change cleared.links.Ring freeList []
        rw [links]
        exact Links.ring_reset _ _
      have empty := (listEmpty_iff ring).mpr rfl
      simp only [if_pos empty] at inserting
      rw [FirstFit.insertFree, if_pos empty]
      exact inserting
    · rename_i zero
      rw [if_neg zero] at started
      exact started
  refine ⟨FirstFit.initMemmap_blocks same, List.pairwise_singleton _ _, fun p lower upper => .inr ?_⟩
  exact ⟨_, List.mem_singleton_self _, lower, upper⟩

end BestFit

/-! ## The free list over whole histories -/

/-- What is said of the free list: it is a ring of the heads of free blocks by
address, with a page between any two, `PG_property` marks these heads, and
`nr_free` counts their pages; and the free and the held pages make up the
region that `best_fit_init_memmap` has recorded. -/
def BestFitSound (history : BestFitHistory) (low : Nat) : Prop :=
  Exists fun blocks : List (Nat × Nat) =>
    history.sys.links.Ring freeList (blocks.map blockNode) /\
    blocks.Pairwise (fun first second => first.1 < second.1 /\ first.1 + first.2 < second.1) /\
    (forall p, low <= p -> p < low + history.size ->
      (pageProperty (history.sys.page p) = true <-> p ∈ blocks.map Prod.fst)) /\
    (forall block, block ∈ blocks -> (history.sys.page block.1).property = block.2) /\
    (blocks.map Prod.snd).sum = history.sys.nrFree.toNat /\
    (forall p, (low <= p /\ p < low + unsignedInt history.size) <-> p ∈ history.held \/ FirstFit.Covers blocks p) /\
    forall p, p ∈ history.held -> ¬FirstFit.Covers blocks p

namespace BestFitHistory

/-- The invariant of histories. -/
def WellListed (low n : Nat) (history : BestFitHistory) : Prop :=
  history.size = n /\ Exists fun blocks => BestFit.Partitioned history.sys low n history.held blocks

/-- A call with a size that is not zero, and of pages that are held.  The
assertions ask for the first, and nothing in the code for the second. -/
def Allows (history : BestFitHistory) : BestFitAction -> Prop
  | .alloc n => 0 < n
  | .free base n => 0 < n /\ forall page, page ∈ List.range' base n -> page ∈ history.held

/-- The step lemma: every call returns, and keeps the list. -/
theorem step_wellListed {low n : Nat} {history : BestFitHistory} {action : BestFitAction}
    (listed : history.WellListed low n) (allowed : history.Allows action) :
    Exists fun next => history.step action = some next /\ next.WellListed low n := by
  rcases listed with ⟨size, blocks, partitioned⟩
  have enough : n < history.fuel := by
    rw [fuel, size]
    omega
  cases action with
  | alloc request =>
      rcases BestFit.allocPages_partitioned partitioned allowed enough with
        missed | ⟨base, sys, nextBlocks, served, nextPartitioned⟩
      · simp only [step, missed]
        exact ⟨_, rfl, size, blocks, partitioned⟩
      · simp only [step, served]
        exact ⟨_, rfl, size, nextBlocks, nextPartitioned⟩
  | free base count =>
      rcases BestFit.freePages_partitioned partitioned allowed.1 allowed.2 enough with
        ⟨sys, nextBlocks, freed, nextPartitioned⟩
      simp only [step, if_pos allowed.2, freed, Option.map_some]
      exact ⟨_, rfl, size, nextBlocks, nextPartitioned⟩

/-- The machine takes no other step. -/
theorem step_allows {history next : BestFitHistory} {action : BestFitAction}
    (stepped : history.step action = some next) :
    history.Allows action := by
  cases action with
  | alloc request =>
      refine Nat.pos_of_ne_zero fun zero => ?_
      rw [zero] at stepped
      cases stepped
  | free base count =>
      rw [step] at stepped
      split at stepped
      · rename_i owned
        refine ⟨Nat.pos_of_ne_zero fun zero => ?_, owned⟩
        rw [zero] at stepped
        cases stepped
      · cases stepped

theorem WellListed.sound {low n : Nat} {history : BestFitHistory} (listed : history.WellListed low n) :
    BestFitSound history low := by
  rcases listed with ⟨size, blocks, partitioned⟩
  have free := partitioned.free
  refine ⟨blocks, free.ring, ?_, ?_, free.fields, free.total, fun p => ?_, fun p member covers => ?_⟩
  · refine partitioned.apart.imp fun {first second} gap => ?_
    simp only [FirstFit.Apart] at gap
    omega
  · rw [size]
    exact free.flags
  · rw [size]
    constructor
    · exact fun inside => partitioned.covered p inside.1 inside.2
    · rintro (member | ⟨block, member, lower, upper⟩)
      · exact free.heldInside p member
      · have inside := free.inside block member
        omega
  · rcases covers with ⟨block, blockMember, lower, upper⟩
    have place := free.apart block p blockMember member
    omega

end BestFitHistory

/-- From one initialised region, every run of allocations and releases of held
pages keeps the free list sound, and the next call returns. -/
theorem best_fit_partitions {memory start : FirstFit} {low n : Nat} {actions : List BestFitAction}
    {last : BestFitHistory}
    (started : BestFit.initMemmap (n + 2) (BestFit.init memory) low n = some start)
    (ran : bestFitMachine.run ⟨start, n, []⟩ actions = some last) :
    BestFitSound last low /\ forall action, last.Allows action -> (bestFitMachine.step last action).isSome = true := by
  have kept : (fun history => BestFitHistory.WellListed low n history) last := by
    apply Machine.run_invariant_always _ _ ran
    · intro history action next listed stepped
      rcases BestFitHistory.step_wellListed listed (BestFitHistory.step_allows stepped) with
        ⟨next', stepped', nextListed⟩
      cases stepped'.symm.trans stepped
      exact nextListed
    · exact ⟨rfl, _, BestFit.initMemmap_partitioned started⟩
  refine ⟨kept.sound, fun action allowed => ?_⟩
  rcases BestFitHistory.step_wellListed kept allowed with ⟨next, stepped, _⟩
  exact Option.isSome_of_eq_some stepped

/-- Eight reserved pages as one block. -/
def eightListed : FirstFit := (BestFit.initMemmap 10 (BestFit.init fourReserved) 0 8).get (by decide)

/-- Blocks released out of order, in parts, and between two free ones. -/
theorem best_fit_partitions_parts :
    Exists fun last => bestFitMachine.run ⟨eightListed, 8, []⟩
      [.alloc 2, .alloc 1, .alloc 3, .free 4 1, .free 0 2, .alloc 1, .free 2 2] = some last /\
        BestFitSound last 0 /\ forall action, last.Allows action -> (bestFitMachine.step last action).isSome =
          true := by
  have returns : (bestFitMachine.run ⟨eightListed, 8, []⟩
      [.alloc 2, .alloc 1, .alloc 3, .free 4 1, .free 0 2, .alloc 1, .free 2 2]).isSome = true := by decide
  rcases Option.isSome_iff_exists.mp returns with ⟨last, ran⟩
  exact ⟨last, ran, best_fit_partitions (Option.some_get _).symm ran⟩

end Memory
end Ucore
