import Ucore.Memory.LowestFit
import Ucore.Vm.PhysicalMemory

namespace Ucore

open Library

/-!
# The page manager of the kernel

`default_pmm` is the first-fit allocator, asked for one page at a time.  As
long as every page that comes back lies below the last listed block, it keeps
what the virtual memory code relies on: it hands out the lowest free page, and
a page that is given back can be had again.  A release above the last listed
block leaves the allocator with a list that runs in a circle, and nothing is
promised of it from then on.
-/

namespace Memory
namespace FirstFit

variable {sys next : FirstFit} {low n fuel page : Nat} {held : List Nat} {blocks before after : List (Nat × Nat)}

/-- The listed blocks with their sizes, from the one after a node on -/
def listedFrom (sys : FirstFit) : Nat -> ListNode Unit -> List (Nat × Nat)
  | 0, _ => []
  | fuel + 1, le =>
      match listNext sys.links le with
      | .head _ => []
      | .page p => (p, (sys.page p).property) :: listedFrom sys fuel (.page p)

theorem listedFrom_eq (ring : sys.links.Ring freeList ((before ++ after).map blockNode))
    (fields : forall block, block ∈ after -> (sys.page block.1).property = block.2) (enough : after.length < fuel) :
    sys.listedFrom fuel (lastNode before) = after := by
  induction after generalizing before fuel with
  | nil =>
      rcases Nat.exists_eq_succ_of_ne_zero (Nat.ne_of_gt enough) with ⟨fuel, equal⟩
      subst equal
      have next : listNext sys.links (lastNode before) = freeList := (seam ring).1
      rw [listedFrom, next]
  | cons block rest inductionHypothesis =>
      rcases Nat.exists_eq_succ_of_ne_zero (Nat.ne_of_gt (Nat.lt_of_le_of_lt (Nat.zero_le _) enough)) with
        ⟨fuel, equal⟩
      subst equal
      have next : listNext sys.links (lastNode before) = .page block.1 := (seam ring).1
      have split : before ++ block :: rest = (before ++ [block]) ++ rest := by simp
      rw [split] at ring
      have later := inductionHypothesis ring (fun other member => fields other (List.mem_cons_of_mem _ member))
        (Nat.lt_of_succ_lt_succ enough)
      rw [lastNode_append] at later
      rw [listedFrom, next]
      simp only [fields block List.mem_cons_self]
      exact congrArg (block :: ·) later

/-- The page lies in a listed block. -/
def lists (sys : FirstFit) (fuel page : Nat) : Bool :=
  (sys.listedFrom fuel freeList).any fun block => decide (block.1 <= page /\ page < block.1 + block.2)

theorem lists_iff (partitioned : BestFit.Partitioned sys low n held blocks) (enough : n < fuel) (page : Nat) :
    sys.lists fuel page = true <-> Covers blocks page := by
  have free := partitioned.free
  have ring : sys.links.Ring freeList (([] ++ blocks).map blockNode) := free.ring
  have listed := listedFrom_eq ring free.fields (Nat.lt_of_le_of_lt free.length_le enough)
  rw [lastNode_nil] at listed
  unfold lists Covers
  rw [listed, List.any_eq_true]
  exact exists_congr fun block => and_congr_right fun _ => decide_eq_true_iff

/-- The pages in the blocks are those of the region that nobody holds. -/
theorem covers_iff (partitioned : BestFit.Partitioned sys low n held blocks) (page : Nat) :
    Covers blocks page <-> (low <= page /\ page < low + unsignedInt n) /\ page ∉ held := by
  constructor
  · rintro ⟨block, member, lower, upper⟩
    have inside := partitioned.free.inside block member
    refine ⟨by omega, fun taken => ?_⟩
    have place := partitioned.free.apart block page member taken
    omega
  · rintro ⟨range, fresh⟩
    exact (partitioned.covered page range.1 range.2).resolve_left fresh

/-- In a region whose size fits in an `unsigned int` no block is empty. -/
theorem block_positive (partitioned : BestFit.Partitioned sys low n held blocks) (small : n < 2 ^ 32)
    {block : Nat × Nat}
    (member : block ∈ blocks) : 0 < block.2 := by
  have free := partitioned.free
  have inside := free.inside block member
  rw [← unsignedInt_eq small] at inside
  have home : Covers blocks block.1 := by
    refine (covers_iff partitioned _).mpr ⟨⟨inside.1, inside.2.1⟩, fun taken => ?_⟩
    have place := free.apart block block.1 member taken
    omega
  rcases home with ⟨other, otherMember, lower, upper⟩
  rcases apart_or partitioned.apart member otherMember with same | below | above
  · rw [same]
    rw [same] at upper
    omega
  · unfold Apart at below
    omega
  · unfold Apart at above
    omega

/-- A page below all free ones lies below the last listed block. -/
theorem belowLast_of_lowest (partitioned : BestFit.Partitioned sys low n held blocks) (small : n < 2 ^ 32)
    (lowest : forall other, Covers blocks other -> page < other) : sys.BelowLast page := by
  have ring := partitioned.free.ring
  rcases List.eq_nil_or_concat blocks with none | ⟨first, block, split⟩
  · subst none
    have last : listPrev sys.links freeList = freeList := ring.path.prev_right
    rw [BelowLast, last]
    trivial
  · rw [List.concat_eq_append] at split
    subst split
    have last : listPrev sys.links freeList = blockNode block := by
      change sys.links.prev freeList = _
      rw [ring.path.prev_right, List.map_append]
      simp
    have member : block ∈ first ++ [block] := List.mem_append_right _ (List.mem_singleton_self _)
    have positive := block_positive partitioned small member
    rw [BelowLast, last]
    exact lowest block.1 ⟨block, member, Nat.le_refl _, by omega⟩

/-! ## One page at a time -/

/-- One page is served, the lowest free one, unless no page is free. -/
theorem allocPages_one (partitioned : BestFit.Partitioned sys low n held blocks) (enough : n < fuel) :
    (sys.allocPages fuel 1 = some (none, sys) /\ sys.nrFree.toNat = 0) \/
      Exists fun page => Exists fun next => Exists fun nextBlocks =>
        sys.allocPages fuel 1 = some (some page, next) /\ Covers blocks page /\
          (forall other, Covers blocks other -> page <= other) /\ sys.nrFree.toNat = next.nrFree.toNat + 1 /\
          BestFit.Partitioned next low n (page :: held) nextBlocks := by
  have free := partitioned.free
  have one : (1 : Nat) > 0 := Nat.one_pos
  rcases allocPages_lowest [] partitioned one enough with ⟨next, served, nextBlocks, kept⟩
  rw [← find_lowest partitioned one] at served kept
  cases search : blocks.find? fun block => decide (1 <= block.2) with
  | none =>
      left
      have empty : (blocks.map Prod.snd).sum = 0 := by
        refine List.sum_eq_zero_iff_forall_eq_nat.mpr fun size member => ?_
        rcases List.mem_map.mp member with ⟨block, listed, rfl⟩
        have small := List.find?_eq_none.mp search block listed
        simp only [decide_eq_true_eq] at small
        omega
      rw [free.total] at empty
      have scarce : 1 > sys.nrFree.toNat := by omega
      refine ⟨?_, empty⟩
      rw [allocPages, if_pos one, if_pos scarce]
  | some block =>
      right
      rw [search] at served kept
      rcases List.find?_eq_some_iff_append.mp search with ⟨large, first, rest, split, small⟩
      have fits : 1 <= block.2 := of_decide_eq_true large
      have member : block ∈ blocks := List.mem_of_find?_eq_some search
      refine ⟨block.1, next, nextBlocks, served, ⟨block, member, Nat.le_refl _, by omega⟩, ?_, ?_, kept⟩
      · rintro other ⟨home, homeMember, lower, upper⟩
        have sorted := free.sorted
        rw [split] at sorted homeMember
        rcases List.mem_append.mp homeMember with earlier | later
        · have few := small home earlier
          simp only [Bool.not_eq_true', decide_eq_false_iff_not] at few
          omega
        · rcases List.mem_cons.mp later with rfl | after
          · exact lower
          · have order := (pairwise_insert.mp sorted).2.2 home after
            unfold Below at order
            omega
      · rw [allocPages, if_pos one] at served
        split at served
        · cases served
        · rename_i plenty
          split at served
          · cases served
          · cases served
          · cases served
            have enough : UInt32.ofNat 1 <= sys.nrFree := by
              rw [UInt32.le_iff_toNat_le]
              exact Nat.le_of_not_lt plenty
            rw [takeFrom_nrFree, UInt32.toNat_sub_of_le _ _ enough]
            exact (Nat.sub_add_cancel (Nat.le_of_not_lt plenty)).symm

end FirstFit

end Memory

namespace Vm

open Memory

/-- `default_alloc_pages` for one page.  A manager that has not come back from
a call is `none`; what it hands out means nothing. -/
def defaultAllocPage (n : Nat) : Option FirstFit -> Option (Nat × Option FirstFit)
  | none => some (0, none)
  | some sys =>
      match sys.allocPages (n + 2) 1 with
      | none => some (0, none)
      | some (none, _) => none
      | some (some page, next) => some (page, some next)

/-- `default_free_pages` for one page -/
def defaultFreePage (n : Nat) (pool : Option FirstFit) (page : Nat) : Option FirstFit :=
  pool.bind fun sys => sys.freePages (n + 2) page 1

/-- The blocks and the held pages make up the region, which has fewer pages than
`nr_free` can count. -/
def DefaultSound (low n : Nat) (pool : Option FirstFit) : Prop :=
  n < 2 ^ 32 /\ Exists fun sys => pool = some sys /\ Exists fun held => Exists fun blocks =>
    BestFit.Partitioned sys low n held blocks

def defaultIsFree (n : Nat) : Option FirstFit -> Nat -> Bool
  | none, _ => false
  | some sys, page => sys.lists (n + 2) page

/-- The page lies below the last listed block, or nothing is listed. -/
def defaultClean : Option FirstFit -> Nat -> Bool
  | none, _ => false
  | some sys, page => decide (sys.BelowLast page)

section Laws

variable {low n page : Nat} {state next : Option FirstFit}

theorem defaultIsFree_iff {sys : FirstFit} {held : List Nat} {blocks : List (Nat × Nat)}
    (partitioned : BestFit.Partitioned sys low n held blocks) (page : Nat) :
    defaultIsFree n (some sys) page = true <-> FirstFit.Covers blocks page :=
  FirstFit.lists_iff partitioned (by omega) page

/-- What a call of the manager in order does. -/
theorem defaultAllocPage_cases (sound : DefaultSound low n state) :
    (defaultAllocPage n state = none /\ state.elim 0 (fun sys => sys.nrFree.toNat) = 0) \/
      Exists fun page => Exists fun next => defaultAllocPage n state = some (page, next) /\
        defaultIsFree n state page = true /\ (forall other, defaultIsFree n state other = true -> page <= other) /\
        state.elim 0 (fun sys => sys.nrFree.toNat) = next.elim 0 (fun sys => sys.nrFree.toNat) + 1 /\
        DefaultSound low n next /\
        forall other, defaultIsFree n next other = true <-> defaultIsFree n state other = true /\ other ≠ page := by
  rcases sound with ⟨small, sys, rfl, held, blocks, partitioned⟩
  have enough : n < n + 2 := by omega
  rcases FirstFit.allocPages_one partitioned enough with ⟨served, empty⟩ |
    ⟨page, next, nextBlocks, served, listed, least, counted, kept⟩
  · left
    refine ⟨?_, empty⟩
    rw [defaultAllocPage, served]
  · right
    refine ⟨page, some next, ?_, (defaultIsFree_iff partitioned page).mpr listed, fun other free => ?_, counted,
      ⟨small, next, rfl, _, _, kept⟩, fun other => ?_⟩
    · rw [defaultAllocPage, served]
    · exact least other ((defaultIsFree_iff partitioned other).mp free)
    · rw [defaultIsFree_iff kept, defaultIsFree_iff partitioned, FirstFit.covers_iff kept,
        FirstFit.covers_iff partitioned, List.mem_cons, not_or]
      tauto

theorem defaultFreePage_spec (sound : DefaultSound low n state) (managed : low <= page /\ page < low + n)
    (used : defaultIsFree n state page = false) (clean : defaultClean state page = true) :
    DefaultSound low n (defaultFreePage n state page) /\
      forall other, defaultIsFree n (defaultFreePage n state page) other = true <->
        defaultIsFree n state other = true \/ other = page := by
  rcases sound with ⟨small, sys, rfl, held, blocks, partitioned⟩
  have taken : page ∈ held := by
    by_contra fresh
    have region : low <= page /\ page < low + unsignedInt n := by
      rw [unsignedInt_eq small]
      exact managed
    have free := (defaultIsFree_iff partitioned page).mpr ((FirstFit.covers_iff partitioned page).mpr ⟨region, fresh⟩)
    rw [used] at free
    exact Bool.false_ne_true free
  have owned : forall other, other ∈ List.range' page 1 -> other ∈ held := by
    intro other member
    rw [List.range'_one, List.mem_singleton] at member
    exact member ▸ taken
  rcases FirstFit.freePages_partitioned partitioned Nat.one_pos owned (of_decide_eq_true clean)
    (show n < n + 2 by omega) with ⟨next, nextBlocks, freed, kept⟩
  have result : defaultFreePage n (some sys) page = some next := freed
  rw [result]
  refine ⟨⟨small, next, rfl, _, _, kept⟩, fun other => ?_⟩
  rw [defaultIsFree_iff kept, defaultIsFree_iff partitioned, FirstFit.covers_iff kept, FirstFit.covers_iff partitioned]
  have region := partitioned.free.heldInside page taken
  simp only [List.mem_filter, List.range'_one, List.mem_singleton, decide_eq_true_eq, not_and_or, not_not]
  constructor
  · rintro ⟨range, fresh | same⟩
    · exact .inl ⟨range, fresh⟩
    · exact .inr same
  · rintro (⟨range, fresh⟩ | rfl)
    · exact ⟨range, .inl fresh⟩
    · exact ⟨region, .inr rfl⟩

theorem defaultClean_lowest (sound : DefaultSound low n state)
    (lowest : forall other, defaultIsFree n state other = true -> page < other) : defaultClean state page = true := by
  rcases sound with ⟨small, sys, rfl, held, blocks, partitioned⟩
  refine decide_eq_true (FirstFit.belowLast_of_lowest partitioned small fun other listed => ?_)
  exact lowest other ((defaultIsFree_iff partitioned other).mpr listed)

end Laws

/-- `default_pmm`, with a region of `n` pages from `low` on. -/
def defaultPmm (low n : Nat) : PmmManager where
  State := Option FirstFit
  allocPage := defaultAllocPage n
  freePage := defaultFreePage n
  nrFreePages state := state.elim 0 fun sys => sys.nrFree.toNat
  isFree := defaultIsFree n
  Manages page := low <= page /\ page < low + n
  Sound := DefaultSound low n
  clean := defaultClean
  alloc_spec := by
    intro state page next sound allocated
    rcases defaultAllocPage_cases sound with ⟨refused, _⟩ | ⟨_, _, served, listed, _, counted, kept, free⟩
    · cases refused.symm.trans allocated
    · cases served.symm.trans allocated
      exact ⟨listed, counted, kept, free⟩
  alloc_least := by
    intro state page next sound allocated
    rcases defaultAllocPage_cases sound with ⟨refused, _⟩ | ⟨_, _, served, _, least, _⟩
    · cases refused.symm.trans allocated
    · cases served.symm.trans allocated
      exact least
  alloc_none := by
    intro state sound
    rcases defaultAllocPage_cases sound with both | ⟨_, _, served, _, _, counted, _⟩
    · exact iff_of_true both.1 both.2
    · exact iff_of_false (served ▸ Option.some_ne_none _) (by omega)
  free_none := by
    rintro state ⟨small, sys, rfl, held, blocks, partitioned⟩ empty page
    refine Bool.eq_false_iff.mpr fun free => ?_
    rcases (defaultIsFree_iff partitioned page).mp free with ⟨block, member, lower, upper⟩
    have total : (blocks.map Prod.snd).sum = 0 := partitioned.free.total.trans empty
    have size := List.sum_eq_zero_iff_forall_eq_nat.mp total block.2 (List.mem_map_of_mem member)
    omega
  free_manages := by
    rintro state page ⟨small, sys, rfl, held, blocks, partitioned⟩ free
    have region := ((FirstFit.covers_iff partitioned page).mp ((defaultIsFree_iff partitioned page).mp free)).1
    rwa [unsignedInt_eq small] at region
  free_spec _ _ := defaultFreePage_spec
  clean_lowest _ _ sound _ := defaultClean_lowest sound

/-- The manager after `default_init` and `default_init_memmap`, in memory whose
pages are all reserved -/
def bootPool (low n : Nat) : Option FirstFit :=
  FirstFit.initMemmap (n + 2) (FirstFit.init ⟨fun _ => { flags := { reserved := true } }, ⟨id, id⟩, 0⟩) low n

/-- After boot the manager is in order, and all its pages are free. -/
theorem bootPool_sound {low n : Nat} (booted : (bootPool low n).isSome = true) (small : n < 2 ^ 32) :
    (defaultPmm low n).Sound (bootPool low n) /\
      forall page, (defaultPmm low n).isFree (bootPool low n) page = true <-> low <= page /\ page < low + n := by
  rcases Option.isSome_iff_exists.mp booted with ⟨start, started⟩
  rw [started]
  have partitioned : BestFit.Partitioned start low n [] [(low, unsignedInt n)] := by
    refine ⟨FirstFit.initMemmap_blocks started, List.pairwise_singleton _ _, fun page lower upper => .inr ?_⟩
    exact ⟨_, List.mem_singleton_self _, lower, upper⟩
  refine ⟨⟨small, start, rfl, _, _, partitioned⟩, fun page => ?_⟩
  refine (defaultIsFree_iff partitioned page).trans ((FirstFit.covers_iff partitioned page).trans ?_)
  rw [unsignedInt_eq small]
  exact and_iff_left List.not_mem_nil

end Vm
end Ucore
