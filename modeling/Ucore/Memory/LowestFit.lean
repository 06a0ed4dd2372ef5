import Ucore.Memory.BestFitOrder

namespace Ucore
namespace Memory

open Library

/-!
# First fit is lowest fit

What the first-fit allocator does with its list, its flags and its counter,
seen from outside: a region of pages, some of them held.  A request gets the
lowest place at which that many consecutive pages are free, and fails only
when there is none.
-/

/-- The pages of a region that callers hold, with the blocks they were given. -/
structure PagePool where
  low : Nat
  size : Nat
  returned : List (Nat × Nat)
  held : List Nat
deriving DecidableEq, Repr

namespace PagePool

/-- So many consecutive pages of the region are held by nobody. -/
def Vacant (pool : PagePool) (n base : Nat) : Prop :=
  pool.low <= base /\ base + n <= pool.low + pool.size /\ forall page, page ∈ List.range' base n -> page ∉ pool.held

instance (pool : PagePool) (n base : Nat) : Decidable (pool.Vacant n base) :=
  inferInstanceAs (Decidable (_ /\ _ /\ _))

/-- The lowest place for so many pages -/
def lowest (pool : PagePool) (n : Nat) : Option Nat :=
  (List.range' pool.low pool.size).find? (fun base => decide (pool.Vacant n base))

/-- The number of pages that nobody holds -/
def vacancies (pool : PagePool) : Nat :=
  ((List.range' pool.low pool.size).filter (fun page => decide (page ∉ pool.held))).length

def take (pool : PagePool) (base n : Nat) : PagePool :=
  { pool with returned := (base, n) :: pool.returned, held := List.range' base n ++ pool.held }

def giveBack (pool : PagePool) (base n : Nat) : PagePool :=
  { pool with held := pool.held.filter (fun page => decide (page ∉ List.range' base n)) }

/-- The range lies in a block given earlier and is still held. -/
def MayGiveBack (pool : PagePool) (base n : Nat) : Prop :=
  (Exists fun block => block ∈ pool.returned /\ block.1 <= base /\ base + n <= block.1 + block.2) /\
    forall page, page ∈ List.range' base n -> page ∈ pool.held

instance (pool : PagePool) (base n : Nat) : Decidable (pool.MayGiveBack base n) :=
  inferInstanceAs (Decidable ((Exists fun _ => _ /\ _ /\ _) /\ _))

def step (pool : PagePool) : FirstFitAction -> Option PagePool
  | .alloc n => if n > 0 then some ((pool.lowest n).elim pool (fun base => pool.take base n)) else none
  | .free base n => if n > 0 /\ pool.MayGiveBack base n then some (pool.giveBack base n) else none

variable {pool : PagePool} {n base : Nat}

/-- The search finds the lowest place. -/
theorem lowest_eq_some (positive : n > 0) (vacant : pool.Vacant n base)
    (least : forall other, pool.Vacant n other -> base <= other) : pool.lowest n = some base := by
  have inside : base < pool.low + pool.size := by
    have upper := vacant.2.1
    omega
  have split : List.range' pool.low pool.size =
      List.range' pool.low (base - pool.low) ++ List.range' base (pool.low + pool.size - base) := by
    have lower := vacant.1
    rw [show pool.size = (base - pool.low) + (pool.low + pool.size - base) by omega, ← List.range'_append_1,
      Nat.add_sub_cancel' lower]
    congr 2
    omega
  have missed : (List.range' pool.low (base - pool.low)).find? (fun base => decide (pool.Vacant n base)) = none := by
    refine List.find?_eq_none.mpr fun other member taken => ?_
    have range := List.mem_range'_1.mp member
    have bound := least other (of_decide_eq_true taken)
    omega
  have first : List.range' base (pool.low + pool.size - base) =
      base :: List.range' (base + 1) (pool.low + pool.size - base - 1) := by
    rw [← List.range'_succ]
    congr 1
    omega
  rw [lowest, split, List.find?_append, missed, first]
  simp only [List.find?_cons, decide_eq_true vacant, Option.none_or]

theorem lowest_eq_none (never : forall base, ¬ pool.Vacant n base) : pool.lowest n = none :=
  List.find?_eq_none.mpr fun base _ taken => never base (of_decide_eq_true taken)

end PagePool

/-! ## Free blocks and places -/

namespace FirstFit

variable {sys : FirstFit} {low n request base : Nat} {held : List Nat} {blocks before after : List (Nat × Nat)}

/-- Of two blocks of a sorted list one is the other or lies apart from it. -/
theorem apart_or (apart : blocks.Pairwise Apart) {first second : Nat × Nat} (firstMember : first ∈ blocks)
    (secondMember : second ∈ blocks) : first = second \/ Apart first second \/ Apart second first := by
  rcases List.append_of_mem firstMember with ⟨before, after, split⟩
  rw [split] at apart secondMember
  have parts := pairwise_insert.mp apart
  rcases List.mem_append.mp secondMember with earlier | rest
  · exact .inr (.inr (parts.2.1 second earlier))
  · rcases List.mem_cons.mp rest with same | later
    · exact .inl same.symm
    · exact .inr (.inl (parts.2.2 second later))

/-- Consecutive free pages lie in one block. -/
theorem within_block (apart : blocks.Pairwise Apart)
    (covered : forall page, base <= page -> page < base + (request + 1) -> Covers blocks page) :
    Exists fun block => block ∈ blocks /\ block.1 <= base /\ base + (request + 1) <= block.1 + block.2 := by
  induction request with
  | zero =>
      rcases covered base (Nat.le_refl _) (by omega) with ⟨block, member, lower, upper⟩
      exact ⟨block, member, lower, upper⟩
  | succ request inductionHypothesis =>
      rcases inductionHypothesis fun page lower upper => covered page lower (by omega) with
        ⟨block, member, lower, upper⟩
      rcases covered (base + (request + 1)) (by omega) (by omega) with ⟨other, otherMember, first, last⟩
      refine ⟨block, member, lower, ?_⟩
      rcases apart_or apart member otherMember with same | below | above
      · rw [same]
        exact last
      · unfold Apart at below
        omega
      · unfold Apart at above
        omega

/-- The search takes the first block that is large enough. -/
theorem findFit_eq {fuel : Nat} (ring : sys.links.Ring freeList ((before ++ after).map blockNode))
    (fields : forall block, block ∈ after -> (sys.page block.1).property = block.2) (enough : after.length < fuel) :
    sys.findFit request fuel (lastNode before) =
      some ((after.find? fun block => decide (request <= block.2)).map Prod.fst) := by
  induction after generalizing before fuel with
  | nil =>
      rcases Nat.exists_eq_succ_of_ne_zero (Nat.ne_of_gt enough) with ⟨fuel, equal⟩
      subst equal
      have next : listNext sys.links (lastNode before) = freeList := (seam ring).1
      rw [findFit, next]
      rfl
  | cons block rest inductionHypothesis =>
      rcases Nat.exists_eq_succ_of_ne_zero (Nat.ne_of_gt (Nat.lt_of_le_of_lt (Nat.zero_le _) enough)) with
        ⟨fuel, equal⟩
      subst equal
      have next : listNext sys.links (lastNode before) = .page block.1 := (seam ring).1
      have split : before ++ block :: rest = (before ++ [block]) ++ rest := by simp
      rw [split] at ring
      have later := inductionHypothesis ring (fun other member => fields other (List.mem_cons_of_mem _ member))
        (Nat.lt_of_succ_lt_succ enough)
      rw [lastNode_append] at later
      rw [findFit, next]
      simp only [fields block List.mem_cons_self, List.find?_cons]
      by_cases large : request <= block.2
      · rw [if_pos large, decide_eq_true large]
        rfl
      · rw [if_neg large, decide_eq_false large]
        exact later

/-- What the callers see of the allocator -/
def pool (returned : List (Nat × Nat)) (held : List Nat) (low n : Nat) : PagePool :=
  ⟨low, unsignedInt n, returned, held⟩

variable {returned : List (Nat × Nat)}

/-- Free places lie in a block, and every block that is large enough is one. -/
theorem vacant_iff (partitioned : BestFit.Partitioned sys low n held blocks) (positive : request > 0) :
    (pool returned held low n).Vacant request base <->
      Exists fun block => block ∈ blocks /\ block.1 <= base /\ base + request <= block.1 + block.2 := by
  have free := partitioned.free
  constructor
  · rintro ⟨lower, upper, fresh⟩
    rcases Nat.exists_eq_succ_of_ne_zero (Nat.ne_of_gt positive) with ⟨count, equal⟩
    subst equal
    refine within_block partitioned.apart fun page above below => ?_
    change base + (count + 1) <= low + unsignedInt n at upper
    change low <= base at lower
    rcases partitioned.covered page (by omega) (by omega) with taken | covers
    · exact absurd taken (fresh page (List.mem_range'_1.mpr ⟨above, below⟩))
    · exact covers
  · rintro ⟨block, member, lower, upper⟩
    have inside := free.inside block member
    refine ⟨Nat.le_trans inside.1 lower, Nat.le_trans upper inside.2.2, fun page range taken => ?_⟩
    have place := free.apart block page member taken
    have bounds := List.mem_range'_1.mp range
    omega

/-- The first block that is large enough begins at the lowest free place. -/
theorem find_lowest (partitioned : BestFit.Partitioned sys low n held blocks) (positive : request > 0) :
    (blocks.find? fun block => decide (request <= block.2)).map Prod.fst =
      (pool returned held low n).lowest request := by
  cases found : blocks.find? fun block => decide (request <= block.2) with
  | none =>
      refine (PagePool.lowest_eq_none fun base vacant => ?_).symm
      rcases (vacant_iff partitioned positive).mp vacant with ⟨block, member, lower, upper⟩
      have small := List.find?_eq_none.mp found block member
      exact small (decide_eq_true (by omega))
  | some block =>
      rcases List.find?_eq_some_iff_append.mp found with ⟨large, before, after, split, small⟩
      have fits := of_decide_eq_true large
      have member : block ∈ blocks := by
        rw [split]
        simp
      refine (PagePool.lowest_eq_some positive ?_ fun other vacant => ?_).symm
      · exact (vacant_iff partitioned positive).mpr ⟨block, member, Nat.le_refl _, by omega⟩
      · rcases (vacant_iff partitioned positive).mp vacant with ⟨home, homeMember, lower, upper⟩
        have sorted := partitioned.free.sorted
        rw [split] at sorted homeMember
        rcases List.mem_append.mp homeMember with earlier | rest
        · have few := small home earlier
          rw [Bool.not_eq_true'] at few
          have short := of_decide_eq_false few
          omega
        · rcases List.mem_cons.mp rest with same | later
          · rw [← same]
            exact lower
          · have order := (pairwise_insert.mp sorted).2.2 home later
            unfold Below at order
            omega

/-- The free pages are those that `nr_free` counts. -/
theorem vacancies_eq (partitioned : BestFit.Partitioned sys low n held blocks) :
    (pool returned held low n).vacancies = sys.nrFree.toNat := by
  have free := partitioned.free
  rw [← free.total]
  have listed : ((blocks.flatMap fun block => List.range' block.1 block.2).length) = (blocks.map Prod.snd).sum := by
    rw [List.length_flatMap]
    congr 1
    exact List.map_congr_left fun block _ => List.length_range'
  rw [← listed]
  refine List.Perm.length_eq ((List.perm_ext_iff_of_nodup ?_ ?_).mpr fun page => ?_)
  · exact (List.nodup_range' ).filter _
  · refine List.nodup_flatMap.mpr ⟨fun block _ => List.nodup_range', ?_⟩
    refine free.sorted.imp fun {first second} order => ?_
    intro page inFirst inSecond
    have lower := List.mem_range'_1.mp inFirst
    have upper := List.mem_range'_1.mp inSecond
    unfold Below at order
    omega
  · rw [List.mem_filter, List.mem_flatMap, List.mem_range'_1, decide_eq_true_iff]
    constructor
    · rintro ⟨range, fresh⟩
      rcases partitioned.covered page range.1 range.2 with taken | ⟨block, member, inside⟩
      · exact absurd taken fresh
      · exact ⟨block, member, List.mem_range'_1.mpr inside⟩
    · rintro ⟨block, member, inside⟩
      have range := List.mem_range'_1.mp inside
      have bounds := free.inside block member
      refine ⟨⟨Nat.le_trans bounds.1 range.1, ?_⟩, fun taken => ?_⟩
      · change page < low + unsignedInt n
        omega
      · have place := free.apart block page member taken
        omega

/-- A block is no larger than all blocks together. -/
theorem find_scarce {total : Nat} (sum : (blocks.map Prod.snd).sum = total) (scarce : request > total) :
    (blocks.find? fun block => decide (request <= block.2)) = none := by
  refine List.find?_eq_none.mpr fun block member large => ?_
  have fits := of_decide_eq_true large
  rcases List.append_of_mem member with ⟨before, after, split⟩
  rw [split, List.map_append, List.map_cons, List.sum_append, List.sum_cons] at sum
  omega

/-- Allocation takes the lowest free place, and fails where there is none. -/
theorem allocPages_lowest {fuel : Nat} (returned : List (Nat × Nat))
    (partitioned : BestFit.Partitioned sys low n held blocks) (positive : request > 0) (enough : n < fuel) :
    Exists fun next => sys.allocPages fuel request = some ((pool returned held low n).lowest request, next) /\
      Exists fun nextBlocks => BestFit.Partitioned next low n
        ((pool returned held low n).lowest request |>.elim held fun base => List.range' base request ++ held)
        nextBlocks := by
  have free := partitioned.free
  have found : _ = (pool returned held low n).lowest request := find_lowest partitioned positive
  rw [allocPages, if_pos positive]
  by_cases scarce : request > sys.nrFree.toNat
  · rw [find_scarce free.total scarce] at found
    rw [← found, if_pos scarce]
    exact ⟨sys, rfl, blocks, partitioned⟩
  · have ring : sys.links.Ring freeList (([] ++ blocks).map blockNode) := free.ring
    have walk : sys.findFit request fuel (lastNode []) = _ :=
      findFit_eq ring free.fields (Nat.lt_of_le_of_lt free.length_le enough)
    rw [lastNode_nil] at walk
    rw [if_neg scarce, walk, ← found]
    cases search : blocks.find? fun block => decide (request <= block.2) with
    | none => exact ⟨sys, rfl, blocks, partitioned⟩
    | some block =>
        rcases List.find?_eq_some_iff_append.mp search with ⟨large, before, after, split, _⟩
        have fits : request <= block.2 := of_decide_eq_true large
        subst split
        refine ⟨_, rfl, _, takeFrom_blocks free positive fits, BestFit.remainder_apart partitioned.apart,
          fun page lower upper => ?_⟩
        rcases partitioned.covered page lower upper with old | covers
        · exact .inl (List.mem_append_right _ old)
        · exact (BestFit.remainder_covers covers).imp_left (List.mem_append_left _)

/-- A release below the last listed block gives its pages back. -/
theorem freePages_partitioned {fuel count : Nat} (partitioned : BestFit.Partitioned sys low n held blocks)
    (positive : count > 0) (owned : forall page, page ∈ List.range' base count -> page ∈ held)
    (below : sys.BelowLast base) (enough : n < fuel) :
    Exists fun next => Exists fun nextBlocks => sys.freePages fuel base count = some next /\
      BestFit.Partitioned next low n (held.filter fun page => page ∉ List.range' base count) nextBlocks := by
  have free := partitioned.free
  have unlisted := free.held_unlisted (owned base (List.mem_range'_1.mpr ⟨Nat.le_refl _, by omega⟩))
  rcases clearHeld_spec (owned_allowed free owned) with ⟨cleared, clearing, links, nrFree, pages⟩
  have ring : (cleared.markFree base count).links.Ring freeList (blocks.map blockNode) := by
    change cleared.links.Ring _ _
    rw [links]
    exact free.ring
  have stillBelow : (cleared.markFree base count).BelowLast base := by
    have kept : (cleared.markFree base count).links = sys.links := links
    unfold BelowLast at below ⊢
    rw [kept]
    exact below
  rcases insertFree_spec ring free.sorted unlisted stillBelow (Nat.lt_of_le_of_lt free.length_le enough) count with
    ⟨before, after, newLinks, split, lower, higher, inserting, newRing⟩
  subst split
  have listed := mark_blocks free positive owned nrFree pages lower higher newRing
  rcases mergeBefore_blocks listed with ⟨first, size, merged, fewer, gap, coversBefore⟩
  rcases mergeAfter_blocks merged with ⟨nextBlocks, final, apart, coversAfter⟩
  refine ⟨_, nextBlocks, ?_, final, ?_, fun page lower upper => ?_⟩
  · rw [freePages, if_pos positive, clearing, Option.bind_some, inserting, Option.map_some]
  · refine apart (partitioned.apart.sublist (fewer.append (.refl _))) (gap ?_)
    exact partitioned.apart.sublist (List.sublist_append_left _ _)
  · rw [← coversAfter, ← coversBefore]
    by_cases released : page ∈ List.range' base count
    · have range := List.mem_range'_1.mp released
      exact .inr ⟨(base, count), by simp, range.1, range.2⟩
    · rcases partitioned.covered page lower upper with old | ⟨block, member, inside⟩
      · exact .inl (List.mem_filter.mpr ⟨old, decide_eq_true released⟩)
      · refine .inr ⟨block, ?_, inside⟩
        simp only [List.mem_append, List.mem_cons] at member ⊢
        tauto

end FirstFit

/-! ## Whole histories -/

namespace FirstFitHistory

/-- What the callers see of a history -/
def pool (low : Nat) (history : FirstFitHistory) : PagePool :=
  FirstFit.pool history.returned history.held low history.size

/-- The invariant: every page of the region is held, or free in a block that
no other block touches. -/
def WellCovered (low n : Nat) (history : FirstFitHistory) : Prop :=
  history.size = n /\ Exists fun blocks => BestFit.Partitioned history.sys low n history.held blocks

/-- The step lemma: what the callers see changes as in the pool. -/
theorem step_pool {low n : Nat} {history : FirstFitHistory} {action : FirstFitAction}
    (covered : history.WellCovered low n) (below : history.FreesBelowLast action) :
    (history.step action).map (pool low) = (history.pool low).step action /\
      forall next, history.step action = some next -> next.WellCovered low n := by
  rcases covered with ⟨size, blocks, partitioned⟩
  have enough : n < history.fuel := by
    rw [fuel, size]
    omega
  cases action with
  | alloc request =>
      by_cases positive : request > 0
      · have seen : FirstFit.pool history.returned history.held low n = history.pool low := by
          rw [pool, size]
        have lowest := FirstFit.allocPages_lowest history.returned partitioned positive enough
        rw [seen] at lowest
        rcases lowest with ⟨sys, served, nextBlocks, kept⟩
        cases place : (history.pool low).lowest request with
        | none =>
            rw [place] at served kept
            simp only [step, served, PagePool.step, if_pos positive, place, Option.elim_none, Option.map_some]
            exact ⟨rfl, fun next same => by cases same; exact ⟨size, nextBlocks, kept⟩⟩
        | some base =>
            rw [place] at served kept
            simp only [step, served, PagePool.step, if_pos positive, place, Option.elim_some, Option.map_some]
            exact ⟨rfl, fun next same => by cases same; exact ⟨size, nextBlocks, kept⟩⟩
      · have refused : history.sys.allocPages history.fuel request = none := if_neg positive
        simp only [step, refused, PagePool.step, if_neg positive, Option.map_none]
        exact ⟨trivial, fun next same => by cases same⟩
  | free base count =>
      by_cases positive : count > 0
      · by_cases allowed : history.MayFree base count
        · rcases FirstFit.freePages_partitioned partitioned positive allowed.2 below enough with
            ⟨sys, nextBlocks, freed, kept⟩
          have may : (history.pool low).MayGiveBack base count := allowed
          simp only [step, if_pos allowed, freed, Option.map_some, PagePool.step, if_pos (And.intro positive may)]
          exact ⟨rfl, fun next same => by cases same; exact ⟨size, nextBlocks, kept⟩⟩
        · have mayNot : ¬ (count > 0 /\ (history.pool low).MayGiveBack base count) := fun both => allowed both.2
          simp only [step, if_neg allowed, PagePool.step, if_neg mayNot, Option.map_none]
          exact ⟨trivial, fun next same => by cases same⟩
      · have refused : history.sys.freePages history.fuel base count = none := if_neg positive
        have mayNot : ¬ (count > 0 /\ (history.pool low).MayGiveBack base count) := fun both => positive both.1
        simp only [step, refused, PagePool.step, if_neg mayNot, Option.map_none, ite_self]
        exact ⟨trivial, fun next same => by cases same⟩

end FirstFitHistory

def poolMachine : Machine PagePool FirstFitAction := ⟨PagePool.step⟩

/-- From one initialised region, every run of allocations and releases below
the last listed block is the run of a pool that serves each request at the
lowest free place, and `nr_free` counts the free pages. -/
theorem first_fit_is_lowest_fit {memory start : FirstFit} {low n : Nat} {actions : List FirstFitAction}
    (started : memory.init.initMemmap (n + 2) low n = some start)
    (below : firstFitMachine.Along FirstFitHistory.FreesBelowLast ⟨start, n, [], []⟩ actions) :
    (firstFitMachine.run ⟨start, n, [], []⟩ actions).map (FirstFitHistory.pool low) =
        poolMachine.run ⟨low, unsignedInt n, [], []⟩ actions /\
      forall last, firstFitMachine.run ⟨start, n, [], []⟩ actions = some last ->
        last.sys.nrFree.toNat = (last.pool low).vacancies := by
  have initial : FirstFitHistory.WellCovered low n ⟨start, n, [], []⟩ := by
    refine ⟨rfl, _, FirstFit.initMemmap_blocks started, List.pairwise_singleton _ _, fun page lower upper => .inr ?_⟩
    exact ⟨_, List.mem_singleton_self _, lower, upper⟩
  have alike : forall history action, FirstFitHistory.WellCovered low n history ->
      FirstFitHistory.FreesBelowLast history action ->
      (firstFitMachine.step history action).map (FirstFitHistory.pool low) =
          poolMachine.step (FirstFitHistory.pool low history) action /\
        forall next, firstFitMachine.step history action = some next -> FirstFitHistory.WellCovered low n next :=
    fun _ _ covered below => FirstFitHistory.step_pool covered below
  constructor
  · exact Machine.run_map alike initial below
  · intro last ran
    have kept : forall history action next, FirstFitHistory.WellCovered low n history ->
        FirstFitHistory.FreesBelowLast history action -> firstFitMachine.step history action = some next ->
        FirstFitHistory.WellCovered low n next :=
      fun history action next covered below stepped => (alike history action covered below).2 next stepped
    rcases Machine.run_invariant kept initial below ran with ⟨size, blocks, partitioned⟩
    rw [FirstFitHistory.pool, size]
    exact (FirstFit.vacancies_eq partitioned).symm

/-- Four pages, taken and released in the middle. -/
theorem releaseDownwards_lowest :
    (firstFitMachine.run fourHistory releaseDownwards).map (FirstFitHistory.pool 0) =
        poolMachine.run ⟨0, unsignedInt 4, [], []⟩ releaseDownwards /\
      forall last, firstFitMachine.run fourHistory releaseDownwards = some last ->
        last.sys.nrFree.toNat = (last.pool 0).vacancies :=
  first_fit_is_lowest_fit (Option.some_get fourListed_isSome).symm (by decide)

example : (poolMachine.run ⟨0, 4, [], []⟩ releaseDownwards).map PagePool.held = some [0] := by decide

end Memory
end Ucore
