import Ucore.Memory.BuddyPartition

namespace Ucore
namespace Memory

open Library

/-!
# One allocation of the buddy allocator

What a request does is stated exactly, for any lists whose blocks are marked,
aligned and disjoint: no region and no history is needed.  The first block of
the smallest order that has one leaves its list.  Every order from the wanted
one up to the found one had an empty list, and gains the upper half that the
split leaves there.
-/

/-- The lists after the split loop has gone from `found` down to `target`
with the block at `start` in hand. -/
def splitLists (free : Nat -> List Nat) (start target found order : Nat) : List Nat :=
  if target <= order /\ order < found then (start + 2 ^ order) :: free order else free order

theorem splitLists_self (free : Nat -> List Nat) (start target : Nat) :
    splitLists free start target target = free := by
  funext order
  exact if_neg (fun both => Nat.not_lt_of_le both.1 both.2)

/-- The first pass of the loop, and then the others. -/
theorem splitLists_succ (free : Nat -> List Nat) {start target found : Nat} (reach : target <= found) :
    splitLists (Function.update free found ((start + 2 ^ found) :: free found)) start target found =
      splitLists free start target (found + 1) := by
  funext order
  unfold splitLists
  by_cases same : order = found
  · subst same
    rw [if_neg (fun both => Nat.lt_irrefl _ both.2), if_pos ⟨reach, Nat.lt_succ_self _⟩, Function.update_self]
  · have range : (target <= order /\ order < found) <-> (target <= order /\ order < found + 1) := by omega
    simp only [range, Function.update_of_ne same]

namespace BuddySystem

/-- What the split loop does to the rest of the allocator: the upper halves
are marked and counted. -/
structure Splits (sys : BuddySystem) (start target found : Nat) (next : BuddySystem) : Prop where
  upper : forall order, target <= order -> order < found ->
    next.page (start + 2 ^ order) =
      setPageProperty { sys.page (start + 2 ^ order) with property := 2 ^ order }
  others : forall index, (forall order, target <= order -> order < found -> index ≠ start + 2 ^ order) ->
    next.page index = sys.page index
  areas : forall order, next.areaNrFree order =
    if target <= order /\ order < found then sys.areaNrFree order + 1 else sys.areaNrFree order
  total : next.nrFree = sys.nrFree
  npage : next.npage = sys.npage

theorem Splits.refl (sys : BuddySystem) (start target : Nat) : Splits sys start target target sys where
  upper := fun _ reach below => absurd below (Nat.not_lt_of_le reach)
  others := fun _ _ => rfl
  areas := fun _ => (if_neg (fun both => Nat.not_lt_of_le both.1 both.2)).symm
  total := rfl
  npage := rfl

/-- One pass more at the top. -/
theorem Splits.succ {sys next : BuddySystem} {start target found : Nat} (reach : target <= found)
    (splits : Splits (sys.linkBlock (start + 2 ^ found) found) start target found next) :
    Splits sys start target (found + 1) next := by
  have distinct : forall order, order < found -> start + 2 ^ order ≠ start + 2 ^ found := by
    intro order below same
    exact Nat.ne_of_lt below (Nat.pow_right_injective (Nat.le_refl 2) (Nat.add_left_cancel same))
  have outer : forall index, index ≠ start + 2 ^ found ->
      (sys.linkBlock (start + 2 ^ found) found).page index = sys.page index :=
    fun index different => Function.update_of_ne different _ _
  refine ⟨?_, ?_, ?_, splits.total, splits.npage⟩
  · intro order above below
    by_cases same : order = found
    · subst same
      rw [splits.others _ fun other _ less => Ne.symm (distinct other less)]
      exact Function.update_self ..
    · have less : order < found := by omega
      rw [splits.upper order above less, outer _ (distinct order less)]
  · intro index outside
    rw [splits.others index fun order above less => outside order above (Nat.lt_succ_of_lt less)]
    exact outer index (outside found reach (Nat.lt_succ_self _))
  · intro order
    rw [splits.areas order]
    change (if _ then Function.update sys.areaNrFree found (sys.areaNrFree found + 1) order + 1
      else Function.update sys.areaNrFree found (sys.areaNrFree found + 1) order) = _
    by_cases same : order = found
    · subst same
      rw [if_neg (fun both => Nat.lt_irrefl _ both.2), if_pos ⟨reach, Nat.lt_succ_self _⟩, Function.update_self]
    · have range : (target <= order /\ order < found) <-> (target <= order /\ order < found + 1) := by omega
      simp only [range, Function.update_of_ne same]

theorem splitDown_exact {target start found : Nat} {sys : BuddySystem} {free : Nat -> List Nat}
    (reach : target <= found) (bound : found < maxOrder)
    (holds : HoldsBlock sys.page sys.links free start found) :
    HoldsBlock (splitDown target start found sys).page (splitDown target start found sys).links
      (splitLists free start target found) start target /\
        Splits sys start target found (splitDown target start found sys) := by
  induction found generalizing sys free with
  | zero =>
      have same : target = 0 := Nat.le_zero.mp reach
      subst same
      rw [splitLists_self]
      exact ⟨holds, .refl sys start 0⟩
  | succ found inductionHypothesis =>
      rw [splitDown]
      by_cases further : target < found + 1
      · have lower : target <= found := Nat.lt_succ_iff.mp further
        have small : found < maxOrder := Nat.lt_of_succ_lt bound
        have halves := holds.halve
        have linked : FreeLists (sys.linkBlock (start + 2 ^ found) found).page
            (sys.linkBlock (start + 2 ^ found) found).links
            (Function.update free found ((start + 2 ^ found) :: free found)) :=
          halves.1.link small rfl rfl
        have rest := inductionHypothesis lower small (halves.2 linked)
        rw [if_pos further]
        rw [splitLists_succ free lower] at rest
        exact ⟨rest.1, rest.2.succ lower⟩
      · have same : target = found + 1 := by omega
        subst same
        rw [if_neg further, splitLists_self]
        exact ⟨holds, .refl sys start (found + 1)⟩

/-- The lists after the first block of order `found` was taken for a request
of order `target`. -/
def allocatedLists (free : Nat -> List Nat) (start target found order : Nat) : List Nat :=
  if order = found then (free order).tail
  else if target <= order /\ order < found then [start + 2 ^ order]
  else free order

/-- The block of `2 ^ target` pages at `start` was cut from the first block of
order `found`; nothing else happened. -/
structure Allocates (sys : BuddySystem) (free : Nat -> List Nat) (target found start : Nat)
    (next : BuddySystem) : Prop where
  first : (free found).head? = some start
  lists : FreeLists next.page next.links (allocatedLists free start target found)
  aligned : (⟨start, target⟩ : Block).Aligned
  apart : forall block index, block ∈ listedBlocks (allocatedLists free start target found) ->
    block.Covers index -> ¬ (⟨start, target⟩ : Block).Covers index
  granted : next.page start = { clearPageProperty (sys.page start) with property := 0 }
  upper : forall order, target <= order -> order < found ->
    next.page (start + 2 ^ order) =
      setPageProperty { sys.page (start + 2 ^ order) with property := 2 ^ order }
  others : forall index, index ≠ start ->
    (forall order, target <= order -> order < found -> index ≠ start + 2 ^ order) ->
      next.page index = sys.page index
  areas : forall order, next.areaNrFree order =
    if order = found then sys.areaNrFree order - 1
    else if target <= order /\ order < found then sys.areaNrFree order + 1
    else sys.areaNrFree order
  total : next.nrFree = sys.nrFree - UInt32.ofNat (2 ^ target)
  npage : next.npage = sys.npage

/-- The upward search passes only over empty lists. -/
theorem findOrder_empty (sys : BuddySystem) (fuel found order : Nat) (above : found <= order)
    (passed : order < sys.findOrder fuel found) : listEmpty sys.links (.head order) = true := by
  induction fuel generalizing found with
  | zero =>
      rw [findOrder] at passed
      omega
  | succ fuel inductionHypothesis =>
      rw [findOrder] at passed
      by_cases further : found < maxOrder /\ listEmpty sys.links (.head found) = true
      · rw [if_pos further] at passed
        by_cases same : order = found
        · exact same ▸ further.2
        · exact inductionHypothesis (found + 1) (by omega) passed
      · rw [if_neg further] at passed
        omega

/-- The search ends at the smallest order with a block. -/
theorem findOrder_smallest {sys : BuddySystem} {free : Nat -> List Nat}
    (lists : FreeLists sys.page sys.links free) {target found : Nat} (reach : target <= found)
    (occupied : free found ≠ []) (least : forall order, target <= order -> order < found -> free order = []) :
    sys.findOrder (maxOrder - target) target = found := by
  have bound : found < maxOrder := by
    by_contra large
    exact occupied (lists.bounded found (Nat.le_of_not_lt large))
  have spec := sys.findOrder_spec (maxOrder - target) target (by omega)
  generalize reached : sys.findOrder (maxOrder - target) target = stop at spec
  rcases Nat.lt_trichotomy stop found with below | same | above
  · -- A search that stops early stops at a list with a block.
    have empty := (listEmpty_iff (lists.rings stop (by omega))).mpr
      (by rw [least stop spec.1 below, List.map_nil])
    rcases spec.2 with large | some
    · exact absurd large (by omega)
    · exact absurd (empty.symm.trans some) (by decide)
  · exact same
  · have empty := sys.findOrder_empty _ target found reach (reached ▸ above)
    exact absurd (List.map_eq_nil_iff.mp ((listEmpty_iff (lists.rings found bound)).mp empty)) occupied

/-- Without a block that is large enough it runs off the array. -/
theorem findOrder_exhausted {sys : BuddySystem} {free : Nat -> List Nat}
    (lists : FreeLists sys.page sys.links free) {target : Nat} (bound : target <= maxOrder)
    (none : forall order, target <= order -> free order = []) :
    maxOrder <= sys.findOrder (maxOrder - target) target := by
  have spec := sys.findOrder_spec (maxOrder - target) target (by omega)
  rcases spec.2 with large | some
  · exact large
  · by_contra short
    have empty := (listEmpty_iff (lists.rings _ (Nat.lt_of_not_le short))).mpr
      (by rw [none _ spec.1, List.map_nil])
    exact absurd (empty.symm.trans some) (by decide)

/-- A request for `n` pages takes the first block of the smallest order that
has one. -/
theorem allocPages_takes {sys : BuddySystem} {free : Nat -> List Nat}
    (lists : FreeLists sys.page sys.links free) {n found : Nat} (reach : Nat.clog 2 n <= found)
    (occupied : free found ≠ [])
    (least : forall order, Nat.clog 2 n <= order -> order < found -> free order = []) :
    Exists fun start => Exists fun next =>
      sys.allocPages n = some (some start, next) /\ Allocates sys free (Nat.clog 2 n) found start next := by
  have bound : found < maxOrder := by
    by_contra large
    exact occupied (lists.bounded found (Nat.le_of_not_lt large))
  have target : roundUpOrder n = Nat.clog 2 n := by
    rw [roundUpOrder_eq]
    omega
  rcases List.exists_cons_of_ne_nil occupied with ⟨start, rest, members⟩
  have ring := lists.rings found bound
  rw [members] at ring
  have first : listNext sys.links (.head found) = .page start := ring.path.next_left
  have taken : HoldsBlock (sys.unlinkBlock start found).page (sys.unlinkBlock start found).links
      (Function.update free found ([] ++ rest)) start found := lists.unlink members
  rw [List.nil_append] at taken
  have cut := splitDown_exact reach bound taken
  generalize reached : splitDown (Nat.clog 2 n) start found (sys.unlinkBlock start found) = split at cut
  have given : splitLists (Function.update free found rest) start (Nat.clog 2 n) found =
      allocatedLists free start (Nat.clog 2 n) found := by
    funext order
    unfold splitLists allocatedLists
    by_cases same : order = found
    · subst same
      rw [if_neg (fun both => Nat.lt_irrefl _ both.2), if_pos rfl, Function.update_self, members, List.tail_cons]
    · rw [if_neg same, Function.update_of_ne same]
      by_cases between : Nat.clog 2 n <= order /\ order < found
      · rw [if_pos between, if_pos between, least order between.1 between.2]
      · rw [if_neg between, if_neg between]
  rw [given] at cut
  let next : BuddySystem := { split with
    page := Function.update split.page start { clearPageProperty (split.page start) with property := 0 }
    nrFree := split.nrFree - UInt32.ofNat (2 ^ Nat.clog 2 n) }
  refine ⟨start, next, ?_, ?_⟩
  · rw [allocPages, target]
    simp only [findOrder_smallest lists reach occupied least, if_neg (Nat.not_le_of_lt bound), first, le2page, reached]
    rfl
  · have unlisted := cut.1.fresh
    have head : next.page start = { clearPageProperty (split.page start) with property := 0 } :=
      Function.update_self ..
    have outer : forall index, index ≠ start -> next.page index = split.page index :=
      fun index different => Function.update_of_ne different ..
    have startKept : split.page start = sys.page start :=
      cut.2.others start fun order _ _ => by
        have size := Nat.two_pow_pos order
        omega
    refine ⟨by rw [members]; rfl, ⟨cut.1.lists.rings, cut.1.lists.bounded, ?_, cut.1.lists.packed⟩,
      cut.1.packed.aligned _ (Set.mem_insert _ _), ?_, ?_, ?_, ?_, ?_, ?_, cut.2.npage⟩
    · intro order index listed
      have different : index ≠ start := fun equal => unlisted order (equal ▸ listed)
      rw [outer index different]
      exact cut.1.lists.marked order index listed
    · intro block index listed covered inside
      have same : block = ⟨start, Nat.clog 2 n⟩ := cut.1.packed.disjoint block _ index
        (Set.mem_insert_of_mem _ listed) (Set.mem_insert _ _) covered inside
      subst same
      exact unlisted _ listed
    · rw [head, startKept]
    · intro order above below
      have size := Nat.two_pow_pos order
      rw [outer _ (by omega)]
      exact cut.2.upper order above below
    · intro index different outside
      rw [outer index different]
      exact cut.2.others index outside
    · intro order
      have areas := cut.2.areas order
      change split.areaNrFree order = _
      rw [areas]
      change (if _ then Function.update sys.areaNrFree found (sys.areaNrFree found - 1) order + 1
        else Function.update sys.areaNrFree found (sys.areaNrFree found - 1) order) = _
      by_cases same : order = found
      · subst same
        rw [if_neg (fun both => Nat.lt_irrefl _ both.2), if_pos rfl, Function.update_self]
      · rw [if_neg same, Function.update_of_ne same]
    · exact congrArg (· - UInt32.ofNat (2 ^ Nat.clog 2 n)) cut.2.total

/-- Without a block that is large enough nothing changes. -/
theorem allocPages_refuses {sys : BuddySystem} {free : Nat -> List Nat}
    (lists : FreeLists sys.page sys.links free) {n : Nat}
    (none : forall order, Nat.clog 2 n <= order -> free order = []) :
    sys.allocPages n = some (Option.none, sys) := by
  have target := roundUpOrder_eq n
  have above : forall order, roundUpOrder n <= order -> free order = [] := by
    intro order reach
    by_cases large : maxOrder <= order
    · exact lists.bounded order large
    · exact none order (by omega)
  rw [allocPages]
  exact if_pos (findOrder_exhausted lists (by omega) above)

theorem allocPages_cases {sys : BuddySystem} {free : Nat -> List Nat}
    (lists : FreeLists sys.page sys.links free) (n : Nat) :
    ((forall order, Nat.clog 2 n <= order -> free order = []) /\ sys.allocPages n = some (none, sys)) \/
      Exists fun found => Exists fun start => Exists fun next => Nat.clog 2 n <= found /\
        sys.allocPages n = some (some start, next) /\ Allocates sys free (Nat.clog 2 n) found start next := by
  classical
  by_cases none : forall order, Nat.clog 2 n <= order -> free order = []
  · exact .inl ⟨none, allocPages_refuses lists none⟩
  · right
    have occupied : Exists fun order => Nat.clog 2 n <= order /\ free order ≠ [] := by
      simpa only [not_forall, exists_prop] using none
    have least := Nat.find_spec occupied
    have taken := allocPages_takes lists least.1 least.2 fun order above below =>
      not_not.mp fun filled => Nat.find_min occupied below ⟨above, filled⟩
    exact taken.elim fun start rest => rest.elim fun next facts => ⟨_, start, next, least.1, facts⟩

/-- A request fails, and then changes nothing, exactly when no listed block is
large enough; otherwise it is served from the smallest order that has one. -/
theorem allocPages_exact {sys : BuddySystem} {free : Nat -> List Nat}
    (lists : FreeLists sys.page sys.links free) (n : Nat) :
    (sys.allocPages n = some (none, sys) <-> forall order, Nat.clog 2 n <= order -> free order = []) /\
      forall found, Nat.clog 2 n <= found -> free found ≠ [] ->
        (forall order, Nat.clog 2 n <= order -> order < found -> free order = []) ->
          Exists fun start => Exists fun next =>
            sys.allocPages n = some (some start, next) /\
              Allocates sys free (Nat.clog 2 n) found start next := by
  refine ⟨⟨fun refused => ?_, allocPages_refuses lists⟩, fun found => allocPages_takes lists⟩
  rcases allocPages_cases lists n with ⟨none, _⟩ | ⟨found, start, next, _, taken, _⟩
  · exact none
  · rw [refused] at taken
    cases taken

/-- Eight pages that are listed as one block -/
def eightPages : Option BuddySystem := (reservedMemory 32).init.initMemmap 16 8

theorem eightPages_isSome : eightPages.isSome = true := by decide

/-- A request for three pages takes the lower half of the block. -/
theorem eightPages_allocates :
    Exists fun start => Exists fun free => Exists fun next => eightPages = some start /\
      FreeLists start.page start.links free /\ start.allocPages 3 = some (some 16, next) /\
        Allocates start free (Nat.clog 2 3) 3 16 next := by
  have started := (Option.some_get eightPages_isSome).symm
  rcases initMemmap_shape started with ⟨free, shape, _⟩
  have lists := shape.freeLists
  have empty (order : Nat) (bound : order < maxOrder) :
      listEmpty (eightPages.get eightPages_isSome).links (.head order) = true <-> free order = [] :=
    (listEmpty_iff (lists.rings order bound)).trans List.map_eq_nil_iff
  have target : Nat.clog 2 3 = 2 := by decide
  have occupied : free 3 ≠ [] := mt (empty 3 (by decide)).mpr (by decide)
  have least : forall order, Nat.clog 2 3 <= order -> order < 3 -> free order = [] := by
    intro order low high
    have only : order = 2 := by omega
    rw [only]
    exact (empty 2 (by decide)).mp (by decide)
  rcases (allocPages_exact lists 3).2 3 (by omega) occupied least with ⟨start, next, served, allocates⟩
  have first : ((eightPages.get eightPages_isSome).allocPages 3).map Prod.fst = some (some 16) := by decide
  rw [served] at first
  cases first
  exact ⟨_, free, next, started, lists, served, allocates⟩

end BuddySystem

end Memory
end Ucore
