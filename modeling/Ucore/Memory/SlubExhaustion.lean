import Mathlib.Algebra.BigOperators.Group.List.Basic
import Ucore.Memory.SlubSound

namespace Ucore
namespace Memory

open Library
open Program

/-!
# Allocations that never stop

Two slabs that are used up in turn are enough.  The first one is full when the
second one becomes the current page, so that it goes on the list of the node,
and the allocation after the last object of the second one takes from it.
-/

namespace Slub

variable {cache : Cache} {slub before after : Slub} {free next : Nat -> List Nat} {page other object start : Nat}
  {host : Slub -> Nat × Nat} {memory : Nat -> Nat} {pages : Nat -> Slab} {events : List Event}

/-- Consecutive allocations, where the host always has a slab. -/
def allocs (cache : Cache) (host : Slub -> Nat × Nat) : Nat -> Routine Unit
  | 0 => pure ()
  | count + 1 => do
      let slub <- get
      let _ <- kmemCacheAlloc cache (some (host slub)) 2
      allocs cache host count

/-- The host gives slabs that are not in use, and has one at every call: an
allocation that fails does not fail for want of memory. -/
def Supplies (cache : Cache) (host : Slub -> Nat × Nat) : Prop :=
  forall slub, Allows cache slub (.alloc (some (host slub)))

/-- Some number of allocations ends in a load from `NULL`. -/
def Crashes (cache : Cache) (host : Slub -> Nat × Nat) (slub : Slub) : Prop :=
  Exists fun count => allocs cache host count slub = .stop .nullLoad

theorem crashes_now (stops : kmemCacheAlloc cache (some (host slub)) 2 slub = .stop .nullLoad) :
    Crashes cache host slub := by
  refine ⟨1, ?_⟩
  unfold allocs
  dsimp only [bind, Program.get]
  rw [stops]

theorem crashes_later {value : Option Nat}
    (returns : kmemCacheAlloc cache (some (host slub)) 2 slub = .done value after)
    (later : Crashes cache host after) : Crashes cache host slub := by
  obtain ⟨count, stops⟩ := later
  refine ⟨count + 1, ?_⟩
  unfold allocs
  dsimp only [bind, Program.get]
  rw [returns]
  exact stops

/-! ## The ways of an allocation -/

theorem alloc_current (given : Option (Nat × Nat)) (current : slub.cpuPage = some page)
    (real : (slub.page page).freelist ≠ 0) : kmemCacheAlloc cache given 2 slub =
      .done (some (slub.page page).freelist) (taken page (slub.page page).freelist slub) := by
  have unexhausted : ¬ Exhausted slub := fun wrong => real (wrong page current)
  rcases alloc_prepares cache given slub with ⟨found, prepared, prepares, same⟩ | ⟨exhausted, _⟩
  · cases prepares with
    | current selected some =>
        cases current.symm.trans selected
        rw [same, map_takeObject, if_neg real]
    | listed exhausted first => exact absurd exhausted unexhausted
    | fresh exhausted processor node given => exact absurd exhausted unexhausted
  · exact absurd exhausted unexhausted

theorem alloc_listed (given : Option (Nat × Nat)) (exhausted : Exhausted slub)
    (listed : slub.cpuPartial ++ slub.nodePartial ≠ []) : Exists fun page => Exists fun rest =>
      (refilled cache slub).cpuPartial = page :: rest /\
        kmemCacheAlloc cache given 2 slub = (some <$> takeObject page : Routine (Option Nat))
          { retired (refilled cache slub) with cpuPage := some page, cpuPartial := rest } := by
  rcases alloc_prepares cache given slub with ⟨page, prepared, prepares, same⟩ | ⟨_, processor, node, _⟩
  · cases prepares with
    | current selected some => exact absurd (exhausted page selected) some
    | listed exhausted first => exact ⟨page, _, first, same⟩
    | fresh exhausted processor node given => exact absurd (by rw [processor, node]; rfl) listed
  · exact absurd (by rw [processor, node]; rfl) listed

theorem alloc_unlisted (cache : Cache) (page start : Nat) (exhausted : Exhausted slub)
    (unlisted : slub.cpuPartial ++ slub.nodePartial = []) :
    kmemCacheAlloc cache (some (page, start)) 2 slub = (some <$> takeObject page : Routine (Option Nat))
      { retired (newSlab cache page start slub) with cpuPage := some page } := by
  obtain ⟨processor, node⟩ := List.append_eq_nil_iff.mp unlisted
  rcases alloc_prepares cache (some (page, start)) slub with ⟨found, prepared, prepares, same⟩ | ⟨_, _, _, wrong, _⟩
  · cases prepares with
    | current selected some => exact absurd (exhausted found selected) some
    | listed exhausted first =>
        have none : refilled cache slub = slub := by
          unfold refilled
          rw [processor, node]
          rfl
        rw [none, processor] at first
        exact nomatch first
    | fresh exhausted processor node given =>
        cases given
        exact same
  · exact nomatch wrong

/-! ## A page that is used up -/

/-- All objects of the current page are taken, and no other page has been
touched: the next allocation has to leave the page. -/
structure Drained (cache : Cache) (free : Nat -> List Nat) (before : Slub) (page : Nat) (next : Nat -> List Nat)
    (after : Slub) : Prop where
  ready : Ready cache next after page
  empty : next page = []
  others : forall other, other ≠ page -> next other = free other
  processor : after.cpuPartial = before.cpuPartial
  node : after.nodePartial = before.nodePartial
  objects : (after.page page).objects = (before.page page).objects
  filled : (after.page page).inuse = (before.page page).inuse + (free page).length

theorem Drained.exhausted (drained : Drained cache free before page next after) : Exhausted after := by
  intro current same
  cases drained.ready.current.symm.trans same
  exact (drained.ready.sound.linked page drained.ready.member).eq_nil_iff.mp drained.empty

/-- Allocations use the current page up. -/
theorem crashes_drain (ready : Ready cache free slub page)
    (later : forall next after, Drained cache free slub page next after -> Crashes cache host after) :
    Crashes cache host slub := by
  generalize listed : free page = objects
  induction objects generalizing slub free with
  | nil =>
      exact later free slub
        ⟨ready, listed, fun _ _ => rfl, rfl, rfl, rfl, by rw [listed]; exact (Int.add_zero _).symm⟩
  | cons object rest inductionHypothesis =>
      have linked := ready.sound.linked page ready.member
      rw [listed] at linked
      have real : (slub.page page).freelist ≠ 0 := by
        rw [linked.1]
        exact linked.2.1
      refine crashes_later (alloc_current _ ready.current real) ?_
      rw [linked.1]
      refine inductionHypothesis ⟨ready.sound.taken ready.member listed, ready.current⟩ (fun next after drained => ?_)
        (Function.update_self ..)
      refine later next after ⟨drained.ready, drained.empty, fun other different => ?_, drained.processor, drained.node,
        ?_, ?_⟩
      · rw [drained.others other different, Function.update_of_ne different]
      · rw [drained.objects, taken_page_self]
      · rw [drained.filled, taken_page_self, Function.update_self, listed, List.length_cons]
        push_cast
        omega

/-- An allocation that has prepared a page uses it up. -/
theorem crashes_prepared {prepared : Slub}
    (same : kmemCacheAlloc cache (some (host slub)) 2 slub = (some <$> takeObject page : Routine (Option Nat)) prepared)
    (ready : Ready cache free prepared page)
    (later : free page ≠ [] -> forall next after, Drained cache free prepared page next after ->
      Crashes cache host after) :
    Crashes cache host slub := by
  by_cases none : (prepared.page page).freelist = 0
  · exact crashes_now (by rw [same, map_takeObject, if_pos none])
  · rw [map_takeObject, if_neg none] at same
    have some : free page ≠ [] := fun empty => none ((ready.sound.linked page ready.member).eq_nil_iff.mp empty)
    obtain ⟨count, stops⟩ := crashes_drain ready (later some)
    cases count with
    | zero => exact nomatch stops
    | succ count =>
        refine crashes_later same ⟨count, ?_⟩
        unfold allocs at stops
        dsimp only [bind, Program.get] at stops
        rw [alloc_current _ ready.current none] at stops
        exact stops

/-! ## The free objects within reach -/

/-- The free objects of the pages on the lists. -/
def listTotal (free : Nat -> List Nat) (slub : Slub) : Nat :=
  ((slub.cpuPartial ++ slub.nodePartial).map fun page => (free page).length).sum

theorem Exhausted.empty (exhausted : Exhausted slub) (sound : Sound cache free slub)
    (current : slub.cpuPage = some page) :
    free page = [] :=
  (sound.linked page (Ready.member ⟨sound, current⟩)).eq_nil_iff.mpr (exhausted page current)

/-- A full page that goes on the list of the node has no free object. -/
theorem retired_total (exhausted : Exhausted slub) (sound : Sound cache free slub) (rest : List Nat)
    (current : Option Nat) : listTotal free { retired slub with cpuPage := current, cpuPartial := rest } =
      ((rest ++ slub.nodePartial).map fun page => (free page).length).sum := by
  have none : ((slub.cpuPage.toList.filter fun page => Full slub page).map fun page => (free page).length).sum = 0 := by
    rw [List.sum_eq_zero]
    intro length member
    obtain ⟨page, found, same⟩ := List.mem_map.mp member
    have selected := Option.mem_toList.mp (List.mem_of_mem_filter found)
    rw [← same, exhausted.empty sound selected]
    rfl
  unfold listTotal
  dsimp only
  rw [(retired_lists slub).2.1]
  simp only [List.map_append, List.sum_append, none, Nat.zero_add]

theorem listed_total (exhausted : Exhausted slub) (sound : Sound cache free slub) {rest : List Nat}
    (first : (refilled cache slub).cpuPartial = page :: rest) :
    (free page).length +
      listTotal free { retired (refilled cache slub) with cpuPage := some page, cpuPartial := rest } =
      listTotal free slub := by
  have same : ((refilled cache slub).cpuPartial ++ (refilled cache slub).nodePartial).Perm
      (slub.cpuPartial ++ slub.nodePartial) := List.perm_iff_count.mpr (refilled_lists cache slub).2.1
  have total := (same.map fun page => (free page).length).sum_eq
  rw [first] at total
  rw [retired_total (refilled_exhausted cache exhausted) sound.refilled]
  exact total

/-- The lists do not change while the current page is used up. -/
theorem Drained.total (drained : Drained cache free before page next after) (ready : Ready cache free before page) :
    listTotal next after = listTotal free before := by
  have held := ready.sound.held
  rw [holding, ready.current] at held
  have absent := (List.nodup_cons.mp held).1
  unfold listTotal
  rw [drained.processor, drained.node]
  congr 1
  refine List.map_congr_left fun other member => ?_
  rw [drained.others other (ne_of_mem_of_not_mem member absent)]

/-! ## The end of every supply -/

/-- The lists have pages, but no page has an object. -/
theorem crashes_of_total_zero (exhausted : Exhausted slub) (sound : Sound cache free slub)
    (listed : slub.cpuPartial ++ slub.nodePartial ≠ []) (none : listTotal free slub = 0) : Crashes cache host slub := by
  obtain ⟨page, rest, first, same⟩ := alloc_listed (some (host slub)) exhausted listed
  have total := listed_total exhausted sound first
  refine crashes_prepared same (sound.listed_ready first) fun some => absurd (List.length_eq_zero_iff.mp ?_) some
  omega

/-- With nothing on the lists, a new slab is used up, and it is full then.  The
former current page is on the list of the node if it was full. -/
theorem crashes_of_unlisted (supplies : Supplies cache host) (exhausted : Exhausted slub)
    (sound : Sound cache free slub)
    (unlisted : slub.cpuPartial ++ slub.nodePartial = [])
    (later : forall page next after, Exhausted after -> Sound cache next after -> after.cpuPage = some page ->
      Full after page -> listTotal next after = 0 ->
      ((Exists fun former => slub.cpuPage = some former /\ Full slub former) ->
        after.cpuPartial ++ after.nodePartial ≠ []) -> Crashes cache host after) : Crashes cache host slub := by
  obtain ⟨page, start, given⟩ : Exists fun page => Exists fun start => host slub = (page, start) := ⟨_, _, rfl⟩
  have allowed : Allows cache slub (.alloc (some (host slub))) := supplies slub
  rw [given] at allowed
  obtain ⟨all, long, _, made, ready⟩ := sound.fresh_ready allowed.1 allowed.2.1 allowed.2.2
  have former : forall current, slub.cpuPage = some current ->
      (newSlab cache page start slub).page current = slub.page current := by
    intro current same
    have member : current ∈ slub.slabs := Ready.member ⟨sound, same⟩
    exact newSlab_page_other start (ne_of_mem_of_not_mem member allowed.1)
  have empty : Exhausted (newSlab cache page start slub) := by
    intro current same
    rw [former current same]
    exact exhausted current same
  have same := alloc_unlisted cache page start exhausted unlisted
  rw [← given] at same
  refine crashes_prepared same ready fun _ next after drained =>
    later page next after drained.exhausted drained.ready.sound drained.ready.current ?_ ?_ ?_
  · have kept := (retired_relisted (newSlab cache page start slub)).page
    have filled := drained.filled
    have objects := drained.objects
    dsimp only at filled objects
    rw [kept, newSlab_page_self] at filled objects
    rw [Function.update_self, long] at filled
    rw [Full, filled, objects]
    exact Int.zero_add _
  · rw [drained.total ready, retired_cpuPartial, retired_total empty made]
    change ((slub.cpuPartial ++ slub.nodePartial).map _).sum = 0
    rw [unlisted]
    rfl
  · rintro ⟨current, selected, full⟩ none
    have moved : Full (newSlab cache page start slub) current := by
      rw [Full, former current selected]
      exact full
    have node := drained.node
    have shape := congrArg Slub.nodePartial
      (retired_full (show (newSlab cache page start slub).cpuPage = some current from selected) moved)
    rw [(List.append_eq_nil_iff.mp none).2] at node
    exact nomatch node.trans shape

theorem crashes_of_full (supplies : Supplies cache host) (exhausted : Exhausted slub) (sound : Sound cache free slub)
    (current : slub.cpuPage = some page) (full : Full slub page) (none : listTotal free slub = 0) :
    Crashes cache host slub := by
  by_cases unlisted : slub.cpuPartial ++ slub.nodePartial = []
  · refine crashes_of_unlisted supplies exhausted sound unlisted fun _ next after exhausted sound _ _ none listed => ?_
    exact crashes_of_total_zero exhausted sound (listed ⟨page, current, full⟩) none
  · exact crashes_of_total_zero exhausted sound unlisted none

/-- The induction is on the number of the free objects on the lists. -/
theorem crashes_of_exhausted (supplies : Supplies cache host) (exhausted : Exhausted slub)
    (sound : Sound cache free slub) : Crashes cache host slub := by
  generalize total : listTotal free slub = number
  induction number using Nat.strong_induction_on generalizing slub free with
  | _ number inductionHypothesis =>
      by_cases unlisted : slub.cpuPartial ++ slub.nodePartial = []
      · exact crashes_of_unlisted supplies exhausted sound unlisted
          fun page next after exhausted sound current full none _ =>
            crashes_of_full supplies exhausted sound current full none
      · obtain ⟨page, rest, first, same⟩ := alloc_listed (some (host slub)) exhausted unlisted
        have sum := listed_total exhausted sound first
        refine crashes_prepared same (sound.listed_ready first) fun some next after drained => ?_
        have positive := List.length_pos_iff.mpr some
        have left := drained.total (sound.listed_ready first)
        exact inductionHypothesis (listTotal next after) (by omega) drained.exhausted drained.ready.sound rfl

theorem Sound.crashes (sound : Sound cache free slub) (supplies : Supplies cache host) : Crashes cache host slub := by
  cases current : slub.cpuPage with
  | none => exact crashes_of_exhausted supplies (fun page some => nomatch current.symm.trans some) sound
  | some page =>
      exact crashes_drain ⟨sound, current⟩ fun next after drained =>
        crashes_of_exhausted supplies drained.exhausted drained.ready.sound

/-- In every state that is reached, further allocations end in a load from
`NULL` although the host has a slab whenever one is asked for. -/
theorem allocations_take_from_empty_slab (supplies : Supplies cache host)
    (ran : (machine cache).run (empty memory pages) events = some slub) :
    Exists fun count => allocs cache host count slub = .stop .nullLoad := by
  obtain ⟨free, sound⟩ := run_sound ran
  exact sound.crashes supplies

/-- A host whose slabs are all above the ones in use. -/
def nextSlab (cache : Cache) (slub : Slub) : Nat × Nat :=
  (slub.slabs.foldr max 0 + 1, (slub.slabs.map fun page => (slub.page page).sMem + cache.span).foldr max 1)

theorem le_foldr_max {number least : Nat} {numbers : List Nat} (member : number ∈ numbers) :
    number <= numbers.foldr max least := by
  induction numbers with
  | nil => exact nomatch member
  | cons first rest inductionHypothesis =>
      rcases List.mem_cons.mp member with rfl | later
      · exact Nat.le_max_left _ _
      · exact Nat.le_trans (inductionHypothesis later) (Nat.le_max_right _ _)

theorem least_le_foldr_max (least : Nat) (numbers : List Nat) : least <= numbers.foldr max least := by
  induction numbers with
  | nil => exact Nat.le_refl _
  | cons first rest inductionHypothesis => exact Nat.le_trans inductionHypothesis (Nat.le_max_right _ _)

theorem nextSlab_supplies (cache : Cache) : Supplies cache (nextSlab cache) := by
  intro slub
  refine ⟨fun member => ?_, least_le_foldr_max 1 _, fun other member => .inr ?_⟩
  · have bound : slub.slabs.foldr max 0 + 1 <= slub.slabs.foldr max 0 := le_foldr_max member
    omega
  · exact le_foldr_max (List.mem_map_of_mem member)

theorem allocations_take_from_empty_slab_created :
    Exists fun count => allocs testObjects (nextSlab testObjects) count created = .stop .nullLoad :=
  allocations_take_from_empty_slab (nextSlab_supplies testObjects)
    (show (machine testObjects).run created [] = some created from rfl)

/-- With 63 objects to a slab, the 127th allocation takes from an empty slab. -/
theorem second_slab_exhausted :
    (allocs testObjects (nextSlab testObjects) 126 created).state.isSome /\
      allocs testObjects (nextSlab testObjects) 127 created = .stop .nullLoad := by
  have stopped : (match allocs testObjects (nextSlab testObjects) 127 created with
    | .stop fault => decide (fault = .nullLoad)
    | _ => false) = true := by decide +kernel
  refine ⟨by decide +kernel, ?_⟩
  revert stopped
  cases allocs testObjects (nextSlab testObjects) 127 created with
  | done value state => exact fun wrong => nomatch wrong
  | fail error state => exact fun wrong => nomatch wrong
  | stop fault => exact fun same => congrArg Outcome.stop (of_decide_eq_true same)

end Slub

end Memory
end Ucore
