import Mathlib.Algebra.Order.Ring.Int
import Mathlib.Data.List.Count
import Mathlib.Data.List.Nodup
import Mathlib.Data.List.Pairwise
import Ucore.Memory.Slub

namespace Ucore
namespace Memory

open Library
open Program

/-!
# The slabs of a cache

The objects of the slabs that the host has given are held by a caller, on the
list of their slab, or left on the list of the processor.  A slab counts at
least as many objects in use as are held, so that a slab that goes back to the
host has none.
-/

namespace Slub

variable {cache : Cache} {slub before after : Slub} {free : Nat -> List Nat} {page other object start : Nat}
  {host : Option (Nat × Nat)}

/-! ## Objects -/

/-- The places of the objects of a slab. -/
def IsObject (cache : Cache) (start object : Nat) : Prop :=
  Exists fun i => i < cache.objects /\ object = start + i * cache.size

/-- Two objects do not overlap. -/
def Clear (cache : Cache) (object other : Nat) : Prop := object + cache.size <= other \/ other + cache.size <= object

theorem IsObject.lower (placed : IsObject cache start object) : start <= object := by
  obtain ⟨i, _, rfl⟩ := placed
  exact Nat.le_add_right _ _

theorem IsObject.upper (placed : IsObject cache start object) : object + cache.size <= start + cache.span := by
  obtain ⟨i, bound, rfl⟩ := placed
  have last : (i + 1) * cache.size <= cache.objects * cache.size := Nat.mul_le_mul_right _ bound
  have whole : cache.objects * cache.size <= cache.span := cache.fits
  rw [Nat.add_mul, Nat.one_mul] at last
  omega

/-- An object is inside its slab. -/
theorem IsObject.inside (placed : IsObject cache start object) : start <= object /\ object < start + cache.span := by
  have upper := placed.upper
  have word := cache.word
  exact ⟨placed.lower, by omega⟩

theorem IsObject.clear {object other : Nat} (placed : IsObject cache start object) (too : IsObject cache start other)
    (different : object ≠ other) : Clear cache object other := by
  obtain ⟨i, _, rfl⟩ := placed
  obtain ⟨j, _, rfl⟩ := too
  have apart : i ≠ j := fun same => different (by rw [same])
  rcases Nat.lt_or_gt_of_ne apart with less | more
  · have step : (i + 1) * cache.size <= j * cache.size := Nat.mul_le_mul_right _ less
    rw [Nat.add_mul, Nat.one_mul] at step
    exact .inl (by omega)
  · have step : (j + 1) * cache.size <= i * cache.size := Nat.mul_le_mul_right _ more
    rw [Nat.add_mul, Nat.one_mul] at step
    exact .inr (by omega)

theorem IsObject.clear_of_disjoint {first second object other : Nat} (placed : IsObject cache first object)
    (too : IsObject cache second other) (apart : Disjoint cache first second) : Clear cache object other := by
  have upper := placed.upper
  have lower := placed.lower
  have above := too.upper
  have below := too.lower
  rcases apart with left | right
  · exact .inl (by omega)
  · exact .inr (by omega)

theorem Disjoint.symm {first second : Nat} (apart : Disjoint cache first second) : Disjoint cache second first :=
  apart.elim .inr .inl

/-- Something inside one of two slabs is not inside the other. -/
theorem Disjoint.outside {first second : Nat} (apart : Disjoint cache first second) (low : first <= object)
    (high : object < first + cache.span) : ¬ (second <= object /\ object < second + cache.span) := by
  rintro ⟨below, above⟩
  rcases apart with left | right <;> omega

/-- The objects that are held in a slab. -/
def liveIn (cache : Cache) (slub : Slub) (page : Nat) : Nat :=
  slub.live.countP fun object =>
    decide ((slub.page page).sMem <= object /\ object < (slub.page page).sMem + cache.span)

/-! ## The lists of a new slab -/

theorem initLoop_linked (some : 0 < start) (fuel : Nat) : forall {i freelist : Nat} {memory : Nat -> Nat}
    {members : List Nat}, Linked memory freelist members ->
    (forall object, object ∈ members -> Exists fun j => j < i /\ object = start + j * cache.size) ->
    Exists fun all =>
      Linked (initLoop cache start fuel i memory freelist).1 (initLoop cache start fuel i memory freelist).2 all /\
        all.length = members.length + fuel /\
        forall object, object ∈ all -> Exists fun j => j < i + fuel /\ object = start + j * cache.size := by
  induction fuel with
  | zero => exact fun linked placed => ⟨_, linked, rfl, placed⟩
  | succ fuel inductionHypothesis =>
      intro i freelist memory members linked placed
      have fresh : start + i * cache.size ∉ members := by
        intro member
        obtain ⟨j, less, same⟩ := placed _ member
        have step : (j + 1) * cache.size <= i * cache.size := Nat.mul_le_mul_right _ less
        have word := cache.word
        rw [Nat.add_mul, Nat.one_mul] at step
        omega
      have pushed := linked.push fresh (by omega)
      obtain ⟨all, whole, long, within⟩ := inductionHypothesis (i := i + 1) pushed fun object member => by
        rcases List.mem_cons.mp member with rfl | older
        · exact ⟨i, Nat.lt_succ_self i, rfl⟩
        · obtain ⟨j, less, same⟩ := placed object older
          exact ⟨j, Nat.lt_succ_of_lt less, same⟩
      refine ⟨all, whole, ?_, fun object member => ?_⟩
      · rw [long, List.length_cons]
        omega
      · obtain ⟨j, less, same⟩ := within object member
        exact ⟨j, by omega, same⟩

/-- `init_slab_page` writes to the objects of the slab only. -/
theorem initLoop_frame (fuel : Nat) {address : Nat} : forall {i freelist : Nat} {memory : Nat -> Nat},
    (forall j, j < i + fuel -> address ≠ start + j * cache.size) ->
    (initLoop cache start fuel i memory freelist).1 address = memory address := by
  induction fuel with
  | zero => exact fun _ => rfl
  | succ fuel inductionHypothesis =>
      intro i freelist memory outside
      have later : (initLoop cache start fuel (i + 1) (Function.update memory (start + i * cache.size) freelist)
          (start + i * cache.size)).1 address = Function.update memory (start + i * cache.size) freelist address :=
        inductionHypothesis fun j less => outside j (by omega)
      exact later.trans (Function.update_of_ne (outside i (by omega)) _ _)

/-! ## The invariant -/

/-- The pages that the cache can reach. -/
def holding (slub : Slub) : List Nat := slub.cpuPage.toList ++ (slub.cpuPartial ++ slub.nodePartial)

/-- The slabs of a cache, where `free` tells the objects on their lists. -/
structure Sound (cache : Cache) (free : Nat -> List Nat) (slub : Slub) : Prop where
  pages : slub.slabs.Nodup
  held : (holding slub).Nodup
  given : forall page, page ∈ holding slub -> page ∈ slub.slabs
  start : forall page, page ∈ slub.slabs -> 0 < (slub.page page).sMem
  apart : forall page other, page ∈ slub.slabs -> other ∈ slub.slabs -> page ≠ other ->
    Disjoint cache (slub.page page).sMem (slub.page other).sMem
  linked : forall page, page ∈ slub.slabs -> Linked slub.memory (slub.page page).freelist (free page)
  listed : forall page object, page ∈ slub.slabs -> object ∈ free page ->
    IsObject cache (slub.page page).sMem object /\ object ∉ slub.live
  lives : forall object, object ∈ slub.live ->
    Exists fun page => page ∈ slub.slabs /\ IsObject cache (slub.page page).sMem object
  once : slub.live.Nodup
  objects : forall page, page ∈ slub.slabs -> (slub.page page).objects = cache.objects
  inuse : forall page, page ∈ slub.slabs -> (liveIn cache slub page : Int) <= (slub.page page).inuse
  room : forall page, page ∈ slub.slabs -> (slub.page page).inuse + (free page).length <= cache.objects

/-- The first state has no slab. -/
theorem empty_sound (memory : Nat -> Nat) (page : Nat -> Slab) : Sound cache free (empty memory page) where
  pages := List.nodup_nil
  held := List.nodup_nil
  given _ member := nomatch member
  start _ member := nomatch member
  apart _ _ member := nomatch member
  linked _ member := nomatch member
  listed _ _ member := nomatch member
  lives _ member := nomatch member
  once := List.nodup_nil
  objects _ member := nomatch member
  inuse _ member := nomatch member
  room _ member := nomatch member

namespace Sound

/-- Objects of the slabs that are not the same do not overlap. -/
theorem clear (sound : Sound cache free slub) {object second : Nat} (member : page ∈ slub.slabs)
    (placed : IsObject cache (slub.page page).sMem object) (found : other ∈ slub.slabs)
    (too : IsObject cache (slub.page other).sMem second) (different : object ≠ second) : Clear cache object second := by
  by_cases same : page = other
  · subst same
    exact placed.clear too different
  · exact placed.clear_of_disjoint too (sound.apart page other member found same)

/-- An object is inside no other slab. -/
theorem outside (sound : Sound cache free slub) (member : page ∈ slub.slabs) (found : other ∈ slub.slabs)
    (different : page ≠ other) (placed : IsObject cache (slub.page page).sMem object) :
    ¬ ((slub.page other).sMem <= object /\ object < (slub.page other).sMem + cache.span) :=
  (sound.apart page other member found different).outside placed.inside.1 placed.inside.2

/-- An object on the list of a slab is on no list of another slab. -/
theorem listed_once (sound : Sound cache free slub) (member : page ∈ slub.slabs) (found : other ∈ slub.slabs)
    (different : page ≠ other) (present : object ∈ free page) : object ∉ free other := fun too =>
  sound.outside member found different (sound.listed page object member present).1
    (sound.listed other object found too).1.inside

end Sound

/-! ## Pages that change lists -/

/-- Pages change lists, and a page may be dropped from them. -/
structure Relisted (before after : Slub) : Prop where
  memory : after.memory = before.memory
  page : after.page = before.page
  cpuFreelist : after.cpuFreelist = before.cpuFreelist
  slabs : after.slabs = before.slabs
  regions : after.regions = before.regions
  live : after.live = before.live
  freed : after.freed = before.freed

namespace Relisted

theorem refl (slub : Slub) : Relisted slub slub := ⟨rfl, rfl, rfl, rfl, rfl, rfl, rfl⟩

theorem trans {middle : Slub} (first : Relisted before middle) (second : Relisted middle after) :
    Relisted before after :=
  ⟨second.memory.trans first.memory, second.page.trans first.page, second.cpuFreelist.trans first.cpuFreelist,
    second.slabs.trans first.slabs, second.regions.trans first.regions, second.live.trans first.live,
    second.freed.trans first.freed⟩

theorem sound (relisted : Relisted before after) (sound : Sound cache free before) (held : (holding after).Nodup)
    (given : forall page, page ∈ holding after -> page ∈ before.slabs) : Sound cache free after := by
  have livesIn : forall page, liveIn cache after page = liveIn cache before page := fun page => by
    rw [liveIn, liveIn, relisted.live, relisted.page]
  constructor
  case held => exact held
  all_goals simp only [livesIn, relisted.memory, relisted.page, relisted.slabs, relisted.live]
  case given => exact given
  case pages => exact sound.pages
  case start => exact sound.start
  case apart => exact sound.apart
  case linked => exact sound.linked
  case listed => exact sound.listed
  case lives => exact sound.lives
  case once => exact sound.once
  case objects => exact sound.objects
  case inuse => exact sound.inuse
  case room => exact sound.room

end Relisted

theorem retired_relisted (slub : Slub) : Relisted slub (retired slub) := by
  unfold retired
  split
  · exact .refl _
  · split
    · exact ⟨rfl, rfl, rfl, rfl, rfl, rfl, rfl⟩
    · exact .refl _

theorem refill_relisted (target : Int) (pages : List Nat) : forall (current : Int) (slub : Slub),
    Relisted slub (refill target pages current slub) := by
  induction pages with
  | nil => exact fun _ slub => .refl slub
  | cons page rest inductionHypothesis =>
      intro current slub
      rw [refill]
      split
      · have later := inductionHypothesis (current + ((slub.page page).objects - (slub.page page).inuse))
          { slub with nodePartial := rest, nrPartial := slub.nrPartial - 1, cpuPartial := page :: slub.cpuPartial }
        exact ⟨later.memory, later.page, later.cpuFreelist, later.slabs, later.regions, later.live, later.freed⟩
      · exact .refl slub

/-- A page whose objects are all in use. -/
def Full (slub : Slub) (page : Nat) : Prop := (slub.page page).inuse = (slub.page page).objects

instance (slub : Slub) (page : Nat) : Decidable (Full slub page) := inferInstanceAs (Decidable (_ = _))

theorem retired_full (current : slub.cpuPage = some page) (full : Full slub page) :
    retired slub = slub.addPartial page := by
  unfold retired
  rw [current]
  exact if_pos full

theorem retired_unchanged (unfilled : forall page, slub.cpuPage = some page -> ¬ Full slub page) :
    retired slub = slub := by
  unfold retired
  cases current : slub.cpuPage with
  | none => rfl
  | some page => exact if_neg (unfilled page current)

/-- The lists after a full current page has gone to the node. -/
theorem retired_lists (slub : Slub) :
    (retired slub).cpuPartial = slub.cpuPartial /\
      (retired slub).nodePartial = slub.cpuPage.toList.filter (fun page => Full slub page) ++ slub.nodePartial /\
      (retired slub).nrPartial =
        slub.nrPartial + (slub.cpuPage.toList.filter (fun page => Full slub page)).length := by
  cases current : slub.cpuPage with
  | none =>
      rw [retired_unchanged fun page some => nomatch current.symm.trans some]
      exact ⟨rfl, rfl, (Int.add_zero _).symm⟩
  | some page =>
      rw [Option.toList_some]
      by_cases full : Full slub page
      · have kept : [page].filter (fun page => Full slub page) = [page] := by simp [full]
        rw [retired_full current full, kept]
        exact ⟨rfl, rfl, rfl⟩
      · have dropped : [page].filter (fun page => Full slub page) = [] := by simp [full]
        rw [dropped, retired_unchanged fun other same => by
          cases current.symm.trans same
          exact full]
        exact ⟨rfl, rfl, (Int.add_zero _).symm⟩

theorem retired_cpuPartial (slub : Slub) (current : Option Nat) : { retired slub with cpuPage := current } =
    { retired slub with cpuPage := current, cpuPartial := slub.cpuPartial } := by
  have kept := (retired_lists slub).1
  generalize retired slub = after at kept
  rw [← kept]

/-- The pages that are taken from the node, at least one where there is one. -/
theorem refill_lists (target : Int) (pages : List Nat) : forall (current : Int) (slub : Slub),
    slub.nodePartial = pages -> Exists fun moved => Exists fun rest =>
      pages = moved ++ rest /\ (refill target pages current slub).cpuPage = slub.cpuPage /\
        (refill target pages current slub).cpuPartial = moved.reverse ++ slub.cpuPartial /\
        (refill target pages current slub).nodePartial = rest /\
        (refill target pages current slub).nrPartial = slub.nrPartial - moved.length /\
        (pages ≠ [] -> current < target -> moved ≠ []) := by
  induction pages with
  | nil => exact fun current slub none =>
      ⟨[], [], rfl, rfl, rfl, none, (Int.sub_zero _).symm, fun wrong => absurd rfl wrong⟩
  | cons page rest inductionHypothesis =>
      intro current slub some
      by_cases less : current < target
      · obtain ⟨moved, left, split, same, processor, node, number, _⟩ :=
          inductionHypothesis (current + ((slub.page page).objects - (slub.page page).inuse))
            { slub with nodePartial := rest, nrPartial := slub.nrPartial - 1, cpuPartial := page :: slub.cpuPartial }
              rfl
        rw [refill, if_pos less]
        refine ⟨page :: moved, left, by rw [split]; rfl, same, ?_, node, ?_, fun _ _ => List.cons_ne_nil _ _⟩
        · rw [processor, List.reverse_cons, List.append_assoc]
          rfl
        · rw [number, List.length_cons]
          push_cast
          omega
      · rw [refill, if_neg less]
        exact ⟨[], page :: rest, rfl, rfl, rfl, some, (Int.sub_zero _).symm, fun _ wrong => absurd wrong less⟩

/-- A page of a slab that is on no list becomes the current one. -/
theorem Sound.select (sound : Sound cache free slub) {rest : List Nat}
    (single : (page :: (slub.cpuPage.toList ++ (rest ++ slub.nodePartial))).Nodup)
    (given : forall other, other ∈ page :: (rest ++ slub.nodePartial) -> other ∈ slub.slabs) :
    Sound cache free { retired slub with cpuPage := some page, cpuPartial := rest } := by
  obtain ⟨_, node, _⟩ := retired_lists slub
  have shape : holding { retired slub with cpuPage := some page, cpuPartial := rest } =
      page :: (rest ++ (slub.cpuPage.toList.filter (fun page => Full slub page) ++ slub.nodePartial)) := by
    rw [holding, node]
    rfl
  have same := retired_relisted slub
  have relisted : Relisted slub { retired slub with cpuPage := some page, cpuPartial := rest } :=
    ⟨same.memory, same.page, same.cpuFreelist, same.slabs, same.regions, same.live, same.freed⟩
  refine relisted.sound sound ?_ fun other member => ?_
  · rw [shape]
    rw [List.nodup_iff_count_le_one] at single ⊢
    intro other
    have before := single other
    have fewer :=
      (List.filter_sublist (p := fun page => decide (Full slub page)) (l := slub.cpuPage.toList)).count_le other
    simp only [List.count_cons, List.count_append] at before ⊢
    omega
  · rw [shape] at member
    by_cases current : other ∈ slub.cpuPage.toList
    · exact sound.given other (List.mem_append_left _ current)
    · refine given other ?_
      have left : other ∉ slub.cpuPage.toList.filter (fun page => Full slub page) :=
        fun wrong => current (List.mem_of_mem_filter wrong)
      simp only [List.mem_cons, List.mem_append] at member ⊢
      tauto

/-! ## The page that an allocation takes from -/

/-- The current page has no list. -/
def Exhausted (slub : Slub) : Prop := forall page, slub.cpuPage = some page -> (slub.page page).freelist = 0

/-- The pages of the processor, which the node fills where there are none. -/
def refilled (cache : Cache) (slub : Slub) : Slub :=
  match slub.cpuPartial with
  | _ :: _ => slub
  | [] => refill (cache.cpuPartial / 2 : Nat) slub.nodePartial 0 slub

/-- The page that an allocation takes from, and the state then. -/
inductive Prepares (cache : Cache) (host : Option (Nat × Nat)) (slub : Slub) : Nat -> Slub -> Prop
  | current {page : Nat} (current : slub.cpuPage = some page) (some : (slub.page page).freelist ≠ 0) :
      Prepares cache host slub page slub
  | listed {page : Nat} {rest : List Nat} (exhausted : Exhausted slub)
      (first : (refilled cache slub).cpuPartial = page :: rest) :
      Prepares cache host slub page { retired (refilled cache slub) with cpuPage := some page, cpuPartial := rest }
  | fresh {page start : Nat} (exhausted : Exhausted slub) (processor : slub.cpuPartial = [])
      (node : slub.nodePartial = []) (given : host = some (page, start)) :
      Prepares cache host slub page { retired (newSlab cache page start slub) with cpuPage := some page }

theorem refilled_relisted (cache : Cache) (slub : Slub) : Relisted slub (refilled cache slub) := by
  unfold refilled
  split
  · exact .refl slub
  · exact refill_relisted _ _ _ _

/-- The pages of the processor and the node are the same ones, and the
processor has one where there is one. -/
theorem refilled_lists (cache : Cache) (slub : Slub) :
    (refilled cache slub).cpuPage = slub.cpuPage /\
      (forall page, ((refilled cache slub).cpuPartial ++ (refilled cache slub).nodePartial).count page =
        (slub.cpuPartial ++ slub.nodePartial).count page) /\
      (refilled cache slub).nrPartial - (refilled cache slub).nodePartial.length =
        slub.nrPartial - slub.nodePartial.length /\
      ((refilled cache slub).cpuPartial = [] -> slub.cpuPartial = [] /\ slub.nodePartial = []) := by
  unfold refilled
  cases processor : slub.cpuPartial with
  | cons page rest =>
      exact ⟨rfl, fun _ => by rw [processor], rfl, fun wrong => absurd (processor.symm.trans wrong) (by simp)⟩
  | nil =>
      obtain ⟨moved, rest, split, current, pages, node, number, some⟩ :=
        refill_lists (cache.cpuPartial / 2 : Nat) slub.nodePartial 0 slub rfl
      rw [processor, List.append_nil] at pages
      refine ⟨current, fun page => ?_, ?_, fun none => ⟨rfl, ?_⟩⟩
      · rw [pages, node, split]
        simp only [List.nil_append, List.count_append, List.count_reverse]
      · rw [node, number, split, List.length_append]
        push_cast
        omega
      · by_contra left
        have batch := cache.batch
        refine some left (by omega) (List.reverse_eq_nil_iff.mp ?_)
        rw [← pages, none]

theorem refilled_exhausted (cache : Cache) (exhausted : Exhausted slub) : Exhausted (refilled cache slub) := by
  intro page same
  rw [(refilled_relisted cache slub).page]
  exact exhausted page ((refilled_lists cache slub).1.symm.trans same)

theorem filter_eq_none (exhausted : Exhausted slub) :
    slub.cpuPage.filter (fun page => (slub.page page).freelist ≠ 0) = none := by
  rw [Option.filter_eq_none_iff]
  intro page current wrong
  exact of_decide_eq_true wrong (exhausted page current)

/-- An allocation from the first page of the processor. -/
theorem alloc_of_partial {rest : List Nat} (host : Option (Nat × Nat)) (fuel : Nat) (exhausted : Exhausted slub)
    (first : slub.cpuPartial = page :: rest) :
    kmemCacheAlloc cache host (fuel + 1) slub = (some <$> takeObject page : Routine (Option Nat))
      { retired slub with cpuPage := some page, cpuPartial := rest } := by
  unfold kmemCacheAlloc
  dsimp only [bind, Program.get]
  rw [filter_eq_none exhausted, first]
  rfl

/-- Where an allocation takes an object from, if it gets so far. -/
theorem alloc_prepares (cache : Cache) (host : Option (Nat × Nat)) (slub : Slub) :
    (Exists fun page => Exists fun prepared => Prepares cache host slub page prepared /\
      kmemCacheAlloc cache host 2 slub = (some <$> takeObject page : Routine (Option Nat)) prepared) \/
    (Exhausted slub /\ slub.cpuPartial = [] /\ slub.nodePartial = [] /\ host = none /\
      kmemCacheAlloc cache host 2 slub = .done none slub) := by
  by_cases exhausted : Exhausted slub
  · cases processor : slub.cpuPartial with
    | cons page rest =>
        have same : refilled cache slub = slub := by
          unfold refilled
          rw [processor]
        refine .inl ⟨page, _, .listed exhausted (by rw [same]; exact processor), ?_⟩
        rw [same]
        exact alloc_of_partial host 1 exhausted processor
    | nil =>
        cases node : slub.nodePartial with
        | cons first others =>
            have filled : refilled cache slub = refill (cache.cpuPartial / 2 : Nat) slub.nodePartial 0 slub := by
              unfold refilled
              rw [processor]
            have start : kmemCacheAlloc cache host 2 slub = kmemCacheAlloc cache host 1 (refilled cache slub) := by
              conv_lhs => unfold kmemCacheAlloc
              dsimp only [bind, Program.get]
              rw [filter_eq_none exhausted, processor, node]
              dsimp only [Program.modify]
              rw [filled]
            obtain ⟨_, _, _, some⟩ := refilled_lists cache slub
            cases pages : (refilled cache slub).cpuPartial with
            | nil => exact nomatch node.symm.trans (some pages).2
            | cons page rest =>
                refine .inl ⟨page, _, .listed exhausted pages, ?_⟩
                rw [start]
                exact alloc_of_partial host 0 (refilled_exhausted cache exhausted) pages
        | nil =>
            cases host with
            | none =>
                refine .inr ⟨exhausted, rfl, rfl, rfl, ?_⟩
                unfold kmemCacheAlloc
                dsimp only [bind, Program.get]
                rw [filter_eq_none exhausted, processor, node]
                rfl
            | some given =>
                refine .inl ⟨given.1, _, .fresh exhausted processor node rfl, ?_⟩
                unfold kmemCacheAlloc
                dsimp only [bind, Program.get]
                rw [filter_eq_none exhausted, processor, node]
                rfl
  · unfold Exhausted at exhausted
    push Not at exhausted
    obtain ⟨page, current, some⟩ := exhausted
    refine .inl ⟨page, slub, .current current some, ?_⟩
    have found : slub.cpuPage.filter (fun page => (slub.page page).freelist ≠ 0) = Option.some page := by
      rw [current, Option.filter_some, if_pos (decide_eq_true some)]
    unfold kmemCacheAlloc
    dsimp only [bind, Program.get]
    rw [found]

/-! ## What an allocation keeps -/

theorem Sound.refilled (sound : Sound cache free slub) : Sound cache free (refilled cache slub) := by
  obtain ⟨current, counts, _, _⟩ := refilled_lists cache slub
  have same : forall page, (holding (Slub.refilled cache slub)).count page = (holding slub).count page := by
    intro page
    rw [holding, holding, current, List.count_append, counts, ← List.count_append]
  refine (refilled_relisted cache slub).sound sound ?_ fun page member => sound.given page ?_
  · rw [List.nodup_iff_count_le_one]
    intro page
    rw [same]
    exact List.nodup_iff_count_le_one.mp sound.held page
  · rw [← List.count_pos_iff, ← same]
    exact List.count_pos_iff.mpr member

theorem newSlab_page_self (cache : Cache) (slub : Slub) (page start : Nat) : (newSlab cache page start slub).page page =
    ⟨(initLoop cache start cache.objects 0 slub.memory 0).2, 0, cache.objects, start⟩ := Function.update_self ..

theorem newSlab_page_other (start : Nat) (different : other ≠ page) :
    (newSlab cache page start slub).page other = slub.page other := Function.update_of_ne different ..

theorem liveIn_newSlab_other (start : Nat) (different : other ≠ page) :
    liveIn cache (newSlab cache page start slub) other = liveIn cache slub other := by
  rw [liveIn, newSlab_page_other start different]
  rfl

/-- No object of a new slab is held. -/
theorem Sound.liveIn_newSlab_self (sound : Sound cache free slub)
    (apart : forall other, other ∈ slub.slabs -> Disjoint cache start (slub.page other).sMem) :
    liveIn cache (newSlab cache page start slub) page = 0 := by
  rw [liveIn, newSlab_page_self, List.countP_eq_zero]
  intro object live wrong
  obtain ⟨other, member, placed⟩ := sound.lives object live
  exact (apart other member).symm.outside placed.inside.1 placed.inside.2 (of_decide_eq_true wrong)

/-- A slab that does not overlap the ones in use. -/
theorem Sound.newSlab (sound : Sound cache free slub) (fresh : page ∉ slub.slabs) (some : 0 < start)
    (apart : forall other, other ∈ slub.slabs -> Disjoint cache start (slub.page other).sMem) :
    Exists fun all => all.length = cache.objects /\ (forall object, object ∈ all -> IsObject cache start object) /\
      Sound cache (Function.update free page all) (newSlab cache page start slub) := by
  have first : Linked slub.memory 0 [] := rfl
  have none : forall object, object ∈ ([] : List Nat) -> Exists fun j => j < 0 /\ object = start + j * cache.size :=
    fun _ member => nomatch member
  obtain ⟨all, linked, long, placed⟩ := initLoop_linked some cache.objects first none
  have inside : forall object, object ∈ all -> IsObject cache start object := fun object member => by
    obtain ⟨j, less, same⟩ := placed object member
    exact ⟨j, by omega, same⟩
  refine ⟨all, by rw [long, List.length_nil, Nat.zero_add], inside, ?_⟩
  have self := newSlab_page_self cache slub page start
  have kept : forall other, other ∈ slub.slabs -> (Slub.newSlab cache page start slub).page other = slub.page other :=
    fun other member => newSlab_page_other start (ne_of_mem_of_not_mem member fresh)
  have former : forall other, other ∈ slub.slabs -> Function.update free page all other = free other :=
    fun other member => Function.update_of_ne (ne_of_mem_of_not_mem member fresh) _ _
  have latest : Function.update free page all page = all := Function.update_self ..
  have unheld : forall object, object ∈ slub.live -> ¬ (start <= object /\ object < start + cache.span) := by
    intro object live
    obtain ⟨other, member, placed⟩ := sound.lives object live
    exact (apart other member).symm.outside placed.inside.1 placed.inside.2
  constructor
  case pages => exact List.nodup_cons.mpr ⟨fresh, sound.pages⟩
  case held => exact sound.held
  case given => exact fun other member => List.mem_cons_of_mem _ (sound.given other member)
  case start =>
    intro other member
    rcases List.mem_cons.mp member with rfl | older
    · rw [self]
      exact some
    · rw [kept other older]
      exact sound.start other older
  case apart =>
    intro first second member found different
    rcases List.mem_cons.mp member with rfl | older <;> rcases List.mem_cons.mp found with rfl | elder
    · exact absurd rfl different
    · rw [self, kept second elder]
      exact apart second elder
    · rw [self, kept first older]
      exact (apart first older).symm
    · rw [kept first older, kept second elder]
      exact sound.apart first second older elder different
  case linked =>
    intro other member
    rcases List.mem_cons.mp member with rfl | older
    · rw [self, latest]
      exact linked
    · rw [kept other older, former other older]
      refine (sound.linked other older).congr fun address present => initLoop_frame _ fun j less same => ?_
      have placed := (sound.listed other address older present).1.inside
      refine (apart other older).symm.outside placed.1 placed.2 (IsObject.inside ⟨j, ?_, same⟩)
      omega
  case listed =>
    intro other object member present
    rcases List.mem_cons.mp member with rfl | older
    · rw [latest] at present
      rw [self]
      exact ⟨inside object present, fun live => unheld object live (inside object present).inside⟩
    · rw [kept other older]
      rw [former other older] at present
      exact sound.listed other object older present
  case lives =>
    intro object live
    obtain ⟨other, member, placed⟩ := sound.lives object live
    exact ⟨other, List.mem_cons_of_mem _ member, by rw [kept other member]; exact placed⟩
  case once => exact sound.once
  case objects =>
    intro other member
    rcases List.mem_cons.mp member with rfl | older
    · rw [self]
    · rw [kept other older]
      exact sound.objects other older
  case inuse =>
    intro other member
    rcases List.mem_cons.mp member with rfl | older
    · rw [sound.liveIn_newSlab_self apart, self]
      exact Int.le_refl _
    · rw [liveIn_newSlab_other start (ne_of_mem_of_not_mem older fresh), kept other older]
      exact sound.inuse other older
  case room =>
    intro other member
    rcases List.mem_cons.mp member with rfl | older
    · rw [self, latest, long]
      simp
    · rw [kept other older, former other older]
      exact sound.room other older

/-- What holds of a page before an object is taken from it. -/
structure Ready (cache : Cache) (free : Nat -> List Nat) (slub : Slub) (page : Nat) : Prop where
  sound : Sound cache free slub
  current : slub.cpuPage = some page

theorem Ready.member (ready : Ready cache free slub page) : page ∈ slub.slabs :=
  ready.sound.given page (List.mem_append_left _ (by rw [ready.current]; exact List.mem_singleton_self page))

theorem Sound.listed_ready (sound : Sound cache free slub) {rest : List Nat}
    (first : (Slub.refilled cache slub).cpuPartial = page :: rest) :
    Ready cache free { retired (Slub.refilled cache slub) with cpuPage := some page, cpuPartial := rest } page where
  sound := by
    have shape : holding (Slub.refilled cache slub) =
        (Slub.refilled cache slub).cpuPage.toList ++ (page :: (rest ++ (Slub.refilled cache slub).nodePartial)) := by
      rw [holding, first]
      rfl
    have held := sound.refilled.held
    have given := sound.refilled.given
    rw [shape] at held given
    exact sound.refilled.select (List.perm_middle.nodup_iff.mp held) fun other member =>
      given other (List.mem_append_right _ member)
  current := rfl

theorem Sound.fresh_ready (sound : Sound cache free slub) (fresh : page ∉ slub.slabs) (some : 0 < start)
    (apart : forall other, other ∈ slub.slabs -> Disjoint cache start (slub.page other).sMem) :
    Exists fun all => all.length = cache.objects /\ (forall object, object ∈ all -> IsObject cache start object) /\
      Sound cache (Function.update free page all) (Slub.newSlab cache page start slub) /\
      Ready cache (Function.update free page all)
        { retired (Slub.newSlab cache page start slub) with cpuPage := Option.some page } page := by
  obtain ⟨all, long, inside, made⟩ := sound.newSlab fresh some apart
  refine ⟨all, long, inside, made, ?_, rfl⟩
  rw [retired_cpuPartial]
  refine made.select (List.nodup_cons.mpr ⟨fun wrong => fresh (sound.given page wrong), sound.held⟩)
    fun other member => ?_
  rcases List.mem_cons.mp member with rfl | older
  · exact List.mem_cons_self ..
  · exact List.mem_cons_of_mem _ (sound.given other (List.mem_append_right _ older))

theorem taken_place (slub : Slub) (page object other : Nat) :
    ((taken page object slub).page other).sMem = (slub.page other).sMem := by
  unfold taken Slub.setPage
  dsimp only
  by_cases same : other = page
  · rw [same, Function.update_self]
  · rw [Function.update_of_ne same]

theorem taken_page_self (slub : Slub) (page object : Nat) : (taken page object slub).page page =
    { slub.page page with
      freelist := slub.memory object
      inuse := (slub.page page).inuse + 1 } := Function.update_self ..

theorem taken_page_other (slub : Slub) (object : Nat) (different : other ≠ page) :
    (taken page object slub).page other = slub.page other := Function.update_of_ne different ..

theorem liveIn_taken_self (placed : IsObject cache (slub.page page).sMem object) :
    liveIn cache (taken page object slub) page = liveIn cache slub page + 1 := by
  rw [liveIn, taken_place]
  exact List.countP_cons_of_pos (decide_eq_true placed.inside)

theorem Sound.liveIn_taken_other (sound : Sound cache free slub) (member : page ∈ slub.slabs)
    (found : other ∈ slub.slabs)
    (different : other ≠ page) (placed : IsObject cache (slub.page page).sMem object) :
    liveIn cache (taken page object slub) other = liveIn cache slub other := by
  rw [liveIn, taken_place]
  exact List.countP_cons_of_neg fun wrong => sound.outside member found different.symm placed (of_decide_eq_true wrong)

/-- The first object of a list goes to the caller. -/
theorem Sound.taken (sound : Sound cache free slub) (member : page ∈ slub.slabs) {rest : List Nat}
    (first : free page = object :: rest) :
    Sound cache (Function.update free page rest) (taken page object slub) := by
  have linked := sound.linked page member
  rw [first] at linked
  have self := taken_page_self slub page object
  have kept : forall other, other ≠ page -> (Slub.taken page object slub).page other = slub.page other :=
    fun other different => taken_page_other slub object different
  have latest : Function.update free page rest page = rest := Function.update_self ..
  have former : forall other, other ≠ page -> Function.update free page rest other = free other :=
    fun other different => Function.update_of_ne different _ _
  have place := taken_place slub page object
  have present : object ∈ free page := by
    rw [first]
    exact List.mem_cons_self ..
  have placed := (sound.listed page object member present).1
  constructor
  case pages => exact sound.pages
  case held => exact sound.held
  case given => exact sound.given
  case start =>
    intro other found
    rw [place]
    exact sound.start other found
  case apart =>
    intro one two found too different
    rw [place, place]
    exact sound.apart one two found too different
  case linked =>
    intro other found
    by_cases same : other = page
    · rw [same, self, latest]
      exact linked.2.2
    · rw [kept other same, former other same]
      exact sound.linked other found
  case listed =>
    intro other second found listed
    rw [place]
    by_cases same : other = page
    · rw [same, latest] at listed
      have older : second ∈ free page := by
        rw [first]
        exact List.mem_cons_of_mem _ listed
      rw [same]
      refine ⟨(sound.listed page second member older).1, fun live => ?_⟩
      rcases List.mem_cons.mp live with again | live
      · rw [again] at listed
        exact (linked.nodup).notMem listed
      · exact (sound.listed page second member older).2 live
    · rw [former other same] at listed
      refine ⟨(sound.listed other second found listed).1, fun live => ?_⟩
      rcases List.mem_cons.mp live with again | live
      · rw [again] at listed
        exact sound.listed_once found member same listed present
      · exact (sound.listed other second found listed).2 live
  case lives =>
    intro second live
    rcases List.mem_cons.mp live with rfl | live
    · exact ⟨page, member, by rw [place]; exact placed⟩
    · obtain ⟨other, found, too⟩ := sound.lives second live
      exact ⟨other, found, by rw [place]; exact too⟩
  case once => exact List.nodup_cons.mpr ⟨(sound.listed page object member present).2, sound.once⟩
  case objects =>
    intro other found
    by_cases same : other = page
    · rw [same, self]
      exact sound.objects page member
    · rw [kept other same]
      exact sound.objects other found
  case inuse =>
    intro other found
    by_cases same : other = page
    · have more := liveIn_taken_self placed
      have before := sound.inuse page member
      rw [same, more, self]
      push_cast
      omega
    · rw [sound.liveIn_taken_other member found same placed, kept other same]
      exact sound.inuse other found
  case room =>
    intro other found
    by_cases same : other = page
    · have before := sound.room page member
      rw [first, List.length_cons] at before
      rw [same, self, latest]
      push_cast at before
      dsimp only
      omega
    · rw [kept other same, former other same]
      exact sound.room other found

/-! ## What a release keeps -/

theorem liveIn_put (slub : Slub) (object page : Nat) : liveIn cache (put object slub) page <= liveIn cache slub page :=
  List.Sublist.countP_le List.erase_sublist

/-- The page of the object has one object less. -/
theorem liveIn_put_self (held : object ∈ slub.live)
    (inside : (slub.page page).sMem <= object /\ object < (slub.page page).sMem + cache.span) :
    liveIn cache (put object slub) page + 1 = liveIn cache slub page := by
  have less := List.countP_erase (fun object =>
    decide ((slub.page page).sMem <= object /\ object < (slub.page page).sMem + cache.span)) slub.live object
  rw [if_pos ⟨held, decide_eq_true inside⟩] at less
  have some : 0 < liveIn cache slub page := List.countP_pos_iff.mpr ⟨object, held, decide_eq_true inside⟩
  have put : liveIn cache (put object slub) page = liveIn cache slub page - 1 := less
  omega

/-- An object that is held goes on the list of the processor. -/
theorem Sound.put (sound : Sound cache free slub) (held : object ∈ slub.live) :
    Sound cache free (put object slub) where
  pages := sound.pages
  held := sound.held
  given := sound.given
  start := sound.start
  apart := sound.apart
  linked page member := (sound.linked page member).congr fun address present =>
    Function.update_of_ne (ne_of_mem_of_not_mem held (sound.listed page address member present).2).symm _ _
  listed page other member present :=
    ⟨(sound.listed page other member present).1, fun live =>
      (sound.listed page other member present).2 (List.mem_of_mem_erase live)⟩
  lives other live := sound.lives other (List.mem_of_mem_erase live)
  once := sound.once.erase object
  objects := sound.objects
  inuse page member :=
    Int.le_trans (Int.ofNat_le.mpr (liveIn_put slub object page)) (sound.inuse page member)
  room := sound.room

def lowered (page : Nat) (slub : Slub) : Slub :=
  slub.setPage page { slub.page page with inuse := (slub.page page).inuse - 1 }

theorem lowered_page (slub : Slub) (page other : Nat) : (lowered page slub).page other =
    { slub.page other with inuse := (slub.page other).inuse - (if other = page then 1 else 0) } := by
  unfold lowered Slub.setPage
  dsimp only
  by_cases same : other = page
  · rw [same, Function.update_self, if_pos rfl]
  · rw [Function.update_of_ne same, if_neg same, Int.sub_zero]

theorem Sound.lowered (sound : Sound cache free slub)
    (less : (liveIn cache slub page : Int) <= (slub.page page).inuse - 1) :
    Sound cache free (lowered page slub) := by
  have lives : forall other, liveIn cache (Slub.lowered page slub) other = liveIn cache slub other := fun other => by
    rw [liveIn, lowered_page]
    rfl
  have place : forall other, ((Slub.lowered page slub).page other).sMem = (slub.page other).sMem := fun other => by
    rw [lowered_page]
  constructor
  case pages => exact sound.pages
  case held => exact sound.held
  case given => exact sound.given
  case start =>
    intro other member
    rw [place]
    exact sound.start other member
  case apart =>
    intro one two member found different
    rw [place, place]
    exact sound.apart one two member found different
  case linked =>
    intro other member
    rw [lowered_page]
    exact sound.linked other member
  case listed =>
    intro other object member present
    rw [place]
    exact sound.listed other object member present
  case lives =>
    intro object live
    obtain ⟨other, member, placed⟩ := sound.lives object live
    exact ⟨other, member, by rw [place]; exact placed⟩
  case once => exact sound.once
  case objects =>
    intro other member
    rw [lowered_page]
    exact sound.objects other member
  case inuse =>
    intro other member
    rw [lives, lowered_page]
    dsimp only
    by_cases same : other = page
    · rw [same, if_pos rfl]
      exact less
    · rw [if_neg same, Int.sub_zero]
      exact sound.inuse other member
  case room =>
    intro other member
    have before := sound.room other member
    rw [lowered_page]
    dsimp only
    split <;> omega

/-- A page with no object in use goes back to the host. -/
theorem Sound.freePages (sound : Sound cache free slub) (current : slub.cpuPage = some page)
    (none : (slub.page page).inuse = 0) :
    Sound cache free { slub with slabs := slub.slabs.erase page, cpuPage := Option.none } := by
  have shape : holding slub = page :: (slub.cpuPartial ++ slub.nodePartial) := by
    rw [holding, current]
    rfl
  have held := sound.held
  have given := sound.given
  rw [shape] at held given
  have kept : forall {other}, other ∈ slub.slabs.erase page -> other ∈ slub.slabs := List.mem_of_mem_erase
  have left : forall {other}, other ∈ slub.slabs -> other ≠ page -> other ∈ slub.slabs.erase page :=
    fun member different => (List.mem_erase_of_ne different).mpr member
  constructor
  case pages => exact sound.pages.erase page
  case held => exact (List.nodup_cons.mp held).2
  case given =>
    intro other member
    exact left (given other (List.mem_cons_of_mem _ member)) (ne_of_mem_of_not_mem member (List.nodup_cons.mp held).1)
  case start => exact fun other member => sound.start other (kept member)
  case apart => exact fun one two member found => sound.apart one two (kept member) (kept found)
  case linked => exact fun other member => sound.linked other (kept member)
  case listed => exact fun other object member => sound.listed other object (kept member)
  case lives =>
    intro object live
    obtain ⟨other, member, placed⟩ := sound.lives object live
    refine ⟨other, left member ?_, placed⟩
    rintro rfl
    have some : 0 < liveIn cache slub other := List.countP_pos_iff.mpr ⟨object, live, decide_eq_true placed.inside⟩
    have counted := sound.inuse other member
    omega
  case once => exact sound.once
  case objects => exact fun other member => sound.objects other (kept member)
  case inuse => exact fun other member => sound.inuse other (kept member)
  case room => exact fun other member => sound.room other (kept member)

/-- The current page goes on the list of the node. -/
theorem Sound.release (sound : Sound cache free slub) (current : slub.cpuPage = some page) :
    Sound cache free { slub.addPartial page with cpuPage := Option.none } := by
  have shape : holding slub = page :: (slub.cpuPartial ++ slub.nodePartial) := by
    rw [holding, current]
    rfl
  have moved : holding { slub.addPartial page with cpuPage := Option.none } =
      slub.cpuPartial ++ (page :: slub.nodePartial) := rfl
  have relisted : Relisted slub { slub.addPartial page with cpuPage := Option.none } :=
    ⟨rfl, rfl, rfl, rfl, rfl, rfl, rfl⟩
  have held := sound.held
  have given := sound.given
  rw [shape] at held given
  refine relisted.sound sound ?_ fun other member => given other ?_
  · rw [moved]
    exact List.perm_middle.nodup_iff.mpr held
  · rw [moved] at member
    exact List.perm_middle.mem_iff.mp member

theorem Sound.released (sound : Sound cache free slub) (current : slub.cpuPage = some page) :
    Sound cache free (released page slub) := by
  unfold Slub.released
  split
  · exact sound.freePages current ‹_›
  · split
    · exact sound.release current
    · exact sound

theorem released_live (slub : Slub) (page : Nat) : (released page slub).live = slub.live := by
  unfold released
  split
  · rfl
  · split <;> rfl

theorem released_freed (slub : Slub) (page : Nat) : (released page slub).freed = slub.freed := by
  unfold released
  split
  · rfl
  · split <;> rfl

theorem released_slabs (member : other ∈ (released page slub).slabs) : other ∈ slub.slabs := by
  unfold released at member
  split at member
  · exact List.mem_of_mem_erase member
  · split at member <;> exact member

/-- A release leaves the object on the list of the processor, and the current
page may change lists. -/
theorem free_cases (some : object ≠ 0) : (kmemCacheFree cache object slub).state = Option.some (put object slub) \/
    Exists fun page => slub.cpuPage = Option.some page /\
      ((slub.page page).sMem <= object /\ object < (slub.page page).sMem + cache.span) /\
      (kmemCacheFree cache object slub).state = Option.some (released page (lowered page (put object slub))) := by
  unfold kmemCacheFree
  rw [if_neg some]
  dsimp only [bind, Program.get]
  cases found : slub.cpuPage.filter fun page =>
      (slub.page page).sMem <= object /\ object < (slub.page page).sMem + cache.span with
  | none => exact .inl rfl
  | some page =>
      obtain ⟨current, inside⟩ := Option.filter_eq_some_iff.mp found
      exact .inr ⟨page, current, of_decide_eq_true inside, rfl⟩

/-! ## The list of the processor -/

/-- The host gives memory that it has not given before.  The list of the
processor may still run through a slab that the cache has given back. -/
def Fresh (cache : Cache) (slub : Slub) : Event -> Prop
  | .alloc (some (_, start)) => forall other, other ∈ slub.regions -> Disjoint cache start other
  | .alloc none => True
  | .free _ => True
  | .write _ _ => True

instance (cache : Cache) (slub : Slub) : forall event, Decidable (Fresh cache slub event)
  | .alloc (some _) => inferInstanceAs (Decidable (forall _, _ -> _))
  | .alloc none => inferInstanceAs (Decidable True)
  | .free _ => inferInstanceAs (Decidable True)
  | .write _ _ => inferInstanceAs (Decidable True)

/-- The objects that were released are on the list of the processor and
nowhere else. -/
structure Left (cache : Cache) (free : Nat -> List Nat) (slub : Slub) : Prop where
  spread : slub.regions.Pairwise (Disjoint cache)
  placed : forall page, page ∈ slub.slabs -> (slub.page page).sMem ∈ slub.regions
  kept : forall object, object ∈ slub.freed -> Exists fun start => start ∈ slub.regions /\ IsObject cache start object
  unheld : forall object, object ∈ slub.freed -> object ∉ slub.live
  unlisted : forall page object, page ∈ slub.slabs -> object ∈ slub.freed -> object ∉ free page
  chain : Linked slub.memory slub.cpuFreelist slub.freed

theorem empty_left (memory : Nat -> Nat) (page : Nat -> Slab) : Left cache free (empty memory page) where
  spread := List.Pairwise.nil
  placed _ member := nomatch member
  kept _ member := nomatch member
  unheld _ member := nomatch member
  unlisted _ _ member := nomatch member
  chain := rfl

namespace Left

/-- Two objects of the memory that the host has given do not overlap. -/
theorem clear (left : Left cache free slub) {first second object : Nat} (member : first ∈ slub.regions)
    (found : second ∈ slub.regions) (placed : IsObject cache first object) {other : Nat}
    (too : IsObject cache second other) (different : object ≠ other) : Clear cache object other := by
  by_cases same : first = second
  · subst same
    exact placed.clear too different
  · refine placed.clear_of_disjoint too ?_
    have : Std.Symm (Disjoint cache) := ⟨fun _ _ apart => apart.symm⟩
    exact left.spread.forall member found same

theorem relisted (left : Left cache free before) (relisted : Relisted before after) : Left cache free after where
  spread := by rw [relisted.regions]; exact left.spread
  placed := by rw [relisted.slabs, relisted.page, relisted.regions]; exact left.placed
  kept := by rw [relisted.freed, relisted.regions]; exact left.kept
  unheld := by rw [relisted.freed, relisted.live]; exact left.unheld
  unlisted := by rw [relisted.slabs, relisted.freed]; exact left.unlisted
  chain := by rw [relisted.memory, relisted.cpuFreelist, relisted.freed]; exact left.chain

theorem newSlab (left : Left cache free slub) (fresh : page ∉ slub.slabs)
    (apart : forall other, other ∈ slub.regions -> Disjoint cache start other) {all : List Nat}
    (inside : forall object, object ∈ all -> IsObject cache start object) :
    Left cache (Function.update free page all) (newSlab cache page start slub) where
  spread := List.pairwise_cons.mpr ⟨apart, left.spread⟩
  placed other member := by
    rcases List.mem_cons.mp member with rfl | older
    · rw [newSlab_page_self]
      exact List.mem_cons_self ..
    · refine List.mem_cons.mpr (.inr ?_)
      rw [newSlab_page_other start (ne_of_mem_of_not_mem older fresh)]
      exact left.placed other older
  kept object member := by
    obtain ⟨region, found, placed⟩ := left.kept object member
    exact ⟨region, List.mem_cons_of_mem _ found, placed⟩
  unheld := left.unheld
  unlisted other object member freed := by
    rcases List.mem_cons.mp member with rfl | older
    · rw [Function.update_self]
      obtain ⟨region, found, placed⟩ := left.kept object freed
      exact fun present => (apart region found).outside (inside object present).inside.1
        (inside object present).inside.2
        placed.inside
    · rw [Function.update_of_ne (ne_of_mem_of_not_mem older fresh)]
      exact left.unlisted other object older freed
  chain := left.chain.congr fun address freed => initLoop_frame _ fun j less same => by
    obtain ⟨region, found, placed⟩ := left.kept address freed
    exact (apart region found).symm.outside placed.inside.1 placed.inside.2 (IsObject.inside ⟨j, by omega, same⟩)

theorem taken (left : Left cache free slub) (member : page ∈ slub.slabs) {rest : List Nat}
    (first : free page = object :: rest) : Left cache (Function.update free page rest) (taken page object slub) where
  spread := left.spread
  placed other found := by
    have same : ((Slub.taken page object slub).page other).sMem = (slub.page other).sMem :=
      taken_place slub page object other
    rw [same]
    exact left.placed other found
  kept := left.kept
  unheld second freed live := by
    rcases List.mem_cons.mp live with same | live
    · refine left.unlisted page object member (same ▸ freed) ?_
      rw [first]
      exact List.mem_cons_self ..
    · exact left.unheld second freed live
  unlisted other second found freed present := by
    by_cases same : other = page
    · rw [same, Function.update_self] at present
      refine left.unlisted page second member freed ?_
      rw [first]
      exact List.mem_cons_of_mem _ present
    · rw [Function.update_of_ne same] at present
      exact left.unlisted other second found freed present
  chain := left.chain

theorem put (left : Left cache free slub) (sound : Sound cache free slub) (held : object ∈ slub.live)
    (some : object ≠ 0) :
    Left cache free (put object slub) where
  spread := left.spread
  placed := left.placed
  kept second member := by
    rcases List.mem_cons.mp member with rfl | older
    · obtain ⟨page, found, placed⟩ := sound.lives second held
      exact ⟨_, left.placed page found, placed⟩
    · exact left.kept second older
  unheld second member live := by
    rcases List.mem_cons.mp member with rfl | older
    · exact sound.once.not_mem_erase live
    · exact left.unheld second older (List.mem_of_mem_erase live)
  unlisted page second found member present := by
    rcases List.mem_cons.mp member with rfl | older
    · exact (sound.listed page second found present).2 held
    · exact left.unlisted page second found older present
  chain := left.chain.push (fun freed => left.unheld object freed held) some

theorem lowered (left : Left cache free slub) : Left cache free (lowered page slub) where
  spread := left.spread
  placed other member := by
    rw [lowered_page]
    exact left.placed other member
  kept := left.kept
  unheld := left.unheld
  unlisted := left.unlisted
  chain := left.chain

theorem released (left : Left cache free slub) : Left cache free (released page slub) := by
  unfold Slub.released
  split
  · exact {
      spread := left.spread
      placed := fun other member => left.placed other (List.mem_of_mem_erase member)
      kept := left.kept
      unheld := left.unheld
      unlisted := fun other object member => left.unlisted other object (List.mem_of_mem_erase member)
      chain := left.chain }
  · split
    · exact left.relisted ⟨rfl, rfl, rfl, rfl, rfl, rfl, rfl⟩
    · exact left

theorem written (left : Left cache free slub) (sound : Sound cache free slub) (held : object ∈ slub.live)
    (change : Nat -> Nat) : Left cache free (written cache object change slub) := by
  refine { left with chain := left.chain.congr fun address freed => if_neg fun wrong => ?_ }
  obtain ⟨page, member, placed⟩ := sound.lives object held
  obtain ⟨region, found, too⟩ := left.kept address freed
  have clear := left.clear (left.placed page member) found placed too
    (ne_of_mem_of_not_mem held (left.unheld address freed))
  have word := cache.word
  rcases clear with above | below <;> omega

end Left

/-! ## Steps and runs -/

/-- What is written to an object that is held is in no free one. -/
theorem Sound.written (sound : Sound cache free slub) (held : object ∈ slub.live) (change : Nat -> Nat) :
    Sound cache free (written cache object change slub) := by
  refine { sound with linked := fun page member => (sound.linked page member).congr fun address present => ?_ }
  obtain ⟨placed, unheld⟩ := sound.listed page address member present
  obtain ⟨other, found, too⟩ := sound.lives object held
  have clear := sound.clear found too member placed (ne_of_mem_of_not_mem held unheld)
  have word := cache.word
  refine if_neg fun wrong => ?_
  rcases clear with left | right <;> omega

theorem takeObject_eq (slub : Slub) (page : Nat) : takeObject page slub =
    if (slub.page page).freelist = 0 then .stop .nullLoad
    else .done (slub.page page).freelist (taken page (slub.page page).freelist slub) := by
  change (if (slub.page page).freelist = 0 then halt .nullLoad
    else do
      modify (taken page (slub.page page).freelist)
      pure (slub.page page).freelist : Routine Nat) slub = _
  split <;> rfl

theorem map_takeObject (slub : Slub) (page : Nat) : (some <$> takeObject page : Routine (Option Nat)) slub =
    if (slub.page page).freelist = 0 then .stop .nullLoad
    else .done (some (slub.page page).freelist) (taken page (slub.page page).freelist slub) := by
  change (do let object <- takeObject page; pure (some object) : Routine (Option Nat)) slub = _
  dsimp only [bind]
  rw [takeObject_eq]
  by_cases none : (slub.page page).freelist = 0
  · rw [if_pos none, if_pos none]
  · rw [if_neg none, if_neg none]
    rfl

/-- An allocation leaves the state as it is, or takes an object from the page
that it has prepared. -/
theorem alloc_cases (ran : (perform cache (.alloc host) before).state = some after) :
    (host = none /\ Exhausted before /\ before.cpuPartial = [] /\ before.nodePartial = [] /\ after = before) \/
    Exists fun page => Exists fun prepared => Prepares cache host before page prepared /\
      (prepared.page page).freelist ≠ 0 /\ after = taken page (prepared.page page).freelist prepared := by
  have shape : perform cache (.alloc host) before =
      (do let _ <- kmemCacheAlloc cache host 2 : Routine Unit) before := rfl
  rw [shape] at ran
  dsimp only [bind] at ran
  rcases alloc_prepares cache host before with
    ⟨page, prepared, prepares, same⟩ | ⟨exhausted, processor, node, out, same⟩
  · by_cases none : (prepared.page page).freelist = 0
    · rw [same, map_takeObject, if_pos none] at ran
      exact nomatch ran
    · rw [same, map_takeObject, if_neg none] at ran
      exact .inr ⟨page, prepared, prepares, none, (Option.some.inj ran).symm⟩
  · rw [same] at ran
    exact .inl ⟨out, exhausted, processor, node, (Option.some.inj ran).symm⟩

/-- The page is ready, and what is on the list of the processor stays there. -/
theorem Sound.prepared (sound : Sound cache free slub) (allowed : Allows cache slub (.alloc host)) {prepared : Slub}
    (prepares : Prepares cache host slub page prepared) : Exists fun next => Ready cache next prepared page /\
      (Fresh cache slub (.alloc host) -> Left cache free slub -> Left cache next prepared) := by
  cases prepares with
  | current current some => exact ⟨free, ⟨sound, current⟩, fun _ left => left⟩
  | listed exhausted first =>
      have moved := (refilled_relisted cache slub).trans (retired_relisted (Slub.refilled cache slub))
      exact ⟨free, sound.listed_ready first, fun _ left => left.relisted
        ⟨moved.memory, moved.page, moved.cpuFreelist, moved.slabs, moved.regions, moved.live, moved.freed⟩⟩
  | @fresh start exhausted processor node given =>
      subst given
      obtain ⟨all, _, inside, _, ready⟩ := sound.fresh_ready allowed.1 allowed.2.1 allowed.2.2
      have moved := retired_relisted (Slub.newSlab cache page start slub)
      exact ⟨_, ready, fun fresh left => (left.newSlab allowed.1 fresh inside).relisted
        ⟨moved.memory, moved.page, moved.cpuFreelist, moved.slabs, moved.regions, moved.live, moved.freed⟩⟩

theorem Ready.taken (ready : Ready cache free slub page) (some : (slub.page page).freelist ≠ 0) :
    Exists fun next => Sound cache next (taken page (slub.page page).freelist slub) /\
      (Left cache free slub -> Left cache next (taken page (slub.page page).freelist slub)) := by
  obtain ⟨rest, shape, _⟩ := (ready.sound.linked page ready.member).exists_cons some
  exact ⟨_, ready.sound.taken ready.member shape, fun left => left.taken ready.member shape⟩

theorem Sound.step (sound : Sound cache free before) {event : Event}
    (stepped : (machine cache).step before event = some after) : Exists fun next => Sound cache next after /\
      (Fresh cache before event -> Left cache free before -> Left cache next after) := by
  change (if Allows cache before event then (perform cache event before).state else none) = some after at stepped
  split at stepped
  case isFalse => exact nomatch stepped
  case isTrue allowed =>
    cases event with
    | alloc host =>
        rcases alloc_cases stepped with ⟨_, _, _, _, same⟩ | ⟨page, prepared, prepares, some, same⟩
        · rw [same]
          exact ⟨free, sound, fun _ left => left⟩
        · obtain ⟨next, ready, keeps⟩ := sound.prepared allowed prepares
          obtain ⟨last, result, still⟩ := ready.taken some
          rw [same]
          exact ⟨last, result, fun fresh left => still (keeps fresh left)⟩
    | free object =>
        by_cases null : object = 0
        · have same : perform cache (.free object) before = .done () before := by
            change kmemCacheFree cache object before = _
            unfold kmemCacheFree
            rw [if_pos null]
            rfl
          rw [same] at stepped
          cases stepped
          exact ⟨free, sound, fun _ left => left⟩
        · have held := allowed.resolve_left null
          rcases free_cases null with same | ⟨page, current, inside, same⟩
          · cases same.symm.trans stepped
            exact ⟨free, sound.put held, fun _ left => left.put sound held null⟩
          · cases same.symm.trans stepped
            have member : page ∈ before.slabs := Ready.member ⟨sound, current⟩
            have fewer := liveIn_put_self held inside
            have counted := sound.inuse page member
            refine ⟨free, ((sound.put held).lowered ?_).released current, fun _ left =>
              (left.put sound held null).lowered.released⟩
            change (liveIn cache (Slub.put object before) page : Int) <= (before.page page).inuse - 1
            omega
    | write object change =>
        cases stepped
        exact ⟨free, sound.written allowed change, fun _ left => left.written sound allowed change⟩

variable {memory : Nat -> Nat} {pages : Nat -> Slab} {events : List Event}

/-- Every state that is reached has sound slabs. -/
theorem run_sound (ran : (machine cache).run (empty memory pages) events = some after) :
    Exists fun free => Sound cache free after := by
  have kept : (fun state => Exists fun free => Sound cache free state) after := by
    apply Machine.run_invariant_always _ _ ran
    · intro state event next sound stepped
      obtain ⟨free, sound⟩ := sound
      obtain ⟨next, result, _⟩ := sound.step stepped
      exact ⟨next, result⟩
    · exact ⟨fun _ => [], empty_sound memory pages⟩
  exact kept

/-- Where the host never gives memory twice, the objects that were released
stay on the list of the processor. -/
theorem run_left (along : (machine cache).Along (Fresh cache) (empty memory pages) events)
    (ran : (machine cache).run (empty memory pages) events = some after) :
    Exists fun free => Sound cache free after /\ Left cache free after := by
  have kept : (fun state => Exists fun free => Sound cache free state /\ Left cache free state) after := by
    apply Machine.run_invariant _ _ along ran
    · intro state event next sound fresh stepped
      obtain ⟨free, sound, left⟩ := sound
      obtain ⟨next, result, still⟩ := sound.step stepped
      exact ⟨next, result, still fresh left⟩
    · exact ⟨fun _ => [], empty_sound memory pages, empty_left memory pages⟩
  exact kept

/-! ## Exclusive objects -/

/-- No word of a list is in an object that is held. -/
def Outside (cache : Cache) (slub : Slub) (addresses : List Nat) : Prop :=
  forall address object, address ∈ addresses -> object ∈ slub.live -> address + 8 <= object \/
    object + cache.size <= address

/-- The objects that are held are different ones of slabs in use, and the
lists of the slabs run outside them. -/
structure Exclusive (cache : Cache) (slub : Slub) : Prop where
  once : slub.live.Nodup
  clear : forall object other, object ∈ slub.live -> other ∈ slub.live -> object ≠ other -> Clear cache object other
  placed : forall object, object ∈ slub.live -> Exists fun page => page ∈ slub.slabs /\ Exists fun i =>
    object = (slub.page page).sMem + i * cache.size /\ object + cache.size <= (slub.page page).sMem + cache.span
  lists : forall page, page ∈ slub.slabs -> Exists fun addresses =>
    Linked slub.memory (slub.page page).freelist addresses /\ Outside cache slub addresses

/-- The same of the list of the processor. -/
def ProcessorExclusive (cache : Cache) (slub : Slub) : Prop :=
  Linked slub.memory slub.cpuFreelist slub.freed /\ Outside cache slub slub.freed

theorem Clear.word {other : Nat} (clear : Clear cache other object) : other + 8 <= object \/
      object + cache.size <= other := by
  have word := cache.word
  exact clear.imp (fun left => by omega) id

theorem Sound.exclusive (sound : Sound cache free slub) : Exclusive cache slub where
  once := sound.once
  clear object other live held different := by
    obtain ⟨page, member, placed⟩ := sound.lives object live
    obtain ⟨second, found, too⟩ := sound.lives other held
    exact sound.clear member placed found too different
  placed object live := by
    obtain ⟨page, member, placed⟩ := sound.lives object live
    have upper := placed.upper
    obtain ⟨i, _, same⟩ := placed
    exact ⟨page, member, i, same, upper⟩
  lists page member := by
    refine ⟨free page, sound.linked page member, fun address object present live => ?_⟩
    obtain ⟨placed, unheld⟩ := sound.listed page address member present
    obtain ⟨second, found, too⟩ := sound.lives object live
    exact (sound.clear member placed found too (ne_of_mem_of_not_mem live unheld).symm).word

theorem Left.exclusive (left : Left cache free slub) (sound : Sound cache free slub) :
    ProcessorExclusive cache slub := by
  refine ⟨left.chain, fun address object freed live => ?_⟩
  obtain ⟨region, found, placed⟩ := left.kept address freed
  obtain ⟨page, member, too⟩ := sound.lives object live
  exact (left.clear found (left.placed page member) placed too
    (ne_of_mem_of_not_mem live (left.unheld address freed)).symm).word

/-- What an allocation returns was held by nobody, and is held from then on. -/
def HandsOut (cache : Cache) (slub : Slub) : Prop :=
  forall host result next, Allows cache slub (.alloc host) -> kmemCacheAlloc cache host 2 slub = .done result next ->
    match result with
    | none => next.live = slub.live
    | some object => object ∉ slub.live /\ next.live = object :: slub.live

theorem Prepares.live {host : Option (Nat × Nat)} {prepared : Slub}
    (prepares : Prepares cache host slub page prepared) :
    prepared.live = slub.live := by
  cases prepares with
  | current => rfl
  | listed => exact ((refilled_relisted cache slub).trans (retired_relisted (Slub.refilled cache slub))).live
  | fresh => exact (retired_relisted (Slub.newSlab cache page _ slub)).live

theorem Sound.handsOut (sound : Sound cache free slub) : HandsOut cache slub := by
  intro host result next allowed ran
  rcases alloc_prepares cache host slub with ⟨page, prepared, prepares, same⟩ | ⟨_, _, _, _, same⟩
  · rw [same, map_takeObject] at ran
    by_cases none : (prepared.page page).freelist = 0
    · rw [if_pos none] at ran
      exact absurd ran (by simp)
    · rw [if_neg none] at ran
      cases ran
      obtain ⟨_, ready, _⟩ := sound.prepared allowed prepares
      obtain ⟨_, result, _⟩ := ready.taken none
      have once : ((prepared.page page).freelist :: prepared.live).Nodup := result.once
      rw [prepares.live] at once
      exact ⟨(List.nodup_cons.mp once).1, congrArg _ prepares.live⟩
  · rw [same] at ran
    cases ran
    rfl

/-- No object is handed out twice, what an allocation returns is the object
that the caller holds from then on, and no list runs through an object that is
held.  For the list of the processor, memory that the host has taken back must
not come again. -/
theorem objects_exclusive (ran : (machine cache).run (empty memory pages) events = some after) :
    Exclusive cache after /\ HandsOut cache after /\
      ((machine cache).Along (Fresh cache) (empty memory pages) events -> ProcessorExclusive cache after) := by
  obtain ⟨free, sound⟩ := run_sound ran
  refine ⟨sound.exclusive, sound.handsOut, fun along => ?_⟩
  obtain ⟨free, sound, left⟩ := run_left along ran
  exact left.exclusive sound

/-- The cache `test_objects` -/
def testObjects : Cache := kmemCacheCreate 64 (by decide)

/-- A cache after its creation. -/
def created : Slub := empty (fun _ => 0) fun _ => ⟨0, 0, 0, 0⟩

def twoAllocs : List Event := [.alloc (some (1, 4096)), .alloc none]

def allocAllocFree : List Event := twoAllocs ++ [.free 8064]

theorem objects_exclusive_released : Exists fun after =>
    (machine testObjects).run created allocAllocFree = some after /\ Exclusive testObjects after /\
      ProcessorExclusive testObjects after /\ after.live = [8000] /\ after.freed = [8064] := by
  have ran := (Option.some_get (by decide +kernel : ((machine testObjects).run created allocAllocFree).isSome)).symm
  obtain ⟨exclusive, _, processor⟩ := objects_exclusive ran
  exact ⟨_, ran, exclusive, processor (by decide +kernel), by decide +kernel, by decide +kernel⟩

end Slub

end Memory
end Ucore
