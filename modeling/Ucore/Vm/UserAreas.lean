import Mathlib.Data.List.Perm.Basic
import Mathlib.Data.List.TakeWhile
import Ucore.Vm.AddressSpace

namespace Ucore
namespace Vm

/-!
# The areas of an address space

The list of areas is sorted, and its areas are disjoint.  `insert_vma_struct`
asserts that against the two neighbours of a new area, which is enough on such
a list.  `mm_map` looks up the area of its first address only, so that an area
that starts inside the range is found by the assertion.  `user_mem_check`
goes from area to area.

Addresses and lengths that come from a caller are machine words.
-/

/-- The areas are not empty, and each one ends before the next one starts. -/
structure SortedAreas (list : List Vma) : Prop where
  before : list.Pairwise fun prev next => prev.vmEnd <= next.vmStart
  filled : forall vma, vma ∈ list -> vma.vmStart < vma.vmEnd

/-- Two areas have no address in common. -/
def Vma.Apart (vma other : Vma) : Prop := vma.vmEnd <= other.vmStart \/ other.vmEnd <= vma.vmStart

namespace SortedAreas

variable {list : List Vma} {vma other : Vma}

theorem apart (sorted : SortedAreas list) (member : vma ∈ list) (found : other ∈ list) (different : vma ≠ other) :
    vma.Apart other := by
  obtain ⟨front, back, split⟩ := List.append_of_mem member
  have before := sorted.before
  rw [split] at before found
  rcases List.mem_append.mp found with left | right
  · exact .inr ((List.pairwise_append.mp before).2.2 other left vma (List.mem_cons_self ..))
  · rcases List.mem_cons.mp right with same | right
    · exact absurd same.symm different
    · exact .inl ((List.pairwise_cons.mp (List.pairwise_append.mp before).2.1).1 other right)

/-- An address lies in one area only. -/
theorem unique (sorted : SortedAreas list) {addr : Nat} (member : vma ∈ list) (found : other ∈ list)
    (holds : vma.Holds addr) (too : other.Holds addr) : vma = other := by
  by_contra different
  unfold Vma.Holds at holds too
  rcases sorted.apart member found different with left | right <;> omega

/-- The areas come in one order only. -/
theorem eq_of_perm {areas : List Vma} (sorted : SortedAreas list) (also : SortedAreas areas) (same : list.Perm areas) :
    list = areas := by
  apply List.Perm.eq_of_pairwise _ sorted.before also.before same
  intro first second member found before after
  have filled := sorted.filled first member
  have nonempty := also.filled second found
  omega

/-- No area ends after the last one. -/
theorem le_last (sorted : SortedAreas list) (last : list.getLast? = some vma) (member : other ∈ list) :
    other.vmEnd <= vma.vmEnd := by
  obtain ⟨front, rfl⟩ := List.getLast?_eq_some_iff.mp last
  rcases List.mem_append.mp member with left | right
  · have before := (List.pairwise_append.mp sorted.before).2.2 other left vma (List.mem_singleton_self vma)
    have filled := sorted.filled vma (List.mem_append_right _ (List.mem_singleton_self vma))
    omega
  · rw [List.mem_singleton.mp right]

/-- No area starts before the first one. -/
theorem head_le (sorted : SortedAreas list) (first : list.head? = some vma) (member : other ∈ list) :
    vma.vmStart <= other.vmStart := by
  obtain ⟨rest, rfl⟩ := List.head?_eq_some_iff.mp first
  rcases List.mem_cons.mp member with same | later
  · rw [same]
  · have before := (List.pairwise_cons.mp sorted.before).1 other later
    have filled := sorted.filled vma (List.mem_cons_self ..)
    omega

end SortedAreas

/-! ## Insertion -/

section Insertion

variable {list inserted : List Vma} {vma other : Vma}

/-- The areas before and after the place of a new one. -/
def areasBefore (list : List Vma) (vma : Vma) : List Vma :=
  list.takeWhile (fun other => decide (other.vmStart <= vma.vmStart))

def areasAfter (list : List Vma) (vma : Vma) : List Vma :=
  list.dropWhile (fun other => decide (other.vmStart <= vma.vmStart))

theorem areas_append (list : List Vma) (vma : Vma) : areasBefore list vma ++ areasAfter list vma = list :=
  List.takeWhile_append_dropWhile

theorem insertVmaStruct_eq (list : List Vma) (vma : Vma) : insertVmaStruct list vma =
    if vma.vmStart < vma.vmEnd /\ (forall prev, prev ∈ (areasBefore list vma).getLast? -> CheckVmaOverlap prev vma) /\
        (forall next, next ∈ (areasAfter list vma).head? -> CheckVmaOverlap vma next) then
      some (areasBefore list vma ++ vma :: areasAfter list vma)
    else none := rfl

theorem insertVmaStruct_perm (done : insertVmaStruct list vma = some inserted) : inserted.Perm (vma :: list) := by
  rw [insertVmaStruct_eq] at done
  split at done
  · cases done
    have middle : (areasBefore list vma ++ vma :: areasAfter list vma).Perm
        (vma :: (areasBefore list vma ++ areasAfter list vma)) := List.perm_middle
    rw [areas_append] at middle
    exact middle
  · exact nomatch done

theorem SortedAreas.areasBefore (sorted : SortedAreas list) (vma : Vma) : SortedAreas (areasBefore list vma) where
  before := sorted.before.sublist (List.takeWhile_sublist _)
  filled other member := sorted.filled other ((List.takeWhile_sublist _).subset member)

theorem SortedAreas.areasAfter (sorted : SortedAreas list) (vma : Vma) : SortedAreas (areasAfter list vma) where
  before := sorted.before.sublist (List.dropWhile_sublist _)
  filled other member := sorted.filled other ((List.dropWhile_sublist _).subset member)

/-- The assertions on the neighbours are about all areas. -/
theorem SortedAreas.checked (sorted : SortedAreas list) (done : insertVmaStruct list vma = some inserted) :
    vma.vmStart < vma.vmEnd /\ (forall other, other ∈ Vm.areasBefore list vma -> other.vmEnd <= vma.vmStart) /\
      (forall other, other ∈ Vm.areasAfter list vma -> vma.vmEnd <= other.vmStart) /\
      inserted = Vm.areasBefore list vma ++ vma :: Vm.areasAfter list vma := by
  rw [insertVmaStruct_eq] at done
  split at done
  case isFalse => exact nomatch done
  case isTrue checks =>
    obtain ⟨filled, left, right⟩ := checks
    refine ⟨filled, fun other member => ?_, fun other member => ?_, (Option.some.inj done).symm⟩
    · have some : (Vm.areasBefore list vma).getLast?.isSome := by
        rw [List.getLast?_isSome]
        exact List.ne_nil_of_mem member
      obtain ⟨prev, last⟩ := Option.isSome_iff_exists.mp some
      exact Nat.le_trans ((sorted.areasBefore vma).le_last last member) (left prev last).2.1
    · have some : (Vm.areasAfter list vma).head?.isSome := by
        rw [List.isSome_head?]
        exact List.ne_nil_of_mem member
      obtain ⟨next, first⟩ := Option.isSome_iff_exists.mp some
      exact Nat.le_trans (right next first).2.1 ((sorted.areasAfter vma).head_le first member)

theorem SortedAreas.insert (sorted : SortedAreas list) (done : insertVmaStruct list vma = some inserted) :
    SortedAreas inserted := by
  obtain ⟨filled, left, right, rfl⟩ := sorted.checked done
  constructor
  · rw [List.pairwise_append, List.pairwise_cons]
    refine ⟨(sorted.areasBefore vma).before, ⟨right, (sorted.areasAfter vma).before⟩, fun prev member next found => ?_⟩
    rcases List.mem_cons.mp found with rfl | later
    · exact left prev member
    · have first := left prev member
      have second := right next later
      omega
  · intro other member
    rcases List.mem_append.mp member with before | rest
    · exact (sorted.areasBefore vma).filled other before
    · rcases List.mem_cons.mp rest with rfl | after
      · exact filled
      · exact (sorted.areasAfter vma).filled other after

/-- The new area has no address of an older one. -/
theorem SortedAreas.apart_inserted (sorted : SortedAreas list) (done : insertVmaStruct list vma = some inserted)
    (member : other ∈ list) : vma.Apart other := by
  obtain ⟨_, left, right, _⟩ := sorted.checked done
  rw [← areas_append list vma] at member
  rcases List.mem_append.mp member with before | after
  · exact .inr (left other before)
  · exact .inl (right other after)

/-- The assertions hold exactly when no area has an address of the new one. -/
theorem SortedAreas.insert_isSome_iff (sorted : SortedAreas list) (filled : vma.vmStart < vma.vmEnd) :
    (insertVmaStruct list vma).isSome <-> forall other, other ∈ list -> vma.Apart other := by
  constructor
  · intro some other member
    obtain ⟨inserted, done⟩ := Option.isSome_iff_exists.mp some
    exact sorted.apart_inserted done member
  · intro apart
    rw [insertVmaStruct_eq, if_pos, Option.isSome_some]
    refine ⟨filled, fun prev last => ?_, fun next first => ?_⟩
    · have found := List.mem_of_getLast? last
      have member := (List.takeWhile_sublist _).subset found
      unfold Vm.areasBefore at found
      have passed := List.mem_takeWhile_imp found
      have starts := of_decide_eq_true passed
      have older := sorted.filled prev member
      rcases apart prev member with after | before
      · omega
      · exact ⟨older, before, filled⟩
    · have member := (List.dropWhile_sublist _).subset (List.mem_of_head? first)
      have starts : ¬ next.vmStart <= vma.vmStart := by
        have stops := List.head?_dropWhile_not (fun other => decide (other.vmStart <= vma.vmStart)) list
        rw [show list.dropWhile (fun other => decide (other.vmStart <= vma.vmStart)) = Vm.areasAfter list vma from rfl,
          Option.mem_def.mp first] at stops
        exact of_decide_eq_false (by simpa using stops)
      have older := sorted.filled next member
      rcases apart next member with after | before
      · exact ⟨filled, after, older⟩
      · omega

end Insertion

/-! ## The lookup -/

/-- The lookup cache is an area of the list. -/
def Mm.Cached (mm : Mm) : Prop := forall vma, mm.mmapCache = some vma -> vma ∈ mm.mmapList

namespace Mm

variable {mm : Mm} {vma : Vma} {addr : Nat}

theorem findVma_some (cached : mm.Cached) (found : mm.findVma addr = some vma) : vma ∈ mm.mmapList /\
      vma.Holds addr := by
  have listed : forall other, mm.mmapList.find? (fun vma => decide (vma.Holds addr)) = some other ->
      other ∈ mm.mmapList /\ other.Holds addr := fun other first => by
    have passed := List.find?_some first
    exact ⟨List.mem_of_find?_eq_some first, of_decide_eq_true passed⟩
  unfold findVma at found
  cases cache : mm.mmapCache with
  | none =>
      rw [cache] at found
      exact listed vma found
  | some kept =>
      rw [cache] at found
      dsimp only at found
      split at found
      · next holds =>
          cases found
          exact ⟨cached vma cache, holds⟩
      · exact listed vma found

theorem findVma_none (found : mm.findVma addr = none) : forall vma, vma ∈ mm.mmapList -> ¬ vma.Holds addr := by
  have listed : mm.mmapList.find? (fun vma => decide (vma.Holds addr)) = none -> forall vma, vma ∈ mm.mmapList ->
      ¬ vma.Holds addr := fun none vma member holds => by
    have missed := List.find?_eq_none.mp none vma member
    exact missed (decide_eq_true holds)
  unfold findVma at found
  cases cache : mm.mmapCache with
  | none =>
      rw [cache] at found
      exact listed found
  | some kept =>
      rw [cache] at found
      dsimp only at found
      split at found
      · exact nomatch found
      · exact listed found

@[simp] theorem mmapList_cacheVma (mm : Mm) (addr : Nat) : (mm.cacheVma addr).mmapList = mm.mmapList := by
  unfold cacheVma
  split <;> rfl

@[simp] theorem pgdir_cacheVma (mm : Mm) (addr : Nat) : (mm.cacheVma addr).pgdir = mm.pgdir := by
  unfold cacheVma
  split <;> rfl

theorem Cached.cacheVma (cached : mm.Cached) (addr : Nat) : (mm.cacheVma addr).Cached := by
  unfold Mm.cacheVma
  cases found : mm.findVma addr with
  | none => exact cached
  | some vma =>
      intro other same
      cases same
      exact (findVma_some cached found).1

end Mm

/-! ## New areas -/

/-- An address space with `map_count`, which the functions that use pages do not
look at. -/
structure CountedMm extends Mm where
  mapCount : Int

/-- `ROUNDUP` of machine words -/
def roundUp (value size : UInt64) : Nat := roundDown (value + size - 1).toNat size.toNat

/-- `insert_vma_struct`; `none` is a failed assertion. -/
def CountedMm.insert (mm : CountedMm) (vma : Vma) : Option CountedMm :=
  (insertVmaStruct mm.mmapList vma).map fun list => { mm with mmapList := list, mapCount := mm.mapCount + 1 }

/-- `mm_map`, where `created` tells whether `vma_create` succeeds.  The outer
`none` is a failed assertion. -/
def CountedMm.mmMap (mm : CountedMm) (addr len : UInt64) (vmFlags : VmFlags) (created : Bool) :
    Option (Option Errno × CountedMm) :=
  let start := roundDown addr.toNat pgSize
  let last := roundUp (addr + len) 4096
  if UserAccess start last then
    let looked : CountedMm := { mm with toMm := mm.cacheVma start }
    if (mm.findVma start).any (fun vma => last > vma.vmStart) = true then some (some .inval, looked)
    else if created = true then (looked.insert ⟨start, last, vmFlags⟩).map fun inserted => (none, inserted)
    else some (some .noMem, looked)
  else some (some .inval, mm)

/-- The range is not one of the user, or it starts in an area. -/
def StartRefused (areas : List Vma) (first last : Nat) : Prop :=
  ¬ UserAccess first last \/ Exists fun vma => vma ∈ areas /\ vma.Holds first

instance (areas : List Vma) (first last : Nat) : Decidable (StartRefused areas first last) :=
  inferInstanceAs (Decidable (_ \/ _))

structure CountedMm.WellFormed (mm : CountedMm) : Prop where
  sorted : SortedAreas mm.mmapList
  cached : mm.toMm.Cached
  counted : mm.mapCount = mm.mmapList.length

/-- The pages of the addresses from `addr` to `addr + len`, without overflow. -/
def firstPage (addr : UInt64) : Nat := addr.toNat / pgSize * pgSize

def lastPage (addr len : UInt64) : Nat := (addr.toNat + len.toNat + (pgSize - 1)) / pgSize * pgSize

/-- The range is not one of the user, or overlaps an area. -/
def CountedMm.Refused (mm : CountedMm) (first last : Nat) : Prop :=
  ¬ UserAccess first last \/ Exists fun vma => vma ∈ mm.mmapList /\ vma.vmStart < last /\ first < vma.vmEnd

/-- `mm_map` returns, with `-E_INVAL` exactly for a range that is to be refused.
After an error the areas are the same ones, and otherwise there is a new one. -/
structure CountedMm.MapsAs (mm : CountedMm) (addr len : UInt64) (vmFlags : VmFlags) (created : Bool)
    (error : Option Errno) (after : CountedMm) : Prop where
  returns : mm.mmMap addr len vmFlags created = some (error, after)
  refuses : error = some .inval <-> mm.Refused (firstPage addr) (lastPage addr len)
  creates : error = some .noMem -> created = false
  kept : error ≠ none -> after.mmapList = mm.mmapList /\ after.mapCount = mm.mapCount /\ after.pgdir = mm.pgdir
  mapped : error = none -> after.WellFormed /\
    after.mmapList.Perm (⟨firstPage addr, lastPage addr len, vmFlags⟩ :: mm.mmapList)

/-- The range that `mm_map` computes is refused, or its start lies in an area,
or it does not overflow and no area starts inside it.  `find_vma` is asked for
the start only, so any other overlap is missed. -/
def CountedMm.StartDecides (mm : CountedMm) (addr len : UInt64) : Prop :=
  ¬ UserAccess (firstPage addr) (roundUp (addr + len) 4096) \/
    (Exists fun vma => vma ∈ mm.mmapList /\ vma.Holds (firstPage addr)) \/
    (addr.toNat + len.toNat < 2 ^ 64 /\ forall vma, vma ∈ mm.mmapList ->
      ¬ (firstPage addr < vma.vmStart /\ vma.vmStart < roundUp (addr + len) 4096))

theorem roundDown_eq (addr : UInt64) : roundDown addr.toNat pgSize = firstPage addr := by
  unfold roundDown firstPage pgSize
  omega

/-- The rounded end, where a sum of machine words may overflow. -/
theorem roundUp_eq (value : UInt64) : roundUp value 4096 = (value.toNat + 4095) % 2 ^ 64 / 4096 * 4096 := by
  unfold roundUp roundDown
  rw [UInt64.toNat_sub, UInt64.toNat_add]
  have size : (4096 : UInt64).toNat = 4096 := rfl
  have one : (1 : UInt64).toNat = 1 := rfl
  rw [size, one]
  omega

/-- Without overflow the computed end is the last page. -/
theorem lastPage_eq {addr len : UInt64} (bound : lastPage addr len <= userTop) :
    roundUp (addr + len) 4096 = lastPage addr len := by
  rw [roundUp_eq, UInt64.toNat_add]
  unfold lastPage pgSize userTop at *
  omega

namespace CountedMm

variable {mm after : CountedMm} {addr len : UInt64} {vmFlags : VmFlags} {created : Bool}

theorem WellFormed.looked (formed : mm.WellFormed) (addr : Nat) :
    CountedMm.WellFormed { mm with toMm := mm.cacheVma addr } where
  sorted := by
    rw [Mm.mmapList_cacheVma]
    exact formed.sorted
  cached := formed.cached.cacheVma addr
  counted := by
    rw [Mm.mmapList_cacheVma]
    exact formed.counted

/-- An area that overlaps no other one. -/
theorem WellFormed.insert (formed : mm.WellFormed) (vma : Vma) (filled : vma.vmStart < vma.vmEnd)
    (apart : forall other, other ∈ mm.mmapList -> vma.Apart other) : Exists fun inserted =>
      mm.insert vma = some inserted /\ inserted.WellFormed /\ inserted.mmapList.Perm (vma :: mm.mmapList) := by
  obtain ⟨list, done⟩ := Option.isSome_iff_exists.mp ((formed.sorted.insert_isSome_iff filled).mpr apart)
  have order := insertVmaStruct_perm done
  refine ⟨{ mm with mmapList := list, mapCount := mm.mapCount + 1 }, ?_, ⟨formed.sorted.insert done, ?_, ?_⟩, order⟩
  · rw [CountedMm.insert, done]
    rfl
  · exact fun other cache => order.mem_iff.mpr (List.mem_cons_of_mem _ (formed.cached other cache))
  · change mm.mapCount + 1 = list.length
    rw [order.length_eq, formed.counted]
    rfl

theorem not_refused_iff : ¬ mm.Refused (firstPage addr) (lastPage addr len) <->
    UserAccess (firstPage addr) (lastPage addr len) /\
      forall vma, vma ∈ mm.mmapList -> lastPage addr len <= vma.vmStart \/ vma.vmEnd <= firstPage addr := by
  unfold Refused
  push Not
  refine and_congr_right fun _ => forall_congr' fun vma => imp_congr_right fun _ => ?_
  omega

theorem mmMap_of_not_access (refused : ¬ UserAccess (firstPage addr) (roundUp (addr + len) 4096)) :
    mm.mmMap addr len vmFlags created = some (some .inval, mm) := by
  unfold mmMap
  rw [roundDown_eq]
  exact if_neg refused

theorem mmMap_of_holds (cached : mm.toMm.Cached) (access : UserAccess (firstPage addr) (roundUp (addr + len) 4096))
    (held : Exists fun vma => vma ∈ mm.mmapList /\ vma.Holds (firstPage addr)) :
    mm.mmMap addr len vmFlags created = some (some .inval, { mm with toMm := mm.cacheVma (firstPage addr) }) := by
  unfold mmMap
  rw [roundDown_eq]
  dsimp only
  rw [if_pos access, if_pos]
  cases found : mm.findVma (firstPage addr) with
  | none =>
      obtain ⟨vma, member, holds⟩ := held
      exact absurd holds (Mm.findVma_none found vma member)
  | some vma =>
      have holds := (Mm.findVma_some cached found).2
      rw [Option.any_some, decide_eq_true_eq]
      exact Nat.lt_of_le_of_lt holds.1 access.2.1

theorem mmMap_of_not_holds (cached : mm.toMm.Cached)
    (access : UserAccess (firstPage addr) (roundUp (addr + len) 4096))
    (free : forall vma, vma ∈ mm.mmapList -> ¬ vma.Holds (firstPage addr)) :
    mm.mmMap addr len vmFlags created =
      if created = true then
        (({ mm with toMm := mm.cacheVma (firstPage addr) } : CountedMm).insert
          ⟨firstPage addr, roundUp (addr + len) 4096, vmFlags⟩).map fun inserted => (none, inserted)
      else some (some .noMem, { mm with toMm := mm.cacheVma (firstPage addr) }) := by
  have none : mm.findVma (firstPage addr) = none := by
    cases found : mm.findVma (firstPage addr) with
    | none => rfl
    | some vma =>
        obtain ⟨member, holds⟩ := Mm.findVma_some cached found
        exact absurd holds (free vma member)
  unfold mmMap
  rw [roundDown_eq]
  dsimp only
  rw [if_pos access, none]
  rfl

/-- A range that the code refuses for its bounds is not one of the user. -/
theorem refused_of_not_access (refused : ¬ UserAccess (firstPage addr) (roundUp (addr + len) 4096)) :
    mm.Refused (firstPage addr) (lastPage addr len) := by
  refine .inl fun access => refused ?_
  rw [lastPage_eq access.2.2]
  exact access

theorem refused_of_holds (held : Exists fun vma => vma ∈ mm.mmapList /\ vma.Holds (firstPage addr)) :
    mm.Refused (firstPage addr) (lastPage addr len) := by
  by_cases inside : UserAccess (firstPage addr) (lastPage addr len)
  · obtain ⟨vma, member, holds⟩ := held
    exact .inr ⟨vma, member, Nat.lt_of_le_of_lt holds.1 inside.2.1, holds.2⟩
  · exact .inl inside

/-- Where the start is free, the range is not refused exactly when no area
starts inside it. -/
theorem not_refused_of_not_holds (sorted : SortedAreas mm.mmapList)
    (access : UserAccess (firstPage addr) (roundUp (addr + len) 4096))
    (free : forall vma, vma ∈ mm.mmapList -> ¬ vma.Holds (firstPage addr)) :
    ¬ mm.Refused (firstPage addr) (lastPage addr len) <->
      addr.toNat + len.toNat < 2 ^ 64 /\ forall vma, vma ∈ mm.mmapList ->
        ¬ (firstPage addr < vma.vmStart /\ vma.vmStart < roundUp (addr + len) 4096) := by
  rw [not_refused_iff]
  constructor
  · rintro ⟨inside, apart⟩
    rw [lastPage_eq inside.2.2]
    refine ⟨?_, fun vma member starts => ?_⟩
    · have bound := inside.2.2
      unfold lastPage pgSize userTop at bound
      omega
    · have filled := sorted.filled vma member
      rcases apart vma member with later | earlier <;> omega
  · rintro ⟨bound, starts⟩
    have same : roundUp (addr + len) 4096 = lastPage addr len := by
      have top := access.2.2
      have below := access.2.1
      rw [roundUp_eq, UInt64.toNat_add] at top below ⊢
      unfold lastPage firstPage pgSize userTop at *
      omega
    rw [same] at access starts
    refine ⟨access, fun vma member => ?_⟩
    have outside := free vma member
    have inside := starts vma member
    unfold Vma.Holds at outside
    omega

/-- `mm_map` does what it should exactly when the start of the range decides. -/
theorem mmMap_iff_start_decides (formed : mm.WellFormed) (addr len : UInt64) (vmFlags : VmFlags) (created : Bool) :
    (Exists fun error => Exists fun after => mm.MapsAs addr len vmFlags created error after) <->
      mm.StartDecides addr len := by
  by_cases access : UserAccess (firstPage addr) (roundUp (addr + len) 4096)
  · by_cases held : Exists fun vma => vma ∈ mm.mmapList /\ vma.Holds (firstPage addr)
    · have refused : mm.Refused (firstPage addr) (lastPage addr len) := refused_of_holds held
      refine iff_of_true ⟨_, _, mmMap_of_holds formed.cached access held, ⟨fun _ => refused, fun _ => rfl⟩,
        (nomatch ·), fun _ => ⟨mm.mmapList_cacheVma _, rfl, mm.pgdir_cacheVma _⟩, (nomatch ·)⟩ (.inr (.inl held))
    · have free : forall vma, vma ∈ mm.mmapList -> ¬ vma.Holds (firstPage addr) := fun vma member holds =>
        held ⟨vma, member, holds⟩
      have ran := @mmMap_of_not_holds mm addr len vmFlags created formed.cached access free
      have decides : mm.StartDecides addr len <-> ¬ mm.Refused (firstPage addr) (lastPage addr len) := by
        rw [not_refused_of_not_holds formed.sorted access free]
        exact ⟨fun cases => (cases.resolve_left (not_not_intro access)).resolve_left held, fun both => .inr (.inr both)⟩
      rw [decides]
      constructor
      · rintro ⟨error, after, returns, refuses, _⟩ refused
        rw [refuses.mpr refused, ran] at returns
        split at returns
        · obtain ⟨inserted, _, same⟩ := Option.map_eq_some_iff.mp returns
          exact nomatch same
        · exact nomatch returns
      · intro allowed
        obtain ⟨inside, apart⟩ := not_refused_iff.mp allowed
        rw [lastPage_eq inside.2.2] at ran
        cases created with
        | false =>
            refine ⟨_, _, ran, ⟨(nomatch ·), fun refused => absurd refused allowed⟩, fun _ => rfl,
              fun _ => ⟨mm.mmapList_cacheVma _, rfl, mm.pgdir_cacheVma _⟩, (nomatch ·)⟩
        | true =>
            obtain ⟨inserted, done, still, order⟩ :=
              (formed.looked (firstPage addr)).insert ⟨firstPage addr, lastPage addr len, vmFlags⟩ inside.2.1 (by
                rw [Mm.mmapList_cacheVma]
                exact apart)
            rw [Mm.mmapList_cacheVma] at order
            rw [if_pos rfl, done] at ran
            exact ⟨_, _, ran, ⟨(nomatch ·), fun refused => absurd refused allowed⟩, (nomatch ·), (absurd rfl ·),
              fun _ => ⟨still, order⟩⟩
  · exact iff_of_true ⟨_, _, mmMap_of_not_access access, ⟨fun _ => refused_of_not_access access, fun _ => rfl⟩,
      (nomatch ·), fun _ => ⟨rfl, rfl, rfl⟩, (nomatch ·)⟩ (.inl access)

/-- What `mm_map` leaves when it returns. -/
theorem mmMap_cases {mm after : CountedMm} {addr len : UInt64} {vmFlags : VmFlags} {created : Bool}
    {error : Option Errno}
    (sorted : SortedAreas mm.mmapList) (cached : mm.toMm.Cached)
    (ran : mm.mmMap addr len vmFlags created = some (error, after)) :
    after.pgdir = mm.pgdir /\ after.toMm.Cached /\ match error with
      | some _ => after.mmapList = mm.mmapList
      | none => UserAccess (firstPage addr) (roundUp (addr + len) 4096) /\ SortedAreas after.mmapList /\
          after.mmapList.Perm (⟨firstPage addr, roundUp (addr + len) 4096, vmFlags⟩ :: mm.mmapList) /\
          forall other, other ∈ mm.mmapList ->
            (Vma.mk (firstPage addr) (roundUp (addr + len) 4096) vmFlags).Apart other := by
  have looked := cached.cacheVma (firstPage addr)
  unfold mmMap at ran
  rw [roundDown_eq] at ran
  dsimp only at ran
  split at ran
  case isFalse =>
    cases ran
    exact ⟨rfl, cached, rfl⟩
  case isTrue access =>
    split at ran
    · cases ran
      exact ⟨mm.pgdir_cacheVma _, looked, mm.mmapList_cacheVma _⟩
    split at ran
    case isFalse =>
      cases ran
      exact ⟨mm.pgdir_cacheVma _, looked, mm.mmapList_cacheVma _⟩
    case isTrue =>
      obtain ⟨inserted, done, same⟩ := Option.map_eq_some_iff.mp ran
      cases same
      unfold CountedMm.insert at done
      dsimp only at done
      obtain ⟨list, placed, rfl⟩ := Option.map_eq_some_iff.mp done
      rw [mm.mmapList_cacheVma] at placed
      refine ⟨mm.pgdir_cacheVma _, fun vma kept => ?_, access, sorted.insert placed, insertVmaStruct_perm placed,
        fun other member => sorted.apart_inserted placed member⟩
      have member := looked vma kept
      rw [mm.mmapList_cacheVma] at member
      exact (insertVmaStruct_perm placed).mem_iff.mpr (List.mem_cons_of_mem _ member)

/-- An error is one of memory, or the start of the range is refused. -/
theorem mmMap_error {mm after : CountedMm} {addr len : UInt64} {vmFlags : VmFlags} {created : Bool} {error : Errno}
    (cached : mm.toMm.Cached) (ran : mm.mmMap addr len vmFlags created = some (some error, after))
    (granted : created = true) :
    StartRefused mm.mmapList (firstPage addr) (roundUp (addr + len) 4096) := by
  by_contra passes
  unfold StartRefused at passes
  push Not at passes
  rw [mmMap_of_not_holds cached passes.1 passes.2, if_pos granted] at ran
  obtain ⟨inserted, _, same⟩ := Option.map_eq_some_iff.mp ran
  cases same

/-- The assertion fails where the start is not refused, and the range overlaps
an area. -/
theorem mmMap_none {mm : CountedMm} {addr len : UInt64} {vmFlags : VmFlags} {created : Bool}
    (sorted : SortedAreas mm.mmapList)
    (cached : mm.toMm.Cached) (ran : mm.mmMap addr len vmFlags created = none) :
    ¬ StartRefused mm.mmapList (firstPage addr) (roundUp (addr + len) 4096) /\ ¬ forall other, other ∈ mm.mmapList ->
      (Vma.mk (firstPage addr) (roundUp (addr + len) 4096) vmFlags).Apart other := by
  have access : UserAccess (firstPage addr) (roundUp (addr + len) 4096) := by
    by_contra refused
    rw [mmMap_of_not_access refused] at ran
    cases ran
  have passes : ¬ Exists fun vma => vma ∈ mm.mmapList /\ vma.Holds (firstPage addr) := by
    intro held
    rw [mmMap_of_holds cached access held] at ran
    cases ran
  refine ⟨fun refused => refused.elim (absurd access) passes, fun apart => ?_⟩
  rw [mmMap_of_not_holds cached access fun vma member holds => passes ⟨vma, member, holds⟩] at ran
  split at ran
  · have filled : (Vma.mk (firstPage addr) (roundUp (addr + len) 4096) vmFlags).vmStart < roundUp (addr + len) 4096 :=
      access.2.1
    have inserted := (sorted.insert_isSome_iff filled).mpr apart
    rw [Option.map_eq_none_iff, CountedMm.insert, Option.map_eq_none_iff, mm.mmapList_cacheVma] at ran
    rw [ran] at inserted
    cases inserted
  · cases ran

/-- Two areas with a gap of two pages between them. -/
def twoAreas : CountedMm where
  pgdir := PageDirectory.blank none
  mmapList := [⟨0x400000, 0x401000, { read := true }⟩, ⟨0x403000, 0x404000, { read := true, write := true }⟩]
  mmapCache := none
  mapCount := 2

theorem twoAreas_wellFormed : twoAreas.WellFormed where
  sorted := ⟨by decide, by decide⟩
  cached _ none := nomatch none
  counted := rfl

theorem mmMap_iff_start_decides_gap :
    Exists fun error => Exists fun after => twoAreas.MapsAs 0x401000 0x1800 { read := true } true error after :=
  (mmMap_iff_start_decides twoAreas_wellFormed 0x401000 0x1800 { read := true } true).mpr
    (.inr (.inr ⟨by decide, by decide⟩))

/-- A range from the gap into the second area fails an assertion. -/
theorem mmMap_asserts : twoAreas.WellFormed /\ twoAreas.mmMap 0x401000 0x3000 { read := true } true = none /\
    ¬ Exists fun error => Exists fun after => twoAreas.MapsAs 0x401000 0x3000 { read := true } true error after := by
  have fails : twoAreas.mmMap 0x401000 0x3000 { read := true } true = none := by decide
  refine ⟨twoAreas_wellFormed, fails, ?_⟩
  rintro ⟨error, after, returns, _⟩
  exact nomatch fails.symm.trans returns

end CountedMm

/-! ## The check of user memory -/

/-- `VM_WRITE` for a write, and `VM_READ` otherwise -/
def VmFlags.allows (flags : VmFlags) (write : Bool) : Bool := if write = true then flags.write else flags.read

/-- The loop of `user_mem_check`; `none` when the turns run out. -/
def userMemLoop (write : Bool) (last : Nat) : Nat -> Nat -> Mm -> Option (Bool × Mm)
  | 0, _, _ => none
  | turns + 1, start, mm =>
      if start < last then
        let looked := mm.cacheVma start
        match mm.findVma start with
        | none => some (false, looked)
        | some vma =>
            if start < vma.vmStart then some (false, looked)
            else if vma.vmFlags.allows write = false then some (false, looked)
            else if write = true /\ vma.vmFlags.stack = true /\ start < (vma.vmStart + pgSize) % 2 ^ 64 then
              some (false, looked)
            else userMemLoop write last turns vma.vmEnd looked
      else some (true, mm)

/-- `user_mem_check`, for an address space that is not `NULL` -/
def userMemCheck (turns : Nat) (mm : Mm) (addr len : UInt64) (write : Bool) : Option (Bool × Mm) :=
  if UserAccess addr.toNat (addr + len).toNat then userMemLoop write (addr + len).toNat turns addr.toNat mm
  else some (false, mm)

/-- The byte may be read or written. -/
def Vma.Permits (vma : Vma) (write : Bool) (byte : Nat) : Prop :=
  vma.Holds byte /\ vma.vmFlags.allows write = true /\
    ¬ (write = true /\ vma.vmFlags.stack = true /\ byte < vma.vmStart + pgSize)

/-- Every byte of the range may be read or written. -/
def Mm.Accessible (mm : Mm) (start last : Nat) (write : Bool) : Prop :=
  forall byte, start <= byte -> byte < last -> Exists fun vma => vma ∈ mm.mmapList /\ vma.Permits write byte

theorem Mm.accessible_cacheVma (mm : Mm) (addr start last : Nat) (write : Bool) :
    (mm.cacheVma addr).Accessible start last write <-> mm.Accessible start last write := by
  unfold Accessible
  rw [mmapList_cacheVma]

namespace SortedAreas

variable {mm : Mm} {vma : Vma} {start last : Nat} {write : Bool}

/-- The area of the start decides about the bytes up to its end. -/
theorem accessible_iff (sorted : SortedAreas mm.mmapList) (member : vma ∈ mm.mmapList) (holds : vma.Holds start)
    (more : start < last) :
    mm.Accessible start last write <-> vma.Permits write start /\ mm.Accessible vma.vmEnd last write := by
  constructor
  · intro all
    refine ⟨?_, fun byte low high => all byte (by unfold Vma.Holds at holds; omega) high⟩
    obtain ⟨other, found, permits⟩ := all start (Nat.le_refl _) more
    rw [sorted.unique member found holds permits.1]
    exact permits
  · rintro ⟨permits, later⟩ byte low high
    by_cases inside : byte < vma.vmEnd
    · refine ⟨vma, member, ⟨Nat.le_trans holds.1 low, inside⟩, permits.2.1, fun guard => permits.2.2 ?_⟩
      exact ⟨guard.1, guard.2.1, Nat.lt_of_le_of_lt low guard.2.2⟩
    · exact later byte (Nat.le_of_not_lt inside) high

/-- The areas that end after an address. -/
def remaining (list : List Vma) (start : Nat) : Nat := list.countP fun vma => decide (start < vma.vmEnd)

/-- The loop leaves the area of its start behind. -/
theorem remaining_lt {list : List Vma} (member : vma ∈ list) (holds : vma.Holds start) :
    remaining list vma.vmEnd < remaining list start := by
  obtain ⟨front, back, rfl⟩ := List.append_of_mem member
  have fewer : forall part : List Vma, remaining part vma.vmEnd <= remaining part start := fun part =>
    List.countP_mono_left fun other _ ends => decide_eq_true (Nat.lt_trans holds.2 (of_decide_eq_true ends))
  have left := fewer front
  have right := fewer back
  unfold remaining at left right ⊢
  have counted : (vma :: back).countP (fun other => decide (start < other.vmEnd)) =
      back.countP (fun other => decide (start < other.vmEnd)) + 1 := List.countP_cons_of_pos (decide_eq_true holds.2)
  rw [List.countP_append, List.countP_append, List.countP_cons_of_neg (by simp), counted]
  omega

/-- The loop ends, and returns whether all bytes are accessible.  The
induction is on the turns; the areas that are left bound them. -/
theorem userMemLoop_eq (turns : Nat) : forall {mm : Mm} {start : Nat}, SortedAreas mm.mmapList -> mm.Cached ->
    last <= userTop -> remaining mm.mmapList start < turns -> Exists fun after => Exists fun result =>
      userMemLoop write last turns start mm = some (result, after) /\
        (result = true <-> mm.Accessible start last write) := by
  induction turns with
  | zero => exact fun _ _ _ wrong => absurd wrong (Nat.not_lt_zero _)
  | succ turns inductionHypothesis =>
      intro mm start sorted cached top bound
      rw [userMemLoop]
      by_cases more : start < last
      case neg =>
        rw [if_neg more]
        exact ⟨_, _, rfl, iff_of_true rfl fun byte low high => absurd (Nat.lt_of_le_of_lt low high) more⟩
      rw [if_pos more]
      cases found : mm.findVma start with
      | none =>
          refine ⟨_, _, rfl, iff_of_false Bool.false_ne_true fun all => ?_⟩
          obtain ⟨vma, member, permits⟩ := all start (Nat.le_refl _) more
          exact Mm.findVma_none found vma member permits.1
      | some vma =>
          obtain ⟨member, holds⟩ := Mm.findVma_some cached found
          have small : (vma.vmStart + pgSize) % 2 ^ 64 = vma.vmStart + pgSize := by
            have low := holds.1
            unfold pgSize
            unfold userTop at top
            omega
          dsimp only
          rw [if_neg (Nat.not_lt.mpr holds.1), small, sorted.accessible_iff member holds more]
          by_cases refused : vma.vmFlags.allows write = false
          · rw [if_pos refused]
            exact ⟨_, _, rfl, iff_of_false Bool.false_ne_true fun both =>
              Bool.false_ne_true (refused.symm.trans both.1.2.1)⟩
          by_cases guard : write = true /\ vma.vmFlags.stack = true /\ start < vma.vmStart + pgSize
          · rw [if_neg refused, if_pos guard]
            exact ⟨_, _, rfl, iff_of_false Bool.false_ne_true fun both => both.1.2.2 guard⟩
          have less := remaining_lt member holds
          have listed := mm.mmapList_cacheVma start
          obtain ⟨after, result, ran, exact⟩ := @inductionHypothesis (mm.cacheVma start) vma.vmEnd
            (by rw [listed]; exact sorted) (cached.cacheVma start) top (by rw [listed]; omega)
          rw [if_neg refused, if_neg guard]
          refine ⟨after, result, ran, exact.trans ?_⟩
          rw [Mm.accessible_cacheVma]
          exact (and_iff_right ⟨holds, Bool.eq_true_of_not_eq_false refused, guard⟩).symm

/-- The bytes may be accessed one by one exactly when all are in areas with
the permission, and a write leaves the lowest page of a stack alone. -/
theorem accessible_iff_areas (sorted : SortedAreas mm.mmapList) : mm.Accessible start last write <->
    (forall byte, start <= byte -> byte < last -> Exists fun vma => vma ∈ mm.mmapList /\ vma.Holds byte /\
      vma.vmFlags.allows write = true) /\
    (write = true -> forall byte vma, start <= byte -> byte < last -> vma ∈ mm.mmapList -> vma.vmFlags.stack = true ->
      vma.Holds byte -> vma.vmStart + pgSize <= byte) := by
  constructor
  · intro all
    refine ⟨fun byte low high => ?_, fun isWrite byte vma low high member stack holds => ?_⟩
    · obtain ⟨vma, member, holds, allowed, _⟩ := all byte low high
      exact ⟨vma, member, holds, allowed⟩
    · obtain ⟨other, found, too, _, unguarded⟩ := all byte low high
      cases sorted.unique member found holds too
      exact Nat.le_of_not_lt fun less => unguarded ⟨isWrite, stack, less⟩
  · rintro ⟨allowed, unguarded⟩ byte low high
    obtain ⟨vma, member, holds, allows⟩ := allowed byte low high
    refine ⟨vma, member, holds, allows, fun guard => ?_⟩
    exact Nat.not_lt.mpr (unguarded guard.1 byte vma low high member guard.2.1 holds) guard.2.2

end SortedAreas

/-- The check changes the cache only, and leaves an area of the list in it. -/
theorem userMemLoop_areas {write : Bool} {last turns : Nat} : forall {start : Nat} {mm after : Mm} {result : Bool},
    userMemLoop write last turns start mm = some (result, after) ->
      after.pgdir = mm.pgdir /\ after.mmapList = mm.mmapList /\ (mm.Cached -> after.Cached) := by
  induction turns with
  | zero =>
      intro start mm after result ran
      cases ran
  | succ turns inductionHypothesis =>
      intro start mm after result ran
      have looked : (mm.cacheVma start).pgdir = mm.pgdir /\ (mm.cacheVma start).mmapList = mm.mmapList /\
          (mm.Cached -> (mm.cacheVma start).Cached) :=
        ⟨mm.pgdir_cacheVma start, mm.mmapList_cacheVma start, fun cached => cached.cacheVma start⟩
      rw [userMemLoop] at ran
      by_cases more : start < last
      case neg =>
        rw [if_neg more] at ran
        cases ran
        exact ⟨rfl, rfl, id⟩
      rw [if_pos more] at ran
      cases found : mm.findVma start with
      | none =>
          rw [found] at ran
          cases ran
          exact looked
      | some vma =>
          rw [found] at ran
          dsimp only at ran
          split at ran
          · cases ran
            exact looked
          split at ran
          · cases ran
            exact looked
          split at ran
          · cases ran
            exact looked
          have rest := inductionHypothesis ran
          exact ⟨rest.1.trans looked.1, rest.2.1.trans looked.2.1, fun cached => rest.2.2 (looked.2.2 cached)⟩

theorem userMemCheck_areas {turns : Nat} {mm after : Mm} {addr len : UInt64} {write result : Bool}
    (ran : userMemCheck turns mm addr len write = some (result, after)) :
    after.pgdir = mm.pgdir /\ after.mmapList = mm.mmapList /\ (mm.Cached -> after.Cached) := by
  unfold userMemCheck at ran
  split at ran
  · exact userMemLoop_areas ran
  · cases ran
    exact ⟨rfl, rfl, id⟩

/-- The check ends, and returns whether the range is one of the user, and its
bytes may be accessed. -/
theorem userMemCheck_eq {mm : Mm} (sorted : SortedAreas mm.mmapList) (cached : mm.Cached) (addr : UInt64) {len : UInt64}
    (positive : 0 < len) (write : Bool) {turns : Nat} (enough : mm.mmapList.length < turns) :
    Exists fun after => Exists fun result => userMemCheck turns mm addr len write = some (result, after) /\
      (result = true <-> addr.toNat + len.toNat < 2 ^ 64 /\ userBase <= addr.toNat /\
        addr.toNat + len.toNat <= userTop /\ mm.Accessible addr.toNat (addr.toNat + len.toNat) write) := by
  have some : 0 < len.toNat := UInt64.lt_iff_toNat_lt.mp positive
  have words : addr.toNat < 2 ^ 64 := addr.toNat_lt
  have wide : len.toNat < 2 ^ 64 := len.toNat_lt
  have sum := UInt64.toNat_add addr len
  have access : UserAccess addr.toNat (addr + len).toNat <-> addr.toNat + len.toNat < 2 ^ 64 /\
    userBase <= addr.toNat /\
      addr.toNat + len.toNat <= userTop := by
    rw [sum]
    unfold UserAccess userTop
    omega
  unfold userMemCheck
  by_cases inside : UserAccess addr.toNat (addr + len).toNat
  · obtain ⟨bound, low, high⟩ := access.mp inside
    have exact : (addr + len).toNat = addr.toNat + len.toNat := sum.trans (Nat.mod_eq_of_lt bound)
    have left : SortedAreas.remaining mm.mmapList addr.toNat < turns := Nat.lt_of_le_of_lt List.countP_le_length enough
    rw [if_pos inside, exact]
    obtain ⟨after, result, ran, same⟩ := SortedAreas.userMemLoop_eq turns sorted cached high left
    exact ⟨after, result, ran, same.trans ⟨fun all => ⟨bound, low, high, all⟩, fun all => all.2.2.2⟩⟩
  · rw [if_neg inside]
    exact ⟨mm, false, rfl, iff_of_false Bool.false_ne_true fun all => inside (access.mpr ⟨all.1, all.2.1, all.2.2.1⟩)⟩

/-- `user_mem_check` is exact: it returns, and it returns true for the ranges
of the user that do not overflow, whose bytes are all in areas with the
permission, and which for a write leave the lowest page of a stack alone. -/
theorem userMemCheck_exact {mm : Mm} (sorted : SortedAreas mm.mmapList) (cached : mm.Cached) (addr : UInt64)
    {len : UInt64}
    (positive : 0 < len) (write : Bool) {turns : Nat} (enough : mm.mmapList.length < turns) :
    Exists fun after => Exists fun result => userMemCheck turns mm addr len write = some (result, after) /\
      (result = true <-> addr.toNat + len.toNat < 2 ^ 64 /\ userBase <= addr.toNat /\
        addr.toNat + len.toNat <= userTop /\
        (forall byte, addr.toNat <= byte -> byte < addr.toNat + len.toNat -> Exists fun vma =>
          vma ∈ mm.mmapList /\ vma.Holds byte /\ vma.vmFlags.allows write = true) /\
        (write = true -> forall byte vma, addr.toNat <= byte -> byte < addr.toNat + len.toNat -> vma ∈ mm.mmapList ->
          vma.vmFlags.stack = true -> vma.Holds byte -> vma.vmStart + pgSize <= byte)) := by
  obtain ⟨after, result, ran, exact⟩ := userMemCheck_eq sorted cached addr positive write enough
  rw [sorted.accessible_iff_areas] at exact
  exact ⟨after, result, ran, exact⟩

theorem userMemCheck_exact_inside : Exists fun after => Exists fun result =>
    userMemCheck 3 CountedMm.twoAreas.toMm 0x403ff0 0x10 true = some (result, after) /\ result = true := by
  obtain ⟨after, result, ran, exact⟩ := userMemCheck_exact CountedMm.twoAreas_wellFormed.sorted
    CountedMm.twoAreas_wellFormed.cached 0x403ff0 (show (0 : UInt64) < 0x10 by decide) true (show 2 < 3 by decide)
  refine ⟨after, result, ran, exact.mpr ⟨by decide, by decide, by decide, fun byte low high => ?_, ?_⟩⟩
  · refine ⟨⟨0x403000, 0x404000, { read := true, write := true }⟩, by decide, ⟨?_, ?_⟩, rfl⟩
    · exact Nat.le_trans (by decide) low
    · exact Nat.lt_of_lt_of_le high (by decide)
  · intro _ byte vma _ _ member stack
    rcases List.mem_cons.mp member with rfl | member
    · exact nomatch stack
    · rcases List.mem_singleton.mp member with rfl
      exact nomatch stack

end Vm
end Ucore
