import Ucore.Memory.SlobAlloc

namespace Ucore
namespace Slob

open Library
open Program

/-!
# The small-block heap in use

A client allocates and frees blocks and writes into those it holds.  The heap
stays laid out as long as the free list has a second entry when one is needed:
when a request is served, and when a block that is freed ends at an entry.
-/

variable {heap : Heap} {free live : Finset Nat} {answer : Nat -> Option Nat} {arena size b : Nat}
  {fail : Empty -> Heap -> Prop} {stop : Fault -> Prop}

def Heap.Room (heap : Heap) (size entry : Nat) : Prop := slobUnits (size + slobUnit) <= heap.units entry

instance : Decidable (heap.Room size b) := inferInstanceAs (Decidable (_ <= _))

/-- The request is not served from the only free entry: either that entry has
no room, and if a page is needed then an entry does not touch the page. -/
def Serves (answer : Nat -> Option Nat) (heap : Heap) (size : Nat) : Prop :=
  (heap.next heap.slobfree = heap.slobfree -> ¬ heap.Room size heap.slobfree) /\
    ((forall entry, entry ∈ heap.entries -> ¬ heap.Room size entry) ->
      forall page, page ∈ (answer heap.asked).toList ->
        Exists fun entry => entry ∈ heap.entries /\ entry + heap.width entry ≠ page /\ page + pageSize ≠ entry)

instance : Decidable (Serves answer heap size) := inferInstanceAs (Decidable (_ /\ _))

/-- The block does not end at the only free entry. -/
def Returns (heap : Heap) (block : Nat) : Prop :=
  heap.next heap.slobfree = heap.slobfree -> block + heap.width block ≠ heap.slobfree

instance : Decidable (Returns heap b) := inferInstanceAs (Decidable (_ -> _))

/-- What `kmalloc` leaves when it returns a block. -/
structure Given (answer : Nat -> Option Nat) (arena : Nat) (heap after : Heap) (live : Finset Nat) (size cur : Nat) :
    Prop where
  lives : forall block, block ∈ live -> after.units block = heap.units block
  fits : after.units cur = slobUnits (size + slobUnit)
  absent : cur ∉ live
  laid : Exists fun rest => Laid after rest (insert cur live) (owned answer arena after.asked)
  returns : Returns after cur
  asked : after.asked = heap.asked \/ after.asked = heap.asked + 1

theorem slobUnits_pos (size : Nat) : 0 < slobUnits (size + slobUnit) := by
  unfold slobUnits slobUnit
  omega

/-- Two free entries are each followed by another. -/
theorem Laid.several {owned : Finset Nat} (laid : Laid heap free live owned) {first second : Nat}
    (member : first ∈ free)
    (found : second ∈ free) (different : first ≠ second) {entry : Nat} (present : entry ∈ free) :
    heap.next entry ≠ entry := fun alone =>
  different ((laid.circle.only present member alone).trans (laid.circle.only present found alone).symm)

/-- The state with a page that is about to be put on the free list. -/
def Heap.withPage (heap : Heap) (page : Nat) : Heap :=
  { heap with
    units := Function.update heap.units page (slobUnits pageSize)
    asked := heap.asked + 1 }

theorem width_withPage_self (heap : Heap) (page : Nat) : (heap.withPage page).width page = pageSize := by
  unfold Heap.width Heap.withPage
  dsimp only
  rw [Function.update_self]
  decide

theorem width_withPage_other (heap : Heap) {page block : Nat} (other : block ≠ page) :
    (heap.withPage page).width block = heap.width block := by
  unfold Heap.width Heap.withPage
  dsimp only
  rw [Function.update_of_ne other]

/-- A page that is put on the free list serves the request. -/
theorem useFreePage_meets (fresh : FreshPages answer arena)
    (laid : Laid heap free live (owned answer arena heap.asked)) (small : size + slobUnit + slobUnit < pageSize)
    {page fuel : Nat} (answered : answer heap.asked = some page)
    (second : Exists fun entry => entry ∈ free /\ entry + heap.width entry ≠ page /\ page + pageSize ≠ entry)
    (enough : pageSize * (heap.asked + 2) <= fuel) {done : Nat -> Heap -> Prop}
    (given : forall cur after, Given answer arena heap after live size cur -> done cur after) :
    Meets (useFreePage (searchLoop answer (size + slobUnit) fuel) (some page))
      { heap with asked := heap.asked + 1 } ⟨done, fail, stop⟩ := by
  rcases fresh.page _ _ answered with ⟨positive, disjoint⟩
  rcases second with ⟨entry, found, before, behind⟩
  have absent : page ∉ free ∪ live := fun clash =>
    Finset.disjoint_left.mp disjoint (laid.tiling.subset clash)
      (Finset.mem_Ico.mpr ⟨Nat.le_refl _, Nat.lt_add_of_pos_right (by decide)⟩)
  have others : forall block, block ∈ free ∪ live -> block ≠ page := by
    rintro block present rfl
    exact absent present
  have tiling : BlockTiling (heap.withPage page).width (insert page (free ∪ live))
      (owned answer arena (heap.asked + 1)) := by
    rw [owned, answered]
    apply laid.tiling.extend (by decide) disjoint (width_withPage_self heap page)
    exact fun block present => width_withPage_other heap (others block present)
  rw [useFreePage]
  unfold slobFree setUnits
  rw [if_neg (Nat.ne_of_gt positive), if_pos (by decide)]
  simp only [meets_bind, meets_modify, meets_get]
  change Meets (slobInsert page) (heap.withPage page) _
  have circle : Circle (heap.withPage page).next free := laid.circle
  have start : (heap.withPage page).slobfree ∈ free := laid.start
  have notFree : page ∉ free := fun clash => absent (Finset.mem_union_left _ clash)
  have notLive : page ∉ live := fun clash => absent (Finset.mem_union_right _ clash)
  apply slobInsert_meets circle start tiling laid.apart notFree notLive
  · intro one another present member
    rw [width_withPage_other heap (others one (Finset.mem_union_left _ present))]
    exact laid.gaps one another present member
  · intro alone
    rw [width_withPage_self]
    have same : entry = (heap.withPage page).slobfree := circle.only start found alone
    exact same ▸ behind
  · have few := laid.card_lt
    unfold Heap.limit Heap.withPage pageSize at *
    dsimp only
    omega
  · intro after freed
    rcases freed.laid with ⟨rest, newLaid, cover, covers, large, kept⟩
    have here := others entry (Finset.mem_union_left _ found)
    have keep := kept entry found (by rwa [width_withPage_other heap here]) (by rwa [width_withPage_self])
    have asked : after.asked = heap.asked + 1 := freed.asked
    have lives : forall block, block ∈ live -> after.units block = heap.units block := fun block present =>
      (freed.lives block present).trans (Function.update_of_ne (others block (Finset.mem_union_right _ present)) _ _)
    rw [← asked] at newLaid
    have room : slobUnits (size + slobUnit) <= after.units cover := by
      unfold Heap.withPage at large
      dsimp only at large
      rw [Function.update_self] at large
      unfold slobUnits slobUnit pageSize at *
      omega
    apply searchLoop_finds newLaid newLaid.start (fun one present => newLaid.several keep.1 covers keep.2 present)
      (slobUnits_pos size) covers room
    · by_cases last : cover = after.slobfree
      · exact .inl last
      · exact .inr (Circle.ahead_round covers last)
    · have few := newLaid.card_le
      have bound := @Circle.ahead_card_le _ _ rest after.slobfree after.slobfree
      rw [asked] at few
      unfold slobUnit pageSize at *
      omega
    · intro cur final taken
      apply given
      constructor
      · exact fun block present => (taken.lives block present).trans (lives block present)
      · exact taken.fits
      · exact taken.absent
      · rw [taken.asked]
        exact taken.laid
      · exact taken.returns
      · exact .inr (taken.asked.trans asked)

/-- No block starts at the null pointer. -/
theorem Given.nonzero {after : Heap} {cur : Nat} (fresh : FreshPages answer arena)
    (given : Given answer arena heap after live size cur) : cur ≠ 0 := by
  rintro rfl
  rcases given.laid with ⟨rest, laidAfter⟩
  exact fresh.zero_notMem _ (laidAfter.tiling.subset (Finset.mem_union_right _ (Finset.mem_insert_self _ _)))

theorem slobAlloc_meets (fresh : FreshPages answer arena)
    (laid : Laid heap free live (owned answer arena heap.asked)) (small : size + slobUnit + slobUnit < pageSize)
    (serves : Serves answer heap size) {done : Nat -> Heap -> Prop}
    (exhausted : answer heap.asked = none -> done 0 { heap with asked := heap.asked + 1 })
    (finish : forall cur after, Given answer arena heap after live size cur -> done cur after) :
    Meets (slobAlloc answer (size + slobUnit)) heap ⟨done, fail, stop⟩ := by
  unfold slobAlloc
  simp only [meets_bind, meets_assert, meets_get]
  refine ⟨fun _ => ?_, fun large => absurd small large⟩
  by_cases roomy : Exists fun entry => entry ∈ free /\ heap.Room size entry
  · rcases roomy with ⟨entry, found, room⟩
    have more : heap.next heap.slobfree ≠ heap.slobfree := by
      intro alone
      have same := laid.circle.only laid.start found alone
      exact serves.1 alone (same ▸ room)
    apply searchLoop_finds laid laid.start
      (fun one present => laid.several (laid.circle.closed _ laid.start) laid.start more present)
      (slobUnits_pos size) found room
    · by_cases last : entry = heap.slobfree
      · exact .inl last
      · exact .inr (Circle.ahead_round found last)
    · exact Nat.lt_of_le_of_lt (Circle.ahead_card_le _ _) laid.card_lt
    · intro cur after taken
      apply finish
      constructor
      · exact taken.lives
      · exact taken.fits
      · exact taken.absent
      · rw [taken.asked]
        exact taken.laid
      · exact taken.returns
      · exact .inl taken.asked
  · have full : forall entry, entry ∈ free -> ¬ heap.Room size entry :=
      fun entry found room => roomy ⟨entry, found, room⟩
    have second := serves.2 (fun entry read => full entry (laid.mem_entries.mp read))
    have few := laid.card_le
    have bound := @Circle.ahead_card_le _ _ free heap.slobfree heap.slobfree
    have enough : (Circle.ahead free heap.slobfree heap.slobfree).card + pageSize * (heap.asked + 2) < heap.limit := by
      unfold Heap.limit slobUnit pageSize at *
      omega
    apply searchLoop_grows laid laid.start full enough
    · intro fuel enough
      unfold grow getFreePage
      rw [if_neg (by omega)]
      simp only [meets_bind, meets_get, meets_modify, meets_pure]
      cases answered : answer heap.asked with
      | none =>
          unfold useFreePage
          simp only [meets_pure]
          exact exhausted answered
      | some page =>
          apply useFreePage_meets fresh laid small answered _ enough finish
          rcases second page (by rw [answered]; exact List.mem_singleton_self page) with ⟨entry, read, apart⟩
          exact ⟨entry, laid.mem_entries.mp read, apart⟩

theorem kmalloc_meets (fresh : FreshPages answer arena)
    (laid : Laid heap free live (owned answer arena heap.asked)) (small : size + slobUnit + slobUnit < pageSize)
    (serves : Serves answer heap size) {done : Nat -> Heap -> Prop}
    (exhausted : answer heap.asked = none -> done 0 { heap with asked := heap.asked + 1 })
    (given : forall cur after, Given answer arena heap after live size cur -> done (cur + slobUnit) after) :
    Meets (kmalloc answer size) heap ⟨done, fail, stop⟩ := by
  unfold kmalloc
  simp only [meets_bind, meets_pure]
  apply slobAlloc_meets fresh laid small serves
  · intro none
    rw [if_pos rfl]
    exact exhausted none
  · intro cur after result
    rw [if_neg (result.nonzero fresh)]
    exact given cur after result

theorem slobInsert_frees {owned : Finset Nat} {block : Nat} (laid : Laid heap free live owned)
    (room : free.card < heap.limit) (held : block ∈ live) (returns : Returns heap block) {done : Unit -> Heap -> Prop}
    (freed : forall after, after.asked = heap.asked ->
      (forall other, other ∈ live.erase block -> after.units other = heap.units other) ->
      (Exists fun rest => Laid after rest (live.erase block) owned) -> done () after) :
    Meets (slobInsert block) heap ⟨done, fail, stop⟩ := by
  apply slobInsert_meets laid.circle laid.start _ _ _ (Finset.notMem_erase _ _) laid.gaps returns room
  · intro after result
    rcases result.laid with ⟨rest, newLaid, _⟩
    exact freed after result.asked result.lives ⟨rest, newLaid⟩
  · rw [← Finset.union_insert, Finset.insert_erase held]
    exact laid.tiling
  · exact Finset.disjoint_of_subset_right (Finset.erase_subset _ _) laid.apart
  · exact fun found => Finset.disjoint_left.mp laid.apart found held

/-- A header without a size keeps the one it has. -/
theorem slobFree_meets {owned : Finset Nat} {block : Nat} (laid : Laid heap free live owned)
    (room : free.card < heap.limit) (zero : 0 ∉ owned) (held : block ∈ live) (returns : Returns heap block)
    (same : size = 0 \/ heap.units block = slobUnits size) {done : Unit -> Heap -> Prop}
    (freed : forall after, after.asked = heap.asked ->
      (forall other, other ∈ live.erase block -> after.units other = heap.units other) ->
      (Exists fun rest => Laid after rest (live.erase block) owned) -> done () after) :
    Meets (slobFree block size) heap ⟨done, fail, stop⟩ := by
  have nonzero : block ≠ 0 := by
    rintro rfl
    exact zero (laid.tiling.subset (Finset.mem_union_right _ held))
  unfold slobFree
  rw [if_neg nonzero]
  split
  · rename_i given
    unfold setUnits
    simp only [meets_bind, meets_modify]
    rw [← same.resolve_left given, Function.update_eq_self]
    exact slobInsert_frees laid room held returns freed
  · exact slobInsert_frees laid room held returns freed

theorem kfree_meets {owned : Finset Nat} {pointer : Nat} (laid : Laid heap free live owned)
    (room : free.card < heap.limit) (zero : 0 ∉ owned) (held : pointer - slobUnit ∈ live)
    (returns : Returns heap (pointer - slobUnit)) {done : Unit -> Heap -> Prop}
    (freed : forall after, after.asked = heap.asked ->
      (forall block, block ∈ live.erase (pointer - slobUnit) -> after.units block = heap.units block) ->
      (Exists fun rest => Laid after rest (live.erase (pointer - slobUnit)) owned) -> done () after) :
    Meets (kfree pointer) heap ⟨done, fail, stop⟩ := by
  have nonzero : pointer ≠ 0 := by
    rintro rfl
    exact zero (laid.tiling.subset (Finset.mem_union_right _ held))
  unfold kfree
  rw [if_neg nonzero]
  exact slobFree_meets laid room zero held returns (.inl rfl) freed

/-! ## The client -/

/-- A block that the client holds. -/
structure Live where
  pointer : Nat
  size : Nat
deriving DecidableEq, Repr

def Live.block (held : Live) : Nat := held.pointer - slobUnit

structure Client where
  heap : Heap
  live : List Live

namespace Client

def blocks (client : Client) : Finset Nat := (client.live.map Live.block).toFinset

end Client

inductive Event where
  | kmalloc (size : Nat)
  | kfree (pointer : Nat)
  /-- A store of the client, and what the maps of headers then say there -/
  | write (address units next : Nat)

def step (answer : Nat -> Option Nat) (client : Client) : Event -> Option Client
  | .kmalloc size =>
      match kmalloc answer size client.heap with
      | .done pointer heap => some ⟨heap, if pointer = 0 then client.live else ⟨pointer, size⟩ :: client.live⟩
      | _ => none
  | .kfree pointer =>
      match kfree pointer client.heap with
      | .done _ heap => some ⟨heap, client.live.filter (fun held => held.pointer ≠ pointer)⟩
      | _ => none
  | .write address units next =>
      some ⟨{ client.heap with
        units := Function.update client.heap.units address units
        next := Function.update client.heap.next address next }, client.live⟩

def machine (answer : Nat -> Option Nat) : Machine Client Event where
  step := step answer

/-- The state before the first call: `slobfree` is the static `arena`. -/
def boot (arena : Nat) : Client where
  heap := {
    units := Function.update (fun _ => 0) arena 1
    next := Function.update (fun _ => 0) arena arena
    slobfree := arena
    asked := 0 }
  live := []

/-- The small-block path admits the size, the pointer is live, and a store stays
inside of a live block.  It may not go to the header, which holds the size that
`kfree` reads. -/
def Called (client : Client) : Event -> Prop
  | .kmalloc size => size + slobUnit + slobUnit < pageSize
  | .kfree pointer => Exists fun held => held ∈ client.live /\ held.pointer = pointer
  | .write address _ _ => Exists fun held => held ∈ client.live /\ held.block < address /\
      address < held.block + client.heap.width held.block

instance (client : Client) (event : Event) : Decidable (Called client event) :=
  match event with
  | .kmalloc _ => inferInstanceAs (Decidable (_ < _))
  | .kfree _ => inferInstanceAs (Decidable (Exists _))
  | .write .. => inferInstanceAs (Decidable (Exists _))

/-- The free list has a second entry where the event needs one.  An only entry is
its own successor, so that unlinking it or merging with it leaves it on the
list. -/
def SecondEntry (answer : Nat -> Option Nat) (client : Client) : Event -> Prop
  | .kmalloc size => Serves answer client.heap size
  | .kfree pointer => Returns client.heap (pointer - slobUnit)
  | .write .. => True

instance (client : Client) (event : Event) : Decidable (SecondEntry answer client event) :=
  match event with
  | .kmalloc _ => inferInstanceAs (Decidable (Serves ..))
  | .kfree _ => inferInstanceAs (Decidable (Returns ..))
  | .write .. => inferInstanceAs (Decidable True)

/-- The free entries are in a circle in address order and do not touch.  They
and the live blocks tile the memory obtained, and each live block has the bytes
asked for after its header. -/
structure Sound (answer : Nat -> Option Nat) (arena : Nat) (client : Client) : Prop where
  laid : Exists fun free => Laid client.heap free client.blocks (owned answer arena client.heap.asked)
  distinct : (client.live.map Live.block).Nodup
  room : forall held, held ∈ client.live -> slobUnit <= held.pointer /\
    held.pointer + held.size <= held.block + client.heap.width held.block

theorem mem_blocks {client : Client} {held : Live} (member : held ∈ client.live) : held.block ∈ client.blocks :=
  List.mem_toFinset.mpr (List.mem_map_of_mem member)

theorem width_boot (arena : Nat) : (boot arena).heap.width arena = slobUnit := by
  unfold Heap.width boot
  dsimp only
  rw [Function.update_self]
  rfl

theorem laid_boot (arena : Nat) : Laid (boot arena).heap {arena} ∅ (owned answer arena 0) where
  circle := {
    closed := fun entry found => by
      rw [Finset.mem_singleton.mp found, boot]
      dsimp only
      rw [Function.update_self]
      exact Finset.mem_singleton_self arena
    empty := fun entry other found present => by
      rw [Finset.mem_singleton.mp found, Finset.mem_singleton.mp present, boot]
      unfold Between
      omega }
  start := Finset.mem_singleton_self arena
  tiling := by
    rw [Finset.union_empty]
    constructor
    · intro block found
      rw [Finset.mem_singleton.mp found, width_boot]
      decide
    · intro block other found present below
      rw [Finset.mem_singleton.mp found, Finset.mem_singleton.mp present] at below
      omega
    · intro address
      rw [owned, Finset.mem_Ico]
      constructor
      · intro inside
        refine ⟨arena, Finset.mem_singleton_self arena, inside.1, ?_⟩
        rw [width_boot]
        exact inside.2
      · rintro ⟨block, found, low, high⟩
        rw [Finset.mem_singleton.mp found] at low high
        rw [width_boot] at high
        exact ⟨low, high⟩
  apart := Finset.disjoint_empty_right _
  gaps := fun entry other found present => by
    rw [Finset.mem_singleton.mp found, Finset.mem_singleton.mp present, width_boot]
    unfold slobUnit
    omega

theorem sound_boot : Sound answer arena (boot arena) where
  laid := ⟨{arena}, laid_boot arena⟩
  distinct := List.nodup_nil
  room := fun _ found => nomatch found

theorem kmalloc_sound (fresh : FreshPages answer arena) {client : Client} (sound : Sound answer arena client)
    (small : size + slobUnit + slobUnit < pageSize) (serves : Serves answer client.heap size) :
    Exists fun next => step answer client (.kmalloc size) = some next /\ Sound answer arena next := by
  rcases sound.laid with ⟨free, laid⟩
  have met : Meets (kmalloc answer size) client.heap ⟨fun pointer after =>
      Sound answer arena ⟨after, if pointer = 0 then client.live else ⟨pointer, size⟩ :: client.live⟩,
      fun _ _ => False, fun _ => False⟩ := by
    apply kmalloc_meets fresh laid small serves
    · intro none
      refine ⟨⟨free, ?_⟩, sound.distinct, sound.room⟩
      rw [owned, none, pageSpan, Finset.union_empty]
      exact ⟨laid.circle, laid.start, laid.tiling, laid.apart, laid.gaps⟩
    · intro cur after given
      have blocks : (⟨after, ⟨cur + slobUnit, size⟩ :: client.live⟩ : Client).blocks = insert cur client.blocks := by
        unfold Client.blocks
        rw [List.map_cons, List.toFinset_cons]
        rfl
      rw [if_neg (by unfold slobUnit; omega)]
      constructor
      · rw [blocks]
        exact given.laid
      · rw [List.map_cons, List.nodup_cons]
        exact ⟨fun found => given.absent (List.mem_toFinset.mpr found), sound.distinct⟩
      · intro held member
        rcases List.mem_cons.mp member with new | old
        · rw [new]
          unfold Live.block Heap.width
          dsimp only
          rw [Nat.add_sub_cancel, given.fits]
          unfold slobUnits slobUnit
          omega
        · have same := given.lives held.block (mem_blocks old)
          unfold Heap.width
          dsimp only
          rw [same]
          exact sound.room held old
  rcases met.returned with ⟨pointer, after, ran, holds⟩
  refine ⟨_, ?_, holds⟩
  unfold step
  dsimp only
  rw [ran]

theorem kfree_sound (fresh : FreshPages answer arena) {client : Client} (sound : Sound answer arena client)
    {pointer : Nat} (held : Exists fun held => held ∈ client.live /\ held.pointer = pointer)
    (returns : Returns client.heap (pointer - slobUnit)) :
    Exists fun next => step answer client (.kfree pointer) = some next /\ Sound answer arena next := by
  rcases sound.laid with ⟨free, laid⟩
  rcases held with ⟨held, member, rfl⟩
  -- pointers and headers determine each other
  have only : forall other, other ∈ client.live -> (other.pointer ≠ held.pointer <-> other.block ≠ held.block) := by
    intro other found
    have first := (sound.room other found).1
    have second := (sound.room held member).1
    unfold Live.block
    omega
  have blocks : forall after : Heap,
      (⟨after, client.live.filter (fun other => other.pointer ≠ held.pointer)⟩ : Client).blocks =
        client.blocks.erase held.block := by
    intro after
    ext block
    unfold Client.blocks
    rw [List.mem_toFinset, Finset.mem_erase, List.mem_toFinset, List.mem_map, List.mem_map]
    constructor
    · rintro ⟨other, found, rfl⟩
      rcases List.mem_filter.mp found with ⟨present, different⟩
      exact ⟨(only other present).mp (of_decide_eq_true different), other, present, rfl⟩
    · rintro ⟨different, other, found, rfl⟩
      exact ⟨other, List.mem_filter.mpr ⟨found, decide_eq_true ((only other found).mpr different)⟩, rfl⟩
  have met : Meets (kfree held.pointer) client.heap ⟨fun _ after =>
      Sound answer arena ⟨after, client.live.filter (fun other => other.pointer ≠ held.pointer)⟩,
      fun _ _ => False, fun _ => False⟩ := by
    apply kfree_meets laid laid.card_lt (fresh.zero_notMem _) (mem_blocks member) returns
    intro after asked lives rest
    constructor
    · rw [blocks, asked]
      exact rest
    · exact sound.distinct.sublist (List.filter_sublist.map _)
    · intro other found
      rcases List.mem_filter.mp found with ⟨present, different⟩
      have stays := lives other.block (Finset.mem_erase.mpr
        ⟨(only other present).mp (of_decide_eq_true different), mem_blocks present⟩)
      unfold Heap.width
      dsimp only
      rw [stays]
      exact sound.room other present
  rcases met.returned with ⟨_, after, ran, holds⟩
  refine ⟨_, ?_, holds⟩
  unfold step
  dsimp only
  rw [ran]

/-- A store at no header leaves the heap laid out. -/
theorem Laid.write {owned : Finset Nat} (laid : Laid heap free live owned) {address units next : Nat}
    (other : forall block, block ∈ free ∪ live -> block ≠ address) :
    Laid { heap with
      units := Function.update heap.units address units
      next := Function.update heap.next address next } free live owned := by
  have width : forall block, block ∈ free ∪ live ->
      slobUnit * Function.update heap.units address units block = heap.width block := by
    intro block found
    rw [Function.update_of_ne (other block found)]
    rfl
  refine ⟨?_, laid.start, laid.tiling.congr width, laid.apart, ?_⟩
  · apply laid.circle.congr
    intro entry found
    exact Function.update_of_ne (other entry (Finset.mem_union_left _ found)) _ _
  · intro entry another found present
    have same := width entry (Finset.mem_union_left _ found)
    unfold Heap.width
    dsimp only
    rw [same]
    exact laid.gaps entry another found present

/-- No header lies inside of a live block. -/
theorem Laid.inside {owned : Finset Nat} (laid : Laid heap free live owned) {address held : Nat} (member : held ∈ live)
    (low : held < address) (high : address < held + heap.width held) :
    forall block, block ∈ free ∪ live -> block ≠ address := by
  rintro block found rfl
  have wide := laid.tiling.positive _ found
  have same := laid.tiling.unique found (Finset.mem_union_right _ member) (Nat.le_refl _) (by omega)
    (Nat.le_of_lt low) high
  omega

/-- A store inside of a live block is at no header. -/
theorem write_sound {client : Client} (sound : Sound answer arena client) {address units next : Nat}
    (inside : Exists fun held => held ∈ client.live /\ held.block < address /\
      address < held.block + client.heap.width held.block) :
    Exists fun after => step answer client (.write address units next) = some after /\ Sound answer arena after := by
  refine ⟨_, rfl, ?_⟩
  rcases sound.laid with ⟨free, laid⟩
  rcases inside with ⟨held, member, low, high⟩
  have other := laid.inside (mem_blocks member) low high
  constructor
  · exact ⟨free, laid.write other⟩
  · exact sound.distinct
  · intro one found
    unfold Heap.width
    dsimp only
    rw [Function.update_of_ne (other one.block (Finset.mem_union_right _ (mem_blocks found)))]
    exact sound.room one found

/-- Every run of calls on a free list with a second entry where it is needed
returns, and leaves the heap laid out. -/
theorem heap_stays_laid (fresh : FreshPages answer arena) (events : List Event)
    (along : (machine answer).Along (fun client event => Called client event /\ SecondEntry answer client event)
      (boot arena) events) :
    Exists fun last => (machine answer).run (boot arena) events = some last /\ Sound answer arena last := by
  apply Machine.run_returns _ sound_boot along
  rintro client (size | pointer | ⟨address, units, next⟩) sound ⟨called, second⟩
  · exact kmalloc_sound fresh sound called second
  · exact kfree_sound fresh sound called second
  · exact write_sound sound called

/-! ## A page from the allocator -/

/-- The page allocator has one page. -/
def onePage : Nat -> Option Nat
  | 0 => some 4096
  | _ => none

theorem onePage_fresh : FreshPages onePage 16 where
  nonzero := by decide
  page := fun asked page answered => by
    cases asked with
    | succ asked => cases answered
    | zero =>
        cases answered
        refine ⟨by decide, ?_⟩
        rw [owned, Finset.disjoint_left]
        intro address low high
        rw [Finset.mem_Ico] at low high
        unfold slobUnit at low
        omega

/-- Three blocks of which the middle one is freed, a request for a block that
does not fit, and the first block freed. -/
def someCalls : List Event :=
  [.kmalloc 100, .kmalloc 40, .kmalloc 0, .kfree 4240, .write 4128 7 8, .kmalloc 3900, .kfree 4112]

theorem someCalls_laid :
    Exists fun last => (machine onePage).run (boot 16) someCalls = some last /\ Sound onePage 16 last :=
  heap_stays_laid onePage_fresh someCalls (by decide +kernel)

/-- Two requests for no bytes both get the static unit. -/
theorem emptyBlocks_coincide : ¬ forall events : List Event, (machine onePage).Along Called (boot 16) events ->
    Exists fun last => (machine onePage).run (boot 16) events = some last /\ Sound onePage 16 last := by
  intro claim
  rcases claim [.kmalloc 0, .kmalloc 0] (by decide +kernel) with ⟨last, ran, sound⟩
  have live : ((machine onePage).run (boot 16) [.kmalloc 0, .kmalloc 0]).map Client.live =
      some [⟨32, 0⟩, ⟨32, 0⟩] := by decide +kernel
  rw [ran] at live
  have distinct := sound.distinct
  rw [Option.some.inj live] at distinct
  exact absurd distinct (by decide)

end Slob
end Ucore
