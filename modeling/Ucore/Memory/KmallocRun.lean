import Mathlib.Data.List.Perm.Basic
import Ucore.Memory.Kmalloc

set_option linter.style.nameCheck false

namespace Ucore
namespace Kmalloc

open Library
open Program
open Slob

/-!
# Large blocks in use

A client allocates and frees blocks of both kinds, and writes to the bytes it
asked for.  The records are live blocks of the small-block heap.  The pages of
a large block are apart from the heap and from those of every other large
block, so that what the client holds is apart as long as `find_order` does not
truncate a size.
-/

variable {answer : Nat -> Option Nat} {pages : Store -> Nat -> Option Nat} {arena size : Nat}

/-- The pages of a large block -/
def BigBlock.span (bb : BigBlock) : Span := ⟨bb.pages, pageSize * 2 ^ bb.order⟩

instance : Std.Symm (fun bb other : BigBlock => bb.span.Apart other.span) := ⟨fun _ _ => Span.Apart.symm⟩

/-- No address of the set is in the pages. -/
def Outside (owned : Finset Nat) (span : Span) : Prop :=
  forall address, address ∈ owned -> ¬ (span.start <= address /\ address < span.start + span.size)

/-- Pages that are neither in the heap nor in a large block. -/
structure Unused (owned : Finset Nat) (bigblocks : List BigBlock) (bb : BigBlock) : Prop where
  nonzero : 0 < bb.pages
  aligned : bb.pages % pageSize = 0
  outside : Outside owned bb.span
  apart : forall other, other ∈ bigblocks -> bb.span.Apart other.span

/-- The page allocator returns unused pages for a large block.  It may also
return none, at any time. -/
def FreshBlocks (answer : Nat -> Option Nat) (pages : Store -> Nat -> Option Nat) (arena : Nat) : Prop :=
  forall store record order block, pages store order = some block ->
    Unused (owned answer arena store.heap.asked) store.bigblocks ⟨record, order, block⟩

/-! ## The client -/

structure Client where
  store : Store
  small : List Live
  large : List Live

namespace Client

def live (client : Client) : List Live := client.small ++ client.large

/-- The client holds what it was given, unless that is nothing. -/
def receive (client : Client) (size pointer : Nat) (store : Store) : Client :=
  if pointer = 0 then { client with store := store }
  else if size < pageSize - slobUnit then ⟨store, ⟨pointer, size⟩ :: client.small, client.large⟩
  else ⟨store, client.small, ⟨pointer, size⟩ :: client.large⟩

theorem receive_null (client : Client) (store : Store) : client.receive size 0 store = { client with store := store } :=
  if_pos rfl

theorem receive_small (client : Client) {pointer : Nat} {store : Store} (nonzero : pointer ≠ 0)
    (less : size < pageSize - slobUnit) :
    client.receive size pointer store = ⟨store, ⟨pointer, size⟩ :: client.small, client.large⟩ := by
  unfold receive
  rw [if_neg nonzero, if_pos less]

theorem receive_large (client : Client) {pointer : Nat} {store : Store} (nonzero : pointer ≠ 0)
    (more : ¬ size < pageSize - slobUnit) :
    client.receive size pointer store = ⟨store, client.small, ⟨pointer, size⟩ :: client.large⟩ := by
  unfold receive
  rw [if_neg nonzero, if_neg more]

def drop (client : Client) (pointer : Nat) (store : Store) : Client where
  store := store
  small := client.small.filter (fun held => held.pointer ≠ pointer)
  large := client.large.filter (fun held => held.pointer ≠ pointer)

def write (client : Client) (address units next : Nat) : Client :=
  { client with
    store := { client.store with
      heap := { client.store.heap with
        units := Function.update client.store.heap.units address units
        next := Function.update client.store.heap.next address next } } }

end Client

/-- The bytes that the client asked for -/
def bytes (held : Live) : Span := ⟨held.pointer, held.size⟩

def step (answer : Nat -> Option Nat) (pages : Store -> Nat -> Option Nat) (client : Client) : Event -> Option Client
  | .kmalloc size =>
      match __kmalloc answer pages size client.store with
      | .done pointer store => some (client.receive size pointer store)
      | _ => none
  | .kfree pointer =>
      match kfree pointer client.store with
      | .done _ store => some (client.drop pointer store)
      | _ => none
  | .write address units next => some (client.write address units next)

def machine (answer : Nat -> Option Nat) (pages : Store -> Nat -> Option Nat) : Machine Client Event where
  step := step answer pages

def boot (arena : Nat) : Client := ⟨⟨(Slob.boot arena).heap, []⟩, [], []⟩

/-- The bits of a size bound the order. -/
theorem order_le_log {order : Nat} (above : pageSize * 2 ^ order < size) : order <= size.log2 := by
  have wide : 2 ^ order <= pageSize * 2 ^ order := Nat.le_mul_of_pos_left _ (by decide)
  exact (Nat.le_log2 (Nat.ne_zero_of_lt above)).mpr (Nat.le_of_lt (Nat.lt_of_le_of_lt wide above))

instance : Decidable (Truncated size) :=
  decidable_of_iff (Exists fun order => order <= size.log2 /\
      0 < order /\ pageSize * 2 ^ order < size /\ size < (pageSize + 1) * 2 ^ order)
    ⟨fun ⟨order, _, holds⟩ => ⟨order, holds⟩, fun ⟨order, holds⟩ => ⟨order, order_le_log holds.2.1, holds⟩⟩

/-- The size is not between the two bounds, where an assertion fails, and not
truncated, where the block is too small.  A pointer that is freed names one live
block, and a store goes to the bytes of a live block: that is what a caller of
`malloc` may do. -/
def Called (client : Client) : Event -> Prop
  | .kmalloc size => size + slobUnit + slobUnit < pageSize \/
      pageSize <= size + slobUnit /\ size <= 2 ^ 30 /\ ¬ Truncated size
  | .kfree pointer => Exists fun held => held ∈ client.live /\ held.pointer = pointer /\
      forall other, other ∈ client.live -> other.pointer = pointer -> other = held
  | .write address _ _ => Exists fun held => held ∈ client.live /\ held.pointer <= address /\
      address < held.pointer + held.size

instance (client : Client) (event : Event) : Decidable (Called client event) :=
  match event with
  | .kmalloc _ => inferInstanceAs (Decidable (_ \/ _))
  | .kfree _ => inferInstanceAs (Decidable (Exists _))
  | .write .. => inferInstanceAs (Decidable (Exists _))

/-- The size of the request that the heap gets, without the first unit. -/
def requested (size : Nat) : Nat := if size < pageSize - slobUnit then size else bigblockSize - slobUnit

/-- The block of the heap that is given back. -/
def returned (store : Store) (pointer : Nat) : Nat := (recordOf store pointer).elim (pointer - slobUnit) BigBlock.record

/-- A page for the heap is not in a large block. -/
def Spared (answer : Nat -> Option Nat) (store : Store) : Prop :=
  forall page, page ∈ (answer store.heap.asked).toList ->
    forall bb, bb ∈ store.bigblocks -> bb.span.Apart ⟨page, pageSize⟩

/-- The free list has a second entry where the event needs one, and a page for
the heap is a fresh one.  An only entry is its own successor, so that unlinking
it or merging with it leaves it on the list. -/
def SecondEntry (answer : Nat -> Option Nat) (client : Client) : Event -> Prop
  | .kmalloc size => Serves answer client.store.heap (requested size) /\ Spared answer client.store
  | .kfree pointer => Returns client.store.heap (returned client.store pointer)
  | .write .. => True

instance (client : Client) (event : Event) : Decidable (SecondEntry answer client event) :=
  match event with
  | .kmalloc _ => inferInstanceAs (Decidable (_ /\ forall page, page ∈ _ -> forall bb, bb ∈ _ -> _))
  | .kfree _ => inferInstanceAs (Decidable (Returns ..))
  | .write .. => inferInstanceAs (Decidable True)

/-! ## What holds in every state -/

/-- The headers of the small blocks, and the records -/
def headers (small : List Live) (bigblocks : List BigBlock) : List Nat :=
  small.map Live.block ++ bigblocks.map BigBlock.record

/-- The heap is laid out around the small blocks and the records. -/
structure HeapSound (answer : Nat -> Option Nat) (arena : Nat) (heap : Heap) (small : List Live)
    (bigblocks : List BigBlock) : Prop where
  laid : Exists fun free => Laid heap free (headers small bigblocks).toFinset (owned answer arena heap.asked)
  distinct : (headers small bigblocks).Nodup
  room : forall held, held ∈ small -> slobUnit <= held.pointer /\
    held.pointer + held.size <= held.block + heap.width held.block
  records : forall bb, bb ∈ bigblocks -> heap.units bb.record = slobUnits bigblockSize

/-- The pages of large blocks are apart from each other and from the heap, and
each large block that the client holds has its bytes there. -/
structure PagesSound (owned : Finset Nat) (bigblocks : List BigBlock) (large : List Live) : Prop where
  aligned : forall bb, bb ∈ bigblocks -> 0 < bb.pages /\ bb.pages % pageSize = 0
  outside : forall bb, bb ∈ bigblocks -> Outside owned bb.span
  apart : bigblocks.Pairwise (fun bb other => bb.span.Apart other.span)
  backed : forall held, held ∈ large -> Exists fun bb =>
    bb ∈ bigblocks /\ bb.pages = held.pointer /\ held.size <= bb.span.size
  used : forall bb, bb ∈ bigblocks -> Exists fun held => held ∈ large /\ held.pointer = bb.pages
  single : (large.map Live.pointer).Nodup

structure Sound (answer : Nat -> Option Nat) (arena : Nat) (client : Client) : Prop where
  heap : HeapSound answer arena client.store.heap client.small client.store.bigblocks
  pages : PagesSound (owned answer arena client.store.heap.asked) client.store.bigblocks client.large
  less : forall held, held ∈ client.small -> held.size < pageSize - slobUnit
  more : forall held, held ∈ client.large -> ¬ held.size < pageSize - slobUnit

theorem headers_push (small : List Live) (bigblocks : List BigBlock) (bb : BigBlock) :
    (headers small (bb :: bigblocks)).Perm (bb.record :: headers small bigblocks) := List.perm_middle

namespace HeapSound

variable {heap after : Heap} {small rest : List Live} {bigblocks others : List BigBlock} {block cur : Nat}

theorem mem_headers {bb : BigBlock} (member : bb ∈ bigblocks) : bb.record ∈ headers small bigblocks :=
  List.mem_append_right _ (List.mem_map_of_mem member)

theorem mem_blocks {held : Live} (member : held ∈ small) : held.block ∈ headers small bigblocks :=
  List.mem_append_left _ (List.mem_map_of_mem member)

/-- A new live block keeps the rest of the heap. -/
theorem given (sound : HeapSound answer arena heap small bigblocks)
    (result : Given answer arena heap after (headers small bigblocks).toFinset size cur)
    (same : (headers rest others).Perm (cur :: headers small bigblocks))
    (room : forall held, held ∈ rest -> held ∈ small \/ slobUnit <= held.pointer /\
      held.pointer + held.size <= held.block + after.width held.block)
    (records : forall bb, bb ∈ others -> bb ∈ bigblocks \/ after.units bb.record = slobUnits bigblockSize) :
    HeapSound answer arena after rest others where
  laid := by
    rw [List.toFinset_eq_of_perm _ _ same, List.toFinset_cons]
    exact result.laid
  distinct := by
    rw [same.nodup_iff, List.nodup_cons]
    exact ⟨fun found => result.absent (List.mem_toFinset.mpr found), sound.distinct⟩
  room := fun held member => by
    rcases room held member with old | new
    · unfold Heap.width
      rw [result.lives _ (List.mem_toFinset.mpr (mem_blocks old))]
      exact sound.room held old
    · exact new
  records := fun bb member => by
    rcases records bb member with old | new
    · rw [result.lives _ (List.mem_toFinset.mpr (mem_headers old))]
      exact sound.records bb old
    · exact new

/-- A block that is given back leaves the others. -/
theorem freed (sound : HeapSound answer arena heap small bigblocks)
    (same : (headers small bigblocks).Perm (block :: headers rest others))
    (fewer : forall held, held ∈ rest -> held ∈ small) (less : forall bb, bb ∈ others -> bb ∈ bigblocks)
    (asked : after.asked = heap.asked)
    (lives : forall other, other ∈ (headers small bigblocks).toFinset.erase block ->
      after.units other = heap.units other)
    (laid : Exists fun free => Laid after free ((headers small bigblocks).toFinset.erase block)
      (owned answer arena heap.asked)) : HeapSound answer arena after rest others := by
  have distinct := sound.distinct
  rw [same.nodup_iff, List.nodup_cons] at distinct
  have left : (headers small bigblocks).toFinset.erase block = (headers rest others).toFinset := by
    rw [List.toFinset_eq_of_perm _ _ same, List.toFinset_cons]
    exact Finset.erase_insert (fun found => distinct.1 (List.mem_toFinset.mp found))
  rw [left] at lives laid
  constructor
  · rw [asked]
    exact laid
  · exact distinct.2
  · intro held member
    unfold Heap.width
    rw [lives _ (List.mem_toFinset.mpr (mem_blocks member))]
    exact sound.room held (fewer held member)
  · intro bb member
    rw [lives _ (List.mem_toFinset.mpr (mem_headers member))]
    exact sound.records bb (less bb member)

/-- A request that is refused has at most moved the count. -/
theorem refused (sound : HeapSound answer arena heap small bigblocks) (none : answer heap.asked = none) :
    HeapSound answer arena { heap with asked := heap.asked + 1 } small bigblocks where
  laid := by
    rcases sound.laid with ⟨free, laid⟩
    refine ⟨free, ?_⟩
    rw [owned, none, pageSpan, Finset.union_empty]
    exact ⟨laid.circle, laid.start, laid.tiling, laid.apart, laid.gaps⟩
  distinct := sound.distinct
  room := sound.room
  records := sound.records

/-- A store of the client at no header -/
theorem write (sound : HeapSound answer arena heap small bigblocks) {address units next : Nat} {free : Finset Nat}
    (laid : Laid heap free (headers small bigblocks).toFinset (owned answer arena heap.asked))
    (other : forall block, block ∈ free ∪ (headers small bigblocks).toFinset -> block ≠ address) :
    HeapSound answer arena { heap with
      units := Function.update heap.units address units
      next := Function.update heap.next address next } small bigblocks where
  laid := ⟨free, laid.write other⟩
  distinct := sound.distinct
  room := fun held member => by
    unfold Heap.width
    dsimp only
    rw [Function.update_of_ne (other _ (Finset.mem_union_right _ (List.mem_toFinset.mpr (mem_blocks member))))]
    exact sound.room held member
  records := fun bb member => by
    dsimp only
    rw [Function.update_of_ne (other _ (Finset.mem_union_right _ (List.mem_toFinset.mpr (mem_headers member))))]
    exact sound.records bb member

end HeapSound

namespace PagesSound

variable {owned more : Finset Nat} {bigblocks : List BigBlock} {large : List Live} {bb : BigBlock} {pointer : Nat}

theorem grow (sound : PagesSound owned bigblocks large)
    (spared : forall bb, bb ∈ bigblocks -> Outside more bb.span) : PagesSound more bigblocks large where
  aligned := sound.aligned
  outside := spared
  apart := sound.apart
  backed := sound.backed
  used := sound.used
  single := sound.single

/-- Two large blocks have no common page. -/
theorem unique (sound : PagesSound owned bigblocks large) {other : BigBlock} (member : bb ∈ bigblocks)
    (found : other ∈ bigblocks) (same : bb.pages = other.pages) : bb = other := by
  by_contra different
  have apart := sound.apart.forall member found different
  have wide := Nat.two_pow_pos bb.order
  have broad := Nat.two_pow_pos other.order
  unfold Span.Apart BigBlock.span pageSize at apart
  dsimp only at apart
  omega

theorem push (sound : PagesSound owned bigblocks large) (unused : Unused owned bigblocks bb)
    (covers : size <= bb.span.size) : PagesSound owned (bb :: bigblocks) (⟨bb.pages, size⟩ :: large) where
  aligned := List.forall_mem_cons.mpr ⟨⟨unused.nonzero, unused.aligned⟩, sound.aligned⟩
  outside := List.forall_mem_cons.mpr ⟨unused.outside, sound.outside⟩
  apart := List.pairwise_cons.mpr ⟨unused.apart, sound.apart⟩
  backed := List.forall_mem_cons.mpr ⟨⟨bb, List.mem_cons_self .., rfl, covers⟩, fun held member => by
    rcases sound.backed held member with ⟨other, found, rest⟩
    exact ⟨other, List.mem_cons_of_mem _ found, rest⟩⟩
  used := List.forall_mem_cons.mpr ⟨⟨_, List.mem_cons_self .., rfl⟩, fun other member => by
    rcases sound.used other member with ⟨held, found, same⟩
    exact ⟨held, List.mem_cons_of_mem _ found, same⟩⟩
  single := by
    rw [List.map_cons, List.nodup_cons]
    refine ⟨fun clash => ?_, sound.single⟩
    rcases List.mem_map.mp clash with ⟨held, member, pointed⟩
    rcases sound.backed held member with ⟨other, found, same, _⟩
    have apart := unused.apart other found
    have wide := Nat.two_pow_pos bb.order
    have broad := Nat.two_pow_pos other.order
    unfold Span.Apart BigBlock.span pageSize at apart
    dsimp only at apart pointed
    omega

/-- No block of the list starts at the pointer, or the one that does is
unlinked. -/
theorem drop (sound : PagesSound owned bigblocks large) {rest : List BigBlock}
    (same : forall bb, bb ∈ rest <-> bb ∈ bigblocks /\ bb.pages ≠ pointer) (fewer : rest.Sublist bigblocks) :
    PagesSound owned rest (large.filter (fun held => held.pointer ≠ pointer)) where
  aligned := fun bb member => sound.aligned bb ((same bb).mp member).1
  outside := fun bb member => sound.outside bb ((same bb).mp member).1
  apart := sound.apart.sublist fewer
  backed := fun held member => by
    rcases List.mem_filter.mp member with ⟨present, different⟩
    rcases sound.backed held present with ⟨bb, found, starts, covers⟩
    refine ⟨bb, (same bb).mpr ⟨found, ?_⟩, starts, covers⟩
    rw [starts]
    exact of_decide_eq_true different
  used := fun bb member => by
    rcases (same bb).mp member with ⟨found, different⟩
    rcases sound.used bb found with ⟨held, present, starts⟩
    refine ⟨held, List.mem_filter.mpr ⟨present, decide_eq_true ?_⟩, starts⟩
    rw [starts]
    exact different
  single := sound.single.sublist (List.filter_sublist.map _)

end PagesSound

/-! ## The steps -/

section Steps

variable {client : Client} {free : Finset Nat} {fail : Empty -> Store -> Prop} {stop : Fault -> Prop}

/-- The pages of the large blocks are not in a page that the heap obtains. -/
theorem outside_grown (sound : Sound answer arena client) (spared : Spared answer client.store) {after : Heap}
    (asked : after.asked = client.store.heap.asked \/ after.asked = client.store.heap.asked + 1) :
    PagesSound (owned answer arena after.asked) client.store.bigblocks client.large := by
  apply sound.pages.grow
  intro bb member address found inside
  rcases asked with same | more
  · rw [same] at found
    exact sound.pages.outside bb member address found inside
  · rw [more, owned, Finset.mem_union] at found
    rcases found with old | new
    · exact sound.pages.outside bb member address old inside
    · cases answered : answer client.store.heap.asked with
      | none =>
          rw [answered] at new
          exact Finset.notMem_empty _ new
      | some page =>
          have apart := spared page (by rw [answered]; exact List.mem_singleton_self page) bb member
          rw [answered, pageSpan, Finset.mem_Ico] at new
          unfold Span.Apart at apart
          dsimp only at apart
          omega

/-- What a request of the heap leaves, with the large blocks. -/
theorem Sound.refused (sound : Sound answer arena client) (spared : Spared answer client.store)
    (none : answer client.store.heap.asked = none) :
    Sound answer arena { client with
      store := { client.store with heap := { client.store.heap with asked := client.store.heap.asked + 1 } } } where
  heap := sound.heap.refused none
  pages := outside_grown sound spared (.inr rfl)
  less := sound.less
  more := sound.more

theorem kmallocSmall_sound (fresh : FreshPages answer arena) (sound : Sound answer arena client)
    (small : size + slobUnit + slobUnit < pageSize) (serves : Serves answer client.store.heap size)
    (spared : Spared answer client.store) :
    Meets (inHeap (Slob.kmalloc answer size)) client.store
      ⟨fun pointer store => Sound answer arena (client.receive size pointer store), fail, stop⟩ := by
  rcases sound.heap.laid with ⟨free, laid⟩
  have less : size < pageSize - slobUnit := by omega
  unfold inHeap
  rw [meets_zoom]
  apply kmalloc_meets fresh laid small serves
  · intro none
    dsimp only
    rw [client.receive_null]
    exact sound.refused spared none
  · intro cur after result
    have nonzero : cur + slobUnit ≠ 0 := by
      unfold slobUnit
      omega
    dsimp only
    rw [client.receive_small nonzero less]
    constructor
    · apply sound.heap.given result
      · unfold headers Live.block
        rw [List.map_cons, Nat.add_sub_cancel]
        exact List.Perm.refl _
      · intro held member
        rcases List.mem_cons.mp member with new | old
        · right
          rw [new]
          unfold Live.block Heap.width
          dsimp only
          rw [Nat.add_sub_cancel, result.fits]
          unfold slobUnits slobUnit
          omega
        · exact .inl old
      · exact fun bb member => .inl member
    · exact outside_grown sound spared result.asked
    · exact List.forall_mem_cons.mpr ⟨less, sound.less⟩
    · exact sound.more

/-- `find_order` covers a size that it does not truncate. -/
theorem covered (bound : size <= 2 ^ 30) (whole : ¬ Truncated size) (record block : Nat) :
    size <= (BigBlock.mk record (findOrder (toInt size)) block).span.size := by
  have spec := (@findOrder_spec size (by omega)).1
  unfold BigBlock.span
  dsimp only
  generalize findOrder (toInt size) = chosen at spec ⊢
  by_contra short
  refine whole ⟨chosen, ?_, Nat.lt_of_not_le short, spec⟩
  by_contra zero
  rw [Nat.eq_zero_of_not_pos zero, pow_zero, Nat.mul_one] at spec short
  omega

theorem kmallocLarge_sound (fresh : FreshPages answer arena) (blocks : FreshBlocks answer pages arena)
    (sound : Sound answer arena client) (large : pageSize <= size + slobUnit) (bound : size <= 2 ^ 30)
    (whole : ¬ Truncated size) (serves : Serves answer client.store.heap (bigblockSize - slobUnit))
    (spared : Spared answer client.store) :
    Meets (do
        let bb <- inHeap (slobAlloc answer bigblockSize)
        allocBig pages size bb) client.store
      ⟨fun pointer store => Sound answer arena (client.receive size pointer store), fail, stop⟩ := by
  rcases sound.heap.laid with ⟨free, laid⟩
  have more : ¬ size < pageSize - slobUnit := by omega
  unfold inHeap
  simp only [meets_bind, meets_zoom]
  apply slobAlloc_meets fresh laid (by decide) serves
  · intro none
    unfold allocBig
    rw [if_pos rfl, meets_pure]
    dsimp only
    rw [client.receive_null]
    exact sound.refused spared none
  · intro cur after result
    unfold allocBig
    rw [if_neg (result.nonzero fresh)]
    simp only [meets_bind, meets_get]
    have grown := outside_grown sound spared result.asked
    -- the record is live, whatever becomes of it
    have held : forall order block,
        HeapSound answer arena after client.small (⟨cur, order, block⟩ :: client.store.bigblocks) := by
      intro order block
      apply sound.heap.given result (headers_push _ _ _)
      · exact fun held member => .inl member
      · intro bb member
        rcases List.mem_cons.mp member with new | old
        · rw [new]
          exact .inr result.fits
        · exact .inl old
    cases answered : pages { client.store with heap := after } (findOrder (toInt size)) with
    | none =>
        unfold recordPages inHeap
        have record := held 0 0
        rcases record.laid with ⟨rest, laidAfter⟩
        simp only [meets_bind, meets_zoom, meets_pure, client.receive_null]
        apply slobFree_meets laidAfter laidAfter.card_lt (fresh.zero_notMem _)
          (List.mem_toFinset.mpr (HeapSound.mem_headers (List.mem_cons_self ..))) result.returns (.inr result.fits)
        intro final asked lives freed
        have kept : HeapSound answer arena final client.small client.store.bigblocks :=
          record.freed (headers_push _ _ _) (fun _ member => member) (fun _ member => List.mem_cons_of_mem _ member)
            asked lives freed
        refine ⟨kept, ?_, sound.less, sound.more⟩
        dsimp only
        rw [asked]
        exact grown
    | some block =>
        have unused := blocks { client.store with heap := after } cur _ _ answered
        unfold recordPages
        simp only [meets_bind, meets_modify, meets_pure]
        rw [client.receive_large (Nat.ne_of_gt unused.nonzero) more]
        exact ⟨held _ _, grown.push unused (covered bound whole _ _), sound.less,
          List.forall_mem_cons.mpr ⟨more, sound.more⟩⟩

/-- The pointer of a small block is that of no record. -/
theorem recordOf_small (sound : Sound answer arena client) {held : Live} (member : held ∈ client.small)
    (only : forall other, other ∈ client.live -> other.pointer = held.pointer -> other = held) :
    forall bb, bb ∈ client.store.bigblocks -> bb.pages ≠ held.pointer := by
  intro bb found same
  rcases sound.pages.used bb found with ⟨other, present, starts⟩
  have alike := only other (List.mem_append_right _ present) (starts.trans same)
  exact sound.more other present (alike ▸ sound.less held member)

theorem kfreeSmall_sound (fresh : FreshPages answer arena) (sound : Sound answer arena client) {held : Live}
    (member : held ∈ client.small)
    (only : forall other, other ∈ client.live -> other.pointer = held.pointer -> other = held)
    (returns : Returns client.store.heap (returned client.store held.pointer)) :
    Meets (kfree held.pointer) client.store
      ⟨fun _ store => Sound answer arena (client.drop held.pointer store), fail, stop⟩ := by
  rcases sound.heap.laid with ⟨free, laid⟩
  have notRecord := recordOf_small sound member only
  have absent : recordOf client.store held.pointer = none := by
    unfold recordOf
    split
    · rw [List.find?_eq_none]
      exact fun bb found => by simp [notRecord bb found]
    · rfl
  have nonzero : held.pointer ≠ 0 := by
    have above := (sound.heap.room held member).1
    unfold slobUnit at above
    omega
  unfold returned at returns
  rw [absent] at returns
  unfold kfree
  rw [if_neg nonzero]
  simp only [meets_bind, meets_get, absent]
  unfold release inHeap
  rw [meets_zoom]
  apply slobFree_meets laid laid.card_lt (fresh.zero_notMem _)
    (List.mem_toFinset.mpr (HeapSound.mem_blocks member)) returns (.inl rfl)
  intro after asked lives rest
  have distinct : client.small.Nodup := (List.nodup_append.mp sound.heap.distinct).1.of_map
  have left : client.small.filter (fun other => other.pointer ≠ held.pointer) = client.small.erase held := by
    rw [distinct.erase_eq_filter]
    apply List.filter_congr
    intro other found
    rw [Bool.eq_iff_iff, decide_eq_true_eq, bne_iff_ne]
    constructor
    · rintro different rfl
      exact different rfl
    · exact fun different same => different (only other (List.mem_append_left _ found) same)
  constructor
  · apply sound.heap.freed _ _ _ asked lives rest
    · unfold headers Client.drop
      dsimp only
      rw [left]
      exact ((List.perm_cons_erase member).map Live.block).append_right _
    · exact fun other found => (List.mem_filter.mp found).1
    · exact fun bb found => found
  · dsimp only [Client.drop]
    rw [asked]
    apply sound.pages.drop _ (List.Sublist.refl _)
    exact fun bb => ⟨fun found => ⟨found, notRecord bb found⟩, And.left⟩
  · exact fun other found => sound.less other (List.mem_filter.mp found).1
  · exact fun other found => sound.more other (List.mem_filter.mp found).1

theorem kfreeLarge_sound (fresh : FreshPages answer arena) (sound : Sound answer arena client) {held : Live}
    (member : held ∈ client.large)
    (only : forall other, other ∈ client.live -> other.pointer = held.pointer -> other = held)
    (returns : Returns client.store.heap (returned client.store held.pointer)) :
    Meets (kfree held.pointer) client.store
      ⟨fun _ store => Sound answer arena (client.drop held.pointer store), fail, stop⟩ := by
  rcases sound.heap.laid with ⟨free, laid⟩
  rcases sound.pages.backed held member with ⟨bb, found, starts, _⟩
  have start := sound.pages.aligned bb found
  have present : recordOf client.store held.pointer = some bb := by
    unfold recordOf
    rw [← starts, if_pos start.2]
    cases sought : client.store.bigblocks.find? (fun other => other.pages = bb.pages) with
    | none => simpa using List.find?_eq_none.mp sought bb found
    | some other =>
        have same := List.find?_some sought
        rw [decide_eq_true_eq] at same
        rw [sound.pages.unique (List.mem_of_find?_eq_some sought) found same]
  have nonzero : held.pointer ≠ 0 := by
    rw [← starts]
    exact Nat.ne_of_gt start.1
  unfold returned at returns
  rw [present] at returns
  unfold kfree
  rw [if_neg nonzero]
  simp only [meets_bind, meets_get, present]
  unfold release inHeap
  simp only [meets_bind, meets_modify, meets_zoom]
  apply slobFree_meets laid laid.card_lt (fresh.zero_notMem _)
    (List.mem_toFinset.mpr (HeapSound.mem_headers found)) returns (.inr (sound.heap.records bb found))
  intro after asked lives rest
  have distinct : client.store.bigblocks.Nodup := (List.nodup_append.mp sound.heap.distinct).2.1.of_map
  have small : client.small.filter (fun other => other.pointer ≠ held.pointer) = client.small := by
    rw [List.filter_eq_self]
    intro other present
    rw [decide_eq_true_eq]
    intro same
    have alike := only other (List.mem_append_left _ present) same
    exact sound.more held member (alike ▸ sound.less other present)
  constructor
  · apply sound.heap.freed _ _ _ asked lives rest
    · unfold headers Client.drop
      dsimp only
      rw [small]
      exact (((List.perm_cons_erase found).map BigBlock.record).append_left _).trans List.perm_middle
    · exact fun other present => (List.mem_filter.mp present).1
    · exact fun other present => List.mem_of_mem_erase present
  · dsimp only [Client.drop]
    rw [asked]
    apply sound.pages.drop _ List.erase_sublist
    intro other
    rw [distinct.mem_erase_iff, and_comm]
    constructor
    · rintro ⟨present, different⟩
      exact ⟨present, fun same => different (sound.pages.unique present found (same.trans starts.symm))⟩
    · rintro ⟨present, different⟩
      refine ⟨present, ?_⟩
      rintro rfl
      exact different starts
  · exact fun other found => sound.less other (List.mem_filter.mp found).1
  · exact fun other found => sound.more other (List.mem_filter.mp found).1

/-- A store to the bytes of a live block is at no header. -/
theorem write_sound (sound : Sound answer arena client) {address units next : Nat} {held : Live}
    (member : held ∈ client.live) (low : held.pointer <= address) (high : address < held.pointer + held.size) :
    Sound answer arena (client.write address units next) := by
  rcases sound.heap.laid with ⟨free, laid⟩
  refine ⟨sound.heap.write laid ?_, sound.pages, sound.less, sound.more⟩
  rcases List.mem_append.mp member with small | large
  · have room := sound.heap.room held small
    apply laid.inside (List.mem_toFinset.mpr (HeapSound.mem_blocks small))
    · unfold Live.block slobUnit at *
      omega
    · omega
  · rcases sound.pages.backed held large with ⟨bb, found, starts, covers⟩
    rintro block present rfl
    apply sound.pages.outside bb found _ (laid.tiling.subset present)
    unfold BigBlock.span at *
    dsimp only at *
    omega

theorem step_sound (fresh : FreshPages answer arena) (blocks : FreshBlocks answer pages arena) {event : Event}
    (sound : Sound answer arena client) (called : Called client event) (second : SecondEntry answer client event) :
    Exists fun next => step answer pages client event = some next /\ Sound answer arena next := by
  cases event with
  | kmalloc size =>
      have met : Meets (__kmalloc answer pages size) client.store
          ⟨fun pointer store => Sound answer arena (client.receive size pointer store), fun _ _ => False,
            fun _ => False⟩ := by
        unfold __kmalloc
        rcases called with small | ⟨large, bound, whole⟩
        · have less : size < pageSize - slobUnit := by omega
          rw [if_pos less]
          have serves := second.1
          rw [requested, if_pos less] at serves
          exact kmallocSmall_sound fresh sound small serves second.2
        · have more : ¬ size < pageSize - slobUnit := by omega
          rw [if_neg more]
          have serves := second.1
          rw [requested, if_neg more] at serves
          exact kmallocLarge_sound fresh blocks sound large bound whole serves second.2
      rcases met.returned with ⟨pointer, store, ran, holds⟩
      refine ⟨_, ?_, holds⟩
      unfold step
      dsimp only
      rw [ran]
  | kfree pointer =>
      rcases called with ⟨held, member, rfl, only⟩
      have met : Meets (kfree held.pointer) client.store
          ⟨fun _ store => Sound answer arena (client.drop held.pointer store), fun _ _ => False, fun _ => False⟩ := by
        rcases List.mem_append.mp member with small | large
        · exact kfreeSmall_sound fresh sound small only second
        · exact kfreeLarge_sound fresh sound large only second
      rcases met.returned with ⟨_, store, ran, holds⟩
      refine ⟨_, ?_, holds⟩
      unfold step
      dsimp only
      rw [ran]
  | write address units next =>
      rcases called with ⟨held, member, low, high⟩
      exact ⟨_, rfl, write_sound sound member low high⟩

end Steps

/-! ## What the client holds -/

/-- Each large block has at least the bytes asked for, and the bytes of all
live blocks are apart from each other. -/
structure Owns (client : Client) : Prop where
  covered : forall held, held ∈ client.large -> Exists fun bb =>
    bb ∈ client.store.bigblocks /\ bb.pages = held.pointer /\ held.size <= bb.span.size
  apart : client.live.Pairwise (fun held other => (bytes held).Apart (bytes other))

theorem sound_boot : Sound answer arena (boot arena) where
  heap := {
    laid := ⟨{arena}, laid_boot arena⟩
    distinct := List.nodup_nil
    room := fun _ found => nomatch found
    records := fun _ found => nomatch found }
  pages := {
    aligned := fun _ found => nomatch found
    outside := fun _ found => nomatch found
    apart := List.Pairwise.nil
    backed := fun _ found => nomatch found
    used := fun _ found => nomatch found
    single := List.nodup_nil }
  less := fun _ found => nomatch found
  more := fun _ found => nomatch found

/-- The bytes of a small block are in its block. -/
theorem HeapSound.within {heap : Heap} {small : List Live} {bigblocks : List BigBlock}
    (sound : HeapSound answer arena heap small bigblocks) {held : Live} (member : held ∈ small) {other : Span}
    (apart : Span.Apart ⟨held.block, heap.width held.block⟩ other) : (bytes held).Apart other := by
  have room := sound.room held member
  apply apart.within
  · exact Nat.sub_le _ _
  · exact room.2

theorem Sound.owns {client : Client} (sound : Sound answer arena client) : Owns client where
  covered := sound.pages.backed
  apart := by
    rcases sound.heap.laid with ⟨free, laid⟩
    have block : forall held, held ∈ client.small ->
      held.block ∈ free ∪ (headers client.small client.store.bigblocks).toFinset :=
      fun held member => Finset.mem_union_right _ (List.mem_toFinset.mpr (HeapSound.mem_blocks member))
    refine List.pairwise_append.mpr ⟨?_, ?_, ?_⟩
    · have distinct := List.pairwise_map.mp (List.nodup_append.mp sound.heap.distinct).1
      apply distinct.imp_of_mem
      intro held other member found different
      apply sound.heap.within member
      apply Span.Apart.symm
      apply sound.heap.within found
      rcases Nat.lt_or_gt_of_ne different with below | above
      · exact .inr (laid.tiling.apart _ _ (block held member) (block other found) below)
      · exact .inl (laid.tiling.apart _ _ (block other found) (block held member) above)
    · have distinct := List.pairwise_map.mp sound.pages.single
      apply distinct.imp_of_mem
      intro held other member found different
      rcases sound.pages.backed held member with ⟨bb, present, starts, covers⟩
      rcases sound.pages.backed other found with ⟨another, listed, begins, fits⟩
      have apart := sound.pages.apart.forall present listed (by
        rintro rfl
        exact different (starts.symm.trans begins))
      unfold Span.Apart bytes BigBlock.span at *
      dsimp only at *
      omega
    · intro held member other found
      apply sound.heap.within member
      rcases sound.pages.backed other found with ⟨bb, present, starts, covers⟩
      have apart := laid.tiling.apart_of_outside (Nat.mul_pos (by decide) (Nat.two_pow_pos _))
        (sound.pages.outside bb present) (block held member)
      unfold Span.Apart bytes BigBlock.span at *
      dsimp only at *
      omega

/-- A size that is not truncated is covered by the least order.  In every run
whose sizes are not truncated, on a free list with a second entry where it is
needed, a large block has the bytes asked for, and they are apart from those of
every other live block. -/
theorem findOrder_covers (fresh : FreshPages answer arena) (blocks : FreshBlocks answer pages arena) :
    (forall size, pageSize < size -> size <= 2 ^ 30 -> (Covers size <-> ¬ Truncated size)) /\
      forall events, (machine answer pages).Along
          (fun client event => Called client event /\ SecondEntry answer client event) (boot arena) events ->
        Exists fun last => (machine answer pages).run (boot arena) events = some last /\ Owns last := by
  refine ⟨fun size large bound => covers_iff large bound, fun events along => ?_⟩
  have ran : Exists fun last => (machine answer pages).run (boot arena) events = some last /\
    Sound answer arena last := by
    apply Machine.run_returns _ sound_boot along
    exact fun client event sound called => step_sound fresh blocks sound called.1 called.2
  rcases ran with ⟨last, reached, sound⟩
  exact ⟨last, reached, sound.owns⟩

/-- Two blocks of two pages, of which the first unused one is returned. -/
def twoBlocks (store : Store) (order : Nat) : Option Nat :=
  [2 ^ 20, 2 ^ 20 + 2 * pageSize].find? (fun block =>
    order <= 1 /\ forall bb, bb ∈ store.bigblocks -> (BigBlock.mk 0 order block).span.Apart bb.span)

theorem owned_onePage (asked address : Nat) (found : address ∈ owned onePage 16 asked) : address < 2 * pageSize := by
  induction asked with
  | zero =>
      rw [owned, Finset.mem_Ico] at found
      unfold slobUnit at found
      unfold pageSize
      omega
  | succ asked inductionHypothesis =>
      rw [owned, Finset.mem_union] at found
      rcases found with old | new
      · exact inductionHypothesis old
      · cases asked with
        | succ asked => exact absurd new (Finset.notMem_empty _)
        | zero => exact (Finset.mem_Ico.mp new).2

theorem twoBlocks_fresh : FreshBlocks onePage twoBlocks 16 := by
  intro store record order block answered
  unfold twoBlocks at answered
  have found := List.find?_some answered
  rw [decide_eq_true_eq] at found
  have place : block = 2 ^ 20 \/ block = 2 ^ 20 + 2 * pageSize := by
    simpa using List.mem_of_find?_eq_some answered
  constructor
  · dsimp only
    omega
  · unfold pageSize at *
    dsimp only
    omega
  · intro address owns inside
    have below := owned_onePage _ _ owns
    unfold BigBlock.span pageSize at *
    dsimp only at inside
    omega
  · exact found.2

/-- Small blocks, two large blocks of which the first is freed, and a third. -/
def mixedCalls : List Event :=
  [.kmalloc 100, .kmalloc 8192, .kmalloc 40, .kmalloc 5000, .write 1048577 7 8, .kfree 1048576, .kmalloc 4096,
    .kfree 4112]

theorem mixedCalls_covered :
    (Covers 8192 <-> ¬ Truncated 8192) /\
      Exists fun last => (machine onePage twoBlocks).run (boot 16) mixedCalls = some last /\ Owns last :=
  have covers := findOrder_covers onePage_fresh twoBlocks_fresh
  ⟨covers.1 8192 (by decide) (by decide), covers.2 mixedCalls (by decide +kernel)⟩

/-- One byte more than two pages gets two pages, and another block lies after
them. -/
theorem twoPages_overlap : ¬ Covers 8193 /\
    ((machine onePage twoBlocks).run (boot 16) [.kmalloc 100, .kmalloc 8193, .kmalloc 8192]).map Client.large =
      some [⟨1056768, 8192⟩, ⟨1048576, 8193⟩] /\
    ¬ (bytes ⟨1048576, 8193⟩).Apart (bytes ⟨1056768, 8192⟩) := by
  refine ⟨fun covers => absurd covers.1 (by decide), by decide +kernel, by decide⟩

end Kmalloc
end Ucore
