import Ucore.Exec.Steady

namespace Ucore
namespace Exec

open Library
open Program
open Vm

/-!
# The pages of a segment

While the pages of a segment are made, the pages below `la` are mapped and the
bytes below `start` are in place.  A new page raises `la`, a store to it raises
`start`, and nothing else of the address space changes.  The two loops and the
rest of the page between them are made of these two steps.
-/

variable {M : PmmManager} {File : Type} {d : Nat}

/-! ## Events -/

def PageEvent.allocates (la : Nat) : PageEvent -> Bool
  | .allocated place _ => place == la
  | _ => false

/-- How often a page was allocated for an address -/
def allocations (la : Nat) (events : List PageEvent) : Nat := events.countP (PageEvent.allocates la)

/-- The page allocated last -/
def newest : List PageEvent -> Option Nat
  | [] => none
  | .allocated _ page :: _ => some page
  | _ :: events => newest events

/-- Each store lies in the page allocated last. -/
def Contained : List PageEvent -> Prop
  | [] => True
  | .stored page off size :: events => newest events = some page /\ off + size <= pgSize /\ Contained events
  | _ :: events => Contained events

theorem allocations_stored (la page off size : Nat) (events : List PageEvent) :
    allocations la (.stored page off size :: events) = allocations la events :=
  List.countP_cons_of_neg Bool.false_ne_true

theorem allocations_same (la page : Nat) (events : List PageEvent) :
    allocations la (.allocated la page :: events) = allocations la events + 1 :=
  List.countP_cons_of_pos (beq_self_eq_true la)

theorem allocations_other {la place : Nat} (page : Nat) (events : List PageEvent) (other : place ≠ la) :
    allocations la (.allocated place page :: events) = allocations la events :=
  List.countP_cons_of_neg fun equal => other (eq_of_beq equal)

/-! ## What a segment should be -/

namespace Proghdr

/-- The byte of a segment: one of the file, or zero after them. -/
def byteAt (ph : Proghdr) (content : Nat -> UInt8) (index : Nat) : UInt8 :=
  if index < ph.pFilesz.toNat then content (ph.pOffset.toNat + index) else 0

/-- The loader makes pages for the segment. -/
def Loaded (ph : Proghdr) : Prop := ph.pType = elfPtLoad /\ ph.pMemsz ≠ 0

/-- The page at `la` holds a byte of the segment. -/
def Touches (ph : Proghdr) (la : Nat) : Prop := la < ph.pVa.toNat + ph.pMemsz.toNat /\ ph.pVa.toNat < la + pgSize

/-- The end of the segment is a machine word.  Where the sum overflows, the loops
of `load_icode` see an end below the start. -/
def Ends (ph : Proghdr) : Prop := ph.pVa.toNat + ph.pMemsz.toNat < 2 ^ 64

/-- The end of the last page -/
def lastEnd (ph : Proghdr) : Nat := lastPage ph.pVa ph.pMemsz

/-- The first page of the segment -/
def firstLa (ph : Proghdr) : Nat := firstPage ph.pVa

end Proghdr

namespace Proghdr

variable (ph : Proghdr)

theorem le_lastEnd : ph.pVa.toNat + ph.pMemsz.toNat <= ph.lastEnd := by
  unfold lastEnd lastPage pgSize
  omega

theorem firstLa_le : ph.firstLa <= ph.pVa.toNat := Nat.div_mul_le_self ..

theorem endAt_eq (ends : ph.Ends) : ph.endAt ph.pMemsz = ph.pVa.toNat + ph.pMemsz.toNat := by
  unfold endAt
  rw [UInt64.toNat_add, Nat.mod_eq_of_lt ends]

/-- Where the range is one of the user, its end is rounded without overflow. -/
theorem lastEnd_eq (ends : ph.Ends) (access : UserAccess (firstPage ph.pVa) (Vm.roundUp (ph.pVa + ph.pMemsz) 4096)) :
    Vm.roundUp (ph.pVa + ph.pMemsz) 4096 = ph.lastEnd := by
  have sum := ph.endAt_eq ends
  unfold endAt at sum
  unfold Ends at ends
  unfold UserAccess at access
  rw [roundUp_eq, sum] at access ⊢
  unfold lastEnd lastPage pgSize
  omega

end Proghdr

/-- The bytes of the segment are in place, and each of its pages has been
allocated once and is mapped, to a frame of its own. -/
structure Placed (content : Nat -> UInt8) (d : Nat) (ph : Proghdr) (loader : Loader M File) : Prop where
  bytes : forall index, index < ph.pMemsz.toNat ->
    loader.sys.userByte d (ph.pVa.toNat + index) = some (ph.byteAt content index)
  pages : forall la, la % pgSize = 0 -> ph.Touches la -> Exists fun page =>
    loader.sys.mapping (d, pageNumber la) = some (AddressSpaces.insertedPte page ph.perm) /\
      allocations la loader.events = 1 /\
      forall slot, loader.sys.mapped slot = some page -> slot = (d, pageNumber la)

/-! ## Changes within a range -/

/-- From one state to another, the user's part changes between two addresses
only. -/
structure Changes (d lo hi : Nat) (before after : Loader M File) : Prop where
  bytes : forall addr, addr < lo \/ hi <= addr -> after.sys.userByte d addr = before.sys.userByte d addr
  mapping : forall addr, addr < userTop -> addr < lo \/ hi <= addr ->
    after.sys.mapping (d, pageNumber addr) = before.sys.mapping (d, pageNumber addr)
  allocated : forall la, la < lo \/ hi <= la -> allocations la after.events = allocations la before.events

namespace Changes

variable {before middle after : Loader M File} {lo hi low high : Nat}

theorem refl (before : Loader M File) : Changes d lo hi before before :=
  ⟨fun _ _ => rfl, fun _ _ _ => rfl, fun _ _ => rfl⟩

theorem trans (first : Changes d lo hi before middle) (second : Changes d lo hi middle after) :
    Changes d lo hi before after where
  bytes := fun addr outside => (second.bytes addr outside).trans (first.bytes addr outside)
  mapping := fun addr top outside => (second.mapping addr top outside).trans (first.mapping addr top outside)
  allocated := fun la outside => (second.allocated la outside).trans (first.allocated la outside)

theorem mono (changes : Changes d lo hi before after) (below : low <= lo) (above : hi <= high) :
    Changes d low high before after where
  bytes := fun addr outside => changes.bytes addr (by omega)
  mapping := fun addr top outside => changes.mapping addr top (by omega)
  allocated := fun la outside => changes.allocated la (by omega)

theorem of_eq (mapping : after.sys.mapping = before.sys.mapping)
    (content : after.sys.frames.content = before.sys.frames.content) (events : after.events = before.events) :
    Changes d lo hi before after where
  bytes := fun addr _ => AddressSpaces.userByte_congr (by rw [mapping]) (fun _ _ => by rw [content])
  mapping := fun addr _ _ => by rw [mapping]
  allocated := fun la _ => by rw [events]

/-- A new page changes its own addresses. -/
theorem addsPage {loader : Loader M File} {next : AddressSpaces M} {la page : Nat} {perm : Pte}
    (adds : AddressSpaces.AddsPage loader.sys next d la page perm) (aligned : la % pgSize = 0) (top : la < userTop) :
    Changes d la (la + pgSize) loader ({ loader with sys := next }.note (.allocated la page)) := by
  have other : forall addr, addr < userTop -> addr < la \/ la + pgSize <= addr ->
      next.mapping (d, pageNumber addr) = loader.sys.mapping (d, pageNumber addr) := by
    intro addr low outside
    apply adds.mapping_other
    intro same
    have numbers := (AddressSpaces.pageNumber_eq_iff low top).mp (Prod.mk.inj same).2
    unfold pgSize at *
    omega
  constructor
  · intro addr outside
    change next.userByte d addr = loader.sys.userByte d addr
    by_cases low : addr < userTop
    · exact AddressSpaces.userByte_congr (other addr low outside) (fun _ _ => by rw [adds.content])
    · unfold AddressSpaces.userByte
      rw [if_neg low, if_neg low]
  · exact other
  · intro place outside
    exact allocations_other page loader.events (by unfold pgSize at *; omega)

/-- A store to a page changes the bytes it stores. -/
theorem stored {loader : Loader M File} (single : loader.sys.Private d) {pte : Pte} {la off size : Nat}
    (found : loader.sys.mapping (d, pageNumber la) = some pte) (aligned : la % pgSize = 0) (top : la < userTop)
    (fits : off + size <= pgSize) (bytes : Nat -> UInt8) :
    Changes d (la + off) (la + off + size) loader
      ({ loader with sys := loader.sys.storePage pte.ppn off size bytes }.note (.stored pte.ppn off size)) := by
  constructor
  · intro addr outside
    refine (AddressSpaces.userByte_storePage single found aligned top fits bytes addr).trans (if_neg ?_)
    omega
  · exact fun addr _ _ => rfl
  · exact fun place _ => allocations_stored place pte.ppn off size loader.events

/-- A segment elsewhere stays in place. -/
theorem placed (changes : Changes d lo hi before after) {content : Nat -> UInt8} {ph : Proghdr}
    (placed : Placed content d ph before) (single : after.sys.Private d)
    (top : ph.pVa.toNat + ph.pMemsz.toNat <= userTop)
    (aligned : lo % pgSize = 0) (apart : ph.pVa.toNat + ph.pMemsz.toNat <= lo \/ hi <= ph.firstLa) :
    Placed content d ph after where
  bytes := by
    intro index inside
    have outside : ph.pVa.toNat + index < lo \/ hi <= ph.pVa.toNat + index := by
      unfold Proghdr.firstLa firstPage pgSize at apart
      omega
    exact (changes.bytes _ outside).trans (placed.bytes index inside)
  pages := by
    intro la start touches
    obtain ⟨page, found, once, _⟩ := placed.pages la start touches
    have outside : la < lo \/ hi <= la := by
      unfold Proghdr.Touches Proghdr.firstLa firstPage pgSize at *
      omega
    have entry := (changes.mapping la (by unfold Proghdr.Touches at touches; omega) outside).trans found
    refine ⟨page, entry, (changes.allocated la outside).trans once, fun slot points => ?_⟩
    exact single slot (pageNumber la) page points (AddressSpaces.mapped_eq_of_mapping entry)

end Changes

/-! ## A segment that is being built -/

/-- The pages of the segment below `la` are made, and its bytes below `start`
are in place. -/
structure Building (content : Nat -> UInt8) (isOpen : File -> Prop) (d : Nat) (ph : Proghdr) (base : Loader M File)
    (start la : Nat) (loader : Loader M File) : Prop where
  steady : Steady d loader.sys
  opened : isOpen loader.file
  areas : (loader.sys.mm d).mmapList = (base.sys.mm d).mmapList
  changes : Changes d ph.firstLa la base loader
  contained : Contained loader.events
  aligned : la % pgSize = 0
  low : ph.firstLa <= la
  high : la <= ph.lastEnd
  begun : ph.pVa.toNat <= start
  bytes : forall addr, ph.pVa.toNat <= addr -> addr < start ->
    loader.sys.userByte d addr = some (ph.byteAt content (addr - ph.pVa.toNat))
  pages : forall place, place % pgSize = 0 -> ph.firstLa <= place -> place < la -> Exists fun page =>
    loader.sys.mapping (d, pageNumber place) = some (AddressSpaces.insertedPte page ph.perm) /\
      allocations place loader.events = 1

/-- The page that ends at `la` was allocated last, and is mapped.  The loops of
`load_icode` go on writing to it until they reach `la`. -/
structure Current (d : Nat) (ph : Proghdr) (la page : Nat) (loader : Loader M File) : Prop where
  last : newest loader.events = some page
  first : ph.firstLa + pgSize <= la
  found : loader.sys.mapping (d, pageNumber (la - pgSize)) = some (AddressSpaces.insertedPte page ph.perm)

/-- The range of the segment is one of the user, and has no pages yet. -/
structure Vacant (d : Nat) (ph : Proghdr) (base : Loader M File) : Prop where
  top : ph.lastEnd <= userTop
  fresh : forall la, ph.firstLa <= la -> la < ph.lastEnd -> allocations la base.events = 0

section Build

variable {content : Nat -> UInt8} {isOpen : File -> Prop} {ph : Proghdr} {base loader : Loader M File}
  {start la page : Nat}

namespace Building

theorem addsPage (building : Building content isOpen d ph base start la loader) (vacant : Vacant d ph base)
    {next : AddressSpaces M} (adds : AddressSpaces.AddsPage loader.sys next d la page ph.perm) (room : la < ph.lastEnd)
    (behind : start <= ph.pVa.toNat \/ start <= la) :
    Building content isOpen d ph base start (la + pgSize) ({ loader with sys := next }.note (.allocated la page)) := by
  have top := vacant.top
  have change := Changes.addsPage adds building.aligned (by omega)
  have ends : ph.lastEnd % pgSize = 0 := Nat.mul_mod_left _ _
  have aligned := building.aligned
  have low := building.low
  constructor
  · exact building.steady.addsPage adds
  · exact building.opened
  · exact (adds.areas d).1.trans building.areas
  · exact (building.changes.mono (Nat.le_refl _) (Nat.le_add_right _ _)).trans (change.mono low (Nat.le_refl _))
  · exact building.contained
  · rw [Nat.add_mod_right, building.aligned]
  · omega
  · unfold pgSize at *
    omega
  · exact building.begun
  · intro addr from_ below
    exact (change.bytes addr (by omega)).trans (building.bytes addr from_ below)
  · intro place start first below
    by_cases new : place = la
    · have none_yet := (building.changes.allocated la (.inr (Nat.le_refl la))).trans (vacant.fresh la low room)
      rw [new]
      exact ⟨page, adds.mapping_here, (allocations_same la page loader.events).trans (congrArg (· + 1) none_yet)⟩
    · have old : place < la := by
        unfold pgSize at *
        omega
      obtain ⟨frame, found, once⟩ := building.pages place start first old
      exact ⟨frame, (change.mapping place (by omega) (.inl old)).trans found,
        (change.allocated place (.inl old)).trans once⟩

theorem stored (building : Building content isOpen d ph base start la loader) (current : Current d ph la page loader)
    (top : la <= userTop) {size : Nat} (inside : la <= start + pgSize) (fits : start + size <= la)
    {bytes : Nat -> UInt8}
    (values : forall index, index < size -> bytes index = ph.byteAt content (start - ph.pVa.toNat + index)) :
    Building content isOpen d ph base (start + size) la ({ loader with
      sys := loader.sys.storePage page (start + pgSize - la) size bytes }.note (.stored page
        (start + pgSize - la) size)) := by
  have first := current.first
  have aligned := building.aligned
  have low := building.low
  have begun := building.begun
  have within : start + pgSize - la + size <= pgSize := by omega
  have pages : (la - pgSize) % pgSize = 0 := by
    unfold pgSize at *
    omega
  have below : la - pgSize < userTop := by
    unfold pgSize at *
    omega
  have change := Changes.stored building.steady.single current.found pages below within bytes
  rw [show la - pgSize + (start + pgSize - la) = start by omega] at change
  have lies : ph.firstLa <= start := by
    unfold Proghdr.firstLa firstPage
    exact (Nat.div_mul_le_self ..).trans begun
  constructor
  · exact building.steady.storePage _ _ _
  · exact building.opened
  · exact building.areas
  · exact building.changes.trans (change.mono lies fits)
  · exact ⟨current.last, within, building.contained⟩
  · exact aligned
  · exact low
  · exact building.high
  · omega
  · intro addr from_ before
    have single := building.steady.single
    refine (AddressSpaces.userByte_storePage single current.found pages below within bytes addr).trans ?_
    rw [show la - pgSize + (start + pgSize - la) = start by omega]
    by_cases old : addr < start
    · rw [if_neg (by omega)]
      exact building.bytes addr from_ old
    · rw [if_pos (by omega), values _ (by omega), show start - ph.pVa.toNat + (addr - start) = addr -
        ph.pVa.toNat by omega]
  · intro place start first below
    obtain ⟨frame, found, once⟩ := building.pages place start first below
    exact ⟨frame, found, (allocations_stored ..).trans once⟩

end Building

theorem Current.stored (current : Current d ph la page loader) (off size : Nat) (bytes : Nat -> UInt8) :
    Current d ph la page
      ({ loader with sys := loader.sys.storePage page off size bytes }.note (.stored page off size)) :=
  ⟨current.last, current.first, current.found⟩

/-! ## The two steps -/

/-- A page that is returned has been added. -/
theorem pgdirAllocPage_adds (la : Nat) (perm : Pte) (loader : Loader M File) (steady : Steady d loader.sys) :
    Meets (pgdirAllocPage d la perm) loader
      ⟨fun result after => forall page, result = some page -> Exists fun next =>
          AddressSpaces.AddsPage loader.sys next d la page perm /\
            after = { loader with sys := next }.note (.allocated la page),
        fun _ _ => True, fun fault => fault ≠ .endless⟩ := by
  unfold pgdirAllocPage
  rw [meets_bind, meets_get]
  dsimp only
  cases ran : loader.sys.pgdirAllocPage d la perm with
  | none => exact Fault.noConfusion
  | some outcome =>
      rcases outcome with ⟨result, sys⟩
      have left := AddressSpaces.pgdirAllocPage_cases steady.used steady.lowest ran
      cases result with
      | none =>
          unfold pageResult
          rw [meets_bind, meets_modify]
          exact fun page wrong => by cases wrong
      | some page =>
          unfold pageResult
          rw [meets_bind, meets_modify]
          intro other same
          cases same
          exact ⟨sys, left, rfl⟩

theorem takePage_builds (vacant : Vacant d ph base) (building : Building content isOpen d ph base start la loader)
    (room : la < ph.lastEnd) (behind : start <= ph.pVa.toNat \/ start <= la) (ret : Int) :
    Meets (takePage d la ph.perm ret) loader
      ⟨fun page after => Building content isOpen d ph base start (la + pgSize) after /\
        Current d ph (la + pgSize) page after,
        fun _ _ => True, fun fault => fault ≠ .endless⟩ := by
  unfold takePage
  rw [meets_bind]
  refine (pgdirAllocPage_adds la ph.perm loader building.steady).mono ?_ (fun _ _ _ => trivial) (fun _ => id)
  rintro (_ | page) after adds
  · trivial
  · obtain ⟨next, added, rfl⟩ := adds page rfl
    refine ⟨building.addsPage vacant added room behind, rfl, Nat.add_le_add_right building.low _, ?_⟩
    rw [Nat.add_sub_cancel]
    exact added.mapping_here

theorem storePage_builds (vacant : Vacant d ph base) (building : Building content isOpen d ph base start la loader)
    (current : Current d ph la page loader) {size : Nat} (inside : la <= start + pgSize) (fits : start + size <= la)
    {bytes : Nat -> UInt8}
    (values : forall index, index < size -> bytes index = ph.byteAt content (start - ph.pVa.toNat + index)) :
    Meets (storePage page (start + pgSize - la) size bytes) loader
      ⟨fun _ after => Building content isOpen d ph base (start + size) la after /\ Current d ph la page after,
        fun _ _ => True, fun fault => fault ≠ .endless⟩ :=
  ⟨building.stored current (building.high.trans vacant.top) inside fits values, current.stored _ _ _⟩

/-- A read that fails has a code, and does not lie in the part of the file that
is read whole. -/
def ReadFails (calls : FileCalls File) (isOpen : File -> Prop) (len : Nat) (offset ret : Int) : Prop :=
  ret ≠ 0 /\ forall size, Whole calls isOpen size -> ¬ (0 <= offset /\ offset + len <= size)

/-- What a read leaves when it succeeds. -/
theorem loadIcodeRead_meets {calls : FileCalls File} (serves : Serves calls isOpen content)
    (opened : isOpen loader.file)
    {put : Nat -> (Nat -> UInt8) -> Load M File Unit} {store : Nat -> (Nat -> UInt8) -> Loader M File -> Loader M File}
    (puts : forall count bytes, put count bytes = modify (store count bytes)) (len : Nat) (offset : Int) :
    Meets (loadIcodeRead calls put len offset) loader
      ⟨fun bytes after => 0 <= offset /\ (forall index, index < len -> bytes index = content (offset.toNat + index)) /\
          Exists fun file => isOpen file /\ after = store len bytes { loader with file := file },
        fun ret _ => ReadFails calls isOpen len offset ret, fun _ => False⟩ := by
  unfold loadIcodeRead
  rw [meets_bind, meets_get]
  dsimp only
  rw [meets_bind, meets_modify]
  dsimp only
  rw [meets_ite]
  split
  · rename_i lost
    exact ⟨lost, fun size served inside => lost (served.seeks _ _ opened inside.1 (by omega))⟩
  rename_i sought
  have found : (calls.seek loader.file offset).1 = 0 := of_not_not sought
  rw [meets_bind, meets_modify]
  dsimp only
  rw [puts, meets_bind, meets_modify]
  dsimp only
  rw [meets_ite]
  split
  · rename_i short
    refine ⟨?_, fun size served inside => short (served.reads _ _ _ opened inside.1 inside.2)⟩
    split
    · rename_i negative
      exact Int.ne_of_lt negative
    · decide
  rename_i whole
  have got : (calls.read (calls.seek loader.file offset).2 len).1 = len := of_not_not whole
  refine ⟨?_, fun index below => ?_, (calls.read (calls.seek loader.file offset).2 len).2.2, ?_, ?_⟩
  · by_contra negative
    exact serves.negative loader.file offset opened (not_le.mp negative) found
  · exact serves.bytes loader.file offset len opened found got index below
  · exact serves.reads _ len (serves.seeks loader.file offset opened)
  · rw [got, Int.toNat_natCast]

theorem loadIcodeRead_noPut {calls : FileCalls File} (serves : Serves calls isOpen content)
    (opened : isOpen loader.file)
    (len : Nat) (offset : Int) :
    Meets (loadIcodeRead calls noPut len offset) loader
      ⟨fun bytes after => (forall index, index < len -> bytes index = content (offset.toNat + index)) /\
          Exists fun file => isOpen file /\ after = { loader with file := file },
        fun ret _ => ReadFails calls isOpen len offset ret, fun _ => False⟩ := by
  have nothing : forall count bytes, noPut count bytes =
      modify ((fun _ _ loader => loader : Nat -> (Nat -> UInt8) -> Loader M File -> Loader M File) count bytes) :=
    fun _ _ => rfl
  exact (loadIcodeRead_meets serves opened nothing len offset).mono (fun _ _ read => read.2) (fun _ _ => id)
    (fun _ => id)

/-- A position in the file, as an `off_t` -/
structure FilePlace (ph : Proghdr) (start : Nat) (offset : Int) : Prop where
  word : offset = offT (ph.pOffset.toNat + (start - ph.pVa.toNat) : Nat)
  small : start = ph.pVa.toNat \/ ph.pOffset.toNat < 2 ^ 63

theorem FilePlace.first (ph : Proghdr) : FilePlace ph ph.pVa.toNat (offT ph.pOffset.toNat) := by
  refine ⟨?_, .inl rfl⟩
  rw [Nat.sub_self, Nat.add_zero]

/-- A place that can be sought did not overflow. -/
theorem FilePlace.exact {offset : Int} (place : FilePlace ph start offset) (near : start - ph.pVa.toNat < 2 ^ 32)
    (positive : 0 <= offset) :
    ph.pOffset.toNat < 2 ^ 63 /\ offset.toNat = ph.pOffset.toNat + (start - ph.pVa.toNat) := by
  have bound := UInt64.toNat_lt ph.pOffset
  have word : ph.pOffset.toNat + (start - ph.pVa.toNat) < 2 ^ 64 := by
    rcases place.small with first | small <;> omega
  obtain ⟨low, same⟩ := offT_exact word (place.word ▸ positive)
  refine ⟨by omega, ?_⟩
  rw [place.word, same, Int.toNat_natCast]

theorem FilePlace.next {offset : Int} (place : FilePlace ph start offset) (begun : ph.pVa.toNat <= start)
    (low : ph.pOffset.toNat < 2 ^ 63) (size : Nat) : FilePlace ph (start + size) (offT (offset + size)) := by
  refine ⟨?_, .inr low⟩
  rw [place.word, show ph.pOffset.toNat + (start + size - ph.pVa.toNat) =
    ph.pOffset.toNat + (start - ph.pVa.toNat) + size by omega]
  exact Int.bmod_add_bmod

theorem loadIcodeRead_builds {calls : FileCalls File} (serves : Serves calls isOpen content) (vacant : Vacant d ph base)
    (building : Building content isOpen d ph base start la loader) (current : Current d ph la page loader) {size : Nat}
    {offset : Int} (place : FilePlace ph start offset) (inside : la <= start + pgSize) (fits : start + size <= la)
    (file : start + size <= ph.pVa.toNat + ph.pFilesz.toNat) :
    Meets (loadIcodeRead calls (storePage page (start + pgSize - la)) size offset) loader
      ⟨fun _ after => (Building content isOpen d ph base (start + size) la after /\ Current d ph la page after) /\
          FilePlace ph (start + size) (offT (offset + size)), fun _ _ => True, fun fault => fault ≠ .endless⟩ := by
  have top : la <= userTop := building.high.trans vacant.top
  have begun := building.begun
  refine (loadIcodeRead_meets serves building.opened (fun _ _ => rfl) size offset).mono ?_ (fun _ _ _ => trivial)
    (fun _ => False.elim)
  rintro bytes after ⟨positive, read, rest, opened, rfl⟩
  have exact := place.exact (by unfold userTop at top; omega) positive
  have values : forall index, index < size -> bytes index = ph.byteAt content (start - ph.pVa.toNat + index) := by
    intro index below
    unfold Proghdr.byteAt
    rw [if_pos (by omega), read index below, exact.2, Nat.add_assoc]
  have moved : Building content isOpen d ph base start la { loader with file := rest } :=
    ⟨building.steady, opened, building.areas,
      ⟨building.changes.bytes, building.changes.mapping, building.changes.allocated⟩,
      building.contained, building.aligned, building.low, building.high, begun, building.bytes, building.pages⟩
  have stays : Current d ph la page { loader with file := rest } := ⟨current.last, current.first, current.found⟩
  exact ⟨⟨moved.stored stays top inside fits values, stays.stored _ _ _⟩, place.next begun exact.1 size⟩

/-! ## The loops -/

/-- Below `la` there is a page to go on in, and otherwise the next byte is the
first of a page or of the segment. -/
structure Positioned (d : Nat) (ph : Proghdr) (cursor : Cursor) (loader : Loader M File) : Prop where
  inside : cursor.start < cursor.la -> cursor.la <= cursor.start + pgSize /\ Exists fun page =>
    cursor.page = some page /\ Current d ph cursor.la page loader
  behind : cursor.la <= cursor.start -> cursor.start <= ph.pVa.toNat \/ cursor.start <= cursor.la

/-- A store has come to the end of the newest page, or to the last byte. -/
theorem Positioned.of_current {last : Nat} (current : Current d ph la page loader) (near : la <= min la last + pgSize)
    (offset ret : Int) : Positioned d ph ⟨min la last, la, offset, some page, ret⟩ loader :=
  ⟨fun _ => ⟨near, page, rfl, current⟩, fun _ => .inr (Nat.min_le_left _ _)⟩

/-- The turns suffice to get to `last`. -/
def Enough (start last turns : Nat) : Prop :=
  0 < turns /\ (start < last -> last + pgSize < (start / pgSize + turns) * pgSize)

theorem enough_turns (start last : Nat) : Enough start last (turns start last) := by
  unfold Enough turns pgSize
  omega

/-- The rest of a page, or what is left of it up to `last` -/
theorem chunk_eq {last : Nat} (inside : la <= start + pgSize) (open_ : start < la) (ahead : start <= last) :
    chunk (start + pgSize - la) la last = min la last - start := by
  unfold chunk
  split <;> omega

/-- No address that a turn reaches overflows. -/
theorem turn_word {addr : Nat} (user : addr <= userTop + pgSize) : addr % 2 ^ 64 = addr :=
  Nat.mod_eq_of_lt (Nat.lt_of_le_of_lt user (by decide))

/-- A turn comes to the end of its page, or to `last`. -/
theorem Enough.next {last count : Nat} (enough : Enough start last (count + 1)) (ahead : start < last)
    (aligned : la % pgSize = 0) (inside : la <= start) (near : start < la + pgSize) :
    Enough (min (la + pgSize) last) last count := by
  have room := enough.2 ahead
  unfold Enough pgSize at *
  omega

/-- The page at `la` holds the next byte. -/
theorem Building.near (building : Building content isOpen d ph base start la loader)
    (behind : start <= ph.pVa.toNat \/ start <= la) : start < la + pgSize := by
  have low := building.low
  unfold Proghdr.firstLa firstPage pgSize at *
  omega

/-- The loop over the pages that get bytes of the file -/
theorem filePages_builds {calls : FileCalls File} (serves : Serves calls isOpen content) (vacant : Vacant d ph base)
    {last : Nat} (ends : last = ph.pVa.toNat + ph.pFilesz.toNat) (within : last <= ph.lastEnd) (count : Nat)
    (cursor : Cursor) (building : Building content isOpen d ph base cursor.start cursor.la loader)
    (positioned : Positioned d ph cursor loader) (place : FilePlace ph cursor.start cursor.offset)
    (ahead : cursor.start <= last) (closed : cursor.start < cursor.la -> cursor.start = last)
    (enough : Enough cursor.start last count) :
    Meets (filePages calls d ph.perm last count cursor) loader
      ⟨fun next after => (Building content isOpen d ph base next.start next.la after /\ Positioned d ph next after) /\
          next.start = last, fun _ _ => True, fun fault => fault ≠ .endless⟩ := by
  induction count generalizing cursor loader with
  | zero => exact absurd enough.1 (Nat.lt_irrefl 0)
  | succ count inductionHypothesis =>
      have top := vacant.top
      rw [filePages, meets_ite]
      split
      case isFalse finished => exact ⟨⟨building, positioned⟩, by omega⟩
      case isTrue more =>
        have over_la : cursor.la <= cursor.start := by
          by_contra below
          have same := closed (by omega)
          omega
        have behind := positioned.behind over_la
        have near := building.near behind
        rw [meets_bind]
        refine (takePage_builds vacant building (by omega) behind cursor.ret).mono ?_ (fun _ _ _ => trivial)
          (fun _ => id)
        rintro page middle ⟨grown, current⟩
        have high := grown.high
        have word := turn_word (show cursor.la + pgSize <= userTop + pgSize by omega)
        have off : cursor.start - cursor.la = cursor.start + pgSize - (cursor.la + pgSize) := by omega
        have size := chunk_eq (Nat.add_le_add_right over_la pgSize) near ahead
        dsimp only
        rw [word, off, size, meets_bind]
        have sum : cursor.start + (min (cursor.la + pgSize) last - cursor.start) = min (cursor.la + pgSize) last := by
          omega
        refine (loadIcodeRead_builds serves vacant grown current place (by omega) (by omega) (by omega)).mono ?_
          (fun _ _ _ => trivial) (fun _ => id)
        rintro _ next ⟨⟨stored, still⟩, moved⟩
        rw [sum] at stored moved
        rw [sum, turn_word (show min (cursor.la + pgSize) last <= userTop + pgSize by omega)]
        apply inductionHypothesis ⟨_, _, _, _, _⟩ stored (Positioned.of_current still (by omega) _ _) moved
        · exact Nat.min_le_right _ _
        · intro closing
          dsimp only at closing ⊢
          omega
        · exact enough.next more building.aligned over_la near

/-- The rest of the last page of the file -/
theorem zeroBoundary_builds (vacant : Vacant d ph base) {last : Nat} (within : last <= ph.lastEnd) (cursor : Cursor)
    (building : Building content isOpen d ph base cursor.start cursor.la loader)
    (positioned : Positioned d ph cursor loader) (file : ph.pVa.toNat + ph.pFilesz.toNat <= cursor.start)
    (ahead : cursor.start <= last) :
    Meets (zeroBoundary last cursor) loader
      ⟨fun next after => (Building content isOpen d ph base next.start next.la after /\ Positioned d ph next after) /\
          (ph.pVa.toNat + ph.pFilesz.toNat <= next.start /\ next.start <= last) /\
            (next.start < next.la -> next.start = last),
        fun _ _ => True, fun fault => fault ≠ .endless⟩ := by
  have top := vacant.top
  unfold zeroBoundary
  rw [meets_ite]
  split
  case isFalse over_la => exact ⟨⟨building, positioned⟩, ⟨file, ahead⟩, fun below => absurd below over_la⟩
  case isTrue below =>
    rw [meets_ite]
    split
    case isFalse finished => exact ⟨⟨building, positioned⟩, ⟨file, ahead⟩, fun _ => by omega⟩
    case isTrue more =>
      obtain ⟨inside, page, has, current⟩ := positioned.inside below
      have size := chunk_eq inside below ahead
      have sum : cursor.start + (min cursor.la last - cursor.start) = min cursor.la last := by omega
      have zeros : forall index, index < min cursor.la last - cursor.start ->
          (fun _ => 0 : Nat -> UInt8) index = ph.byteAt content (cursor.start - ph.pVa.toNat + index) := by
        intro index _
        unfold Proghdr.byteAt
        rw [if_neg (by omega)]
      dsimp only
      rw [has, size, meets_bind]
      refine (storePage_builds vacant building current inside (by omega) zeros).mono ?_ (fun _ _ _ => trivial)
        (fun _ => id)
      rintro _ after ⟨stored, still⟩
      rw [sum] at stored
      dsimp only
      rw [meets_pure, sum, turn_word (show min cursor.la last <= userTop + pgSize by omega)]
      refine ⟨⟨stored, .of_current still (by omega) _ _⟩, ⟨?_, Nat.min_le_right _ _⟩, fun closing => ?_⟩
      · dsimp only
        omega
      · dsimp only at closing ⊢
        omega

/-- The loop over the other pages -/
theorem bssPages_builds (vacant : Vacant d ph base) {last : Nat} (filled : ph.pVa.toNat < last)
    (within : last <= ph.lastEnd) (count : Nat)
    (cursor : Cursor) (building : Building content isOpen d ph base cursor.start cursor.la loader)
    (positioned : Positioned d ph cursor loader) (file : ph.pVa.toNat + ph.pFilesz.toNat <= cursor.start)
    (ahead : cursor.start <= last) (closed : cursor.start < cursor.la -> cursor.start = last)
    (enough : Enough cursor.start last count) :
    Meets (bssPages d ph.perm last count cursor) loader
      ⟨fun _ after => Exists fun la => Building content isOpen d ph base last la after /\ last <= la,
        fun _ _ => True, fun fault => fault ≠ .endless⟩ := by
  induction count generalizing cursor loader with
  | zero => exact absurd enough.1 (Nat.lt_irrefl 0)
  | succ count inductionHypothesis =>
      have top := vacant.top
      rw [bssPages, meets_ite]
      split
      case isFalse finished =>
        have same : cursor.start = last := by omega
        refine ⟨cursor.la, same ▸ building, ?_⟩
        by_contra short
        have behind := positioned.behind (by omega)
        omega
      case isTrue more =>
        have over_la : cursor.la <= cursor.start := by
          by_contra below
          have same := closed (by omega)
          omega
        have behind := positioned.behind over_la
        have near := building.near behind
        rw [meets_bind]
        refine (takePage_builds vacant building (by omega) behind cursor.ret).mono ?_ (fun _ _ _ => trivial)
          (fun _ => id)
        rintro page middle ⟨grown, current⟩
        have high := grown.high
        have word := turn_word (show cursor.la + pgSize <= userTop + pgSize by omega)
        have off : cursor.start - cursor.la = cursor.start + pgSize - (cursor.la + pgSize) := by omega
        have size := chunk_eq (Nat.add_le_add_right over_la pgSize) near ahead
        have zeros : forall index, index < min (cursor.la + pgSize) last - cursor.start ->
            (fun _ => 0 : Nat -> UInt8) index = ph.byteAt content (cursor.start - ph.pVa.toNat + index) := by
          intro index _
          unfold Proghdr.byteAt
          rw [if_neg (by omega)]
        dsimp only
        rw [word, off, size, meets_bind]
        have sum : cursor.start + (min (cursor.la + pgSize) last - cursor.start) = min (cursor.la + pgSize) last := by
          omega
        refine (storePage_builds vacant grown current (by omega) (by omega) zeros).mono ?_
          (fun _ _ _ => trivial) (fun _ => id)
        rintro _ next ⟨stored, still⟩
        rw [sum] at stored
        rw [sum, turn_word (show min (cursor.la + pgSize) last <= userTop + pgSize by omega)]
        apply inductionHypothesis ⟨_, _, _, _, _⟩ stored (Positioned.of_current still (by omega) _ _)
        · dsimp only
          omega
        · exact Nat.min_le_right _ _
        · intro closing
          dsimp only at closing ⊢
          omega
        · exact enough.next more building.aligned over_la near

/-- All pages of the segment have been made. -/
theorem Building.placed (building : Building content isOpen d ph base start la loader)
    (whole : ph.pVa.toNat + ph.pMemsz.toNat <= start) (made : start <= la) : Placed content d ph loader where
  bytes := by
    intro index inside
    have byte := building.bytes (ph.pVa.toNat + index) (Nat.le_add_right _ _) (by omega)
    rwa [Nat.add_sub_cancel_left] at byte
  pages := by
    intro place starts touches
    have first : ph.firstLa <= place := by
      unfold Proghdr.Touches Proghdr.firstLa firstPage pgSize at *
      omega
    obtain ⟨page, found, once⟩ := building.pages place starts first (by unfold Proghdr.Touches at touches; omega)
    refine ⟨page, found, once, fun slot points => ?_⟩
    exact building.steady.single slot _ page points (AddressSpaces.mapped_eq_of_mapping found)

end Build

end Exec
end Ucore
