import Ucore.Vm.PageBudget
import Ucore.Exec.Loading

namespace Ucore
namespace Exec

open Library
open Program
open Vm

/-!
# Which programs the memory holds

Whether `load_icode` ends well depends on the headers of the program, on the
sizes of the arguments and on the number of free frames.  Three things go
wrong.  An area that overlaps one before it, without starting in it, fails an
assertion, and so does a page of the stack that cannot be had.  A page of a
segment that cannot be had after a read of the same segment is an error
without a code.  And the arguments need the four pages of the stack.

A frame is free or belongs to the address space, so the frames that are left
are known from the pages that have been made.
-/

variable {M : PmmManager} {File : Type} {d : Nat}

/-! ## The pages of a range -/

/-- The pages from `lo` to `hi` -/
def pagesBetween (lo hi : Nat) : Finset Nat :=
  (Finset.range ((hi - lo) / pgSize)).image fun number => lo + number * pgSize

theorem mem_pagesBetween {lo hi la : Nat} (first : lo % pgSize = 0) (last : hi % pgSize = 0) :
    la ∈ pagesBetween lo hi <-> la % pgSize = 0 /\ lo <= la /\ la < hi := by
  unfold pagesBetween
  rw [Finset.mem_image]
  constructor
  · rintro ⟨number, below, rfl⟩
    rw [Finset.mem_range] at below
    unfold pgSize at *
    omega
  · rintro ⟨aligned, low, high⟩
    refine ⟨(la - lo) / pgSize, ?_, ?_⟩
    · rw [Finset.mem_range]
      unfold pgSize at *
      omega
    · unfold pgSize at *
      omega

theorem pagesBetween_self (lo : Nat) : pagesBetween lo lo = ∅ := by
  unfold pagesBetween
  rw [Nat.sub_self, Nat.zero_div]
  rfl

theorem pagesBetween_next {lo la : Nat} (first : lo % pgSize = 0) (aligned : la % pgSize = 0) (low : lo <= la) :
    pagesBetween lo (la + pgSize) = insert la (pagesBetween lo la) := by
  ext place
  have next : (la + pgSize) % pgSize = 0 := by rw [Nat.add_mod_right, aligned]
  rw [Finset.mem_insert, mem_pagesBetween first next, mem_pagesBetween first aligned]
  unfold pgSize at *
  omega

theorem pagesBetween_before {la hi : Nat} (aligned : la % pgSize = 0) (last : hi % pgSize = 0) (room : la < hi) :
    pagesBetween la hi = insert la (pagesBetween (la + pgSize) hi) := by
  ext place
  have next : (la + pgSize) % pgSize = 0 := by rw [Nat.add_mod_right, aligned]
  rw [Finset.mem_insert, mem_pagesBetween aligned last, mem_pagesBetween next last]
  unfold pgSize at *
  omega

theorem pagesBetween_mono {lo low hi : Nat} (first : lo % pgSize = 0) (start : low % pgSize = 0)
    (last : hi % pgSize = 0)
    (lower : low <= lo) : pagesBetween lo hi ⊆ pagesBetween low hi := by
  intro la member
  rw [mem_pagesBetween first last] at member
  exact (mem_pagesBetween start last).mpr ⟨member.1, Nat.le_trans lower member.2.1, member.2.2⟩

/-! ## The condition -/

namespace Proghdr

/-- The area of the segment -/
def area (ph : Proghdr) : Vma := ⟨ph.firstLa, ph.lastEnd, ph.vmFlags⟩

/-- The pages of the segment -/
def pages (ph : Proghdr) : Finset Nat := pagesBetween ph.firstLa ph.lastEnd

end Proghdr

/-- The four pages of the stack that are mapped -/
def stackPages : Finset Nat := pagesBetween (ustackTop - 4 * pgSize) ustackTop

/-- The new area is apart from the ones there are. -/
def Joins (areas : List Vma) (vma : Vma) : Prop := forall other, other ∈ areas -> vma.Apart other

instance (vma other : Vma) : Decidable (vma.Apart other) := inferInstanceAs (Decidable (_ \/ _))

instance (areas : List Vma) (vma : Vma) : Decidable (Joins areas vma) := List.decidableBAll _ _

/-- A segment finds room, or it is an error with a code that it does not: it
has no bytes in the file, or already its first page does not find room.  Later
on `ret` is zero, from the read of the page before. -/
def SegmentFits (free : Nat) (pages : Finset Nat) (ph : Proghdr) (later : Prop) : Prop :=
  if footprint (pages ∪ ph.pages) <= free then later
  else ph.pFilesz = 0 \/ free < footprint (insert ph.firstLa pages)

/-- The area of a segment is refused with a code, or it is apart from the others
and the segment fits.  An area that overlaps another one without starting in it
fails an assertion. -/
def SegmentLoads (free : Nat) (areas : List Vma) (pages : Finset Nat) (ph : Proghdr) (later : Prop) : Prop :=
  StartRefused areas ph.firstLa ph.lastEnd \/ Joins areas ph.area /\ SegmentFits free pages ph later

/-- With `free` frames for the pages and their tables, the segments from the
given ones on, the stack and the arguments either find room, or `load_icode`
returns the code of an error.  `areas` and `pages` are what was made before. -/
def Fits (free : Nat) (kargv : List (List UInt8)) : List Proghdr -> List Vma -> Finset Nat -> Prop
  | [], areas, pages =>
      StartRefused areas stackArea.vmStart stackArea.vmEnd \/
        Joins areas stackArea /\ footprint (pages ∪ stackPages) <= free /\ blockSize kargv <= 4 * pgSize
  | ph :: rest, areas, pages =>
      if ph.pType ≠ elfPtLoad then Fits free kargv rest areas pages
      else if ph.pFilesz > ph.pMemsz then True
      else if ph.pMemsz = 0 then Fits free kargv rest areas pages
      else ph.Ends /\ SegmentLoads free areas pages ph (Fits free kargv rest (ph.area :: areas) (pages ∪ ph.pages))

instance (ph : Proghdr) : Decidable ph.Ends := inferInstanceAs (Decidable (_ < _))

instance (free : Nat) (pages : Finset Nat) (ph : Proghdr) (later : Prop) [Decidable later] :
    Decidable (SegmentFits free pages ph later) :=
  inferInstanceAs (Decidable (if footprint (pages ∪ ph.pages) <= free then later
    else ph.pFilesz = 0 \/ free < footprint (insert ph.firstLa pages)))

instance (free : Nat) (areas : List Vma) (pages : Finset Nat) (ph : Proghdr) (later : Prop) [Decidable later] :
    Decidable (SegmentLoads free areas pages ph later) := inferInstanceAs (Decidable (_ \/ _ /\ _))

instance decidableFits (free : Nat) (kargv : List (List UInt8)) :
    forall (phs : List Proghdr) (areas : List Vma) (pages : Finset Nat), Decidable (Fits free kargv phs areas pages)
  | [], _, _ => inferInstanceAs (Decidable (_ \/ _ /\ _ /\ _))
  | ph :: rest, areas, pages =>
      have := decidableFits free kargv rest areas pages
      have := decidableFits free kargv rest (ph.area :: areas) (pages ∪ ph.pages)
      inferInstanceAs (Decidable (if ph.pType ≠ elfPtLoad then Fits free kargv rest areas pages
        else if ph.pFilesz > ph.pMemsz then True
        else if ph.pMemsz = 0 then Fits free kargv rest areas pages
        else ph.Ends /\
          SegmentLoads free areas pages ph (Fits free kargv rest (ph.area :: areas) (pages ∪ ph.pages))))

/-- The headers of the program, in order -/
def headers (content : Nat -> UInt8) (elf : Elfhdr) : List Proghdr :=
  (List.range elf.ePhnum.toNat).map (headerAt content elf)

/-- `load_icode` has no frame for the page directory, or the file is no program,
or the segments, the stack and the arguments fit in the frames that are left. -/
def LoadFits (free : Nat) (content : Nat -> UInt8) (kargv : List (List UInt8)) : Prop :=
  free = 0 \/ (elfhdrOf content).eMagic ≠ elfMagic \/
    Fits (free - 1) kargv (headers content (elfhdrOf content)) [] ∅

instance (free : Nat) (content : Nat -> UInt8) (kargv : List (List UInt8)) : Decidable (LoadFits free content kargv) :=
  inferInstanceAs (Decidable (_ \/ _ \/ _))

/-! ## What is left -/

/-- The first calls of `kmalloc` succeed; later ones may fail. -/
def Granted (count : Nat) (grants : List Bool) : Prop := forall i, i < count -> grants.getD i false = true

theorem Granted.mono {count more : Nat} {grants : List Bool} (granted : Granted more grants) (fewer : count <= more) :
    Granted count grants := fun i below => granted i (Nat.lt_of_lt_of_le below fewer)

theorem Granted.head {count : Nat} {grants : List Bool} (granted : Granted (count + 1) grants) :
    grants.headD false = true /\ Granted count grants.tail := by
  cases grants with
  | nil => exact absurd (granted 0 (Nat.succ_pos count)) Bool.false_ne_true
  | cons first rest =>
      exact ⟨granted 0 (Nat.succ_pos count), fun i below => granted (i + 1) (Nat.succ_lt_succ below)⟩

/-- What has been made, and what is left of the frames.  Where the file is read
`whole`, `more` calls of `kmalloc` will succeed. -/
structure Funds (isOpen : File -> Prop) (whole : Prop) (d free more : Nat) (areas : List Vma) (pages : Finset Nat)
    (loader : Loader M File) : Prop where
  steady : Steady d loader.sys
  populated : loader.sys.Populated d pages
  listed : (loader.sys.mm d).mmapList.Perm areas
  inside : forall la, la ∈ pages -> Exists fun vma => vma ∈ areas /\ vma.Holds la
  counted : M.nrFreePages loader.sys.frames.pool + footprint pages = free
  opened : isOpen loader.file
  granted : whole -> Granted more loader.grants

/-- An error means what the condition says: it has a code if the condition
holds, and where the file is read `whole` only then. -/
def Judged (condition whole : Prop) (ret : Int) : Prop := (condition -> ret ≠ 0) /\ (whole -> ret ≠ 0 -> condition)

theorem Judged.congr {condition other whole : Prop} {ret : Int} (judged : Judged condition whole ret)
    (same : condition <-> other) : Judged other whole ret :=
  ⟨fun holds => judged.1 (same.mpr holds), fun read nonzero => same.mp (judged.2 read nonzero)⟩

theorem judged_of_iff {condition : Prop} {ret : Int} (whole : Prop) (same : ret ≠ 0 <-> condition) :
    Judged condition whole ret := ⟨same.mpr, fun _ => same.mp⟩

section Spend

variable {isOpen : File -> Prop} {whole : Prop} {free more : Nat} {areas : List Vma} {pages : Finset Nat}
  {loader : Loader M File} {la : Nat} {perm : Pte}

theorem Funds.footprint_le (funds : Funds isOpen whole d free more areas pages loader) : footprint pages <= free := by
  have counted := funds.counted
  omega

/-- A page that has not been made is had exactly if there is room for it. -/
theorem pgdirAllocPage_spends (funds : Funds isOpen whole d free more areas pages loader)
    (held : Exists fun vma => vma ∈ areas /\ vma.Holds la) (aligned : la % pgSize = 0) (new : la ∉ pages) (perm : Pte) :
    Meets (pgdirAllocPage d la perm) loader
      ⟨fun result after => match result with
          | none => free < footprint (insert la pages)
          | some _ => Funds isOpen whole d free more areas (insert la pages) after,
        fun _ _ => False, fun _ => False⟩ := by
  have low : la < userTop := by
    obtain ⟨vma, member, holds⟩ := held
    have user := (funds.steady.user vma (funds.listed.mem_iff.mpr member)).2.2
    exact Nat.lt_of_lt_of_le holds.2 user.2.2
  obtain ⟨result, next, ran, left⟩ := funds.populated.pgdirAllocPage funds.steady.used low aligned new perm
  have cases := AddressSpaces.pgdirAllocPage_cases funds.steady.used funds.steady.lowest ran
  have counted := funds.counted
  have cost := footprint_insert new
  unfold pgdirAllocPage
  rw [meets_bind, meets_get]
  dsimp only
  rw [ran]
  cases result with
  | none =>
      unfold pageResult
      rw [meets_bind, meets_modify]
      dsimp only at left ⊢
      rw [meets_pure]
      dsimp only
      omega
  | some page =>
      unfold pageResult
      rw [meets_bind, meets_modify]
      dsimp only at left cases ⊢
      rw [meets_pure]
      exact
        { steady := funds.steady.addsPage cases
          populated := left.1
          listed := by
            change (next.mm d).mmapList.Perm areas
            rw [(cases.areas d).1]
            exact funds.listed
          inside := by
            intro other member
            rcases Finset.mem_insert.mp member with rfl | old
            · exact held
            · exact funds.inside other old
          counted := by
            change M.nrFreePages next.frames.pool + _ = free
            omega
          opened := funds.opened
          granted := funds.granted }

theorem takePage_spends (funds : Funds isOpen whole d free more areas pages loader)
    (held : Exists fun vma => vma ∈ areas /\ vma.Holds la) (aligned : la % pgSize = 0) (new : la ∉ pages) (perm : Pte)
    (ret : Int) :
    Meets (takePage d la perm ret) loader
      ⟨fun _ after => Funds isOpen whole d free more areas (insert la pages) after,
        fun error _ => error = ret /\ free < footprint (insert la pages), fun _ => False⟩ := by
  unfold takePage
  rw [meets_bind]
  refine (pgdirAllocPage_spends funds held aligned new perm).mono ?_ (fun _ _ => False.elim) (fun _ => False.elim)
  rintro (_ | page) after left
  · exact ⟨rfl, left⟩
  · exact left

/-- A store to a page takes nothing. -/
theorem Funds.stored (funds : Funds isOpen whole d free more areas pages loader) (page off size : Nat)
    (bytes : Nat -> UInt8) :
    Funds isOpen whole d free more areas pages
      ({ loader with sys := loader.sys.storePage page off size bytes }.note (.stored page off size)) where
  steady := funds.steady.storePage off size bytes
  populated := funds.populated.congr funds.populated.uncounted rfl (fun _ => rfl)
  listed := funds.listed
  inside := funds.inside
  counted := funds.counted
  opened := funds.opened
  granted := funds.granted

theorem Funds.setFile (funds : Funds isOpen whole d free more areas pages loader) {file : File} (opened : isOpen file) :
    Funds isOpen whole d free more areas pages { loader with file := file } :=
  { funds with opened := opened }

theorem startRefused_perm {list : List Vma} (listed : list.Perm areas) (first last : Nat) :
    StartRefused list first last <-> StartRefused areas first last :=
  or_congr_right (exists_congr fun _ => and_congr_left' listed.mem_iff)

theorem joins_perm {list : List Vma} (listed : list.Perm areas) (vma : Vma) : Joins list vma <-> Joins areas vma :=
  forall_congr' fun _ => imp_congr_left listed.mem_iff

/-- A new area takes no frames. -/
theorem Funds.maps {addr len : UInt64} {vmFlags : VmFlags} {after : Loader M File}
    (funds : Funds isOpen whole d free (more + 1) areas pages loader) (maps : Maps d addr len vmFlags loader after) :
    Funds isOpen whole d free more (⟨firstPage addr, Vm.roundUp (addr + len) 4096, vmFlags⟩ :: areas) pages after where
  steady := maps.steady
  populated := by
    refine funds.populated.congr ?_ maps.mapping fun node => ?_
    · rw [maps.frames]
      exact funds.populated.uncounted
    · unfold AddressSpaces.nodes
      dsimp only
      rw [maps.pgdir]
  listed := maps.areas.trans (funds.listed.cons _)
  inside := fun la member =>
    have ⟨vma, found, holds⟩ := funds.inside la member
    ⟨vma, List.mem_cons_of_mem _ found, holds⟩
  counted := maps.frames ▸ funds.counted
  opened := maps.file ▸ funds.opened
  granted := fun read => maps.grants ▸ (funds.granted read).head.2

theorem mmMap_spends (funds : Funds isOpen whole d free (more + 1) areas pages loader) (addr len : UInt64)
    (vmFlags : VmFlags) :
    Meets (mmMap d addr len vmFlags) loader
      ⟨fun _ after => (¬ StartRefused areas (firstPage addr) (Vm.roundUp (addr + len) 4096) /\
            Joins areas ⟨firstPage addr, Vm.roundUp (addr + len) 4096, vmFlags⟩) /\
          Funds isOpen whole d free more (⟨firstPage addr, Vm.roundUp (addr + len) 4096, vmFlags⟩ :: areas) pages after,
        fun ret _ => ret ≠ 0 /\ (whole -> StartRefused areas (firstPage addr) (Vm.roundUp (addr + len) 4096)),
        fun _ => ¬ StartRefused areas (firstPage addr) (Vm.roundUp (addr + len) 4096) /\
          ¬ Joins areas ⟨firstPage addr, Vm.roundUp (addr + len) 4096, vmFlags⟩⟩ := by
  have mapping := mmMap_maps addr len vmFlags loader funds.steady
  unfold mmMap kmalloc at mapping ⊢
  rw [meets_bind, meets_bind, meets_get] at mapping ⊢
  dsimp only at mapping ⊢
  rw [meets_bind, meets_modify] at mapping ⊢
  dsimp only at mapping ⊢
  rw [meets_pure] at mapping ⊢
  dsimp only at mapping ⊢
  rw [meets_bind, meets_get] at mapping ⊢
  dsimp only at mapping ⊢
  rw [← startRefused_perm funds.listed, ← joins_perm funds.listed]
  cases ran : CountedMm.mmMap ⟨loader.sys.mm d, loader.mapCount⟩ addr len vmFlags (loader.grants.headD false) with
  | none => exact CountedMm.mmMap_none funds.steady.sorted funds.steady.cached ran
  | some result =>
      rcases result with ⟨error, mm⟩
      rw [ran] at mapping
      cases error with
      | some error =>
          unfold mapped
          rw [meets_bind, meets_modify]
          exact ⟨errno_ne_zero error, fun read =>
            CountedMm.mmMap_error funds.steady.cached ran (funds.granted read).head.1⟩
      | none =>
          unfold mapped at mapping ⊢
          rw [meets_modify] at mapping ⊢
          dsimp only at mapping ⊢
          refine ⟨⟨?_, mapping.apart⟩, funds.maps mapping⟩
          rintro (outside | ⟨vma, member, holds⟩)
          · exact outside mapping.access
          · have apart := mapping.apart vma member
            have filled := mapping.access.2.1
            unfold Vma.Apart Vma.Holds at *
            dsimp only at apart
            omega

end Spend

/-! ## The loops of a segment -/

/-- Where the loops of a segment are: at its first byte, or in the page that
ends at `la`.  They are inside a page only at the last byte. -/
structure Turn (ph : Proghdr) (last : Nat) (cursor : Cursor) : Prop where
  aligned : cursor.la % pgSize = 0
  high : cursor.la <= ph.lastEnd
  ahead : cursor.start <= last
  place : cursor.la = ph.firstLa /\ cursor.start = ph.pVa.toNat \/
    ph.firstLa < cursor.la /\ cursor.start <= cursor.la /\ cursor.la <= cursor.start + pgSize
  closed : cursor.start < cursor.la -> cursor.start = last /\ cursor.page.isSome = true

/-- The error that a refused page would be: one with a code before the first
read, and zero after it. -/
def Owes (ph : Proghdr) (cursor : Cursor) : Prop :=
  cursor.ret = eNoMem /\ (cursor.la = ph.firstLa \/ ph.pFilesz = 0) \/
    cursor.ret = 0 /\ ph.firstLa < cursor.la /\ ph.pFilesz ≠ 0

section Loops

variable {isOpen : File -> Prop} {whole : Prop} {free more : Nat} {areas : List Vma} {pages : Finset Nat}
  {loader : Loader M File} {ph : Proghdr} {last : Nat} {cursor : Cursor}

/-- A turn that goes on takes the page of the next byte. -/
theorem Turn.enters (turn : Turn ph last cursor) (next : cursor.start < last) (within : last <= ph.lastEnd) :
    cursor.la <= cursor.start /\ cursor.start < cursor.la + pgSize /\ cursor.la < ph.lastEnd /\
      ph.firstLa <= cursor.la := by
  have closed := turn.closed
  have first := ph.firstLa_le
  have near : ph.pVa.toNat < ph.firstLa + pgSize := by
    unfold Proghdr.firstLa firstPage pgSize
    omega
  rcases turn.place with ⟨start, same⟩ | place <;> omega

theorem Turn.next (turn : Turn ph last cursor) (next : cursor.start < last) (within : last <= ph.lastEnd)
    (page : Nat) (offset ret : Int) :
    Turn ph last ⟨min (cursor.la + pgSize) last, cursor.la + pgSize, offset, some page, ret⟩ := by
  have enters := turn.enters next within
  have aligned := turn.aligned
  have ends : ph.lastEnd % pgSize = 0 := Nat.mul_mod_left _ _
  constructor
  · exact (Nat.add_mod_right _ _).trans aligned
  · unfold pgSize at *
    dsimp only
    omega
  · exact Nat.min_le_right _ _
  · refine .inr ⟨?_, Nat.min_le_left _ _, ?_⟩
    · have positive : 0 < pgSize := by decide
      dsimp only
      omega
    · dsimp only
      omega
  · intro closing
    dsimp only at closing
    exact ⟨by dsimp only; omega, rfl⟩

/-- A refused page ends the segment with the error that is owed. -/
theorem Funds.refused (funds : Funds isOpen whole d free more areas (pages ∪ pagesBetween ph.firstLa cursor.la) loader)
    (owes : Owes ph cursor) (aligned : cursor.la % pgSize = 0) (low : ph.firstLa <= cursor.la)
    (room : cursor.la < ph.lastEnd)
    (refused : free < footprint (insert cursor.la (pages ∪ pagesBetween ph.firstLa cursor.la))) (later : Prop) :
    Judged (SegmentFits free pages ph later) whole cursor.ret := by
  have first : ph.firstLa % pgSize = 0 := Nat.mul_mod_left _ _
  have ends : ph.lastEnd % pgSize = 0 := Nat.mul_mod_left _ _
  have inside : insert cursor.la (pages ∪ pagesBetween ph.firstLa cursor.la) ⊆ pages ∪ ph.pages := by
    intro la member
    rw [Finset.mem_insert, Finset.mem_union, mem_pagesBetween first aligned] at member
    rw [Finset.mem_union, Proghdr.pages, mem_pagesBetween first ends]
    rcases member with rfl | old | ⟨starts, lower, below⟩
    · exact .inr ⟨aligned, low, room⟩
    · exact .inl old
    · exact .inr ⟨starts, lower, Nat.lt_trans below room⟩
  have short := Nat.lt_of_lt_of_le refused (footprint_mono inside)
  apply judged_of_iff
  unfold SegmentFits
  rw [if_neg (Nat.not_le.mpr short)]
  rcases owes with ⟨code, start | empty⟩ | ⟨zero, later, filled⟩
  · rw [start, pagesBetween_self, Finset.union_empty] at refused
    exact iff_of_true (code ▸ by decide) (.inr refused)
  · exact iff_of_true (code ▸ by decide) (.inl empty)
  · have had : insert ph.firstLa pages ⊆ pages ∪ pagesBetween ph.firstLa cursor.la := by
      intro la member
      rw [Finset.mem_union, mem_pagesBetween first aligned]
      rcases Finset.mem_insert.mp member with rfl | old
      · exact .inr ⟨first, Nat.le_refl _, later⟩
      · exact .inl old
    have enough := Nat.le_trans (footprint_mono had) funds.footprint_le
    exact iff_of_false (not_not_intro zero) (by
      rintro (empty | short)
      · exact filled empty
      · exact absurd enough (Nat.not_le.mpr short))

/-- The next page of the segment -/
theorem takePage_turn (funds : Funds isOpen whole d free more areas (pages ∪ pagesBetween ph.firstLa cursor.la) loader)
    (member : ph.area ∈ areas) (clear : forall la, la ∈ ph.pages -> la ∉ pages) (turn : Turn ph last cursor)
    (owes : Owes ph cursor) (next : cursor.start < last) (within : last <= ph.lastEnd) (later : Prop) :
    Meets (takePage d cursor.la ph.perm cursor.ret) loader
      ⟨fun _ after => Funds isOpen whole d free more areas (pages ∪ pagesBetween ph.firstLa (cursor.la + pgSize)) after,
        fun ret _ => Judged (SegmentFits free pages ph later) whole ret, fun _ => False⟩ := by
  have first : ph.firstLa % pgSize = 0 := Nat.mul_mod_left _ _
  have ends : ph.lastEnd % pgSize = 0 := Nat.mul_mod_left _ _
  obtain ⟨_, _, room, low⟩ := turn.enters next within
  have new : cursor.la ∉ pages ∪ pagesBetween ph.firstLa cursor.la := by
    rw [Finset.mem_union, mem_pagesBetween first turn.aligned]
    rintro (old | ⟨_, _, below⟩)
    · exact clear _ ((mem_pagesBetween first ends).mpr ⟨turn.aligned, low, room⟩) old
    · exact Nat.lt_irrefl _ below
  have held : Exists fun vma => vma ∈ areas /\ vma.Holds cursor.la := ⟨ph.area, member, low, room⟩
  refine (takePage_spends funds held turn.aligned new ph.perm cursor.ret).mono ?_ ?_ (fun _ => id)
  · intro _ after left
    rwa [pagesBetween_next first turn.aligned low, Finset.union_insert]
  · rintro ret after ⟨rfl, refused⟩
    exact funds.refused owes turn.aligned low room refused later

/-- Where the file is read whole, its part for the segment is, and the position
does not overflow. -/
structure Reading (calls : FileCalls File) (isOpen : File -> Prop) (size : Nat) (ph : Proghdr) : Prop where
  serves : Whole calls isOpen size
  inside : ph.pOffset.toNat + ph.pFilesz.toNat <= size
  small : size < 2 ^ 63

/-- A turn goes on to the end of its page, or to `last`. -/
theorem Turn.chunk_eq (turn : Turn ph last cursor) (inside : cursor.la <= cursor.start)
    (near : cursor.start < cursor.la + pgSize) :
    chunk (cursor.start - cursor.la) (cursor.la + pgSize) last = min (cursor.la + pgSize) last - cursor.start := by
  have off : cursor.start - cursor.la = cursor.start + pgSize - (cursor.la + pgSize) := by omega
  rw [off]
  exact Exec.chunk_eq (Nat.add_le_add_right inside pgSize) near turn.ahead

/-- The loop over the pages that get bytes of the file makes the pages below
`la`, or ends in an error that the condition tells. -/
theorem filePages_spends {calls : FileCalls File} {content : Nat -> UInt8} {size : Nat}
    (serves : Serves calls isOpen content)
    (reading : whole -> Reading calls isOpen size ph) (ends : last = ph.pVa.toNat + ph.pFilesz.toNat)
    (within : last <= ph.lastEnd) (top : ph.lastEnd <= userTop) (member : ph.area ∈ areas)
    (clear : forall la, la ∈ ph.pages -> la ∉ pages) (later : Prop) (count : Nat) (cursor : Cursor)
    (funds : Funds isOpen whole d free more areas (pages ∪ pagesBetween ph.firstLa cursor.la) loader)
    (turn : Turn ph last cursor) (owes : Owes ph cursor)
    (place : whole -> cursor.offset = (ph.pOffset.toNat + (cursor.start - ph.pVa.toNat) : Nat))
    (enough : Enough cursor.start last count) :
    Meets (filePages calls d ph.perm last count cursor) loader
      ⟨fun next after => Funds isOpen whole d free more areas (pages ∪ pagesBetween ph.firstLa next.la) after /\
          Turn ph last next /\ Owes ph next /\ next.start = last,
        fun ret _ => Judged (SegmentFits free pages ph later) whole ret, fun _ => False⟩ := by
  induction count generalizing cursor loader with
  | zero => exact absurd enough.1 (Nat.lt_irrefl 0)
  | succ count inductionHypothesis =>
      rw [filePages, meets_ite]
      split
      case isFalse finished =>
        have ahead := turn.ahead
        exact ⟨funds, turn, owes, by omega⟩
      case isTrue next =>
        obtain ⟨over_la, near, room, low⟩ := turn.enters next within
        have begun : ph.pVa.toNat <= cursor.start := by
          have first := ph.firstLa_le
          rcases turn.place with ⟨_, same⟩ | ⟨after, _, _⟩
          · exact Nat.le_of_eq same.symm
          · have aligned := turn.aligned
            unfold Proghdr.firstLa firstPage pgSize at *
            omega
        rw [meets_bind]
        refine (takePage_turn funds member clear turn owes next within later).mono ?_ (fun _ _ => id) (fun _ => id)
        intro page middle grown
        have word := turn_word (show cursor.la + pgSize <= userTop + pgSize by omega)
        have length := turn.chunk_eq over_la near
        have sum : cursor.start + (min (cursor.la + pgSize) last - cursor.start) = min (cursor.la + pgSize) last := by
          omega
        dsimp only
        rw [word, length, meets_bind]
        refine (loadIcodeRead_meets serves grown.opened (fun _ _ => rfl) _ cursor.offset).mono ?_ ?_
          (fun _ => False.elim)
        case refine_2 =>
          rintro ret after ⟨nonzero, lost⟩
          refine ⟨fun _ => nonzero, fun read => absurd ?_ (lost size (reading read).serves)⟩
          have inside := (reading read).inside
          rw [place read]
          omega
        rintro bytes after ⟨_, _, rest, opened, rfl⟩
        rw [sum, turn_word (show min (cursor.la + pgSize) last <= userTop + pgSize by omega)]
        apply inductionHypothesis ⟨_, _, _, _, _⟩ ((grown.setFile opened).stored page _ _ bytes)
          (turn.next next within page _ 0)
        · refine .inr ⟨rfl, ?_, fun zero => ?_⟩
          · have positive : 0 < pgSize := by decide
            dsimp only
            omega
          · have none_left : ph.pFilesz.toNat = 0 := congrArg UInt64.toNat zero
            omega
        · intro read
          have inside := (reading read).inside
          have small := (reading read).small
          dsimp only
          rw [place read]
          unfold offT
          rw [Int.bmod_eq_of_le_mul_two] <;> omega
        · exact enough.next next turn.aligned over_la near

/-- The loop over the other pages -/
theorem bssPages_spends (within : last <= ph.lastEnd) (top : ph.lastEnd <= userTop) (member : ph.area ∈ areas)
    (clear : forall la, la ∈ ph.pages -> la ∉ pages) (later : Prop) (count : Nat) (cursor : Cursor)
    (funds : Funds isOpen whole d free more areas (pages ∪ pagesBetween ph.firstLa cursor.la) loader)
    (turn : Turn ph last cursor) (owes : cursor.ret = eNoMem /\ ph.pFilesz = 0 \/
      cursor.ret = 0 /\ ph.firstLa < cursor.la /\ ph.pFilesz ≠ 0)
    (filled : ph.pVa.toNat < last) (enough : Enough cursor.start last count) :
    Meets (bssPages d ph.perm last count cursor) loader
      ⟨fun _ after => Exists fun la =>
        Funds isOpen whole d free more areas (pages ∪ pagesBetween ph.firstLa la) after /\
          la % pgSize = 0 /\ la <= ph.lastEnd /\ last <= la,
        fun ret _ => Judged (SegmentFits free pages ph later) whole ret, fun _ => False⟩ := by
  induction count generalizing cursor loader with
  | zero => exact absurd enough.1 (Nat.lt_irrefl 0)
  | succ count inductionHypothesis =>
      rw [bssPages, meets_ite]
      split
      case isFalse finished =>
        have ahead := turn.ahead
        refine ⟨cursor.la, funds, turn.aligned, turn.high, ?_⟩
        rcases turn.place with ⟨_, same⟩ | place <;> omega
      case isTrue next =>
        obtain ⟨over_la, near, room, low⟩ := turn.enters next within
        have owed : Owes ph cursor := owes.imp_left fun both => ⟨both.1, .inr both.2⟩
        rw [meets_bind]
        refine (takePage_turn funds member clear turn owed next within later).mono ?_ (fun _ _ => id) (fun _ => id)
        intro page middle grown
        have word := turn_word (show cursor.la + pgSize <= userTop + pgSize by omega)
        have length := turn.chunk_eq over_la near
        have sum : cursor.start + (min (cursor.la + pgSize) last - cursor.start) = min (cursor.la + pgSize) last := by
          omega
        dsimp only
        rw [word, length, meets_bind]
        unfold storePage
        rw [meets_modify]
        dsimp only
        rw [sum, turn_word (show min (cursor.la + pgSize) last <= userTop + pgSize by omega)]
        apply inductionHypothesis ⟨_, _, _, _, _⟩ (grown.stored page _ _ _) (turn.next next within page _ _)
        · refine owes.imp_right fun both => ⟨both.1, ?_, both.2.2⟩
          exact Nat.lt_of_lt_of_le both.2.1 (Nat.le_add_right _ _)
        · exact enough.next next turn.aligned over_la near

/-- The rest of the last page of the file takes nothing. -/
theorem zeroBoundary_spends {file : Nat} (within : last <= ph.lastEnd) (top : ph.lastEnd <= userTop)
    (behind : file <= last)
    (funds : Funds isOpen whole d free more areas (pages ∪ pagesBetween ph.firstLa cursor.la) loader)
    (turn : Turn ph file cursor) (stands : cursor.start = file) :
    Meets (zeroBoundary last cursor) loader
      ⟨fun next after => Funds isOpen whole d free more areas (pages ∪ pagesBetween ph.firstLa next.la) after /\
          Turn ph last next /\ next.la = cursor.la /\ next.ret = cursor.ret, fun _ _ => False, fun _ => False⟩ := by
  have first := ph.firstLa_le
  have ahead : cursor.start <= last := stands ▸ behind
  unfold zeroBoundary
  rw [meets_ite]
  split
  case isFalse over_la =>
    exact ⟨funds, ⟨turn.aligned, turn.high, ahead, turn.place, fun below => absurd below over_la⟩, rfl, rfl⟩
  case isTrue below =>
    have closed := turn.closed below
    rw [meets_ite]
    split
    case isFalse finished =>
      refine ⟨funds, ⟨turn.aligned, turn.high, ahead, turn.place, fun _ => ⟨by omega, closed.2⟩⟩, rfl, rfl⟩
    case isTrue next =>
      have inside : ph.firstLa < cursor.la /\ cursor.la <= cursor.start + pgSize := by
        rcases turn.place with ⟨_, _⟩ | place <;> omega
      have high := turn.high
      have length := chunk_eq inside.2 below ahead
      have sum : cursor.start + (min cursor.la last - cursor.start) = min cursor.la last := by omega
      obtain ⟨page, has⟩ := Option.isSome_iff_exists.mp closed.2
      dsimp only
      rw [has, length, meets_bind]
      unfold zeroPage storePage
      rw [meets_modify]
      dsimp only
      rw [meets_pure, sum, turn_word (show min cursor.la last <= userTop + pgSize by omega)]
      refine ⟨funds.stored page _ _ _,
        ⟨turn.aligned, high, Nat.min_le_right _ _, .inr ⟨inside.1, Nat.min_le_left _ _, ?_⟩,
        fun closing => ⟨?_, rfl⟩⟩, rfl, rfl⟩
      · dsimp only
        omega
      · dsimp only at closing ⊢
        omega

/-- The end of the range is computed without overflow, or the range is not one of
the user either way. -/
theorem startRefused_rounded (ends : ph.Ends) :
    StartRefused areas (firstPage ph.pVa) (Vm.roundUp (ph.pVa + ph.pMemsz) 4096) <->
      StartRefused areas ph.firstLa ph.lastEnd := by
  by_cases access : UserAccess (firstPage ph.pVa) (Vm.roundUp (ph.pVa + ph.pMemsz) 4096)
  · rw [ph.lastEnd_eq ends access]
    rfl
  · refine iff_of_true (.inl access) (.inl fun inside => access ?_)
    rw [lastPage_eq inside.2.2]
    exact inside

/-- A new area has no pages. -/
theorem Funds.clear (funds : Funds isOpen whole d free more areas pages loader) (joins : Joins areas ph.area) :
    forall la, la ∈ ph.pages -> la ∉ pages := by
  intro la member old
  obtain ⟨vma, found, holds⟩ := funds.inside la old
  have apart := joins vma found
  have first : ph.firstLa % pgSize = 0 := Nat.mul_mod_left _ _
  have ends : ph.lastEnd % pgSize = 0 := Nat.mul_mod_left _ _
  have range := (mem_pagesBetween first ends).mp member
  unfold Vma.Apart Vma.Holds Proghdr.area at *
  dsimp only at apart
  omega

theorem loadSegment_spends {calls : FileCalls File} {content : Nat -> UInt8} {size : Nat}
    (serves : Serves calls isOpen content)
    (reading : whole -> Reading calls isOpen size ph) (ends : ph.Ends) (file : ph.pFilesz <= ph.pMemsz)
    (filled : ph.pMemsz ≠ 0)
    (later : Prop) (funds : Funds isOpen whole d free (more + 1) areas pages loader) :
    Meets (loadSegment calls d ph) loader
      ⟨fun _ after => Funds isOpen whole d free more (ph.area :: areas) (pages ∪ ph.pages) after /\
          (SegmentLoads free areas pages ph later <-> later),
        fun ret _ => Judged (SegmentLoads free areas pages ph later) whole ret,
        fun _ => ¬ SegmentLoads free areas pages ph later⟩ := by
  have smaller : ph.pFilesz.toNat <= ph.pMemsz.toNat := UInt64.le_iff_toNat_le.mp file
  have positive : 0 < ph.pMemsz.toNat := Nat.pos_of_ne_zero fun zero => filled (UInt64.toNat_inj.mp zero)
  have memory := ph.endAt_eq ends
  have stored : ph.endAt ph.pFilesz = ph.pVa.toNat + ph.pFilesz.toNat := by
    unfold Proghdr.Ends at ends
    unfold Proghdr.endAt
    rw [UInt64.toNat_add, Nat.mod_eq_of_lt (by omega)]
  have within : ph.pVa.toNat + ph.pMemsz.toNat <= ph.lastEnd := ph.le_lastEnd
  unfold loadSegment SegmentLoads
  rw [meets_bind]
  refine (mmMap_spends funds ph.pVa ph.pMemsz ph.vmFlags).mono ?_ ?_ ?_
  case refine_2 =>
    rintro ret after ⟨nonzero, refused⟩
    exact ⟨fun _ => nonzero, fun read _ => .inl ((startRefused_rounded ends).mp (refused read))⟩
  case refine_3 =>
    rintro fault ⟨passes, clashes⟩ (refused | ⟨joins, _⟩)
    · exact passes ((startRefused_rounded ends).mpr refused)
    · have access : UserAccess (firstPage ph.pVa) (Vm.roundUp (ph.pVa + ph.pMemsz) 4096) :=
        of_not_not fun outside => passes (.inl outside)
      rw [ph.lastEnd_eq ends access] at clashes
      exact clashes joins
  rintro _ base ⟨⟨passes, joins⟩, mapped⟩
  have access : UserAccess (firstPage ph.pVa) (Vm.roundUp (ph.pVa + ph.pMemsz) 4096) :=
    of_not_not fun outside => passes (.inl outside)
  rw [startRefused_rounded ends] at passes
  rw [ph.lastEnd_eq ends access] at joins mapped access
  have joined : Joins areas ph.area := joins
  have decided : StartRefused areas ph.firstLa ph.lastEnd \/ Joins areas ph.area /\ SegmentFits free pages ph later <->
      SegmentFits free pages ph later := (or_iff_right passes).trans (and_iff_right joined)
  rw [decided]
  have top : ph.lastEnd <= userTop := access.2.2
  have member : ph.area ∈ ph.area :: areas := List.mem_cons_self ..
  have clear := funds.clear joined
  have first := ph.firstLa_le
  have begun : Funds isOpen whole d free more (ph.area :: areas) (pages ∪ pagesBetween ph.firstLa ph.firstLa) base := by
    rw [pagesBetween_self, Finset.union_empty]
    exact mapped
  have turn : Turn ph (ph.pVa.toNat + ph.pFilesz.toNat)
      ⟨ph.pVa.toNat, ph.firstLa, offT ph.pOffset.toNat, none, eNoMem⟩ :=
    ⟨Nat.mul_mod_left _ _, Nat.le_of_lt access.2.1, Nat.le_add_right _ _, .inl ⟨rfl, rfl⟩,
      fun below => absurd first (Nat.not_le.mpr below)⟩
  dsimp only
  rw [roundDown_eq, memory, stored, meets_bind]
  refine (filePages_spends serves reading rfl (by omega) top member clear later _
    ⟨ph.pVa.toNat, ph.firstLa, offT ph.pOffset.toNat, none, eNoMem⟩ begun turn (.inl ⟨rfl, .inl rfl⟩) ?_
    (enough_turns _ _)).mono ?_ (fun _ _ => id) (fun _ => False.elim)
  · intro read
    have inside := (reading read).inside
    have small := (reading read).small
    dsimp only
    unfold offT
    rw [Int.bmod_eq_of_le_mul_two] <;> omega
  rintro cursor middle ⟨made, turn, owes, stands⟩
  dsimp only
  rw [meets_bind]
  refine (zeroBoundary_spends within top (by omega) made turn stands).mono ?_ (fun _ _ => False.elim)
    (fun _ => False.elim)
  rintro rest next ⟨left, turned, sameLa, sameRet⟩
  have owed : rest.ret = eNoMem /\ ph.pFilesz = 0 \/ rest.ret = 0 /\ ph.firstLa < rest.la /\ ph.pFilesz ≠ 0 := by
    rw [sameLa, sameRet]
    refine owes.imp_left fun both => ⟨both.1, both.2.elim (fun start => ?_) id⟩
    -- No page was made, so the file has no bytes for the segment.
    have nothing : ph.pFilesz.toNat = 0 := by
      rcases turn.place with ⟨_, same⟩ | ⟨above, _⟩ <;> omega
    exact UInt64.toNat_inj.mp nothing
  dsimp only
  refine (bssPages_spends within top member clear later _ rest left turned owed (by omega) (enough_turns _ _)).mono ?_
    (fun _ _ => id) (fun _ => False.elim)
  rintro _ after ⟨la, made, aligned, high, covered⟩
  have last : la = ph.lastEnd := by
    unfold Proghdr.lastEnd lastPage at *
    unfold pgSize at *
    omega
  rw [last] at made
  exact ⟨made, iff_of_eq (if_pos made.footprint_le)⟩

end Loops

/-! ## The headers and the stack -/

/-- The file has its headers and the bytes of its segments, all of it is read
whole, the segments end at machine words, and `kmalloc` succeeds.  What can still
go wrong in `load_icode` is that pages run out or areas collide. -/
structure Complete (calls : FileCalls File) (isOpen : File -> Prop) (content : Nat -> UInt8) (size : Nat)
    (grants : List Bool) : Prop where
  serves : Whole calls isOpen size
  small : size < 2 ^ 63
  header : elfhdrSize <= size
  table : (elfhdrOf content).ePhoff.toNat + proghdrSize * (elfhdrOf content).ePhnum.toNat <= size
  segments : forall ph, IsLoaded content ph -> ph.pOffset.toNat + ph.pFilesz.toNat <= size
  ends : forall ph, IsLoaded content ph -> ph.Ends
  granted : Granted ((elfhdrOf content).ePhnum.toNat + 2) grants

section Headers

variable {isOpen : File -> Prop} {whole condition : Prop} {free more : Nat} {areas : List Vma} {pages : Finset Nat}
  {loader : Loader M File} {ph : Proghdr} {kargv : List (List UInt8)} {rest : List Proghdr}
  {calls : FileCalls File} {content : Nat -> UInt8} {size : Nat}

/-- The condition is that for the headers from here on.  After a segment whose
end overflows nothing is known: then the condition does not hold, and the file
is not one that is read `whole`. -/
def Ahead (isOpen : File -> Prop) (whole condition : Prop) (d free more : Nat) (kargv : List (List UInt8))
    (rest : List Proghdr) (loader : Loader M File) : Prop :=
  ¬ condition /\ ¬ whole \/ Exists fun areas => Exists fun pages =>
    Funds isOpen whole d free more areas pages loader /\ (condition <-> Fits free kargv rest areas pages)

theorem loadProghdr_spends (serves : Serves calls isOpen content)
    (reading : whole -> ph.Loaded -> Reading calls isOpen size ph)
    (ends : whole -> ph.Loaded -> ph.Ends) (funds : Funds isOpen whole d free (more + 1) areas pages loader)
    (decides : condition <-> Fits free kargv (ph :: rest) areas pages) :
    Meets (loadProghdr calls d ph) loader
      ⟨fun _ after => Ahead isOpen whole condition d free more kargv rest after,
        fun ret _ => Judged condition whole ret, fun _ => ¬ condition⟩ := by
  have fewer : Funds isOpen whole d free more areas pages loader :=
    { funds with granted := fun read => (funds.granted read).mono (Nat.le_succ more) }
  rw [Fits] at decides
  unfold loadProghdr
  rw [meets_ite]
  split
  case isTrue other =>
    rw [if_pos other] at decides
    exact .inr ⟨areas, pages, fewer, decides⟩
  case isFalse load =>
    rw [if_neg load] at decides
    rw [meets_ite]
    split
    case isTrue wrong =>
      rw [if_pos wrong] at decides
      exact ⟨fun _ => by decide, fun _ _ => decides.mpr trivial⟩
    case isFalse file =>
      rw [if_neg file] at decides
      rw [meets_ite]
      split
      case isTrue empty =>
        rw [if_pos empty] at decides
        exact .inr ⟨areas, pages, fewer, decides⟩
      case isFalse filled =>
        rw [if_neg filled] at decides
        have loaded : ph.Loaded := ⟨of_not_not load, filled⟩
        by_cases word : ph.Ends
        · rw [and_iff_right word] at decides
          refine (loadSegment_spends serves (fun read => reading read loaded) word
            (UInt64.not_lt.mp file) filled _ funds).mono
            ?_ (fun _ _ judged => judged.congr decides.symm) (fun _ fails => fails ∘ decides.mp)
          rintro _ after ⟨left, later⟩
          exact .inr ⟨_, _, left, decides.trans later⟩
        · have fails : ¬ condition := fun holds => word (decides.mp holds).1
          have cut : ¬ whole := fun read => word (ends read loaded)
          refine (Meets.any _ _).mono (fun _ _ _ => .inl ⟨fails, cut⟩) ?_ (fun _ _ => fails)
          exact fun _ _ _ => ⟨fun holds => absurd holds fails, fun read => absurd read cut⟩

/-- The place of a header does not overflow. -/
theorem Complete.place {grants : List Bool} (complete : Complete calls isOpen content size grants) {i : Nat}
    (below : i < (elfhdrOf content).ePhnum.toNat) :
    0 <= offT ((elfhdrOf content).ePhoff.toNat + proghdrSize * i : Nat) /\
      offT ((elfhdrOf content).ePhoff.toNat + proghdrSize * i : Nat) + proghdrSize <= size := by
  have table := complete.table
  have small := complete.small
  have word : offT ((elfhdrOf content).ePhoff.toNat + proghdrSize * i : Nat) =
      ((elfhdrOf content).ePhoff.toNat + proghdrSize * i : Nat) := by
    unfold offT
    unfold proghdrSize at *
    rw [Int.bmod_eq_of_le_mul_two] <;> omega
  rw [word]
  unfold proghdrSize at *
  omega

theorem loadHeader_spends {grants : List Bool} (serves : Serves calls isOpen content)
    (complete : whole -> Complete calls isOpen content size grants) {i : Nat}
    (below : i < (elfhdrOf content).ePhnum.toNat)
    (ahead : Ahead isOpen whole condition d free (more + 1) kargv (headerAt content (elfhdrOf content) i :: rest)
      loader) :
    Meets (loadHeader calls d (elfhdrOf content) i) loader
      ⟨fun _ after => Ahead isOpen whole condition d free more kargv rest after,
        fun ret _ => Judged condition whole ret, fun _ => ¬ condition⟩ := by
  rcases ahead with ⟨fails, cut⟩ | ⟨areas, pages, funds, decides⟩
  · refine (Meets.any _ _).mono (fun _ _ _ => .inl ⟨fails, cut⟩) ?_ (fun _ _ => fails)
    exact fun _ _ _ => ⟨fun holds => absurd holds fails, fun read => absurd read cut⟩
  unfold loadHeader
  rw [meets_bind]
  refine (loadIcodeRead_noPut serves funds.opened proghdrSize _).mono ?_ ?_ (fun _ => False.elim)
  · rintro bytes after ⟨read, file, opened, rfl⟩
    have same : proghdrOf bytes = headerAt content (elfhdrOf content) i := proghdrOf_congr read
    have reading (read : whole) (loaded : (headerAt content (elfhdrOf content) i).Loaded) :
        Reading calls isOpen size (headerAt content (elfhdrOf content) i) :=
      ⟨(complete read).serves, (complete read).segments _ ⟨i, below, rfl, loaded⟩, (complete read).small⟩
    dsimp only
    rw [same]
    exact loadProghdr_spends serves reading (fun read loaded => (complete read).ends _ ⟨i, below, rfl, loaded⟩)
      (funds.setFile opened) decides
  · rintro ret after ⟨nonzero, lost⟩
    exact ⟨fun _ => nonzero, fun read _ => absurd ((complete read).place below) (lost size (complete read).serves)⟩

theorem loadSegments_spends {grants : List Bool} (serves : Serves calls isOpen content)
    (complete : whole -> Complete calls isOpen content size grants)
    (ahead : Ahead isOpen whole condition d free ((elfhdrOf content).ePhnum.toNat + 1) kargv
      (headers content (elfhdrOf content)) loader) :
    Meets (loadSegments calls d (elfhdrOf content)) loader
      ⟨fun _ after => Ahead isOpen whole condition d free 1 kargv [] after,
        fun ret _ => Judged condition whole ret, fun _ => ¬ condition⟩ := by
  have length : (headers content (elfhdrOf content)).length = (elfhdrOf content).ePhnum.toNat := by
    unfold headers
    rw [List.length_map, List.length_range]
  apply meets_forRange
    (fun i loader => Ahead isOpen whole condition d free ((elfhdrOf content).ePhnum.toNat - i + 1) kargv
    ((headers content (elfhdrOf content)).drop i) loader)
  · intro i current _ below ahead
    rw [Nat.zero_add] at below
    have next : (headers content (elfhdrOf content)).drop i =
        headerAt content (elfhdrOf content) i :: (headers content (elfhdrOf content)).drop (i + 1) := by
      rw [List.drop_eq_getElem_cons (length.symm ▸ below)]
      unfold headers
      rw [List.getElem_map, List.getElem_range]
    rw [next, show (elfhdrOf content).ePhnum.toNat - i + 1 = (elfhdrOf content).ePhnum.toNat - (i + 1) + 1 + 1 by omega]
      at ahead
    exact loadHeader_spends serves complete below ahead
  · intro current ahead
    rwa [Nat.zero_add, Nat.sub_self, List.drop_of_length_le (Nat.le_of_eq length)] at ahead
  · exact ahead

/-- A page of the stack that is refused fails an assertion. -/
theorem stackPage_spends {count : Nat} (few : count < 4) (clear : forall la, la ∈ pages -> ¬ stackArea.Holds la)
    (funds : Funds isOpen whole d free more (stackArea :: areas)
      (pages ∪ pagesBetween (ustackTop - count * pgSize) ustackTop) loader) (text : String) :
    Meets (stackPage d (ustackTop - (count + 1) * pgSize) text) loader
      ⟨fun _ after => Funds isOpen whole d free more (stackArea :: areas)
          (pages ∪ pagesBetween (ustackTop - (count + 1) * pgSize) ustackTop) after,
        fun _ _ => False, fun _ => free < footprint (pages ∪ stackPages)⟩ := by
  have whole_pages : ustackTop % pgSize = 0 := by decide
  have enough : 4 * pgSize < ustackTop - ustackSize := by decide
  have size : 4 * pgSize <= ustackSize := by decide
  have fewer : (count + 1) * pgSize <= 4 * pgSize := Nat.mul_le_mul_right _ few
  have one_more : (count + 1) * pgSize = count * pgSize + pgSize := Nat.succ_mul count pgSize
  have positive : 0 < pgSize := by decide
  have aligned : forall number, number <= 4 -> (ustackTop - number * pgSize) % pgSize = 0 := by
    intro number _
    exact Nat.mod_eq_zero_of_dvd (Nat.dvd_sub (Nat.dvd_of_mod_eq_zero whole_pages) (Nat.dvd_mul_left ..))
  have here := aligned (count + 1) few
  have held : stackArea.Holds (ustackTop - (count + 1) * pgSize) := by
    unfold Vma.Holds stackArea
    dsimp only
    omega
  have ends : ustackTop - (count + 1) * pgSize + pgSize = ustackTop - count * pgSize := by omega
  have grown : insert (ustackTop - (count + 1) * pgSize) (pages ∪ pagesBetween (ustackTop - count * pgSize) ustackTop) =
      pages ∪ pagesBetween (ustackTop - (count + 1) * pgSize) ustackTop := by
    rw [pagesBetween_before here whole_pages held.2, ends, Finset.union_insert]
  have within : pages ∪ pagesBetween (ustackTop - (count + 1) * pgSize) ustackTop ⊆ pages ∪ stackPages :=
    Finset.union_subset_union_right (pagesBetween_mono here (aligned 4 (Nat.le_refl 4)) whole_pages (by omega))
  have new : ustackTop - (count + 1) * pgSize ∉ pages ∪ pagesBetween (ustackTop - count * pgSize) ustackTop := by
    rw [Finset.mem_union, mem_pagesBetween (aligned count (Nat.le_of_lt few)) whole_pages]
    rintro (old | ⟨_, below, _⟩)
    · exact clear _ old held
    · omega
  unfold stackPage
  rw [meets_bind]
  refine (pgdirAllocPage_spends funds ⟨stackArea, List.mem_cons_self .., held⟩ here new pteUser).mono ?_
    (fun _ _ => False.elim) (fun _ => False.elim)
  rw [grown]
  rintro (_ | page) after left
  · exact Nat.lt_of_lt_of_le left (footprint_mono within)
  · exact left

/-- The stack is mapped, and then the condition is that on the arguments. -/
theorem mapStack_spends (funds : Funds isOpen whole d free 1 areas pages loader)
    (decides : condition <-> Fits free kargv [] areas pages) :
    Meets (mapStack d) loader
      ⟨fun _ after => (condition <-> blockSize kargv <= 4 * pgSize) /\
          after.sys.mapping (d, pageNumber (ustackTop - 5 * pgSize)) = none,
        fun ret _ => Judged condition whole ret, fun _ => ¬ condition⟩ := by
  have first : firstPage (UInt64.ofNat (ustackTop - ustackSize)) = stackArea.vmStart := by decide
  have last : Vm.roundUp (UInt64.ofNat (ustackTop - ustackSize) + UInt64.ofNat ustackSize) 4096 = stackArea.vmEnd := by
    decide
  rw [Fits] at decides
  unfold mapStack
  rw [meets_bind]
  refine (mmMap_spends funds _ _ stackFlags).mono ?_ ?_ ?_
  case refine_2 =>
    rintro ret after ⟨nonzero, refused⟩
    rw [first, last] at refused
    exact ⟨fun _ => nonzero, fun read _ => decides.mpr (.inl (refused read))⟩
  case refine_3 =>
    rintro fault ⟨passes, clashes⟩ holds
    rw [first, last] at passes clashes
    exact (decides.mp holds).elim passes fun both => clashes both.1
  rintro _ base ⟨⟨passes, joins⟩, mapped⟩
  rw [first, last] at passes joins mapped
  have joined : Joins areas stackArea := joins
  rw [or_iff_right passes, and_iff_right joined] at decides
  have clear : forall la, la ∈ pages -> ¬ stackArea.Holds la := by
    intro la member inside
    obtain ⟨vma, found, holds⟩ := funds.inside la member
    have apart := joined vma found
    unfold Vma.Apart Vma.Holds at *
    omega
  have stops : forall fault : Fault, free < footprint (pages ∪ stackPages) -> ¬ condition := fun _ short holds =>
    absurd (decides.mp holds).1 (Nat.not_le.mpr short)
  have none_yet : Funds isOpen whole d free 0 (stackArea :: areas)
      (pages ∪ pagesBetween (ustackTop - 0 * pgSize) ustackTop) base := by
    rw [Nat.zero_mul, Nat.sub_zero, pagesBetween_self, Finset.union_empty]
    exact mapped
  dsimp only
  rw [meets_bind]
  refine (stackPage_spends (by decide) clear none_yet _).mono ?_ (fun _ _ => False.elim) stops
  intro _ one left
  dsimp only
  rw [meets_bind]
  refine (stackPage_spends (by decide) clear left _).mono ?_ (fun _ _ => False.elim) stops
  intro _ two left
  dsimp only
  rw [meets_bind]
  refine (stackPage_spends (by decide) clear left _).mono ?_ (fun _ _ => False.elim) stops
  intro _ three left
  dsimp only
  refine (stackPage_spends (by decide) clear left _).mono ?_ (fun _ _ => False.elim) stops
  intro _ four left
  have enough : footprint (pages ∪ stackPages) <= free := left.footprint_le
  refine ⟨decides.trans (and_iff_right enough), ?_⟩
  refine left.populated.unmapped _ (by decide) (by decide) ?_
  rw [Finset.mem_union, mem_pagesBetween (by decide) (by decide)]
  rintro (old | ⟨_, low, _⟩)
  · exact clear _ old (by decide)
  · exact absurd low (by decide)

/-! ## Up to the arguments -/

/-- The run up to the arguments ends as the condition says. -/
theorem build_spends {grants : List Bool} (serves : Serves calls isOpen content)
    (complete : whole -> Complete calls isOpen content size grants)
    (ahead : Ahead isOpen whole condition d free ((elfhdrOf content).ePhnum.toNat + 1) kargv
      (headers content (elfhdrOf content)) loader) :
    Meets (build calls d (elfhdrOf content)) loader
      ⟨fun _ after => ¬ condition /\ ¬ whole \/ (condition <-> blockSize kargv <= 4 * pgSize) /\
          after.sys.mapping (d, pageNumber (ustackTop - 5 * pgSize)) = none,
        fun ret _ => Judged condition whole ret, fun _ => ¬ condition⟩ := by
  unfold build
  rw [meets_bind]
  refine (loadSegments_spends serves complete ahead).mono ?_ (fun _ _ => id) (fun _ => id)
  rintro _ loaded (⟨fails, cut⟩ | ⟨areas, pages, funds, decides⟩)
  · refine (Meets.any _ _).mono (fun _ _ _ => .inl ⟨fails, cut⟩) ?_ (fun _ _ => fails)
    exact fun _ _ _ => ⟨fun holds => absurd holds fails, fun read => absurd read cut⟩
  · dsimp only
    rw [meets_bind]
    refine (mapStack_spends funds decides).mono ?_ (fun _ _ => id) (fun _ => id)
    exact fun _ mapped known => .inr known

theorem readElf_spends {grants : List Bool} (serves : Serves calls isOpen content)
    (complete : whole -> Complete calls isOpen content size grants) (opened : isOpen loader.file)
    (magic : (elfhdrOf content).eMagic ≠ elfMagic -> condition) :
    Meets (readElf calls) loader
      ⟨fun elf after => (elf = elfhdrOf content /\ (elfhdrOf content).eMagic = elfMagic) /\
          Exists fun file => isOpen file /\ after = { loader with file := file },
        fun ret _ => Judged condition whole ret, fun _ => False⟩ := by
  unfold readElf
  rw [meets_bind]
  refine (loadIcodeRead_noPut serves opened elfhdrSize 0).mono ?_ ?_ (fun _ => False.elim)
  · rintro bytes after ⟨read, file, still, rfl⟩
    have same : elfhdrOf bytes = elfhdrOf content :=
      elfhdrOf_congr fun index below => (read index below).trans (congrArg content (Nat.zero_add index))
    dsimp only
    rw [meets_ite, same]
    split
    case isTrue wrong => exact ⟨fun _ => by decide, fun _ _ => magic wrong⟩
    case isFalse right => exact ⟨⟨rfl, of_not_not right⟩, file, still, rfl⟩
  · rintro ret after ⟨nonzero, lost⟩
    refine ⟨fun _ => nonzero, fun read _ => absurd ⟨Int.le_refl 0, ?_⟩ (lost size (complete read).serves)⟩
    have header := (complete read).header
    omega

/-- The new address space has no areas and no pages, and took one frame. -/
theorem setupPgdir_spends (created : Created d loader)
    (uncounted : forall frame, loader.sys.frames.IsFree frame -> loader.sys.frames.ref frame = 0)
    (opened : isOpen loader.file) (granted : whole -> Granted more loader.grants) :
    Meets (setupPgdir d) loader
      ⟨fun _ after => M.nrFreePages loader.sys.frames.pool ≠ 0 /\
          Funds isOpen whole d (M.nrFreePages loader.sys.frames.pool - 1) more [] ∅ after,
        fun ret _ => ret ≠ 0 /\ M.nrFreePages loader.sys.frames.pool = 0, fun _ => False⟩ := by
  have steady := setupPgdir_meets loader created
  unfold setupPgdir at steady ⊢
  rw [meets_bind, meets_get] at steady ⊢
  dsimp only at steady ⊢
  cases allocated : loader.sys.frames.allocPage with
  | none => exact ⟨by decide, (Frames.allocPage_eq_none_iff created.used.sound).mp allocated⟩
  | some taken =>
      rcases taken with ⟨page, frames⟩
      have takes := Frames.allocPage_takes created.used.sound allocated
      have keeps := Frames.allocPage_keeps allocated
      rw [allocated] at steady
      unfold pgdirPage at steady ⊢
      rw [meets_modify] at steady ⊢
      have counted := takes.nrFree
      refine ⟨by omega, ?_⟩
      exact
        { steady := steady.1.1
          populated := by
            refine .blank (AddressSpaces.pgdir_setPgdir ..) fun frame free => ?_
            exact (congrFun keeps.1 frame).trans (uncounted frame (takes.shrinks free))
          listed := by
            rw [steady.2.1.1]
          inside := fun la member => absurd member (Finset.notMem_empty la)
          counted := by
            change M.nrFreePages frames.pool + footprint ∅ = _
            have nothing : footprint ∅ = 0 := rfl
            omega
          opened := opened
          granted := granted }

theorem mmCreate_spends (start : Loader M File) :
    Meets (mmCreate d) start
      ⟨fun _ made => made.sys.frames = start.sys.frames /\ made.grants = start.grants.tail,
        fun ret _ => ret ≠ 0 /\ start.grants.headD false = false, fun _ => True⟩ := by
  unfold mmCreate kmalloc
  rw [meets_bind, meets_bind, meets_get]
  dsimp only
  rw [meets_bind, meets_modify]
  dsimp only
  rw [meets_pure]
  dsimp only
  rw [meets_ite]
  split
  · exact ⟨rfl, rfl⟩
  · rename_i refused
    exact ⟨(by decide : eNoMem ≠ 0), Bool.eq_false_iff.mpr refused⟩

/-- The steps before the arguments end as the condition says. -/
theorem prepare_spends {start : Loader M File} (serves : Serves calls isOpen content) (opened : isOpen start.file)
    (used : start.sys.Used) (uncounted : forall frame, start.sys.frames.IsFree frame -> start.sys.frames.ref frame = 0)
    (complete : whole -> Complete calls isOpen content size start.grants) (kargv : List (List UInt8)) :
    Meets (prepare calls d) start
      ⟨fun _ ready => ¬ LoadFits (M.nrFreePages start.sys.frames.pool) content kargv /\ ¬ whole \/
          (LoadFits (M.nrFreePages start.sys.frames.pool) content kargv <-> blockSize kargv <= 4 * pgSize) /\
            ready.sys.mapping (d, pageNumber (ustackTop - 5 * pgSize)) = none,
        fun ret _ => Judged (LoadFits (M.nrFreePages start.sys.frames.pool) content kargv) whole ret,
        fun _ => ¬ LoadFits (M.nrFreePages start.sys.frames.pool) content kargv⟩ := by
  unfold prepare
  rw [meets_bind]
  refine ((mmCreate_meets start used).and (mmCreate_spends start)).mono ?_ ?_ (fun _ stopped => stopped.1.elim)
  case refine_2 =>
    rintro ret _ ⟨_, nonzero, refused⟩
    refine ⟨fun _ => nonzero, fun read => ?_⟩
    exact absurd ((complete read).granted.head.1.symm.trans refused) Bool.noConfusion
  rintro _ made ⟨⟨created, _, file⟩, frames, grants⟩
  have left : whole -> Granted ((elfhdrOf content).ePhnum.toNat + 1) made.grants := fun read =>
    grants ▸ (complete read).granted.head.2
  dsimp only
  rw [meets_bind]
  refine (setupPgdir_spends created (frames ▸ uncounted) (file ▸ opened) left).mono ?_ ?_ (fun _ => False.elim)
  case refine_2 =>
    rintro ret _ ⟨nonzero, empty⟩
    exact ⟨fun _ => nonzero, fun _ _ => .inl (frames ▸ empty)⟩
  rintro _ blank ⟨some, funds⟩
  rw [frames] at some funds
  dsimp only
  rw [meets_bind]
  refine (readElf_spends serves complete funds.opened fun wrong => .inr (.inl wrong)).mono ?_ (fun _ _ => id)
    (fun _ => False.elim)
  rintro elf _ ⟨⟨rfl, right⟩, rest, still, rfl⟩
  have decides : LoadFits (M.nrFreePages start.sys.frames.pool) content kargv <->
      Fits (M.nrFreePages start.sys.frames.pool - 1) kargv (headers content (elfhdrOf content)) [] ∅ :=
    (or_iff_right some).trans (or_iff_right (not_not_intro right))
  dsimp only
  rw [meets_bind]
  refine (build_spends serves complete (.inr ⟨[], ∅, funds.setFile still, decides⟩)).mono ?_ (fun _ _ => id)
    (fun _ => id)
  exact fun _ ready known => known

end Headers

end Exec
end Ucore
