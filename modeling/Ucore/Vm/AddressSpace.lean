import Ucore.Vm.PageTable
import Ucore.Vm.PhysicalMemory

namespace Ucore
namespace Vm

/-!
# Address spaces

Address spaces are numbered, and the functions take the number where the
source takes an `mm_struct` or its page directory, so that two arguments may
name the same one.  A pointer to a page table entry is the address it was
looked up with.

A result `none` is a failed assertion.  Loops over address ranges advance by
at least a page, and get one step for each page of the range.
-/

/-- The error codes that occur here. -/
inductive Errno where
  | inval
  | noMem
deriving DecidableEq, Repr

structure VmFlags where
  read : Bool := false
  write : Bool := false
  exec : Bool := false
  stack : Bool := false
deriving DecidableEq, Repr

structure Vma where
  vmStart : Nat
  vmEnd : Nat
  vmFlags : VmFlags
deriving DecidableEq, Repr

structure Mm where
  pgdir : PageDirectory
  mmapList : List Vma
  mmapCache : Option Vma

/-- `USERBASE` and `USERTOP` -/
def userBase : Nat := 0x200000

def userTop : Nat := 0x80000000

def UserAccess (first last : Nat) : Prop := userBase <= first /\ first < last /\ last <= userTop

instance (first last : Nat) : Decidable (UserAccess first last) := inferInstanceAs (Decidable (_ /\ _ /\ _))

/-! ## Virtual memory areas -/

/-- The address lies in the area. -/
def Vma.Holds (vma : Vma) (addr : Nat) : Prop := vma.vmStart <= addr /\ addr < vma.vmEnd

instance (vma : Vma) (addr : Nat) : Decidable (vma.Holds addr) := inferInstanceAs (Decidable (_ /\ _))

namespace Mm

/-- `find_vma`: the cache first, then the list. -/
def findVma (mm : Mm) (addr : Nat) : Option Vma :=
  match mm.mmapCache with
  | some vma => if vma.Holds addr then some vma else mm.mmapList.find? (fun vma => decide (vma.Holds addr))
  | none => mm.mmapList.find? (fun vma => decide (vma.Holds addr))

/-- The cache that `find_vma` leaves. -/
def cacheVma (mm : Mm) (addr : Nat) : Mm :=
  match mm.findVma addr with
  | some vma => { mm with mmapCache := some vma }
  | none => mm

end Mm

def CheckVmaOverlap (prev next : Vma) : Prop :=
  prev.vmStart < prev.vmEnd /\ prev.vmEnd <= next.vmStart /\ next.vmStart < next.vmEnd

instance (prev next : Vma) : Decidable (CheckVmaOverlap prev next) :=
  inferInstanceAs (Decidable (_ /\ _ /\ _))

/-- `insert_vma_struct`: after the last area that does not start later. -/
def insertVmaStruct (list : List Vma) (vma : Vma) : Option (List Vma) :=
  let before := list.takeWhile (fun other => decide (other.vmStart <= vma.vmStart))
  let after := list.dropWhile (fun other => decide (other.vmStart <= vma.vmStart))
  if vma.vmStart < vma.vmEnd /\ (forall prev, prev ∈ before.getLast? -> CheckVmaOverlap prev vma) /\
      (forall next, next ∈ after.head? -> CheckVmaOverlap vma next) then
    some (before ++ vma :: after)
  else none

/-! ## The address spaces of a kernel -/

structure AddressSpaces (M : PmmManager) where
  frames : Frames M
  mm : Nat -> Mm

namespace AddressSpaces

variable {M : PmmManager}

def pgdir (sys : AddressSpaces M) (d : Nat) : PageDirectory := (sys.mm d).pgdir

def setPgdir (sys : AddressSpaces M) (d : Nat) (pgdir : PageDirectory) : AddressSpaces M :=
  { sys with mm := Function.update sys.mm d { sys.mm d with pgdir := pgdir } }

/-- Read through an entry pointer. -/
def loadPte (sys : AddressSpaces M) (d la : Nat) : Pte := (sys.pgdir d).pte (pageNumber la)

/-- Write through an entry pointer. -/
def storePte (sys : AddressSpaces M) (d la : Nat) (pte : Pte) : AddressSpaces M :=
  sys.setPgdir d ((sys.pgdir d).setPte la pte)

def setFrames (sys : AddressSpaces M) (frames : Frames M) : AddressSpaces M := { sys with frames := frames }

/-- A frame for a node: `alloc_page` and `set_page_ref(page, 1)`. -/
def allocNode (frames : Frames M) : Option (Nat × Frames M) :=
  frames.allocPage.map (fun result => (result.1, result.2.setPageRef result.1 1))

/-- `get_pte`, from the second level on. -/
def getPte0 (sys : AddressSpaces M) (d la : Nat) (create : Bool) : Bool × AddressSpaces M :=
  match (sys.pgdir d).entry (pdx1 la) with
  | none => (false, sys)
  | some directory =>
      match directory.entry (pdx0 la) with
      | some _ => (true, sys)
      | none =>
          if create = true then
            match allocNode sys.frames with
            | none => (false, sys)
            | some (ppn, frames) => (true, (sys.setFrames frames).setPgdir d ((sys.pgdir d).addTable la ppn))
          else (false, sys)

/-- `get_pte`; `false` is `NULL`. -/
def getPte (sys : AddressSpaces M) (d la : Nat) (create : Bool) : Bool × AddressSpaces M :=
  match (sys.pgdir d).entry (pdx1 la) with
  | some _ => sys.getPte0 d la create
  | none =>
      if create = true then
        match allocNode sys.frames with
        | none => (false, sys)
        | some (ppn, frames) =>
            ((sys.setFrames frames).setPgdir d ((sys.pgdir d).addDirectory0 la ppn)).getPte0 d la create
      else (false, sys)

def pageRemovePte (sys : AddressSpaces M) (d la : Nat) : AddressSpaces M :=
  let pte := sys.loadPte d la
  if pte.v = true then (sys.setFrames (sys.frames.dropReference pte.ppn)).storePte d la {} else sys

/-- One turn of the loop of `unmap_range`, and where the next one starts. -/
def unmapStep (sys : AddressSpaces M) (d start : Nat) : Nat × AddressSpaces M :=
  if (sys.getPte d start false).1 = true then
    (start + pgSize, if sys.loadPte d start ≠ {} then sys.pageRemovePte d start else sys)
  else (roundDown (start + ptSize) ptSize, sys)

/-- The loop of `unmap_range`. -/
def unmapLoop (d last : Nat) : Nat -> Nat -> AddressSpaces M -> AddressSpaces M
  | 0, _, sys => sys
  | fuel + 1, start, sys =>
      let turn := sys.unmapStep d start
      if turn.1 ≠ 0 /\ turn.1 < last then unmapLoop d last fuel turn.1 turn.2 else turn.2

/-- The steps that a loop from `start` to `last` may need. -/
def pageSteps (start last : Nat) : Nat := (last - start) / pgSize + 1

def unmapRange (sys : AddressSpaces M) (d start last : Nat) : Option (AddressSpaces M) :=
  if start % pgSize = 0 /\ last % pgSize = 0 /\ UserAccess start last then
    some (unmapLoop d last (pageSteps start last) start sys)
  else none

/-- The part of `copy_range` for one valid entry. -/
def copyPage (sys : AddressSpaces M) (toDir fromDir la : Nat) (share : Bool) : AddressSpaces M :=
  let pte := sys.loadPte fromDir la
  let counted := sys.setFrames (sys.frames.pageRefInc pte.ppn)
  if share = false /\ pte.w = true then
    let perm := { pte with w := false }
    ((counted.setFrames (counted.frames.setPageCow pte.ppn true)).storePte toDir la perm).storePte fromDir la perm
  else counted.storePte toDir la pte

/-- One turn of the loop of `copy_range`; `none` is a failed `get_pte`. -/
def copyStep (sys : AddressSpaces M) (toDir fromDir start : Nat) (share : Bool) : Option Nat × AddressSpaces M :=
  if (sys.getPte fromDir start false).1 = true then
    if (sys.loadPte fromDir start).v = true then
      match sys.getPte toDir start true with
      | (false, grown) => (none, grown)
      | (true, grown) => (some (start + pgSize), grown.copyPage toDir fromDir start share)
    else (some (start + pgSize), sys)
  else (some (roundDown (start + ptSize) ptSize), sys)

/-- The loop of `copy_range`. -/
def copyLoop (toDir fromDir last : Nat) (share : Bool) :
    Nat -> Nat -> AddressSpaces M -> Option Errno × AddressSpaces M
  | 0, _, sys => (none, sys)
  | fuel + 1, start, sys =>
      match sys.copyStep toDir fromDir start share with
      | (none, failed) => (some .noMem, failed)
      | (some next, copied) =>
          if next ≠ 0 /\ next < last then copyLoop toDir fromDir last share fuel next copied else (none, copied)

def copyRange (sys : AddressSpaces M) (toDir fromDir start last : Nat) (share : Bool) :
    Option (Option Errno × AddressSpaces M) :=
  if start % pgSize = 0 /\ last % pgSize = 0 /\ UserAccess start last then
    some (copyLoop toDir fromDir last share (pageSteps start last) start sys)
  else none

def pageRemove (sys : AddressSpaces M) (d la : Nat) : AddressSpaces M :=
  if (sys.getPte d la false).1 = true then sys.pageRemovePte d la else sys

/-- `page_insert`, from the entry pointer on. -/
def insertAt (sys : AddressSpaces M) (d page la : Nat) (perm : Pte) : AddressSpaces M :=
  let pte := sys.loadPte d la
  let counted := sys.setFrames (sys.frames.pageRefInc page)
  let cleared :=
    if pte.v = true then
      if pte.ppn = page then counted.setFrames (counted.frames.pageRefDec page) else counted.pageRemovePte d la
    else counted
  cleared.storePte d la { perm with ppn := page, v := true }

def pageInsert (sys : AddressSpaces M) (d page la : Nat) (perm : Pte) : Option Errno × AddressSpaces M :=
  match sys.getPte d la true with
  | (false, grown) => (some .noMem, grown)
  | (true, grown) => (none, grown.insertAt d page la perm)

/-- `pgdir_alloc_page`; the outer `none` is the assertion on the count. -/
def pgdirAllocPage (sys : AddressSpaces M) (d la : Nat) (perm : Pte) : Option (Option Nat × AddressSpaces M) :=
  match sys.frames.allocPage with
  | none => some (none, sys)
  | some (page, frames) =>
      match (sys.setFrames frames).pageInsert d page la perm with
      | (some _, failed) => some (none, failed.setFrames (failed.frames.freePage page))
      | (none, inserted) => if inserted.frames.ref page = 1 then some (some page, inserted) else none

/-- The entry that the demand branch of `do_pgfault` builds. -/
def demandPte (vma : Vma) (ppn : Nat) : Pte where
  ppn := ppn
  v := true
  r := vma.vmFlags.read
  w := vma.vmFlags.write
  x := vma.vmFlags.exec
  u := true

/-- The write fault on a present page. -/
def copyOnWrite (sys : AddressSpaces M) (d addr : Nat) : Option Errno × AddressSpaces M :=
  let pte := sys.loadPte d addr
  if sys.frames.cow pte.ppn = true then
    if sys.frames.ref pte.ppn > 1 then
      match sys.frames.allocPage with
      | none => (some .noMem, sys)
      | some (newPage, frames) =>
          let copied := (frames.fill newPage (frames.content pte.ppn)).pageRefDec pte.ppn
          (none, (sys.setFrames (copied.setPageCow newPage false)).storePte d addr
            { pte with ppn := newPage, w := true, v := true })
    else
      (none, (sys.setFrames (sys.frames.setPageCow pte.ppn false)).storePte d addr { pte with w := true })
  else (some .inval, sys)

/-- The fault on an absent page. -/
def demandPage (sys : AddressSpaces M) (d addr : Nat) (vma : Vma) : Option Errno × AddressSpaces M :=
  match sys.frames.allocPage with
  | none => (some .noMem, sys)
  | some (page, frames) =>
      (none, (sys.setFrames (frames.fill page (fun _ => 0))).storePte d addr (demandPte vma page))

/-- What a `find_vma` leaves behind. -/
def cacheVma (sys : AddressSpaces M) (d addr : Nat) : AddressSpaces M :=
  { sys with mm := Function.update sys.mm d ((sys.mm d).cacheVma addr) }

/-- `do_pgfault`, with the write bit of the error code. -/
def doPgfault (sys : AddressSpaces M) (d : Nat) (isWrite : Bool) (addr : Nat) : Option Errno × AddressSpaces M :=
  if UserAccess addr (addr + 1) then
    let looked := sys.cacheVma d addr
    match (sys.mm d).findVma addr with
    | none => (some .inval, looked)
    | some vma =>
        if vma.Holds addr then
          match looked.getPte d addr true with
          | (false, grown) => (some .noMem, grown)
          | (true, grown) =>
              if (grown.loadPte d addr).v = true then
                if isWrite = true /\ (grown.loadPte d addr).w = false /\ vma.vmFlags.write = true then
                  grown.copyOnWrite d addr
                else (some .inval, grown)
              else if vma.vmFlags.write = false /\ isWrite = true then (some .inval, grown)
              else grown.demandPage d addr vma
        else (some .inval, looked)
  else (some .inval, sys)

/-! ## Whole address spaces -/

/-- No entry of a page table is valid. -/
def tableUnused (table : PageTable) : Bool :=
  (List.range 512).all (fun index => decide ((table.entry index).v = false))

/-- The inner loop of `exit_range`, with its flag `free_pd0`. -/
def exitTables (d d1start last : Nat) : Nat -> Nat -> Bool -> AddressSpaces M -> Bool × AddressSpaces M
  | 0, _, freePd0, sys => (freePd0, sys)
  | fuel + 1, d0start, freePd0, sys =>
      let step : Bool × AddressSpaces M :=
        match ((sys.pgdir d).entry (pdx1 d1start)).bind (fun directory => directory.entry (pdx0 d0start)) with
        | none => (false, sys)
        | some table =>
            if tableUnused table = true then
              (freePd0, (sys.setFrames (sys.frames.freePage table.ppn)).setPgdir d
                ((sys.pgdir d).removeTable d1start d0start))
            else (freePd0, sys)
      let next := d0start + ptSize
      if next ≠ 0 /\ next < d1start + pdSize /\ next < last then exitTables d d1start last fuel next step.1 step.2
      else step

/-- The outer loop of `exit_range`. -/
def exitDirectories (d last : Nat) : Nat -> Nat -> Nat -> AddressSpaces M -> AddressSpaces M
  | 0, _, _, sys => sys
  | fuel + 1, d1start, d0start, sys =>
      let step :=
        match (sys.pgdir d).entry (pdx1 d1start) with
        | none => sys
        | some directory =>
            let tables := exitTables d d1start last 512 d0start true sys
            if tables.1 = true then
              (tables.2.setFrames (tables.2.frames.freePage directory.ppn)).setPgdir d
                ((tables.2.pgdir d).removeDirectory0 d1start)
            else tables.2
      let next := d1start + pdSize
      if next ≠ 0 /\ next < last then exitDirectories d last fuel next next step else step

def exitRange (sys : AddressSpaces M) (d start last : Nat) : Option (AddressSpaces M) :=
  if start % pgSize = 0 /\ last % pgSize = 0 /\ UserAccess start last then
    some (exitDirectories d last (last / pdSize + 1) (roundDown start pdSize) (roundDown start ptSize) sys)
  else none

/-- A loop over the areas of an address space. -/
def forAreas (body : AddressSpaces M -> Nat -> Nat -> Option (AddressSpaces M)) :
    List Vma -> AddressSpaces M -> Option (AddressSpaces M)
  | [], sys => some sys
  | vma :: rest, sys => (body sys vma.vmStart vma.vmEnd).bind (forAreas body rest)

def exitMmap (sys : AddressSpaces M) (d : Nat) : Option (AddressSpaces M) :=
  (forAreas (fun sys start last => sys.unmapRange d start last) (sys.mm d).mmapList sys).bind
    (forAreas (fun sys start last => sys.exitRange d start last) (sys.mm d).mmapList)

end AddressSpaces

end Vm
end Ucore
