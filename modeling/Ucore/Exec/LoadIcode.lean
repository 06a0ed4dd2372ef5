import Ucore.Library.Program
import Ucore.Vm.UserAreas
import Ucore.Vm.UserMemory
import Ucore.Exec.Elf

namespace Ucore
namespace Exec

open Library
open Program
open Vm

/-!
# `load_icode`

The loader makes a new address space, maps and fills the pages of each segment,
maps the stack, installs the address space and puts the arguments on the stack.
An error leaves by the labels at the end, each of which cleans up what was made
before it.  The code of the error is `ret`, which is zero after a read has
succeeded.

Addresses and sizes are machine words; where a sum may wrap it is reduced.
The new address space has the number `d`.  `grants` says for `mm_create` and
for each `mm_map` whether its call of `kmalloc` would succeed.
-/

inductive Fault where
  | assertion (text : String)
  | panic (text : String)
  /-- The kernel accesses a page of the user that is not mapped for it. -/
  | pageFault (addr : Nat)
  /-- The kernel uses a null pointer. -/
  | null
  /-- A loop goes on for longer than it should. -/
  | endless
deriving DecidableEq, Repr

/-- What happens to the pages of the user while segments are loaded. -/
inductive PageEvent where
  | allocated (la page : Nat)
  /-- `pgdir_alloc_page` has returned `NULL`. -/
  | refused (la : Nat)
  | stored (page off size : Nat)
deriving DecidableEq, Repr

/-- The fields of `struct trapframe` that are set after the `memset`, and the
others -/
structure Trapframe where
  sp : Nat
  a0 : Nat
  a1 : Nat
  epc : UInt64
  status : UInt64
  others : Nat -> UInt64

structure Loader (M : PmmManager) (File : Type) where
  sys : AddressSpaces M
  file : File
  grants : List Bool
  mapCount : Int
  mmCount : Int
  /-- `current->mm` -/
  mm : Option Nat
  /-- The address space in use, after `lsatp` -/
  satp : Option Nat
  tf : Trapframe
  /-- The last event first -/
  events : List PageEvent

/-- The error is the value of `ret` at a label. -/
abbrev Load (M : PmmManager) (File : Type) (Value : Type) := Program (Loader M File) Int Fault Value

/-- `-E_INVAL`, `-E_NO_MEM` and `-E_INVAL_ELF` -/
def eInval : Int := -3

def eNoMem : Int := -4

def eInvalElf : Int := -8

def errno : Errno -> Int
  | .inval => eInval
  | .noMem => eNoMem

variable {M : PmmManager} {File : Type}

namespace Loader

def note (loader : Loader M File) (event : PageEvent) : Loader M File :=
  { loader with events := event :: loader.events }

def setMm (loader : Loader M File) (d : Nat) (mm : Mm) : Loader M File :=
  { loader with sys := { loader.sys with mm := Function.update loader.sys.mm d mm } }

end Loader

def kmalloc : Load M File Bool := do
  let loader <- get
  modify (fun loader => { loader with grants := loader.grants.tail })
  pure (loader.grants.headD false)

/-! ## Reading the file -/

variable (calls : FileCalls File)

/-- `load_icode_read`, where `put` stores what is read in the buffer -/
def loadIcodeRead (put : Nat -> (Nat -> UInt8) -> Load M File Unit) (len : Nat) (offset : Int) :
    Load M File (Nat -> UInt8) := do
  let loader <- get
  let sought := calls.seek loader.file offset
  modify (fun loader => { loader with file := sought.2 })
  if sought.1 ≠ 0 then throw sought.1
  else do
    let got := calls.read sought.2 len
    modify (fun loader => { loader with file := got.2.2 })
    put got.1.toNat got.2.1
    if got.1 ≠ len then throw (if got.1 < 0 then got.1 else -1)
    else pure got.2.1

/-! ## The address space -/

variable (d : Nat)

def emptyMm : Mm := ⟨PageDirectory.blank none, [], none⟩

def mmCreate : Load M File Unit := do
  let created <- kmalloc
  if created = true then modify (fun loader => { loader.setMm d emptyMm with mapCount := 0, mmCount := 0 })
  else throw eNoMem

def pgdirPage : Option (Nat × Frames M) -> Load M File Unit
  | none => throw eNoMem
  | some (page, frames) =>
      modify (fun loader =>
        { loader with sys := (loader.sys.setFrames frames).setPgdir d (PageDirectory.blank (some page)) })

/-- `setup_pgdir`; the kernel half of the directory is not modelled. -/
def setupPgdir : Load M File Unit := do
  let loader <- get
  pgdirPage d loader.sys.frames.allocPage

def mapped : Option (Option Errno × CountedMm) -> Load M File Unit
  | none => halt (.assertion "insert_vma_struct")
  | some (none, mm) => modify (fun loader => { loader.setMm d mm.toMm with mapCount := mm.mapCount })
  | some (some error, mm) => do
      modify (fun loader => { loader.setMm d mm.toMm with mapCount := mm.mapCount })
      throw (errno error)

def mmMap (addr len : UInt64) (vmFlags : VmFlags) : Load M File Unit := do
  let created <- kmalloc
  let loader <- get
  mapped d (CountedMm.mmMap ⟨loader.sys.mm d, loader.mapCount⟩ addr len vmFlags created)

def pageResult (la : Nat) : Option (Option Nat × AddressSpaces M) -> Load M File (Option Nat)
  | none => halt (.assertion "page_ref(page) == 1")
  | some (none, sys) => do
      modify (fun loader => { loader with sys := sys }.note (.refused la))
      pure none
  | some (some page, sys) => do
      modify (fun loader => { loader with sys := sys }.note (.allocated la page))
      pure (some page)

def pgdirAllocPage (la : Nat) (perm : Pte) : Load M File (Option Nat) := do
  let loader <- get
  pageResult la (loader.sys.pgdirAllocPage d la perm)

/-- A `memset` or `memcpy` to a page of the user, through the kernel -/
def storePage (page off size : Nat) (bytes : Nat -> UInt8) : Load M File Unit :=
  modify (fun loader => { loader with sys := loader.sys.storePage page off size bytes }.note (.stored page off size))

/-! ## A segment -/

/-- The variables of the loops over the pages of a segment -/
structure Cursor where
  start : Nat
  la : Nat
  offset : Int
  page : Option Nat
  ret : Int

def orFail (ret : Int) : Option Nat -> Load M File Nat
  | none => throw ret
  | some page => pure page

/-- A new page, or the way to the labels with the present `ret` -/
def takePage (la : Nat) (perm : Pte) (ret : Int) : Load M File Nat := do
  let result <- pgdirAllocPage d la perm
  orFail ret result

/-- `size`: the rest of the page that ends at `la`, up to `last` -/
def chunk (off la last : Nat) : Nat := if last < la then pgSize - off - (la - last) else pgSize - off

/-- The loop over the pages that get bytes of the file -/
def filePages (perm : Pte) (last : Nat) : Nat -> Cursor -> Load M File Cursor
  | 0, _ => halt .endless
  | turns + 1, cursor =>
      if cursor.start < last then do
        let page <- takePage d cursor.la perm cursor.ret
        let off := cursor.start - cursor.la
        let la := (cursor.la + pgSize) % 2 ^ 64
        let size := chunk off la last
        let _ <- loadIcodeRead calls (storePage page off) size cursor.offset
        filePages perm last turns ⟨(cursor.start + size) % 2 ^ 64, la, offT (cursor.offset + size), some page, 0⟩
      else pure cursor

def zeroPage (off size : Nat) : Option Nat -> Load M File Unit
  | none => halt .null
  | some page => storePage page off size (fun _ => 0)

/-- The rest of the last page of the file -/
def zeroBoundary (last : Nat) (cursor : Cursor) : Load M File Cursor :=
  if cursor.start < cursor.la then
    if cursor.start < last then do
      let off := cursor.start + pgSize - cursor.la
      let size := chunk off cursor.la last
      zeroPage off size cursor.page
      pure { cursor with start := (cursor.start + size) % 2 ^ 64 }
    else pure cursor
  else pure cursor

/-- The loop over the other pages -/
def bssPages (perm : Pte) (last : Nat) : Nat -> Cursor -> Load M File Unit
  | 0, _ => halt .endless
  | turns + 1, cursor =>
      if cursor.start < last then do
        let page <- takePage d cursor.la perm cursor.ret
        let off := cursor.start - cursor.la
        let la := (cursor.la + pgSize) % 2 ^ 64
        let size := chunk off la last
        storePage page off size (fun _ => 0)
        bssPages perm last turns { cursor with start := (cursor.start + size) % 2 ^ 64, la := la, page := some page }
      else pure ()

/-- The turns of a loop from `start` to `last`: a page each, and the test at
the end -/
def turns (start last : Nat) : Nat := last / pgSize - start / pgSize + 2

/-- `end`, with the size of the bytes in the file or in memory -/
def Proghdr.endAt (ph : Proghdr) (size : UInt64) : Nat := (ph.pVa + size).toNat

def loadSegment (ph : Proghdr) : Load M File Unit := do
  mmMap d ph.pVa ph.pMemsz ph.vmFlags
  let start := ph.pVa.toNat
  let cursor <- filePages calls d ph.perm (ph.endAt ph.pFilesz) (turns start (ph.endAt ph.pFilesz))
    ⟨start, roundDown start pgSize, offT ph.pOffset.toNat, none, eNoMem⟩
  let cursor <- zeroBoundary (ph.endAt ph.pMemsz) cursor
  bssPages d ph.perm (ph.endAt ph.pMemsz) (turns cursor.start (ph.endAt ph.pMemsz)) cursor

def loadProghdr (ph : Proghdr) : Load M File Unit :=
  if ph.pType ≠ elfPtLoad then pure ()
  else if ph.pFilesz > ph.pMemsz then throw eInvalElf
  else if ph.pMemsz = 0 then pure ()
  else loadSegment calls d ph

/-- Nothing but the result of the read is used. -/
def noPut : Nat -> (Nat -> UInt8) -> Load M File Unit := fun _ _ => pure ()

/-- The body of the loop over the program headers -/
def loadHeader (elf : Elfhdr) (i : Nat) : Load M File Unit := do
  let bytes <- loadIcodeRead calls noPut proghdrSize (offT (elf.ePhoff.toNat + proghdrSize * i : Nat))
  loadProghdr calls d (proghdrOf bytes)

def loadSegments (elf : Elfhdr) : Load M File Unit := forRange (loadHeader calls d elf) 0 elf.ePhnum.toNat

/-! ## The stack -/

def ustackTop : Nat := userTop

def ustackSize : Nat := 256 * pgSize

def pteUser : Pte where
  v := true
  r := true
  w := true
  x := true
  u := true

def stackFlags : VmFlags where
  read := true
  write := true
  stack := true

def requirePage (text : String) : Option Nat -> Load M File Unit
  | none => halt (.assertion text)
  | some _ => pure ()

def stackPage (la : Nat) (text : String) : Load M File Unit := do
  let result <- pgdirAllocPage d la pteUser
  requirePage text result

def mapStack : Load M File Unit := do
  mmMap d (UInt64.ofNat (ustackTop - ustackSize)) (UInt64.ofNat ustackSize) stackFlags
  stackPage d (ustackTop - pgSize) "pgdir_alloc_page(mm->pgdir, USTACKTOP - PGSIZE, PTE_USER) != NULL"
  stackPage d (ustackTop - 2 * pgSize) "pgdir_alloc_page(mm->pgdir, USTACKTOP - 2 * PGSIZE, PTE_USER) != NULL"
  stackPage d (ustackTop - 3 * pgSize) "pgdir_alloc_page(mm->pgdir, USTACKTOP - 3 * PGSIZE, PTE_USER) != NULL"
  stackPage d (ustackTop - 4 * pgSize) "pgdir_alloc_page(mm->pgdir, USTACKTOP - 4 * PGSIZE, PTE_USER) != NULL"

def install : Load M File Unit :=
  modify (fun loader => { loader with mmCount := loader.mmCount + 1, mm := some d, satp := some d })

/-! ## The arguments -/

def storeResult (addr : Nat) (byte : UInt8) : Option Pte -> Load M File Unit
  | none => halt (.pageFault addr)
  | some pte =>
      if pte.w = true /\ pte.u = true then
        modify (fun loader => { loader with sys := loader.sys.storePage pte.ppn (addr % pgSize) 1 (fun _ => byte) })
      else halt (.pageFault addr)

/-- A store of the kernel to a user address -/
def storeUser (addr : Nat) (byte : UInt8) : Load M File Unit := do
  let loader <- get
  storeResult addr byte (loader.satp.bind (fun directory => loader.sys.mapping (directory, pageNumber addr)))

def copyChecked (dst len : Nat) (bytes : Nat -> UInt8) : Option (Bool × Mm) -> Load M File Bool
  | none => halt .endless
  | some (false, mm) => do
      modify (fun loader => loader.setMm d mm)
      pure false
  | some (true, mm) => do
      modify (fun loader => loader.setMm d mm)
      forRange (fun index => storeUser (dst + index) (bytes index)) 0 len
      pure true

def copyToUser (dst len : Nat) (bytes : Nat -> UInt8) : Load M File Bool := do
  let loader <- get
  copyChecked d dst len bytes (userMemCheck ((loader.sys.mm d).mmapList.length + 1) (loader.sys.mm d) (UInt64.ofNat dst)
    (UInt64.ofNat len) true)

/-- A difference of machine words -/
def minus (value less : Nat) : Nat := if less <= value then value - less else value + 2 ^ 64 - less

def copyOrFail (dst len : Nat) (bytes : Nat -> UInt8) : Load M File Unit := do
  let copied <- copyToUser d dst len bytes
  if copied = true then pure () else throw eInval

/-- A string and its end -/
def stringBytes (arg : List UInt8) (index : Nat) : UInt8 := arg.getD index 0

/-- The loop over the arguments: `stacktop`, and the addresses, the last one
first -/
def pushArgs : List (List UInt8) -> Nat -> List Nat -> Load M File (Nat × List Nat)
  | [], stacktop, uargv => pure (stacktop, uargv)
  | arg :: rest, stacktop, uargv => do
      copyOrFail d (minus stacktop (arg.length + 1)) (arg.length + 1) (stringBytes arg)
      pushArgs rest (minus stacktop (arg.length + 1)) (minus stacktop (arg.length + 1) :: uargv)

/-- `uargv_ptrs` in memory, with the null pointer at its end -/
def pointerBytes (uargv : List Nat) (index : Nat) : UInt8 := UInt8.ofNat (uargv.getD (index / 8) 0 / 256 ^ (index % 8))

/-- Where the pointers go below `stacktop` -/
def argvAt (stacktop argc : Nat) : Nat := minus (minus stacktop (stacktop % 8)) ((argc + 1) * 8)

def enterAt (elf : Elfhdr) (stacktop argc : Nat) : Load M File Unit :=
  modify (fun loader =>
    { loader with
      tf := {
        sp := stacktop
        a0 := argc
        a1 := stacktop
        epc := elf.eEntry
        status := (loader.tf.status ||| 0x20) &&& ~~~ 0x100
        others := fun _ => 0 } })

/-- The arguments, and the trap frame -/
def passArguments (elf : Elfhdr) (kargv : List (List UInt8)) : Load M File Unit := do
  let pushed <- pushArgs d kargv ustackTop []
  let stacktop := argvAt pushed.1 kargv.length
  copyOrFail d stacktop ((kargv.length + 1) * 8) (pointerBytes pushed.2.reverse)
  enterAt elf stacktop kargv.length

/-! ## The whole function -/

def checked : Option (AddressSpaces M) -> Load M File Unit
  | none => halt (.assertion "start % PGSIZE == 0 && end % PGSIZE == 0")
  | some sys => modify (fun loader => { loader with sys := sys })

def exitMmap : Load M File Unit := do
  let loader <- get
  assert (loader.mmCount = 0) (.assertion "mm != NULL && mm_count(mm) == 0")
  checked (loader.sys.exitMmap d)

def freeTop : Option Nat -> Load M File Unit
  | none => halt .null
  | some page => modify (fun loader => { loader with sys := loader.sys.setFrames (loader.sys.frames.freePage page) })

def putPgdir : Load M File Unit := do
  let loader <- get
  freeTop (loader.sys.pgdir d).ppn

def mmDestroy : Load M File Unit := do
  let loader <- get
  assert (loader.mmCount = 0) (.assertion "mm_count(mm) == 0")
  modify (fun loader => loader.setMm d emptyMm)

/-- The header of the file -/
def readElf : Load M File Elfhdr := do
  let bytes <- loadIcodeRead calls noPut elfhdrSize 0
  if (elfhdrOf bytes).eMagic ≠ elfMagic then throw eInvalElf else pure (elfhdrOf bytes)

/-- The segments and the stack of the new address space, which is installed -/
def build (elf : Elfhdr) : Load M File Unit := do
  loadSegments calls d elf
  mapStack d
  install d

def loadIcode (kargv : List (List UInt8)) : Load M File Unit := do
  let loader <- get
  if loader.mm ≠ none then halt (.panic "load_icode: current->mm must be empty.\n")
  else do
    mmCreate d
    onError (do
      setupPgdir d
      onError (do
        let elf <- readElf calls
        onError (do
          build calls d elf
          passArguments d elf kargv) (exitMmap d)) (putPgdir d)) (mmDestroy d)

end Exec
end Ucore
