import Mathlib.Algebra.Group.Int.Defs
import Mathlib.Algebra.Group.Nat.Defs
import Ucore.Library.Run
import Ucore.Path.Namefile
import Ucore.Sfs.Formatted

namespace Ucore
namespace Devices

open Library
open Program
open Ucore.Path (Iobuf)
open Sfs (Errno Fault)

/-!
# The disk

`disk0` is an image in memory.  A transfer goes through a buffer of four
blocks, which is cut into sectors for the driver below.  A request is refused
unless it is made of whole blocks of the disk; then all of it is moved.
-/

def sectsize : Nat := 512

def disk0Blksize : Nat := 4096

def disk0Bufsize : Nat := 4 * disk0Blksize

def disk0BlkNsect : Nat := disk0Blksize / sectsize

/-- `MAX_NSECS` and `MAX_DISK_NSECS` -/
def maxNsecs : Nat := 128

def maxDiskNsecs : Nat := 0x10000000

/-- `struct ide_device`, with the memory from `iobase` on -/
structure IdeDevice where
  valid : Bool
  size : Nat
  image : Nat -> UInt8

namespace IdeDevice

/-- `ide_device_valid` -/
def deviceValid (ide : IdeDevice) : Bool := ide.valid

/-- `ide_device_size` -/
def deviceSize (ide : IdeDevice) : Nat := if ide.deviceValid = true then ide.size else 0

/-- `ramdisk_init` with an image that is linked into the kernel; its length is
computed in 32 bits. -/
def ramdiskInit (length : Nat) (image : Nat -> UInt8) : IdeDevice :=
  if length = 0 then ⟨false, 0, image⟩ else ⟨true, length % 2 ^ 32 / sectsize, image⟩

end IdeDevice

/-- The device, `disk0_buffer`, and a request with the memory it is about -/
structure Disk0 where
  dBlocks : Nat
  ide : IdeDevice
  buffer : Nat -> UInt8
  memory : Nat -> UInt8
  iob : Iobuf

abbrev Driver (Value : Type) := Program Disk0 Errno Fault Value

namespace Disk0

/-! ## The driver below -/

/-- The sectors that are moved, which are cut off at the end of the image; the
difference is one of `size_t`. -/
def sectors (disk : Disk0) (secno nsecs : Nat) : Nat := min nsecs ((((disk.ide.size : Int) - secno) % 2 ^ 64).toNat)

def ramdiskRead (secno nsecs : Nat) (disk : Disk0) : Disk0 :=
  { disk with
    buffer := paste 0 (disk.sectors secno nsecs * sectsize) (fun k => disk.ide.image (secno * sectsize + k))
      disk.buffer }

def ramdiskWrite (secno nsecs : Nat) (disk : Disk0) : Disk0 :=
  { disk with
    ide :=
      { disk.ide with
        image := paste (secno * sectsize) (disk.sectors secno nsecs * sectsize) disk.buffer disk.ide.image } }

/-- `ide_read_secs` and `ide_write_secs`, which always return 0 -/
def ideSecs (move : Nat -> Nat -> Disk0 -> Disk0) (secno nsecs : Nat) : Driver Unit := do
  let disk <- get
  assert (nsecs <= maxNsecs /\ disk.ide.valid = true) (.assertion "nsecs <= MAX_NSECS && VALID_IDE(ideno)")
  assert (secno < maxDiskNsecs /\ secno + nsecs <= maxDiskNsecs)
    (.assertion "secno < MAX_DISK_NSECS && secno + nsecs <= MAX_DISK_NSECS")
  modify (move secno nsecs)

def ideReadSecs (secno nsecs : Nat) : Driver Unit := ideSecs ramdiskRead secno nsecs

def ideWriteSecs (secno nsecs : Nat) : Driver Unit := ideSecs ramdiskWrite secno nsecs

/-- `disk0_read_blks_nolock` -/
def readBlksNolock (blkno nblks : Nat) : Driver Unit :=
  ideReadSecs (blkno * disk0BlkNsect % 2 ^ 32) (nblks * disk0BlkNsect % 2 ^ 32)

/-- `disk0_write_blks_nolock` -/
def writeBlksNolock (blkno nblks : Nat) : Driver Unit :=
  ideWriteSecs (blkno * disk0BlkNsect % 2 ^ 32) (nblks * disk0BlkNsect % 2 ^ 32)

/-! ## Requests -/

/-- `memmove` from `disk0_buffer` to the memory of the request, or back -/
def copy (alen : Nat) (m2b : Bool) (disk : Disk0) : Disk0 :=
  if m2b = true then { disk with memory := paste disk.iob.ioBase alen disk.buffer disk.memory }
  else { disk with buffer := paste 0 alen (fun k => disk.memory (disk.iob.ioBase + k)) disk.buffer }

def skipped (n : Nat) (disk : Disk0) : Disk0 :=
  { disk with
    iob := ⟨disk.iob.ioBase + n, disk.iob.ioOffset + n, disk.iob.ioLen, disk.iob.ioResid - n⟩ }

def iobufSkip (n : Nat) : Driver Unit := do
  let disk <- get
  assert (disk.iob.ioResid >= n) (.assertion "iob->io_resid >= n")
  modify (skipped n)

/-- `iobuf_move` of `disk0_buffer`; the result is `copied`. -/
def iobufMove (len : Nat) (m2b : Bool) : Driver Nat := do
  let disk <- get
  if 0 < min disk.iob.ioResid len then do
    modify (copy (min disk.iob.ioResid len) m2b)
    iobufSkip (min disk.iob.ioResid len)
    pure (min disk.iob.ioResid len)
  else pure (min disk.iob.ioResid len)

/-- The loop of `disk0_io` -/
def ioLoop (write : Bool) (resid blkno : Nat) : Driver Unit :=
  if _ended : resid = 0 then pure ()
  else if write = true then do
    let copied <- iobufMove disk0Bufsize false
    if _checked : copied ≠ 0 /\ copied <= resid /\ copied % disk0Blksize = 0 then do
      writeBlksNolock blkno (copied / disk0Blksize)
      ioLoop write (resid - copied) ((blkno + copied / disk0Blksize) % 2 ^ 32)
    else halt (.assertion "copied != 0 && copied <= resid && copied % DISK0_BLKSIZE == 0")
  else do
    readBlksNolock blkno (min disk0Bufsize resid / disk0Blksize)
    let copied <- iobufMove (min disk0Bufsize resid) true
    if _checked : copied = min disk0Bufsize resid /\ copied % disk0Blksize = 0 then
      ioLoop write (resid - copied) ((blkno + min disk0Bufsize resid / disk0Blksize) % 2 ^ 32)
    else halt (.assertion "copied == alen && copied % DISK0_BLKSIZE == 0")
termination_by resid
decreasing_by
  · omega
  · unfold disk0Bufsize disk0Blksize at *
    omega

/-- `disk0_io` -/
def io (write : Bool) : Driver Unit := do
  let disk <- get
  let blkno := (disk.iob.ioOffset.tdiv disk0Blksize % 2 ^ 32).toNat
  let nblks := disk.iob.ioResid / disk0Blksize % 2 ^ 32
  if disk.iob.ioOffset.tmod disk0Blksize ≠ 0 \/ disk.iob.ioResid % disk0Blksize ≠ 0 then throw .inval
  else if disk.dBlocks < (blkno + nblks) % 2 ^ 32 then throw .inval
  else if nblks = 0 then pure ()
  else ioLoop write disk.iob.ioResid blkno

/-- `disk0_device_init`, where `kmalloc` may not have room for the buffer -/
def deviceInit (granted : Bool) : Driver Unit := do
  let disk <- get
  if disk.ide.deviceValid = false then halt (.panic "disk0 device isn't available.\n")
  else do
    modify (fun disk => { disk with dBlocks := disk.ide.deviceSize / disk0BlkNsect })
    if granted = false then halt (.panic "disk0 alloc buffer failed.\n") else pure ()

/-! ## What is moved -/

/-- `disk0_device_init` has run on an image that the driver can reach. -/
structure Ready (disk : Disk0) : Prop where
  valid : disk.ide.valid = true
  blocks : disk.dBlocks = disk.ide.size / disk0BlkNsect
  small : disk.ide.size <= maxDiskNsecs

/-- Some bytes of a request have been moved, from a place of the image on. -/
def moved (write : Bool) (start len : Nat) (disk : Disk0) : Disk0 :=
  { disk with
    ide :=
      { disk.ide with
        image := if write = true then paste start len (fun k => disk.memory (disk.iob.ioBase + k)) disk.ide.image
          else disk.ide.image }
    memory := if write = true then disk.memory
      else paste disk.iob.ioBase len (fun k => disk.ide.image (start + k)) disk.memory
    iob := ⟨disk.iob.ioBase + len, disk.iob.ioOffset + len, disk.iob.ioLen, disk.iob.ioResid - len⟩ }

def setBuffer (disk : Disk0) (buffer : Nat -> UInt8) : Disk0 := { disk with buffer := buffer }

variable {disk : Disk0} {write : Bool} {start len more blkno nblks : Nat} {buffer : Nat -> UInt8}
  {done : Unit -> Disk0 -> Prop} {fail : Errno -> Disk0 -> Prop} {stop : Fault -> Prop}

theorem Ready.moved (ready : disk.Ready) : ((disk.moved write start len).setBuffer buffer).Ready :=
  ⟨ready.valid, ready.blocks, ready.small⟩

theorem moved_zero (disk : Disk0) : disk.moved write start 0 = disk := by
  unfold Disk0.moved
  simp

/-- What is moved part by part is moved. -/
theorem moved_moved : (((disk.moved write start len).setBuffer buffer).moved write (start + len) more) =
    (disk.moved write start (len + more)).setBuffer buffer := by
  have written : paste (start + len) more (fun k => disk.memory (disk.iob.ioBase + len + k))
      (paste start len (fun k => disk.memory (disk.iob.ioBase + k)) disk.ide.image) =
      paste start (len + more) (fun k => disk.memory (disk.iob.ioBase + k)) disk.ide.image := by
    rw [← paste_append]
    simp only [Nat.add_assoc]
  have read : paste (disk.iob.ioBase + len) more (fun k => disk.ide.image (start + len + k))
      (paste disk.iob.ioBase len (fun k => disk.ide.image (start + k)) disk.memory) =
      paste disk.iob.ioBase (len + more) (fun k => disk.ide.image (start + k)) disk.memory := by
    rw [← paste_append]
    simp only [Nat.add_assoc]
  have iob : (⟨disk.iob.ioBase + len + more, disk.iob.ioOffset + len + more, disk.iob.ioLen,
      disk.iob.ioResid - len - more⟩ : Iobuf) =
      ⟨disk.iob.ioBase + (len + more), disk.iob.ioOffset + ((len + more : Nat) : Int), disk.iob.ioLen,
        disk.iob.ioResid - (len + more)⟩ := by
    rw [Nat.sub_sub, Nat.add_assoc, Int.add_assoc, Int.natCast_add]
  unfold Disk0.moved setBuffer
  cases write with
  | true => simp only [if_true, written, iob]
  | false => simp only [Bool.false_eq_true, if_false, read, iob]

/-! ## The loop -/

/-- The sectors of blocks of the disk are there. -/
theorem Ready.ideSecs_meets (ready : disk.Ready) {move : Nat -> Nat -> Disk0 -> Disk0}
    (inRange : blkno + nblks <= disk.dBlocks) (any : 0 < nblks) (few : nblks <= 4)
    (moves : done () (move (blkno * disk0BlkNsect) (nblks * disk0BlkNsect) disk)) :
    Meets (ideSecs move (blkno * disk0BlkNsect % 2 ^ 32) (nblks * disk0BlkNsect % 2 ^ 32)) disk
      ⟨done, fail, stop⟩ := by
  have small := ready.small
  have blocks := ready.blocks
  unfold disk0BlkNsect disk0Blksize sectsize maxDiskNsecs at *
  have secno : blkno * (4096 / 512) % 2 ^ 32 = blkno * (4096 / 512) := Nat.mod_eq_of_lt (by omega)
  have nsecs : nblks * (4096 / 512) % 2 ^ 32 = nblks * (4096 / 512) := Nat.mod_eq_of_lt (by omega)
  rw [secno, nsecs]
  unfold ideSecs
  simp only [meets_bind, meets_get, meets_assert, meets_modify]
  refine ⟨fun _ => ⟨fun _ => moves, fun broken => ?_⟩, fun broken => ?_⟩
  · unfold maxDiskNsecs at broken
    omega
  · unfold maxNsecs at broken
    exact absurd ⟨by omega, ready.valid⟩ broken

theorem Ready.sectors (ready : disk.Ready) (inRange : blkno + nblks <= disk.dBlocks) :
    disk.sectors (blkno * disk0BlkNsect) (nblks * disk0BlkNsect) * sectsize = nblks * disk0Blksize := by
  have small := ready.small
  have blocks := ready.blocks
  unfold Disk0.sectors
  unfold disk0BlkNsect disk0Blksize sectsize maxDiskNsecs at *
  omega

theorem iobufMove_meets {m2b : Bool} {amount : Nat} {done : Nat -> Disk0 -> Prop}
    (cut : min disk.iob.ioResid len = amount) (any : 0 < amount)
    (moves : done amount ((disk.copy amount m2b).skipped amount)) :
    Meets (iobufMove len m2b) disk ⟨done, fail, stop⟩ := by
  have iob : (disk.copy amount m2b).iob = disk.iob := by
    unfold Disk0.copy
    split <;> rfl
  have enough : amount <= disk.iob.ioResid := by omega
  unfold iobufMove iobufSkip
  simp only [meets_bind, meets_get, meets_ite, cut, if_pos any, meets_modify, meets_assert, iob, meets_pure]
  exact ⟨fun _ => moves, fun broken => absurd enough broken⟩

/-- The blocks of the buffer reach the image. -/
theorem Ready.written (ready : disk.Ready) (inRange : blkno + nblks <= disk.dBlocks) :
    ramdiskWrite (blkno * disk0BlkNsect) (nblks * disk0BlkNsect)
      ((disk.copy (nblks * disk0Blksize) false).skipped (nblks * disk0Blksize)) =
      (disk.moved true (blkno * disk0Blksize) (nblks * disk0Blksize)).setBuffer
        (disk.copy (nblks * disk0Blksize) false).buffer := by
  have place : blkno * disk0BlkNsect * sectsize = blkno * disk0Blksize := Nat.mul_assoc _ _ _
  have same : forall k, k < nblks * disk0Blksize ->
      paste 0 (nblks * disk0Blksize) (fun k => disk.memory (disk.iob.ioBase + k)) disk.buffer k =
        disk.memory (disk.iob.ioBase + k) := by
    intro k inside
    rw [paste_inside (Nat.zero_le k) (by omega), Nat.sub_zero]
  have image : paste _ _ _ disk.ide.image = paste (blkno * disk0Blksize) _ _ disk.ide.image := paste_congr same
  unfold ramdiskWrite skipped Disk0.copy Disk0.moved setBuffer
  simp only [Bool.false_eq_true, if_false, if_true, place]
  have amount := ready.sectors inRange
  unfold Disk0.sectors at amount ⊢
  simp only [amount, image]

/-- The blocks of the image reach the memory of the request. -/
theorem Ready.read (ready : disk.Ready) (inRange : blkno + nblks <= disk.dBlocks) :
    ((ramdiskRead (blkno * disk0BlkNsect) (nblks * disk0BlkNsect) disk).copy (nblks * disk0Blksize) true).skipped
        (nblks * disk0Blksize) =
      (disk.moved false (blkno * disk0Blksize) (nblks * disk0Blksize)).setBuffer
        (ramdiskRead (blkno * disk0BlkNsect) (nblks * disk0BlkNsect) disk).buffer := by
  have place : blkno * disk0BlkNsect * sectsize = blkno * disk0Blksize := Nat.mul_assoc _ _ _
  have same : forall k, k < nblks * disk0Blksize ->
      paste 0 (nblks * disk0Blksize) (fun k => disk.ide.image (blkno * disk0Blksize + k)) disk.buffer k =
        disk.ide.image (blkno * disk0Blksize + k) := by
    intro k inside
    rw [paste_inside (Nat.zero_le k) (by omega), Nat.sub_zero]
  have memory : paste _ _ _ disk.memory = paste disk.iob.ioBase _ _ disk.memory := paste_congr same
  unfold ramdiskRead skipped Disk0.copy Disk0.moved setBuffer
  rw [ready.sectors inRange]
  simp only [Bool.false_eq_true, if_false, if_true, place, memory]

/-- The loop moves what is left of a request. -/
theorem Ready.ioLoop_meets {resid : Nat} (ready : disk.Ready) (left : disk.iob.ioResid = resid)
    (whole : resid % disk0Blksize = 0) (inRange : blkno * disk0Blksize + resid <= disk.dBlocks * disk0Blksize)
    (moves : forall buffer, done () ((disk.moved write (blkno * disk0Blksize) resid).setBuffer buffer)) :
    Meets (ioLoop write resid blkno) disk ⟨done, fail, stop⟩ := by
  induction resid using Nat.strong_induction_on generalizing disk blkno with
  | _ resid rest =>
    rw [ioLoop]
    rcases Nat.eq_zero_or_pos resid with ended | more
    · rw [dif_pos ended, meets_pure]
      have nothing := moves disk.buffer
      rw [ended, moved_zero] at nothing
      exact nothing
    · rw [dif_neg (by omega)]
      have part : Exists fun nblks => min disk0Bufsize resid = nblks * disk0Blksize /\ 0 < nblks /\ nblks <= 4 /\
          blkno + nblks <= disk.dBlocks /\ (blkno + nblks) % 2 ^ 32 = blkno + nblks := by
        have small := ready.small
        have blocks := ready.blocks
        unfold disk0Bufsize disk0BlkNsect disk0Blksize sectsize maxDiskNsecs at *
        exact ⟨min (4 * 4096) resid / 4096, by omega, by omega, by omega, by omega, Nat.mod_eq_of_lt (by omega)⟩
      rcases part with ⟨nblks, cut, any, few, there, fits⟩
      have copied : 0 < nblks * disk0Blksize := Nat.mul_pos any (by decide)
      have blocks : nblks * disk0Blksize / disk0Blksize = nblks := Nat.mul_div_cancel nblks (by decide)
      have aligned : nblks * disk0Blksize % disk0Blksize = 0 := Nat.mul_mod_left nblks disk0Blksize
      have next : forall buffer, Meets (ioLoop write (resid - nblks * disk0Blksize) (blkno + nblks))
          ((disk.moved write (blkno * disk0Blksize) (nblks * disk0Blksize)).setBuffer buffer) ⟨done, fail, stop⟩ := by
        intro buffer
        have place : (blkno + nblks) * disk0Blksize = blkno * disk0Blksize + nblks * disk0Blksize :=
          Nat.add_mul blkno nblks disk0Blksize
        have all : nblks * disk0Blksize + (resid - nblks * disk0Blksize) = resid := by omega
        refine rest _ (by omega) ready.moved (congrArg (· - nblks * disk0Blksize) left) ?_ ?_ ?_
        · unfold disk0Blksize at *
          omega
        · show (blkno + nblks) * disk0Blksize + (resid - nblks * disk0Blksize) <= disk.dBlocks * disk0Blksize
          omega
        · intro last
          rw [place, moved_moved, all]
          exact moves last
      cases write with
      | true =>
        simp only [if_true, meets_bind]
        refine iobufMove_meets (by omega) copied ?_
        rw [dif_pos ⟨by omega, by omega, aligned⟩, blocks, fits, meets_bind]
        have kept : ((disk.copy (nblks * disk0Blksize) false).skipped (nblks * disk0Blksize)).Ready :=
          ⟨ready.valid, ready.blocks, ready.small⟩
        refine kept.ideSecs_meets there any few ?_
        rw [ready.written there]
        exact next _
      | false =>
        simp only [Bool.false_eq_true, if_false, meets_bind, cut, blocks, fits]
        refine ready.ideSecs_meets there any few ?_
        refine iobufMove_meets ?_ copied ?_
        · show min disk.iob.ioResid (nblks * disk0Blksize) = nblks * disk0Blksize
          omega
        · rw [dif_pos ⟨rfl, aligned⟩, ready.read there]
          exact next _

/-! ## One request -/

/-- Whole blocks of the disk are asked for. -/
def Allowed (disk : Disk0) (start : Nat) : Prop :=
  start % disk0Blksize = 0 /\ disk.iob.ioResid % disk0Blksize = 0 /\
    start + disk.iob.ioResid <= disk.dBlocks * disk0Blksize

theorem Ready.io_meets (ready : disk.Ready) (offset : disk.iob.ioOffset = (start : Nat))
    (named : start + disk.iob.ioResid < 2 ^ 44) (refuses : Not (disk.Allowed start) -> fail .inval disk)
    (moves : disk.Allowed start -> forall buffer,
      done () ((disk.moved write start disk.iob.ioResid).setBuffer buffer)) :
    Meets (io write) disk ⟨done, fail, stop⟩ := by
  have small := ready.small
  have blocks := ready.blocks
  have blkno : (disk.iob.ioOffset.tdiv disk0Blksize % 2 ^ 32).toNat = start / disk0Blksize := by
    rw [offset, ← Int.ofNat_tdiv]
    unfold disk0Blksize
    omega
  have within : disk.iob.ioOffset.tmod disk0Blksize = (start % disk0Blksize : Nat) := by
    rw [offset, ← Int.ofNat_tmod]
  have nblks : disk.iob.ioResid / disk0Blksize % 2 ^ 32 = disk.iob.ioResid / disk0Blksize := by
    unfold disk0Blksize
    omega
  unfold io
  rw [meets_bind, meets_get]
  dsimp only
  rw [blkno, within, nblks]
  split
  · next broken =>
    exact refuses (fun allowed => by rcases allowed with ⟨first, last, _⟩; omega)
  · next whole =>
    have first : start % disk0Blksize = 0 := by omega
    have last : disk.iob.ioResid % disk0Blksize = 0 := by omega
    split
    · next past =>
      refine refuses (fun allowed => ?_)
      have inside := allowed.2.2
      unfold disk0Blksize at *
      omega
    · next inside =>
      have place : start / disk0Blksize * disk0Blksize = start := Nat.div_mul_cancel (Nat.dvd_of_mod_eq_zero first)
      have allowed : disk.Allowed start := by
        refine ⟨first, last, ?_⟩
        unfold disk0Blksize at *
        omega
      split
      · next none_ =>
        have ended : disk.iob.ioResid = 0 := by
          unfold disk0Blksize at *
          omega
        have nothing := moves allowed disk.buffer
        rw [ended, moved_zero] at nothing
        exact nothing
      · refine ready.ioLoop_meets rfl last ?_ (fun buffer => ?_)
        · rw [place]
          exact allowed.2.2
        · rw [place]
          exact moves allowed buffer

end Disk0

/-! ## An array of bytes -/

/-- A transfer that is asked for, with the memory at that time -/
structure Request where
  write : Bool
  ioBase : Nat
  ioOffset : Int
  ioResid : Nat
  memory : Nat -> UInt8

/-- The position has a block number of 32 bits, and so has the end: `disk0_io`
keeps both in a `uint32_t`, where a larger one would name another block. -/
def Request.Named (request : Request) : Prop :=
  0 <= request.ioOffset /\ request.ioOffset + request.ioResid < 2 ^ 44

/-- The bytes of a disk and what the last request has left -/
@[ext] structure DiskArray where
  size : Nat
  content : Nat -> UInt8
  memory : Nat -> UInt8
  ioResid : Nat
  error : Option Errno

namespace DiskArray

/-- Whole blocks are copied, from the array or to it; anything else is refused. -/
def serve (array : DiskArray) (request : Request) : DiskArray :=
  if request.ioOffset.toNat % disk0Blksize = 0 /\ request.ioResid % disk0Blksize = 0 /\
      request.ioOffset.toNat + request.ioResid <= array.size then
    if request.write = true then
      ⟨array.size, paste request.ioOffset.toNat request.ioResid (fun k => request.memory (request.ioBase + k))
        array.content, request.memory, 0, none⟩
    else
      ⟨array.size, array.content, paste request.ioBase request.ioResid
        (fun k => array.content (request.ioOffset.toNat + k)) request.memory, 0, none⟩
  else ⟨array.size, array.content, request.memory, request.ioResid, some .inval⟩

end DiskArray

/-- `disk0` with what `disk0_io` has returned -/
structure Returned where
  disk : Disk0
  error : Option Errno

namespace Disk0

/-- The disk with a new request -/
def asked (disk : Disk0) (request : Request) : Disk0 :=
  { disk with
    memory := request.memory
    iob := ⟨request.ioBase, request.ioOffset, request.ioResid, request.ioResid⟩ }

/-- The disk and its answer, unless the system stops -/
def returned (outcome : Outcome Disk0 Errno Fault Unit) : Option Returned :=
  outcome.state.map (fun after => ⟨after, outcome.error⟩)

end Disk0

/-- The disk, request by request -/
def diskMachine : Machine Returned Request where
  step now request := Disk0.returned (Disk0.io request.write (now.disk.asked request))

/-- The array that the disk is -/
def Returned.array (now : Returned) : DiskArray :=
  ⟨now.disk.dBlocks * disk0Blksize, now.disk.ide.image, now.disk.memory, now.disk.iob.ioResid, now.error⟩

theorem diskMachine_step {now : Returned} {request : Request} (ready : now.disk.Ready) (named : request.Named) :
    Exists fun after => diskMachine.step now request = some after /\ after.disk.Ready /\
      after.array = now.array.serve request := by
  have offset : (now.disk.asked request).iob.ioOffset = (request.ioOffset.toNat : Nat) :=
    (Int.toNat_of_nonneg named.1).symm
  have bounded : request.ioOffset.toNat + request.ioResid < 2 ^ 44 := by
    have bound := named.2
    have low := named.1
    omega
  have asked : (now.disk.asked request).Ready := ⟨ready.valid, ready.blocks, ready.small⟩
  have meets : Meets (Disk0.io request.write) (now.disk.asked request)
      ⟨fun _ after => after.Ready /\ Returned.array ⟨after, none⟩ = now.array.serve request,
        fun error after => after.Ready /\ Returned.array ⟨after, some error⟩ = now.array.serve request,
        fun _ => False⟩ := by
    refine asked.io_meets offset bounded (fun refused => ⟨asked, ?_⟩) (fun allowed buffer => ⟨asked.moved, ?_⟩)
    · exact (if_neg refused).symm
    · refine Eq.trans ?_ (if_pos allowed).symm
      unfold Returned.array Disk0.moved Disk0.setBuffer Disk0.asked
      cases asks : request.write with
      | true => simp only [if_true, Nat.sub_self]
      | false => simp only [Bool.false_eq_true, if_false, Nat.sub_self]
  unfold diskMachine
  dsimp only
  cases ran : Disk0.io request.write (now.disk.asked request) with
  | done value after => exact ⟨⟨after, none⟩, rfl, Meets.of_done meets ran⟩
  | fail error after => exact ⟨⟨after, some error⟩, rfl, Meets.of_fail meets ran⟩
  | stop fault => exact (Meets.of_stop meets ran).elim

theorem diskMachine_run (now : Returned) (ready : now.disk.Ready) (requests : List Request)
    (named : forall request, request ∈ requests -> request.Named) :
    Exists fun last => diskMachine.run now requests = some last /\ last.disk.Ready /\
      last.array = requests.foldl DiskArray.serve now.array := by
  induction requests generalizing now with
  | nil => exact ⟨now, rfl, ready, rfl⟩
  | cons request rest inductionHypothesis =>
    rcases diskMachine_step ready (named request List.mem_cons_self) with ⟨after, stepped, readyAfter, served⟩
    rcases inductionHypothesis after readyAfter (fun other member => named other (List.mem_cons_of_mem _ member)) with
      ⟨last, ran, readyLast, array⟩
    refine ⟨last, ?_, readyLast, ?_⟩
    · rw [Machine.run_cons, stepped]
      exact ran
    · rw [array, served, List.foldl_cons]

section Boot

variable {disk : Disk0} {length : Nat} {image : Nat -> UInt8}

/-- The disk that `disk0_device_init` leaves -/
def Disk0.counted (disk : Disk0) : Disk0 := { disk with dBlocks := disk.ide.size / disk0BlkNsect }

theorem deviceInit_eq (inserted : disk.ide = IdeDevice.ramdiskInit length image) (any : 0 < length) :
    Disk0.deviceInit true disk = .done () disk.counted /\ disk.counted.Ready /\ disk.ide.image = image /\
      disk.ide.size = length % 2 ^ 32 / sectsize := by
  have ide : disk.ide = ⟨true, length % 2 ^ 32 / sectsize, image⟩ := inserted.trans (if_neg (by omega))
  have size : disk.ide.size = length % 2 ^ 32 / sectsize := congrArg IdeDevice.size ide
  have valid : disk.ide.valid = true := congrArg IdeDevice.valid ide
  refine ⟨?_, ⟨valid, rfl, ?_⟩, congrArg IdeDevice.image ide, size⟩
  · have ran : Meets (Disk0.deviceInit true) disk
        ⟨fun _ after => after = disk.counted, fun _ _ => False, fun _ => False⟩ := by
      unfold Disk0.deviceInit IdeDevice.deviceSize IdeDevice.deviceValid
      rw [meets_bind, meets_get]
      dsimp only
      rw [valid, if_neg (by decide), meets_bind, meets_modify, valid, if_pos rfl, if_neg (by decide)]
      dsimp only
      rw [meets_pure]
      rfl
    rcases ran.returned with ⟨_, after, ran, same⟩
    rw [ran, same]
  · show disk.ide.size <= maxDiskNsecs
    rw [size]
    unfold sectsize maxDiskNsecs
    omega

/-- Whatever is asked of the disk after it has been set up, and in whatever
order, with memory for its buffer, it is an array of bytes, the whole blocks of
the image: a request that is not for whole blocks of it is refused and changes
nothing, any other one is served in full, and the system never stops. -/
theorem disk0_serves_array (inserted : disk.ide = IdeDevice.ramdiskInit length image) (any : 0 < length)
    (requests : List Request) (named : forall request, request ∈ requests -> request.Named) :
    Exists fun fresh => Exists fun last => Disk0.deviceInit true disk = .done () fresh /\
      diskMachine.run ⟨fresh, none⟩ requests = some last /\
      last.array = requests.foldl DiskArray.serve
        ⟨length % 2 ^ 32 / disk0Blksize * disk0Blksize, image, disk.memory, disk.iob.ioResid, none⟩ := by
  rcases deviceInit_eq inserted any with ⟨ran, ready, holds, size⟩
  rcases diskMachine_run ⟨disk.counted, none⟩ ready requests named with ⟨last, served, _, array⟩
  refine ⟨disk.counted, last, ran, served, ?_⟩
  have blocks : disk.ide.size / disk0BlkNsect = length % 2 ^ 32 / disk0Blksize := by
    rw [size, Nat.div_div_eq_div_mul]
    rfl
  have start : Returned.array ⟨disk.counted, none⟩ =
      ⟨length % 2 ^ 32 / disk0Blksize * disk0Blksize, image, disk.memory, disk.iob.ioResid, none⟩ := by
    unfold Returned.array Disk0.counted
    rw [blocks, holds]
  rw [array, start]

end Boot

/-- Two blocks are in the image; one is written and both are read, and a third
one is refused. -/
def twoBlocksRequests : List Request :=
  [⟨true, 100, 4096, 4096, fun _ => 7⟩, ⟨false, 0, 0, 8192, fun _ => 0⟩, ⟨false, 0, 8192, 4096, fun _ => 0⟩]

theorem twoBlocks_served :
    Exists fun fresh => Exists fun last =>
      Disk0.deviceInit true ⟨0, IdeDevice.ramdiskInit 8192 (fun _ => 1), fun _ => 0, fun _ => 0, ⟨0, 0, 0, 0⟩⟩ =
        .done () fresh /\
      diskMachine.run ⟨fresh, none⟩ twoBlocksRequests = some last /\
      last.array = twoBlocksRequests.foldl DiskArray.serve
        ⟨8192 % 2 ^ 32 / disk0Blksize * disk0Blksize, fun _ => 1, fun _ => 0, 0, none⟩ := by
  refine disk0_serves_array rfl (by decide) twoBlocksRequests (fun request member => ?_)
  unfold Request.Named
  rcases List.mem_cons.mp member with rfl | member
  · decide
  · rcases List.mem_cons.mp member with rfl | member
    · decide
    · rw [List.mem_singleton.mp member]
      decide

/-! ## The device of a volume -/

open Sfs (Bytes SfsFs dopIo)

/-- One block is read or written through a buffer in memory. -/
structure BlockTransfer where
  blkno : Nat
  ioBase : Nat
  buf : Bytes
  write : Bool

/-- `iobuf_init` for the block -/
def BlockTransfer.request (transfer : BlockTransfer) (memory : Nat -> UInt8) : Request :=
  ⟨transfer.write, transfer.ioBase, (transfer.blkno * disk0Blksize : Nat), disk0Blksize,
    paste transfer.ioBase disk0Blksize transfer.buf memory⟩

/-- The block that is in the buffer afterwards -/
def blockAt (memory : Nat -> UInt8) (base : Nat) : List UInt8 :=
  (List.range disk0Blksize).map (fun k => memory (base + k))

/-- The blocks of a volume, with what each transfer leaves in its buffer -/
def volumeMachine : Machine SfsFs (BlockTransfer × List UInt8) where
  step fs event :=
    let outcome := dopIo event.1.buf (event.1.blkno * disk0Blksize) event.1.write fs
    if outcome.value.map (blockAt · 0) = some event.2 then outcome.state else none

/-- The same transfers at the disk -/
def blockMachine : Machine Disk0 (BlockTransfer × List UInt8) where
  step disk event :=
    (diskMachine.step ⟨disk, none⟩ (event.1.request disk.memory)).bind (fun now =>
      if now.error = none /\ blockAt now.disk.memory event.1.ioBase = event.2 then some now.disk else none)

/-- The blocks of the device are those of the disk. -/
structure Disk0.Backs (disk : Disk0) (fs : SfsFs) : Prop where
  blocks : fs.device.dBlocks = disk.dBlocks
  blocksize : fs.device.dBlocksize = disk0Blksize
  works : forall transfer, fs.device.error transfer = none
  block : forall blkno, blkno < disk.dBlocks -> forall k, k < disk0Blksize ->
    fs.device.block blkno k = disk.ide.image (blkno * disk0Blksize + k)

section Volume

variable {disk : Disk0} {fs : SfsFs} {transfer : BlockTransfer}

theorem blockAt_congr {memory other : Nat -> UInt8} {base place : Nat}
    (same : forall k, k < disk0Blksize -> memory (base + k) = other (place + k)) :
    blockAt memory base = blockAt other place :=
  List.map_congr_left (fun k member => same k (List.mem_range.mp member))

/-- A request for one block of the disk is served. -/
theorem Disk0.serve_block (inRange : transfer.blkno < disk.dBlocks) (memory : Nat -> UInt8) :
    (Returned.array ⟨disk, none⟩).serve (transfer.request memory) =
      if transfer.write = true then
        ⟨disk.dBlocks * disk0Blksize, paste (transfer.blkno * disk0Blksize) disk0Blksize
          (fun k => paste transfer.ioBase disk0Blksize transfer.buf memory (transfer.ioBase + k)) disk.ide.image,
          paste transfer.ioBase disk0Blksize transfer.buf memory, 0, none⟩
      else
        ⟨disk.dBlocks * disk0Blksize, disk.ide.image, paste transfer.ioBase disk0Blksize
          (fun k => disk.ide.image (transfer.blkno * disk0Blksize + k))
          (paste transfer.ioBase disk0Blksize transfer.buf memory), 0, none⟩ := by
  have start : (transfer.request memory).ioOffset.toNat = transfer.blkno * disk0Blksize := Int.toNat_natCast _
  have inside : transfer.blkno * disk0Blksize + disk0Blksize <= disk.dBlocks * disk0Blksize := by
    unfold disk0Blksize
    omega
  unfold DiskArray.serve
  rw [start]
  exact if_pos ⟨Nat.mul_mod_left _ _, Nat.mod_self _, inside⟩

theorem Disk0.Backs.written {after : Disk0} {blkno : Nat} {buf : Bytes} {source : Nat -> UInt8} (backs : disk.Backs fs)
    (same : after.dBlocks = disk.dBlocks)
    (image : after.ide.image = paste (blkno * disk0Blksize) disk0Blksize source disk.ide.image)
    (copied : forall k, k < disk0Blksize -> source k = buf k) : after.Backs (fs.store blkno buf) := by
  refine ⟨backs.blocks.trans same.symm, backs.blocksize, backs.works, fun other inRange k inside => ?_⟩
  rw [image]
  show Function.update fs.device.block blkno buf other k = _
  rcases Decidable.em (other = blkno) with here | there
  · rw [here, Function.update_self, paste_inside (by omega) (by omega), Nat.add_sub_cancel_left, copied k inside]
  · rw [Function.update_of_ne there, backs.block other (by omega) k inside, paste_outside]
    unfold disk0Blksize at *
    omega

theorem Disk0.Backs.read {after : Disk0} (backs : disk.Backs fs) (same : after.dBlocks = disk.dBlocks)
    (image : after.ide.image = disk.ide.image) : after.Backs fs.tick := by
  refine ⟨backs.blocks.trans same.symm, backs.blocksize, backs.works, fun blkno inRange k inside => ?_⟩
  rw [image]
  exact backs.block blkno (by omega) k inside

theorem blockMachine_step {now : Returned} {bytes : List UInt8}
    (stepped : diskMachine.step ⟨disk, none⟩ (transfer.request disk.memory) = some now) (error : now.error = none)
    (left : blockAt now.disk.memory transfer.ioBase = bytes) :
    blockMachine.step disk (transfer, bytes) = some now.disk := by
  unfold blockMachine
  dsimp only
  rw [stepped, Option.bind_some, if_pos ⟨error, left⟩]

theorem volumeMachine_step {after : SfsFs} {bytes : Bytes}
    (ran : dopIo transfer.buf (transfer.blkno * disk0Blksize) transfer.write fs = .done bytes after) :
    volumeMachine.step fs (transfer, blockAt bytes 0) = some after := by
  have left : (dopIo transfer.buf (transfer.blkno * disk0Blksize) transfer.write fs).value.map (blockAt · 0) =
      some (blockAt bytes 0) := by
    rw [ran]
    rfl
  unfold volumeMachine
  dsimp only
  rw [if_pos left, ran]
  rfl

/-- A transfer of the volume is one of the disk. -/
theorem Disk0.Backs.step (backs : disk.Backs fs) (ready : disk.Ready) (inRange : transfer.blkno < disk.dBlocks) :
    Exists fun bytes => Exists fun fresh => Exists fun after =>
      volumeMachine.step fs (transfer, bytes) = some fresh /\ blockMachine.step disk (transfer, bytes) = some after /\
      after.Ready /\ after.dBlocks = disk.dBlocks /\ after.Backs fresh := by
  have small := ready.small
  have counted := ready.blocks
  have named : (transfer.request disk.memory).Named := by
    unfold Request.Named BlockTransfer.request disk0BlkNsect disk0Blksize sectsize maxDiskNsecs at *
    dsimp only
    omega
  have started : (Returned.mk disk none).disk.Ready := ready
  rcases diskMachine_step started named with ⟨now, stepped, readyNow, served⟩
  rw [serve_block inRange] at served
  have place : transfer.blkno * disk0Blksize / Sfs.blksize = transfer.blkno :=
    Nat.mul_div_cancel transfer.blkno (by decide)
  have held : forall k, k < disk0Blksize ->
      paste transfer.ioBase disk0Blksize transfer.buf disk.memory (transfer.ioBase + k) = transfer.buf k := by
    intro k inside
    rw [paste_inside (by omega) (by omega), Nat.add_sub_cancel_left]
  have same : now.disk.dBlocks = disk.dBlocks := by
    refine Nat.eq_of_mul_eq_mul_right (by decide : 0 < disk0Blksize) ((congrArg DiskArray.size served).trans ?_)
    split <;> rfl
  cases asks : transfer.write with
  | true =>
    rw [asks, if_pos rfl] at served
    have image : now.disk.ide.image = paste (transfer.blkno * disk0Blksize) disk0Blksize
        (fun k => paste transfer.ioBase disk0Blksize transfer.buf disk.memory (transfer.ioBase + k)) disk.ide.image :=
      congrArg DiskArray.content served
    have memory : now.disk.memory = paste transfer.ioBase disk0Blksize transfer.buf disk.memory :=
      congrArg DiskArray.memory served
    refine ⟨blockAt transfer.buf 0, fs.store transfer.blkno transfer.buf, now.disk, volumeMachine_step ?_,
      blockMachine_step stepped (congrArg DiskArray.error served) (blockAt_congr (fun k inside => ?_)), readyNow, same,
      backs.written same image held⟩
    · unfold dopIo
      rw [backs.works, asks, place, if_pos rfl]
    · rw [memory, held k inside, Nat.zero_add]
  | false =>
    rw [asks, if_neg (by decide)] at served
    have image : now.disk.ide.image = disk.ide.image := congrArg DiskArray.content served
    have memory : now.disk.memory = paste transfer.ioBase disk0Blksize
        (fun k => disk.ide.image (transfer.blkno * disk0Blksize + k))
        (paste transfer.ioBase disk0Blksize transfer.buf disk.memory) :=
      congrArg DiskArray.memory served
    refine ⟨blockAt (fs.device.block transfer.blkno) 0, fs.tick, now.disk, volumeMachine_step ?_,
      blockMachine_step stepped (congrArg DiskArray.error served) (blockAt_congr (fun k inside => ?_)), readyNow, same,
      backs.read same image⟩
    · unfold dopIo
      rw [backs.works, asks, place, if_neg (by decide)]
    · rw [memory, paste_inside (by omega) (by omega), Nat.add_sub_cancel_left, Nat.zero_add,
        backs.block transfer.blkno inRange k inside]

/-- Every run of a volume's transfers, of blocks that the disk has, is a run of
`disk0`: it never refuses and never stops, every buffer holds the same block
afterwards, and so does every block of the disk. -/
theorem disk0_backs_volume (backs : disk.Backs fs) (ready : disk.Ready) (transfers : List BlockTransfer)
    (inRange : forall transfer, transfer ∈ transfers -> transfer.blkno < disk.dBlocks) :
    Exists fun blocks : List (List UInt8) => Exists fun last => Exists fun final =>
      blocks.length = transfers.length /\ volumeMachine.run fs (transfers.zip blocks) = some last /\
      blockMachine.run disk (transfers.zip blocks) = some final /\ final.Ready /\ final.Backs last := by
  induction transfers generalizing disk fs with
  | nil => exact ⟨[], fs, disk, rfl, rfl, rfl, ready, backs⟩
  | cons transfer rest inductionHypothesis =>
    rcases backs.step ready (inRange transfer List.mem_cons_self) with
      ⟨bytes, fresh, after, moved, served, readyAfter, same, backsAfter⟩
    rcases inductionHypothesis backsAfter readyAfter
      (fun other member => same ▸ inRange other (List.mem_cons_of_mem _ member)) with
      ⟨blocks, last, final, length, ran, disked, readyFinal, backsFinal⟩
    refine ⟨bytes :: blocks, last, final, congrArg (· + 1) length, ?_, ?_, readyFinal, backsFinal⟩
    · rw [List.zip_cons_cons, Machine.run_cons, moved]
      exact ran
    · rw [List.zip_cons_cons, Machine.run_cons, served]
      exact disked

end Volume

/-- The disk with the blocks of a volume -/
def imaged (fs : SfsFs) : Disk0 :=
  ⟨fs.device.dBlocks, ⟨true, fs.device.dBlocks * disk0BlkNsect, fun place =>
    fs.device.block (place / disk0Blksize) (place % disk0Blksize)⟩, fun _ => 0, fun _ => 0, ⟨0, 0, 0, 0⟩⟩

theorem imaged_backs (fs : SfsFs) (works : forall transfer, fs.device.error transfer = none)
    (blocksize : fs.device.dBlocksize = disk0Blksize) : (imaged fs).Backs fs := by
  refine ⟨rfl, blocksize, works, fun blkno _ k inside => ?_⟩
  have block : (blkno * disk0Blksize + k) / disk0Blksize = blkno := by
    unfold disk0Blksize at *
    omega
  have index : (blkno * disk0Blksize + k) % disk0Blksize = k := by
    unfold disk0Blksize at *
    omega
  show _ = fs.device.block ((blkno * disk0Blksize + k) / disk0Blksize) ((blkno * disk0Blksize + k) % disk0Blksize)
  rw [block, index]

/-- The super block is read, a block is written, and both are read again. -/
def fewTransfers : List BlockTransfer :=
  [⟨0, 0, fun _ => 0, false⟩, ⟨6, 4096, fun _ => 9, true⟩, ⟨6, 0, fun _ => 0, false⟩, ⟨0, 0, fun _ => 0, false⟩]

theorem formatted_backed :
    Exists fun blocks : List (List UInt8) => Exists fun last => Exists fun final =>
      blocks.length = fewTransfers.length /\
      volumeMachine.run (Sfs.mountedVolume 8 fun _ => none) (fewTransfers.zip blocks) = some last /\
      blockMachine.run (imaged (Sfs.mountedVolume 8 fun _ => none)) (fewTransfers.zip blocks) = some final /\
      final.Ready /\ final.Backs last := by
  refine disk0_backs_volume (imaged_backs _ (fun _ => rfl) rfl) ⟨rfl, rfl, by decide⟩ fewTransfers
    (fun transfer member => ?_)
  show transfer.blkno < 8
  rcases List.mem_cons.mp member with rfl | member
  · decide
  · rcases List.mem_cons.mp member with rfl | member
    · decide
    · rcases List.mem_cons.mp member with rfl | member
      · decide
      · rw [List.mem_singleton.mp member]
        decide

end Devices
end Ucore
