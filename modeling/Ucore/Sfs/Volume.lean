import Ucore.Library.Program
import Ucore.Sfs.Layout

namespace Ucore
namespace Sfs

open Library

/-!
# Blocks of a mounted volume

The device transfers whole blocks.  Which of its transfers fail is given by
its number; a transfer that fails changes nothing.  The scratch buffer
`sfs_buffer` is filled anew before each use and is not part of the state, and
the locks are not either, since each operation runs between its own.
-/

/-- The error codes that occur here. -/
inductive Errno where
  | inval
  | noMem
  | naDev
  | busy
  | exists
  | io
  | noEnt
  | noDev
  | notDir
  | isDir
  | maxOpen
deriving DecidableEq, Repr

/-- What stops the kernel. -/
inductive Fault where
  | assertion (text : String)
  | panic (text : String)
deriving DecidableEq, Repr

structure Device where
  dBlocks : Nat
  dBlocksize : Nat
  block : Nat -> Bytes
  transfers : Nat
  error : Nat -> Option Errno

structure Bitmap where
  nbits : Nat
  bit : Nat -> Bool

/-- `struct sfs_inode`, with the reference count of its `struct inode`. -/
structure Inode where
  din : DiskInode
  dirty : Bool
  reclaimCount : Int
  refCount : Int

/-- `struct sfs_fs`.  An inode is reached by its number; `inodeList` are the
loaded ones. -/
structure SfsFs where
  super : Super
  freemap : Bitmap
  superDirty : Bool
  inodeList : List Nat
  inode : Nat -> Inode
  device : Device

abbrev Kernel (Value : Type) := Program SfsFs Errno Fault Value

namespace SfsFs

/-- One more transfer has been made. -/
def tick (fs : SfsFs) : SfsFs := { fs with device := { fs.device with transfers := fs.device.transfers + 1 } }

/-- A block has been written. -/
def store (fs : SfsFs) (blkno : Nat) (data : Bytes) : SfsFs :=
  { fs with
    device :=
      { fs.device with
        block := Function.update fs.device.block blkno data
        transfers := fs.device.transfers + 1 } }

def setBit (fs : SfsFs) (index : Nat) (value : Bool) : SfsFs :=
  { fs with freemap := { fs.freemap with bit := Function.update fs.freemap.bit index value } }

/-- `super.unused_blocks = unused, super_dirty = 1` -/
def setUnused (fs : SfsFs) (unused : Nat) : SfsFs :=
  { fs with super := { fs.super with unusedBlocks := unused }, superDirty := true }

def setInode (fs : SfsFs) (ino : Nat) (sin : Inode) : SfsFs :=
  { fs with inode := Function.update fs.inode ino sin }

end SfsFs

open Program

/-! ## Transfers -/

/-- `dop_io` of one block at a byte position. -/
def dopIo (buf : Bytes) (offset : Nat) (write : Bool) : Kernel Bytes := fun fs =>
  match fs.device.error fs.device.transfers with
  | some error => .fail error fs.tick
  | none =>
      if write = true then .done buf (fs.store (offset / blksize) buf)
      else .done (fs.device.block (offset / blksize)) fs.tick

/-- `sfs_rwblock_nolock`; the result is the buffer.  The position is computed
in 32 bits. -/
def rwblockNolock (buf : Bytes) (blkno : Nat) (write check : Bool) : Kernel Bytes := do
  let fs <- get
  assert ((blkno ≠ 0 \/ check = false) /\ blkno < fs.super.blocks)
    (.assertion "(blkno != 0 || !check) && blkno < sfs->super.blocks")
  dopIo buf (blkno * blksize % 2 ^ 32) write

/-- The loop of `sfs_rwblock`, from a position of the buffer on. -/
def rwblockLoop (write : Bool) : Nat -> Nat -> Nat -> Bytes -> Kernel Bytes
  | 0, _, _, buf => pure buf
  | nblks + 1, blkno, base, buf => do
      let block <- rwblockNolock (fun k => buf (base + k)) blkno write true
      rwblockLoop write nblks (blkno + 1) (base + blksize) (splice buf base blksize block)

/-- `sfs_rwblock`, that is `sfs_rblock` and `sfs_wblock` -/
def rwblock (buf : Bytes) (blkno nblks : Nat) (write : Bool) : Kernel Bytes := rwblockLoop write nblks blkno 0 buf

/-- `sfs_rbuf`; the bytes that are copied to the buffer. -/
def rbuf (len blkno offset : Nat) : Kernel Bytes := do
  assert (offset < blksize /\ offset + len <= blksize)
    (.assertion "offset >= 0 && offset < SFS_BLKSIZE && offset + len <= SFS_BLKSIZE")
  let block <- rwblockNolock (fun _ => 0) blkno false true
  pure (fun k => block (offset + k))

/-- `sfs_wbuf` -/
def wbuf (data : Bytes) (len blkno offset : Nat) : Kernel Unit := do
  assert (offset < blksize /\ offset + len <= blksize)
    (.assertion "offset >= 0 && offset < SFS_BLKSIZE && offset + len <= SFS_BLKSIZE")
  let block <- rwblockNolock (fun _ => 0) blkno false true
  let _ <- rwblockNolock (splice block offset len data) blkno true true

/-- `sfs_clear_block` -/
def clearBlock (blkno nblks : Nat) : Kernel Unit :=
  forRange (fun number => do let _ <- rwblockNolock (fun _ => 0) number true true) blkno nblks

/-! ## The free map -/

/-- The words of the map, of 32 bits. -/
def Bitmap.findBit (bitmap : Bitmap) : Option Nat :=
  (List.range (roundupDiv bitmap.nbits 32)).findSome? (fun ix =>
    ((List.range 32).find? (fun offset => bitmap.bit (32 * ix + offset))).map (fun offset => 32 * ix + offset))

def bitmapAlloc : Kernel Nat := do
  let fs <- get
  match fs.freemap.findBit with
  | none => throw .noMem
  | some index =>
      modify (fun fs => fs.setBit index false)
      pure index

def bitmapTest (index : Nat) : Kernel Bool := do
  let fs <- get
  assert (index < fs.freemap.nbits) (.assertion "index < bitmap->nbits")
  pure (fs.freemap.bit index)

def bitmapFree (index : Nat) : Kernel Unit := do
  let set <- bitmapTest index
  assert (set = false) (.assertion "!(*word & mask)")
  modify (fun fs => fs.setBit index true)

/-- `sfs_block_inuse` -/
def blockInuse (ino : Nat) : Kernel Bool := do
  let fs <- get
  if ino ≠ 0 /\ ino < fs.super.blocks then do
    let set <- bitmapTest ino
    pure (!set)
  else halt (.panic "sfs_block_inuse: called out of range")

def assertInuse (ino : Nat) : Kernel Unit := do
  let inuse <- blockInuse ino
  assert (inuse = true) (.assertion "sfs_block_inuse(sfs, ino)")

/-- `sfs_block_alloc` -/
def blockAlloc : Kernel Nat := do
  let ino <- bitmapAlloc
  let fs <- get
  assert (fs.super.unusedBlocks > 0) (.assertion "sfs->super.unused_blocks > 0")
  modify (fun fs => fs.setUnused (fs.super.unusedBlocks - 1))
  assertInuse ino
  clearBlock ino 1
  pure ino

/-- `sfs_block_free` -/
def blockFree (ino : Nat) : Kernel Unit := do
  assertInuse ino
  bitmapFree ino
  modify (fun fs => fs.setUnused (fs.super.unusedBlocks + 1))

end Sfs
end Ucore
