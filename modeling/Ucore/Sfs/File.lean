import Mathlib.Data.Int.Init
import Ucore.Sfs.Volume

namespace Ucore
namespace Sfs

open Library
open Program

/-!
# Files

The functions of `sfs_inode.c` on an inode given by its number, which must be
that of a loaded inode.  A pointer through which a function returns a number
is a result, and `goto` to a clean-up is `onError`.
-/

/-- `sin->din` -/
def getDin (ino : Nat) : Kernel DiskInode := do
  let fs <- get
  pure (fs.inode ino).din

/-- Change `sin->din` and leave `sin->dirty`. -/
def setDin (ino : Nat) (change : DiskInode -> DiskInode) : Kernel Unit :=
  modify (fun fs => fs.setInode ino { fs.inode ino with din := change (fs.inode ino).din })

/-- `sin->dirty = flag` -/
def setDirty (ino : Nat) (flag : Bool) : Kernel Unit :=
  modify (fun fs => fs.setInode ino { fs.inode ino with dirty := flag })

/-! ## Block maps -/

/-- `sfs_bmap_get_sub_nolock` from the allocation of the block on; `entp` is
the entry block before the call. -/
def bmapAllocSub (entp ent offset : Nat) : Kernel (Nat × Nat) :=
  onError (do
      let ino <- blockAlloc
      onError (wbuf (numberBytes ino) 4 ent offset) (blockFree ino)
      pure (ent, ino))
    (if ent ≠ entp then blockFree ent else pure ())

/-- `sfs_bmap_get_sub_nolock`; the results are `*entp` and `*ino_store`. -/
def bmapGetSubNolock (entp index : Nat) (create : Bool) : Kernel (Nat × Nat) := do
  assert (index < blkNentry) (.assertion "index < SFS_BLK_NENTRY")
  let offset := index * 4
  if entp ≠ 0 then do
    let bytes <- rbuf 4 entp offset
    let ino := u32At bytes 0
    if ino ≠ 0 \/ create = false then pure (entp, ino) else bmapAllocSub entp entp offset
  else if create = false then pure (entp, 0)
  else do
    let ent <- blockAlloc
    bmapAllocSub entp ent offset

/-- The end of `sfs_bmap_get_nolock`. -/
def bmapGetOut (ino : Nat) : Kernel Nat := do
  if ino ≠ 0 then assertInuse ino else pure ()
  pure ino

/-- `sfs_bmap_get_nolock` -/
def bmapGetNolock (sin index : Nat) (create : Bool) : Kernel Nat := do
  let din <- getDin sin
  if direct : index < ndirect then
    if din.direct ⟨index, direct⟩ = 0 /\ create = true then do
      let ino <- blockAlloc
      setDin sin (fun din => din.setDirect ⟨index, direct⟩ ino)
      setDirty sin true
      bmapGetOut ino
    else bmapGetOut (din.direct ⟨index, direct⟩)
  else if index - ndirect < blkNentry then do
    let (ent, ino) <- bmapGetSubNolock din.indirect (index - ndirect) create
    if ent ≠ din.indirect then do
      assert (din.indirect = 0) (.assertion "din->indirect == 0")
      setDin sin (fun din => din.setIndirect ent)
      setDirty sin true
    else pure ()
    bmapGetOut ino
  else halt (.panic "sfs_bmap_get_nolock - index out of range")

/-- `sfs_bmap_free_sub_nolock` -/
def bmapFreeSubNolock (ent index : Nat) : Kernel Unit := do
  assertInuse ent
  assert (index < blkNentry) (.assertion "index < SFS_BLK_NENTRY")
  let bytes <- rbuf 4 ent (index * 4)
  let ino := u32At bytes 0
  if ino ≠ 0 then do
    wbuf (numberBytes 0) 4 ent (index * 4)
    blockFree ino
  else pure ()

/-- `sfs_bmap_free_nolock` -/
def bmapFreeNolock (sin index : Nat) : Kernel Unit := do
  let din <- getDin sin
  if direct : index < ndirect then
    if din.direct ⟨index, direct⟩ ≠ 0 then do
      blockFree (din.direct ⟨index, direct⟩)
      setDin sin (fun din => din.setDirect ⟨index, direct⟩ 0)
      setDirty sin true
    else pure ()
  else if index - ndirect < blkNentry then
    if din.indirect ≠ 0 then bmapFreeSubNolock din.indirect (index - ndirect) else pure ()
  else pure ()

/-- `sfs_bmap_load_nolock` -/
def bmapLoadNolock (sin index : Nat) : Kernel Nat := do
  let din <- getDin sin
  assert (index <= din.blocks) (.assertion "index <= din->blocks")
  let create := decide (index = din.blocks)
  let ino <- bmapGetNolock sin index create
  assertInuse ino
  if create = true then setDin sin (fun din => din.setBlocks (din.blocks + 1)) else pure ()
  pure ino

/-- `sfs_bmap_truncate_nolock` -/
def bmapTruncateNolock (sin : Nat) : Kernel Unit := do
  let din <- getDin sin
  assert (din.blocks ≠ 0) (.assertion "din->blocks != 0")
  bmapFreeNolock sin (din.blocks - 1)
  setDin sin (fun din => din.setBlocks (din.blocks - 1))
  setDirty sin true

/-! ## Length -/

/-- The loops of `sfs_truncfile`. -/
def resize (sin nblks tblks : Nat) : Kernel Unit :=
  if nblks < tblks then
    forRange (fun number => do let _ <- bmapLoadNolock sin number) nblks (tblks - nblks)
  else forRange (fun _ => bmapTruncateNolock sin) 0 (nblks - tblks)

/-- `sfs_truncfile` -/
def truncfile (sin : Nat) (len : Int) : Kernel Unit := do
  if len < 0 \/ (maxFileSize : Int) < len then throw .inval
  else do
    let tblks := roundupDiv len.toNat blksize
    let din <- getDin sin
    if din.size = len.toNat then assert (tblks = din.blocks) (.assertion "tblks == din->blocks")
    else do
      resize sin din.blocks tblks
      let resized <- getDin sin
      assert (resized.blocks = tblks) (.assertion "din->blocks == tblks")
      setDin sin (fun din => din.setSize len.toNat)
      setDirty sin true

/-- `sfs_tryseek` -/
def tryseek (sin : Nat) (pos : Int) : Kernel Unit := do
  if pos < 0 \/ (maxFileSize : Int) <= pos then throw .inval
  else do
    let din <- getDin sin
    if (din.size : Int) < pos then truncfile sin pos else pure ()

/-! ## Reading and writing -/

/-- What `sfs_io_nolock` has done so far: its result, the length, and the
buffer of the caller. -/
structure Transfer where
  ret : Option Errno
  alen : Nat
  buf : Bytes

/-- `sfs_bmap_load_nolock` and a buffer operation on the block. -/
def ioBuf (sin : Nat) (write : Bool) (blkno size blkoff : Nat) (done : Transfer) : Kernel Transfer := do
  let outcome <- attempt (do
    let ino <- bmapLoadNolock sin blkno
    if write = true then do
      wbuf (fun k => done.buf (done.alen + k)) size ino blkoff
      pure done.buf
    else do
      let bytes <- rbuf size ino blkoff
      pure (splice done.buf done.alen size bytes))
  match outcome with
  | .ok buf => pure ⟨none, done.alen + size, buf⟩
  | .error error => pure { done with ret := some error }

/-- `sfs_bmap_load_nolock` and a block operation. -/
def ioBlock (sin : Nat) (write : Bool) (blkno : Nat) (done : Transfer) : Kernel Transfer := do
  let outcome <- attempt (do
    let ino <- bmapLoadNolock sin blkno
    let bytes <- rwblock (fun k => done.buf (done.alen + k)) ino 1 write
    pure (if write = true then done.buf else splice done.buf done.alen blksize bytes))
  match outcome with
  | .ok buf => pure ⟨none, done.alen + blksize, buf⟩
  | .error error => pure { done with ret := some error }

/-- The loop over whole blocks. -/
def ioBlocks (sin : Nat) (write : Bool) : Nat -> Nat -> Transfer -> Kernel Transfer
  | 0, _, done => pure done
  | nblks + 1, blkno, done => do
      let next <- ioBlock sin write blkno done
      if next.ret = none then ioBlocks sin write nblks (blkno + 1) next else pure next

/-- The blocks of `sfs_io_nolock`: the unaligned first one, the whole ones
and the rest. -/
def ioParts (sin : Nat) (write : Bool) (offset endpos : Nat) (buf : Bytes) : Kernel Transfer := do
  let blkno := offset / blksize
  let nblks := endpos / blksize - blkno
  let blkoff := offset % blksize
  let size := if nblks ≠ 0 then blksize - blkoff else endpos - offset
  let first <- if blkoff ≠ 0 then ioBuf sin write blkno size blkoff ⟨none, 0, buf⟩ else pure ⟨none, 0, buf⟩
  if first.ret ≠ none \/ (blkoff ≠ 0 /\ nblks = 0) then pure first
  else do
    let blkno := if blkoff ≠ 0 then blkno + 1 else blkno
    let nblks := if blkoff ≠ 0 then nblks - 1 else nblks
    let middle <- ioBlocks sin write nblks blkno first
    if middle.ret ≠ none \/ endpos % blksize = 0 then pure middle
    else ioBuf sin write (blkno + nblks) (endpos % blksize) 0 middle

/-- `sfs_io_nolock`; the sum of an offset and a length is taken in 64 bits. -/
def ioNolock (sin : Nat) (buf : Bytes) (offset : Int) (alen : Nat) (write : Bool) : Kernel Transfer := do
  let din <- getDin sin
  assert (din.type ≠ typeDir) (.assertion "din->type != SFS_TYPE_DIR")
  let endpos := (offset + alen).bmod (2 ^ 64)
  if offset < 0 \/ (maxFileSize : Int) <= offset \/ endpos < offset then pure ⟨some .inval, 0, buf⟩
  else if offset = endpos then pure ⟨none, 0, buf⟩
  else
    let endpos := min endpos.toNat maxFileSize
    if write = false /\ din.size <= offset.toNat then pure ⟨none, 0, buf⟩
    else do
      let endpos := if write = false then min endpos din.size else endpos
      let done <- ioParts sin write offset.toNat endpos buf
      let after <- getDin sin
      if write = true /\ after.size < offset.toNat + done.alen then do
        setDin sin (fun din => din.setSize (offset.toNat + done.alen))
        setDirty sin true
      else pure ()
      pure done

/-- `sfs_io` -/
def io (sin : Nat) (buf : Bytes) (offset : Int) (resid : Nat) (write : Bool) : Kernel Transfer := do
  let done <- ioNolock sin buf offset resid write
  if done.alen ≠ 0 then assert (done.alen <= resid) (.assertion "iob->io_resid >= n") else pure ()
  pure done

/-! ## Synchronisation -/

/-- `sfs_fsync` -/
def fsync (sin : Nat) : Kernel Unit := do
  let fs <- get
  if (fs.inode sin).dirty = true then do
    setDirty sin false
    onError (wbuf (encodeInode (fs.inode sin).din) inodeBytes sin 0) (setDirty sin true)
  else pure ()

/-- `sfs_sync_super` -/
def syncSuper : Kernel Unit := do
  let fs <- get
  let _ <- rwblockNolock (splice (fun _ => 0) 0 superBytes (encodeSuper fs.super)) blknSuper true false

/-- `sfs_freemap_blocks` -/
def freemapBlocks (super : Super) : Nat := roundupDiv super.blocks blkbits

/-- `sfs_sync_freemap` -/
def syncFreemap : Kernel Unit := do
  let fs <- get
  let _ <- rwblock (freemapBytes fs.freemap.bit) blknFreemap (freemapBlocks fs.super) true

def setSuperDirty (flag : Bool) : Kernel Unit := modify (fun fs => { fs with superDirty := flag })

/-- The loop of `sfs_sync`, which drops what `vop_fsync` returns. -/
def fsyncAll : List Nat -> Kernel Unit
  | [] => pure ()
  | sin :: rest => do
      let _ <- attempt (fsync sin)
      fsyncAll rest

/-- `sfs_sync` -/
def sync : Kernel Unit := do
  let fs <- get
  fsyncAll fs.inodeList
  let synced <- get
  if synced.superDirty = true then do
    setSuperDirty false
    onError syncSuper (setSuperDirty true)
    onError syncFreemap (setSuperDirty true)
  else pure ()

/-! ## Loading and reclaiming -/

/-- `vop_ref_inc` in `lookup_sfs_nolock` -/
def Inode.lookup (sin : Inode) : Inode :=
  { sin with
    refCount := sin.refCount + 1
    reclaimCount := if sin.refCount + 1 = 1 then sin.reclaimCount + 1 else sin.reclaimCount }

/-- `sfs_load_inode`; the flags say whether the two `kmalloc` calls succeed. -/
def loadInode (ino : Nat) (dinAlloc nodeAlloc : Bool) : Kernel Unit := do
  let fs <- get
  if ino ∈ fs.inodeList then modify (fun fs => fs.setInode ino (fs.inode ino).lookup)
  else if dinAlloc = false then throw .noMem
  else do
    assertInuse ino
    let bytes <- rbuf inodeBytes ino 0
    assert ((decodeInode bytes).nlinks ≠ 0) (.assertion "din->nlinks != 0")
    if nodeAlloc = false then throw .noMem
    else if (decodeInode bytes).type ≠ typeFile /\ (decodeInode bytes).type ≠ typeDir then
      halt (.panic "invalid file type %d.\n")
    else modify (fun fs => { fs.setInode ino ⟨decodeInode bytes, false, 1, 1⟩ with inodeList := ino :: fs.inodeList })

/-- `vop_truncate`, which directories do not have. -/
def vopTruncate (sin : Nat) (len : Int) : Kernel Unit := do
  let din <- getDin sin
  assert (din.type = typeFile) (.assertion "node->in_ops->vop_truncate != NULL")
  truncfile sin len

/-- `sfs_reclaim` before the inode goes: a file without links is emptied, and
the inode is written back. -/
def reclaimInode (ino : Nat) : Kernel Unit := do
  let din <- getDin ino
  if din.nlinks = 0 then vopTruncate ino 0 else pure ()
  let fs <- get
  if (fs.inode ino).dirty = true then fsync ino else pure ()

/-- The end of `sfs_reclaim`. -/
def reclaimBlocks (ino : Nat) : Kernel Unit := do
  let din <- getDin ino
  if din.nlinks = 0 then do
    blockFree ino
    if din.indirect ≠ 0 then blockFree din.indirect else pure ()
  else pure ()

/-- `sfs_remove_links` -/
def removeLinks (ino : Nat) : Kernel Unit :=
  modify (fun fs => { fs with inodeList := fs.inodeList.filter (fun other => other ≠ ino) })

/-- `sfs_reclaim` -/
def reclaim (ino : Nat) : Kernel Unit := do
  let fs <- get
  assert ((fs.inode ino).reclaimCount > 0) (.assertion "sin->reclaim_count > 0")
  modify (fun fs => fs.setInode ino { fs.inode ino with reclaimCount := (fs.inode ino).reclaimCount - 1 })
  let fs <- get
  if (fs.inode ino).reclaimCount ≠ 0 \/ (fs.inode ino).refCount ≠ 0 then throw .busy
  else do
    reclaimInode ino
    removeLinks ino
    reclaimBlocks ino

/-- `inode_ref_dec`, which only prints a warning when the reclaim fails. -/
def refDec (ino : Nat) : Kernel Unit := do
  let fs <- get
  assert ((fs.inode ino).refCount > 0) (.assertion "inode_ref_count(node) > 0")
  modify (fun fs => fs.setInode ino { fs.inode ino with refCount := (fs.inode ino).refCount - 1 })
  let fs <- get
  if (fs.inode ino).refCount = 0 then do
    let _ <- attempt (reclaim ino)
  else pure ()

/-! ## Mounting -/

/-- `sfs_init_read` -/
def initRead (device : Device) (blkno : Nat) : Except Errno Bytes × Device :=
  let ticked := { device with transfers := device.transfers + 1 }
  match device.error device.transfers with
  | some error => (.error error, ticked)
  | none => (.ok (device.block (blkno * blksize % 2 ^ 32 / blksize)), ticked)

/-- `sfs_init_freemap`, from a position of the map on. -/
def initFreemap : Nat -> Nat -> Nat -> Bytes -> Device -> Except Errno Bytes × Device
  | 0, _, _, data, device => (.ok data, device)
  | nblks + 1, blkno, base, data, device =>
      match initRead device blkno with
      | (.error error, after) => (.error error, after)
      | (.ok block, after) => initFreemap nblks (blkno + 1) (base + blksize) (splice data base blksize block) after

/-- The super block as `sfs_do_mount` keeps it: `info` ends with a zero. -/
def Super.terminate (super : Super) : Super :=
  { super with info := Function.update super.info 31 0 }

/-- `sfs_do_mount` when its memory is there; `none` is a failed assertion. -/
def doMount (device : Device) : Option (Except Errno SfsFs) :=
  if device.dBlocksize ≠ blksize then some (.error .naDev)
  else
    match initRead device blknSuper with
    | (.error error, _) => some (.error error)
    | (.ok block, read) =>
        let super := decodeSuper block
        let nbits := freemapBlocks super * blkbits
        if super.magic ≠ sfsMagic then some (.error .inval)
        else if device.dBlocks < super.blocks then some (.error .inval)
        else if nbits = 0 then none
        else
          match initFreemap (freemapBlocks super) blknFreemap 0 (fun _ => 0xFF) read with
          | (.error error, _) => some (.error error)
          | (.ok data, mapped) =>
              let unused := (List.range nbits).countP (fun index => bitOfBytes data index)
              if unused = super.unusedBlocks then
                some (.ok ⟨super.terminate, ⟨nbits, fun index => decide (index < nbits) && bitOfBytes data index⟩,
                  false, [], fun _ => ⟨{}, false, 0, 0⟩, mapped⟩)
              else none

end Sfs
end Ucore
