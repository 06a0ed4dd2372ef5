import Ucore.Library.Preservation
import Ucore.Sfs.File

namespace Ucore
namespace Sfs

open Library
open Program

/-!
# The device under a volume

No function of the file system changes the number and the size of the blocks
of its device.
-/

namespace SfsFs

/-- `dev->d_blocks` and `dev->d_blocksize` -/
def geometry (fs : SfsFs) : Nat × Nat := (fs.device.dBlocks, fs.device.dBlocksize)

variable (fs : SfsFs)

@[simp] theorem geometry_setBit (index : Nat) (value : Bool) : (fs.setBit index value).geometry = fs.geometry := rfl

@[simp] theorem geometry_setUnused (unused : Nat) : (fs.setUnused unused).geometry = fs.geometry := rfl

@[simp] theorem geometry_setInode (ino : Nat) (sin : Inode) : (fs.setInode ino sin).geometry = fs.geometry := rfl

end SfsFs

open SfsFs

/-! ## Blocks -/

@[simp] theorem fixes_rwblockNolock (buf : Bytes) (blkno : Nat) (write check : Bool) :
    Fixes geometry (rwblockNolock buf blkno write check) := by
  have transfer (offset : Nat) : Fixes geometry (dopIo buf offset write) := by
    refine ⟨fun fs => ?_⟩
    unfold Meets dopIo
    cases fs.device.error fs.device.transfers with
    | some error => rfl
    | none => cases write <;> rfl
  simp [rwblockNolock, transfer]

@[simp] theorem fixes_rwblock (buf : Bytes) (blkno nblks : Nat) (write : Bool) :
    Fixes geometry (rwblock buf blkno nblks write) := by
  unfold rwblock
  generalize 0 = base
  induction nblks generalizing blkno base buf with
  | zero => exact fixes_pure buf
  | succ nblks inductionHypothesis => simp [rwblockLoop, inductionHypothesis]

theorem fixes_rbuf (len blkno offset : Nat) : Fixes geometry (rbuf len blkno offset) := by
  simp [rbuf]

theorem fixes_wbuf (data : Bytes) (len blkno offset : Nat) : Fixes geometry (wbuf data len blkno offset) := by
  unfold wbuf
  exact (fixes_assert ..).bind fun _ => (fixes_rwblockNolock ..).bind fun _ => by simp

theorem fixes_bitmapTest (index : Nat) : Fixes geometry (bitmapTest index) := by
  simp [bitmapTest]

theorem fixes_assertInuse (ino : Nat) : Fixes geometry (assertInuse ino) := by
  have inuse : Fixes geometry (blockInuse ino) := by
    unfold blockInuse
    exact fixes_get.bind fun _ => ((fixes_bitmapTest ino).bind fun _ => fixes_pure _).ite (fixes_halt _)
  exact inuse.bind fun _ => fixes_assert ..

theorem fixes_blockAlloc : Fixes geometry blockAlloc := by
  have found : Fixes geometry bitmapAlloc := by
    unfold bitmapAlloc
    refine fixes_get.bind fun fs => ?_
    cases fs.freemap.findBit with
    | none => exact fixes_throw _
    | some index => exact (fixes_modify (geometry_setBit · index false)).bind fun _ => fixes_pure _
  have cleared (ino : Nat) : Fixes geometry (clearBlock ino 1) :=
    fixes_forRange (fun number => (fixes_rwblockNolock ..).bind fun _ => fixes_pure ()) ..
  unfold blockAlloc
  refine found.bind fun ino => fixes_get.bind fun _ => (fixes_assert ..).bind fun _ => ?_
  exact (fixes_modify fun fs => geometry_setUnused fs _).bind fun _ => (fixes_assertInuse ino).bind fun _ =>
    (cleared ino).bind fun _ => fixes_pure _

theorem fixes_blockFree (ino : Nat) : Fixes geometry (blockFree ino) := by
  have freed : Fixes geometry (bitmapFree ino) := by
    unfold bitmapFree
    exact (fixes_bitmapTest ino).bind fun _ => (fixes_assert ..).bind fun _ =>
      fixes_modify (geometry_setBit · ino true)
  unfold blockFree
  exact (fixes_assertInuse ino).bind fun _ => freed.bind fun _ => fixes_modify fun fs => geometry_setUnused fs _

/-! ## Block maps -/

theorem fixes_getDin (ino : Nat) : Fixes geometry (getDin ino) := fixes_get.bind fun _ => fixes_pure _

theorem fixes_setDin (ino : Nat) (change : DiskInode -> DiskInode) : Fixes geometry (setDin ino change) :=
  fixes_modify fun fs => geometry_setInode fs ..

theorem fixes_setDirty (ino : Nat) (flag : Bool) : Fixes geometry (setDirty ino flag) :=
  fixes_modify fun fs => geometry_setInode fs ..

theorem fixes_marked (ino : Nat) (change : DiskInode -> DiskInode) :
    Fixes geometry (setDin ino change >>= fun _ => setDirty ino true) :=
  (fixes_setDin ino change).bind fun _ => fixes_setDirty ino true

theorem fixes_bmapGetSubNolock (entp index : Nat) (create : Bool) :
    Fixes geometry (bmapGetSubNolock entp index create) := by
  have allocated (ent offset : Nat) : Fixes geometry (bmapAllocSub entp ent offset) := by
    unfold bmapAllocSub
    refine (fixes_blockAlloc.bind fun ino => ?_).onError ((fixes_blockFree ent).ite (fixes_pure ()))
    exact ((fixes_wbuf ..).onError (fixes_blockFree ino)).bind fun _ => fixes_pure _
  unfold bmapGetSubNolock
  refine (fixes_assert ..).bind fun _ => Fixes.ite ?_ ((fixes_pure _).ite ?_)
  · exact (fixes_rbuf ..).bind fun _ => (fixes_pure _).ite (allocated ..)
  · exact fixes_blockAlloc.bind fun _ => allocated ..

theorem fixes_bmapGetNolock (sin index : Nat) (create : Bool) : Fixes geometry (bmapGetNolock sin index create) := by
  have out (ino : Nat) : Fixes geometry (bmapGetOut ino) := by
    unfold bmapGetOut
    exact ((fixes_assertInuse ino).bind fun _ => fixes_pure _).ite (fixes_pure _)
  unfold bmapGetNolock
  refine (fixes_getDin sin).bind fun din => ?_
  split
  · refine Fixes.ite ?_ (out _)
    exact fixes_blockAlloc.bind fun ino => (fixes_setDin ..).bind fun _ => (fixes_setDirty ..).bind fun _ => out ino
  · refine Fixes.ite ?_ (fixes_halt _)
    refine (fixes_bmapGetSubNolock ..).bind fun both => ?_
    rcases both with ⟨ent, ino⟩
    refine Fixes.ite ?_ (out ino)
    exact (fixes_assert ..).bind fun _ => (fixes_setDin ..).bind fun _ => (fixes_setDirty ..).bind fun _ => out ino

theorem fixes_bmapLoadNolock (sin index : Nat) : Fixes geometry (bmapLoadNolock sin index) := by
  unfold bmapLoadNolock
  refine (fixes_getDin sin).bind fun din => (fixes_assert ..).bind fun _ => (fixes_bmapGetNolock ..).bind fun ino => ?_
  exact (fixes_assertInuse ino).bind fun _ => ((fixes_setDin ..).bind fun _ => fixes_pure _).ite (fixes_pure _)

theorem fixes_bmapTruncateNolock (sin : Nat) : Fixes geometry (bmapTruncateNolock sin) := by
  have entry (ent index : Nat) : Fixes geometry (bmapFreeSubNolock ent index) := by
    unfold bmapFreeSubNolock
    refine (fixes_assertInuse ent).bind fun _ => (fixes_assert ..).bind fun _ => (fixes_rbuf ..).bind fun _ => ?_
    exact ((fixes_wbuf ..).bind fun _ => fixes_blockFree _).ite (fixes_pure ())
  have freed (index : Nat) : Fixes geometry (bmapFreeNolock sin index) := by
    unfold bmapFreeNolock
    refine (fixes_getDin sin).bind fun din => ?_
    split
    · exact ((fixes_blockFree _).bind fun _ => fixes_marked ..).ite (fixes_pure ())
    · exact ((entry ..).ite (fixes_pure ())).ite (fixes_pure ())
  unfold bmapTruncateNolock
  exact (fixes_getDin sin).bind fun _ => (fixes_assert ..).bind fun _ => (freed _).bind fun _ => fixes_marked ..

/-! ## Files -/

theorem fixes_truncfile (sin : Nat) (len : Int) : Fixes geometry (truncfile sin len) := by
  have resized (nblks tblks : Nat) : Fixes geometry (resize sin nblks tblks) := by
    unfold resize
    refine (fixes_forRange (fun number => ?_) ..).ite (fixes_forRange (fun _ => fixes_bmapTruncateNolock sin) ..)
    exact (fixes_bmapLoadNolock sin number).bind fun _ => fixes_pure ()
  unfold truncfile
  refine (fixes_throw _).ite ((fixes_getDin sin).bind fun din => (fixes_assert ..).ite ?_)
  exact (resized ..).bind fun _ => (fixes_getDin sin).bind fun _ => (fixes_assert ..).bind fun _ => fixes_marked ..

theorem fixes_tryseek (sin : Nat) (pos : Int) : Fixes geometry (tryseek sin pos) := by
  unfold tryseek
  exact (fixes_throw _).ite ((fixes_getDin sin).bind fun _ => (fixes_truncfile sin pos).ite (fixes_pure ()))

theorem fixes_ioBuf (sin : Nat) (write : Bool) (blkno size blkoff : Nat) (done : Transfer) :
    Fixes geometry (ioBuf sin write blkno size blkoff done) := by
  unfold ioBuf
  refine Fixes.bind (Fixes.attempt ?_) fun outcome => ?_
  · refine (fixes_bmapLoadNolock ..).bind fun ino => Fixes.ite ?_ ?_
    · exact (fixes_wbuf ..).bind fun _ => fixes_pure _
    · exact (fixes_rbuf ..).bind fun _ => fixes_pure _
  · cases outcome <;> exact fixes_pure _

theorem fixes_ioBlocks (sin : Nat) (write : Bool) (nblks blkno : Nat) (done : Transfer) :
    Fixes geometry (ioBlocks sin write nblks blkno done) := by
  have block (blkno : Nat) (done : Transfer) : Fixes geometry (ioBlock sin write blkno done) := by
    unfold ioBlock
    refine Fixes.bind (Fixes.attempt ?_) fun outcome => ?_
    · exact (fixes_bmapLoadNolock ..).bind fun _ => (fixes_rwblock ..).bind fun _ => fixes_pure _
    · cases outcome <;> exact fixes_pure _
  induction nblks generalizing blkno done with
  | zero => exact fixes_pure done
  | succ nblks inductionHypothesis =>
      exact (block blkno done).bind fun _ => (inductionHypothesis ..).ite (fixes_pure _)

theorem fixes_io (sin : Nat) (buf : Bytes) (offset : Int) (resid : Nat) (write : Bool) :
    Fixes geometry (io sin buf offset resid write) := by
  have parts (start endpos : Nat) : Fixes geometry (ioParts sin write start endpos buf) := by
    unfold ioParts
    have rest (first : Transfer) (nblks blkno : Nat) : Fixes geometry (do
        let middle <- ioBlocks sin write nblks blkno first
        if middle.ret ≠ none \/ endpos % blksize = 0 then pure middle
        else ioBuf sin write (blkno + nblks) (endpos % blksize) 0 middle) :=
      (fixes_ioBlocks ..).bind fun _ => (fixes_pure _).ite (fixes_ioBuf ..)
    dsimp only
    refine Fixes.ite ((fixes_ioBuf ..).bind fun first => ?_) ?_
    · exact (fixes_pure _).ite (rest ..)
    · exact (fixes_pure _).ite (rest ..)
  have moved : Fixes geometry (ioNolock sin buf offset resid write) := by
    unfold ioNolock
    refine (fixes_getDin sin).bind fun din => (fixes_assert ..).bind fun _ => (fixes_pure _).ite ((fixes_pure _).ite ?_)
    refine (fixes_pure _).ite ((parts ..).bind fun done => (fixes_getDin sin).bind fun _ => ?_)
    exact ((fixes_setDin ..).bind fun _ => (fixes_setDirty ..).bind fun _ => fixes_pure _).ite (fixes_pure _)
  unfold io
  exact moved.bind fun _ => ((fixes_assert ..).bind fun _ => fixes_pure _).ite (fixes_pure _)

/-! ## The volume -/

end Sfs
end Ucore
