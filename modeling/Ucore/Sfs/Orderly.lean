import Ucore.Sfs.Apart
import Ucore.Sfs.Geometry
import Ucore.Sfs.Keeping

namespace Ucore
namespace Sfs

open Library
open Program
open SfsFs

/-!
# Volumes in order

What is on the disk is what is in memory, except where an inode or the super
block is marked dirty.  No call that an orderly volume admits changes a file
that it is not about, and what it leaves is orderly again.
-/

namespace SfsFs

/-- The super block and the free map are on the disk. -/
structure SuperSaved (fs : SfsFs) : Prop where
  super : (decodeSuper (fs.device.block blknSuper)).terminate = fs.super
  freemap : forall index, index < fs.freemap.nbits ->
    bitOfBytes (fs.device.block (blknFreemap + index / blkbits)) (index % blkbits) = fs.freemap.bit index

/-- The volume fits its device, and its super block is saved unless it is
marked. -/
structure Medium (fs : SfsFs) : Prop where
  magic : fs.super.magic = sfsMagic
  ended : fs.super.info 31 = 0
  nbits : fs.freemap.nbits = freemapBlocks fs.super * blkbits
  blocks : fs.super.blocks <= fs.device.dBlocks
  blocksize : fs.device.dBlocksize = blksize
  saved : fs.superDirty = false -> fs.SuperSaved

/-- A file or a directory with links; a file has the blocks of its size. -/
structure Sorted (fs : SfsFs) (din : DiskInode) : Prop where
  nlinks : din.nlinks ≠ 0
  type : din.type = typeFile \/ din.type = typeDir
  full : din.type = typeFile -> fs.Full din /\ din.blocks = roundupDiv din.size blksize

/-- A loaded inode: it is referred to, and saved unless it is marked. -/
structure Tracked (fs : SfsFs) (ino : Nat) : Prop where
  counts : 0 < (fs.inode ino).refCount /\ (fs.inode ino).reclaimCount = 1
  fits : (fs.inode ino).din.Fits
  saved : (fs.inode ino).dirty = false -> decodeInode (fs.device.block ino) = (fs.inode ino).din

structure Orderly (files : List Nat) (fs : SfsFs) : Prop where
  owned : fs.Owned files
  works : fs.Works
  medium : fs.Medium
  tracked : forall ino, ino ∈ fs.inodeList -> fs.Tracked ino
  sorted : forall ino, ino ∈ files -> fs.Sorted (fs.dinOf ino)

/-- The volume is orderly and has the files that it had. -/
structure Still (files : List Nat) (fs after : SfsFs) : Prop where
  orderly : Orderly files after
  same : forall ino, ino ∈ files -> Same fs ino after

variable {fs middle after : SfsFs} {files : List Nat} {sin ino : Nat}

theorem Orderly.still (orderly : Orderly files fs) : Still files fs fs := ⟨orderly, fun ino _ => Same.refl fs ino⟩

theorem Still.trans (first : Still files fs middle) (second : Still files middle after) : Still files fs after :=
  ⟨second.orderly, fun ino member => (first.same ino member).trans (second.same ino member)⟩

theorem Orderly.regular (orderly : Orderly files fs) (loaded : sin ∈ fs.inodeList)
    (kind : (fs.inode sin).din.type = typeFile) : Regular files sin fs := by
  have sorted := orderly.sorted sin (orderly.owned.loaded sin loaded)
  rw [dinOf_loaded loaded] at sorted
  exact ⟨⟨orderly.owned, loaded, orderly.works, (sorted.full kind).1⟩, kind, (sorted.full kind).2⟩

theorem Orderly.kept (orderly : Orderly files fs) : fs.Kept files where
  owned := orderly.owned
  saved := fun ino listed clean => congrArg DiskInode.pointers ((orderly.tracked ino listed).saved clean)

theorem Same.sorted (same : Same fs ino after) (sorted : fs.Sorted (fs.dinOf ino)) :
    after.Sorted (after.dinOf ino) where
  nlinks := by
    rw [same.din]
    exact sorted.nlinks
  type := by
    rw [same.din]
    exact sorted.type
  full := by
    intro kind
    rw [same.din] at kind
    refine ⟨same.full (sorted.full kind).1, ?_⟩
    rw [same.din]
    exact (sorted.full kind).2

/-! ## The super block -/

/-- The block of the free map that has a bit -/
theorem holds_freemap (nbits : fs.freemap.nbits = freemapBlocks fs.super * blkbits) {index : Nat}
    (low : index < fs.freemap.nbits) :
    fs.holds files (.reserved (blknFreemap + index / blkbits)) = some (blknFreemap + index / blkbits) := by
  rw [nbits] at low
  have inside : index / blkbits < freemapBlocks fs.super := Nat.div_lt_of_lt_mul (by rwa [Nat.mul_comm])
  exact if_pos (.inr ⟨Nat.le_add_right .., Nat.add_lt_add_left inside _⟩)

/-- The super block and the free map are as they were if their blocks are. -/
theorem SuperSaved.of_reserved (saved : fs.SuperSaved) (nbits : fs.freemap.nbits = freemapBlocks fs.super * blkbits)
    (super : after.super = fs.super) (freemap : after.freemap = fs.freemap)
    (block : forall blkno, fs.holds [] (.reserved blkno) = some blkno ->
      after.device.block blkno = fs.device.block blkno) : after.SuperSaved where
  super := by
    rw [block _ (fs.holds_super []), super]
    exact saved.super
  freemap := by
    intro index low
    rw [freemap] at low ⊢
    rw [block _ (holds_freemap nbits low)]
    exact saved.freemap index low

theorem Medium.of_fixed (medium : fs.Medium)
    (fixed : { after.super with unusedBlocks := 0 } = { fs.super with unusedBlocks := 0 })
    (nbits : after.freemap.nbits = fs.freemap.nbits) (geometry : after.geometry = fs.geometry)
    (saved : after.superDirty = false -> after.SuperSaved) : after.Medium := by
  have fields := Super.ext_iff.mp fixed
  have blocks : after.super.blocks = fs.super.blocks := fields.2.1
  have info : after.super.info = fs.super.info := fields.2.2.2
  have device := Prod.ext_iff.mp geometry
  have dBlocks : after.device.dBlocks = fs.device.dBlocks := device.1
  refine ⟨fields.1.trans medium.magic, ?_, ?_, ?_, device.2.trans medium.blocksize, saved⟩
  · rw [info]
    exact medium.ended
  · rw [nbits, medium.nbits, freemapBlocks, freemapBlocks, blocks]
  · rw [blocks, dBlocks]
    exact medium.blocks

/-! ## Changes of a file -/

theorem Edit.clean (edit : Edit files sin fs after) (clean : after.superDirty = false) :
    fs.superDirty = false /\ after.super = fs.super /\ after.freemap = fs.freemap := by
  cases edit with
  | quiet quiet => exact quiet.clean clean
  | add grown _ => exact absurd (grown.superDirty.symm.trans clean) Bool.noConfusion
  | keep => exact ⟨clean, rfl, rfl⟩
  | remove removed _ => exact removed.clean clean
  | write _ _ => exact ⟨clean, rfl, rfl⟩

/-- The super block and the free map are as they were if they are not marked. -/
theorem Edited.clean (edited : Edited files sin fs after) (clean : after.superDirty = false) :
    fs.superDirty = false /\ after.super = fs.super /\ after.freemap = fs.freemap := by
  induction edited with
  | refl => exact ⟨clean, rfl, rfl⟩
  | tail _ edit inductionHypothesis =>
      have last := edit.clean clean
      have before := inductionHypothesis last.1
      exact ⟨before.1, last.2.1.trans before.2.1, last.2.2.trans before.2.2⟩

theorem Changed.clean {allowed : Nat -> Prop} (changed : Changed files sin allowed fs after)
    (clean : after.superDirty = false) :
    fs.superDirty = false /\ after.super = fs.super /\ after.freemap = fs.freemap := by
  rcases changed with ⟨middle, edited, rfl | ⟨size, _, rfl⟩⟩
  · exact Edited.clean edited clean
  · have before : middle.superDirty = false := clean
    have unchanged := Edited.clean edited before
    exact unchanged

theorem Changed.fixed {allowed : Nat -> Prop} (changed : Changed files sin allowed fs after) :
    { after.super with unusedBlocks := 0 } = { fs.super with unusedBlocks := 0 } /\
      after.freemap.nbits = fs.freemap.nbits := by
  rcases changed with ⟨middle, edited, rfl | ⟨size, _, rfl⟩⟩
  · exact ⟨(Edited.framed edited).fixed, (Edited.framed edited).nbits⟩
  · exact ⟨(Edited.framed edited).fixed, (Edited.framed edited).nbits⟩

theorem Regular.fits (regular : Regular files sin fs) (nlinks : (fs.inode sin).din.nlinks < 2 ^ 16) :
    (fs.inode sin).din.Fits := by
  have size := regular.size_le
  have blocks := regular.extent.full.reached
  have pointers := regular.extent.owned.pointers_fit regular.extent.loaded
  unfold maxMapped ndirect blkNentry blksize at *
  refine ⟨by omega, ?_, nlinks, by omega, pointers.1, pointers.2⟩
  rw [regular.kind]
  decide

/-- A call that sets the size of a file and changes its map and its bytes -/
theorem Orderly.changed {allowed : Nat -> Prop} {size : Nat} (orderly : Orderly files fs) (loaded : sin ∈ fs.inodeList)
    (changed : Changed files sin allowed fs after) (sized : Sized files sin fs size after)
    (geometry : after.geometry = fs.geometry) :
    Orderly files after /\ forall ino, ino ∈ files -> ino ≠ sin -> Same fs ino after := by
  have owned := orderly.owned
  have same (ino : Nat) (member : ino ∈ files) (different : ino ≠ sin) : Same fs ino after :=
    changed.same owned loaded member different
  have inodeBlock : forall ino, ino ∈ files -> after.device.block ino = fs.device.block ino := by
    intro ino member
    have fixed : (Place.inode ino).IsFixed := trivial
    have held : fs.holds files (.inode ino) = some ino := if_pos member
    exact changed.fixedBlock owned loaded fixed held
  refine ⟨⟨sized.regular.extent.owned, sized.regular.extent.works, ?_, ?_, ?_⟩, same⟩
  · refine orderly.medium.of_fixed changed.fixed.1 changed.fixed.2 geometry fun clean => ?_
    have before := changed.clean clean
    refine (orderly.medium.saved before.1).of_reserved orderly.medium.nbits before.2.1 before.2.2 ?_
    intro blkno reserved
    have fixed : (Place.reserved blkno).IsFixed := trivial
    have held : fs.holds files (.reserved blkno) = some blkno := reserved
    exact changed.fixedBlock owned loaded fixed held
  · intro ino listed
    rw [changed.inodeList] at listed
    have tracked := orderly.tracked ino listed
    have block := inodeBlock ino (owned.loaded ino listed)
    by_cases here : ino = sin
    · subst here
      refine ⟨?_, sized.regular.fits ?_, fun clean => ?_⟩
      · rw [changed.counts.1, changed.counts.2]
        exact tracked.counts
      · rw [sized.nlinks]
        exact tracked.fits.nlinks
      · rcases sized.unmarked with dirty | inode
        · exact absurd (dirty.symm.trans clean) Bool.noConfusion
        · rw [inode] at clean ⊢
          rw [block]
          exact tracked.saved clean
    · have inode := changed.others here
      refine ⟨?_, ?_, fun clean => ?_⟩
      · rw [inode]
        exact tracked.counts
      · rw [inode]
        exact tracked.fits
      · rw [inode] at clean ⊢
        rw [block]
        exact tracked.saved clean
  · intro ino member
    by_cases here : ino = sin
    · subst here
      have regular := sized.regular
      have sorted := orderly.sorted ino member
      rw [dinOf_loaded loaded] at sorted
      rw [dinOf_loaded regular.extent.loaded]
      refine ⟨?_, .inl regular.kind, fun _ => ⟨regular.extent.full, regular.counted⟩⟩
      rw [sized.nlinks]
      exact sorted.nlinks
    · exact (same ino member here).sorted (orderly.sorted ino member)

end SfsFs

end Sfs
end Ucore
