import Ucore.Mksfs.Kernel
import Ucore.Sfs.Saving

namespace Ucore
namespace Sfs

open Library
open Program
open SfsFs

/-!
# Leaving a volume and mounting it again

A volume is left by `sfs_cleanup` when the system goes down, or by
`vfs_unmount` when no inode is loaded.  Either way the device holds the whole
of it, and `sfs_do_mount` finds the files that there were.
-/

/-- The loop of `sfs_cleanup`, which prints what the last `fsop_sync` returns. -/
def cleanupLoop : Nat -> Kernel Unit
  | 0 => pure ()
  | tries + 1 => do
      let outcome <- attempt sync
      match outcome with
      | .ok _ => pure ()
      | .error _ => cleanupLoop tries

/-- `sfs_cleanup` -/
def cleanup : Kernel Unit := cleanupLoop 32

/-- `sfs_unmount` -/
def unmount : Kernel Unit := do
  let fs <- get
  if fs.inodeList ≠ [] then throw .busy
  else assert (fs.superDirty = false) (.assertion "!sfs->super_dirty")

/-- `vfs_unmount` of the device that the volume is on -/
def vfsUnmount : Kernel Unit := do
  sync
  unmount

/-- `dev->d_blocks` and `dev->d_blocksize` -/
def Device.geometry (device : Device) : Nat × Nat := (device.dBlocks, device.dBlocksize)

theorem initRead_geometry (device : Device) (blkno : Nat) : (initRead device blkno).2.geometry = device.geometry := by
  unfold initRead
  cases device.error device.transfers <;> rfl

theorem initFreemap_geometry (nblks blkno base : Nat) (data : Bytes) (device : Device) :
    (initFreemap nblks blkno base data device).2.geometry = device.geometry := by
  induction nblks generalizing blkno base data device with
  | zero => rfl
  | succ nblks inductionHypothesis =>
      have first := initRead_geometry device blkno
      unfold initFreemap
      split
      · next read =>
          rw [read] at first
          exact first
      · next read =>
          rw [read] at first
          exact (inductionHypothesis ..).trans first

/-- The volume that is mounted is on the device, which is large enough. -/
theorem doMount_geometry {device : Device} {fs : SfsFs} (mounted : doMount device = some (.ok fs)) :
    fs.device.geometry = device.geometry /\ fs.super.blocks <= device.dBlocks := by
  unfold doMount at mounted
  dsimp only at mounted
  split at mounted
  · cases mounted
  · have first := initRead_geometry device blknSuper
    split at mounted
    · cases mounted
    · next block read readSuper =>
        rw [readSuper] at first
        split at mounted
        · cases mounted
        · split at mounted
          · cases mounted
          · next enough =>
              split at mounted
              · cases mounted
              · have second :=
                  initFreemap_geometry (freemapBlocks (decodeSuper block)) blknFreemap 0 (fun _ => 0xFF) read
                split at mounted
                · cases mounted
                · next readFreemap =>
                    rw [readFreemap] at second
                    split at mounted
                    · cases mounted
                      exact ⟨second.trans first, Nat.le_of_not_lt enough⟩
                    · cases mounted

namespace SfsFs

/-- The volume as `sfs_do_mount` makes it from its device -/
def fresh (fs : SfsFs) (device : Device) : SfsFs :=
  { fs with superDirty := false, inodeList := [], inode := fun _ => ⟨{}, false, 0, 0⟩, device := device }

variable {fs after : SfsFs} {files : List Nat} {device : Device}

/-- Reading leaves the files as they are. -/
theorem Orderly.fresh (orderly : Orderly files fs) (clean : fs.Clean)
    (unchanged : Mksfs.Unchanged fs.device device) (blocksize : device.dBlocksize = blksize) :
    Still files fs (fs.fresh device) := by
  have block : (fs.fresh device).device.block = fs.device.block := unchanged.1
  have map : (fs.fresh device).blockOf = fs.blockOf := by
    funext din index
    exact blockOf_congr (.inl (congrFun block _)) index
  have same (ino : Nat) : Same fs ino (fs.fresh device) := by
    refine ⟨?_, by rw [map], ?_⟩
    · have fresh_din : (fs.fresh device).dinOf ino = decodeInode (fs.device.block ino) := by
        unfold dinOf
        rw [block]
        exact if_neg List.not_mem_nil
      rw [fresh_din]
      by_cases loaded : ino ∈ fs.inodeList
      · rw [dinOf_loaded loaded]
        exact (orderly.tracked ino loaded).saved (clean.inodes ino loaded)
      · exact (if_neg loaded).symm
    · funext k
      unfold byteIn
      rw [map, block]
  have saved := orderly.medium.saved clean.superDirty
  have none (ino : Nat) : ino ∉ (fs.fresh device).inodeList := List.not_mem_nil
  refine ⟨⟨⟨?_, fun ino listed => absurd listed (none ino)⟩, ?_, ?_, fun ino listed => absurd listed (none ino), ?_⟩,
    fun ino _ => same ino⟩
  · have held : (fs.fresh device).holds files = fs.holds files := by
      refine holds_congr rfl ?_ ?_
      · exact fun ino _ => congrArg DiskInode.pointers (same ino).din
      · intro ino _ _ index
        unfold entryOf
        rw [block]
    rw [held]
    exact orderly.owned.accounted
  · intro number
    exact (congrFun unchanged.2.1 number).trans (orderly.works number)
  · refine orderly.medium.of_fixed rfl rfl ?_ fun _ => ?_
    · exact Prod.ext unchanged.2.2 (blocksize.trans orderly.medium.blocksize.symm)
    · exact saved.of_reserved orderly.medium.nbits rfl rfl fun blkno _ => congrFun block blkno
  · exact fun ino member => (same ino).sorted (orderly.sorted ino member)

/-- The bits that are read from the blocks of the free map -/
theorem SuperSaved.bit {data : Bytes} (saved : fs.SuperSaved)
    (nbits : fs.freemap.nbits = freemapBlocks fs.super * blkbits)
    (read : forall number k, number < freemapBlocks fs.super -> k < blksize ->
      data (0 + number * blksize + k) = fs.device.block (blknFreemap + number) k)
    {index : Nat} (low : index < fs.freemap.nbits) : bitOfBytes data index = fs.freemap.bit index := by
  have number : index / blkbits < freemapBlocks fs.super := by
    refine Nat.div_lt_of_lt_mul ?_
    rw [Nat.mul_comm, ← nbits]
    exact low
  have inside : index % blkbits / 8 < blksize := by
    unfold blkbits blksize
    omega
  have place : 0 + index / blkbits * blksize + index % blkbits / 8 = index / 8 := by
    unfold blkbits blksize
    omega
  have bit : index % blkbits % 8 = index % 8 := by
    unfold blkbits
    omega
  have byte := read _ _ number inside
  have whole := saved.freemap index low
  unfold bitOfBytes at *
  rw [place] at byte
  rw [byte, ← bit]
  exact whole

/-- A clean volume is mounted from its device. -/
theorem Orderly.mounts (orderly : Orderly files fs) (clean : fs.Clean) :
    Exists fun after => doMount fs.device = some (.ok after) /\ Still files fs after /\ after.inodeList = [] := by
  have owned := orderly.owned
  have medium := orderly.medium
  have saved := medium.saved clean.superDirty
  have positive := owned.accounted.inRange _ _ (fs.holds_super files)
  have room := owned.freemap_inRange
  have small := owned.accounted.small
  obtain ⟨block, read, first⟩ := Mksfs.initRead_total blknSuper orderly.works
  have superRead := Mksfs.initRead_ok (by decide) first
  have works : forall number, read.error number = none := by
    rw [superRead.2.2.1]
    exact orderly.works
  obtain ⟨data, mapped, second⟩ := Mksfs.initFreemap_total 0 (fun _ => 0xFF) works (Nat.le_trans room small)
  have mapRead := Mksfs.initFreemap_ok (Nat.le_trans room small) second
  have super : (decodeSuper block).terminate = fs.super := superRead.1 ▸ saved.super
  have magic : (decodeSuper block).magic = sfsMagic := by
    refine Eq.trans ?_ medium.magic
    rw [← super]
    rfl
  have blocks : (decodeSuper block).blocks = fs.super.blocks := by
    rw [← super]
    rfl
  have unusedBlocks : (decodeSuper block).unusedBlocks = fs.super.unusedBlocks := by
    rw [← super]
    rfl
  have map : freemapBlocks (decodeSuper block) = freemapBlocks fs.super := by
    unfold freemapBlocks
    rw [blocks]
  have nbits : freemapBlocks (decodeSuper block) * blkbits = fs.freemap.nbits := by
    rw [map, medium.nbits]
  have some_ : fs.freemap.nbits ≠ 0 := by
    have reached := owned.accounted.mapped
    omega
  have bit : forall index, index < fs.freemap.nbits -> bitOfBytes data index = fs.freemap.bit index := by
    refine fun index => saved.bit medium.nbits fun number k low inside => ?_
    rw [mapRead.2.2 number k low inside, superRead.2.1]
  have counted : (List.range fs.freemap.nbits).countP (bitOfBytes data) = fs.super.unusedBlocks := by
    rw [owned.accounted.counted]
    exact List.countP_congr fun index member => by rw [bit index (List.mem_range.mp member)]
  have freemap : (⟨fs.freemap.nbits, fun index =>
      decide (index < fs.freemap.nbits) && bitOfBytes data index⟩ : Bitmap) = fs.freemap := by
    have bits : (fun index => decide (index < fs.freemap.nbits) && bitOfBytes data index) = fs.freemap.bit := by
      funext index
      by_cases low : index < fs.freemap.nbits
      · rw [decide_eq_true low, Bool.true_and, bit index low]
      · rw [decide_eq_false low, Bool.false_and]
        refine (Bool.eq_false_iff.mpr fun set => low ?_).symm
        exact Nat.lt_of_lt_of_le (owned.accounted.bits index set) owned.accounted.mapped
    rw [bits]
  have unchanged : Mksfs.Unchanged fs.device mapped :=
    ⟨mapRead.1.1.trans superRead.2.1, mapRead.1.2.1.trans superRead.2.2.1, mapRead.1.2.2.trans superRead.2.2.2⟩
  refine ⟨fs.fresh mapped, ?_, orderly.fresh clean unchanged ?_, rfl⟩
  · unfold doMount
    rw [if_neg fun different => different medium.blocksize, first]
    dsimp only
    rw [if_neg fun different => different magic, blocks, if_neg (Nat.not_lt.mpr medium.blocks), nbits, if_neg some_,
      map, second]
    dsimp only
    rw [counted, unusedBlocks, if_pos rfl, super, freemap]
    rfl
  · have last := initFreemap_geometry (freemapBlocks fs.super) blknFreemap 0 (fun _ => 0xFF) read
    have before := initRead_geometry fs.device blknSuper
    rw [second] at last
    rw [first] at before
    exact (Prod.ext_iff.mp (last.trans before)).2.trans medium.blocksize

end SfsFs

variable {fs : SfsFs} {files : List Nat}

theorem cleanup_orderly (orderly : Orderly files fs) :
    Meets cleanup fs ⟨fun _ after => Still files fs after /\ after.Clean, fun _ _ => False, fun _ => False⟩ := by
  unfold cleanup cleanupLoop
  rw [meets_bind, meets_attempt]
  refine (sync_orderly orderly).mono ?_ (fun _ _ failed => failed.elim) (fun _ stopped => stopped)
  exact fun _ after synced => ⟨synced.1, synced.2.1⟩

/-- `vfs_unmount`, which is refused while an inode is loaded -/
theorem vfsUnmount_orderly (orderly : Orderly files fs) :
    Meets vfsUnmount fs
      ⟨fun _ after => fs.inodeList = [] /\ Still files fs after /\ after.Clean,
        fun error after => error = .busy /\ fs.inodeList ≠ [] /\ Still files fs after /\
          after.inodeList = fs.inodeList,
        fun _ => False⟩ := by
  unfold vfsUnmount unmount
  simp only [meets_bind, meets_get, meets_ite, meets_throw, meets_assert]
  refine (sync_orderly orderly).mono ?_ (fun _ _ failed => failed.elim) (fun _ stopped => stopped)
  rintro _ after ⟨still, clean, list⟩
  dsimp only
  split
  · next loaded => exact ⟨trivial, list ▸ loaded, still, list⟩
  · next none =>
      refine ⟨fun _ => ⟨?_, still, clean⟩, fun dirty => dirty clean.superDirty⟩
      rw [← list]
      exact Decidable.not_not.mp none

end Sfs
end Ucore
