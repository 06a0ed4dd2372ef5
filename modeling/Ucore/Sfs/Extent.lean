import Ucore.Sfs.FileBytes

namespace Ucore
namespace Sfs

open Library
open Program
open SfsFs

/-!
# The extent of a file

A regular file has the blocks that its size needs, and no other ones.  The
functions that change its map add a block at its end or drop the last one.
-/

namespace SfsFs

/-- The map of an inode has the blocks below the count, and no other ones. -/
structure Full (fs : SfsFs) (din : DiskInode) : Prop where
  reached : din.blocks <= ndirect + blkNentry
  present : forall index, fs.blockOf din index ≠ 0 <-> index < din.blocks

/-- A volume with a loaded inode whose map is full, on a device that works. -/
structure Extent (files : List Nat) (sin : Nat) (fs : SfsFs) : Prop where
  owned : fs.Owned files
  loaded : sin ∈ fs.inodeList
  works : fs.Works
  full : fs.Full (fs.inode sin).din

/-- The blocks that a file takes at most -/
def footprint (blocks : Nat) : Nat := blocks + if ndirect < blocks then 1 else 0

/-- The free blocks and those of a file -/
def budget (fs : SfsFs) (sin : Nat) : Nat := fs.super.unusedBlocks + footprint (fs.inode sin).din.blocks

/-- Only the map of a file has changed, and the inode is marked unless it is
for the count of the blocks. -/
structure Resized (fs : SfsFs) (sin : Nat) (after : SfsFs) : Prop where
  size : (after.inode sin).din.size = (fs.inode sin).din.size
  kinds : (after.inode sin).din.type = (fs.inode sin).din.type /\
    (after.inode sin).din.nlinks = (fs.inode sin).din.nlinks
  marked : (after.inode sin).dirty = true \/
    after.inode sin = { fs.inode sin with din := (fs.inode sin).din.setBlocks (after.inode sin).din.blocks }

variable {fs middle after : SfsFs} {files : List Nat} {sin : Nat}

theorem footprint_succ (blocks : Nat) :
    footprint (blocks + 1) = footprint blocks + if blocks = ndirect then 2 else 1 := by
  unfold footprint
  split <;> split <;> split <;> omega

theorem footprint_mono {blocks more : Nat} (le : blocks <= more) : footprint blocks <= footprint more := by
  unfold footprint
  split <;> split <;> omega

theorem Resized.of_inode (inode : after.inode sin = fs.inode sin) : Resized fs sin after := by
  refine ⟨by rw [inode], by rw [inode]; exact ⟨rfl, rfl⟩, .inr ?_⟩
  rw [inode]
  rfl

theorem Resized.trans (first : Resized fs sin middle) (second : Resized middle sin after) : Resized fs sin after where
  size := second.size.trans first.size
  kinds := ⟨second.kinds.1.trans first.kinds.1, second.kinds.2.trans first.kinds.2⟩
  marked := by
    rcases second.marked with dirty | same
    · exact .inl dirty
    · rcases first.marked with dirty | before
      · refine .inl ?_
        rw [same]
        exact dirty
      · refine .inr ?_
        rw [same, before]
        rfl

/-- The inode is marked, or it is what it was. -/
theorem Resized.unmarked (resized : Resized fs sin after)
    (blocks : (after.inode sin).din.blocks = (fs.inode sin).din.blocks) :
    (after.inode sin).dirty = true \/ after.inode sin = fs.inode sin := by
  refine resized.marked.imp id fun same => ?_
  rw [same, blocks]
  rfl

theorem Extent.tick (extent : Extent files sin fs) : Extent files sin fs.tick where
  owned := (Quiet.tick fs).owned extent.owned
  loaded := extent.loaded
  works := extent.works
  full := ⟨extent.full.reached, extent.full.present⟩

theorem Extent.looked (extent : Extent files sin fs) (looked : fs.Looked after) : Extent files sin after := by
  rcases looked with rfl | rfl
  · exact extent
  · exact extent.tick

theorem Looked.inode (looked : fs.Looked after) : after.inode = fs.inode := by
  rcases looked with rfl | rfl <;> rfl

theorem Looked.super (looked : fs.Looked after) : after.super = fs.super := by
  rcases looked with rfl | rfl <;> rfl

theorem inode_addBlock (fs : SfsFs) (sin : Nat) : (fs.addBlock sin).inode sin =
    { fs.inode sin with din := (fs.inode sin).din.setBlocks ((fs.inode sin).din.blocks + 1) } := inode_setInode ..

/-- The indirect block is there when the map reaches its second entry. -/
theorem Full.indexed {din : DiskInode} (full : fs.Full din) (more : ndirect < din.blocks) : din.indirect ≠ 0 := by
  intro absent
  have present := (full.present ndirect).mpr more
  unfold blockOf at present
  rw [dif_neg (Nat.lt_irrefl _), if_neg (fun both => both.2 absent)] at present
  exact present rfl

theorem Full.needed_le {din : DiskInode} (full : fs.Full din) :
    din.needed din.blocks <= if din.blocks = ndirect then 2 else 1 := by
  unfold DiskInode.needed
  by_cases last : din.blocks = ndirect
  · rw [if_pos last]
    split <;> omega
  · rw [if_neg last]
    by_cases direct : din.blocks < ndirect
    · rw [if_pos (.inl direct)]
    · rw [if_pos (.inr (full.indexed (by omega)))]

/-- The block after the last one is added. -/
theorem Extent.grown {blkno cost : Nat} (extent : Extent files sin fs)
    (room : (fs.inode sin).din.blocks < ndirect + blkNentry)
    (grown : Grown fs sin (fs.inode sin).din.blocks blkno
      ((fs.inode sin).din.needed (fs.inode sin).din.blocks) cost after) (owned : after.Owned files) :
    Extent files sin (after.addBlock sin) /\ Resized fs sin (after.addBlock sin) /\
      ((after.addBlock sin).inode sin).din.blocks = (fs.inode sin).din.blocks + 1 /\
      fs.budget sin <= (after.addBlock sin).budget sin := by
  have loaded : sin ∈ after.inodeList := grown.inodeList ▸ extent.loaded
  have positive := (extent.owned.valid_of_free grown.fresh).1
  have blocks : ((after.addBlock sin).inode sin).din.blocks = (fs.inode sin).din.blocks + 1 := by
    rw [inode_addBlock]
    exact congrArg (· + 1) grown.sizes.2
  have added : Resized after sin (after.addBlock sin) := by
    refine ⟨?_, ?_, .inr ?_⟩ <;> rw [inode_addBlock]
    · rfl
    · exact ⟨rfl, rfl⟩
    · rfl
  refine ⟨⟨owned.setInode loaded rfl, loaded, ?_, ?_, ?_⟩, ?_, blocks, ?_⟩
  · intro number
    change after.device.error number = none
    rw [grown.error]
    exact extent.works number
  · rw [blocks]
    exact room
  · intro index
    rw [blockOf_addBlock, grown.blockOf, blocks]
    by_cases here : index = (fs.inode sin).din.blocks
    · rw [if_pos here]
      exact iff_of_true positive (by omega)
    · rw [if_neg here, extent.full.present index]
      omega
  · refine Resized.trans ⟨grown.sizes.1, grown.kinds, ?_⟩ added
    refine grown.dirty.imp id fun same => ?_
    rw [same]
    rfl
  · have unused := grown.unused
    have needed := extent.full.needed_le
    unfold budget
    rw [blocks, footprint_succ]
    change _ <= after.super.unusedBlocks + _
    omega

end SfsFs

/-! ## Loading a block -/

variable {fs : SfsFs} {files : List Nat} {sin : Nat}

/-- There is no room for one more block. -/
def SfsFs.Short (fs : SfsFs) (sin : Nat) : Prop :=
  fs.budget sin < footprint ((fs.inode sin).din.blocks + 1)

/-- `sfs_bmap_load_nolock` of a block of the file, or of the next one -/
theorem bmapLoadNolock_extent {index : Nat} (extent : Extent files sin fs)
    (within : index <= (fs.inode sin).din.blocks) (reached : index < ndirect + blkNentry) :
    Meets (bmapLoadNolock sin index) fs
      ⟨fun ino after => Extent files sin after /\ Resized fs sin after /\ fs.budget sin <= after.budget sin /\
          (after.inode sin).din.blocks = max (fs.inode sin).din.blocks (index + 1) /\
          ino = after.blockOf (after.inode sin).din index /\ ino ≠ 0,
        fun error after => error = .noMem /\ index = (fs.inode sin).din.blocks /\ fs.Short sin /\
          Extent files sin after /\ after.inode = fs.inode /\ after.super = fs.super,
        fun _ => False⟩ := by
  apply bmapLoadNolock_meets extent.owned extent.loaded
  · exact fun beyond => absurd within (by omega)
  · exact fun _ beyond => absurd reached (by omega)
  · exact fun low hole => absurd hole ((extent.full.present index).mpr low)
  · exact fun _ _ _ fails => absurd fails (extent.works.not_fails 1)
  · rintro rfl _ error after refused
    rcases refused.reason with fails | ⟨rfl, few, super, freemap⟩
    · exact absurd fails (extent.works.not_fails _)
    · refine ⟨rfl, rfl, ?_, ⟨refused.quiet.owned extent.owned, refused.quiet.inodeList ▸ extent.loaded, ?_, ?_⟩,
        refused.quiet.inode, super⟩
      · have needed := extent.full.needed_le
        unfold Short budget
        rw [footprint_succ]
        omega
      · intro number
        rw [refused.quiet.error]
        exact extent.works number
      · rw [refused.quiet.inode]
        refine ⟨extent.full.reached, fun index => ?_⟩
        have same := refused.quiet.blockOf extent.owned extent.loaded index
        rw [refused.quiet.inode] at same
        rw [same]
        exact extent.full.present index
  · intro low present after looked
    have super : after.budget sin = fs.budget sin := by
      unfold budget
      rw [looked.inode, looked.super]
    refine ⟨extent.looked looked, Resized.of_inode (by rw [looked.inode]), Nat.le_of_eq super.symm, ?_, ?_, present⟩
    · rw [looked.inode]
      omega
    · rcases looked with rfl | rfl <;> rfl
  · exact fun last present => absurd ((extent.full.present index).mp present) (by omega)
  · rintro rfl _ blkno after grown owned _
    rcases extent.grown reached grown owned with ⟨extentAfter, resized, blocks, budget⟩
    refine ⟨extentAfter, resized, budget, ?_, ?_, (extent.owned.valid_of_free grown.fresh).1⟩
    · rw [blocks]
      omega
    · rw [blockOf_addBlock, grown.blockOf, if_pos rfl]

/-! ## Transfers -/

/-- The last byte that a map reaches has this number. -/
def maxMapped : Nat := (ndirect + blkNentry) * blksize

/-- A file up to a position: it has the blocks that it had and those below the
position. -/
structure SfsFs.Stretched (files : List Nat) (sin : Nat) (base : SfsFs) (pos : Nat) (fs : SfsFs) : Prop where
  extent : Extent files sin fs
  resized : Resized base sin fs
  budget : base.budget sin <= fs.budget sin
  blocks : (fs.inode sin).din.blocks = max (base.inode sin).din.blocks (roundupDiv pos blksize)

theorem SfsFs.Stretched.still {base after : SfsFs} {pos : Nat} (stretched : Stretched files sin base pos fs)
    (extent : Extent files sin after) (inode : after.inode = fs.inode) (super : after.super = fs.super) :
    Stretched files sin base pos after where
  extent := extent
  resized := stretched.resized.trans (.of_inode (by rw [inode]))
  budget := by
    unfold SfsFs.budget
    rw [inode, super]
    exact stretched.budget
  blocks := by
    rw [inode]
    exact stretched.blocks

/-- A piece of a transfer that does not start beyond the end -/
theorem IsPiece.stretches {base : SfsFs} {write : Bool} {pos size cost : Nat} {now : Transfer}
    {program : Kernel Transfer} (piece : IsPiece sin write pos now size cost program) (positive : 0 < size)
    (reached : pos + size <= maxMapped) (stretched : Stretched files sin base pos fs) :
    Meets program fs
      ⟨fun next after =>
          (next.ret = none /\ next.alen = now.alen + size /\ Stretched files sin base (pos + size) after) \/
          (next.ret = some .noMem /\ next.alen = now.alen /\ Stretched files sin base pos after /\
            base.budget sin < footprint (roundupDiv (pos + size) blksize)),
        fun _ _ => False, fun _ => False⟩ := by
  have inBlock := piece.inBlock
  have last : pos / blksize + 1 = roundupDiv (pos + size) blksize := by
    unfold roundupDiv blksize at *
    omega
  have start : pos / blksize <= (fs.inode sin).din.blocks := by
    rw [stretched.blocks]
    unfold roundupDiv blksize
    omega
  have low : pos / blksize < ndirect + blkNentry := by
    unfold maxMapped ndirect blkNentry blksize at *
    omega
  apply piece.meets
  refine (bmapLoadNolock_extent stretched.extent start low).mono ?_ ?_ (fun _ stopped => stopped)
  · rintro ino middle ⟨extent, resized, budget, blocks, rfl, present⟩
    have grown : (middle.inode sin).din.blocks =
        max (base.inode sin).din.blocks (roundupDiv (pos + size) blksize) := by
      rw [blocks, stretched.blocks, ← last]
      unfold roundupDiv blksize at *
      omega
    have next : Stretched files sin base (pos + size) middle :=
      ⟨extent, stretched.resized.trans resized, Nat.le_trans stretched.budget budget, grown⟩
    refine ⟨extent.owned.blockOf_valid extent.loaded present, ?_, ?_, ?_⟩
    · exact fun _ _ fails => absurd fails (extent.works.not_fails cost)
    · exact fun _ _ => .inl ⟨rfl, rfl, next.still extent.tick rfl rfl⟩
    · intro _ _ data after _ written
      have stored : Stretched files sin base (pos + size)
          (middle.store (middle.blockOf (middle.inode sin).din (pos / blksize)) data) := by
        have apart := extent.owned.blockOf_ne_indirect extent.loaded present (extent.owned.loaded sin extent.loaded)
        rw [dinOf_loaded extent.loaded] at apart
        refine next.still ⟨extent.owned.store extent.loaded present data, extent.loaded, extent.works,
          extent.full.reached, fun index => ?_⟩ rfl rfl
        have map : (middle.store (middle.blockOf (middle.inode sin).din (pos / blksize)) data).blockOf
            (middle.inode sin).din index = middle.blockOf (middle.inode sin).din index :=
          blockOf_congr (.inl (Function.update_of_ne apart ..)) index
        exact map ▸ extent.full.present index
      rcases written with rfl | rfl
      · exact .inl ⟨rfl, rfl, stored⟩
      · exact .inl ⟨rfl, rfl, stored.still ⟨(Quiet.tick _).owned stored.extent.owned, extent.loaded, extent.works,
          stored.extent.full.reached, stored.extent.full.present⟩ rfl rfl⟩
  · rintro error after ⟨rfl, end_, short, extent, inode, super⟩
    refine .inr ⟨rfl, rfl, stretched.still extent inode super, ?_⟩
    unfold Short at short
    rw [← end_, last] at short
    exact Nat.lt_of_le_of_lt stretched.budget short

/-- A regular file: the count of its blocks is that of its size. -/
structure SfsFs.Regular (files : List Nat) (sin : Nat) (fs : SfsFs) : Prop where
  extent : Extent files sin fs
  kind : (fs.inode sin).din.type = typeFile
  counted : (fs.inode sin).din.blocks = roundupDiv (fs.inode sin).din.size blksize

theorem SfsFs.Regular.size_le (regular : Regular files sin fs) : (fs.inode sin).din.size <= maxMapped := by
  have counted := regular.counted
  have reached := regular.extent.full.reached
  unfold maxMapped roundupDiv ndirect blkNentry blksize at *
  omega

/-- The size of a file, and nothing else of its inode but the map, has
changed; the inode is marked if it has. -/
structure SfsFs.Sized (files : List Nat) (sin : Nat) (fs : SfsFs) (size : Nat) (after : SfsFs) : Prop where
  regular : Regular files sin after
  size : (after.inode sin).din.size = size
  nlinks : (after.inode sin).din.nlinks = (fs.inode sin).din.nlinks
  unmarked : (after.inode sin).dirty = true \/ after.inode sin = fs.inode sin

theorem SfsFs.Regular.sized (regular : Regular files sin fs) : Sized files sin fs (fs.inode sin).din.size fs :=
  ⟨regular, rfl, rfl, .inr rfl⟩

/-- The size is set at the end. -/
theorem SfsFs.Stretched.sized {base : SfsFs} {pos : Nat} (stretched : Stretched files sin base pos fs)
    (regular : Regular files sin base) (write : Bool)
    (clipped : write = false -> pos <= (base.inode sin).din.size) :
    Sized files sin base (max (base.inode sin).din.size pos) (fs.extended sin write pos) := by
  have blocks := stretched.blocks
  have counted := regular.counted
  have size := stretched.resized.size
  unfold extended
  split
  · next grows =>
      have inode := inode_setMap fs sin ((fs.inode sin).din.setSize pos)
      have more : roundupDiv (base.inode sin).din.size blksize <= roundupDiv pos blksize := by
        unfold roundupDiv blksize
        omega
      refine ⟨⟨⟨?_, stretched.extent.loaded, stretched.extent.works, ?_⟩, ?_, ?_⟩, ?_, ?_, .inl ?_⟩
      · exact stretched.extent.owned.setInode stretched.extent.loaded rfl
      · rw [inode]
        exact ⟨stretched.extent.full.reached, stretched.extent.full.present⟩
      · rw [inode]
        exact stretched.resized.kinds.1.trans regular.kind
      · rw [inode]
        change (fs.inode sin).din.blocks = roundupDiv pos blksize
        omega
      · rw [inode]
        change pos = _
        omega
      · rw [inode]
        exact stretched.resized.kinds.2
      · rw [inode]
  · next same =>
      have low : pos <= (base.inode sin).din.size := by
        cases write with
        | false => exact clipped rfl
        | true =>
            rw [← size]
            exact Nat.le_of_not_lt fun more => same ⟨rfl, more⟩
      have fewer : roundupDiv pos blksize <= roundupDiv (base.inode sin).din.size blksize := by
        unfold roundupDiv blksize
        omega
      refine ⟨⟨stretched.extent, stretched.resized.kinds.1.trans regular.kind, ?_⟩, ?_,
        stretched.resized.kinds.2, stretched.resized.unmarked (by omega)⟩
      · rw [size]
        omega
      · omega

/-- A transfer that is refused -/
def RefusedIo (offset : Int) (resid : Nat) : Prop :=
  offset < 0 \/ (maxFileSize : Int) <= offset \/ span offset resid < offset

/-- What a transfer returns: the whole of it, or less when there is no room -/
inductive IoResult (fs : SfsFs) (sin : Nat) (buf : Bytes) (offset : Int) (resid : Nat) (write : Bool)
    (now : Transfer) : Prop where
  | refused (bad : RefusedIo offset resid) (same : now = ⟨some .inval, 0, buf⟩)
  | whole (good : ¬ RefusedIo offset resid) (ret : now.ret = none)
      (alen : now.alen = ioEnd (fs.inode sin).din offset resid write - offset.toNat)
  | short (good : ¬ RefusedIo offset resid) (writes : write = true) (ret : now.ret = some .noMem)
      (alen : now.alen < ioEnd (fs.inode sin).din offset resid write - offset.toNat)
      (few : fs.budget sin < footprint (roundupDiv (ioEnd (fs.inode sin).din offset resid write) blksize))

/-- A write starts in the file and ends where a map reaches. -/
def SfsFs.Fits (fs : SfsFs) (sin : Nat) (offset : Int) (resid : Nat) : Prop :=
  offset <= (fs.inode sin).din.size /\ offset + resid <= maxMapped

/-- The size after a transfer of some bytes -/
def SfsFs.sizeAfter (fs : SfsFs) (sin : Nat) (offset : Int) (write : Bool) (alen : Nat) : Nat :=
  if write = true /\ 0 < alen then max (fs.inode sin).din.size (offset.toNat + alen) else (fs.inode sin).din.size

theorem ioNolock_refused {buf : Bytes} {offset : Int} {resid : Nat} {write : Bool} {done : Transfer -> SfsFs -> Prop}
    {fail : Errno -> SfsFs -> Prop} {stop : Fault -> Prop} (file : (fs.inode sin).din.type ≠ typeDir)
    (bad : RefusedIo offset resid) (refused : done ⟨some .inval, 0, buf⟩ fs) :
    Meets (ioNolock sin buf offset resid write) fs ⟨done, fail, stop⟩ := by
  unfold ioNolock getDin
  simp only [meets_bind, meets_get, meets_pure, meets_assert, meets_ite]
  refine ⟨fun _ => ?_, fun directory => absurd file directory⟩
  exact (if_pos bad).mpr refused

theorem io_extent {buf : Bytes} {offset : Int} {resid : Nat} {write : Bool} (regular : Regular files sin fs)
    (fits : write = true -> ¬ RefusedIo offset resid -> fs.Fits sin offset resid) :
    Meets (io sin buf offset resid write) fs
      ⟨fun now after => IoResult fs sin buf offset resid write now /\
          Sized files sin fs (fs.sizeAfter sin offset write now.alen) after,
        fun _ _ => False, fun _ => False⟩ := by
  have small := regular.size_le
  have file : (fs.inode sin).din.type ≠ typeDir := by
    rw [regular.kind]
    decide
  have none : Sized files sin fs (fs.sizeAfter sin offset write 0) fs := by
    unfold sizeAfter
    rw [if_neg fun both => Nat.lt_irrefl 0 both.2]
    exact regular.sized
  apply io_meets
  by_cases bad : RefusedIo offset resid
  · exact ioNolock_refused file bad ⟨Nat.zero_le _, .refused bad rfl, none⟩
  · apply ioNolock_meets
    · exact fun directory => absurd directory file
    · exact fun refused => absurd refused bad
    · intro nothing
      have zero : ioEnd (fs.inode sin).din offset resid write - offset.toNat = 0 := by
        unfold ioEnd
        rcases nothing with same | ⟨rfl, past⟩
        · rw [← same]
          split <;> omega
        · rw [if_pos rfl]
          omega
      exact ⟨Nat.zero_le _, .whole bad rfl zero.symm, none⟩
    · intro low high forward ordered
      have clipped := span_le low resid
      have reached : ioEnd (fs.inode sin).din offset resid write <= maxMapped := by
        unfold ioEnd
        split
        · omega
        · next isWrite =>
            have fit := fits (Bool.eq_true_of_not_eq_false isWrite) bad
            have last := fit.2
            omega
      have bound : ioEnd (fs.inode sin).din offset resid write <= offset.toNat + resid := by
        unfold ioEnd
        split <;> omega
      have start : offset.toNat <= (fs.inode sin).din.size := by
        cases write with
        | false =>
            unfold ioEnd at ordered
            rw [if_pos rfl] at ordered
            omega
        | true =>
            have fit := fits rfl bad
            have first := fit.1
            omega
      have clip : write = false -> ioEnd (fs.inode sin).din offset resid write <= (fs.inode sin).din.size := by
        intro isRead
        unfold ioEnd
        rw [if_pos isRead]
        exact Nat.min_le_right ..
      have finish : forall (now : Transfer) after,
          offset.toNat + now.alen <= ioEnd (fs.inode sin).din offset resid write ->
          Stretched files sin fs (offset.toNat + now.alen) after ->
          Sized files sin fs (fs.sizeAfter sin offset write now.alen)
            (after.extended sin write (offset.toNat + now.alen)) := by
        intro now after within stretched
        have sized := stretched.sized regular write fun isRead => Nat.le_trans within (clip isRead)
        have same : fs.sizeAfter sin offset write now.alen = max (fs.inode sin).din.size (offset.toNat + now.alen) := by
          unfold sizeAfter
          split
          · rfl
          · next still =>
              cases write with
              | false =>
                  have more := clip rfl
                  omega
              | true =>
                  have zero : now.alen = 0 := Nat.eq_zero_of_not_pos fun positive => still ⟨rfl, positive⟩
                  omega
        rw [same]
        exact sized
      have entered : Stretched files sin fs offset.toNat fs := by
        refine ⟨regular.extent, .of_inode rfl, Nat.le_refl _, ?_⟩
        have counted := regular.counted
        unfold roundupDiv blksize at *
        omega
      refine ioParts_meets (fun pos _ current => Stretched files sin fs pos current) ?_ ordered ?_ entered
      · intro pos size cost now current program piece positive after within _ _ count stretched
        refine (piece.stretches positive (Nat.le_trans within reached) stretched).mono ?_ (fun _ _ failed => failed)
          (fun _ stopped => stopped)
        rintro next final (⟨fine, length, more⟩ | ⟨short, length, kept, few⟩) <;> dsimp only
        · rw [if_pos fine]
          exact ⟨by omega, more⟩
        · rw [if_neg (by rw [short]; exact Option.some_ne_none _)]
          rw [← count, ← length] at kept
          refine ⟨by omega, .short bad ?_ short (by omega) ?_, finish next final (by omega) kept⟩
          · by_contra isRead
            have here := clip (Bool.eq_false_iff.mpr isRead)
            have enough : footprint (roundupDiv (pos + size) blksize) <= fs.budget sin := by
              refine Nat.le_trans (footprint_mono (show _ <= (fs.inode sin).din.blocks from ?_)) (Nat.le_add_left ..)
              rw [regular.counted]
              unfold roundupDiv blksize
              omega
            omega
          · refine Nat.lt_of_lt_of_le few (footprint_mono ?_)
            unfold roundupDiv blksize
            omega
      · intro next current fine count stretched
        refine ⟨by omega, .whole bad fine (by omega), ?_⟩
        rw [← count] at stretched
        exact finish next current (by omega) stretched

/-! ## Lengths -/

/-- A file after a call that sets its size -/
structure SfsFs.Cut (files : List Nat) (sin : Nat) (fs : SfsFs) (bytes : Nat -> UInt8) (size : Nat) (after : SfsFs) :
    Prop where
  sized : Sized files sin fs size after
  bytes : after.fileByte sin = bytes

/-- The file gets all the blocks that a length needs. -/
theorem resize_grows {bytes : Nat -> UInt8} {fail : Errno -> SfsFs -> Prop} {tblks : Nat}
    (extent : Extent files sin fs) (shown : fs.fileByte sin = bytes) (more : (fs.inode sin).din.blocks <= tblks)
    (reached : tblks <= ndirect + blkNentry) (room : footprint tblks <= fs.budget sin) :
    Meets (resize sin (fs.inode sin).din.blocks tblks) fs
      ⟨fun _ after => Extent files sin after /\ Resized fs sin after /\ (after.inode sin).din.blocks = tblks /\
          after.fileByte sin = bytes, fail, fun _ => False⟩ := by
  unfold resize
  rw [meets_ite]
  split
  · next grows =>
      refine meets_forRange (fun number current => Extent files sin current /\ Resized fs sin current /\
        fs.budget sin <= current.budget sin /\ (current.inode sin).din.blocks = number /\
        Shows files sin bytes current) _ _ ?_ ?_ ?_
      · rintro number current low high ⟨extentNow, resized, budget, rfl, shows_⟩
        rw [meets_bind]
        refine ((bmapLoadNolock_extent extentNow (Nat.le_refl _) (by omega)).and
          (bmapLoadNolock_shows shows_)).mono ?_ ?_ (fun _ stopped => stopped.1)
        · rintro ino after ⟨⟨extentAfter, resizedAfter, budgetAfter, blocks, _, _⟩, showsAfter, _⟩
          refine ⟨extentAfter, resized.trans resizedAfter, Nat.le_trans budget budgetAfter, ?_, showsAfter⟩
          rw [blocks]
          omega
        · rintro error after ⟨⟨_, _, short, _⟩, _⟩
          have enough : footprint ((current.inode sin).din.blocks + 1) <= footprint tblks := footprint_mono (by omega)
          unfold Short at short
          omega
      · rintro current ⟨extentNow, resized, _, blocks, shows_⟩
        exact ⟨extentNow, resized, by omega, shows_.bytes⟩
      · exact ⟨extent, .of_inode rfl, Nat.le_refl _, rfl, extent.owned, extent.loaded, shown⟩
  · next still =>
      have none : (fs.inode sin).din.blocks - tblks = 0 := by omega
      rw [none]
      exact ⟨extent, .of_inode rfl, by omega, shown⟩

theorem SfsFs.Extent.dropped {after : SfsFs} (extent : Extent files sin fs)
    (removed : Removed fs sin ((fs.inode sin).din.blocks - 1) after) (owned : (after.dropBlock sin).Owned files) :
    Extent files sin (after.dropBlock sin) /\ Resized fs sin (after.dropBlock sin) /\
      ((after.dropBlock sin).inode sin).din.blocks = (fs.inode sin).din.blocks - 1 := by
  have inode : (after.dropBlock sin).inode sin = { after.inode sin with
      din := (after.inode sin).din.setBlocks ((after.inode sin).din.blocks - 1), dirty := true } := inode_setMap ..
  have blocks : ((after.dropBlock sin).inode sin).din.blocks = (fs.inode sin).din.blocks - 1 := by
    rw [inode]
    exact congrArg (· - 1) removed.sizes.2
  have map : forall index, (after.dropBlock sin).blockOf ((after.dropBlock sin).inode sin).din index =
      after.blockOf (after.inode sin).din index := by
    intro index
    rw [inode]
    rfl
  refine ⟨⟨owned, removed.inodeList ▸ extent.loaded, ?_, ?_, ?_⟩, ⟨?_, ?_, .inl ?_⟩, blocks⟩
  · intro number
    change after.device.error number = none
    rw [removed.error]
    exact extent.works number
  · rw [blocks]
    exact Nat.le_trans (Nat.sub_le ..) extent.full.reached
  · intro index
    rw [map, removed.blockOf, blocks]
    by_cases here : index = (fs.inode sin).din.blocks - 1
    · rw [if_pos here]
      exact iff_of_false (fun different => different rfl) (by omega)
    · rw [if_neg here, extent.full.present index]
      omega
  · rw [inode]
    exact removed.sizes.1
  · rw [inode]
    exact removed.kinds
  · rw [inode]

/-- The file gives up all its blocks. -/
theorem resize_empties {fail : Errno -> SfsFs -> Prop} (extent : Extent files sin fs) :
    Meets (resize sin (fs.inode sin).din.blocks 0) fs
      ⟨fun _ after => Extent files sin after /\ Resized fs sin after /\ (after.inode sin).din.blocks = 0,
        fail, fun _ => False⟩ := by
  unfold resize
  rw [meets_ite, if_neg (Nat.not_lt_zero _)]
  refine meets_forRange (fun number current => Extent files sin current /\ Resized fs sin current /\
    (current.inode sin).din.blocks + number = (fs.inode sin).din.blocks) _ _ ?_ ?_ ?_
  · rintro number current _ high ⟨extentNow, resized, count⟩
    apply bmapTruncateNolock_meets extentNow.owned extentNow.loaded
    · intro empty
      omega
    · exact fun _ _ fails _ => absurd fails (extentNow.works.not_fails 3)
    · intro after removed _ owned
      rcases extentNow.dropped removed owned with ⟨extentAfter, resizedAfter, blocks⟩
      refine ⟨extentAfter, resized.trans resizedAfter, ?_⟩
      rw [blocks]
      omega
  · rintro current ⟨extentNow, resized, count⟩
    exact ⟨extentNow, resized, by omega⟩
  · exact ⟨extent, .of_inode rfl, Nat.add_zero _⟩

/-- A file without blocks has no bytes. -/
theorem SfsFs.Full.fileByte_eq_zero (full : fs.Full (fs.inode sin).din) (empty : (fs.inode sin).din.blocks = 0) :
    fs.fileByte sin = fun _ => 0 := by
  funext k
  unfold fileByte
  refine if_pos (by_contra fun present => ?_)
  have low := (full.present _).mp present
  rw [empty] at low
  exact Nat.not_lt_zero _ low

/-- The size is set when the file has the blocks for it. -/
theorem SfsFs.Regular.cut {after : SfsFs} {size : Nat} (regular : Regular files sin fs)
    (extent : Extent files sin after) (resized : Resized fs sin after)
    (blocks : (after.inode sin).din.blocks = roundupDiv size blksize) :
    Cut files sin fs (after.fileByte sin) size (after.setMap sin ((after.inode sin).din.setSize size)) := by
  have inode := inode_setMap after sin ((after.inode sin).din.setSize size)
  refine ⟨⟨⟨⟨extent.owned.setInode extent.loaded rfl, extent.loaded, extent.works, ?_⟩, ?_, ?_⟩, ?_, ?_, .inl ?_⟩, ?_⟩
  · rw [inode]
    exact ⟨extent.full.reached, extent.full.present⟩
  · rw [inode]
    exact resized.kinds.1.trans regular.kind
  · rw [inode]
    exact blocks
  · rw [inode]
    rfl
  · rw [inode]
    exact resized.kinds.2
  · rw [inode]
  · refine fileByte_congr (fun index => ?_) fun _ _ => rfl
    rw [inode]
    rfl

/-- There is room for the blocks of a length. -/
def SfsFs.Room (fs : SfsFs) (sin : Nat) (len : Nat) : Prop :=
  len <= maxMapped /\ footprint (roundupDiv len blksize) <= fs.budget sin

/-- `sfs_truncfile` to nothing, or to a length that is no shorter -/
theorem truncfile_extent {len : Int} (regular : Regular files sin fs)
    (allowed : 0 <= len -> len <= maxFileSize -> len = 0 \/ ((fs.inode sin).din.size <= len /\ fs.Room sin len.toNat)) :
    Meets (truncfile sin len) fs
      ⟨fun _ after => 0 <= len /\ len <= maxFileSize /\
          Cut files sin fs (if len = 0 then fun _ => 0 else fs.fileByte sin) len.toNat after,
        fun error after => (len < 0 \/ (maxFileSize : Int) < len) /\ error = .inval /\ after = fs,
        fun _ => False⟩ := by
  have counted := regular.counted
  apply truncfile_meets
  · exact fun outside => ⟨outside, rfl, rfl⟩
  · intro low high same
    rw [same] at counted
    refine ⟨fun _ => ⟨low, high, ?_⟩, fun different => absurd counted.symm different⟩
    have kept := same ▸ regular.sized
    refine ⟨kept, ?_⟩
    split
    · next zero =>
        refine regular.extent.full.fileByte_eq_zero ?_
        rw [counted, zero]
        rfl
    · rfl
  · intro low high different
    rcases allowed low high with rfl | ⟨grows, reached, room⟩
    · have none : roundupDiv (0 : Int).toNat blksize = 0 := by decide
      rw [none]
      refine (resize_empties regular.extent).mono ?_ (fun _ _ failed => failed) (fun _ stopped => stopped)
      rintro _ after ⟨extent, resized, blocks⟩
      refine ⟨fun _ => ⟨low, high, ?_⟩, fun other => absurd blocks other⟩
      rw [if_pos rfl, ← extent.full.fileByte_eq_zero blocks]
      exact regular.cut extent resized (blocks.trans none.symm)
    · have more : (fs.inode sin).din.blocks <= roundupDiv len.toNat blksize := by
        rw [counted]
        unfold roundupDiv blksize
        omega
      have bound : roundupDiv len.toNat blksize <= ndirect + blkNentry := by
        unfold maxMapped roundupDiv ndirect blkNentry blksize at *
        omega
      refine (resize_grows regular.extent rfl more bound room).mono ?_ (fun _ _ failed => failed)
        (fun _ stopped => stopped)
      rintro _ after ⟨extent, resized, blocks, bytes⟩
      refine ⟨fun _ => ⟨low, high, ?_⟩, fun other => absurd blocks other⟩
      rw [if_neg (by omega), ← bytes]
      exact regular.cut extent resized blocks

theorem tryseek_extent {pos : Int} (regular : Regular files sin fs)
    (allowed : ((fs.inode sin).din.size : Int) < pos -> pos < maxFileSize -> fs.Room sin pos.toNat) :
    Meets (tryseek sin pos) fs
      ⟨fun _ after => 0 <= pos /\ pos < maxFileSize /\
          Cut files sin fs (fs.fileByte sin) (max (fs.inode sin).din.size pos.toNat) after,
        fun error after => (pos < 0 \/ (maxFileSize : Int) <= pos) /\ error = .inval /\ after = fs,
        fun _ => False⟩ := by
  have small := regular.size_le
  apply tryseek_meets
  · exact fun outside => ⟨outside, rfl, rfl⟩
  · intro low within
    have reached : maxMapped < maxFileSize := by decide
    refine ⟨low, by omega, ?_, rfl⟩
    rw [Nat.max_eq_left (by omega)]
    exact regular.sized
  · intro low high beyond
    refine (truncfile_extent regular fun _ _ => .inr ⟨by omega, allowed beyond high⟩).mono ?_ ?_
      (fun _ stopped => stopped)
    · rintro _ after ⟨_, _, cut⟩
      rw [if_neg (by omega)] at cut
      rw [Nat.max_eq_right (by omega)]
      exact ⟨low, high, cut⟩
    · rintro error after ⟨outside, _⟩
      omega

end Sfs
end Ucore
