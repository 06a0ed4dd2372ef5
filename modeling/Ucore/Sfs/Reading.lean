import Ucore.Sfs.IoRules

namespace Ucore
namespace Sfs

open Library
open Program

/-!
# Reading

Reading leaves a volume as it is, up to the number of transfers made.  On a
device that works, a transfer inside a file whose blocks are all mapped
returns the bytes of these blocks.
-/

namespace SfsFs

/-- More transfers have been made. -/
def ticks (fs : SfsFs) (count : Nat) : SfsFs :=
  { fs with device := { fs.device with transfers := fs.device.transfers + count } }

/-- Only transfers have been made. -/
def Read (fs after : SfsFs) : Prop := Exists fun count => after = fs.ticks count

/-- No transfer of the device fails.  What `sfs_rbuf` returns is then decided by
the blocks alone. -/
def Works (fs : SfsFs) : Prop := forall number, fs.device.error number = none

/-- A byte of a file, by the block map. -/
def byteOf (fs : SfsFs) (din : DiskInode) (k : Nat) : UInt8 :=
  fs.device.block (fs.blockOf din (k / blksize)) (k % blksize)

/-- The kernel finds a block of a file: the map reaches it, and has a number
there. -/
structure Mapped (fs : SfsFs) (din : DiskInode) (index : Nat) : Prop where
  within : index < din.blocks
  reached : index < ndirect + blkNentry
  present : fs.blockOf din index ≠ 0

variable {fs middle after : SfsFs} {files : List Nat} {sin : Nat}

namespace Read

theorem refl (fs : SfsFs) : Read fs fs := ⟨0, rfl⟩

theorem tick (read : Read fs after) : Read fs after.tick := by
  rcases read with ⟨count, rfl⟩
  exact ⟨count + 1, rfl⟩

theorem looked (read : Read fs middle) (looked : middle.Looked after) : Read fs after := by
  rcases looked with rfl | rfl
  · exact read
  · exact read.tick

theorem trans (first : Read fs middle) (second : Read middle after) : Read fs after := by
  rcases first with ⟨before, rfl⟩
  rcases second with ⟨count, rfl⟩
  refine ⟨before + count, ?_⟩
  unfold ticks
  rw [← Nat.add_assoc]

theorem quiet (read : Read fs after) : Quiet fs after := by
  rcases read with ⟨count, rfl⟩
  exact ⟨rfl, rfl, rfl, rfl, rfl, fun _ _ => rfl, fun _ set => set, id, fun clean => ⟨clean, rfl, rfl⟩,
    Nat.le_add_right ..⟩

theorem owned (read : Read fs after) (owned : fs.Owned files) : after.Owned files := read.quiet.owned owned

theorem works (read : Read fs after) (works : fs.Works) : after.Works := by
  intro number
  rw [read.quiet.error]
  exact works number

theorem block (read : Read fs after) : after.device.block = fs.device.block := by
  rcases read with ⟨_, rfl⟩
  rfl

theorem blockOf (read : Read fs after) : after.blockOf = fs.blockOf := by
  rcases read with ⟨_, rfl⟩
  rfl

theorem mapped {din : DiskInode} {index : Nat} (read : Read fs after) (mapped : fs.Mapped din index) :
    after.Mapped din index where
  within := mapped.within
  reached := mapped.reached
  present := by
    rw [read.blockOf]
    exact mapped.present

end Read

theorem Works.not_fails (works : fs.Works) (count : Nat) : ¬ fs.Fails count := by
  rintro ⟨number, _, error⟩
  exact error (works _)

end SfsFs

open SfsFs

variable {fs : SfsFs} {files : List Nat} {sin : Nat} {fail : Errno -> SfsFs -> Prop} {stop : Fault -> Prop}

/-- `sfs_bmap_load_nolock` of a block that is there. -/
theorem bmapLoadNolock_mapped {index : Nat} {done : Nat -> SfsFs -> Prop} (owned : fs.Owned files)
    (loaded : sin ∈ fs.inodeList) (mapped : fs.Mapped (fs.inode sin).din index)
    (missed : forall error, fs.Fails 1 -> fail error fs.tick)
    (found : forall after, fs.Looked after -> done (fs.blockOf (fs.inode sin).din index) after) :
    Meets (bmapLoadNolock sin index) fs ⟨done, fail, stop⟩ := by
  have within := mapped.within
  have reached := mapped.reached
  apply bmapLoadNolock_meets owned loaded
  · exact fun beyond => absurd beyond (by omega)
  · exact fun _ beyond => absurd beyond (by omega)
  · exact fun _ hole => absurd hole mapped.present
  · exact fun error _ _ fails => missed error fails
  · exact fun last => absurd last (by omega)
  · exact fun _ _ after looked => found after looked
  · exact fun last => absurd last (by omega)
  · exact fun last => absurd last (by omega)

/-! ## Bytes of a file -/

theorem IsPiece.inBlock {write : Bool} {pos size cost : Nat} {now : Transfer} {program : Kernel Transfer}
    (piece : IsPiece sin write pos now size cost program) : pos % blksize + size <= blksize := by
  cases piece with
  | part size inBlock => exact inBlock
  | whole aligned => rw [aligned, Nat.zero_add]

/-- The bytes from `offset` to `pos` are in the buffer. -/
def CopiedTo (fs : SfsFs) (din : DiskInode) (buf : Bytes) (offset pos : Nat) (now : Transfer) (current : SfsFs) :
    Prop :=
  fs.Read current /\ now.buf = splice buf 0 (pos - offset) (fun k => fs.byteOf din (offset + k))

theorem splice_splice {buf data : Bytes} {first second : Nat} :
    splice (splice buf 0 first data) first second (fun k => data (first + k)) = splice buf 0 (first + second) data := by
  funext k
  unfold splice
  by_cases before : k < first
  · rw [if_neg (by omega), if_pos (by omega), if_pos (by omega)]
  · by_cases within : k < first + second
    · rw [if_pos (by omega), if_pos (by omega), Nat.sub_zero]
      exact congrArg data (by omega)
    · rw [if_neg (by omega), if_neg (by omega), if_neg (by omega)]

/-- The bytes of one block of a file. -/
theorem byteOf_inBlock {din : DiskInode} {pos k : Nat} (inBlock : pos % blksize + k < blksize) :
    fs.byteOf din (pos + k) = fs.device.block (fs.blockOf din (pos / blksize)) (pos % blksize + k) := by
  have index : (pos + k) / blksize = pos / blksize := by
    unfold blksize at *
    omega
  have offset : (pos + k) % blksize = pos % blksize + k := by
    unfold blksize at *
    omega
  unfold SfsFs.byteOf
  rw [index, offset]

/-- A piece of a read copies its bytes. -/
theorem read_advances {buf : Bytes} {offset endpos : Nat} {done : Transfer -> SfsFs -> Prop} (owned : fs.Owned files)
    (loaded : sin ∈ fs.inodeList) (works : fs.Works)
    (mapped : forall index, index * blksize < endpos -> fs.Mapped (fs.inode sin).din index) :
    Advances sin false offset endpos (CopiedTo fs (fs.inode sin).din buf offset) done fail stop := by
  rintro pos size cost now current program piece positive after within _ _ count ⟨read, copied⟩
  have inBlock := piece.inBlock
  have start : pos / blksize * blksize < endpos := by
    have split := Nat.div_mul_le_self pos blksize
    omega
  have here := mapped (pos / blksize) start
  have same := read.quiet.inode
  apply piece.meets
  have currentLoaded : sin ∈ current.inodeList := by
    rw [read.quiet.inodeList]
    exact loaded
  have currentMapped : current.Mapped (current.inode sin).din (pos / blksize) := by
    rw [same]
    exact read.mapped here
  apply bmapLoadNolock_mapped (read.owned owned) currentLoaded currentMapped
  · exact fun _ fails => absurd fails ((read.works works).not_fails 1)
  · intro middle looked
    have readMiddle := read.looked looked
    have number : current.blockOf (current.inode sin).din (pos / blksize) =
      fs.blockOf (fs.inode sin).din (pos / blksize) := by
      rw [same, read.blockOf]
    rw [number]
    refine ⟨?_, ?_, ?_, ?_⟩
    · exact readMiddle.quiet.valid (owned.blockOf_valid loaded here.present)
    · exact fun _ _ fails => absurd fails ((readMiddle.works works).not_fails cost)
    · intro _ _
      rw [if_pos rfl]
      refine ⟨?_, readMiddle.tick, ?_⟩
      · change offset + (now.alen + size) = pos + size
        omega
      have length : now.alen = pos - offset := by omega
      have more : pos + size - offset = pos - offset + size := by omega
      rw [more, ← splice_splice, ← copied, length]
      funext k
      dsimp only
      unfold splice
      by_cases inside : pos - offset <= k /\ k < pos - offset + size
      · have place : offset + (pos - offset + (k - (pos - offset))) = pos + (k - (pos - offset)) := by omega
        rw [if_pos inside, if_pos inside, readMiddle.block]
        dsimp only
        rw [place]
        exact (byteOf_inBlock (by omega)).symm
      · rw [if_neg inside, if_neg inside]
    · exact fun write => Bool.noConfusion write

/-- `sfs_io_nolock` reads the bytes of a file. -/
theorem ioNolock_reads {buf : Bytes} {offset alen : Nat} (owned : fs.Owned files) (loaded : sin ∈ fs.inodeList)
    (works : fs.Works) (file : (fs.inode sin).din.type ≠ typeDir) (start : offset < (fs.inode sin).din.size)
    (within : offset + alen <= (fs.inode sin).din.size) (small : (fs.inode sin).din.size <= maxFileSize)
    (mapped : forall index, index * blksize < offset + alen -> fs.Mapped (fs.inode sin).din index) :
    Meets (ioNolock sin buf offset alen false) fs
      ⟨fun now after => fs.Read after /\ now.ret = none /\ now.alen = alen /\
        now.buf = splice buf 0 alen (fun k => fs.byteOf (fs.inode sin).din (offset + k)),
        fun _ _ => False, fun _ => False⟩ := by
  have bound : maxFileSize < 2 ^ 62 := by decide
  have ends : span offset alen = offset + alen := span_eq (by omega) (by omega)
  have endpos : ioEnd (fs.inode sin).din offset alen false = offset + alen := by
    unfold ioEnd
    rw [if_pos rfl, ends]
    omega
  apply ioNolock_meets
  · exact fun directory => absurd directory file
  · intro refused
    rw [ends] at refused
    omega
  · rintro (empty | ⟨_, past⟩)
    · rw [ends] at empty
      have nothing : alen = 0 := by omega
      subst nothing
      refine ⟨Read.refl fs, rfl, rfl, ?_⟩
      funext k
      exact (if_neg (by omega)).symm
    · rw [Int.toNat_natCast] at past
      omega
  · intro _ _ more _
    rw [ends] at more
    rw [endpos, Int.toNat_natCast]
    have advances : Advances sin false offset (offset + alen) (CopiedTo fs (fs.inode sin).din buf offset)
        (fun now after => fs.Read (after.extended sin false (offset + now.alen)) /\ now.ret = none /\ now.alen = alen /\
          now.buf = splice buf 0 alen (fun k => fs.byteOf (fs.inode sin).din (offset + k)))
        (fun _ _ => False) (fun _ => False) :=
      read_advances owned loaded works mapped
    apply ioParts_meets (CopiedTo fs (fs.inode sin).din buf offset) advances (by omega)
    · rintro next current fine count ⟨read, copied⟩
      rw [Nat.add_sub_cancel_left] at copied
      exact ⟨read, fine, by omega, copied⟩
    · refine ⟨Read.refl fs, ?_⟩
      funext k
      exact (if_neg (by omega)).symm

/-- The kernel stops at a block that no map reaches. -/
theorem bmapLoadNolock_unreached {index : Nat} {done : Nat -> SfsFs -> Prop}
    (within : index <= (fs.inode sin).din.blocks) (beyond : ndirect + blkNentry <= index)
    (stopped : stop (.panic "sfs_bmap_get_nolock - index out of range")) :
    Meets (bmapLoadNolock sin index) fs ⟨done, fail, stop⟩ := by
  unfold bmapLoadNolock bmapGetNolock getDin
  simp only [meets_bind, meets_get, meets_pure, meets_assert]
  refine ⟨fun _ => ?_, fun broken => absurd within broken⟩
  rw [dif_neg (by omega)]
  simp only [meets_ite, meets_halt]
  rw [if_neg (by omega)]
  exact stopped

/-- A read of a byte that no map reaches. -/
theorem ioNolock_unreached {buf : Bytes} (file : (fs.inode sin).din.type ≠ typeDir)
    (more : (ndirect + blkNentry) * blksize < (fs.inode sin).din.size)
    (counted : ndirect + blkNentry <= (fs.inode sin).din.blocks)
    (stopped : stop (.panic "sfs_bmap_get_nolock - index out of range")) :
    Meets (ioNolock sin buf (((ndirect + blkNentry) * blksize : Nat) : Int) 1 false) fs
      ⟨fun _ _ => False, fail, stop⟩ := by
  have limit : (ndirect + blkNentry) * blksize < maxFileSize := by decide
  have small : maxFileSize < 2 ^ 62 := by decide
  have index : (ndirect + blkNentry) * blksize / blksize = ndirect + blkNentry := Nat.mul_div_cancel _ (by decide)
  generalize (ndirect + blkNentry) * blksize = offset at *
  have ends : span offset 1 = offset + 1 := span_eq (by omega) (by omega)
  have endpos : ioEnd (fs.inode sin).din offset 1 false = offset + 1 := by
    unfold ioEnd
    rw [if_pos rfl, ends]
    omega
  have advances : Advances sin false offset (offset + 1) (fun pos _ current => pos = offset /\ current = fs)
      (fun _ _ => False) fail stop := by
    rintro pos size cost now current program piece _ _ _ _ _ _ ⟨rfl, rfl⟩
    apply piece.meets
    rw [index]
    exact bmapLoadNolock_unreached counted (Nat.le_refl _) stopped
  apply ioNolock_meets
  · exact fun directory => absurd directory file
  · intro refused
    rw [ends] at refused
    omega
  · rintro (empty | ⟨_, past⟩)
    · rw [ends] at empty
      omega
    · rw [Int.toNat_natCast] at past
      omega
  · intro _ _ _ _
    rw [endpos, Int.toNat_natCast]
    apply ioParts_meets (fun pos _ current => pos = offset /\ current = fs) advances (by omega)
    · rintro _ _ _ _ ⟨past, _⟩
      omega
    · exact ⟨rfl, rfl⟩

end Sfs
end Ucore
