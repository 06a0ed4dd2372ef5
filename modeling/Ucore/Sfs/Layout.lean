import Mathlib.Data.Nat.Bitwise
import Mathlib.Logic.Function.Basic

namespace Ucore
namespace Sfs

/-!
# The layout of a volume

Blocks are byte strings.  Numbers lie on the disk in little-endian order, the
inode fills the first bytes of its block, the super block those of block 0,
and bit `b` of the free map is bit `b % 8` of byte `b / 8` of the free map
blocks.
-/

/-- `SFS_BLKSIZE`, `SFS_NDIRECT`, `SFS_BLK_NENTRY`, `SFS_BLKBITS` -/
def blksize : Nat := 4096

def ndirect : Nat := 12

def blkNentry : Nat := 1024

def blkbits : Nat := 32768

/-- `SFS_MAX_FILE_SIZE` -/
def maxFileSize : Nat := 1024 * 1024 * 128

/-- `SFS_BLKN_SUPER`, `SFS_BLKN_ROOT`, `SFS_BLKN_FREEMAP` -/
def blknSuper : Nat := 0

def blknRoot : Nat := 1

def blknFreemap : Nat := 2

/-- `SFS_MAX_NBLKS`, the largest volume that `mksfs` makes. -/
def maxNblks : Nat := 1024 * 512

def sfsMagic : Nat := 0x2f8dbe2a

/-- `SFS_TYPE_FILE` and `SFS_TYPE_DIR` -/
def typeFile : Nat := 1

def typeDir : Nat := 2

def roundupDiv (a n : Nat) : Nat := (a + n - 1) / n

abbrev Bytes := Nat -> UInt8

/-- `memcpy(block + offset, data, len)` -/
def splice (block : Bytes) (offset len : Nat) (data : Bytes) : Bytes :=
  fun k => if offset <= k /\ k < offset + len then data (k - offset) else block k

/-! ## Numbers -/

/-- The low bytes of a number. -/
def numberBytes (value : Nat) : Bytes := fun k => UInt8.ofNat (value / 256 ^ k)

def u16At (bytes : Bytes) (offset : Nat) : Nat := (bytes offset).toNat + 256 * (bytes (offset + 1)).toNat

def u32At (bytes : Bytes) (offset : Nat) : Nat := u16At bytes offset + 65536 * u16At bytes (offset + 2)

theorem u16At_congr {bytes other : Bytes} {offset : Nat}
    (same : forall k, offset <= k -> k < offset + 2 -> bytes k = other k) :
    u16At bytes offset = u16At other offset := by
  unfold u16At
  rw [same offset (by omega) (by omega), same (offset + 1) (by omega) (by omega)]

theorem u32At_congr {bytes other : Bytes} {offset : Nat}
    (same : forall k, offset <= k -> k < offset + 4 -> bytes k = other k) :
    u32At bytes offset = u32At other offset := by
  unfold u32At
  rw [u16At_congr fun k low high => same k low (by omega),
    u16At_congr fun k low high => same k (by omega) (by omega)]

theorem u32At_lt (bytes : Bytes) (offset : Nat) : u32At bytes offset < 2 ^ 32 := by
  have first := (bytes offset).toNat_lt
  have second := (bytes (offset + 1)).toNat_lt
  have third := (bytes (offset + 2)).toNat_lt
  have fourth := (bytes (offset + 2 + 1)).toNat_lt
  unfold u32At u16At
  omega

theorem numberBytes_toNat (value k : Nat) : (numberBytes value k).toNat = value / 256 ^ k % 256 :=
  UInt8.toNat_ofNat'

/-- A 16-bit number is read back. -/
theorem u16At_of_bytes {bytes : Bytes} {offset value : Nat} (small : value < 2 ^ 16)
    (written : forall k, k < 2 -> bytes (offset + k) = numberBytes value k) : u16At bytes offset = value := by
  have first := congrArg UInt8.toNat (written 0 (by omega))
  have second := congrArg UInt8.toNat (written 1 (by omega))
  rw [numberBytes_toNat] at first second
  unfold u16At
  rw [Nat.add_zero] at first
  omega

/-- A 32-bit number is read back. -/
theorem u32At_of_bytes {bytes : Bytes} {offset value : Nat} (small : value < 2 ^ 32)
    (written : forall k, k < 4 -> bytes (offset + k) = numberBytes value k) : u32At bytes offset = value := by
  have first := congrArg UInt8.toNat (written 0 (by omega))
  have second := congrArg UInt8.toNat (written 1 (by omega))
  have third := congrArg UInt8.toNat (written 2 (by omega))
  have fourth := congrArg UInt8.toNat (written 3 (by omega))
  rw [numberBytes_toNat] at first second third fourth
  unfold u32At u16At
  rw [Nat.add_zero] at first
  rw [show offset + 2 + 1 = offset + 3 from rfl]
  omega

/-! ## Inodes -/

/-- `struct sfs_disk_inode` -/
@[ext]
structure DiskInode where
  size : Nat := 0
  type : Nat := typeFile
  nlinks : Nat := 1
  blocks : Nat := 0
  direct : Fin ndirect -> Nat := fun _ => 0
  indirect : Nat := 0

namespace DiskInode

/-- `din->direct[index] = ino` -/
def setDirect (din : DiskInode) (index : Fin ndirect) (ino : Nat) : DiskInode :=
  { din with direct := Function.update din.direct index ino }

/-- `din->indirect = ent` -/
def setIndirect (din : DiskInode) (ent : Nat) : DiskInode := { din with indirect := ent }

/-- `din->blocks = blocks` -/
def setBlocks (din : DiskInode) (blocks : Nat) : DiskInode := { din with blocks := blocks }

/-- `din->size = size` -/
def setSize (din : DiskInode) (size : Nat) : DiskInode := { din with size := size }

/-- What the inode points to. -/
def pointers (din : DiskInode) : (Fin ndirect -> Nat) × Nat := (din.direct, din.indirect)

theorem setDirect_direct (din : DiskInode) (index : Fin ndirect) (ino : Nat) (other : Fin ndirect) :
    (din.setDirect index ino).direct other = if other = index then ino else din.direct other :=
  Function.update_apply ..

@[simp] theorem setDirect_indirect (din : DiskInode) (index : Fin ndirect) (ino : Nat) :
    (din.setDirect index ino).indirect = din.indirect := rfl

@[simp] theorem setIndirect_indirect (din : DiskInode) (ent : Nat) : (din.setIndirect ent).indirect = ent := rfl

@[simp] theorem setIndirect_direct (din : DiskInode) (ent : Nat) : (din.setIndirect ent).direct = din.direct := rfl

end DiskInode

/-- `sizeof(struct sfs_disk_inode)` -/
def inodeBytes : Nat := 64

/-- The inode as it lies on the disk. -/
def encodeInode (din : DiskInode) : Bytes := fun k =>
  if k < 4 then numberBytes din.size k
  else if k < 6 then numberBytes din.type (k - 4)
  else if k < 8 then numberBytes din.nlinks (k - 6)
  else if k < 12 then numberBytes din.blocks (k - 8)
  else if inTable : k < 60 then
    numberBytes (din.direct ⟨(k - 12) / 4, by unfold ndirect; omega⟩) ((k - 12) % 4)
  else numberBytes din.indirect (k - 60)

def decodeInode (bytes : Bytes) : DiskInode where
  size := u32At bytes 0
  type := u16At bytes 4
  nlinks := u16At bytes 6
  blocks := u32At bytes 8
  direct := fun index => u32At bytes (12 + 4 * index.val)
  indirect := u32At bytes 60

/-- The fields fit their types, so that writing them to the disk and reading
them again gives the same inode. -/
structure DiskInode.Fits (din : DiskInode) : Prop where
  size : din.size < 2 ^ 32
  type : din.type < 2 ^ 16
  nlinks : din.nlinks < 2 ^ 16
  blocks : din.blocks < 2 ^ 32
  direct : forall index, din.direct index < 2 ^ 32
  indirect : din.indirect < 2 ^ 32

theorem decodeInode_fits (bytes : Bytes) : (decodeInode bytes).Fits where
  size := u32At_lt bytes 0
  type := by
    have first := (bytes 4).toNat_lt
    have second := (bytes (4 + 1)).toNat_lt
    change u16At bytes 4 < 2 ^ 16
    unfold u16At
    omega
  nlinks := by
    have first := (bytes 6).toNat_lt
    have second := (bytes (6 + 1)).toNat_lt
    change u16At bytes 6 < 2 ^ 16
    unfold u16At
    omega
  blocks := u32At_lt bytes 8
  direct := fun index => u32At_lt bytes (12 + 4 * index.val)
  indirect := u32At_lt bytes 60

/-- A field of the inode lies where its bytes were written. -/
theorem splice_inode {din : DiskInode} {block : Bytes} {offset width value : Nat} (bound : offset + width <= 64)
    (written : forall k, k < width -> encodeInode din (offset + k) = numberBytes value k) (k : Nat)
    (low : k < width) : splice block 0 inodeBytes (encodeInode din) (offset + k) = numberBytes value k := by
  unfold splice inodeBytes
  rw [if_pos ⟨Nat.zero_le _, by omega⟩, Nat.sub_zero]
  exact written k low

theorem decode_splice_direct {din : DiskInode} {index : Fin ndirect} (fits : din.direct index < 2 ^ 32)
    (block : Bytes) :
    (decodeInode (splice block 0 inodeBytes (encodeInode din))).direct index = din.direct index := by
  have bound := index.isLt
  unfold ndirect at bound
  apply u32At_of_bytes fits
  apply splice_inode (by omega)
  intro k low
  unfold encodeInode
  rw [if_neg (by omega), if_neg (by omega), if_neg (by omega), if_neg (by omega), dif_pos (by omega)]
  have slot : (12 + 4 * index.val + k - 12) / 4 = index.val := by omega
  have place : (12 + 4 * index.val + k - 12) % 4 = k := by omega
  simp only [slot, place]

theorem decode_splice_indirect {din : DiskInode} (fits : din.indirect < 2 ^ 32) (block : Bytes) :
    (decodeInode (splice block 0 inodeBytes (encodeInode din))).indirect = din.indirect := by
  apply u32At_of_bytes fits
  apply splice_inode (by omega)
  intro k low
  unfold encodeInode
  rw [if_neg (by omega), if_neg (by omega), if_neg (by omega), if_neg (by omega), dif_neg (by omega),
    Nat.add_sub_cancel_left]

theorem decode_splice_size {din : DiskInode} (fits : din.size < 2 ^ 32) (block : Bytes) :
    (decodeInode (splice block 0 inodeBytes (encodeInode din))).size = din.size := by
  apply u32At_of_bytes fits
  apply splice_inode (by omega)
  intro k low
  unfold encodeInode
  rw [if_pos (by omega), Nat.zero_add]

theorem decode_splice_type {din : DiskInode} (fits : din.type < 2 ^ 16) (block : Bytes) :
    (decodeInode (splice block 0 inodeBytes (encodeInode din))).type = din.type := by
  apply u16At_of_bytes fits
  apply splice_inode (by omega)
  intro k low
  unfold encodeInode
  rw [if_neg (by omega), if_pos (by omega), Nat.add_sub_cancel_left]

theorem decode_splice_nlinks {din : DiskInode} (fits : din.nlinks < 2 ^ 16) (block : Bytes) :
    (decodeInode (splice block 0 inodeBytes (encodeInode din))).nlinks = din.nlinks := by
  apply u16At_of_bytes fits
  apply splice_inode (by omega)
  intro k low
  unfold encodeInode
  rw [if_neg (by omega), if_neg (by omega), if_pos (by omega), Nat.add_sub_cancel_left]

theorem decode_splice_blocks {din : DiskInode} (fits : din.blocks < 2 ^ 32) (block : Bytes) :
    (decodeInode (splice block 0 inodeBytes (encodeInode din))).blocks = din.blocks := by
  apply u32At_of_bytes fits
  apply splice_inode (by omega)
  intro k low
  unfold encodeInode
  rw [if_neg (by omega), if_neg (by omega), if_neg (by omega), if_pos (by omega), Nat.add_sub_cancel_left]

/-- An inode is read back from the block it was written to. -/
theorem decode_splice {din : DiskInode} (fits : din.Fits) (block : Bytes) :
    decodeInode (splice block 0 inodeBytes (encodeInode din)) = din := by
  apply DiskInode.ext
  · exact decode_splice_size fits.size block
  · exact decode_splice_type fits.type block
  · exact decode_splice_nlinks fits.nlinks block
  · exact decode_splice_blocks fits.blocks block
  · funext index
    exact decode_splice_direct (fits.direct index) block
  · exact decode_splice_indirect fits.indirect block

/-! ## The super block -/

/-- `struct sfs_super` -/
@[ext]
structure Super where
  magic : Nat
  blocks : Nat
  unusedBlocks : Nat
  info : Fin 32 -> UInt8

/-- `sizeof(struct sfs_super)` -/
def superBytes : Nat := 44

def encodeSuper (super : Super) : Bytes := fun k =>
  if k < 4 then numberBytes super.magic k
  else if k < 8 then numberBytes super.blocks (k - 4)
  else if k < 12 then numberBytes super.unusedBlocks (k - 8)
  else if inInfo : k < 44 then super.info ⟨k - 12, by omega⟩
  else 0

def decodeSuper (bytes : Bytes) : Super where
  magic := u32At bytes 0
  blocks := u32At bytes 4
  unusedBlocks := u32At bytes 8
  info := fun index => bytes (12 + index.val)

structure Super.Fits (super : Super) : Prop where
  magic : super.magic < 2 ^ 32
  blocks : super.blocks < 2 ^ 32
  unusedBlocks : super.unusedBlocks < 2 ^ 32

/-- A super block is read back. -/
theorem decode_super {super : Super} (fits : super.Fits) (block : Bytes) :
    decodeSuper (splice block 0 superBytes (encodeSuper super)) = super := by
  have byte : forall k, k < 44 -> splice block 0 superBytes (encodeSuper super) k = encodeSuper super k := by
    intro k low
    unfold splice superBytes
    rw [if_pos ⟨Nat.zero_le k, by omega⟩, Nat.sub_zero]
  apply Super.ext
  · apply u32At_of_bytes fits.magic
    intro k low
    rw [byte _ (by omega)]
    unfold encodeSuper
    rw [if_pos (by omega), Nat.zero_add]
  · apply u32At_of_bytes fits.blocks
    intro k low
    rw [byte _ (by omega)]
    unfold encodeSuper
    rw [if_neg (by omega), if_pos (by omega), Nat.add_sub_cancel_left]
  · apply u32At_of_bytes fits.unusedBlocks
    intro k low
    rw [byte _ (by omega)]
    unfold encodeSuper
    rw [if_neg (by omega), if_neg (by omega), if_pos (by omega), Nat.add_sub_cancel_left]
  · funext index
    have bound := index.isLt
    change splice block 0 superBytes (encodeSuper super) (12 + index.val) = _
    rw [byte _ (by omega)]
    unfold encodeSuper
    rw [if_neg (by omega), if_neg (by omega), if_neg (by omega), dif_pos (by omega)]
    simp only [Nat.add_sub_cancel_left]

/-! ## The free map -/

/-- The number with the given low bits. -/
def packBits : Nat -> (Nat -> Bool) -> Nat
  | 0, _ => 0
  | count + 1, bit => Nat.bit (bit 0) (packBits count fun index => bit (index + 1))

theorem testBit_packBits {count index : Nat} (low : index < count) (bit : Nat -> Bool) :
    (packBits count bit).testBit index = bit index := by
  induction count generalizing index bit with
  | zero => omega
  | succ count inductionHypothesis =>
      unfold packBits
      cases index with
      | zero => exact Nat.testBit_bit_zero ..
      | succ index =>
          rw [Nat.testBit_bit_succ]
          exact inductionHypothesis (by omega) _

theorem packBits_lt (count : Nat) (bit : Nat -> Bool) : packBits count bit < 2 ^ count := by
  induction count generalizing bit with
  | zero => exact Nat.one_pos
  | succ count inductionHypothesis =>
      have rest := inductionHypothesis fun index => bit (index + 1)
      unfold packBits
      rw [Nat.bit_val, Nat.pow_succ]
      cases bit 0 <;> simp only [Bool.toNat_true, Bool.toNat_false] <;> omega

/-- The bytes of the free map, from its first block on. -/
def freemapBytes (bit : Nat -> Bool) : Bytes := fun k => UInt8.ofNat (packBits 8 fun index => bit (8 * k + index))

def bitOfBytes (bytes : Bytes) (index : Nat) : Bool := (bytes (index / 8)).toNat.testBit (index % 8)

/-- The free map is read back. -/
theorem bit_freemapBytes (bit : Nat -> Bool) (index : Nat) : bitOfBytes (freemapBytes bit) index = bit index := by
  unfold bitOfBytes freemapBytes
  rw [UInt8.toNat_ofNat_of_lt' (packBits_lt 8 _), testBit_packBits (Nat.mod_lt _ (by decide)), Nat.div_add_mod]

end Sfs
end Ucore
