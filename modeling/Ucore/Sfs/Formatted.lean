import Ucore.Sfs.Keeping

namespace Ucore
namespace Sfs

open Library
open Program
open SfsFs

/-!
# A formatted volume

A volume as `mksfs` writes it: the root directory in block 1, the free map in
block 2, and one empty file, whose inode is block 3 and whose name in the root
directory is block 4.
-/

/-- The root directory, with one entry. -/
def rootInode : DiskInode where
  size := blksize
  type := typeDir
  blocks := 1
  direct := fun index => if index.val = 0 then 4 else 0

def formattedSuper (blocks : Nat) : Super := ⟨sfsMagic, blocks, blocks - 5, fun _ => 0⟩

def formattedBit (blocks index : Nat) : Bool := decide (5 <= index /\ index < blocks)

def formattedBlock (blocks : Nat) : Nat -> Bytes
  | 0 => splice (fun _ => 0) 0 superBytes (encodeSuper (formattedSuper blocks))
  | 1 => splice (fun _ => 0) 0 inodeBytes (encodeInode rootInode)
  | 2 => freemapBytes (formattedBit blocks)
  | 3 => splice (fun _ => 0) 0 inodeBytes (encodeInode {})
  | 4 => fun k => if k = 0 then 3 else if k = 4 then 97 else 0
  | _ => fun _ => 0

def formatted (blocks : Nat) (error : Nat -> Option Errno) : Device :=
  ⟨blocks, blksize, formattedBlock blocks, 0, error⟩

/-- The volume in memory after mounting. -/
def mountedVolume (blocks : Nat) (error : Nat -> Option Errno) : SfsFs where
  super := formattedSuper blocks
  freemap := ⟨blkbits, formattedBit blocks⟩
  superDirty := false
  inodeList := []
  inode := fun _ => ⟨{}, false, 0, 0⟩
  device := ⟨blocks, blksize, formattedBlock blocks, 2, error⟩

/-- The numbers of an interval among the first ones. -/
theorem countP_interval (low high : Nat) (count : Nat) :
    (List.range count).countP (fun index => decide (low <= index /\ index < high)) = min count high - low := by
  induction count with
  | zero => rw [List.range_zero, List.countP_nil, Nat.zero_min, Nat.zero_sub]
  | succ count inductionHypothesis =>
      rw [List.range_succ, List.countP_append, inductionHypothesis, List.countP_singleton]
      by_cases inside : low <= count /\ count < high
      · rw [if_pos (decide_eq_true inside)]
        omega
      · rw [if_neg (by rw [decide_eq_true_iff]; exact inside)]
        omega

variable {blocks : Nat} {error : Nat -> Option Errno}

theorem formattedSuper_fits (small : blocks <= blkbits) : (formattedSuper blocks).Fits := by
  unfold blkbits at small
  refine ⟨?_, ?_, ?_⟩
  · change sfsMagic < 2 ^ 32
    decide
  · change blocks < 2 ^ 32
    omega
  · change blocks - 5 < 2 ^ 32
    omega

theorem freemapBlocks_formatted (room : 5 <= blocks) (small : blocks <= blkbits) :
    freemapBlocks (formattedSuper blocks) = 1 := by
  change roundupDiv blocks blkbits = 1
  unfold roundupDiv
  unfold blkbits at *
  omega

theorem initRead_fine {device : Device} {blkno : Nat} (fine : device.error device.transfers = none)
    (low : blkno < maxNblks) :
    initRead device blkno = (.ok (device.block blkno), { device with transfers := device.transfers + 1 }) := by
  unfold initRead
  rw [fine, position low]

/-- A formatted volume can be mounted. -/
theorem formatted_mounts (room : 5 <= blocks) (small : blocks <= blkbits) (readSuper : error 0 = none)
    (readFreemap : error 1 = none) : doMount (formatted blocks error) = some (.ok (mountedVolume blocks error)) := by
  have super : decodeSuper (formattedBlock blocks 0) = formattedSuper blocks :=
    decode_super (formattedSuper_fits small) _
  have map := freemapBlocks_formatted room small
  have bit : forall index, index < blkbits ->
      bitOfBytes (splice (fun _ => 0xFF) 0 blksize (formattedBlock blocks 2)) index = formattedBit blocks index := by
    intro index low
    have inside : index / 8 < 0 + blksize := by
      unfold blkbits at low
      unfold blksize
      omega
    unfold bitOfBytes splice
    rw [if_pos ⟨Nat.zero_le _, inside⟩, Nat.sub_zero]
    exact bit_freemapBytes _ index
  have restricted : (fun index => decide (index < blkbits) &&
      bitOfBytes (splice (fun _ => 0xFF) 0 blksize (formattedBlock blocks 2)) index) = formattedBit blocks := by
    funext index
    by_cases low : index < blkbits
    · rw [decide_eq_true low, Bool.true_and, bit index low]
    · rw [decide_eq_false low, Bool.false_and]
      symm
      apply decide_eq_false
      omega
  have counted : (List.range blkbits).countP
      (fun index => bitOfBytes (splice (fun _ => 0xFF) 0 blksize (formattedBlock blocks 2)) index) =
      (formattedSuper blocks).unusedBlocks := by
    have same : (List.range blkbits).countP
        (fun index => bitOfBytes (splice (fun _ => 0xFF) 0 blksize (formattedBlock blocks 2)) index) =
        (List.range blkbits).countP (formattedBit blocks) :=
      List.countP_congr fun index member => by rw [bit index (List.mem_range.mp member)]
    have interval : (List.range blkbits).countP (formattedBit blocks) = min blkbits blocks - 5 :=
      countP_interval 5 blocks blkbits
    rw [same, interval, Nat.min_eq_right small]
    rfl
  have first : initRead (formatted blocks error) blknSuper =
      (.ok (formattedBlock blocks 0), { formatted blocks error with transfers := 1 }) :=
    initRead_fine readSuper (by decide)
  have second : initFreemap 1 blknFreemap 0 (fun _ => 0xFF) { formatted blocks error with transfers := 1 } =
      (.ok (splice (fun _ => 0xFF) 0 blksize (formattedBlock blocks 2)),
        { formatted blocks error with transfers := 2 }) := by
    have read : initRead { formatted blocks error with transfers := 1 } blknFreemap =
        (.ok (formattedBlock blocks 2), { formatted blocks error with transfers := 2 }) :=
      initRead_fine readFreemap (by decide)
    unfold initFreemap
    rw [read]
    rfl
  have fits : ¬ (formatted blocks error).dBlocks < (formattedSuper blocks).blocks := Nat.lt_irrefl blocks
  unfold doMount
  rw [if_neg (fun different => different rfl), first]
  dsimp only
  rw [super, map, second, if_neg (fun different => different rfl), if_neg fits, Nat.one_mul,
    if_neg (by decide)]
  dsimp only
  rw [restricted, counted, if_pos rfl]
  have ended : (formattedSuper blocks).terminate = formattedSuper blocks := by
    apply Super.ext
    · rfl
    · rfl
    · rfl
    · exact Function.update_eq_self_iff.mpr rfl
  rw [ended]
  rfl

/-! ## Its files -/

theorem rootInode_fits : rootInode.Fits := by
  unfold rootInode
  refine ⟨by decide, by decide, by decide, by decide, ?_, by decide⟩
  intro index
  dsimp only
  split <;> decide

theorem emptyInode_fits : ({} : DiskInode).Fits :=
  ⟨by decide, by decide, by decide, by decide, fun _ => Nat.two_pow_pos 32, by decide⟩

/-- The files are the root directory and the empty file. -/
def formattedFiles : List Nat := [blknRoot, 3]

theorem dinOf_root : (mountedVolume blocks error).dinOf blknRoot = rootInode := decode_splice rootInode_fits _

theorem dinOf_file : (mountedVolume blocks error).dinOf 3 = {} := decode_splice emptyInode_fits _

/-- The places that refer to blocks. -/
theorem holds_formatted (room : 5 <= blocks) (small : blocks <= blkbits) {place : Place} {blkno : Nat}
    (held : (mountedVolume blocks error).holds formattedFiles place = some blkno) :
    (place = .reserved blkno /\ (blkno = 0 \/ blkno = 2)) \/ (place = .inode blkno /\ (blkno = 1 \/ blkno = 3)) \/
      (place = .direct blknRoot ⟨0, by decide⟩ /\ blkno = 4) := by
  have map : freemapBlocks (mountedVolume blocks error).super = 1 := freemapBlocks_formatted room small
  have file : forall ino, ino ∈ formattedFiles -> ino = blknRoot \/ ino = 3 := by
    intro ino listed
    rcases List.mem_cons.mp listed with root | rest
    · exact .inl root
    · exact .inr (List.mem_singleton.mp rest)
  cases place with
  | reserved number =>
      rw [holds, map] at held
      split at held
      · rename_i reserved
        cases held
        unfold blknSuper blknFreemap at reserved
        exact .inl ⟨rfl, by omega⟩
      · cases held
  | inode ino =>
      rw [holds] at held
      split at held
      · rename_i listed
        cases held
        exact .inr (.inl ⟨rfl, file _ listed⟩)
      · cases held
  | direct ino index =>
      rw [holds] at held
      split at held
      · rename_i listed
        rcases file ino listed with rfl | rfl
        · rw [dinOf_root, entryBlock_eq_some] at held
          change (if index.val = 0 then 4 else 0) = blkno /\ _ at held
          by_cases first : index.val = 0
          · rw [if_pos first] at held
            exact .inr (.inr ⟨congrArg (Place.direct blknRoot) (Fin.ext first), held.1.symm⟩)
          · rw [if_neg first] at held
            exact absurd held.1.symm held.2
        · rw [dinOf_file] at held
          cases held
      · cases held
  | indirect ino =>
      rw [holds] at held
      split at held
      · rename_i listed
        rcases file ino listed with rfl | rfl
        · rw [dinOf_root] at held
          cases held
        · rw [dinOf_file] at held
          cases held
      · cases held
  | entry ino index =>
      rw [holds] at held
      split at held
      · rename_i all
        rcases file ino all.1 with rfl | rfl
        · rw [dinOf_root] at all
          exact absurd rfl all.2.1
        · rw [dinOf_file] at all
          exact absurd rfl all.2.1
      · cases held

theorem formatted_consistent (room : 5 <= blocks) (small : blocks <= blkbits) :
    (mountedVolume blocks error).Consistent formattedFiles where
  exclusive := {
    once := by
      intro first second blkno firstHolds secondHolds
      rcases holds_formatted room small firstHolds with ⟨rfl, one⟩ | ⟨rfl, one⟩ | ⟨rfl, one⟩ <;>
        rcases holds_formatted room small secondHolds with ⟨rfl, two⟩ | ⟨rfl, two⟩ | ⟨rfl, two⟩ <;>
        first | rfl | omega
    inUse := by
      intro place blkno held free
      have low : 5 <= blkno := (of_decide_eq_true free).1
      rcases holds_formatted room small held with ⟨_, one⟩ | ⟨_, one⟩ | ⟨_, one⟩ <;> omega }
  inRange := by
    intro place blkno held
    change blkno < blocks
    rcases holds_formatted room small held with ⟨_, one⟩ | ⟨_, one⟩ | ⟨_, one⟩ <;> omega
  bits := fun index set => (of_decide_eq_true set).2
  small := by
    change blocks <= maxNblks
    unfold blkbits at small
    unfold maxNblks
    omega

end Sfs
end Ucore
