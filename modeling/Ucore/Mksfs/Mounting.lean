import Ucore.Mksfs.Closing
import Ucore.Sfs.Formatted

namespace Ucore
namespace Mksfs

open Library
open Program
open Sfs

/-!
# Mounting the image

The free map of the finished image has the numbers that the counter has not
given out, so that the kernel mounts the image, and every number is held once.
-/

variable {home : HostTree} {start fs : SfsFs}

/-! ## The whole run -/

/-- An image that the writer has finished. -/
def Finished (home : HostTree) (start fs : SfsFs) : Prop :=
  Exists fun filled => Filled home start filled /\ fs = filled.closed

/-- `create_img` packs every tree that fits, and makes no assertion fail. -/
theorem createImg_meets {disk : Nat -> Bytes} (created : Created home disk start) :
    Meets (createImg home.root) start
      ⟨fun _ after => Finished home start after, fun _ _ => ¬ TreeFits start home, fun _ => False⟩ := by
  unfold createImg
  rw [meets_bind]
  refine (openDir_meets created).mono ?_ (fun _ _ refused => refused) (fun _ stopped => stopped)
  intro _ filled holds
  exact closeSfs_meets holds.sound ⟨filled, holds, rfl⟩

theorem createImg_finished {size : Nat} {disk : Nat -> Bytes} {old : Fin 32 -> UInt8}
    (created : createSfs size disk old = some start) (made : createImg home.root start = .done () fs) :
    Finished home start fs := (createImg_meets (createSfs_created home created)).of_done made

/-- The image of a tree that fits is made. -/
theorem createImg_succeeds {size : Nat} {disk : Nat -> Bytes} {old : Fin 32 -> UInt8}
    (created : createSfs size disk old = some start) (fits : TreeFits start home) :
    Exists fun fs => createImg home.root start = .done () fs := by
  have meets := createImg_meets (createSfs_created home created)
  unfold Meets at meets
  cases ran : createImg home.root start with
  | done value after => exact ⟨after, rfl⟩
  | fail error after =>
      rw [ran] at meets
      exact absurd fits meets
  | stop fault =>
      rw [ran] at meets
      exact meets.elim

/-! ## The blocks of the image -/

section Blocks

variable {filled : SfsFs}

theorem mem_mapWrites {write : Nat × Bytes}
    (member : write ∈ (List.range (roundupDiv fs.ninos blkbits)).flatMap fs.mapWrites) :
    Exists fun number => number < roundupDiv fs.ninos blkbits /\ write = (blknFreemap + number,
      writtenBlock (freemapBlock fs.ninos fs.nextIno (number * blkbits)) blksize) := by
  rcases List.mem_flatMap.mp member with ⟨number, low, here⟩
  exact ⟨number, List.mem_range.mp low, List.mem_singleton.mp here⟩

theorem mem_listWrites {write : Nat × Bytes}
    (member : write ∈ (List.range hashListSize).flatMap fs.listWrites) :
    (write.1 ∈ fs.cacheBlocks /\ write.2 = fs.tableBlock write.1) \/
      (write.1 ∈ fs.cacheInodes /\ write.2 = fs.inodeBlock write.1) := by
  rcases List.mem_flatMap.mp member with ⟨bucket, low, here⟩
  rcases List.mem_append.mp here with table | inode
  · rcases List.mem_map.mp table with ⟨cb, listed, rfl⟩
    exact .inl ⟨List.mem_flatMap.mpr ⟨bucket, low, listed⟩, rfl⟩
  · rcases List.mem_map.mp inode with ⟨ino, listed, rfl⟩
    exact .inr ⟨List.mem_flatMap.mpr ⟨bucket, low, listed⟩, rfl⟩

theorem mem_closeWrites {write : Nat × Bytes} : write ∈ fs.closeWrites <->
    write ∈ (List.range (roundupDiv fs.ninos blkbits)).flatMap fs.mapWrites \/
      write = (blknSuper, writtenBlock (encodeSuper fs.super) superBytes) \/
      write ∈ (List.range hashListSize).flatMap fs.listWrites := by
  unfold SfsFs.closeWrites
  rw [List.mem_append, List.mem_append, List.mem_singleton, or_assoc]

/-- What is written to a number: the reserved blocks lie below the others. -/
theorem closeWrites_low (accounted : Accounted fs []) {write : Nat × Bytes}
    (member : write ∈ (List.range hashListSize).flatMap fs.listWrites) :
    write.1 = blknRoot \/ fs.firstIno <= write.1 := by
  rcases mem_listWrites member with ⟨cached, _⟩ | ⟨listed, _⟩
  · rcases (accounted.cached write.1).mp cached with ⟨file, index, held⟩
    exact (accounted.held_bounds held).imp id (fun bounds => bounds.1)
  · exact (accounted.held_bounds (Accounted.holds_inode listed)).imp id (fun bounds => bounds.1)

theorem closed_map (accounted : Accounted fs []) {number : Nat} (low : number < roundupDiv fs.ninos blkbits) :
    fs.closed.disk (blknFreemap + number) = freemapBlock fs.ninos fs.nextIno (number * blkbits) := by
  have whole : writtenBlock (freemapBlock fs.ninos fs.nextIno (number * blkbits)) blksize =
      freemapBlock fs.ninos fs.nextIno (number * blkbits) := if_neg fun different => different rfl
  apply applyWrites_same
  · apply mem_closeWrites.mpr
    refine .inl (List.mem_flatMap.mpr ⟨number, List.mem_range.mpr low, List.mem_singleton.mpr ?_⟩)
    rw [whole]
  · intro write member same
    rcases mem_closeWrites.mp member with map | rfl | listed
    · rcases mem_mapWrites map with ⟨other, _, rfl⟩
      have equal : other = number := Nat.add_left_cancel same
      rw [equal]
      exact whole
    · unfold blknSuper blknFreemap at same
      omega
    · rcases closeWrites_low accounted listed with root | high
      · unfold blknRoot blknFreemap at *
        omega
      · unfold SfsFs.firstIno at high
        omega

theorem closed_super (accounted : Accounted fs []) :
    fs.closed.disk blknSuper = splice (fun _ => 0) 0 superBytes (encodeSuper fs.super) := by
  have part : writtenBlock (encodeSuper fs.super) superBytes =
      splice (fun _ => 0) 0 superBytes (encodeSuper fs.super) := if_pos (by decide)
  apply applyWrites_same
  · rw [← part]
    exact mem_closeWrites.mpr (.inr (.inl rfl))
  · intro write member same
    rcases mem_closeWrites.mp member with map | rfl | listed
    · rcases mem_mapWrites map with ⟨other, _, rfl⟩
      unfold blknSuper blknFreemap at same
      omega
    · exact part
    · rcases closeWrites_low accounted listed with root | high
      · unfold blknRoot blknSuper at *
        omega
      · unfold SfsFs.firstIno blknFreemap blknSuper at *
        omega

/-- A number of the counter is not that of a reserved block. -/
theorem not_reserved (accounted : Accounted fs []) {place : Place} {number : Nat}
    (held : fs.holds place = some number) :
    number ≠ blknSuper /\ forall other, other < roundupDiv fs.ninos blkbits -> number ≠ blknFreemap + other := by
  rcases accounted.held_bounds held with root | bounds
  · unfold blknRoot blknSuper blknFreemap at *
    exact ⟨by omega, fun other _ => by omega⟩
  · unfold SfsFs.firstIno blknSuper blknFreemap at *
    exact ⟨by omega, fun other _ => by omega⟩

theorem closed_inode (accounted : Accounted fs []) {ino : Nat} (listed : ino ∈ fs.cacheInodes) :
    fs.closed.disk ino = fs.inodeBlock ino := by
  have held := Accounted.holds_inode listed
  have other := not_reserved accounted held
  rcases mem_cacheInodes.mp listed with ⟨bucket, low, here⟩
  apply applyWrites_same
  · apply mem_closeWrites.mpr
    refine .inr (.inr (List.mem_flatMap.mpr ⟨bucket, List.mem_range.mpr low, List.mem_append_right _ ?_⟩))
    exact List.mem_map.mpr ⟨ino, here, rfl⟩
  · intro write member same
    rcases mem_closeWrites.mp member with map | rfl | inLists
    · rcases mem_mapWrites map with ⟨number, small, rfl⟩
      exact absurd same.symm (other.2 number small)
    · exact absurd same.symm other.1
    · rcases mem_listWrites inLists with ⟨cached, _⟩ | ⟨_, block⟩
      · rcases (accounted.cached write.1).mp cached with ⟨file, index, table⟩
        rw [same] at table
        exact absurd (accounted.exclusive.once _ _ _ table held) (fun equal => nomatch equal)
      · rw [block, same]

theorem closed_table (accounted : Accounted fs []) {file index cb : Nat}
    (held : fs.holds (.table file index) = some cb) : fs.closed.disk cb = tableBytes (fs.cache cb) := by
  have whole : fs.tableBlock cb = tableBytes (fs.cache cb) := by
    unfold SfsFs.tableBlock writtenBlock
    exact if_neg fun different => different rfl
  have other := not_reserved accounted held
  have cached := (accounted.cached cb).mpr ⟨file, index, held⟩
  rcases List.mem_flatMap.mp cached with ⟨bucket, low, here⟩
  apply applyWrites_same
  · apply mem_closeWrites.mpr
    rw [← whole]
    refine .inr (.inr (List.mem_flatMap.mpr ⟨bucket, low, List.mem_append_left _ ?_⟩))
    exact List.mem_map.mpr ⟨cb, here, rfl⟩
  · intro write member same
    rcases mem_closeWrites.mp member with map | rfl | inLists
    · rcases mem_mapWrites map with ⟨number, small, rfl⟩
      exact absurd same.symm (other.2 number small)
    · exact absurd same.symm other.1
    · rcases mem_listWrites inLists with ⟨_, block⟩ | ⟨listed, _⟩
      · rw [block, same, whole]
      · have inode : fs.holds (.inode write.1) = some cb := by
          rw [Accounted.holds_inode listed, same]
        exact absurd (accounted.exclusive.once _ _ _ held inode) (fun equal => nomatch equal)

/-- The flush leaves the data alone. -/
theorem closed_data (accounted : Accounted fs []) {file index number : Nat}
    (held : fs.holds (.data file index) = some number) : fs.closed.disk number = fs.disk number := by
  have other := not_reserved accounted held
  apply applyWrites_other
  intro write member same
  rcases mem_closeWrites.mp member with map | rfl | inLists
  · rcases mem_mapWrites map with ⟨block, small, rfl⟩
    exact absurd same.symm (other.2 block small)
  · exact absurd same.symm other.1
  · rcases mem_listWrites inLists with ⟨cached, _⟩ | ⟨listed, _⟩
    · rcases (accounted.cached write.1).mp cached with ⟨owner, slot, table⟩
      rw [same] at table
      exact absurd (accounted.exclusive.once _ _ _ held table) (fun equal => nomatch equal)
    · have inode : fs.holds (.inode write.1) = some number := by
        rw [Accounted.holds_inode listed, same]
      exact absurd (accounted.exclusive.once _ _ _ held inode) (fun equal => nomatch equal)

/-- The flush leaves the blocks alone that the counter has not reached. -/
theorem closed_beyond (accounted : Accounted fs []) {number : Nat} (high : fs.nextIno <= number) :
    fs.closed.disk number = fs.disk number := by
  apply applyWrites_other
  intro write member same
  have started := accounted.started
  have above := accounted.root_lt
  rcases mem_closeWrites.mp member with map | rfl | inLists
  · rcases mem_mapWrites map with ⟨block, small, rfl⟩
    unfold SfsFs.firstIno at started
    dsimp only at same
    omega
  · unfold blknSuper at same
    dsimp only at same
    omega
  · rcases mem_listWrites inLists with ⟨cached, _⟩ | ⟨listed, _⟩
    · rcases (accounted.cached write.1).mp cached with ⟨owner, slot, table⟩
      have low := accounted.held_lt table
      omega
    · have low := accounted.inode_lt listed
      omega

end Blocks

/-! ## The free map -/

theorem setBits_apply (start count : Nat) (bit : Nat -> Bool) (index : Nat) :
    setBits start count bit index = (bit index || decide (start <= index /\ index < start + count)) := by
  induction count generalizing start bit with
  | zero =>
      have outside : ¬ (start <= index /\ index < start + 0) := by omega
      rw [setBits, decide_eq_false outside, Bool.or_false]
  | succ count inductionHypothesis =>
      rw [setBits, inductionHypothesis, Function.update_apply]
      by_cases first : index = start
      · have inside : start <= index /\ index < start + (count + 1) := by omega
        rw [if_pos first, decide_eq_true inside, Bool.true_or, Bool.or_true]
      · have same : (start + 1 <= index /\ index < start + 1 + count) <->
            (start <= index /\ index < start + (count + 1)) := by omega
        rw [if_neg first, decide_eq_decide.mpr same]

/-- The bits of a block of the free map: the range is clipped at both ends. -/
theorem freemapBlock_bit {ninos nextIno base index : Nat} (low : index < blkbits) (ordered : nextIno <= ninos)
    (started : base < ninos) :
    bitOfBytes (freemapBlock ninos nextIno base) index =
      decide (nextIno <= base + index /\ base + index < ninos) := by
  unfold freemapBlock
  split
  · dsimp only
    rw [bit_freemapBytes, setBits_apply, Bool.false_or, decide_eq_decide]
    split <;> split <;> omega
  · rename_i before
    have outside : ¬ (nextIno <= base + index /\ base + index < ninos) := by omega
    rw [decide_eq_false outside]
    unfold bitOfBytes
    exact Nat.zero_testBit _

namespace SfsFs

/-- A bit of the free map, as it lies on the disk. -/
def mapBit (fs : SfsFs) (number : Nat) : Bool :=
  bitOfBytes (fs.disk (blknFreemap + number / blkbits)) (number % blkbits)

end SfsFs

theorem closed_mapBit (accounted : Accounted fs []) {number : Nat}
    (low : number < roundupDiv fs.ninos blkbits * blkbits) :
    fs.closed.mapBit number = decide (fs.nextIno <= number /\ number < fs.ninos) := by
  have block : number / blkbits < roundupDiv fs.ninos blkbits := Nat.div_lt_of_lt_mul (by rwa [Nat.mul_comm])
  have inside : number % blkbits < blkbits := Nat.mod_lt _ (by decide)
  have whole := Nat.div_add_mod number blkbits
  have started : number / blkbits * blkbits < fs.ninos := by
    unfold roundupDiv blkbits at *
    omega
  unfold SfsFs.mapBit
  rw [closed_map accounted block, freemapBlock_bit inside accounted.next_le started, Nat.mul_comm, whole]

end Mksfs
end Ucore
