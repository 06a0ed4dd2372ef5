import Ucore.Sfs.Extent

namespace Ucore
namespace Sfs

open Library
open Program
open SfsFs

/-!
# Files apart

What is done to one file leaves the others as they are: their inodes, their
block maps and their bytes, whether they are in memory or on the disk.
-/

/-- The place is one of a file. -/
def Place.Of (ino : Nat) : Place -> Prop
  | .reserved _ => False
  | .inode other => other = ino
  | .direct other _ => other = ino
  | .indirect other => other = ino
  | .entry other _ => other = ino

namespace SfsFs

/-- A byte of a file, zero where the map has no block -/
def byteIn (fs : SfsFs) (din : DiskInode) (k : Nat) : UInt8 :=
  if fs.blockOf din (k / blksize) = 0 then 0 else fs.device.block (fs.blockOf din (k / blksize)) (k % blksize)

/-- The inode of a file, its map and its bytes are what they were. -/
structure Same (fs : SfsFs) (ino : Nat) (after : SfsFs) : Prop where
  din : after.dinOf ino = fs.dinOf ino
  map : after.blockOf (fs.dinOf ino) = fs.blockOf (fs.dinOf ino)
  bytes : after.byteIn (fs.dinOf ino) = fs.byteIn (fs.dinOf ino)

variable {fs middle after : SfsFs} {files : List Nat} {sin ino : Nat}

theorem Same.refl (fs : SfsFs) (ino : Nat) : Same fs ino fs := ⟨rfl, rfl, rfl⟩

theorem Same.trans (first : Same fs ino middle) (second : Same middle ino after) : Same fs ino after where
  din := second.din.trans first.din
  map := by
    have map := second.map
    rw [first.din] at map
    exact map.trans first.map
  bytes := by
    have bytes := second.bytes
    rw [first.din] at bytes
    exact bytes.trans first.bytes

theorem Same.full (same : Same fs ino after) (full : fs.Full (fs.dinOf ino)) : after.Full (after.dinOf ino) := by
  rw [same.din]
  refine ⟨full.reached, fun index => ?_⟩
  rw [same.map]
  exact full.present index

theorem holds_pointer (member : ino ∈ files) (indexed : (fs.dinOf ino).indirect ≠ 0) :
    fs.holds files (.indirect ino) = some (fs.dinOf ino).indirect :=
  (if_pos member).trans (entryBlock_eq_some.mpr ⟨rfl, indexed⟩)

/-- A block of a file, in memory or not, is held by its place in the map. -/
theorem holds_data (member : ino ∈ files) {index : Nat} (present : fs.blockOf (fs.dinOf ino) index ≠ 0) :
    fs.holds files (dataPlace ino index) = some (fs.blockOf (fs.dinOf ino) index) := by
  unfold blockOf dataPlace at *
  by_cases direct : index < ndirect
  · rw [dif_pos direct] at present ⊢
    rw [dif_pos direct, holds, if_pos member]
    exact entryBlock_eq_some.mpr ⟨rfl, present⟩
  · rw [dif_neg direct] at present ⊢
    rw [dif_neg direct]
    by_cases inTable : index - ndirect < blkNentry /\ (fs.dinOf ino).indirect ≠ 0
    · rw [if_pos inTable] at present ⊢
      rw [holds, if_pos ⟨member, inTable.2, inTable.1⟩]
      exact entryBlock_eq_some.mpr ⟨rfl, present⟩
    · rw [if_neg inTable] at present
      exact absurd rfl present

theorem dataPlace_of (ino index : Nat) : (dataPlace ino index).Of ino /\ (dataPlace ino index).IsData := by
  unfold dataPlace
  split
  · exact ⟨rfl, trivial⟩
  · exact ⟨rfl, trivial⟩

/-- A file is what it was if its inode is and its blocks keep their contents. -/
theorem Same.of_held (member : ino ∈ files) (din : after.dinOf ino = fs.dinOf ino)
    (content : forall place blkno, place.Of ino -> ¬ place.IsFixed -> fs.holds files place = some blkno ->
      after.device.block blkno = fs.device.block blkno) : Same fs ino after := by
  have map : after.blockOf (fs.dinOf ino) = fs.blockOf (fs.dinOf ino) := by
    funext index
    refine blockOf_congr ?_ index
    by_cases indexed : (fs.dinOf ino).indirect = 0
    · exact .inr indexed
    · have own : (Place.indirect ino).Of ino := rfl
      exact .inl (content _ _ own (fun fixed => fixed) (holds_pointer member indexed))
  refine ⟨din, map, ?_⟩
  funext k
  unfold byteIn
  rw [map]
  split
  · rfl
  · next present =>
      have place := dataPlace_of ino (k / blksize)
      rw [content _ _ place.1 (fun fixed => fixed.not_data place.2) (holds_data member present)]

/-- The inode of a file, if that in memory and its block are what they were. -/
theorem dinOf_congr (listed : ino ∈ after.inodeList <-> ino ∈ fs.inodeList) (inode : after.inode ino = fs.inode ino)
    (block : after.device.block ino = fs.device.block ino) : after.dinOf ino = fs.dinOf ino := by
  unfold dinOf
  rw [inode, block]
  exact if_congr listed rfl rfl

/-! ## Edits of another file -/

/-- The blocks of the other files and their inodes keep their contents. -/
theorem Edit.otherBlock (edit : Edit files sin fs after) (owned : fs.Owned files) (loaded : sin ∈ fs.inodeList)
    (different : ino ≠ sin) {place : Place} (own : place.Of ino) {blkno : Nat}
    (held : fs.holds files place = some blkno) : after.device.block blkno = fs.device.block blkno := by
  have member := owned.loaded sin loaded
  have used := owned.inUse held
  -- no place of the file is one of the other file
  have apart : forall other : Place, other.Of sin -> fs.holds files other ≠ some blkno := by
    intro other theirs holding
    have equal := owned.accounted.exclusive.once _ _ _ held holding
    subst equal
    cases place with
    | reserved _ => exact own
    | inode _ => exact different (own.symm.trans theirs)
    | direct _ _ => exact different (own.symm.trans theirs)
    | indirect _ => exact different (own.symm.trans theirs)
    | entry _ _ => exact different (own.symm.trans theirs)
  have indirect : blkno ≠ (fs.inode sin).din.indirect \/ blkno = 0 := by
    by_cases indexed : (fs.inode sin).din.indirect = 0
    · rw [indexed]
      exact Decidable.em _ |>.symm
    · refine .inl fun same => ?_
      rw [← dinOf_loaded loaded] at indexed same
      have theirs : (Place.indirect sin).Of sin := rfl
      exact apart _ theirs (same ▸ holds_pointer member indexed)
  cases edit with
  | quiet quiet => exact quiet.used blkno used
  | add grown _ => exact grown.used blkno used indirect
  | keep => rfl
  | remove removed _ => exact removed.used blkno used indirect
  | @write index present data =>
      refine Function.update_of_ne (fun same => ?_) ..
      exact apart _ (dataPlace_of sin index).1 (same ▸ owned.holds_dataPlace loaded present)

theorem Edit.same (edit : Edit files sin fs after) (owned : fs.Owned files) (loaded : sin ∈ fs.inodeList)
    (member : ino ∈ files) (different : ino ≠ sin) : Same fs ino after := by
  have frame := edit.framed
  have own : (Place.inode ino).Of ino := rfl
  have held : fs.holds files (.inode ino) = some ino := if_pos member
  refine .of_held member (dinOf_congr ?_ (frame.others ino different) ?_) ?_
  · rw [frame.inodeList]
  · exact edit.otherBlock owned loaded different own held
  · exact fun place blkno own _ held => edit.otherBlock owned loaded different own held

theorem Edited.same (edited : Edited files sin fs after) (owned : fs.Owned files) (loaded : sin ∈ fs.inodeList)
    (member : ino ∈ files) (different : ino ≠ sin) : Same fs ino after := by
  induction edited with
  | refl => exact Same.refl fs ino
  | tail edits edit inductionHypothesis =>
      have stillLoaded := (Edited.framed edits).inodeList ▸ loaded
      exact inductionHypothesis.trans (edit.same (Edited.owned edits owned loaded) stillLoaded member different)

theorem setInode_same (fs : SfsFs) (different : ino ≠ sin) (value : Inode) : Same fs ino (fs.setInode sin value) :=
  ⟨dinOf_congr Iff.rfl (inode_setInode_of_ne fs different value) rfl, rfl, rfl⟩

theorem Changed.same {allowed : Nat -> Prop} (changed : Changed files sin allowed fs after) (owned : fs.Owned files)
    (loaded : sin ∈ fs.inodeList) (member : ino ∈ files) (different : ino ≠ sin) : Same fs ino after := by
  rcases changed with ⟨middle, edited, rfl | ⟨size, _, rfl⟩⟩
  · exact Edited.same edited owned loaded member different
  · exact (Edited.same edited owned loaded member different).trans (setInode_same middle different _)

theorem Changed.others {allowed : Nat -> Prop} (changed : Changed files sin allowed fs after) (different : ino ≠ sin) :
    after.inode ino = fs.inode ino := by
  rcases changed with ⟨middle, edited, rfl | ⟨size, _, rfl⟩⟩
  · exact (Edited.framed edited).others ino different
  · exact (inode_setInode_of_ne middle different _).trans ((Edited.framed edited).others ino different)

theorem Changed.counts {allowed : Nat -> Prop} (changed : Changed files sin allowed fs after) :
    (after.inode sin).refCount = (fs.inode sin).refCount /\
      (after.inode sin).reclaimCount = (fs.inode sin).reclaimCount := by
  rcases changed with ⟨middle, edited, rfl | ⟨size, _, rfl⟩⟩
  · exact (Edited.framed edited).counts
  · rw [inode_setMap]
    exact (Edited.framed edited).counts

/-- The blocks of the fixed places keep their contents. -/
theorem Changed.fixedBlock {allowed : Nat -> Prop} (changed : Changed files sin allowed fs after)
    (owned : fs.Owned files) (loaded : sin ∈ fs.inodeList) {place : Place} (fixed : place.IsFixed) {blkno : Nat}
    (held : fs.holds files place = some blkno) : after.device.block blkno = fs.device.block blkno := by
  rcases changed with ⟨middle, edited, rfl | ⟨size, _, rfl⟩⟩
  · exact Edited.fixedBlock edited owned loaded fixed held
  · exact Edited.fixedBlock edited owned loaded fixed held

end SfsFs

end Sfs
end Ucore
