import Mathlib.Data.List.Count
import Ucore.Library.Ownership
import Ucore.Sfs.File

namespace Ucore
namespace Sfs

open Library

/-!
# Who holds which block

The places that refer to blocks are the super block and the free map, the
inodes, their direct entries, their indirect blocks, and the entries of
these.  The inode of a loaded file is the one in memory, and that of another
file lies in its block.

Most of what the operations do along the way changes none of this: they read,
and they write to blocks that were free.  Such steps are called quiet.
-/

inductive Place where
  | reserved (blkno : Nat)
  | inode (ino : Nat)
  | direct (ino : Nat) (index : Fin ndirect)
  | indirect (ino : Nat)
  | entry (ino index : Nat)
deriving DecidableEq

/-- The place refers to a block with the bytes of a file. -/
def Place.IsData : Place -> Prop
  | .direct _ _ => True
  | .entry _ _ => True
  | _ => False

/-- The place never refers to another block. -/
def Place.IsFixed : Place -> Prop
  | .reserved _ => True
  | .inode _ => True
  | _ => False

theorem Place.IsFixed.not_data {place : Place} (fixed : place.IsFixed) : ¬ place.IsData := by
  cases place with
  | reserved _ => exact id
  | inode _ => exact id
  | direct _ _ => exact fixed.elim
  | indirect _ => exact fixed.elim
  | entry _ _ => exact fixed.elim

/-- A block number of an entry; 0 is none. -/
def entryBlock (blkno : Nat) : Option Nat := if blkno = 0 then none else some blkno

theorem entryBlock_eq_some {blkno found : Nat} : entryBlock blkno = some found <-> blkno = found /\ found ≠ 0 := by
  unfold entryBlock
  split
  · rename_i zero
    exact iff_of_false (fun absent => nomatch absent) (fun both => both.2 (both.1 ▸ zero))
  · rename_i positive
    rw [Option.some.injEq]
    exact ⟨fun same => ⟨same, same ▸ positive⟩, fun both => both.1⟩

namespace SfsFs

/-- The inode of a file. -/
def dinOf (fs : SfsFs) (ino : Nat) : DiskInode :=
  if ino ∈ fs.inodeList then (fs.inode ino).din else decodeInode (fs.device.block ino)

/-- The entry of an indirect block. -/
def entryOf (fs : SfsFs) (ent index : Nat) : Nat := u32At (fs.device.block ent) (index * 4)

/-- The block of a file, 0 for none. -/
def blockOf (fs : SfsFs) (din : DiskInode) (index : Nat) : Nat :=
  if direct : index < ndirect then din.direct ⟨index, direct⟩
  else if index - ndirect < blkNentry /\ din.indirect ≠ 0 then fs.entryOf din.indirect (index - ndirect)
  else 0

/-- The block that a place refers to. -/
def holds (fs : SfsFs) (files : List Nat) : Place -> Option Nat
  | .reserved blkno =>
      if blkno = blknSuper \/ (blknFreemap <= blkno /\ blkno < blknFreemap + freemapBlocks fs.super) then some blkno
      else none
  | .inode ino => if ino ∈ files then some ino else none
  | .direct ino index => if ino ∈ files then entryBlock ((fs.dinOf ino).direct index) else none
  | .indirect ino => if ino ∈ files then entryBlock (fs.dinOf ino).indirect else none
  | .entry ino index =>
      if ino ∈ files /\ (fs.dinOf ino).indirect ≠ 0 /\ index < blkNentry then
        entryBlock (fs.entryOf (fs.dinOf ino).indirect index)
      else none

end SfsFs

/-! ## Counting bits -/

/-- The number of set bits. -/
def Bitmap.count (bitmap : Bitmap) : Nat := (List.range bitmap.nbits).countP bitmap.bit

theorem countP_update (bit : Nat -> Bool) (index : Nat) (count : Nat) :
    (List.range count).countP (Function.update bit index false) + (if index < count /\ bit index = true then 1 else 0) =
      (List.range count).countP bit := by
  induction count with
  | zero => simp
  | succ count inductionHypothesis =>
      rw [List.range_succ, List.countP_append, List.countP_append, ← inductionHypothesis]
      simp only [List.countP_singleton]
      by_cases last : count = index
      · subst last
        rw [Function.update_self]
        cases bit count <;> simp
      · rw [Function.update_of_ne last]
        have same : (index < count + 1 /\ bit index = true) <-> (index < count /\ bit index = true) :=
          and_congr_left fun _ => by omega
        simp only [same]
        omega

theorem Bitmap.count_clear {bitmap : Bitmap} {index : Nat} (low : index < bitmap.nbits)
    (set : bitmap.bit index = true) :
    Bitmap.count { bitmap with bit := Function.update bitmap.bit index false } + 1 = bitmap.count := by
  have counted := countP_update bitmap.bit index bitmap.nbits
  rw [if_pos ⟨low, set⟩] at counted
  exact counted

theorem Bitmap.count_set {bitmap : Bitmap} {index : Nat} (low : index < bitmap.nbits)
    (clear : bitmap.bit index = false) :
    Bitmap.count { bitmap with bit := Function.update bitmap.bit index true } = bitmap.count + 1 := by
  have counted := countP_update (Function.update bitmap.bit index true) index bitmap.nbits
  rw [Function.update_idem, Function.update_self, if_pos ⟨low, rfl⟩,
    Function.update_eq_self_iff.mpr clear.symm] at counted
  exact counted.symm

/-! ## Ownership -/

/-- No block is referred to twice, the blocks referred to are in use and lie
on the volume, and `unused_blocks` counts the others. -/
structure Accounted (held : Place -> Option Nat) (super : Super) (freemap : Bitmap) : Prop where
  exclusive : Exclusive held (fun blkno => freemap.bit blkno = true)
  inRange : forall place blkno, held place = some blkno -> blkno < super.blocks
  bits : forall index, freemap.bit index = true -> index < super.blocks
  mapped : super.blocks <= freemap.nbits
  counted : super.unusedBlocks = freemap.count
  small : super.blocks <= maxNblks

/-- The ownership of a volume with the given files. -/
structure SfsFs.Owned (fs : SfsFs) (files : List Nat) : Prop where
  accounted : Accounted (fs.holds files) fs.super fs.freemap
  loaded : forall ino, ino ∈ fs.inodeList -> ino ∈ files

namespace SfsFs

theorem Owned.inUse {fs : SfsFs} {files : List Nat} (owned : fs.Owned files) {place : Place} {blkno : Nat}
    (held : fs.holds files place = some blkno) : fs.freemap.bit blkno = false :=
  Bool.eq_false_iff.mpr (owned.accounted.exclusive.inUse place blkno held)

theorem Owned.inode_inUse {fs : SfsFs} {files : List Nat} (owned : fs.Owned files) {ino : Nat}
    (member : ino ∈ files) : fs.freemap.bit ino = false := by
  have held : fs.holds files (.inode ino) = some ino := if_pos member
  exact owned.inUse held

theorem holds_super (fs : SfsFs) (files : List Nat) : fs.holds files (.reserved blknSuper) = some blknSuper := by
  unfold holds
  exact if_pos (.inl rfl)

theorem Owned.super_inUse {fs : SfsFs} {files : List Nat} (owned : fs.Owned files) :
    fs.freemap.bit blknSuper = false :=
  owned.inUse (fs.holds_super files)

theorem Owned.indirect_inUse {fs : SfsFs} {files : List Nat} (owned : fs.Owned files) {ino : Nat}
    (member : ino ∈ files) (positive : (fs.dinOf ino).indirect ≠ 0) :
    fs.freemap.bit (fs.dinOf ino).indirect = false := by
  have held : fs.holds files (.indirect ino) = some (fs.dinOf ino).indirect :=
    (if_pos member).trans (entryBlock_eq_some.mpr ⟨rfl, positive⟩)
  exact owned.inUse held

/-- A block that is read or written: not the super block, and on the volume. -/
def Valid (fs : SfsFs) (blkno : Nat) : Prop :=
  blkno ≠ 0 /\ blkno < fs.super.blocks /\ fs.super.blocks <= maxNblks

theorem Owned.valid {fs : SfsFs} {files : List Nat} (owned : fs.Owned files) {place : Place} {blkno : Nat}
    (held : fs.holds files place = some blkno) (other : place ≠ .reserved blknSuper) : fs.Valid blkno := by
  refine ⟨?_, owned.accounted.inRange place blkno held, owned.accounted.small⟩
  rintro rfl
  exact other (owned.accounted.exclusive.once place (.reserved blknSuper) 0 held (fs.holds_super files))

theorem Owned.valid_of_free {fs : SfsFs} {files : List Nat} (owned : fs.Owned files) {blkno : Nat}
    (free : fs.freemap.bit blkno = true) : fs.Valid blkno := by
  refine ⟨?_, owned.accounted.bits blkno free, owned.accounted.small⟩
  rintro rfl
  have used := owned.super_inUse
  rw [blknSuper, free] at used
  cases used

/-- Ownership depends on the pointers of the inodes and on the index blocks. -/
theorem holds_congr {fs after : SfsFs} {files : List Nat}
    (layout : after.super.blocks = fs.super.blocks)
    (pointers : forall ino, ino ∈ files -> (after.dinOf ino).pointers = (fs.dinOf ino).pointers)
    (entries : forall ino, ino ∈ files -> (fs.dinOf ino).indirect ≠ 0 -> forall index,
      after.entryOf (fs.dinOf ino).indirect index = fs.entryOf (fs.dinOf ino).indirect index) :
    after.holds files = fs.holds files := by
  have direct : forall ino, ino ∈ files -> (after.dinOf ino).direct = (fs.dinOf ino).direct :=
    fun ino member => congrArg Prod.fst (pointers ino member)
  have indirect : forall ino, ino ∈ files -> (after.dinOf ino).indirect = (fs.dinOf ino).indirect :=
    fun ino member => congrArg Prod.snd (pointers ino member)
  funext place
  cases place with
  | reserved blkno => rw [holds, holds, freemapBlocks, freemapBlocks, layout]
  | inode ino => rfl
  | direct ino index =>
      rw [holds, holds]
      by_cases member : ino ∈ files
      · rw [if_pos member, if_pos member, direct ino member]
      · rw [if_neg member, if_neg member]
  | indirect ino =>
      rw [holds, holds]
      by_cases member : ino ∈ files
      · rw [if_pos member, if_pos member, indirect ino member]
      · rw [if_neg member, if_neg member]
  | entry ino index =>
      rw [holds, holds]
      by_cases member : ino ∈ files
      · rw [indirect ino member]
        by_cases indexed : (fs.dinOf ino).indirect ≠ 0
        · rw [entries ino member indexed]
        · rw [if_neg (fun all => indexed all.2.1), if_neg (fun all => indexed all.2.1)]
      · rw [if_neg (fun all => member all.1), if_neg (fun all => member all.1)]

/-! ## Quiet steps -/

/-- Inodes and blocks in use stay; free blocks may be written and lost. -/
structure Quiet (fs after : SfsFs) : Prop where
  inode : after.inode = fs.inode
  inodeList : after.inodeList = fs.inodeList
  fixed : { after.super with unusedBlocks := 0 } = { fs.super with unusedBlocks := 0 }
  nbits : after.freemap.nbits = fs.freemap.nbits
  error : after.device.error = fs.device.error
  used : forall blkno, fs.freemap.bit blkno = false -> after.device.block blkno = fs.device.block blkno
  fewer : forall index, after.freemap.bit index = true -> fs.freemap.bit index = true
  counted : fs.super.unusedBlocks = fs.freemap.count -> after.super.unusedBlocks = after.freemap.count
  clean : after.superDirty = false ->
    fs.superDirty = false /\ after.super = fs.super /\ after.freemap = fs.freemap
  later : fs.device.transfers <= after.device.transfers

namespace Quiet

variable {fs middle after : SfsFs} {files : List Nat}

theorem refl (fs : SfsFs) : Quiet fs fs :=
  ⟨rfl, rfl, rfl, rfl, rfl, fun _ _ => rfl, fun _ set => set, id, fun clean => ⟨clean, rfl, rfl⟩, Nat.le_refl _⟩

theorem trans (first : Quiet fs middle) (second : Quiet middle after) : Quiet fs after where
  inode := second.inode.trans first.inode
  inodeList := second.inodeList.trans first.inodeList
  fixed := second.fixed.trans first.fixed
  nbits := second.nbits.trans first.nbits
  error := second.error.trans first.error
  used := by
    intro blkno used
    have still : middle.freemap.bit blkno = false := by
      apply Bool.eq_false_iff.mpr
      intro set
      rw [first.fewer blkno set] at used
      cases used
    exact (second.used blkno still).trans (first.used blkno used)
  fewer := fun index set => first.fewer index (second.fewer index set)
  counted := fun counted => second.counted (first.counted counted)
  clean := by
    intro clean
    rcases second.clean clean with ⟨middleClean, super, freemap⟩
    rcases first.clean middleClean with ⟨wasClean, superFirst, freemapFirst⟩
    exact ⟨wasClean, super.trans superFirst, freemap.trans freemapFirst⟩
  later := Nat.le_trans first.later second.later

theorem tick (fs : SfsFs) : Quiet fs fs.tick :=
  ⟨rfl, rfl, rfl, rfl, rfl, fun _ _ => rfl, fun _ set => set, id, fun clean => ⟨clean, rfl, rfl⟩, Nat.le_succ _⟩

theorem blocks (quiet : Quiet fs after) : after.super.blocks = fs.super.blocks :=
  (Super.ext_iff.mp quiet.fixed).2.1

theorem stillUsed (quiet : Quiet fs after) {blkno : Nat} (used : fs.freemap.bit blkno = false) :
    after.freemap.bit blkno = false := by
  apply Bool.eq_false_iff.mpr
  intro set
  rw [quiet.fewer blkno set] at used
  cases used

/-- Inodes are the same before and after. -/
theorem dinOf (quiet : Quiet fs after) (owned : fs.Owned files) {ino : Nat} (member : ino ∈ files) :
    after.dinOf ino = fs.dinOf ino := by
  unfold SfsFs.dinOf
  rw [quiet.inodeList, quiet.inode, quiet.used ino (owned.inode_inUse member)]

theorem holds (quiet : Quiet fs after) (owned : fs.Owned files) : after.holds files = fs.holds files := by
  apply holds_congr quiet.blocks
  · exact fun ino member => congrArg DiskInode.pointers (quiet.dinOf owned member)
  · intro ino member positive index
    unfold entryOf
    rw [quiet.used _ (owned.indirect_inUse member positive)]

theorem owned (quiet : Quiet fs after) (owned : fs.Owned files) : after.Owned files where
  accounted := by
    rw [quiet.holds owned]
    exact {
      exclusive := owned.accounted.exclusive.weaken (fun _ _ held => held)
        (fun _ blkno _ free => quiet.fewer blkno free)
      inRange := fun place blkno held => quiet.blocks ▸ owned.accounted.inRange place blkno held
      bits := fun index set => quiet.blocks ▸ owned.accounted.bits index (quiet.fewer index set)
      mapped := by
        rw [quiet.blocks, quiet.nbits]
        exact owned.accounted.mapped
      counted := quiet.counted owned.accounted.counted
      small := quiet.blocks ▸ owned.accounted.small }
  loaded := fun ino member => owned.loaded ino (quiet.inodeList ▸ member)

theorem valid (quiet : Quiet fs after) {blkno : Nat} (valid : fs.Valid blkno) : after.Valid blkno := by
  unfold Valid
  rw [quiet.blocks]
  exact valid

end Quiet

end SfsFs

end Sfs
end Ucore
