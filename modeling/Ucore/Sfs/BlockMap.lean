import Ucore.Sfs.Blocks

namespace Ucore
namespace Sfs

open Library
open Program

/-!
# Edits of a block map

A block map changes in three ways: a direct entry, the indirect pointer, or an
entry of the indirect block gets a new value.  Each changes what one place
refers to, so that ownership follows from the rules for a resource that moves.
-/

namespace SfsFs

variable {fs after : SfsFs} {files : List Nat} {sin : Nat}

theorem dinOf_loaded {ino : Nat} (loaded : ino ∈ fs.inodeList) : fs.dinOf ino = (fs.inode ino).din := if_pos loaded

/-! ## What a place refers to after an edit -/

theorem holds_direct {index : Fin ndirect} {value : Nat} (member : sin ∈ files)
    (layout : after.super.blocks = fs.super.blocks)
    (others : forall ino, ino ∈ files -> ino ≠ sin -> after.dinOf ino = fs.dinOf ino)
    (self : after.dinOf sin = (fs.dinOf sin).setDirect index value)
    (entries : forall ino, ino ∈ files -> (fs.dinOf ino).indirect ≠ 0 -> forall number,
      after.entryOf (fs.dinOf ino).indirect number = fs.entryOf (fs.dinOf ino).indirect number) :
    after.holds files = Function.update (fs.holds files) (.direct sin index) (entryBlock value) := by
  have indirect : forall ino, ino ∈ files -> (after.dinOf ino).indirect = (fs.dinOf ino).indirect := by
    intro ino listed
    by_cases same : ino = sin
    · rw [same, self, DiskInode.setDirect_indirect]
    · rw [others ino listed same]
  funext place
  rw [Function.update_apply]
  cases place with
  | reserved blkno => rw [if_neg (by simp), holds, holds, freemapBlocks, freemapBlocks, layout]
  | inode ino => rw [if_neg (by simp), holds, holds]
  | direct ino other =>
      rw [holds]
      by_cases same : ino = sin
      · subst same
        rw [if_pos member, self, DiskInode.setDirect_direct]
        by_cases here : other = index
        · subst here
          rw [if_pos rfl, if_pos rfl]
        · rw [if_neg here, if_neg (fun equal => here (Place.direct.inj equal).2), holds, if_pos member]
      · rw [if_neg (fun equal => same (Place.direct.inj equal).1), holds]
        by_cases listed : ino ∈ files
        · rw [if_pos listed, if_pos listed, others ino listed same]
        · rw [if_neg listed, if_neg listed]
  | indirect ino =>
      rw [if_neg (by simp), holds, holds]
      by_cases listed : ino ∈ files
      · rw [if_pos listed, if_pos listed, indirect ino listed]
      · rw [if_neg listed, if_neg listed]
  | entry ino number =>
      rw [if_neg (by simp), holds, holds]
      by_cases listed : ino ∈ files
      · rw [indirect ino listed]
        by_cases indexed : (fs.dinOf ino).indirect ≠ 0
        · rw [entries ino listed indexed]
        · rw [if_neg (fun all => indexed all.2.1), if_neg (fun all => indexed all.2.1)]
      · rw [if_neg (fun all => listed all.1), if_neg (fun all => listed all.1)]

/-- The indirect pointer is set to a cleared block. -/
theorem holds_indirect {value : Nat} (member : sin ∈ files) (absent : (fs.dinOf sin).indirect = 0)
    (layout : after.super.blocks = fs.super.blocks)
    (others : forall ino, ino ∈ files -> ino ≠ sin -> after.dinOf ino = fs.dinOf ino)
    (self : after.dinOf sin = (fs.dinOf sin).setIndirect value)
    (empty : forall number, after.entryOf value number = 0)
    (entries : forall ino, ino ∈ files -> (fs.dinOf ino).indirect ≠ 0 -> forall number,
      after.entryOf (fs.dinOf ino).indirect number = fs.entryOf (fs.dinOf ino).indirect number) :
    after.holds files = Function.update (fs.holds files) (.indirect sin) (entryBlock value) := by
  funext place
  rw [Function.update_apply]
  cases place with
  | reserved blkno => rw [if_neg (by simp), holds, holds, freemapBlocks, freemapBlocks, layout]
  | inode ino => rw [if_neg (by simp), holds, holds]
  | direct ino index =>
      rw [if_neg (by simp), holds, holds]
      by_cases listed : ino ∈ files
      · rw [if_pos listed, if_pos listed]
        by_cases same : ino = sin
        · rw [same, self, DiskInode.setIndirect_direct]
        · rw [others ino listed same]
      · rw [if_neg listed, if_neg listed]
  | indirect ino =>
      rw [holds]
      by_cases same : ino = sin
      · subst same
        rw [if_pos member, self, if_pos rfl, DiskInode.setIndirect_indirect]
      · rw [if_neg (fun equal => same (Place.indirect.inj equal)), holds]
        by_cases listed : ino ∈ files
        · rw [if_pos listed, if_pos listed, others ino listed same]
        · rw [if_neg listed, if_neg listed]
  | entry ino number =>
      rw [if_neg (by simp), holds, holds]
      by_cases same : ino = sin
      · subst same
        have before : (if ino ∈ files /\ (fs.dinOf ino).indirect ≠ 0 /\ number < blkNentry then
            entryBlock (fs.entryOf (fs.dinOf ino).indirect number) else none) = none :=
          if_neg (fun all => all.2.1 absent)
        rw [before, self, DiskInode.setIndirect_indirect, empty]
        exact ite_self _
      · by_cases listed : ino ∈ files
        · rw [others ino listed same]
          by_cases indexed : (fs.dinOf ino).indirect ≠ 0
          · rw [entries ino listed indexed]
          · rw [if_neg (fun all => indexed all.2.1), if_neg (fun all => indexed all.2.1)]
        · rw [if_neg (fun all => listed all.1), if_neg (fun all => listed all.1)]

/-- An entry of the indirect block is set. -/
theorem holds_entry {index value : Nat} (member : sin ∈ files) (indexed : (fs.dinOf sin).indirect ≠ 0)
    (low : index < blkNentry) (layout : after.super.blocks = fs.super.blocks)
    (din : forall ino, ino ∈ files -> after.dinOf ino = fs.dinOf ino)
    (self : forall number, after.entryOf (fs.dinOf sin).indirect number =
      if number = index then value else fs.entryOf (fs.dinOf sin).indirect number)
    (entries : forall ino, ino ∈ files -> ino ≠ sin -> (fs.dinOf ino).indirect ≠ 0 -> forall number,
      after.entryOf (fs.dinOf ino).indirect number = fs.entryOf (fs.dinOf ino).indirect number) :
    after.holds files = Function.update (fs.holds files) (.entry sin index) (entryBlock value) := by
  funext place
  rw [Function.update_apply]
  cases place with
  | reserved blkno => rw [if_neg (by simp), holds, holds, freemapBlocks, freemapBlocks, layout]
  | inode ino => rw [if_neg (by simp), holds, holds]
  | direct ino index =>
      rw [if_neg (by simp), holds, holds]
      by_cases listed : ino ∈ files
      · rw [if_pos listed, if_pos listed, din ino listed]
      · rw [if_neg listed, if_neg listed]
  | indirect ino =>
      rw [if_neg (by simp), holds, holds]
      by_cases listed : ino ∈ files
      · rw [if_pos listed, if_pos listed, din ino listed]
      · rw [if_neg listed, if_neg listed]
  | entry ino number =>
      rw [holds]
      by_cases listed : ino ∈ files
      · rw [din ino listed]
        by_cases same : ino = sin
        · subst same
          rw [self]
          by_cases here : number = index
          · subst here
            rw [if_pos ⟨member, indexed, low⟩, if_pos rfl, if_pos rfl]
          · rw [if_neg here, if_neg (fun equal => here (Place.entry.inj equal).2), holds]
        · rw [if_neg (fun equal => same (Place.entry.inj equal).1), holds]
          by_cases other : (fs.dinOf ino).indirect ≠ 0
          · rw [entries ino listed same other]
          · rw [if_neg (fun all => other all.2.1), if_neg (fun all => other all.2.1)]
      · have different : ino ≠ sin := fun equal => listed (equal ▸ member)
        rw [if_neg (fun all => listed all.1), if_neg (fun equal => different (Place.entry.inj equal).1), holds,
          if_neg (fun all => listed all.1)]

/-! ## Ownership after an edit -/

/-- A free block moves to a place. -/
theorem Owned.take (owned : fs.Owned files) (place : Place) {blkno : Nat} (free : fs.freemap.bit blkno = true)
    (held : after.holds files = Function.update (fs.holds files) place (some blkno))
    (super : after.super = (fs.taken blkno).super) (freemap : after.freemap = (fs.taken blkno).freemap)
    (loaded : after.inodeList = fs.inodeList) : after.Owned files where
  accounted := by
    have quiet := Quiet.taken owned free
    rw [held, super, freemap]
    exact {
      exclusive := by
        apply owned.accounted.exclusive.take free
        intro other still
        change Function.update fs.freemap.bit blkno false other = true at still
        by_cases same : other = blkno
        · rw [same, Function.update_self] at still
          cases still
        · rw [Function.update_of_ne same] at still
          exact ⟨still, same⟩
      inRange := by
        intro other found holding
        rw [Function.update_apply] at holding
        split at holding
        · cases holding
          exact owned.accounted.bits blkno free
        · exact owned.accounted.inRange other found holding
      bits := fun index set => owned.accounted.bits index (quiet.fewer index set)
      mapped := owned.accounted.mapped
      counted := quiet.counted owned.accounted.counted
      small := owned.accounted.small }
  loaded := fun ino member => owned.loaded ino (loaded ▸ member)

/-- A place gives its block back. -/
theorem Owned.release (owned : fs.Owned files) {place : Place} {blkno : Nat}
    (holding : fs.holds files place = some blkno)
    (held : after.holds files = Function.update (fs.holds files) place none)
    (super : after.super = (fs.given blkno).super) (freemap : after.freemap = (fs.given blkno).freemap)
    (loaded : after.inodeList = fs.inodeList) : after.Owned files where
  accounted := by
    have inRange := owned.accounted.inRange place blkno holding
    rw [held, super, freemap]
    exact {
      exclusive := by
        apply owned.accounted.exclusive.release holding
        intro other set
        change Function.update fs.freemap.bit blkno true other = true at set
        by_cases same : other = blkno
        · exact .inr same
        · rw [Function.update_of_ne same] at set
          exact .inl set
      inRange := by
        intro other found still
        rw [Function.update_apply] at still
        split at still
        · cases still
        · exact owned.accounted.inRange other found still
      bits := by
        intro index set
        change Function.update fs.freemap.bit blkno true index = true at set
        by_cases same : index = blkno
        · exact same ▸ inRange
        · rw [Function.update_of_ne same] at set
          exact owned.accounted.bits index set
      mapped := owned.accounted.mapped
      counted := by
        change fs.super.unusedBlocks + 1 = Bitmap.count _
        rw [owned.accounted.counted]
        exact (Bitmap.count_set (owned.lt_nbits inRange) (owned.inUse holding)).symm
      small := owned.accounted.small }
  loaded := fun ino member => owned.loaded ino (loaded ▸ member)

/-- Different files have different indirect blocks. -/
theorem Owned.indirect_ne (owned : fs.Owned files) {other : Nat} (member : sin ∈ files) (listed : other ∈ files)
    (different : other ≠ sin) (positive : (fs.dinOf other).indirect ≠ 0) :
    (fs.dinOf other).indirect ≠ (fs.dinOf sin).indirect := by
  intro same
  have first : fs.holds files (.indirect other) = some (fs.dinOf other).indirect :=
    (if_pos listed).trans (entryBlock_eq_some.mpr ⟨rfl, positive⟩)
  have second : fs.holds files (.indirect sin) = some (fs.dinOf other).indirect :=
    (if_pos member).trans (entryBlock_eq_some.mpr ⟨same.symm, positive⟩)
  exact different (Place.indirect.inj (owned.accounted.exclusive.once _ _ _ first second))

/-- An inode block is not an indirect block. -/
theorem Owned.inode_ne_indirect (owned : fs.Owned files) {ino : Nat} (listed : ino ∈ files) (member : sin ∈ files)
    (positive : (fs.dinOf sin).indirect ≠ 0) : ino ≠ (fs.dinOf sin).indirect := by
  intro same
  have first : fs.holds files (.inode ino) = some ino := if_pos listed
  have second : fs.holds files (.indirect sin) = some ino :=
    (if_pos member).trans (entryBlock_eq_some.mpr ⟨same.symm, same ▸ positive⟩)
  cases owned.accounted.exclusive.once _ _ _ first second

/-- The entries of an index block after one has been written. -/
theorem entry_splice (block : Bytes) {index value : Nat} (small : value < 2 ^ 32) (number : Nat) :
    u32At (splice block (index * 4) 4 (numberBytes value)) (number * 4) =
      if number = index then value else u32At block (number * 4) := by
  by_cases same : number = index
  · subst same
    rw [if_pos rfl]
    apply u32At_of_bytes small
    intro k low
    rw [splice, if_pos (by omega), Nat.add_sub_cancel_left]
  · rw [if_neg same]
    apply u32At_congr
    intro k low high
    rw [splice, if_neg (by omega)]

theorem lt_two_pow_of_valid {blkno : Nat} (valid : fs.Valid blkno) : blkno < 2 ^ 32 := by
  rcases valid with ⟨_, low, small⟩
  unfold maxNblks at small
  omega

end SfsFs

end Sfs
end Ucore
