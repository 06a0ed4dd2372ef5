import Mathlib.Logic.Relation
import Ucore.Sfs.IoRules

namespace Ucore
namespace Sfs

open Library
open Program
open SfsFs

/-!
# Changes to a file as sequences of edits

Whatever a function does to a file, and however it ends, is a sequence of
edits of five kinds.  What each edit preserves is therefore preserved by every
function, also when it fails on its way.  Only the size is set on its own, at
the end.
-/

namespace SfsFs

inductive Edit (files : List Nat) (sin : Nat) (fs : SfsFs) : SfsFs -> Prop
  | quiet {after : SfsFs} (quiet : Quiet fs after) : Edit files sin fs after
  | add {index blkno need cost : Nat} {after : SfsFs} (grown : Grown fs sin index blkno need cost after)
      (owned : after.Owned files) : Edit files sin fs (after.addBlock sin)
  | keep : Edit files sin fs (fs.addBlock sin)
  | remove {index : Nat} {after : SfsFs} (removed : Removed fs sin index after) (owned : after.Owned files) :
      Edit files sin fs (after.dropBlock sin)
  | write {index : Nat} (present : fs.blockOf (fs.inode sin).din index ≠ 0) (data : Bytes) :
      Edit files sin fs (fs.store (fs.blockOf (fs.inode sin).din index) data)

abbrev Edited (files : List Nat) (sin : Nat) : SfsFs -> SfsFs -> Prop := Relation.ReflTransGen (Edit files sin)

/-- What an edit of a file leaves alone: the other inodes, the size, the counts,
and everything of the volume but its blocks. -/
structure Framed (fs : SfsFs) (sin : Nat) (after : SfsFs) : Prop where
  others : forall ino, ino ≠ sin -> after.inode ino = fs.inode ino
  size : (after.inode sin).din.size = (fs.inode sin).din.size
  kinds : (after.inode sin).din.type = (fs.inode sin).din.type /\
    (after.inode sin).din.nlinks = (fs.inode sin).din.nlinks
  counts : (after.inode sin).refCount = (fs.inode sin).refCount /\
    (after.inode sin).reclaimCount = (fs.inode sin).reclaimCount
  clean : (after.inode sin).dirty = false ->
    (fs.inode sin).dirty = false /\ (after.inode sin).din.pointers = (fs.inode sin).din.pointers
  inodeList : after.inodeList = fs.inodeList
  fixed : { after.super with unusedBlocks := 0 } = { fs.super with unusedBlocks := 0 }
  nbits : after.freemap.nbits = fs.freemap.nbits
  error : after.device.error = fs.device.error

variable {fs middle after : SfsFs} {files : List Nat} {sin : Nat}

theorem Framed.refl (fs : SfsFs) (sin : Nat) : Framed fs sin fs :=
  ⟨fun _ _ => rfl, rfl, ⟨rfl, rfl⟩, ⟨rfl, rfl⟩, fun clean => ⟨clean, rfl⟩, rfl, rfl, rfl, rfl⟩

theorem Framed.trans (first : Framed fs sin middle) (second : Framed middle sin after) : Framed fs sin after where
  others := fun ino different => (second.others ino different).trans (first.others ino different)
  size := second.size.trans first.size
  kinds := ⟨second.kinds.1.trans first.kinds.1, second.kinds.2.trans first.kinds.2⟩
  counts := ⟨second.counts.1.trans first.counts.1, second.counts.2.trans first.counts.2⟩
  clean := by
    intro clean
    rcases second.clean clean with ⟨middleClean, pointers⟩
    rcases first.clean middleClean with ⟨wasClean, pointersFirst⟩
    exact ⟨wasClean, pointers.trans pointersFirst⟩
  inodeList := second.inodeList.trans first.inodeList
  fixed := second.fixed.trans first.fixed
  nbits := second.nbits.trans first.nbits
  error := second.error.trans first.error

theorem Quiet.framed (quiet : Quiet fs after) : Framed fs sin after where
  others := fun ino _ => congrFun quiet.inode ino
  size := by rw [quiet.inode]
  kinds := by rw [quiet.inode]; exact ⟨rfl, rfl⟩
  counts := by rw [quiet.inode]; exact ⟨rfl, rfl⟩
  clean := by rw [quiet.inode]; exact fun clean => ⟨clean, rfl⟩
  inodeList := quiet.inodeList
  fixed := quiet.fixed
  nbits := quiet.nbits
  error := quiet.error

theorem addBlock_framed (fs : SfsFs) (sin : Nat) : Framed fs sin (fs.addBlock sin) := by
  have inode : (fs.addBlock sin).inode sin =
      { fs.inode sin with din := (fs.inode sin).din.setBlocks ((fs.inode sin).din.blocks + 1) } := inode_setInode ..
  exact {
    others := fun ino different => inode_setInode_of_ne fs different _
    size := by rw [inode]; rfl
    kinds := by rw [inode]; exact ⟨rfl, rfl⟩
    counts := by rw [inode]; exact ⟨rfl, rfl⟩
    clean := by rw [inode]; exact fun clean => ⟨clean, rfl⟩
    inodeList := rfl
    fixed := rfl
    nbits := rfl
    error := rfl }

theorem Grown.framed {index blkno need cost : Nat} (grown : Grown fs sin index blkno need cost after) :
    Framed fs sin after where
  others := grown.others
  size := grown.sizes.1
  kinds := grown.kinds
  counts := grown.counts
  clean := by
    intro clean
    rcases grown.dirty with dirty | same
    · rw [dirty] at clean
      cases clean
    · rw [same] at clean ⊢
      exact ⟨clean, rfl⟩
  inodeList := grown.inodeList
  fixed := grown.fixed
  nbits := grown.nbits
  error := grown.error

theorem Removed.framed {index : Nat} (removed : Removed fs sin index after) :
    Framed fs sin (after.dropBlock sin) := by
  have inode : (after.dropBlock sin).inode sin = { after.inode sin with
      din := (after.inode sin).din.setBlocks ((after.inode sin).din.blocks - 1), dirty := true } := inode_setMap ..
  exact {
    others := fun ino different => (inode_setInode_of_ne after different _).trans (removed.others ino different)
    size := by rw [inode]; exact removed.sizes.1
    kinds := by rw [inode]; exact removed.kinds
    counts := by rw [inode]; exact removed.counts
    clean := by rw [inode]; exact fun absurd => nomatch absurd
    inodeList := removed.inodeList
    fixed := removed.fixed
    nbits := removed.nbits
    error := removed.error }

theorem Edit.framed (edit : Edit files sin fs after) : Framed fs sin after := by
  cases edit with
  | quiet quiet => exact quiet.framed
  | add grown _ => exact grown.framed.trans (addBlock_framed _ sin)
  | keep => exact addBlock_framed fs sin
  | remove removed _ => exact removed.framed
  | write _ _ => exact ⟨fun _ _ => rfl, rfl, ⟨rfl, rfl⟩, ⟨rfl, rfl⟩, fun clean => ⟨clean, rfl⟩, rfl, rfl, rfl, rfl⟩

theorem Edited.framed (edited : Edited files sin fs after) : Framed fs sin after := by
  induction edited with
  | refl => exact Framed.refl fs sin
  | tail _ edit inductionHypothesis => exact inductionHypothesis.trans edit.framed

/-! ## Ownership -/

/-- A block of a file is not one that a fixed place refers to. -/
theorem Owned.blockOf_ne_fixed (owned : fs.Owned files) (loaded : sin ∈ fs.inodeList) {index : Nat}
    (present : fs.blockOf (fs.inode sin).din index ≠ 0) {place : Place} (fixed : place.IsFixed) {blkno : Nat}
    (held : fs.holds files place = some blkno) : blkno ≠ fs.blockOf (fs.inode sin).din index := by
  rintro rfl
  rcases owned.blockOf_place loaded present with ⟨other, data, holding⟩
  rw [owned.accounted.exclusive.once _ _ _ held holding] at fixed
  exact fixed.not_data data

/-- A block of a file is not an indirect block. -/
theorem Owned.blockOf_ne_indirect (owned : fs.Owned files) (loaded : sin ∈ fs.inodeList) {index ino : Nat}
    (present : fs.blockOf (fs.inode sin).din index ≠ 0) (member : ino ∈ files) :
    (fs.dinOf ino).indirect ≠ fs.blockOf (fs.inode sin).din index := by
  intro same
  rcases owned.blockOf_place loaded present with ⟨other, data, holding⟩
  have held : fs.holds files (.indirect ino) = some (fs.blockOf (fs.inode sin).din index) :=
    (if_pos member).trans (entryBlock_eq_some.mpr ⟨same, present⟩)
  cases owned.accounted.exclusive.once _ _ _ held holding
  exact data

/-- The indirect block of a file is not one that a fixed place refers to. -/
theorem Owned.indirect_ne_fixed (owned : fs.Owned files) (loaded : sin ∈ fs.inodeList) {place : Place}
    (fixed : place.IsFixed) {blkno : Nat} (held : fs.holds files place = some blkno) :
    blkno ≠ (fs.inode sin).din.indirect \/ blkno = 0 := by
  by_cases indexed : (fs.inode sin).din.indirect ≠ 0
  · left
    rintro rfl
    have member := owned.loaded sin loaded
    have holding : fs.holds files (.indirect sin) = some (fs.inode sin).din.indirect := by
      rw [holds, if_pos member, dinOf_loaded loaded]
      exact entryBlock_eq_some.mpr ⟨rfl, indexed⟩
    cases owned.accounted.exclusive.once _ _ _ held holding
    exact fixed
  · rw [not_not] at indexed
    rw [indexed]
    exact Decidable.em _ |>.symm

/-- Bytes of a file are written. -/
theorem Owned.store (owned : fs.Owned files) (loaded : sin ∈ fs.inodeList) {index : Nat}
    (present : fs.blockOf (fs.inode sin).din index ≠ 0) (data : Bytes) :
    (fs.store (fs.blockOf (fs.inode sin).din index) data).Owned files where
  accounted := by
    have held : (fs.store (fs.blockOf (fs.inode sin).din index) data).holds files = fs.holds files := by
      refine holds_congr rfl ?_ ?_
      · intro ino member
        have listed : fs.holds files (.inode ino) = some ino := if_pos member
        have fixed : (Place.inode ino).IsFixed := trivial
        have different := owned.blockOf_ne_fixed loaded present fixed listed
        have block : (fs.store (fs.blockOf (fs.inode sin).din index) data).device.block ino = fs.device.block ino :=
          Function.update_of_ne different ..
        unfold dinOf
        rw [block]
        rfl
      · intro ino member _ number
        have different := owned.blockOf_ne_indirect loaded present member
        have block : (fs.store (fs.blockOf (fs.inode sin).din index) data).device.block (fs.dinOf ino).indirect =
            fs.device.block (fs.dinOf ino).indirect := Function.update_of_ne different ..
        unfold entryOf
        rw [block]
    rw [held]
    exact owned.accounted
  loaded := owned.loaded

theorem Edit.owned (edit : Edit files sin fs after) (owned : fs.Owned files) (loaded : sin ∈ fs.inodeList) :
    after.Owned files := by
  cases edit with
  | quiet quiet => exact quiet.owned owned
  | add grown ownedAfter =>
      have stillLoaded := grown.inodeList ▸ loaded
      exact ownedAfter.setInode stillLoaded rfl
  | keep => exact owned.setInode loaded rfl
  | remove removed ownedAfter =>
      have stillLoaded := removed.inodeList ▸ loaded
      exact ownedAfter.setInode stillLoaded rfl
  | write present data => exact owned.store loaded present data

theorem Edited.owned (edited : Edited files sin fs after) (owned : fs.Owned files) (loaded : sin ∈ fs.inodeList) :
    after.Owned files := by
  induction edited with
  | refl => exact owned
  | tail edits edit inductionHypothesis =>
      have stillLoaded := (Edited.framed edits).inodeList ▸ loaded
      exact edit.owned inductionHypothesis stillLoaded

/-- The blocks of the fixed places keep their contents. -/
theorem Edit.fixedBlock (edit : Edit files sin fs after) (owned : fs.Owned files) (loaded : sin ∈ fs.inodeList)
    {place : Place} (fixed : place.IsFixed) {blkno : Nat} (held : fs.holds files place = some blkno) :
    after.device.block blkno = fs.device.block blkno := by
  have used := owned.inUse held
  cases edit with
  | quiet quiet => exact quiet.used blkno used
  | add grown _ => exact grown.used blkno used (owned.indirect_ne_fixed loaded fixed held)
  | keep => rfl
  | remove removed _ => exact removed.used blkno used (owned.indirect_ne_fixed loaded fixed held)
  | write present data =>
      exact Function.update_of_ne (owned.blockOf_ne_fixed loaded present fixed held) ..

theorem holds_fixed {fs after : SfsFs} (files : List Nat) (blocks : after.super.blocks = fs.super.blocks)
    {place : Place} (fixed : place.IsFixed) : after.holds files place = fs.holds files place := by
  cases place with
  | reserved blkno => rw [holds, holds, freemapBlocks, freemapBlocks, blocks]
  | inode ino => rfl
  | direct _ _ => exact absurd fixed id
  | indirect _ => exact absurd fixed id
  | entry _ _ => exact absurd fixed id

theorem Edited.fixedBlock (edited : Edited files sin fs after) (owned : fs.Owned files)
    (loaded : sin ∈ fs.inodeList) {place : Place} (fixed : place.IsFixed) {blkno : Nat}
    (held : fs.holds files place = some blkno) : after.device.block blkno = fs.device.block blkno := by
  induction edited with
  | refl => rfl
  | tail edits edit inductionHypothesis =>
      have frame := Edited.framed edits
      have stillLoaded := frame.inodeList ▸ loaded
      have stillHeld := holds_fixed files (Super.ext_iff.mp frame.fixed).2.1 fixed |>.trans held
      rw [← inductionHypothesis]
      exact edit.fixedBlock (Edited.owned edits owned loaded) stillLoaded fixed stillHeld

end SfsFs

/-! ## The functions -/

variable {fs : SfsFs} {files : List Nat} {sin : Nat}

/-- The panic at an index that no block map reaches. -/
def outOfRange : Fault := .panic "sfs_bmap_get_nolock - index out of range"

/-- Among the faults, this panic is left open only for a reason. -/
def OutOfRangeOnly (reason : Prop) (fault : Fault) : Prop := fault = outOfRange -> reason

theorem OutOfRangeOnly.of_ne {reason : Prop} {fault : Fault} (different : fault ≠ outOfRange) :
    OutOfRangeOnly reason fault := fun same => absurd same different

theorem OutOfRangeOnly.mono {reason weaker : Prop} (implies : reason -> weaker) {fault : Fault}
    (only : OutOfRangeOnly reason fault) : OutOfRangeOnly weaker fault := fun same => implies (only same)

theorem blockOf_addBlock (fs : SfsFs) (sin index : Nat) :
    (fs.addBlock sin).blockOf ((fs.addBlock sin).inode sin).din index = fs.blockOf (fs.inode sin).din index := by
  unfold addBlock
  rw [inode_setInode]
  rfl

theorem bmapLoadNolock_edits {index : Nat} (owned : fs.Owned files) (loaded : sin ∈ fs.inodeList) :
    Meets (bmapLoadNolock sin index) fs
      ⟨fun ino after => Edited files sin fs after /\ ino ≠ 0 /\ Exists fun number =>
          after.blockOf (after.inode sin).din number = ino,
        fun _ after => Edited files sin fs after, OutOfRangeOnly (ndirect + blkNentry <= index)⟩ := by
  apply bmapLoadNolock_meets owned loaded
  · exact fun _ => .of_ne (by decide)
  · exact fun _ range _ => range
  · exact fun _ _ => .of_ne (by decide)
  · exact fun _ _ _ _ => .single (.quiet (Quiet.tick fs))
  · exact fun _ _ _ after refused => .single (.quiet refused.quiet)
  · intro _ present after looked
    rcases looked with rfl | rfl
    · exact ⟨.refl, present, index, rfl⟩
    · exact ⟨.single (.quiet (Quiet.tick fs)), present, index, rfl⟩
  · intro _ present after looked
    rcases looked with rfl | rfl
    · exact ⟨.single .keep, present, index, blockOf_addBlock after sin index⟩
    · exact ⟨.tail (.single (.quiet (Quiet.tick fs))) .keep, present, index, blockOf_addBlock fs.tick sin index⟩
  · intro _ _ blkno after grown ownedAfter _
    refine ⟨.single (.add grown ownedAfter), (owned.valid_of_free grown.fresh).1, index, ?_⟩
    rw [blockOf_addBlock, grown.blockOf, if_pos rfl]

theorem bmapTruncateNolock_edits (owned : fs.Owned files) (loaded : sin ∈ fs.inodeList) :
    Meets (bmapTruncateNolock sin) fs
      ⟨fun _ after => Edited files sin fs after, fun _ after => Edited files sin fs after, OutOfRangeOnly False⟩ := by
  apply bmapTruncateNolock_meets owned loaded
  · exact fun _ => .of_ne (by decide)
  · intro _ after _ transferred
    have quiet : Quiet fs after := by
      rcases transferred with rfl | rfl | rfl
      · exact Quiet.tick fs
      · exact (Quiet.tick fs).ticked
      · exact (Quiet.tick fs).ticked.ticked
    exact .single (.quiet quiet)
  · exact fun after removed ownedAfter _ => .single (.remove removed ownedAfter)

theorem resize_edits {nblks tblks : Nat} (owned : fs.Owned files) (loaded : sin ∈ fs.inodeList) :
    Meets (resize sin nblks tblks) fs
      ⟨fun _ after => Edited files sin fs after, fun _ after => Edited files sin fs after,
        OutOfRangeOnly (ndirect + blkNentry < tblks)⟩ := by
  unfold resize
  rw [meets_ite]
  split
  · refine meets_forRange (fun _ current => Edited files sin fs current) nblks (tblks - nblks) ?_
      (fun _ edited => edited) .refl
    intro number current _ high edited
    have stillLoaded := (Edited.framed edited).inodeList ▸ loaded
    rw [meets_bind]
    refine (bmapLoadNolock_edits (Edited.owned edited owned loaded) stillLoaded).mono ?_ ?_ ?_
    · exact fun _ after more => edited.trans more.1
    · exact fun _ after more => edited.trans more
    · exact fun _ only => only.mono fun _ => by omega
  · refine meets_forRange (fun _ current => Edited files sin fs current) 0 (nblks - tblks) ?_
      (fun _ edited => edited) .refl
    intro _ current _ _ edited
    have stillLoaded := (Edited.framed edited).inodeList ▸ loaded
    refine (bmapTruncateNolock_edits (Edited.owned edited owned loaded) stillLoaded).mono ?_ ?_ ?_
    · exact fun _ after more => edited.trans more
    · exact fun _ after more => edited.trans more
    · exact fun _ only => only.mono False.elim

/-- Edits, after which the size may have been set. -/
def SfsFs.Changed (files : List Nat) (sin : Nat) (allowed : Nat -> Prop) (fs after : SfsFs) : Prop :=
  Exists fun middle => Edited files sin fs middle /\
    (after = middle \/ Exists fun size => allowed size /\
      after = middle.setMap sin ((middle.inode sin).din.setSize size))

theorem SfsFs.Edited.changed {allowed : Nat -> Prop} {after : SfsFs} (edited : Edited files sin fs after) :
    Changed files sin allowed fs after := ⟨after, edited, .inl rfl⟩

theorem truncfile_edits {len : Int} (owned : fs.Owned files) (loaded : sin ∈ fs.inodeList) :
    Meets (truncfile sin len) fs
      ⟨fun _ after => Changed files sin (fun size => (size : Int) = len) fs after,
        fun _ after => Changed files sin (fun size => (size : Int) = len) fs after,
        OutOfRangeOnly (len <= maxFileSize /\ ((ndirect + blkNentry) * blksize : Nat) < len)⟩ := by
  apply truncfile_meets
  · exact fun _ => Edited.changed .refl
  · exact fun _ _ _ => ⟨fun _ => Edited.changed .refl, fun _ => .of_ne (by decide)⟩
  · intro low high _
    refine (resize_edits owned loaded).mono ?_ ?_ ?_
    · intro _ middle edited
      refine ⟨fun _ => ⟨middle, edited, .inr ⟨len.toNat, by omega, rfl⟩⟩, fun _ => .of_ne (by decide)⟩
    · exact fun _ after edited => Edited.changed edited
    · intro fault (only : OutOfRangeOnly _ fault)
      refine only.mono fun beyond => ⟨high, ?_⟩
      unfold roundupDiv at beyond
      simp only [blksize, ndirect, blkNentry] at *
      omega

theorem tryseek_edits {pos : Int} (owned : fs.Owned files) (loaded : sin ∈ fs.inodeList) :
    Meets (tryseek sin pos) fs
      ⟨fun _ after => Changed files sin (fun size => (size : Int) = pos) fs after,
        fun _ after => Changed files sin (fun size => (size : Int) = pos) fs after,
        OutOfRangeOnly (pos < maxFileSize /\ ((ndirect + blkNentry) * blksize : Nat) < pos)⟩ := by
  apply tryseek_meets
  · exact fun _ => Edited.changed .refl
  · exact fun _ _ => Edited.changed .refl
  · intro _ high _
    refine (truncfile_edits owned loaded).mono (fun _ _ changed => changed) (fun _ _ changed => changed) ?_
    exact fun _ only => only.mono fun range => ⟨high, range.2⟩

theorem IsPiece.edits {write : Bool} {pos size cost : Nat} {now : Transfer} {program : Kernel Transfer}
    (piece : IsPiece sin write pos now size cost program) (owned : fs.Owned files) (loaded : sin ∈ fs.inodeList) :
    Meets program fs
      ⟨fun next after => Edited files sin fs after /\
          ((next.ret = none /\ next.alen = now.alen + size) \/ (next.ret ≠ none /\ next.alen = now.alen)),
        fun _ _ => False, OutOfRangeOnly (ndirect + blkNentry <= pos / blksize)⟩ := by
  apply piece.meets
  refine (bmapLoadNolock_edits owned loaded).mono ?_ ?_ (fun _ only => only)
  · rintro ino middle ⟨edited, present, number, rfl⟩
    have stillLoaded := (Edited.framed edited).inodeList ▸ loaded
    have ownedMiddle := Edited.owned edited owned loaded
    refine ⟨ownedMiddle.blockOf_valid stillLoaded present, ?_, ?_, ?_⟩
    · exact fun error after _ quiet => ⟨edited.tail (.quiet quiet), .inr ⟨Option.some_ne_none error, rfl⟩⟩
    · exact fun _ _ => ⟨edited.tail (.quiet (Quiet.tick middle)), .inl ⟨rfl, rfl⟩⟩
    · intro _ _ data after _ written
      refine ⟨?_, .inl ⟨rfl, rfl⟩⟩
      rcases written with rfl | rfl
      · exact edited.tail (.write present data)
      · have still : middle.tick.blockOf (middle.tick.inode sin).din number ≠ 0 := present
        exact (edited.tail (.quiet (Quiet.tick middle))).tail (.write still data)
  · exact fun error after edited => ⟨edited, .inr ⟨Option.some_ne_none error, rfl⟩⟩

theorem io_edits {buf : Bytes} {offset : Int} {resid : Nat} {write : Bool} (owned : fs.Owned files)
    (loaded : sin ∈ fs.inodeList) :
    Meets (io sin buf offset resid write) fs
      ⟨fun _ after => Changed files sin
          (fun size => write = true /\ size <= ioEnd (fs.inode sin).din offset resid write) fs after,
        fun _ _ => False,
        OutOfRangeOnly (0 <= offset /\ offset < maxFileSize /\ offset < span offset resid /\
          (ndirect + blkNentry) * blksize < ioEnd (fs.inode sin).din offset resid write)⟩ := by
  apply io_meets
  apply ioNolock_meets
  · exact fun _ => .of_ne (by decide)
  · exact fun _ => ⟨Nat.zero_le _, Edited.changed .refl⟩
  · exact fun _ => ⟨Nat.zero_le _, Edited.changed .refl⟩
  · intro low high forward ordered
    have bound : ioEnd (fs.inode sin).din offset resid write <= offset.toNat + resid := by
      have clipped := span_le low resid
      unfold ioEnd
      split <;> omega
    have finish : forall (now : Transfer) after, Edited files sin fs after ->
        offset.toNat + now.alen <= ioEnd (fs.inode sin).din offset resid write -> now.alen <= resid /\
        Changed files sin (fun size => write = true /\ size <= ioEnd (fs.inode sin).din offset resid write) fs
          (after.extended sin write (offset.toNat + now.alen)) := by
      intro now after edited within
      refine ⟨by omega, after, edited, ?_⟩
      unfold extended
      by_cases grows : write = true /\ (after.inode sin).din.size < offset.toNat + now.alen
      · rw [if_pos grows]
        exact .inr ⟨_, ⟨grows.1, within⟩, rfl⟩
      · rw [if_neg grows]
        exact .inl rfl
    refine ioParts_meets (fun _ _ current => Edited files sin fs current) ?_ ordered ?_ .refl
    · intro pos size cost now current program piece positive after within _ _ count edited
      have stillLoaded := (Edited.framed edited).inodeList ▸ loaded
      refine (piece.edits (Edited.owned edited owned loaded) stillLoaded).mono ?_ (fun _ _ absurd => absurd.elim) ?_
      · rintro next final ⟨more, served | refused⟩ <;> dsimp only
        · rw [if_pos served.1]
          exact ⟨by omega, edited.trans more⟩
        · rw [if_neg refused.1]
          exact finish next final (edited.trans more) (by omega)
      · intro fault (only : OutOfRangeOnly _ fault)
        refine only.mono fun beyond => ⟨low, high, forward, ?_⟩
        simp only [blksize, ndirect, blkNentry] at *
        omega
    · exact fun next final _ count edited => finish next final edited (by omega)

end Sfs
end Ucore
