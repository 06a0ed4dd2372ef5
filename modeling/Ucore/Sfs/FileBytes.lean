import Ucore.Library.Paste
import Ucore.Sfs.Edits
import Ucore.Sfs.Reading

namespace Ucore
namespace Sfs

open Library
open Program

/-!
# The bytes of a file

A file is a sequence of bytes, of which those without a block are zero.  A
block that is added to the map is cleared first, and so only the transfers
change the bytes.  However a transfer ends, the bytes that it counts are the
ones that it has moved.
-/

namespace SfsFs

/-- A byte of a loaded file, zero where the map has no block. -/
def fileByte (fs : SfsFs) (sin k : Nat) : UInt8 :=
  if fs.blockOf (fs.inode sin).din (k / blksize) = 0 then 0
  else fs.device.block (fs.blockOf (fs.inode sin).din (k / blksize)) (k % blksize)

/-- The volume is in order, and the file is loaded and has these bytes. -/
structure Shows (files : List Nat) (sin : Nat) (bytes : Nat -> UInt8) (fs : SfsFs) : Prop where
  owned : fs.Owned files
  loaded : sin ∈ fs.inodeList
  bytes : fs.fileByte sin = bytes

variable {fs after : SfsFs} {files : List Nat} {sin : Nat} {bytes : Nat -> UInt8}

/-! ## The places of the blocks -/

/-- The place that refers to a block of a file. -/
def dataPlace (sin index : Nat) : Place :=
  if direct : index < ndirect then .direct sin ⟨index, direct⟩ else .entry sin (index - ndirect)

theorem dataPlace_inj {index other : Nat} (same : dataPlace sin index = dataPlace sin other) : index = other := by
  unfold dataPlace at same
  split at same
  · split at same
    · cases same
      rfl
    · cases same
  · split at same
    · cases same
    · have shifted := (Place.entry.inj same).2
      omega

theorem Owned.holds_dataPlace (owned : fs.Owned files) (loaded : sin ∈ fs.inodeList) {index : Nat}
    (present : fs.blockOf (fs.inode sin).din index ≠ 0) :
    fs.holds files (dataPlace sin index) = some (fs.blockOf (fs.inode sin).din index) := by
  have member := owned.loaded sin loaded
  have din : fs.dinOf sin = (fs.inode sin).din := dinOf_loaded loaded
  unfold blockOf dataPlace at *
  by_cases direct : index < ndirect
  · rw [dif_pos direct] at present ⊢
    rw [dif_pos direct, holds, if_pos member, din]
    exact entryBlock_eq_some.mpr ⟨rfl, present⟩
  · rw [dif_neg direct] at present ⊢
    rw [dif_neg direct]
    by_cases inTable : index - ndirect < blkNentry /\ (fs.inode sin).din.indirect ≠ 0
    · rw [if_pos inTable] at present ⊢
      rw [holds, din, if_pos ⟨member, inTable.2, inTable.1⟩]
      exact entryBlock_eq_some.mpr ⟨rfl, present⟩
    · rw [if_neg inTable] at present
      exact absurd rfl present

/-- Two places of a file have two blocks. -/
theorem Owned.blockOf_inj (owned : fs.Owned files) (loaded : sin ∈ fs.inodeList) {index other : Nat}
    (present : fs.blockOf (fs.inode sin).din index ≠ 0)
    (same : fs.blockOf (fs.inode sin).din index = fs.blockOf (fs.inode sin).din other) : index = other := by
  have first := owned.holds_dataPlace loaded present
  have second := owned.holds_dataPlace loaded (same ▸ present)
  rw [← same] at second
  exact dataPlace_inj (owned.accounted.exclusive.once _ _ _ first second)

/-! ## What keeps the bytes -/

theorem fileByte_congr
    (map : forall index, after.blockOf (after.inode sin).din index = fs.blockOf (fs.inode sin).din index)
    (content : forall index, fs.blockOf (fs.inode sin).din index ≠ 0 ->
      after.device.block (fs.blockOf (fs.inode sin).din index) = fs.device.block
      (fs.blockOf (fs.inode sin).din index)) :
    after.fileByte sin = fs.fileByte sin := by
  funext k
  unfold fileByte
  rw [map]
  split
  · rfl
  · rename_i present
    rw [content _ present]

/-- The block map of an inode is a matter of the inode and its indirect block. -/
theorem blockOf_congr {din : DiskInode} (same : after.device.block din.indirect = fs.device.block din.indirect \/
    din.indirect = 0) (index : Nat) : after.blockOf din index = fs.blockOf din index := by
  unfold SfsFs.blockOf
  split
  · rfl
  · split
    · rename_i inTable
      unfold entryOf
      rw [same.resolve_right inTable.2]
    · rfl

theorem Quiet.blockOf (quiet : Quiet fs after) (owned : fs.Owned files) (loaded : sin ∈ fs.inodeList) (index : Nat) :
    after.blockOf (after.inode sin).din index = fs.blockOf (fs.inode sin).din index := by
  rw [quiet.inode]
  refine blockOf_congr ?_ index
  by_cases indexed : (fs.inode sin).din.indirect = 0
  · exact .inr indexed
  · exact .inl (quiet.used _ (owned.indirect_used loaded indexed))

theorem Shows.quiet (shown : Shows files sin bytes fs) (quiet : Quiet fs after) : Shows files sin bytes after where
  owned := quiet.owned shown.owned
  loaded := quiet.inodeList ▸ shown.loaded
  bytes := by
    rw [← shown.bytes]
    apply fileByte_congr (quiet.blockOf shown.owned shown.loaded)
    exact fun index present => quiet.used _ (shown.owned.blockOf_inUse shown.loaded present)

theorem Shows.looked (shown : Shows files sin bytes fs) (looked : fs.Looked after) : Shows files sin bytes after := by
  rcases looked with rfl | rfl
  · exact shown
  · exact shown.quiet (Quiet.tick fs)

theorem Shows.addBlock (shown : Shows files sin bytes fs) : Shows files sin bytes (fs.addBlock sin) where
  owned := shown.owned.setInode shown.loaded rfl
  loaded := shown.loaded
  bytes := by
    rw [← shown.bytes]
    exact fileByte_congr (blockOf_addBlock fs sin) fun _ _ => rfl

theorem Shows.setSize (shown : Shows files sin bytes fs) (size : Nat) :
    Shows files sin bytes (fs.setMap sin ((fs.inode sin).din.setSize size)) where
  owned := shown.owned.setInode shown.loaded rfl
  loaded := shown.loaded
  bytes := by
    rw [← shown.bytes]
    refine fileByte_congr (fun index => ?_) fun _ _ => rfl
    rw [inode_setMap]
    rfl

/-- A block that is added is as empty as the hole that it fills. -/
theorem Shows.grown {index blkno need cost : Nat} (shown : Shows files sin bytes fs)
    (absent : fs.blockOf (fs.inode sin).din index = 0) (grown : Grown fs sin index blkno need cost after)
    (owned : after.Owned files) : Shows files sin bytes after where
  owned := owned
  loaded := grown.inodeList ▸ shown.loaded
  bytes := by
    rw [← shown.bytes]
    funext k
    unfold fileByte
    rw [grown.blockOf]
    by_cases here : k / blksize = index
    · rw [if_pos here, here, absent, if_pos rfl]
      split
      · rfl
      · rw [grown.zero]
    · rw [if_neg here]
      split
      · rfl
      · rename_i present
        have used := shown.owned.blockOf_inUse shown.loaded present
        have member := shown.owned.loaded sin shown.loaded
        have apart := shown.owned.blockOf_ne_indirect shown.loaded present member
        rw [dinOf_loaded shown.loaded] at apart
        rw [grown.used _ used (.inl (Ne.symm apart))]

/-- Bytes of a block that the file has are written. -/
theorem Shows.store (shown : Shows files sin bytes fs) {pos size : Nat} {source data : Bytes}
    (present : fs.blockOf (fs.inode sin).din (pos / blksize) ≠ 0) (inBlock : pos % blksize + size <= blksize)
    (written : forall k, k < blksize -> data k =
      splice (fs.device.block (fs.blockOf (fs.inode sin).din (pos / blksize))) (pos % blksize) size source k) :
    Shows files sin (paste pos size source bytes) (fs.store (fs.blockOf (fs.inode sin).din (pos / blksize)) data) where
  owned := shown.owned.store shown.loaded present data
  loaded := shown.loaded
  bytes := by
    have member := shown.owned.loaded sin shown.loaded
    have apart := shown.owned.blockOf_ne_indirect shown.loaded present member
    rw [dinOf_loaded shown.loaded] at apart
    have map : forall index, (fs.store (fs.blockOf (fs.inode sin).din (pos / blksize)) data).blockOf
        (fs.inode sin).din index = fs.blockOf (fs.inode sin).din index :=
      blockOf_congr (.inl (Function.update_of_ne apart ..))
    rw [← shown.bytes]
    funext k
    have place : fs.fileByte sin k = _ := rfl
    unfold fileByte at place ⊢
    change (if (fs.store _ data).blockOf (fs.inode sin).din (k / blksize) = 0 then 0
      else (fs.store _ data).device.block ((fs.store _ data).blockOf (fs.inode sin).din (k / blksize)) (k % blksize)) =
        _
    rw [map]
    by_cases here : k / blksize = pos / blksize
    · rw [here, if_neg present]
      have stored : (fs.store (fs.blockOf (fs.inode sin).din (pos / blksize)) data).device.block
          (fs.blockOf (fs.inode sin).din (pos / blksize)) = data := Function.update_self ..
      rw [stored, written _ (Nat.mod_lt _ (by decide))]
      unfold splice
      by_cases inside : pos <= k /\ k < pos + size
      · have low : pos % blksize <= k % blksize /\ k % blksize < pos % blksize + size := by
          unfold blksize at *
          omega
        rw [if_pos low, paste_inside inside.1 inside.2]
        congr 1
        unfold blksize at *
        omega
      · have outside : ¬ (pos % blksize <= k % blksize /\ k % blksize < pos % blksize + size) := by
          unfold blksize at *
          omega
        rw [if_neg outside, paste_outside (by omega), place, here, if_neg present]
    · have outside : k < pos \/ pos + size <= k := by
        unfold blksize at *
        omega
      rw [paste_outside outside, place]
      split
      · rfl
      · rename_i there
        have other : fs.blockOf (fs.inode sin).din (k / blksize) ≠ fs.blockOf (fs.inode sin).din (pos / blksize) :=
          fun same => here (shown.owned.blockOf_inj shown.loaded there same)
        exact congrFun (Function.update_of_ne other ..) _

theorem Shows.byte_inBlock (shown : Shows files sin bytes fs) {pos k : Nat}
    (present : fs.blockOf (fs.inode sin).din (pos / blksize) ≠ 0) (inBlock : pos % blksize + k < blksize) :
    fs.device.block (fs.blockOf (fs.inode sin).din (pos / blksize)) (pos % blksize + k) = bytes (pos + k) := by
  have index : (pos + k) / blksize = pos / blksize := by
    unfold blksize at *
    omega
  rw [← byteOf_inBlock inBlock, ← shown.bytes]
  unfold fileByte byteOf
  rw [index, if_neg present]

end SfsFs

open SfsFs

/-! ## Transfers -/

section Transfers

variable {fs : SfsFs} {files : List Nat} {sin : Nat} {bytes : Nat -> UInt8}

theorem bmapLoadNolock_shows {index : Nat} (shown : Shows files sin bytes fs) :
    Meets (bmapLoadNolock sin index) fs
      ⟨fun ino after => Shows files sin bytes after /\ ino = after.blockOf (after.inode sin).din index /\ ino ≠ 0,
        fun _ after => Shows files sin bytes after, fun _ => True⟩ := by
  apply bmapLoadNolock_meets shown.owned shown.loaded
  · exact fun _ => trivial
  · exact fun _ _ => trivial
  · exact fun _ _ => trivial
  · exact fun _ _ _ _ => shown.quiet (Quiet.tick fs)
  · exact fun _ _ _ after refused => shown.quiet refused.quiet
  · intro _ present after looked
    refine ⟨shown.looked looked, ?_, present⟩
    rcases looked with rfl | rfl <;> rfl
  · intro _ present after looked
    refine ⟨(shown.looked looked).addBlock, ?_, present⟩
    rw [blockOf_addBlock]
    rcases looked with rfl | rfl <;> rfl
  · intro _ absent blkno after grown owned _
    refine ⟨(shown.grown absent grown owned).addBlock, ?_, (shown.owned.valid_of_free grown.fresh).1⟩
    rw [blockOf_addBlock, grown.blockOf, if_pos rfl]

/-- The bytes of the file after a transfer up to `pos` -/
def movedTo (write : Bool) (offset pos : Nat) (buf : Bytes) (bytes : Nat -> UInt8) : Nat -> UInt8 :=
  if write = true then paste offset (pos - offset) buf bytes else bytes

/-- The buffer after a transfer up to `pos` -/
def filledTo (write : Bool) (offset pos : Nat) (buf : Bytes) (bytes : Nat -> UInt8) : Bytes :=
  if write = true then buf else paste 0 (pos - offset) (fun k => bytes (offset + k)) buf

/-- The bytes from `offset` to `pos` have been moved. -/
def Moved (files : List Nat) (sin : Nat) (write : Bool) (buf : Bytes) (bytes : Nat -> UInt8) (offset pos : Nat)
    (now : Transfer) (current : SfsFs) : Prop :=
  Shows files sin (movedTo write offset pos buf bytes) current /\ now.buf = filledTo write offset pos buf bytes

/-- A piece moves its bytes, or none. -/
theorem IsPiece.moves {write : Bool} {buf : Bytes} {offset pos size cost : Nat} {now : Transfer}
    {program : Kernel Transfer}
    (piece : IsPiece sin write pos now size cost program) (after : offset <= pos) (count : offset + now.alen = pos)
    (moved : Moved files sin write buf bytes offset pos now fs) :
    Meets program fs
      ⟨fun next final => (next.ret = none /\ next.alen = now.alen + size /\
          Moved files sin write buf bytes offset (pos + size) next final) \/
        (next.ret ≠ none /\ next.alen = now.alen /\ Moved files sin write buf bytes offset pos next final),
        fun _ _ => False, fun _ => True⟩ := by
  have inBlock := piece.inBlock
  have length : now.alen = pos - offset := by omega
  have more : pos + size - offset = pos - offset + size := by omega
  obtain ⟨shown, buffer⟩ := moved
  apply piece.meets
  refine (bmapLoadNolock_shows shown).mono ?_ ?_ fun _ _ => trivial
  · rintro ino middle ⟨shownMiddle, rfl, present⟩
    refine ⟨shownMiddle.owned.blockOf_valid shownMiddle.loaded present, ?_, ?_, ?_⟩
    · exact fun error final _ quiet => .inr ⟨Option.some_ne_none error, rfl, shownMiddle.quiet quiet, buffer⟩
    · rintro rfl _
      refine .inl ⟨rfl, rfl, shownMiddle.quiet (Quiet.tick middle), ?_⟩
      have read : forall k, k < size -> middle.device.block (middle.blockOf (middle.inode sin).din (pos / blksize))
          (pos % blksize + k) = bytes (offset + (pos - offset + k)) := by
        intro k low
        have place : offset + (pos - offset + k) = pos + k := by omega
        rw [place]
        exact shownMiddle.byte_inBlock present (by omega)
      have joined := @paste_append _ 0 (pos - offset) size (fun k => bytes (offset + k)) buf
      rw [Nat.zero_add] at joined
      have target : filledTo false offset (pos + size) buf bytes =
          paste 0 (pos - offset + size) (fun k => bytes (offset + k)) buf := by
        unfold filledTo
        rw [if_neg Bool.false_ne_true, more]
      rw [target, ← joined]
      change paste now.alen size (fun k => middle.device.block (middle.blockOf (middle.inode sin).din (pos / blksize))
        (pos % blksize + k)) now.buf = _
      rw [buffer, length, paste_congr read]
      rfl
    · rintro rfl _ data final same written
      have same_buffer : now.buf = buf := buffer
      have stored : Shows files sin (movedTo true offset (pos + size) buf bytes)
          (middle.store (middle.blockOf (middle.inode sin).din (pos / blksize)) data) := by
        have next := shownMiddle.store present inBlock same
        have joined := @paste_append _ offset (pos - offset) size buf bytes
        rw [Nat.add_sub_cancel' after] at joined
        rw [same_buffer, length] at next
        unfold movedTo at next ⊢
        rw [if_pos rfl] at next ⊢
        rw [more, ← joined]
        exact next
      refine .inl ⟨rfl, rfl, ?_, buffer⟩
      rcases written with rfl | rfl
      · exact stored
      · exact stored.quiet
          ⟨rfl, rfl, rfl, rfl, rfl, fun _ _ => rfl, fun _ set => set, id, fun clean => ⟨clean, rfl, rfl⟩,
          Nat.le_succ _⟩
  · exact fun error final kept => .inr ⟨Option.some_ne_none error, rfl, kept, buffer⟩

/-- What a transfer has done when it returns, with or without an error. -/
structure Transferred (files : List Nat) (sin : Nat) (write : Bool) (buf : Bytes) (bytes : Nat -> UInt8) (offset : Int)
    (alen : Nat) (done : Transfer) (after : SfsFs) : Prop where
  moved : Moved files sin write buf bytes offset.toNat (offset.toNat + done.alen) done after
  short : done.alen <= alen
  inFile : done.alen ≠ 0 -> 0 <= offset /\ offset + done.alen <= maxFileSize

theorem Moved.nothing {write : Bool} {buf : Bytes} {offset : Nat} (shown : Shows files sin bytes fs)
    (ret : Option Errno) : Moved files sin write buf bytes offset (offset + 0) ⟨ret, 0, buf⟩ fs := by
  unfold Moved movedTo filledTo
  rw [Nat.add_sub_cancel_left, paste_zero, paste_zero]
  split
  · exact ⟨shown, rfl⟩
  · exact ⟨shown, rfl⟩

theorem Moved.extended {write : Bool} {buf : Bytes} {offset pos endpos : Nat} {now : Transfer}
    (moved : Moved files sin write buf bytes offset pos now fs) :
    Moved files sin write buf bytes offset pos now (fs.extended sin write endpos) := by
  unfold SfsFs.extended
  split
  · exact ⟨moved.1.setSize endpos, moved.2⟩
  · exact moved

/-- `sfs_io` moves the bytes that it counts, and no other ones. -/
theorem io_transfers {write : Bool} {buf : Bytes} {offset : Int} {resid : Nat} (shown : Shows files sin bytes fs) :
    Meets (io sin buf offset resid write) fs
      ⟨fun now after => Transferred files sin write buf bytes offset resid now after,
        fun _ _ => False, fun _ => True⟩ := by
  have nothing (ret : Option Errno) : 0 <= resid /\
    Transferred files sin write buf bytes offset resid ⟨ret, 0, buf⟩ fs :=
    ⟨Nat.zero_le _, Moved.nothing shown ret, Nat.zero_le _, fun some_ => absurd rfl some_⟩
  apply io_meets
  apply ioNolock_meets
  · exact fun _ => trivial
  · exact fun _ => nothing _
  · exact fun _ => nothing _
  · intro low high forward ordered
    have bound : ioEnd (fs.inode sin).din offset resid write <= offset.toNat + resid /\
        ioEnd (fs.inode sin).din offset resid write <= maxFileSize := by
      have clipped := span_le low resid
      unfold ioEnd
      split <;> omega
    have finish : forall (now : Transfer) after,
      offset.toNat + now.alen <= ioEnd (fs.inode sin).din offset resid write ->
        Moved files sin write buf bytes offset.toNat (offset.toNat + now.alen) now after -> now.alen <= resid /\
          Transferred files sin write buf bytes offset resid now
            (after.extended sin write (offset.toNat + now.alen)) := by
      intro now after within moved
      exact ⟨by omega, moved.extended, by omega, fun _ => ⟨low, by omega⟩⟩
    refine ioParts_meets (fun pos now current => Moved files sin write buf bytes offset.toNat pos now current) ?_
      ordered ?_ ?_
    · intro pos size cost now current program piece positive after within _ _ count moved
      refine (piece.moves after count moved).mono ?_ (fun _ _ failed => failed) (fun _ _ => trivial)
      rintro next final (⟨fine, length, more⟩ | ⟨failed, length, kept⟩) <;> dsimp only
      · rw [if_pos fine]
        exact ⟨by omega, more⟩
      · rw [if_neg failed]
        refine finish next final (by omega) ?_
        rw [length, count]
        exact kept
    · intro next final _ count moved
      refine finish next final (by omega) ?_
      rw [count]
      exact moved
    · exact Moved.nothing shown none

end Transfers

end Sfs
end Ucore
