import Ucore.Sfs.MapRules

namespace Ucore
namespace Sfs

open Library
open Program
open SfsFs

/-!
# A file gives up a block

`sfs_bmap_free_nolock` clears what the map has at an index and gives the block
back.  The indirect block stays with the file.
-/

namespace SfsFs

variable {fs after : SfsFs} {files : List Nat} {sin : Nat}

/-- Fields other than the pointers may change. -/
theorem Owned.setInode (owned : fs.Owned files) (loaded : sin ∈ fs.inodeList) {value : Inode}
    (same : value.din.pointers = (fs.inode sin).din.pointers) : (fs.setInode sin value).Owned files where
  accounted := by
    have held : (fs.setInode sin value).holds files = fs.holds files := by
      refine holds_congr rfl ?_ ?_
      · intro ino _
        unfold dinOf
        change (if ino ∈ fs.inodeList then ((fs.setInode sin value).inode ino).din else _).pointers = _
        by_cases here : ino = sin
        · rw [here, if_pos loaded, if_pos loaded, inode_setInode, same]
        · rw [inode_setInode_of_ne fs here]
          rfl
      · exact fun _ _ _ _ => rfl
    rw [held]
    exact owned.accounted
  loaded := owned.loaded

/-- The map of `sin` has lost what it had at `index`. -/
structure Removed (fs : SfsFs) (sin index : Nat) (after : SfsFs) : Prop where
  others : forall ino, ino ≠ sin -> after.inode ino = fs.inode ino
  sizes : (after.inode sin).din.size = (fs.inode sin).din.size /\
    (after.inode sin).din.blocks = (fs.inode sin).din.blocks
  kinds : (after.inode sin).din.type = (fs.inode sin).din.type /\
    (after.inode sin).din.nlinks = (fs.inode sin).din.nlinks
  counts : (after.inode sin).refCount = (fs.inode sin).refCount /\
    (after.inode sin).reclaimCount = (fs.inode sin).reclaimCount
  indirect : (after.inode sin).din.indirect = (fs.inode sin).din.indirect
  inodeList : after.inodeList = fs.inodeList
  fixed : { after.super with unusedBlocks := 0 } = { fs.super with unusedBlocks := 0 }
  nbits : after.freemap.nbits = fs.freemap.nbits
  error : after.device.error = fs.device.error
  blockOf : forall number, after.blockOf (after.inode sin).din number =
    if number = index then 0 else fs.blockOf (fs.inode sin).din number
  used : forall other, fs.freemap.bit other = false -> (other ≠ (fs.inode sin).din.indirect \/ other = 0) ->
    after.device.block other = fs.device.block other
  bits : forall other, after.freemap.bit other = true <->
    fs.freemap.bit other = true \/ (other = fs.blockOf (fs.inode sin).din index /\ other ≠ 0)
  unused : after.super.unusedBlocks =
    fs.super.unusedBlocks + (if fs.blockOf (fs.inode sin).din index = 0 then 0 else 1)
  clean : after.superDirty = false ->
    fs.superDirty = false /\ after.super = fs.super /\ after.freemap = fs.freemap
  later : fs.device.transfers <= after.device.transfers

theorem Removed.of_absent {index : Nat} (absent : fs.blockOf (fs.inode sin).din index = 0) :
    Removed fs sin index fs where
  others := fun _ _ => rfl
  sizes := ⟨rfl, rfl⟩
  kinds := ⟨rfl, rfl⟩
  counts := ⟨rfl, rfl⟩
  indirect := rfl
  inodeList := rfl
  fixed := rfl
  nbits := rfl
  error := rfl
  blockOf := fun number => by
    by_cases same : number = index
    · rw [if_pos same, same, absent]
    · rw [if_neg same]
  used := fun _ _ _ => rfl
  bits := fun other => by
    rw [absent]
    exact ⟨.inl, fun either => either.elim id (fun both => absurd both.1 both.2)⟩
  unused := by rw [if_pos absent, Nat.add_zero]
  clean := fun clean => ⟨clean, rfl, rfl⟩
  later := Nat.le_refl _

theorem Removed.tick {index : Nat} (removed : Removed fs sin index after) : Removed fs sin index after.tick :=
  { removed with later := Nat.le_succ_of_le removed.later }

theorem given_bits (fs : SfsFs) {blkno : Nat} (positive : blkno ≠ 0) (other : Nat) :
    (fs.given blkno).freemap.bit other = true <->
      fs.freemap.bit other = true \/ (other = blkno /\ other ≠ 0) := by
  change Function.update fs.freemap.bit blkno true other = true <-> _
  by_cases same : other = blkno
  · rw [same, Function.update_self]
    exact ⟨fun _ => .inr ⟨rfl, positive⟩, fun _ => rfl⟩
  · rw [Function.update_of_ne same]
    exact ⟨.inl, fun either => either.resolve_right fun both => same both.1⟩

/-! ## Direct blocks -/

/-- A direct block is given back. -/
def removeDirect (fs : SfsFs) (sin : Nat) (index : Fin ndirect) : SfsFs :=
  (fs.given ((fs.inode sin).din.direct index)).setMap sin ((fs.inode sin).din.setDirect index 0)

theorem removeDirect_owned {index : Fin ndirect} (owned : fs.Owned files) (loaded : sin ∈ fs.inodeList)
    (present : (fs.inode sin).din.direct index ≠ 0) : (fs.removeDirect sin index).Owned files := by
  have member := owned.loaded sin loaded
  have din : fs.dinOf sin = (fs.inode sin).din := dinOf_loaded loaded
  have holding : fs.holds files (.direct sin index) = some ((fs.inode sin).din.direct index) := by
    rw [holds, if_pos member, din]
    exact entryBlock_eq_some.mpr ⟨rfl, present⟩
  refine owned.release holding ?_ rfl rfl rfl
  have still : sin ∈ (fs.given ((fs.inode sin).din.direct index)).inodeList := loaded
  change _ = Function.update (fs.holds files) (.direct sin index) (entryBlock 0)
  refine holds_direct member rfl ?_ ?_ ?_
  · intro ino _ different
    unfold removeDirect
    rw [dinOf_setMap still, if_neg different]
    rfl
  · unfold removeDirect
    rw [dinOf_setMap still, if_pos rfl, din]
  · exact fun _ _ _ _ => rfl

theorem removeDirect_removed {index : Fin ndirect} (present : (fs.inode sin).din.direct index ≠ 0) :
    Removed fs sin index.val (fs.removeDirect sin index) := by
  have inode : (fs.removeDirect sin index).inode sin =
      { fs.inode sin with din := (fs.inode sin).din.setDirect index 0, dirty := true } := inode_setMap ..
  have block : fs.blockOf (fs.inode sin).din index.val = (fs.inode sin).din.direct index := dif_pos index.isLt
  refine {
    others := fun ino different => inode_setInode_of_ne _ different _
    sizes := by rw [inode]; exact ⟨rfl, rfl⟩
    kinds := by rw [inode]; exact ⟨rfl, rfl⟩
    counts := by rw [inode]; exact ⟨rfl, rfl⟩
    indirect := by rw [inode]; rfl
    inodeList := rfl
    fixed := rfl
    nbits := rfl
    error := rfl
    blockOf := ?_
    used := fun _ _ _ => rfl
    bits := by rw [block]; exact given_bits fs present
    unused := by rw [block, if_neg present]; rfl
    clean := fun absurd => nomatch absurd
    later := Nat.le_refl _ }
  intro number
  rw [inode]
  unfold blockOf
  by_cases direct : number < ndirect
  · rw [dif_pos direct, dif_pos direct, DiskInode.setDirect_direct]
    by_cases same : number = index.val
    · rw [if_pos same, if_pos (Fin.ext same)]
    · rw [if_neg same, if_neg (fun equal => same (congrArg Fin.val equal))]
  · have different : number ≠ index.val := fun equal => direct (equal ▸ index.isLt)
    rw [dif_neg direct, dif_neg direct, if_neg different]
    rfl

/-! ## Entries -/

/-- A block of the indirect block is given back. -/
def removeEntry (fs : SfsFs) (sin index : Nat) : SfsFs :=
  (fs.tick.tick.store (fs.inode sin).din.indirect
    (splice (fs.device.block (fs.inode sin).din.indirect) (index * 4) 4 (numberBytes 0))).given
      (fs.entryOf (fs.inode sin).din.indirect index)

theorem removeEntry_used {index other : Nat} (apart : other ≠ (fs.inode sin).din.indirect) :
    (fs.removeEntry sin index).device.block other = fs.device.block other := Function.update_of_ne apart ..

theorem removeEntry_entry (fs : SfsFs) (sin index number : Nat) :
    (fs.removeEntry sin index).entryOf (fs.inode sin).din.indirect number =
      if number = index then 0 else fs.entryOf (fs.inode sin).din.indirect number := by
  have written : (fs.removeEntry sin index).device.block (fs.inode sin).din.indirect =
      splice (fs.device.block (fs.inode sin).din.indirect) (index * 4) 4 (numberBytes 0) := Function.update_self ..
  unfold entryOf
  rw [written, entry_splice _ (by decide)]

theorem removeEntry_owned {index : Nat} (owned : fs.Owned files) (loaded : sin ∈ fs.inodeList)
    (indexed : (fs.inode sin).din.indirect ≠ 0) (low : index < blkNentry)
    (present : fs.entryOf (fs.inode sin).din.indirect index ≠ 0) : (fs.removeEntry sin index).Owned files := by
  have member := owned.loaded sin loaded
  have din : fs.dinOf sin = (fs.inode sin).din := dinOf_loaded loaded
  have holding : fs.holds files (.entry sin index) = some (fs.entryOf (fs.inode sin).din.indirect index) := by
    rw [holds, din, if_pos ⟨member, indexed, low⟩]
    exact entryBlock_eq_some.mpr ⟨rfl, present⟩
  refine owned.release holding ?_ rfl rfl rfl
  change _ = Function.update (fs.holds files) (.entry sin index) (entryBlock 0)
  refine holds_entry member (din ▸ indexed) low rfl ?_ ?_ ?_
  · intro ino listed
    have apart : ino ≠ (fs.inode sin).din.indirect :=
      din ▸ owned.inode_ne_indirect listed member (din ▸ indexed)
    unfold dinOf
    rw [removeEntry_used apart]
    rfl
  · intro number
    rw [din]
    exact removeEntry_entry fs sin index number
  · intro ino listed different other number
    have apart := owned.indirect_ne member listed different other
    rw [din] at apart
    unfold entryOf
    rw [removeEntry_used apart]

theorem removeEntry_removed {index : Nat} (indexed : (fs.inode sin).din.indirect ≠ 0) (low : index < blkNentry)
    (present : fs.entryOf (fs.inode sin).din.indirect index ≠ 0) :
    Removed fs sin (ndirect + index) (fs.removeEntry sin index) := by
  have block : fs.blockOf (fs.inode sin).din (ndirect + index) = fs.entryOf (fs.inode sin).din.indirect index := by
    have slot : ndirect + index - ndirect = index := by omega
    unfold blockOf
    rw [dif_neg (by omega), slot, if_pos ⟨low, indexed⟩]
  refine {
    others := fun _ _ => rfl
    sizes := ⟨rfl, rfl⟩
    kinds := ⟨rfl, rfl⟩
    counts := ⟨rfl, rfl⟩
    indirect := rfl
    inodeList := rfl
    fixed := rfl
    nbits := rfl
    error := rfl
    blockOf := ?_
    used := fun other _ different => removeEntry_used ?_
    bits := by rw [block]; exact given_bits fs present
    unused := by rw [block, if_neg present]; rfl
    clean := fun absurd => nomatch absurd
    later := by
      change fs.device.transfers <= fs.device.transfers + 1 + 1 + 1
      omega }
  · intro number
    change (fs.removeEntry sin index).blockOf (fs.inode sin).din number = _
    unfold blockOf
    by_cases direct : number < ndirect
    · rw [dif_pos direct, dif_pos direct, if_neg (by omega)]
    · rw [dif_neg direct, dif_neg direct, removeEntry_entry]
      by_cases same : number = ndirect + index
      · have slot : number - ndirect = index := by omega
        rw [if_pos same, slot, if_pos ⟨low, indexed⟩, if_pos rfl]
      · have slot : number - ndirect ≠ index := by omega
        rw [if_neg same, if_neg slot]
  · rcases different with different | zero
    · exact different
    · exact zero ▸ indexed.symm

end SfsFs

/-! ## The functions -/

variable {fs : SfsFs} {files : List Nat} {sin : Nat} {fail : Errno -> SfsFs -> Prop} {stop : Fault -> Prop}
  {done : Unit -> SfsFs -> Prop}

/-- Only transfers have been made. -/
def SfsFs.Transferred (fs after : SfsFs) : Prop :=
  after = fs.tick \/ after = fs.tick.tick \/ after = fs.tick.tick.tick

theorem bmapFreeNolock_meets {index : Nat} (owned : fs.Owned files) (loaded : sin ∈ fs.inodeList)
    (failed : forall error after, fs.Fails 3 -> fs.Transferred after -> fail error after)
    (removed : forall after, Removed fs sin index after -> after.Owned files -> done () after) :
    Meets (bmapFreeNolock sin index) fs ⟨done, fail, stop⟩ := by
  unfold bmapFreeNolock getDin
  simp only [meets_bind, meets_get, meets_pure]
  by_cases direct : index < ndirect
  · have block : fs.blockOf (fs.inode sin).din index = (fs.inode sin).din.direct ⟨index, direct⟩ := dif_pos direct
    rw [dif_pos direct]
    by_cases present : (fs.inode sin).din.direct ⟨index, direct⟩ ≠ 0
    · have inuse := owned.blockOf_inuse loaded (block ▸ present)
      rw [block] at inuse
      rw [if_pos present]
      simp only [meets_bind]
      apply blockFree_meets inuse.1 inuse.2.1 inuse.2.2
      apply setMap_meets
      exact removed _ (removeDirect_removed present) (removeDirect_owned owned loaded present)
    · rw [if_neg present]
      exact removed fs (Removed.of_absent (block.trans (not_not.mp present))) owned
  · rw [dif_neg direct]
    by_cases inTable : index - ndirect < blkNentry
    · have slot : ndirect + (index - ndirect) = index := by omega
      rw [if_pos inTable]
      by_cases indexed : (fs.inode sin).din.indirect ≠ 0
      · have valid := owned.indirect_valid loaded indexed
        have block : fs.blockOf (fs.inode sin).din index = fs.entryOf (fs.inode sin).din.indirect (index - ndirect) :=
          (dif_neg direct).trans (if_pos ⟨inTable, indexed⟩)
        have bounds : (index - ndirect) * 4 < blksize /\ (index - ndirect) * 4 + 4 <= blksize := by
          simp only [blksize, blkNentry] at *
          omega
        rw [if_pos indexed]
        unfold bmapFreeSubNolock
        simp only [meets_bind, meets_assert, meets_ite, meets_pure]
        apply assertInuse_meets valid (owned.lt_nbits valid.2.1) (owned.indirect_used loaded indexed)
        refine ⟨fun _ => ?_, fun broken => absurd inTable broken⟩
        apply rbuf_meets valid bounds.1 bounds.2
        · exact fun error outcome => failed error _ (Fails.of_error 0 outcome (by omega)) (.inl rfl)
        · intro fine
          have read : u32At (fun k => fs.device.block (fs.inode sin).din.indirect ((index - ndirect) * 4 + k)) 0 =
              fs.entryOf (fs.inode sin).din.indirect (index - ndirect) := by
            unfold entryOf u32At u16At
            simp only [Nat.zero_add, Nat.add_zero, Nat.add_assoc]
          simp only [read]
          by_cases present : fs.entryOf (fs.inode sin).din.indirect (index - ndirect) ≠ 0
          · have inuse := owned.blockOf_inuse loaded (block ▸ present)
            rw [block] at inuse
            rw [if_pos present]
            apply wbuf_meets ((Quiet.tick fs).valid valid) bounds.1 bounds.2
            · exact fun error outcome => failed error _ (Fails.of_error 1 outcome (by omega)) (.inr (.inl rfl))
            · exact fun error _ outcome => failed error _ (Fails.of_error 2 outcome (by omega)) (.inr (.inr rfl))
            · intro _ _
              have stillValid : (fs.tick.tick.store (fs.inode sin).din.indirect
                  (splice (fs.tick.device.block (fs.inode sin).din.indirect) ((index - ndirect) * 4) 4
                    (numberBytes 0))).Valid (fs.entryOf (fs.inode sin).din.indirect (index - ndirect)) := inuse.1
              apply blockFree_meets stillValid inuse.2.1 inuse.2.2
              have gone := removeEntry_removed indexed inTable present
              rw [slot] at gone
              exact removed _ gone (removeEntry_owned owned loaded indexed inTable present)
          · rw [if_neg present]
            exact removed fs.tick (Removed.of_absent (block.trans (not_not.mp present))).tick
              ((Quiet.tick fs).owned owned)
      · rw [if_neg indexed]
        exact removed fs (Removed.of_absent ((dif_neg direct).trans (if_neg fun both => indexed both.2))) owned
    · rw [if_neg inTable]
      exact removed fs (Removed.of_absent ((dif_neg direct).trans (if_neg fun both => inTable both.1))) owned

/-- `din->blocks --` and `sin->dirty = 1` -/
def SfsFs.dropBlock (fs : SfsFs) (sin : Nat) : SfsFs :=
  fs.setMap sin ((fs.inode sin).din.setBlocks ((fs.inode sin).din.blocks - 1))

theorem bmapTruncateNolock_meets (owned : fs.Owned files) (loaded : sin ∈ fs.inodeList)
    (empty : (fs.inode sin).din.blocks = 0 -> stop (.assertion "din->blocks != 0"))
    (failed : forall error after, fs.Fails 3 -> fs.Transferred after -> fail error after)
    (removed : forall after, Removed fs sin ((fs.inode sin).din.blocks - 1) after -> after.Owned files ->
      (after.dropBlock sin).Owned files -> done () (after.dropBlock sin)) :
    Meets (bmapTruncateNolock sin) fs ⟨done, fail, stop⟩ := by
  unfold bmapTruncateNolock getDin
  simp only [meets_bind, meets_get, meets_pure, meets_assert]
  refine ⟨fun _ => ?_, fun broken => empty (not_not.mp broken)⟩
  apply bmapFreeNolock_meets owned loaded failed
  intro after gone ownedAfter
  apply setMap_meets
  have stillLoaded : sin ∈ after.inodeList := gone.inodeList ▸ loaded
  exact removed after gone ownedAfter (ownedAfter.setInode stillLoaded rfl)

end Sfs
end Ucore
