import Ucore.Sfs.BlockMap

namespace Ucore
namespace Sfs

open Library
open Program

/-!
# A file gets a block

`sfs_bmap_get_nolock` with `create` adds a block where the map has none.  It
takes one block, or two when the indirect block is missing as well.  When it
fails, blocks may have been taken and given back, but nothing has been added.
-/

/-- The blocks that adding one at `index` takes. -/
def DiskInode.needed (din : DiskInode) (index : Nat) : Nat :=
  if index < ndirect \/ din.indirect ≠ 0 then 1 else 2

/-- The transfers that adding a block at `index` makes. -/
def loadCost (index : Nat) : Nat := if index < ndirect then 1 else 4

namespace SfsFs

/-- The block `blkno` has been added to the map of `sin` at `index`. -/
structure Grown (fs : SfsFs) (sin index blkno need cost : Nat) (after : SfsFs) : Prop where
  fresh : fs.freemap.bit blkno = true
  others : forall ino, ino ≠ sin -> after.inode ino = fs.inode ino
  sizes : (after.inode sin).din.size = (fs.inode sin).din.size /\
    (after.inode sin).din.blocks = (fs.inode sin).din.blocks
  kinds : (after.inode sin).din.type = (fs.inode sin).din.type /\
    (after.inode sin).din.nlinks = (fs.inode sin).din.nlinks
  counts : (after.inode sin).refCount = (fs.inode sin).refCount /\
    (after.inode sin).reclaimCount = (fs.inode sin).reclaimCount
  dirty : (after.inode sin).dirty = true \/ after.inode sin = fs.inode sin
  inodeList : after.inodeList = fs.inodeList
  fixed : { after.super with unusedBlocks := 0 } = { fs.super with unusedBlocks := 0 }
  nbits : after.freemap.nbits = fs.freemap.nbits
  error : after.device.error = fs.device.error
  blockOf : forall number, after.blockOf (after.inode sin).din number =
    if number = index then blkno else fs.blockOf (fs.inode sin).din number
  used : forall other, fs.freemap.bit other = false -> (other ≠ (fs.inode sin).din.indirect \/ other = 0) ->
    after.device.block other = fs.device.block other
  zero : after.device.block blkno = fun _ => 0
  superDirty : after.superDirty = true
  fewer : forall other, after.freemap.bit other = true -> fs.freemap.bit other = true
  taken : after.freemap.bit blkno = false
  unused : after.super.unusedBlocks + need = fs.super.unusedBlocks
  transfers : after.device.transfers = fs.device.transfers + cost

variable {fs after : SfsFs} {files : List Nat} {sin : Nat}

theorem Grown.tickBefore {index blkno need cost : Nat} (grown : Grown fs.tick sin index blkno need cost after) :
    Grown fs sin index blkno need (cost + 1) after :=
  { grown with
    transfers := by
      rw [grown.transfers]
      change fs.device.transfers + 1 + cost = _
      omega }

/-- The inode with a changed map. -/
def setMap (fs : SfsFs) (sin : Nat) (din : DiskInode) : SfsFs :=
  fs.setInode sin { fs.inode sin with din := din, dirty := true }

theorem inode_setInode (fs : SfsFs) (ino : Nat) (sin : Inode) : (fs.setInode ino sin).inode ino = sin :=
  Function.update_self ..

theorem inode_setInode_of_ne (fs : SfsFs) {ino other : Nat} (different : other ≠ ino) (sin : Inode) :
    (fs.setInode ino sin).inode other = fs.inode other := Function.update_of_ne different ..

theorem setInode_setInode (fs : SfsFs) (ino : Nat) (first second : Inode) :
    (fs.setInode ino first).setInode ino second = fs.setInode ino second := by
  unfold setInode
  simp only [Function.update_idem]

theorem inode_setMap (fs : SfsFs) (sin : Nat) (din : DiskInode) :
    (fs.setMap sin din).inode sin = { fs.inode sin with din := din, dirty := true } := inode_setInode ..

/-- The inodes after one was changed in memory. -/
theorem dinOf_setMap {ino : Nat} (loaded : sin ∈ fs.inodeList) (din : DiskInode) :
    (fs.setMap sin din).dinOf ino = if ino = sin then din else fs.dinOf ino := by
  unfold dinOf
  change (if ino ∈ fs.inodeList then ((fs.setMap sin din).inode ino).din else _) = _
  by_cases same : ino = sin
  · rw [same, if_pos rfl, if_pos loaded, inode_setMap]
  · rw [if_neg same]
    unfold setMap
    rw [inode_setInode_of_ne fs same]
    rfl

/-! ## Direct blocks -/

/-- A direct block is added. -/
def addDirect (fs : SfsFs) (sin : Nat) (index : Fin ndirect) (blkno : Nat) : SfsFs :=
  (fs.cleared blkno).setMap sin ((fs.inode sin).din.setDirect index blkno)

theorem addDirect_used {index : Fin ndirect} {blkno other : Nat} (free : fs.freemap.bit blkno = true)
    (used : fs.freemap.bit other = false) :
    (fs.addDirect sin index blkno).device.block other = fs.device.block other := by
  have different : other ≠ blkno := by
    rintro rfl
    rw [free] at used
    cases used
  exact Function.update_of_ne different ..

theorem dinOf_cleared {blkno ino : Nat} (owned : fs.Owned files) (free : fs.freemap.bit blkno = true)
    (member : ino ∈ files) : (fs.cleared blkno).dinOf ino = fs.dinOf ino :=
  (Quiet.cleared owned free).dinOf owned member

theorem addDirect_owned {index : Fin ndirect} {blkno : Nat} (owned : fs.Owned files) (loaded : sin ∈ fs.inodeList)
    (free : fs.freemap.bit blkno = true) : (fs.addDirect sin index blkno).Owned files := by
  have member := owned.loaded sin loaded
  have din : fs.dinOf sin = (fs.inode sin).din := dinOf_loaded loaded
  refine owned.take (.direct sin index) free ?_ rfl rfl rfl
  have positive := (owned.valid_of_free free).1
  rw [show some blkno = entryBlock blkno from (if_neg positive).symm]
  have still : sin ∈ (fs.cleared blkno).inodeList := loaded
  refine holds_direct member rfl ?_ ?_ ?_
  · intro ino listed different
    unfold addDirect
    rw [dinOf_setMap still, if_neg different, dinOf_cleared owned free listed]
  · unfold addDirect
    rw [dinOf_setMap still, if_pos rfl, din]
  · intro ino listed indexed number
    unfold entryOf
    rw [addDirect_used free (owned.indirect_inUse listed indexed)]

theorem addDirect_grown (index : Fin ndirect) {blkno : Nat} (owned : fs.Owned files) (loaded : sin ∈ fs.inodeList)
    (free : fs.freemap.bit blkno = true) :
    Grown fs sin index.val blkno 1 1 (fs.addDirect sin index blkno) := by
  have member := owned.loaded sin loaded
  have din : fs.dinOf sin = (fs.inode sin).din := dinOf_loaded loaded
  have inode : (fs.addDirect sin index blkno).inode sin =
      { fs.inode sin with din := (fs.inode sin).din.setDirect index blkno, dirty := true } := inode_setMap ..
  have quiet := Quiet.cleared owned free
  refine {
    fresh := free
    others := fun ino different => inode_setInode_of_ne _ different _
    sizes := by rw [inode]; exact ⟨rfl, rfl⟩
    kinds := by rw [inode]; exact ⟨rfl, rfl⟩
    counts := by rw [inode]; exact ⟨rfl, rfl⟩
    dirty := .inl (by rw [inode])
    inodeList := rfl
    fixed := rfl
    nbits := rfl
    error := rfl
    blockOf := ?_
    used := fun other used _ => addDirect_used free used
    zero := Function.update_self ..
    superDirty := rfl
    fewer := quiet.fewer
    taken := Function.update_self ..
    unused := Nat.sub_add_cancel (owned.unused_pos free)
    transfers := rfl }
  intro number
  rw [inode]
  unfold blockOf
  by_cases direct : number < ndirect
  · rw [dif_pos direct, dif_pos direct, DiskInode.setDirect_direct]
    by_cases same : number = index.val
    · rw [if_pos same, if_pos (Fin.ext same)]
    · rw [if_neg same, if_neg (fun equal => same (congrArg Fin.val equal))]
  · have different : number ≠ index.val := fun equal => direct (equal ▸ index.isLt)
    rw [dif_neg direct, dif_neg direct, if_neg different, DiskInode.setDirect_indirect]
    by_cases indexed : (fs.inode sin).din.indirect ≠ 0
    · unfold entryOf
      rw [addDirect_used free (din ▸ owned.indirect_inUse member (din ▸ indexed))]
    · rw [if_neg (fun both => indexed both.2), if_neg (fun both => indexed both.2)]

/-! ## Indirect blocks -/

/-- An empty indirect block is added. -/
def addIndirect (fs : SfsFs) (sin ent : Nat) : SfsFs :=
  (fs.cleared ent).setMap sin ((fs.inode sin).din.setIndirect ent)

theorem addIndirect_used {ent other : Nat} (free : fs.freemap.bit ent = true)
    (used : fs.freemap.bit other = false) :
    (fs.addIndirect sin ent).device.block other = fs.device.block other := by
  have different : other ≠ ent := by
    rintro rfl
    rw [free] at used
    cases used
  exact Function.update_of_ne different ..

theorem addIndirect_entry (fs : SfsFs) (sin ent number : Nat) : (fs.addIndirect sin ent).entryOf ent number = 0 := by
  have empty : (fs.addIndirect sin ent).device.block ent = fun _ => 0 := Function.update_self ..
  unfold entryOf
  rw [empty]
  rfl

theorem addIndirect_owned {ent : Nat} (owned : fs.Owned files) (loaded : sin ∈ fs.inodeList)
    (free : fs.freemap.bit ent = true) (absent : (fs.inode sin).din.indirect = 0) :
    (fs.addIndirect sin ent).Owned files := by
  have member := owned.loaded sin loaded
  have din : fs.dinOf sin = (fs.inode sin).din := dinOf_loaded loaded
  refine owned.take (.indirect sin) free ?_ rfl rfl rfl
  have positive := (owned.valid_of_free free).1
  rw [show some ent = entryBlock ent from (if_neg positive).symm]
  have still : sin ∈ (fs.cleared ent).inodeList := loaded
  refine holds_indirect member (din ▸ absent) rfl ?_ ?_ ?_ ?_
  · intro ino listed different
    unfold addIndirect
    rw [dinOf_setMap still, if_neg different, dinOf_cleared owned free listed]
  · unfold addIndirect
    rw [dinOf_setMap still, if_pos rfl, din]
  · exact addIndirect_entry fs sin ent
  · intro ino listed indexed number
    unfold entryOf
    rw [addIndirect_used free (owned.indirect_inUse listed indexed)]

theorem addIndirect_blockOf {ent : Nat} (absent : (fs.inode sin).din.indirect = 0) (number : Nat) :
    (fs.addIndirect sin ent).blockOf ((fs.addIndirect sin ent).inode sin).din number =
      fs.blockOf (fs.inode sin).din number := by
  have inode : (fs.addIndirect sin ent).inode sin =
      { fs.inode sin with din := (fs.inode sin).din.setIndirect ent, dirty := true } := inode_setMap ..
  rw [inode]
  unfold blockOf
  by_cases direct : number < ndirect
  · rw [dif_pos direct, dif_pos direct, DiskInode.setIndirect_direct]
  · rw [dif_neg direct, dif_neg direct, DiskInode.setIndirect_indirect, addIndirect_entry,
      ite_self, if_neg (fun both => both.2 absent)]

/-- A block is added to an existing indirect block. -/
def addEntry (fs : SfsFs) (sin index blkno : Nat) : SfsFs :=
  (fs.cleared blkno).tick.store (fs.inode sin).din.indirect
    (splice ((fs.cleared blkno).device.block (fs.inode sin).din.indirect) (index * 4) 4 (numberBytes blkno))

theorem addEntry_used {index blkno other : Nat} (free : fs.freemap.bit blkno = true)
    (used : fs.freemap.bit other = false) (apart : other ≠ (fs.inode sin).din.indirect) :
    (fs.addEntry sin index blkno).device.block other = fs.device.block other := by
  have different : other ≠ blkno := by
    rintro rfl
    rw [free] at used
    cases used
  exact (Function.update_of_ne apart ..).trans (Function.update_of_ne different ..)

theorem addEntry_entry {index blkno : Nat} (owned : fs.Owned files) (free : fs.freemap.bit blkno = true)
    (used : fs.freemap.bit (fs.inode sin).din.indirect = false) (number : Nat) :
    (fs.addEntry sin index blkno).entryOf (fs.inode sin).din.indirect number =
      if number = index then blkno else fs.entryOf (fs.inode sin).din.indirect number := by
  have written : (fs.addEntry sin index blkno).device.block (fs.inode sin).din.indirect =
      splice ((fs.cleared blkno).device.block (fs.inode sin).din.indirect) (index * 4) 4 (numberBytes blkno) :=
    Function.update_self ..
  have small := lt_two_pow_of_valid (owned.valid_of_free free)
  unfold entryOf
  rw [written, entry_splice _ small, (Quiet.cleared owned free).used _ used]

theorem addEntry_owned {index blkno : Nat} (owned : fs.Owned files) (loaded : sin ∈ fs.inodeList)
    (free : fs.freemap.bit blkno = true) (indexed : (fs.inode sin).din.indirect ≠ 0) (low : index < blkNentry) :
    (fs.addEntry sin index blkno).Owned files := by
  have member := owned.loaded sin loaded
  have din : fs.dinOf sin = (fs.inode sin).din := dinOf_loaded loaded
  have used : fs.freemap.bit (fs.inode sin).din.indirect = false :=
    din ▸ owned.indirect_inUse member (din ▸ indexed)
  refine owned.take (.entry sin index) free ?_ rfl rfl rfl
  have positive := (owned.valid_of_free free).1
  rw [show some blkno = entryBlock blkno from (if_neg positive).symm]
  refine holds_entry member (din ▸ indexed) low rfl ?_ ?_ ?_
  · intro ino listed
    have apart : ino ≠ (fs.inode sin).din.indirect :=
      din ▸ owned.inode_ne_indirect listed member (din ▸ indexed)
    unfold dinOf
    rw [addEntry_used free (owned.inode_inUse listed) apart]
    rfl
  · intro number
    rw [din]
    exact addEntry_entry owned free used number
  · intro ino listed different other number
    have apart := owned.indirect_ne member listed different other
    rw [din] at apart
    unfold entryOf
    rw [addEntry_used free (owned.indirect_inUse listed other) apart]

theorem addEntry_grown {index blkno : Nat} (owned : fs.Owned files) (loaded : sin ∈ fs.inodeList)
    (free : fs.freemap.bit blkno = true) (indexed : (fs.inode sin).din.indirect ≠ 0) (low : index < blkNentry) :
    Grown fs sin (ndirect + index) blkno 1 3 (fs.addEntry sin index blkno) := by
  have member := owned.loaded sin loaded
  have din : fs.dinOf sin = (fs.inode sin).din := dinOf_loaded loaded
  have used : fs.freemap.bit (fs.inode sin).din.indirect = false :=
    din ▸ owned.indirect_inUse member (din ▸ indexed)
  have quiet := Quiet.cleared owned free
  have apart : blkno ≠ (fs.inode sin).din.indirect := by
    rintro rfl
    rw [free] at used
    cases used
  refine {
    fresh := free
    others := fun _ _ => rfl
    sizes := ⟨rfl, rfl⟩
    kinds := ⟨rfl, rfl⟩
    counts := ⟨rfl, rfl⟩
    dirty := .inr rfl
    inodeList := rfl
    fixed := rfl
    nbits := rfl
    error := rfl
    blockOf := ?_
    used := fun other used different => addEntry_used free used ?_
    zero := (Function.update_of_ne apart ..).trans (Function.update_self ..)
    superDirty := rfl
    fewer := quiet.fewer
    taken := Function.update_self ..
    unused := Nat.sub_add_cancel (owned.unused_pos free)
    transfers := rfl }
  · intro number
    change (fs.addEntry sin index blkno).blockOf (fs.inode sin).din number = _
    unfold blockOf
    by_cases direct : number < ndirect
    · rw [dif_pos direct, dif_pos direct, if_neg (by omega)]
    · rw [dif_neg direct, dif_neg direct, addEntry_entry owned free used]
      by_cases same : number = ndirect + index
      · have slot : number - ndirect = index := by omega
        rw [if_pos same, slot, if_pos ⟨low, indexed⟩, if_pos rfl]
      · have slot : number - ndirect ≠ index := by omega
        rw [if_neg same, if_neg slot]
  · rcases different with different | zero
    · exact different
    · exact zero ▸ indexed.symm

/-- The indirect block is added together with its first entry. -/
theorem addIndirect_grown {index ent blkno : Nat} (owned : fs.Owned files) (loaded : sin ∈ fs.inodeList)
    (freeEnt : fs.freemap.bit ent = true) (absent : (fs.inode sin).din.indirect = 0)
    (free : (fs.addIndirect sin ent).freemap.bit blkno = true) (low : index < blkNentry) :
    Grown fs sin (ndirect + index) blkno 2 4 ((fs.addIndirect sin ent).addEntry sin index blkno) := by
  have inode : (fs.addIndirect sin ent).inode sin =
      { fs.inode sin with din := (fs.inode sin).din.setIndirect ent, dirty := true } := inode_setMap ..
  have positive := (owned.valid_of_free freeEnt).1
  have quiet := Quiet.cleared owned freeEnt
  have indexed : ((fs.addIndirect sin ent).inode sin).din.indirect ≠ 0 := by
    rw [inode]
    exact positive
  have grown := addEntry_grown (addIndirect_owned owned loaded freeEnt absent) loaded free indexed low
  have unused : (fs.addIndirect sin ent).super.unusedBlocks + 1 = fs.super.unusedBlocks :=
    Nat.sub_add_cancel (owned.unused_pos freeEnt)
  have transfers : (fs.addIndirect sin ent).device.transfers = fs.device.transfers + 1 := rfl
  exact {
    fresh := quiet.fewer blkno grown.fresh
    others := fun ino different => (grown.others ino different).trans (inode_setInode_of_ne _ different _)
    sizes := by rw [grown.sizes.1, grown.sizes.2, inode]; exact ⟨rfl, rfl⟩
    kinds := by rw [grown.kinds.1, grown.kinds.2, inode]; exact ⟨rfl, rfl⟩
    counts := by rw [grown.counts.1, grown.counts.2, inode]; exact ⟨rfl, rfl⟩
    dirty := by
      rcases grown.dirty with dirty | same
      · exact .inl dirty
      · exact .inl (by rw [same, inode])
    inodeList := rfl
    fixed := rfl
    nbits := rfl
    error := rfl
    blockOf := fun number => by rw [grown.blockOf, addIndirect_blockOf absent]
    used := by
      intro other used _
      have different : other ≠ ent := by
        rintro rfl
        rw [freeEnt] at used
        cases used
      rw [grown.used other (quiet.stillUsed used) (.inl (by rw [inode]; exact different))]
      exact addIndirect_used freeEnt used
    zero := grown.zero
    superDirty := grown.superDirty
    fewer := fun other set => quiet.fewer other (grown.fewer other set)
    taken := grown.taken
    unused := by
      rw [← unused, ← grown.unused]
    transfers := by
      rw [grown.transfers, transfers] }

end SfsFs

end Sfs
end Ucore
