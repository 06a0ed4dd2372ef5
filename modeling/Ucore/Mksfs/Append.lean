import Ucore.Mksfs.Tables

namespace Ucore
namespace Mksfs

open Library
open Program
open Sfs

/-!
# Appending a block

`append_block` finds the tables it needs or adds them, and enters the number.
A file has exactly the tables that its blocks need, the last of them at hand,
so that the search for a table is never made.
-/

/-! ## Entering a number -/

section Enter

variable {fs : SfsFs} {pending : List Nat} {file index ino : Nat}

theorem enter_cache_other {cb : Nat} (different : cb ≠ fs.tableAt file (tableOf index)) :
    (fs.enter file index ino).cache cb = fs.cache cb := Function.update_of_ne different ..

theorem enter_tableAt (accounted : Accounted fs pending) (listed : file ∈ fs.cacheInodes)
    (present : fs.tableAt file (tableOf index) ≠ 0) {other : Nat} (member : other ∈ fs.cacheInodes) :
    (fs.enter file index ino).tableAt other = fs.tableAt other := by
  refine tableAt_congr (Eq.refl (fs.inode other).inode.indirect) (Eq.refl (fs.inode other).inode.dbIndirect) ?_
  intro _
  apply enter_cache_other
  intro same
  exact tableOf_ne_one index (accounted.table_once listed member present same).2.symm

theorem enter_others (accounted : Accounted fs pending) (listed : file ∈ fs.cacheInodes)
    (present : fs.tableAt file (tableOf index) ≠ 0) {other : Nat} (member : other ∈ fs.cacheInodes)
    (different : other ≠ file) : (fs.enter file index ino).blockAt other = fs.blockAt other := by
  refine blockAt_congr (Eq.refl (fs.inode other).inode.direct) (enter_tableAt accounted listed present member) ?_
  intro slot _
  apply enter_cache_other
  intro same
  exact different (accounted.table_once listed member present same).1

/-- The file has the number at the index. -/
theorem enter_blockAt (accounted : Accounted fs pending) (listed : file ∈ fs.cacheInodes)
    (indexed : l0Nblks <= index) (present : fs.tableAt file (tableOf index) ≠ 0) :
    (fs.enter file index ino).blockAt file = Function.update (fs.blockAt file) index ino := by
  funext block
  rw [Function.update_apply]
  unfold SfsFs.blockAt
  rw [enter_tableAt accounted listed present listed]
  by_cases low : block < l0Nblks
  · rw [dif_pos low, dif_pos low, if_neg (by omega)]
    rfl
  · rw [dif_neg low, dif_neg low]
    by_cases here : fs.tableAt file (tableOf block) = fs.tableAt file (tableOf index)
    · have table := (accounted.table_once listed listed present here).2
      have written : (fs.enter file index ino).cache (fs.tableAt file (tableOf index)) =
          Function.update (fs.cache (fs.tableAt file (tableOf index))) (slotOf index) ino := Function.update_self ..
      rw [here, if_pos present, if_pos present, written, Function.update_apply]
      by_cases slot : slotOf block = slotOf index
      · rw [if_pos slot, if_pos (place_once indexed (Nat.le_of_not_lt low) table slot)]
      · rw [if_neg slot, if_neg (fun same => slot (by rw [same]))]
    · have elsewhere : block ≠ index := fun same => here (by rw [same])
      rw [enter_cache_other here, if_neg elsewhere]

end Enter

/-! ## Recording a number -/

namespace SfsFs

/-- The number of a block is recorded in the inode or in a table. -/
def record (fs : SfsFs) (file index ino : Nat) : SfsFs :=
  if direct : index < l0Nblks then fs.setInode file ((fs.inode file).setDirect ⟨index, direct⟩ ino)
  else fs.enter file index ino

end SfsFs

section Record

variable {fs : SfsFs} {pending : List Nat} {file index ino : Nat}

/-- The table for the block is there. -/
def Recordable (fs : SfsFs) (file index : Nat) : Prop := l0Nblks <= index -> fs.tableAt file (tableOf index) ≠ 0

theorem setInode_inode (fs : SfsFs) (file : Nat) (ci : CacheInode) : (fs.setInode file ci).inode file = ci :=
  Function.update_self ..

theorem setInode_other {other : Nat} (different : other ≠ file) (ci : CacheInode) :
    (fs.setInode file ci).inode other = fs.inode other := Function.update_of_ne different ..

theorem record_tableAt (accounted : Accounted fs pending) (listed : file ∈ fs.cacheInodes)
    (recordable : Recordable fs file index) {other : Nat} (member : other ∈ fs.cacheInodes) :
    (fs.record file index ino).tableAt other = fs.tableAt other := by
  unfold SfsFs.record
  split
  · rename_i low
    by_cases same : other = file
    · subst same
      apply tableAt_congr
      · rw [setInode_inode]
        rfl
      · rw [setInode_inode]
        rfl
      · exact fun _ => rfl
    · exact tableAt_congr (by rw [setInode_other same]) (by rw [setInode_other same]) (fun _ => rfl)
  · rename_i high
    exact enter_tableAt accounted listed (recordable (Nat.le_of_not_lt high)) member

theorem record_others (accounted : Accounted fs pending) (listed : file ∈ fs.cacheInodes)
    (recordable : Recordable fs file index) {other : Nat} (member : other ∈ fs.cacheInodes) (different : other ≠ file) :
    (fs.record file index ino).blockAt other = fs.blockAt other := by
  have tables : (fs.record file index ino).tableAt other = _ := record_tableAt accounted listed recordable member
  revert tables
  unfold SfsFs.record
  split
  · rename_i low
    intro tables
    exact blockAt_congr (by rw [setInode_other different]) tables (fun _ _ => rfl)
  · rename_i high
    intro _
    exact enter_others accounted listed (recordable (Nat.le_of_not_lt high)) member different

theorem record_blockAt (accounted : Accounted fs pending) (listed : file ∈ fs.cacheInodes)
    (recordable : Recordable fs file index) :
    (fs.record file index ino).blockAt file = Function.update (fs.blockAt file) index ino := by
  have tables : (fs.record file index ino).tableAt file = _ := record_tableAt accounted listed recordable listed
  revert tables
  unfold SfsFs.record
  split
  · rename_i low
    intro tables
    funext block
    rw [Function.update_apply]
    unfold SfsFs.blockAt
    rw [tables, setInode_inode]
    by_cases direct : block < l0Nblks
    · rw [dif_pos direct, dif_pos direct]
      refine (DiskInode.setDirect_direct ..).trans ?_
      by_cases same : block = index
      · subst same
        rw [if_pos rfl, if_pos rfl]
      · rw [if_neg (fun equal => same (Fin.mk.inj equal)), if_neg same]
    · have elsewhere : block ≠ index := fun same => direct (same ▸ low)
      rw [dif_neg direct, dif_neg direct, if_neg elsewhere]
      rfl
  · rename_i high
    intro _
    exact enter_blockAt accounted listed (Nat.le_of_not_lt high) (recordable (Nat.le_of_not_lt high))

theorem record_counter : SameCounter fs (fs.record file index ino) := by
  unfold SfsFs.record
  split
  · exact ⟨rfl, rfl, rfl⟩
  · exact ⟨rfl, rfl, rfl⟩

theorem record_inodes : (fs.record file index ino).inodes = fs.inodes := by
  unfold SfsFs.record
  split
  · rfl
  · rfl

theorem record_blocks : (fs.record file index ino).blocks = fs.blocks := by
  unfold SfsFs.record
  split
  · rfl
  · rfl

theorem record_cacheInodes : (fs.record file index ino).cacheInodes = fs.cacheInodes := by
  unfold SfsFs.cacheInodes
  rw [record_inodes]

theorem Accounted.record (accounted : Accounted fs (ino :: pending)) (listed : file ∈ fs.cacheInodes)
    (recordable : Recordable fs file index) (empty : fs.blockAt file index = 0) :
    Accounted (fs.record file index ino) pending := by
  have bounds := accounted.taken ino (List.mem_cons_self ..)
  have positive : ino ≠ 0 := by
    unfold SfsFs.firstIno blknFreemap at bounds
    omega
  have missing : fs.holds (.data file index) = none := by
    rw [SfsFs.holds, if_pos listed, empty, entryNumber_zero]
  apply accounted.placed missing _ record_counter
  · rw [record_cacheInodes]
    exact accounted.root
  · intro other
    unfold SfsFs.cacheBlocks
    rw [record_blocks]
    constructor
    · exact .inr
    · rintro (⟨_, _, _, equal⟩ | old)
      · cases equal
      · exact old
  · apply holds_change record_cacheInodes
    · intro other member different
      exact ⟨record_tableAt accounted listed recordable member,
        record_others accounted listed recordable member different⟩
    · exact fun _ same => by cases same
    · intro _ slot
      rw [record_tableAt accounted listed recordable listed, if_neg (fun same => by cases same)]
    · intro _ slot
      rw [record_blockAt accounted listed recordable, Function.update_apply]
      by_cases here : slot = index
      · rw [if_pos here, if_pos (by rw [here]), entryNumber_of_ne positive]
      · rw [if_neg here, if_neg (fun same => here (Place.data.inj same).2)]
    · exact .inr ⟨index, rfl⟩
    · exact listed

end Record

/-! ## The shape of a file -/

theorem tableCount_succ {nblks : Nat} (indexed : l0Nblks <= nblks) : tableCount (nblks + 1) = tableOf nblks + 1 := by
  unfold tableCount tableOf
  rw [l0Nblks_eq] at indexed ⊢
  rw [l1Nblks_eq, blkNentry_eq]
  split_ifs <;> omega

theorem tableCount_direct {nblks : Nat} (direct : nblks < l0Nblks) : tableCount (nblks + 1) = tableCount nblks := by
  unfold tableCount
  rw [if_pos (Nat.succ_le_of_lt direct), if_pos (Nat.le_of_lt direct)]

/-- The tables that a block needs are those that are there and at most two
more. -/
theorem lt_tableCount_succ {nblks : Nat} (indexed : l0Nblks <= nblks) (table : Nat) :
    table < tableCount (nblks + 1) <->
      table < tableCount nblks \/ table = tableOf nblks \/ (l1Nblks <= nblks /\ table = 1) := by
  rw [tableCount_succ indexed]
  unfold tableCount tableOf
  rw [l0Nblks_eq] at *
  rw [l1Nblks_eq, blkNentry_eq]
  split_ifs <;> omega

/-- A table that is there already is the last one. -/
theorem tableOf_last {nblks : Nat} (indexed : l0Nblks <= nblks) (present : tableOf nblks < tableCount nblks) :
    l0Nblks < nblks /\ tableOf (nblks - 1) = tableOf nblks := by
  unfold tableCount at present
  unfold tableOf at *
  rw [l0Nblks_eq] at *
  rw [l1Nblks_eq, blkNentry_eq] at *
  split_ifs at * <;> omega

/-- A file has its blocks in order, the tables for them, and the last tables
at hand. -/
structure Shaped (fs : SfsFs) (file : Nat) : Prop where
  blocks : forall index, fs.blockAt file index ≠ 0 <-> index < (fs.inode file).nblks
  tables : forall index, fs.tableAt file index ≠ 0 <-> index < tableCount (fs.inode file).nblks
  counted : (fs.inode file).inode.blocks = (fs.inode file).nblks
  bounded : (fs.inode file).nblks <= lnNblks
  first : l0Nblks < (fs.inode file).nblks ->
    (fs.inode file).l1 = some (fs.tableAt file (tableOf ((fs.inode file).nblks - 1)))
  second : l1Nblks < (fs.inode file).nblks -> (fs.inode file).l2 = some (fs.tableAt file 1)

/-- Every number is accounted for and every file is in shape. -/
structure Sound (fs : SfsFs) (pending : List Nat) : Prop where
  accounted : Accounted fs pending
  shaped : forall file, file ∈ fs.cacheInodes -> Shaped fs file

theorem Shaped.of_same {fs after : SfsFs} {file : Nat} (shaped : Shaped fs file)
    (inode : after.inode file = fs.inode file) (tables : after.tableAt file = fs.tableAt file)
    (blocks : after.blockAt file = fs.blockAt file) : Shaped after file where
  blocks := by
    rw [inode, blocks]
    exact shaped.blocks
  tables := by
    rw [inode, tables]
    exact shaped.tables
  counted := by
    rw [inode]
    exact shaped.counted
  bounded := by
    rw [inode]
    exact shaped.bounded
  first := by
    rw [inode, tables]
    exact shaped.first
  second := by
    rw [inode, tables]
    exact shaped.second

/-! ## Finding or adding a table -/

/-- What the tables of a file leave alone in its inode. -/
structure SameFile (ci after : CacheInode) : Prop where
  real : after.real = ci.real
  nblks : after.nblks = ci.nblks
  size : after.inode.size = ci.inode.size
  type : after.inode.type = ci.inode.type
  nlinks : after.inode.nlinks = ci.inode.nlinks
  blocks : after.inode.blocks = ci.inode.blocks

theorem SameFile.refl (ci : CacheInode) : SameFile ci ci := ⟨rfl, rfl, rfl, rfl, rfl, rfl⟩

theorem SameFile.trans {ci middle after : CacheInode} (first : SameFile ci middle) (second : SameFile middle after) :
    SameFile ci after :=
  ⟨second.real.trans first.real, second.nblks.trans first.nblks, second.size.trans first.size,
    second.type.trans first.type, second.nlinks.trans first.nlinks, second.blocks.trans first.blocks⟩

theorem SameFile.link (ci : CacheInode) (cb index : Nat) : SameFile ci (ci.link cb index) := by
  match index with
  | 0 => exact ⟨rfl, rfl, rfl, rfl, rfl, rfl⟩
  | 1 => exact ⟨rfl, rfl, rfl, rfl, rfl, rfl⟩
  | index + 2 => exact ⟨rfl, rfl, rfl, rfl, rfl, rfl⟩

/-- At most `cost` tables were added to the file, and nothing else changed. -/
structure Tabled (fs : SfsFs) (file cost : Nat) (after : SfsFs) : Prop where
  inodes : after.inodes = fs.inodes
  self : SameFile (fs.inode file) (after.inode file)
  others : forall other, other ≠ file -> after.inode other = fs.inode other
  numbers : forall other, other ∈ fs.cacheInodes -> other ≠ file ->
    after.tableAt other = fs.tableAt other /\ after.blockAt other = fs.blockAt other
  blocks : after.blockAt file = fs.blockAt file
  disk : after.disk = fs.disk
  entryName : after.entryName = fs.entryName
  ninos : after.ninos = fs.ninos
  low : fs.nextIno <= after.nextIno
  high : after.nextIno <= fs.nextIno + cost

section Tabled

variable {fs middle after : SfsFs} {pending : List Nat} {file index : Nat}

theorem Tabled.refl (fs : SfsFs) (file : Nat) : Tabled fs file 0 fs where
  inodes := rfl
  self := .refl _
  others := fun _ _ => rfl
  numbers := fun _ _ _ => ⟨rfl, rfl⟩
  blocks := rfl
  disk := rfl
  entryName := rfl
  ninos := rfl
  low := Nat.le_refl _
  high := Nat.le_refl _

theorem Tabled.cacheInodes {cost : Nat} (tabled : Tabled fs file cost after) :
    after.cacheInodes = fs.cacheInodes := by
  unfold SfsFs.cacheInodes
  rw [tabled.inodes]

theorem Tabled.trans {cost more : Nat} (first : Tabled fs file cost middle) (second : Tabled middle file more after) :
    Tabled fs file (cost + more) after where
  inodes := second.inodes.trans first.inodes
  self := first.self.trans second.self
  others := fun other different => (second.others other different).trans (first.others other different)
  numbers := by
    intro other member different
    have before := first.numbers other member different
    have later := second.numbers other (by rw [first.cacheInodes]; exact member) different
    exact ⟨later.1.trans before.1, later.2.trans before.2⟩
  blocks := second.blocks.trans first.blocks
  disk := second.disk.trans first.disk
  entryName := second.entryName.trans first.entryName
  ninos := second.ninos.trans first.ninos
  low := Nat.le_trans first.low second.low
  high := by
    have one := first.high
    have two := second.high
    omega

theorem newTable_rest : (fs.newTable file index).inodes = fs.inodes /\ (fs.newTable file index).disk = fs.disk /\
    (fs.newTable file index).entryName = fs.entryName := by
  unfold SfsFs.newTable
  match index with
  | 0 => exact ⟨rfl, rfl, rfl⟩
  | 1 => exact ⟨rfl, rfl, rfl⟩
  | index + 2 => exact ⟨rfl, rfl, rfl⟩

theorem Tabled.newTable (accounted : Accounted fs pending) (listed : file ∈ fs.cacheInodes)
    (linkable : Linkable fs file index) : Tabled fs file 1 (fs.newTable file index) where
  inodes := newTable_rest.1
  self := by
    rw [newTable_inode]
    exact .link _ _ _
  others := fun _ different => newTable_inode_other different
  numbers := fun _ member different => newTable_others accounted listed linkable member different
  blocks := newTable_blockAt accounted listed linkable
  disk := newTable_rest.2.1
  entryName := newTable_rest.2.2
  ninos := newTable_counter.ninos
  low := by
    rw [newTable_counter.nextIno]
    exact Nat.le_succ _
  high := by
    rw [newTable_counter.nextIno]
    exact Nat.le_refl _

end Tabled

/-- The file has the table, and the number of it at hand. -/
structure HasTable (fs : SfsFs) (file index : Nat) : Prop where
  present : fs.tableAt file index ≠ 0
  handy : (if index = 1 then (fs.inode file).l2 else (fs.inode file).l1) = some (fs.tableAt file index)

section Ensure

variable {fs : SfsFs} {pending : List Nat} {file index : Nat}

theorem HasTable.newTable (accounted : Accounted fs pending) (listed : file ∈ fs.cacheInodes)
    (linkable : Linkable fs file index) : HasTable (fs.newTable file index) file index := by
  have positive := accounted.root_lt
  unfold blknRoot at positive
  have table : (fs.newTable file index).tableAt file index = fs.nextIno := by
    rw [newTable_tableAt accounted listed linkable, Function.update_self]
  refine ⟨by omega, ?_⟩
  rw [table, newTable_inode]
  match index with
  | 0 => rfl
  | 1 => rfl
  | index + 2 => rfl

/-- A file that has the table is linked to it already. -/
theorem HasTable.linked (has : HasTable fs file index) :
    fs.linkTable file index (fs.tableAt file index) = fs := by
  have handy := has.handy
  match index with
  | 0 =>
      have same : (fs.inode file).link (fs.tableAt file 0) 0 = fs.inode file := by
        change (fs.inode file).l1 = _ at handy
        unfold CacheInode.link CacheInode.setIndirect
        rw [← handy]
        rfl
      unfold SfsFs.linkTable SfsFs.setInode
      dsimp only
      rw [same, Function.update_eq_self]
  | 1 =>
      have same : (fs.inode file).link (fs.tableAt file 1) 1 = fs.inode file := by
        change (fs.inode file).l2 = _ at handy
        unfold CacheInode.link CacheInode.setDbIndirect
        rw [← handy]
        rfl
      unfold SfsFs.linkTable SfsFs.setInode
      dsimp only
      rw [same, Function.update_eq_self]
  | index + 2 =>
      have same : (fs.inode file).link (fs.tableAt file (index + 2)) (index + 2) = fs.inode file := by
        rw [if_neg (by omega)] at handy
        unfold CacheInode.link CacheInode.setL1
        rw [← handy]
      have present := has.present
      rw [tableAt_deep rfl] at present
      have entry : fs.tableAt file (index + 2) = fs.cache (fs.inode file).inode.dbIndirect index := by
        rw [tableAt_deep rfl]
        split
        · rfl
        · rename_i missing
          rw [if_neg missing] at present
          exact absurd rfl present
      unfold SfsFs.linkTable SfsFs.setInode SfsFs.setCache
      dsimp only
      rw [same, entry, Function.update_eq_self, Function.update_eq_self, Function.update_eq_self]

variable {Value : Type} {fail : Bug -> SfsFs -> Prop} {stop : Assertion -> Prop}

theorem allocIno_meets {done : Nat -> SfsFs -> Prop} (room : fs.nextIno < fs.ninos -> done fs.nextIno fs.taken)
    (full : fs.ninos <= fs.nextIno -> fail ⟨"out of disk space.\n"⟩ fs) : Meets allocIno fs ⟨done, fail, stop⟩ := by
  unfold allocIno
  simp only [meets_bind, meets_get, meets_ite, meets_modify, meets_pure, meets_throw]
  by_cases left : fs.nextIno < fs.ninos
  · rw [if_pos left]
    exact room left
  · rw [if_neg left]
    exact full (Nat.le_of_not_lt left)

/-- `update_cache` for a table that is missing or at hand. -/
theorem updateCache_meets {cbp : Option Nat} {ino : Nat} {done : Nat -> SfsFs -> Prop}
    (added : ino = 0 -> fs.nextIno < fs.ninos -> done fs.nextIno (fs.taken.addCacheBlock (hash32 0) fs.nextIno))
    (full : ino = 0 -> fs.ninos <= fs.nextIno -> fail ⟨"out of disk space.\n"⟩ fs)
    (handy : ino ≠ 0 -> cbp = some ino /\ done ino fs) : Meets (updateCache cbp ino) fs ⟨done, fail, stop⟩ := by
  unfold updateCache
  simp only [meets_ite]
  by_cases missing : ino = 0
  · rw [if_pos missing]
    unfold allocCacheBlock
    simp only [ne_eq, not_true_eq_false, if_false, meets_bind, meets_modify, meets_pure]
    exact allocIno_meets (added missing) (full missing)
  · rw [if_neg missing, if_neg (fun different => different (handy missing).1), meets_pure]
    exact (handy missing).2

end Ensure

/-! ## The branches of `append_block` -/

section Branches

variable {fs : SfsFs} {pending : List Nat} {file : Nat} {fail : Bug -> SfsFs -> Prop} {stop : Assertion -> Prop}
  {done : Unit -> SfsFs -> Prop}

/-- The table is added when it is missing. -/
inductive Ensured (fs : SfsFs) (file index : Nat) : SfsFs -> Prop
  | found (has : HasTable fs file index) : Ensured fs file index fs
  | added (missing : fs.tableAt file index = 0) (room : fs.nextIno < fs.ninos) :
      Ensured fs file index (fs.newTable file index)

theorem appendIndirect_meets {slot ino : Nat} (has : fs.tableAt file 0 ≠ 0 -> HasTable fs file 0)
    (full : fs.ninos <= fs.nextIno -> fail ⟨"out of disk space.\n"⟩ fs)
    (entered : forall middle table, Ensured fs file 0 middle ->
      table = (if fs.tableAt file 0 = 0 then fs.nextIno else fs.tableAt file 0) ->
      done () (middle.setCache table slot ino)) : Meets (appendIndirect file slot ino) fs ⟨done, fail, stop⟩ := by
  unfold appendIndirect modifyInode
  simp only [meets_bind, meets_get, meets_modify]
  apply updateCache_meets
  · intro missing room
    exact entered _ _ (.added missing room) (if_pos missing).symm
  · exact fun _ => full
  · intro present
    refine ⟨(has present).handy, ?_⟩
    have linked : fs.linkTable file 0 (fs.tableAt file 0) = fs := (has present).linked
    have found := entered fs _ (.found (has present)) (if_neg present).symm
    change done () ((fs.linkTable file 0 (fs.tableAt file 0)).setCache (fs.tableAt file 0) slot ino)
    rw [linked]
    exact found

theorem appendInner_meets {index place ino : Nat} (tables : HasTable fs file 1) (low : index / blkNentry < blkNentry)
    (equal : place = index / blkNentry + 2) (has : fs.tableAt file place ≠ 0 -> HasTable fs file place)
    (full : fs.ninos <= fs.nextIno -> fail ⟨"out of disk space.\n"⟩ fs)
    (entered : forall middle table, Ensured fs file place middle ->
      table = (if fs.tableAt file place = 0 then fs.nextIno else fs.tableAt file place) ->
      done () (middle.setCache table (index % blkNentry) ino)) :
    Meets (appendInner file (fs.tableAt file 1) index ino) fs ⟨done, fail, stop⟩ := by
  subst equal
  have entry : fs.cache (fs.tableAt file 1) (index / blkNentry) = fs.tableAt file (index / blkNentry + 2) := by
    rw [tableAt_deep rfl, if_pos ⟨tables.present, low⟩]
    rfl
  unfold appendInner modifyInode
  simp only [meets_bind, meets_get, meets_modify]
  rw [entry]
  apply updateCache_meets
  · intro missing room
    exact entered _ _ (.added missing room) (if_pos missing).symm
  · exact fun _ => full
  · intro present
    have handy := (has present).handy
    have deep : index / blkNentry + 2 ≠ 1 := by
      generalize index / blkNentry = table
      omega
    rw [if_neg deep] at handy
    refine ⟨handy, ?_⟩
    have linked := (has present).linked
    have found := entered fs _ (.found (has present)) (if_neg present).symm
    change done () ((fs.linkTable file (index / blkNentry + 2) (fs.tableAt file (index / blkNentry + 2))).setCache
      (fs.tableAt file (index / blkNentry + 2)) (index % blkNentry) ino)
    rw [linked]
    exact found

theorem appendDbIndirect_meets {index ino : Nat}
    (has : fs.tableAt file 1 ≠ 0 -> HasTable fs file 1)
    (full : fs.ninos <= fs.nextIno -> fail ⟨"out of disk space.\n"⟩ fs)
    (inner : forall middle table, Ensured fs file 1 middle ->
      table = (if fs.tableAt file 1 = 0 then fs.nextIno else fs.tableAt file 1) ->
      Meets (appendInner file table index ino) middle ⟨done, fail, stop⟩) :
    Meets (appendDbIndirect file index ino) fs ⟨done, fail, stop⟩ := by
  unfold appendDbIndirect modifyInode
  simp only [meets_bind, meets_get, meets_modify]
  apply updateCache_meets
  · intro missing room
    exact inner _ _ (.added missing room) (if_pos missing).symm
  · exact fun _ => full
  · intro present
    refine ⟨(has present).handy, ?_⟩
    have linked := (has present).linked
    have found := inner fs _ (.found (has present)) (if_neg present).symm
    change Meets (appendInner file (fs.tableAt file 1) index ino) (fs.linkTable file 1 (fs.tableAt file 1))
      ⟨done, fail, stop⟩
    rw [linked]
    exact found

end Branches

end Mksfs
end Ucore
