import Ucore.Mksfs.Numbers

namespace Ucore
namespace Mksfs

open Library
open Sfs

/-!
# Tables

A table is added to a file, and a number is entered in a table.  Each changes
what one place holds: a table has one owner, so that no other file sees the
change.
-/

/-! ## Where a block is listed -/

theorem l0Nblks_eq : l0Nblks = 12 := rfl

theorem l1Nblks_eq : l1Nblks = 1036 := rfl

theorem blkNentry_eq : blkNentry = 1024 := rfl

theorem tableOf_ne_one (index : Nat) : tableOf index ≠ 1 := by
  unfold tableOf
  split
  · exact Nat.zero_ne_one
  · exact fun same => nomatch Nat.succ.inj same

/-- Two blocks are not listed at one place. -/
theorem place_once {index other : Nat} (indexed : l0Nblks <= index) (alsoIndexed : l0Nblks <= other)
    (table : tableOf other = tableOf index) (slot : slotOf other = slotOf index) : other = index := by
  unfold tableOf at table
  unfold slotOf at slot
  rw [l0Nblks_eq] at *
  rw [l1Nblks_eq, blkNentry_eq] at *
  split at table <;> split at table
  · rename_i alsoFirst first
    rw [if_pos first, if_pos alsoFirst] at slot
    omega
  · cases table
  · cases table
  · rename_i alsoDeep deep
    rw [if_neg deep, if_neg alsoDeep] at slot
    omega

/-! ## Frames -/

section Frames

variable {fs after : SfsFs} {file : Nat}

theorem tableAt_congr (indirect : (after.inode file).inode.indirect = (fs.inode file).inode.indirect)
    (dbIndirect : (after.inode file).inode.dbIndirect = (fs.inode file).inode.dbIndirect)
    (cache : fs.tableAt file 1 ≠ 0 -> after.cache (fs.tableAt file 1) = fs.cache (fs.tableAt file 1)) :
    after.tableAt file = fs.tableAt file := by
  funext index
  match index with
  | 0 => exact indirect
  | 1 => exact dbIndirect
  | index + 2 =>
      rw [SfsFs.tableAt, SfsFs.tableAt, dbIndirect]
      by_cases present : (fs.inode file).inode.dbIndirect ≠ 0 /\ index < blkNentry
      · rw [if_pos present, if_pos present]
        exact congrFun (cache present.1) index
      · rw [if_neg present, if_neg present]

theorem blockAt_congr (direct : (after.inode file).inode.direct = (fs.inode file).inode.direct)
    (tables : after.tableAt file = fs.tableAt file)
    (cache : forall index, fs.tableAt file index ≠ 0 ->
      after.cache (fs.tableAt file index) = fs.cache (fs.tableAt file index)) :
    after.blockAt file = fs.blockAt file := by
  funext index
  unfold SfsFs.blockAt
  rw [tables]
  by_cases low : index < l0Nblks
  · rw [dif_pos low, dif_pos low, direct]
  · rw [dif_neg low, dif_neg low]
    by_cases present : fs.tableAt file (tableOf index) ≠ 0
    · rw [if_pos present, if_pos present, cache _ present]
    · rw [if_neg present, if_neg present]

/-- A table that the table of tables lists. -/
theorem tableAt_deep {fs : SfsFs} {file tables : Nat} (second : (fs.inode file).inode.dbIndirect = tables)
    (index : Nat) : fs.tableAt file (index + 2) =
      if tables ≠ 0 /\ index < blkNentry then fs.cache tables index else 0 := by
  rw [SfsFs.tableAt, second]

/-- A file whose inode and tables stay keeps its numbers. -/
theorem numbers_congr (inode : after.inode file = fs.inode file)
    (cache : forall index, fs.tableAt file index ≠ 0 ->
      after.cache (fs.tableAt file index) = fs.cache (fs.tableAt file index)) :
    after.tableAt file = fs.tableAt file /\ after.blockAt file = fs.blockAt file := by
  have tables : after.tableAt file = fs.tableAt file :=
    tableAt_congr (by rw [inode]) (by rw [inode]) (cache 1)
  exact ⟨tables, blockAt_congr (by rw [inode]) tables cache⟩

/-- What the places hold after a change in one file. -/
theorem holds_change (listed : after.cacheInodes = fs.cacheInodes)
    (others : forall other, other ∈ fs.cacheInodes -> other ≠ file ->
      after.tableAt other = fs.tableAt other /\ after.blockAt other = fs.blockAt other)
    {place : Place} {number : Nat}
    (inode : forall ino, place ≠ .inode ino)
    (tables : file ∈ fs.cacheInodes -> forall index, entryNumber (after.tableAt file index) =
      if Place.table file index = place then some number else entryNumber (fs.tableAt file index))
    (blocks : file ∈ fs.cacheInodes -> forall index, entryNumber (after.blockAt file index) =
      if Place.data file index = place then some number else entryNumber (fs.blockAt file index))
    (owner : (Exists fun index => place = .table file index) \/ (Exists fun index => place = .data file index))
    (member : file ∈ fs.cacheInodes) :
    after.holds = Function.update fs.holds place (some number) := by
  funext other
  rw [Function.update_apply]
  cases other with
  | inode ino => rw [if_neg (fun same => inode ino same.symm), SfsFs.holds, SfsFs.holds, listed]
  | table other index =>
      rw [SfsFs.holds, SfsFs.holds, listed]
      by_cases same : other = file
      · subst same
        rw [if_pos member, if_pos member, tables member]
      · have different : Place.table other index ≠ place := by
          rcases owner with ⟨slot, rfl⟩ | ⟨slot, rfl⟩
          · exact fun equal => same (Place.table.inj equal).1
          · exact fun equal => by cases equal
        rw [if_neg different]
        by_cases present : other ∈ fs.cacheInodes
        · rw [if_pos present, if_pos present, (others other present same).1]
        · rw [if_neg present, if_neg present]
  | data other index =>
      rw [SfsFs.holds, SfsFs.holds, listed]
      by_cases same : other = file
      · subst same
        rw [if_pos member, if_pos member, blocks member]
      · have different : Place.data other index ≠ place := by
          rcases owner with ⟨slot, rfl⟩ | ⟨slot, rfl⟩
          · exact fun equal => by cases equal
          · exact fun equal => same (Place.data.inj equal).1
        rw [if_neg different]
        by_cases present : other ∈ fs.cacheInodes
        · rw [if_pos present, if_pos present, (others other present same).2]
        · rw [if_neg present, if_neg present]

end Frames

/-! ## A new table -/

/-- The inode refers to the table, or has it at hand. -/
def CacheInode.link (ci : CacheInode) (cb : Nat) : Nat -> CacheInode
  | 0 => ci.setIndirect cb
  | 1 => ci.setDbIndirect cb
  | _ + 2 => ci.setL1 cb

namespace SfsFs

/-- A table is linked to a file. -/
def linkTable (fs : SfsFs) (file index cb : Nat) : SfsFs :=
  match index with
  | 0 => fs.setInode file ((fs.inode file).link cb 0)
  | 1 => fs.setInode file ((fs.inode file).link cb 1)
  | index + 2 =>
      (fs.setInode file ((fs.inode file).link cb (index + 2))).setCache (fs.inode file).inode.dbIndirect index cb

/-- A cleared table with the next number is linked to a file. -/
def newTable (fs : SfsFs) (file index : Nat) : SfsFs :=
  (fs.taken.addCacheBlock (hash32 0) fs.nextIno).linkTable file index fs.nextIno

/-- A number is entered in a table. -/
def enter (fs : SfsFs) (file index ino : Nat) : SfsFs :=
  fs.setCache (fs.tableAt file (tableOf index)) (slotOf index) ino

end SfsFs

/-- The table can be linked: it is missing, and the table of tables has a
place for it. -/
def Linkable (fs : SfsFs) (file index : Nat) : Prop :=
  fs.tableAt file index = 0 /\ (2 <= index -> fs.tableAt file 1 ≠ 0 /\ index - 2 < blkNentry)

section NewTable

variable {fs : SfsFs} {pending : List Nat} {file index : Nat}

theorem newTable_cacheInodes : (fs.newTable file index).cacheInodes = fs.cacheInodes := by
  unfold SfsFs.newTable
  match index with
  | 0 => rfl
  | 1 => rfl
  | index + 2 => rfl

theorem newTable_inode : (fs.newTable file index).inode file = (fs.inode file).link fs.nextIno index := by
  unfold SfsFs.newTable
  match index with
  | 0 => exact Function.update_self ..
  | 1 => exact Function.update_self ..
  | index + 2 => exact Function.update_self ..

theorem newTable_inode_other {other : Nat} (different : other ≠ file) :
    (fs.newTable file index).inode other = fs.inode other := by
  unfold SfsFs.newTable
  match index with
  | 0 => exact Function.update_of_ne different ..
  | 1 => exact Function.update_of_ne different ..
  | index + 2 => exact Function.update_of_ne different ..

/-- Only the new table and the table of tables change. -/
theorem newTable_cache_other {cb : Nat} (fresh : cb ≠ fs.nextIno) (different : cb ≠ fs.tableAt file 1 \/ index < 2) :
    (fs.newTable file index).cache cb = fs.cache cb := by
  unfold SfsFs.newTable
  match index with
  | 0 => exact Function.update_of_ne fresh ..
  | 1 => exact Function.update_of_ne fresh ..
  | index + 2 =>
      have notTables : cb ≠ (fs.inode file).inode.dbIndirect := different.resolve_right (by omega)
      exact (Function.update_of_ne notTables ..).trans (Function.update_of_ne fresh ..)

theorem newTable_cache_new (accounted : Accounted fs pending) (listed : file ∈ fs.cacheInodes) :
    (fs.newTable file index).cache fs.nextIno = fun _ => 0 := by
  have low := accounted.tableAt_lt listed 1
  unfold SfsFs.newTable
  match index with
  | 0 => exact Function.update_self ..
  | 1 => exact Function.update_self ..
  | index + 2 =>
      have notTables : fs.nextIno ≠ (fs.inode file).inode.dbIndirect := fun same => by
        change (fs.inode file).inode.dbIndirect < fs.nextIno at low
        omega
      exact (Function.update_of_ne notTables ..).trans (Function.update_self ..)

/-- The file has one table more. -/
theorem newTable_tableAt (accounted : Accounted fs pending) (listed : file ∈ fs.cacheInodes)
    (linkable : Linkable fs file index) :
    (fs.newTable file index).tableAt file = Function.update (fs.tableAt file) index fs.nextIno := by
  have positive := accounted.root_lt
  unfold blknRoot at positive
  funext other
  rw [Function.update_apply]
  match index with
  | 0 =>
      have inode : (fs.newTable file 0).inode file = _ := newTable_inode
      match other with
      | 0 =>
          rw [if_pos rfl, SfsFs.tableAt, inode]
          rfl
      | 1 =>
          rw [if_neg (by omega), SfsFs.tableAt, inode]
          rfl
      | other + 2 =>
          have low := accounted.tableAt_lt listed 1
          change (fs.inode file).inode.dbIndirect < _ at low
          have second : ((fs.newTable file 0).inode file).inode.dbIndirect = (fs.inode file).inode.dbIndirect := by
            rw [inode]
            rfl
          rw [if_neg (by omega), tableAt_deep second, newTable_cache_other (by omega) (.inr (by omega)),
            tableAt_deep rfl]
  | 1 =>
      have inode : (fs.newTable file 1).inode file = _ := newTable_inode
      match other with
      | 0 =>
          rw [if_neg (by omega), SfsFs.tableAt, inode]
          rfl
      | 1 =>
          rw [if_pos rfl, SfsFs.tableAt, inode]
          rfl
      | other + 2 =>
          have absent : (fs.inode file).inode.dbIndirect = 0 := linkable.1
          have second : ((fs.newTable file 1).inode file).inode.dbIndirect = fs.nextIno := by
            rw [inode]
            rfl
          rw [if_neg (by omega), tableAt_deep second, newTable_cache_new accounted listed, ite_self,
            tableAt_deep absent, if_neg (fun both => both.1 rfl)]
  | index + 2 =>
      have inode : (fs.newTable file (index + 2)).inode file = _ := newTable_inode
      match other with
      | 0 =>
          rw [if_neg (by omega), SfsFs.tableAt, inode]
          rfl
      | 1 =>
          rw [if_neg (by omega), SfsFs.tableAt, inode]
          rfl
      | other + 2 =>
          have tables := linkable.2 (by omega)
          have low := accounted.tableAt_lt listed 1
          change (fs.inode file).inode.dbIndirect < _ at low
          have written : (fs.newTable file (index + 2)).cache (fs.inode file).inode.dbIndirect =
              Function.update (fs.cache (fs.inode file).inode.dbIndirect) index fs.nextIno := by
            refine (Function.update_self ..).trans ?_
            have old : (fs.taken.addCacheBlock (hash32 0) fs.nextIno).cache (fs.inode file).inode.dbIndirect =
                fs.cache (fs.inode file).inode.dbIndirect := Function.update_of_ne (by omega) ..
            exact congrArg (fun table => Function.update table index fs.nextIno) old
          have second : ((fs.newTable file (index + 2)).inode file).inode.dbIndirect =
              (fs.inode file).inode.dbIndirect := by
            rw [inode]
            rfl
          rw [tableAt_deep second, written, Function.update_apply]
          by_cases here : other = index
          · subst here
            rw [if_pos rfl, if_pos rfl, if_pos ⟨tables.1, by omega⟩]
          · rw [if_neg here, if_neg (fun same => here (Nat.add_right_cancel same)), tableAt_deep rfl]

/-- Other files do not see the new table. -/
theorem newTable_others (accounted : Accounted fs pending) (listed : file ∈ fs.cacheInodes)
    (linkable : Linkable fs file index) {other : Nat} (member : other ∈ fs.cacheInodes) (different : other ≠ file) :
    (fs.newTable file index).tableAt other = fs.tableAt other /\
      (fs.newTable file index).blockAt other = fs.blockAt other := by
  apply numbers_congr (newTable_inode_other different)
  intro slot present
  have low := accounted.tableAt_lt member slot
  apply newTable_cache_other (by omega)
  by_cases deep : index < 2
  · exact .inr deep
  · refine .inl fun same => different ?_
    exact (accounted.table_once listed member (linkable.2 (by omega)).1 same).1

theorem newTable_direct :
    ((fs.newTable file index).inode file).inode.direct = (fs.inode file).inode.direct := by
  rw [newTable_inode]
  match index with
  | 0 => rfl
  | 1 => rfl
  | index + 2 => rfl

/-- The new table lists nothing yet. -/
theorem newTable_blockAt (accounted : Accounted fs pending) (listed : file ∈ fs.cacheInodes)
    (linkable : Linkable fs file index) : (fs.newTable file index).blockAt file = fs.blockAt file := by
  funext block
  unfold SfsFs.blockAt
  by_cases low : block < l0Nblks
  · rw [dif_pos low, dif_pos low, newTable_direct]
  · rw [dif_neg low, dif_neg low, newTable_tableAt accounted listed linkable, Function.update_apply]
    by_cases here : tableOf block = index
    · rw [if_pos here, here, newTable_cache_new accounted listed, ite_self,
        if_neg (fun present => present linkable.1)]
    · rw [if_neg here]
      by_cases present : fs.tableAt file (tableOf block) ≠ 0
      · have below := accounted.tableAt_lt listed (tableOf block)
        rw [if_pos present, if_pos present, newTable_cache_other (by omega)]
        refine .inl fun same => tableOf_ne_one block ?_
        exact (accounted.table_once listed listed present same.symm).2.symm
      · rw [if_neg present, if_neg present]

theorem newTable_counter : SameCounter fs.taken (fs.newTable file index) := by
  unfold SfsFs.newTable
  match index with
  | 0 => exact ⟨rfl, rfl, rfl⟩
  | 1 => exact ⟨rfl, rfl, rfl⟩
  | index + 2 => exact ⟨rfl, rfl, rfl⟩

theorem newTable_cacheBlocks : (fs.newTable file index).cacheBlocks =
    (fs.taken.addCacheBlock (hash32 0) fs.nextIno).cacheBlocks := by
  unfold SfsFs.newTable
  match index with
  | 0 => rfl
  | 1 => rfl
  | index + 2 => rfl

/-- The number of the new table is accounted for. -/
theorem Accounted.newTable (accounted : Accounted fs pending) (room : fs.nextIno < fs.ninos)
    (listed : file ∈ fs.cacheInodes) (linkable : Linkable fs file index) :
    Accounted (fs.newTable file index) pending := by
  have positive := accounted.root_lt
  unfold blknRoot at positive
  have taken := accounted.taken_pending room
  have empty : fs.taken.holds (.table file index) = none := by
    rw [holds_taken, SfsFs.holds, if_pos listed, linkable.1, entryNumber_zero]
  apply taken.placed empty _ newTable_counter
  · rw [newTable_cacheInodes]
    exact accounted.root
  · intro other
    rw [newTable_cacheBlocks, mem_addCacheBlock (hash32_lt 0)]
    constructor
    · rintro (rfl | old)
      · exact .inl ⟨rfl, file, index, rfl⟩
      · exact .inr old
    · rintro (⟨rfl, _⟩ | old)
      · exact .inl rfl
      · exact .inr old
  · have listedSame : (fs.newTable file index).cacheInodes = fs.taken.cacheInodes := newTable_cacheInodes
    apply holds_change listedSame
    · exact fun other member different => newTable_others accounted listed linkable member different
    · exact fun _ same => by cases same
    · intro _ slot
      rw [newTable_tableAt accounted listed linkable, Function.update_apply]
      by_cases here : slot = index
      · rw [if_pos here, if_pos (by rw [here]), entryNumber_of_ne (by omega)]
      · rw [if_neg here, if_neg (fun same => here (Place.table.inj same).2)]
        rfl
    · intro _ slot
      rw [newTable_blockAt accounted listed linkable, if_neg (fun same => by cases same)]
      rfl
    · exact .inl ⟨index, rfl⟩
    · exact listed

end NewTable

end Mksfs
end Ucore
