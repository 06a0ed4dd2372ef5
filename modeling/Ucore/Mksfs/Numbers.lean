import Ucore.Library.Ownership
import Ucore.Mksfs.Image

namespace Ucore
namespace Mksfs

open Library
open Sfs

/-!
# Who holds which number

The numbers that the counter has given out are those of inodes, of tables and
of blocks with data.  A file reaches its tables in the order of their
allocation: the first one, the table of tables, and the tables listed in it.
A number that has been taken and is held by no file yet is pending.
-/

/-- What a number is for.  The index of data is that of the block in its file. -/
inductive Place where
  | inode (ino : Nat)
  | table (file index : Nat)
  | data (file index : Nat)
deriving DecidableEq

/-- The table that lists the block, counted in the order of allocation. -/
def tableOf (index : Nat) : Nat := if index < l1Nblks then 0 else (index - l1Nblks) / blkNentry + 2

def slotOf (index : Nat) : Nat := if index < l1Nblks then index - l0Nblks else (index - l1Nblks) % blkNentry

/-- The tables of a file with so many blocks. -/
def tableCount (nblks : Nat) : Nat :=
  if nblks <= l0Nblks then 0
  else if nblks <= l1Nblks then 1
  else (nblks - l1Nblks + blkNentry - 1) / blkNentry + 2

/-- A number in a table; 0 is none. -/
def entryNumber (ino : Nat) : Option Nat := if ino = 0 then none else some ino

theorem entryNumber_eq_some {ino number : Nat} : entryNumber ino = some number <-> ino = number /\ number ≠ 0 := by
  unfold entryNumber
  split
  · rename_i zero
    exact iff_of_false (fun absent => nomatch absent) (fun both => both.2 (both.1 ▸ zero))
  · rename_i positive
    rw [Option.some.injEq]
    exact ⟨fun same => ⟨same, same ▸ positive⟩, fun both => both.1⟩

@[simp] theorem entryNumber_zero : entryNumber 0 = none := rfl

theorem entryNumber_of_ne {ino : Nat} (positive : ino ≠ 0) : entryNumber ino = some ino := if_neg positive

namespace SfsFs

variable (fs : SfsFs)

/-- The cache inodes and cache blocks, over all hash lists. -/
def cacheInodes : List Nat := (List.range hashListSize).flatMap fs.inodes

def cacheBlocks : List Nat := (List.range hashListSize).flatMap fs.blocks

/-- The first number of the counter. -/
def firstIno : Nat := blknFreemap + roundupDiv fs.ninos blkbits

/-- The table of a file, 0 for none. -/
def tableAt (file : Nat) : Nat -> Nat
  | 0 => (fs.inode file).inode.indirect
  | 1 => (fs.inode file).inode.dbIndirect
  | index + 2 =>
      if (fs.inode file).inode.dbIndirect ≠ 0 /\ index < blkNentry then
        fs.cache (fs.inode file).inode.dbIndirect index
      else 0

/-- The block of a file, 0 for none. -/
def blockAt (file index : Nat) : Nat :=
  if direct : index < l0Nblks then (fs.inode file).inode.direct ⟨index, direct⟩
  else if fs.tableAt file (tableOf index) ≠ 0 then fs.cache (fs.tableAt file (tableOf index)) (slotOf index)
  else 0

def holds : Place -> Option Nat
  | .inode ino => if ino ∈ fs.cacheInodes then some ino else none
  | .table file index => if file ∈ fs.cacheInodes then entryNumber (fs.tableAt file index) else none
  | .data file index => if file ∈ fs.cacheInodes then entryNumber (fs.blockAt file index) else none

/-- The number is not one of the counter's, has not been taken, or is
pending. -/
def Unplaced (pending : List Nat) (number : Nat) : Prop :=
  number ∈ pending \/ fs.nextIno <= number \/ (number < fs.firstIno /\ number ≠ blknRoot)

end SfsFs

/-- Every number taken is held once or pending, that is, on its way from
`sfs_alloc_ino` to the place that will hold it. -/
structure Accounted (fs : SfsFs) (pending : List Nat) : Prop where
  exclusive : Exclusive fs.holds (fs.Unplaced pending)
  covered : forall number, fs.firstIno <= number -> number < fs.nextIno ->
    number ∈ pending \/ Exists fun place => fs.holds place = some number
  taken : forall number, number ∈ pending -> fs.firstIno <= number /\ number < fs.nextIno
  distinct : pending.Nodup
  cached : forall number, number ∈ fs.cacheBlocks <->
    Exists fun file => Exists fun index => fs.holds (.table file index) = some number
  magic : fs.super.magic = sfsMagic
  blocks : fs.super.blocks = fs.ninos
  unused : fs.super.unusedBlocks + fs.nextIno = fs.ninos
  small : fs.ninos <= maxNblks
  started : fs.firstIno <= fs.nextIno
  root : blknRoot ∈ fs.cacheInodes

/-! ## Lists -/

section Lists

variable {fs : SfsFs} {bucket number ino : Nat}

theorem hash32_lt (val : Nat) : hash32 val < hashListSize := by
  have low := Nat.mod_lt (val * 0x9e370001) (show 2 ^ 32 > 0 by decide)
  unfold hash32 hashListSize
  omega

theorem mem_update_lists {lists : Nat -> List Nat} (low : bucket < hashListSize) :
    ino ∈ (List.range hashListSize).flatMap (Function.update lists bucket (number :: lists bucket)) <->
      ino = number \/ ino ∈ (List.range hashListSize).flatMap lists := by
  simp only [List.mem_flatMap, List.mem_range]
  constructor
  · rintro ⟨other, below, member⟩
    by_cases same : other = bucket
    · subst same
      rw [Function.update_self, List.mem_cons] at member
      exact member.imp id (fun old => ⟨other, below, old⟩)
    · rw [Function.update_of_ne same] at member
      exact .inr ⟨other, below, member⟩
  · rintro (rfl | ⟨other, below, member⟩)
    · exact ⟨bucket, low, by rw [Function.update_self]; exact List.mem_cons_self ..⟩
    · by_cases same : other = bucket
      · subst same
        exact ⟨other, below, by rw [Function.update_self]; exact List.mem_cons_of_mem _ member⟩
      · exact ⟨other, below, by rw [Function.update_of_ne same]; exact member⟩

theorem mem_addCacheInode (low : bucket < hashListSize) (file : CacheInode) :
    ino ∈ (fs.addCacheInode bucket number file).cacheInodes <-> ino = number \/ ino ∈ fs.cacheInodes :=
  mem_update_lists low

theorem mem_addCacheBlock (low : bucket < hashListSize) :
    ino ∈ (fs.addCacheBlock bucket number).cacheBlocks <-> ino = number \/ ino ∈ fs.cacheBlocks :=
  mem_update_lists low

end Lists

/-! ## Taking and placing -/

section Placing

variable {fs after : SfsFs} {pending : List Nat}

theorem holds_taken : fs.taken.holds = fs.holds := rfl

/-- A number is taken from the counter. -/
theorem Accounted.taken_pending (accounted : Accounted fs pending) (room : fs.nextIno < fs.ninos) :
    Accounted fs.taken (fs.nextIno :: pending) where
  exclusive := accounted.exclusive.weaken (fun _ _ held => held) (by
    rintro place number held (member | above | outside)
    · rcases List.mem_cons.mp member with rfl | old
      · exact .inr (.inl (Nat.le_refl _))
      · exact .inl old
    · exact .inr (.inl (Nat.le_of_succ_le above))
    · exact .inr (.inr outside))
  covered := by
    intro number low high
    by_cases last : number = fs.nextIno
    · exact .inl (last ▸ List.mem_cons_self ..)
    · have below : number < fs.nextIno := Nat.lt_of_le_of_ne (Nat.le_of_lt_succ high) last
      exact (accounted.covered number low below).imp (List.mem_cons_of_mem _) id
  taken := by
    intro number member
    rcases List.mem_cons.mp member with rfl | old
    · exact ⟨accounted.started, Nat.lt_succ_self _⟩
    · have bounds := accounted.taken number old
      exact ⟨bounds.1, Nat.lt_succ_of_lt bounds.2⟩
  distinct := List.nodup_cons.mpr
    ⟨fun member => Nat.lt_irrefl _ (accounted.taken _ member).2, accounted.distinct⟩
  cached := accounted.cached
  magic := accounted.magic
  blocks := accounted.blocks
  unused := by
    have balance := accounted.unused
    change fs.super.unusedBlocks - 1 + (fs.nextIno + 1) = fs.ninos
    omega
  small := accounted.small
  started := Nat.le_succ_of_le accounted.started
  root := accounted.root

/-- What stays the same when a number is placed. -/
structure SameCounter (fs after : SfsFs) : Prop where
  ninos : after.ninos = fs.ninos
  nextIno : after.nextIno = fs.nextIno
  super : after.super = fs.super

theorem SameCounter.firstIno (same : SameCounter fs after) : after.firstIno = fs.firstIno := by
  unfold SfsFs.firstIno
  rw [same.ninos]

theorem Accounted.placed {number : Nat} (accounted : Accounted fs (number :: pending)) {place : Place}
    (empty : fs.holds place = none) (moved : after.holds = Function.update fs.holds place (some number))
    (same : SameCounter fs after) (root : blknRoot ∈ after.cacheInodes)
    (cached : forall other, other ∈ after.cacheBlocks <->
      (other = number /\ Exists fun file => Exists fun index => place = .table file index) \/
        other ∈ fs.cacheBlocks) : Accounted after pending where
  exclusive := by
    rw [moved]
    apply accounted.exclusive.take (.inl (List.mem_cons_self ..))
    intro other unplaced
    have bounds := accounted.taken number (List.mem_cons_self ..)
    unfold SfsFs.Unplaced at unplaced ⊢
    rw [same.firstIno, same.nextIno] at unplaced
    have absent := (List.nodup_cons.mp accounted.distinct).1
    rcases unplaced with member | above | outside
    · exact ⟨.inl (List.mem_cons_of_mem _ member), fun equal => absent (equal ▸ member)⟩
    · exact ⟨.inr (.inl above), by omega⟩
    · exact ⟨.inr (.inr outside), by omega⟩
  covered := by
    intro other low high
    rw [same.firstIno] at low
    rw [same.nextIno] at high
    by_cases placed : other = number
    · exact .inr ⟨place, by rw [moved, Function.update_self, placed]⟩
    · rcases accounted.covered other low high with member | ⟨holder, held⟩
      · exact .inl ((List.mem_cons.mp member).resolve_left placed)
      · have different : holder ≠ place := fun equal => by
          rw [equal, empty] at held
          cases held
        exact .inr ⟨holder, by rw [moved, Function.update_of_ne different, held]⟩
  taken := by
    intro other member
    rw [same.firstIno, same.nextIno]
    exact accounted.taken other (List.mem_cons_of_mem _ member)
  distinct := (List.nodup_cons.mp accounted.distinct).2
  cached := by
    intro other
    rw [cached, moved]
    constructor
    · rintro (⟨rfl, file, index, rfl⟩ | old)
      · exact ⟨file, index, Function.update_self ..⟩
      · rcases (accounted.cached other).mp old with ⟨file, index, held⟩
        have different : Place.table file index ≠ place := fun equal => by
          rw [equal, empty] at held
          cases held
        exact ⟨file, index, by rw [Function.update_of_ne different, held]⟩
    · rintro ⟨file, index, held⟩
      by_cases here : Place.table file index = place
      · rw [here, Function.update_self] at held
        cases held
        exact .inl ⟨rfl, file, index, here.symm⟩
      · rw [Function.update_of_ne here] at held
        exact .inr ((accounted.cached other).mpr ⟨file, index, held⟩)
  magic := by rw [same.super, accounted.magic]
  blocks := by rw [same.super, same.ninos, accounted.blocks]
  unused := by rw [same.super, same.nextIno, same.ninos, accounted.unused]
  small := same.ninos ▸ accounted.small
  started := by
    rw [same.firstIno, same.nextIno]
    exact accounted.started
  root := root

/-- A step that leaves the holders and the counter alone. -/
theorem Accounted.of_same (accounted : Accounted fs pending) (holders : after.holds = fs.holds)
    (same : SameCounter fs after) (cached : after.cacheBlocks = fs.cacheBlocks)
    (listed : after.cacheInodes = fs.cacheInodes) : Accounted after pending where
  exclusive := by
    rw [holders]
    refine accounted.exclusive.weaken (fun _ _ held => held) (fun _ number _ unplaced => ?_)
    unfold SfsFs.Unplaced at unplaced ⊢
    rwa [same.firstIno, same.nextIno] at unplaced
  covered := by
    intro number low high
    rw [holders]
    exact accounted.covered number (same.firstIno ▸ low) (same.nextIno ▸ high)
  taken := by
    intro number member
    rw [same.firstIno, same.nextIno]
    exact accounted.taken number member
  distinct := accounted.distinct
  cached := by
    rw [cached, holders]
    exact accounted.cached
  magic := by rw [same.super, accounted.magic]
  blocks := by rw [same.super, same.ninos, accounted.blocks]
  unused := by rw [same.super, same.nextIno, same.ninos, accounted.unused]
  small := same.ninos ▸ accounted.small
  started := by
    rw [same.firstIno, same.nextIno]
    exact accounted.started
  root := by
    rw [listed]
    exact accounted.root

end Placing

/-! ## What is held -/

namespace Accounted

variable {fs : SfsFs} {pending : List Nat}

theorem held_bounds (accounted : Accounted fs pending) {place : Place} {number : Nat}
    (held : fs.holds place = some number) :
    number = blknRoot \/ (fs.firstIno <= number /\ number < fs.nextIno) := by
  have placed := accounted.exclusive.inUse place number held
  unfold SfsFs.Unplaced at placed
  by_cases root : number = blknRoot
  · exact .inl root
  · refine .inr ⟨?_, ?_⟩
    · exact Nat.le_of_not_lt fun low => placed (.inr (.inr ⟨low, root⟩))
    · exact Nat.lt_of_not_le fun high => placed (.inr (.inl high))

theorem root_lt (accounted : Accounted fs pending) : blknRoot < fs.nextIno := by
  have started := accounted.started
  unfold SfsFs.firstIno blknFreemap at started
  unfold blknRoot
  omega

theorem held_lt (accounted : Accounted fs pending) {place : Place} {number : Nat}
    (held : fs.holds place = some number) : number < fs.nextIno := by
  rcases accounted.held_bounds held with rfl | bounds
  · exact accounted.root_lt
  · exact bounds.2

theorem holds_inode {ino : Nat} (listed : ino ∈ fs.cacheInodes) : fs.holds (.inode ino) = some ino := by
  rw [SfsFs.holds, if_pos listed]

theorem holds_table {file index : Nat} (listed : file ∈ fs.cacheInodes) (present : fs.tableAt file index ≠ 0) :
    fs.holds (.table file index) = some (fs.tableAt file index) := by
  rw [SfsFs.holds, if_pos listed, entryNumber_of_ne present]

theorem holds_data {file index : Nat} (listed : file ∈ fs.cacheInodes) (present : fs.blockAt file index ≠ 0) :
    fs.holds (.data file index) = some (fs.blockAt file index) := by
  rw [SfsFs.holds, if_pos listed, entryNumber_of_ne present]

theorem inode_lt (accounted : Accounted fs pending) {ino : Nat} (listed : ino ∈ fs.cacheInodes) :
    ino < fs.nextIno := accounted.held_lt (holds_inode listed)

theorem not_listed (accounted : Accounted fs pending) : fs.nextIno ∉ fs.cacheInodes := fun listed =>
  Nat.lt_irrefl _ (accounted.inode_lt listed)

theorem tableAt_lt (accounted : Accounted fs pending) {file : Nat} (listed : file ∈ fs.cacheInodes) (index : Nat) :
    fs.tableAt file index < fs.nextIno := by
  by_cases present : fs.tableAt file index = 0
  · have positive := accounted.root_lt
    unfold blknRoot at positive
    omega
  · exact accounted.held_lt (holds_table listed present)

/-- A table belongs to one file, and is there once. -/
theorem table_once (accounted : Accounted fs pending) {file other index slot : Nat} (listed : file ∈ fs.cacheInodes)
    (alsoListed : other ∈ fs.cacheInodes) (present : fs.tableAt file index ≠ 0)
    (same : fs.tableAt other slot = fs.tableAt file index) : other = file /\ slot = index := by
  have equal := accounted.exclusive.once (.table other slot) (.table file index) (fs.tableAt file index)
    (by rw [← same]; exact holds_table alsoListed (same ▸ present)) (holds_table listed present)
  exact ⟨(Place.table.inj equal).1, (Place.table.inj equal).2⟩

end Accounted

end Mksfs
end Ucore
