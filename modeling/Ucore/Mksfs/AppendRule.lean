import Ucore.Mksfs.Append

namespace Ucore
namespace Mksfs

open Library
open Program
open Sfs

/-!
# The rule for appending a block

The branches of `append_block` make the tables ready for the next block, and
then the number is recorded.  Only the file that grows changes.
-/

variable {fs : SfsFs} {pending : List Nat} {file : Nat}

/-! ## Tables that are ready -/

/-- The tables are there for one block more: those that its number goes into
have been made. -/
structure Ready (fs : SfsFs) (pending : List Nat) (file : Nat) (middle : SfsFs) : Prop where
  tabled : Tabled fs file 2 middle
  accounted : Accounted middle pending
  tables : forall index, middle.tableAt file index ≠ 0 <-> index < tableCount ((fs.inode file).nblks + 1)
  first : l0Nblks <= (fs.inode file).nblks ->
    (middle.inode file).l1 = some (middle.tableAt file (tableOf (fs.inode file).nblks))
  second : l1Nblks <= (fs.inode file).nblks -> (middle.inode file).l2 = some (middle.tableAt file 1)

/-- What is known of a table that was looked for. -/
structure Present (fs : SfsFs) (pending : List Nat) (file index : Nat) (middle : SfsFs) : Prop where
  tabled : Tabled fs file 1 middle
  accounted : Accounted middle pending
  has : HasTable middle file index
  table : middle.tableAt file index = if fs.tableAt file index = 0 then fs.nextIno else fs.tableAt file index
  rest : forall other, other ≠ index -> middle.tableAt file other = fs.tableAt file other
  second : index ≠ 1 -> (middle.inode file).l2 = (fs.inode file).l2

theorem Tabled.weaken {cost more : Nat} {after : SfsFs} (tabled : Tabled fs file cost after) (larger : cost <= more) :
    Tabled fs file more after :=
  { tabled with high := Nat.le_trans tabled.high (Nat.add_le_add_left larger _) }

theorem Ensured.present {index : Nat} {middle : SfsFs} (ensured : Ensured fs file index middle)
    (accounted : Accounted fs pending) (listed : file ∈ fs.cacheInodes)
    (linkable : fs.tableAt file index = 0 -> Linkable fs file index) : Present fs pending file index middle := by
  cases ensured with
  | found has =>
      exact ⟨(Tabled.refl fs file).weaken (Nat.zero_le _), accounted, has, (if_neg has.present).symm,
        fun _ _ => rfl, fun _ => rfl⟩
  | added missing room =>
      have link := linkable missing
      refine ⟨.newTable accounted listed link, accounted.newTable room listed link,
        .newTable accounted listed link, ?_, ?_, ?_⟩
      · rw [newTable_tableAt accounted listed link, Function.update_self, if_pos missing]
      · intro other different
        rw [newTable_tableAt accounted listed link, Function.update_of_ne different]
      · intro notSecond
        rw [newTable_inode]
        match index with
        | 0 => rfl
        | 1 => exact absurd rfl notSecond
        | index + 2 => rfl

/-! ## What a file has at hand -/

theorem Shaped.hasTable (shaped : Shaped fs file) (indexed : l0Nblks <= (fs.inode file).nblks)
    (present : fs.tableAt file (tableOf (fs.inode file).nblks) ≠ 0) :
    HasTable fs file (tableOf (fs.inode file).nblks) := by
  have last := tableOf_last indexed ((shaped.tables _).mp present)
  refine ⟨present, ?_⟩
  rw [if_neg (tableOf_ne_one _), shaped.first last.1, last.2]

theorem Shaped.hasTables (shaped : Shaped fs file) (present : fs.tableAt file 1 ≠ 0) : HasTable fs file 1 := by
  have below := (shaped.tables 1).mp present
  have deep : l1Nblks < (fs.inode file).nblks := by
    unfold tableCount at below
    split_ifs at below <;> omega
  exact ⟨present, shaped.second deep⟩

/-! ## The branches -/

variable {fail : Bug -> SfsFs -> Prop} {stop : Assertion -> Prop}

/-- The first branch needs no table. -/
theorem ready_direct (accounted : Accounted fs pending) (shaped : Shaped fs file)
    (direct : (fs.inode file).nblks < l0Nblks) : Ready fs pending file fs where
  tabled := (Tabled.refl fs file).weaken (Nat.zero_le _)
  accounted := accounted
  tables := by
    rw [tableCount_direct direct]
    exact shaped.tables
  first := fun indexed => absurd direct (Nat.not_lt.mpr indexed)
  second := fun deep => absurd (Nat.lt_of_lt_of_le direct (by rw [l0Nblks_eq]; rw [l1Nblks_eq] at deep; omega))
    (Nat.lt_irrefl _)

/-- The second branch needs the first table. -/
theorem ready_indirect {middle : SfsFs} (shaped : Shaped fs file)
    (indexed : l0Nblks <= (fs.inode file).nblks) (low : (fs.inode file).nblks < l1Nblks)
    (present : Present fs pending file 0 middle) : Ready fs pending file middle := by
  have zero : tableOf (fs.inode file).nblks = 0 := if_pos low
  refine ⟨present.tabled.weaken (Nat.le_succ 1), present.accounted, ?_, ?_, ?_⟩
  · intro index
    rw [lt_tableCount_succ indexed, zero]
    by_cases here : index = 0
    · subst here
      exact iff_of_true present.has.present (.inr (.inl rfl))
    · rw [present.rest index here, shaped.tables index]
      exact ⟨.inl, fun either => either.resolve_right (fun other => other.elim here (fun deep => by omega))⟩
  · intro _
    rw [zero]
    exact present.has.handy
  · exact fun deep => absurd low (Nat.not_lt.mpr deep)

/-- The third branch needs the table of tables and a table in it. -/
theorem ready_dbIndirect {second middle : SfsFs} (shaped : Shaped fs file) (deep : l1Nblks <= (fs.inode file).nblks)
    (tables : Present fs pending file 1 second)
    (table : Present second pending file (tableOf (fs.inode file).nblks) middle) : Ready fs pending file middle := by
  have indexed : l0Nblks <= (fs.inode file).nblks := by
    rw [l0Nblks_eq]
    rw [l1Nblks_eq] at deep
    omega
  have notOne := tableOf_ne_one (fs.inode file).nblks
  have one : middle.tableAt file 1 = second.tableAt file 1 := table.rest 1 (fun same => notOne same.symm)
  refine ⟨tables.tabled.trans table.tabled, table.accounted, ?_, ?_, ?_⟩
  · intro index
    rw [lt_tableCount_succ indexed]
    by_cases last : index = tableOf (fs.inode file).nblks
    · rw [last]
      exact iff_of_true table.has.present (.inr (.inl rfl))
    · rw [table.rest index last]
      by_cases first : index = 1
      · subst first
        exact iff_of_true tables.has.present (.inr (.inr ⟨deep, rfl⟩))
      · rw [tables.rest index first, shaped.tables index]
        exact ⟨.inl, fun either => either.resolve_right (fun other => other.elim last (fun both => first both.2))⟩
  · intro _
    have handy := table.has.handy
    rwa [if_neg notOne] at handy
  · intro _
    rw [table.second notOne, one]
    exact tables.has.handy

/-- The branches of `append_block` make the tables ready and record the
number. -/
theorem appendNumber_meets {ino : Nat} {done : Unit -> SfsFs -> Prop} (accounted : Accounted fs pending)
    (shaped : Shaped fs file) (listed : file ∈ fs.cacheInodes) (small : (fs.inode file).nblks < lnNblks)
    (full : fs.ninos < fs.nextIno + 2 -> forall after, fail ⟨"out of disk space.\n"⟩ after)
    (recorded : forall middle, Ready fs pending file middle ->
      done () (middle.record file (fs.inode file).nblks ino)) :
    Meets (appendNumber file (fs.inode file).nblks ino) fs ⟨done, fail, stop⟩ := by
  unfold appendNumber
  by_cases direct : (fs.inode file).nblks < l0Nblks
  · rw [dif_pos direct]
    unfold modifyInode
    rw [meets_modify]
    have written := recorded fs (ready_direct accounted shaped direct)
    unfold SfsFs.record at written
    rw [dif_pos direct] at written
    exact written
  · rw [dif_neg direct]
    have indexed := Nat.le_of_not_lt direct
    by_cases low : (fs.inode file).nblks < l1Nblks
    · rw [if_pos low]
      have zero : tableOf (fs.inode file).nblks = 0 := if_pos low
      have slot : slotOf (fs.inode file).nblks = (fs.inode file).nblks - l0Nblks := if_pos low
      apply appendIndirect_meets
      · intro present
        rw [← zero]
        exact shaped.hasTable indexed (zero.symm ▸ present)
      · exact fun excess => full (by omega) fs
      · intro middle table ensured equal
        have present := ensured.present accounted listed
          (fun missing => ⟨missing, fun deep => absurd deep (by omega)⟩)
        have written := recorded middle (ready_indirect shaped indexed low present)
        unfold SfsFs.record SfsFs.enter at written
        rw [dif_neg direct, zero, slot, present.table, ← equal] at written
        exact written
    · rw [if_neg low, if_pos (Nat.lt_of_lt_of_le small (by decide))]
      have deep := Nat.le_of_not_lt low
      have place : tableOf (fs.inode file).nblks = ((fs.inode file).nblks - l1Nblks) / blkNentry + 2 := if_neg low
      have slot : slotOf (fs.inode file).nblks = ((fs.inode file).nblks - l1Nblks) % blkNentry := if_neg low
      have bound : ((fs.inode file).nblks - l1Nblks) / blkNentry < blkNentry := by
        unfold lnNblks maxFileSize blksize at small
        rw [blkNentry_eq]
        omega
      apply appendDbIndirect_meets shaped.hasTables
      · exact fun excess => full (by omega) fs
      · intro second table ensured equal
        have tables := ensured.present accounted listed
          (fun missing => ⟨missing, fun deeper => absurd deeper (by omega)⟩)
        have secondListed : file ∈ second.cacheInodes := by
          rw [tables.tabled.cacheInodes]
          exact listed
        rw [equal, ← tables.table]
        have notOne := tableOf_ne_one (fs.inode file).nblks
        have same := tables.rest _ notOne
        apply appendInner_meets tables.has bound place
        · intro present
          cases ensured with
          | found has => exact shaped.hasTable indexed present
          | added missing room =>
              rw [same] at present
              have below := (shaped.tables _).mp present
              rw [place] at below
              have first : 1 < tableCount (fs.inode file).nblks :=
                Nat.lt_of_le_of_lt (Nat.le_add_left_of_le (by decide)) below
              exact absurd missing ((shaped.tables 1).mpr first)
        · intro excess
          have high := tables.tabled.high
          have limit := tables.tabled.ninos
          exact full (by omega) _
        · intro middle inner ensuredInner equalInner
          have present := ensuredInner.present tables.accounted secondListed (fun missing =>
            ⟨missing, fun _ => ⟨tables.has.present, by omega⟩⟩)
          have written := recorded middle (ready_dbIndirect shaped deep tables present)
          unfold SfsFs.record SfsFs.enter at written
          rw [dif_neg direct, slot, present.table, ← equalInner] at written
          exact written

/-! ## The whole of `append_block` -/

/-- A block was appended to the file, and the other files are as before. -/
structure Appended (fs : SfsFs) (file size ino : Nat) (after : SfsFs) : Prop where
  inodes : after.inodes = fs.inodes
  self : SameFile ((fs.inode file).grow size) (after.inode file)
  others : forall other, other ≠ file -> after.inode other = fs.inode other
  blocks : forall other, other ∈ fs.cacheInodes -> after.blockAt other =
    if other = file then Function.update (fs.blockAt file) (fs.inode file).nblks ino else fs.blockAt other
  disk : after.disk = fs.disk
  entryName : after.entryName = fs.entryName
  ninos : after.ninos = fs.ninos
  low : fs.nextIno <= after.nextIno
  high : after.nextIno <= fs.nextIno + 2

theorem record_self {index ino : Nat} : SameFile (fs.inode file) ((fs.record file index ino).inode file) := by
  unfold SfsFs.record
  split
  · rw [setInode_inode]
    exact ⟨rfl, rfl, rfl, rfl, rfl, rfl⟩
  · exact .refl _

theorem record_handy {index ino : Nat} : ((fs.record file index ino).inode file).l1 = (fs.inode file).l1 /\
    ((fs.record file index ino).inode file).l2 = (fs.inode file).l2 := by
  unfold SfsFs.record
  split
  · rw [setInode_inode]
    exact ⟨rfl, rfl⟩
  · exact ⟨rfl, rfl⟩

theorem record_other {index ino other : Nat} (different : other ≠ file) :
    (fs.record file index ino).inode other = fs.inode other := by
  unfold SfsFs.record
  split
  · exact setInode_other different _
  · rfl

theorem record_disk {index ino : Nat} : (fs.record file index ino).disk = fs.disk /\
    (fs.record file index ino).entryName = fs.entryName := by
  unfold SfsFs.record
  split
  · exact ⟨rfl, rfl⟩
  · exact ⟨rfl, rfl⟩

/-- A change of the counts of an inode.  The blocks that it refers to stay, so
nothing changes in who holds a number. -/
structure Recounted (fs : SfsFs) (file : Nat) (after : SfsFs) : Prop where
  same : Exists fun ci => after = fs.setInode file ci /\ ci.inode.direct = (fs.inode file).inode.direct /\
    ci.inode.indirect = (fs.inode file).inode.indirect /\ ci.inode.dbIndirect = (fs.inode file).inode.dbIndirect

theorem Recounted.numbers {after : SfsFs} (recounted : Recounted fs file after) (other : Nat) :
    after.tableAt other = fs.tableAt other /\ after.blockAt other = fs.blockAt other := by
  rcases recounted.same with ⟨ci, rfl, direct, indirect, dbIndirect⟩
  by_cases same : other = file
  · subst same
    have tables : (fs.setInode other ci).tableAt other = fs.tableAt other :=
      tableAt_congr (by rw [setInode_inode, indirect]) (by rw [setInode_inode, dbIndirect]) (fun _ => rfl)
    exact ⟨tables, blockAt_congr (by rw [setInode_inode, direct]) tables (fun _ _ => rfl)⟩
  · exact numbers_congr (setInode_other same ci) (fun _ _ => rfl)

theorem Recounted.holds {after : SfsFs} (recounted : Recounted fs file after) : after.holds = fs.holds := by
  have listed : after.cacheInodes = fs.cacheInodes := by
    rcases recounted.same with ⟨ci, rfl, _⟩
    rfl
  funext place
  cases place with
  | inode ino => rw [SfsFs.holds, SfsFs.holds, listed]
  | table other index => rw [SfsFs.holds, SfsFs.holds, listed, (recounted.numbers other).1]
  | data other index => rw [SfsFs.holds, SfsFs.holds, listed, (recounted.numbers other).2]

theorem Accounted.recounted {after : SfsFs} (accounted : Accounted fs pending) (recounted : Recounted fs file after) :
    Accounted after pending := by
  rcases recounted.same with ⟨ci, rfl, rest⟩
  exact accounted.of_same (Recounted.holds ⟨ci, rfl, rest⟩) ⟨rfl, rfl, rfl⟩ rfl rfl

/-- A file that has its tables ready grows by one block. -/
theorem Ready.grown {size ino : Nat} {middle : SfsFs} (ready : Ready fs (ino :: pending) file middle)
    (sound : Sound fs (ino :: pending)) (listed : file ∈ fs.cacheInodes) (small : (fs.inode file).nblks < lnNblks) :
    let final := (middle.record file (fs.inode file).nblks ino).setInode file
      (((middle.record file (fs.inode file).nblks ino).inode file).grow size)
    Appended fs file size ino final /\ Sound final pending := by
  intro final
  have tabled := ready.tabled
  have accounted := ready.accounted
  have listedThere : file ∈ middle.cacheInodes := by
    rw [tabled.cacheInodes]
    exact listed
  have shaped := sound.shaped file listed
  have recordable : Recordable middle file (fs.inode file).nblks := by
    intro indexed
    apply (ready.tables _).mpr
    rw [tableCount_succ indexed]
    exact Nat.lt_succ_self _
  have empty : middle.blockAt file (fs.inode file).nblks = 0 := by
    rw [tabled.blocks]
    by_cases present : fs.blockAt file (fs.inode file).nblks = 0
    · exact present
    · exact absurd ((shaped.blocks _).mp present) (Nat.lt_irrefl _)
  have recounted : Recounted (middle.record file (fs.inode file).nblks ino) file final :=
    ⟨_, rfl, rfl, rfl, rfl⟩
  have self : final.inode file = ((middle.record file (fs.inode file).nblks ino).inode file).grow size :=
    setInode_inode ..
  have same : SameFile (fs.inode file) ((middle.record file (fs.inode file).nblks ino).inode file) :=
    tabled.self.trans record_self
  have positive : ino ≠ 0 := by
    have bounds := accounted.taken ino (List.mem_cons_self ..)
    unfold SfsFs.firstIno blknFreemap at bounds
    omega
  have fileBlocks : final.blockAt file = Function.update (fs.blockAt file) (fs.inode file).nblks ino := by
    rw [(recounted.numbers file).2, record_blockAt accounted listedThere recordable, tabled.blocks]
  have fileTables : final.tableAt file = middle.tableAt file := by
    rw [(recounted.numbers file).1, record_tableAt accounted listedThere recordable listedThere]
  have otherNumbers : forall other, other ∈ fs.cacheInodes -> other ≠ file ->
      final.tableAt other = fs.tableAt other /\ final.blockAt other = fs.blockAt other := by
    intro other member different
    have there : other ∈ middle.cacheInodes := by
      rw [tabled.cacheInodes]
      exact member
    have before := tabled.numbers other member different
    have after := recounted.numbers other
    rw [record_tableAt accounted listedThere recordable there,
      record_others accounted listedThere recordable there different] at after
    exact ⟨after.1.trans before.1, after.2.trans before.2⟩
  have others : forall other, other ≠ file -> final.inode other = fs.inode other := by
    intro other different
    exact (setInode_other different _).trans ((record_other different).trans (tabled.others other different))
  have lists : final.inodes = fs.inodes := record_inodes.trans tabled.inodes
  have cacheInodes : final.cacheInodes = fs.cacheInodes := by
    unfold SfsFs.cacheInodes
    rw [lists]
  have counter : SameCounter middle (middle.record file (fs.inode file).nblks ino) := record_counter
  have fileInode : SameFile ((fs.inode file).grow size) (final.inode file) := by
    rw [self]
    refine ⟨same.real, congrArg (fun n => n + 1) same.nblks, congrArg (fun n => n + size) same.size, same.type,
      same.nlinks, congrArg (fun n => n + 1) same.blocks⟩
  have nblks : (final.inode file).nblks = (fs.inode file).nblks + 1 := fileInode.nblks
  constructor
  · refine ⟨lists, fileInode, others, ?_, record_disk.1.trans tabled.disk, record_disk.2.trans tabled.entryName,
      counter.ninos.trans tabled.ninos, ?_, ?_⟩
    · intro other member
      by_cases here : other = file
      · rw [if_pos here, here, fileBlocks]
      · rw [if_neg here, (otherNumbers other member here).2]
    · change _ <= (middle.record file (fs.inode file).nblks ino).nextIno
      rw [counter.nextIno]
      exact tabled.low
    · change (middle.record file (fs.inode file).nblks ino).nextIno <= _
      rw [counter.nextIno]
      exact tabled.high
  · refine ⟨(accounted.record listedThere recordable empty).recounted recounted, ?_⟩
    intro other member
    rw [cacheInodes] at member
    by_cases here : other = file
    · subst here
      refine ⟨?_, ?_, ?_, ?_, ?_, ?_⟩
      · intro index
        rw [fileBlocks, Function.update_apply, nblks]
        by_cases last : index = (fs.inode other).nblks
        · rw [if_pos last]
          exact iff_of_true positive (by omega)
        · rw [if_neg last, shaped.blocks]
          omega
      · intro index
        rw [fileTables, nblks]
        exact ready.tables index
      · rw [fileInode.blocks, nblks]
        exact congrArg (fun n => n + 1) shaped.counted
      · rw [nblks]
        exact small
      · rw [nblks, fileTables]
        intro indexed
        rw [self]
        change ((middle.record other (fs.inode other).nblks ino).inode other).l1 = _
        rw [record_handy.1, Nat.add_sub_cancel]
        exact ready.first (Nat.le_of_lt_succ indexed)
      · rw [nblks, fileTables]
        intro deep
        rw [self]
        change ((middle.record other (fs.inode other).nblks ino).inode other).l2 = _
        rw [record_handy.2]
        exact ready.second (Nat.le_of_lt_succ deep)
    · have numbers := otherNumbers other member here
      exact (sound.shaped other member).of_same (others other here) numbers.1 numbers.2

theorem appendBlock_meets {size ino : Nat} {done : Unit -> SfsFs -> Prop} (sound : Sound fs (ino :: pending))
    (listed : file ∈ fs.cacheInodes) (fits : size <= blksize)
    (tooBig : lnNblks <= (fs.inode file).nblks -> fail ⟨"file is too big.\n"⟩ fs)
    (full : fs.ninos < fs.nextIno + 2 -> forall after, fail ⟨"out of disk space.\n"⟩ after)
    (appended : forall after, Appended fs file size ino after -> Sound after pending -> done () after) :
    Meets (appendBlock file size ino) fs ⟨done, fail, stop⟩ := by
  unfold appendBlock
  simp only [meets_bind, meets_assert, meets_get, meets_ite, meets_throw]
  refine ⟨fun _ => ?_, fun broken => absurd fits broken⟩
  by_cases big : lnNblks <= (fs.inode file).nblks
  · rw [if_pos big]
    exact tooBig big
  · rw [if_neg big]
    have small := Nat.lt_of_not_le big
    apply appendNumber_meets sound.accounted (sound.shaped file listed) listed small full
    intro middle ready
    exact appended _ (ready.grown sound listed small).1 (ready.grown sound listed small).2

end Mksfs
end Ucore
