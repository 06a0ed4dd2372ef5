import Ucore.Sfs.Growth

namespace Ucore
namespace Sfs

open Library
open Program

/-!
# Rules for block maps

The rules of the functions that read and extend block maps.  They leave open
only what a caller has to exclude: an index beyond the end, a hole, or an
index that no map reaches.
-/

namespace SfsFs

variable {fs after : SfsFs} {files : List Nat} {sin : Nat}

/-- Nothing has been added, since a transfer failed or blocks ran out. -/
structure Refused (fs : SfsFs) (need cost : Nat) (error : Errno) (after : SfsFs) : Prop where
  quiet : Quiet fs after
  reason : fs.Fails cost \/
    (error = .noMem /\ fs.super.unusedBlocks < need /\ after.super = fs.super /\ after.freemap = fs.freemap)

theorem Fails.mono {first second : Nat} (fails : fs.Fails first) (more : first <= second) : fs.Fails second := by
  rcases fails with ⟨number, low, error⟩
  exact ⟨number, Nat.lt_of_lt_of_le low more, error⟩

theorem Fails.of_error (number : Nat) {count : Nat} {error : Errno} (failed : fs.nextError number = some error)
    (low : number < count) : fs.Fails count :=
  ⟨number, low, by rw [failed]; exact Option.some_ne_none error⟩

theorem not_fails_zero : ¬ fs.Fails 0 := by
  rintro ⟨number, low, _⟩
  exact absurd low (Nat.not_lt_zero number)

theorem nextError_tick (fs : SfsFs) (number : Nat) : fs.tick.nextError number = fs.nextError (number + 1) := by
  unfold nextError
  change fs.device.error (fs.device.transfers + 1 + number) = _
  rw [show fs.device.transfers + 1 + number = fs.device.transfers + (number + 1) by omega]

/-- The next transfer and those after it. -/
theorem not_fails_succ {count : Nat} (first : fs.nextError 0 = none) (rest : ¬ fs.tick.Fails count) :
    ¬ fs.Fails (count + 1) := by
  rintro ⟨number, low, error⟩
  cases number with
  | zero => exact error first
  | succ number => exact rest ⟨number, by omega, fs.nextError_tick number ▸ error⟩

theorem Fails.tickBefore {count : Nat} (fails : fs.tick.Fails count) : fs.Fails (count + 1) := by
  rcases fails with ⟨number, low, error⟩
  exact ⟨number + 1, by omega, fs.nextError_tick number ▸ error⟩

/-- A block of the map is in use. -/
theorem Owned.blockOf_place (owned : fs.Owned files) (loaded : sin ∈ fs.inodeList) {index : Nat}
    (present : fs.blockOf (fs.inode sin).din index ≠ 0) :
    Exists fun place => place.IsData /\ fs.holds files place = some (fs.blockOf (fs.inode sin).din index) := by
  have member := owned.loaded sin loaded
  have din : fs.dinOf sin = (fs.inode sin).din := dinOf_loaded loaded
  unfold blockOf at present ⊢
  by_cases direct : index < ndirect
  · rw [dif_pos direct] at present ⊢
    refine ⟨.direct sin ⟨index, direct⟩, trivial, ?_⟩
    rw [holds, if_pos member, din]
    exact entryBlock_eq_some.mpr ⟨rfl, present⟩
  · rw [dif_neg direct] at present ⊢
    by_cases inTable : index - ndirect < blkNentry /\ (fs.inode sin).din.indirect ≠ 0
    · rw [if_pos inTable] at present ⊢
      refine ⟨.entry sin (index - ndirect), trivial, ?_⟩
      rw [holds, din, if_pos ⟨member, inTable.2, inTable.1⟩]
      exact entryBlock_eq_some.mpr ⟨rfl, present⟩
    · rw [if_neg inTable] at present
      exact absurd rfl present

theorem Owned.blockOf_valid (owned : fs.Owned files) (loaded : sin ∈ fs.inodeList) {index : Nat}
    (present : fs.blockOf (fs.inode sin).din index ≠ 0) : fs.Valid (fs.blockOf (fs.inode sin).din index) := by
  rcases owned.blockOf_place loaded present with ⟨place, data, held⟩
  apply owned.valid held
  rintro rfl
  exact data

theorem Owned.blockOf_inUse (owned : fs.Owned files) (loaded : sin ∈ fs.inodeList) {index : Nat}
    (present : fs.blockOf (fs.inode sin).din index ≠ 0) :
    fs.freemap.bit (fs.blockOf (fs.inode sin).din index) = false := by
  rcases owned.blockOf_place loaded present with ⟨place, _, held⟩
  exact owned.inUse held

theorem Owned.indirect_valid (owned : fs.Owned files) (loaded : sin ∈ fs.inodeList)
    (indexed : (fs.inode sin).din.indirect ≠ 0) : fs.Valid (fs.inode sin).din.indirect := by
  have din : fs.dinOf sin = (fs.inode sin).din := dinOf_loaded loaded
  have held : fs.holds files (.indirect sin) = some (fs.inode sin).din.indirect := by
    rw [holds, if_pos (owned.loaded sin loaded), din]
    exact entryBlock_eq_some.mpr ⟨rfl, indexed⟩
  exact owned.valid held (by simp)

theorem Owned.indirect_used (owned : fs.Owned files) (loaded : sin ∈ fs.inodeList)
    (indexed : (fs.inode sin).din.indirect ≠ 0) : fs.freemap.bit (fs.inode sin).din.indirect = false := by
  have din : fs.dinOf sin = (fs.inode sin).din := dinOf_loaded loaded
  exact din ▸ owned.indirect_inUse (owned.loaded sin loaded) (din ▸ indexed)

end SfsFs

open SfsFs

variable {fs : SfsFs} {files : List Nat} {sin : Nat} {fail : Errno -> SfsFs -> Prop} {stop : Fault -> Prop}

/-! ## Adding an entry -/

/-- `sfs_bmap_get_sub_nolock` at an empty entry of an existing block. -/
theorem bmapAllocSub_entry {index : Nat} {done : Nat × Nat -> SfsFs -> Prop} (owned : fs.Owned files)
    (loaded : sin ∈ fs.inodeList) (indexed : (fs.inode sin).din.indirect ≠ 0) (low : index < blkNentry)
    (refused : forall error after, Refused fs 1 3 error after -> fail error after)
    (added : forall blkno, fs.freemap.bit blkno = true -> ¬ fs.Fails 3 ->
      done ((fs.inode sin).din.indirect, blkno) (fs.addEntry sin index blkno)) :
    Meets (bmapAllocSub (fs.inode sin).din.indirect (fs.inode sin).din.indirect (index * 4)) fs
      ⟨done, fail, stop⟩ := by
  have valid := owned.indirect_valid loaded indexed
  have used := owned.indirect_used loaded indexed
  unfold bmapAllocSub
  simp only [meets_onError, meets_bind, meets_pure, ne_eq, not_true_eq_false, if_false]
  apply blockAlloc_meets owned
  · intro none
    exact refused _ _ ⟨Quiet.refl fs, .inr ⟨rfl, by omega, rfl, rfl⟩⟩
  · intro blkno error free failed
    exact refused _ _ ⟨(Quiet.taken owned free).ticked, .inl (Fails.of_error 0 failed (by omega))⟩
  · intro blkno free fine
    have quiet := Quiet.cleared owned free
    have blockValid := quiet.valid (owned.valid_of_free free)
    have inMap := owned.lt_nbits (owned.accounted.bits blkno free)
    have blockUsed : (fs.cleared blkno).freemap.bit blkno = false := Function.update_self ..
    apply wbuf_meets (quiet.valid valid)
    · simp only [blksize, blkNentry] at *
      omega
    · simp only [blksize, blkNentry] at *
      omega
    · intro error failed
      have before : Quiet fs (fs.cleared blkno).tick := quiet.ticked
      apply blockFree_meets (before.valid (owned.valid_of_free free)) inMap blockUsed
      exact refused _ _ ⟨before.given owned free blockUsed, .inl (Fails.of_error 1 failed (by omega))⟩
    · intro error _ failed
      have before : Quiet fs (fs.cleared blkno).tick.tick := quiet.ticked.ticked
      apply blockFree_meets (before.valid (owned.valid_of_free free)) inMap blockUsed
      exact refused _ _ ⟨before.given owned free blockUsed, .inl (Fails.of_error 2 failed (by omega))⟩
    · intro second third
      apply added blkno free
      exact not_fails_succ fine (not_fails_succ second (not_fails_succ third not_fails_zero))

/-- The same with a new indirect block. -/
theorem bmapAllocSub_indirect {index ent : Nat} {done : Nat × Nat -> SfsFs -> Prop} (owned : fs.Owned files)
    (freeEnt : fs.freemap.bit ent = true) (fineEnt : fs.nextError 0 = none) (low : index < blkNentry)
    (refused : forall error after, Refused fs 2 4 error after -> fail error after)
    (added : forall blkno, (fs.cleared ent).freemap.bit blkno = true -> ¬ fs.Fails 4 ->
      done (ent, blkno) (((fs.cleared ent).cleared blkno).tick.store ent
        (splice (((fs.cleared ent).cleared blkno).device.block ent) (index * 4) 4 (numberBytes blkno)))) :
    Meets (bmapAllocSub 0 ent (index * 4)) (fs.cleared ent) ⟨done, fail, stop⟩ := by
  have quietEnt := Quiet.cleared owned freeEnt
  have ownedEnt := quietEnt.owned owned
  have validEnt := owned.valid_of_free freeEnt
  have lowEnt := owned.lt_nbits (owned.accounted.bits ent freeEnt)
  have usedEnt : (fs.cleared ent).freemap.bit ent = false := Function.update_self ..
  have positive := owned.unused_pos freeEnt
  unfold bmapAllocSub
  simp only [meets_onError, meets_bind, meets_pure, ne_eq, validEnt.1, not_false_eq_true, if_true]
  apply blockAlloc_meets ownedEnt
  · intro none
    apply blockFree_meets (quietEnt.valid validEnt) lowEnt usedEnt
    refine refused _ _ ⟨quietEnt.given owned freeEnt usedEnt, .inr ⟨rfl, ?_, ?_, ?_⟩⟩
    · change fs.super.unusedBlocks - 1 = 0 at none
      omega
    · change { fs.super with unusedBlocks := fs.super.unusedBlocks - 1 + 1 } = fs.super
      rw [Nat.sub_add_cancel positive]
    · change { fs.freemap with bit := Function.update (Function.update fs.freemap.bit ent false) ent true } = _
      rw [Function.update_idem, Function.update_eq_self_iff.mpr freeEnt.symm]
  · intro blkno error free failed
    have before := (quietEnt.trans (Quiet.taken ownedEnt free)).ticked
    have different : ent ≠ blkno := by
      rintro rfl
      rw [usedEnt] at free
      cases free
    have stillUsed : ((fs.cleared ent).taken blkno).tick.freemap.bit ent = false :=
      (Function.update_of_ne different ..).trans usedEnt
    apply blockFree_meets (before.valid validEnt) lowEnt stillUsed
    exact refused _ _ ⟨before.given owned freeEnt stillUsed, .inl (Fails.of_error 1 failed (by omega))⟩
  · intro blkno free fine
    have quiet := quietEnt.trans (Quiet.cleared ownedEnt free)
    have wasFree := quietEnt.fewer blkno free
    have blockValid := owned.valid_of_free wasFree
    have inMap := owned.lt_nbits (owned.accounted.bits blkno wasFree)
    have blockUsed : ((fs.cleared ent).cleared blkno).freemap.bit blkno = false := Function.update_self ..
    have different : ent ≠ blkno := by
      rintro rfl
      rw [usedEnt] at free
      cases free
    -- Both blocks are given back after a failed write.
    have undone : forall current, Quiet fs current -> current.freemap.bit blkno = false ->
        (current.given blkno).freemap.bit ent = false -> fs.Fails 4 ->
        forall error (failAgain : Errno -> SfsFs -> Prop), Meets (blockFree blkno) current ⟨fun _ cleaned =>
          Meets (blockFree ent) cleaned ⟨fun _ cleaned => fail error cleaned, fail, stop⟩, failAgain, stop⟩ := by
      intro current quietNow usedNow usedEntNow failed error failAgain
      have bits : current.freemap.nbits = fs.freemap.nbits := quietNow.nbits
      have back := quietNow.given owned wasFree usedNow
      apply blockFree_meets (quietNow.valid blockValid) (bits ▸ inMap) usedNow
      apply blockFree_meets (back.valid validEnt) (bits ▸ lowEnt) usedEntNow
      exact refused _ _ ⟨back.given owned freeEnt usedEntNow, .inl failed⟩
    have usedBoth : (((fs.cleared ent).cleared blkno).given blkno).freemap.bit ent = false :=
      (Function.update_of_ne different ..).trans ((Function.update_of_ne different ..).trans usedEnt)
    apply wbuf_meets (quiet.valid validEnt)
    · simp only [blksize, blkNentry] at *
      omega
    · simp only [blksize, blkNentry] at *
      omega
    · intro error failed
      exact undone _ quiet.ticked blockUsed usedBoth (Fails.of_error 2 failed (by omega)) error _
    · intro error _ failed
      exact undone _ quiet.ticked.ticked blockUsed usedBoth (Fails.of_error 3 failed (by omega)) error _
    · intro third fourth
      apply added blkno free
      exact not_fails_succ fineEnt (not_fails_succ fine (not_fails_succ third (not_fails_succ fourth not_fails_zero)))

/-! ## Looking up and adding -/

/-- A change of the inode that is marked. -/
theorem setMap_meets {change : DiskInode -> DiskInode} {done : Unit -> SfsFs -> Prop}
    {failFirst : Errno -> SfsFs -> Prop} {stopFirst : Fault -> Prop}
    (returns : done () (fs.setMap sin (change (fs.inode sin).din))) :
    Meets (setDin sin change) fs ⟨fun _ middle => Meets (setDirty sin true) middle ⟨done, fail, stop⟩,
      failFirst, stopFirst⟩ := by
  unfold setDin setDirty
  simp only [meets_modify, inode_setInode, setInode_setInode]
  exact returns

theorem bmapGetOut_meets {ino : Nat} {done : Nat -> SfsFs -> Prop}
    (inuse : ino ≠ 0 -> fs.Valid ino /\ ino < fs.freemap.nbits /\ fs.freemap.bit ino = false)
    (returns : done ino fs) : Meets (bmapGetOut ino) fs ⟨done, fail, stop⟩ := by
  unfold bmapGetOut
  simp only [meets_bind, meets_ite, meets_pure]
  split
  · rename_i positive
    rcases inuse positive with ⟨valid, low, used⟩
    exact assertInuse_meets valid low used returns
  · exact returns

/-- The block that was added is in use. -/
theorem SfsFs.Grown.inuse {index blkno need cost : Nat} {after : SfsFs}
    (grown : Grown fs sin index blkno need cost after)
    (owned : fs.Owned files) : after.Valid blkno /\ blkno < after.freemap.nbits /\ after.freemap.bit blkno = false := by
  have blocks : after.super.blocks = fs.super.blocks := (Super.ext_iff.mp grown.fixed).2.1
  have valid := owned.valid_of_free grown.fresh
  refine ⟨?_, ?_, grown.taken⟩
  · unfold Valid
    rw [blocks]
    exact valid
  · rw [grown.nbits]
    exact owned.lt_nbits valid.2.1

theorem SfsFs.Owned.blockOf_inuse (owned : fs.Owned files) (loaded : sin ∈ fs.inodeList) {index : Nat}
    (present : fs.blockOf (fs.inode sin).din index ≠ 0) :
    fs.Valid (fs.blockOf (fs.inode sin).din index) /\
      fs.blockOf (fs.inode sin).din index < fs.freemap.nbits /\
      fs.freemap.bit (fs.blockOf (fs.inode sin).din index) = false := by
  have valid := owned.blockOf_valid loaded present
  exact ⟨valid, owned.lt_nbits valid.2.1, owned.blockOf_inUse loaded present⟩

/-- Nothing has happened but a transfer. -/
def SfsFs.Looked (fs after : SfsFs) : Prop := after = fs \/ after = fs.tick

theorem bmapGetNolock_meets {index : Nat} {create : Bool} {done : Nat -> SfsFs -> Prop} (owned : fs.Owned files)
    (loaded : sin ∈ fs.inodeList)
    (range : ndirect + blkNentry <= index -> stop (.panic "sfs_bmap_get_nolock - index out of range"))
    (missed : forall error, ndirect <= index -> fs.Fails 1 -> fail error fs.tick)
    (found : create = false \/ fs.blockOf (fs.inode sin).din index ≠ 0 ->
      forall after, fs.Looked after -> done (fs.blockOf (fs.inode sin).din index) after)
    (refused : create = true -> fs.blockOf (fs.inode sin).din index = 0 -> forall error after,
      Refused fs ((fs.inode sin).din.needed index) (loadCost index) error after -> fail error after)
    (grown : create = true -> fs.blockOf (fs.inode sin).din index = 0 -> forall blkno after,
      Grown fs sin index blkno ((fs.inode sin).din.needed index) (loadCost index) after -> after.Owned files ->
        ¬ fs.Fails (loadCost index) -> done blkno after) :
    Meets (bmapGetNolock sin index create) fs ⟨done, fail, stop⟩ := by
  unfold bmapGetNolock getDin
  simp only [meets_bind, meets_get, meets_pure]
  by_cases direct : index < ndirect
  · have block : fs.blockOf (fs.inode sin).din index = (fs.inode sin).din.direct ⟨index, direct⟩ := dif_pos direct
    have need : (fs.inode sin).din.needed index = 1 := if_pos (.inl direct)
    have cost : loadCost index = 1 := if_pos direct
    rw [dif_pos direct]
    by_cases add : (fs.inode sin).din.direct ⟨index, direct⟩ = 0 /\ create = true
    · rw [if_pos add]
      simp only [meets_bind]
      apply blockAlloc_meets owned
      · intro none
        exact refused add.2 (block.trans add.1) _ _ ⟨Quiet.refl fs, .inr ⟨rfl, by omega, rfl, rfl⟩⟩
      · intro blkno error free failed
        exact refused add.2 (block.trans add.1) _ _
          ⟨(Quiet.taken owned free).ticked, .inl (Fails.of_error 0 failed (by omega))⟩
      · intro blkno free fine
        have added : Grown fs sin index blkno 1 1 (fs.addDirect sin ⟨index, direct⟩ blkno) :=
          addDirect_grown ⟨index, direct⟩ owned loaded free
        apply setMap_meets
        apply bmapGetOut_meets (fun _ => added.inuse owned)
        rw [need, cost] at grown
        exact grown add.2 (block.trans add.1) blkno _ added (addDirect_owned owned loaded free)
          (not_fails_succ fine not_fails_zero)
    · rw [if_neg add, ← block]
      have kept : create = false \/ fs.blockOf (fs.inode sin).din index ≠ 0 := by
        rw [block]
        cases create with
        | false => exact .inl rfl
        | true => exact .inr fun zero => add ⟨zero, rfl⟩
      exact bmapGetOut_meets (owned.blockOf_inuse loaded) (found kept fs (.inl rfl))
  · rw [dif_neg direct]
    by_cases inTable : index - ndirect < blkNentry
    · have slot : ndirect + (index - ndirect) = index := by omega
      have cost : loadCost index = 4 := if_neg direct
      rw [if_pos inTable]
      unfold bmapGetSubNolock
      simp only [meets_bind, meets_assert, meets_ite, meets_pure]
      refine ⟨fun _ => ?_, fun broken => absurd inTable broken⟩
      by_cases indexed : (fs.inode sin).din.indirect ≠ 0
      · have block : fs.blockOf (fs.inode sin).din index = fs.entryOf (fs.inode sin).din.indirect (index - ndirect) :=
          (dif_neg direct).trans (if_pos ⟨inTable, indexed⟩)
        have need : (fs.inode sin).din.needed index = 1 := if_pos (.inr indexed)
        rw [if_pos indexed]
        apply rbuf_meets (owned.indirect_valid loaded indexed)
        · simp only [blksize, blkNentry] at *
          omega
        · simp only [blksize, blkNentry] at *
          omega
        · exact fun error failed => missed error (by omega) (Fails.of_error 0 failed (by omega))
        · intro fine
          have read : u32At (fun k => fs.device.block (fs.inode sin).din.indirect ((index - ndirect) * 4 + k)) 0 =
              fs.blockOf (fs.inode sin).din index := by
            rw [block]
            unfold entryOf u32At u16At
            simp only [Nat.zero_add, Nat.add_zero, Nat.add_assoc]
          simp only [read]
          by_cases keep : fs.blockOf (fs.inode sin).din index ≠ 0 \/ create = false
          · rw [if_pos keep]
            simp only [ne_eq, not_true_eq_false, if_false]
            exact bmapGetOut_meets (owned.blockOf_inuse loaded) (found keep.symm fs.tick (.inr rfl))
          · rw [if_neg keep]
            push Not at keep
            have created : create = true := Bool.eq_true_of_not_eq_false keep.2
            have ownedTick := (Quiet.tick fs).owned owned
            apply bmapAllocSub_entry ownedTick loaded indexed inTable
            · intro error after refusedTick
              apply refused created keep.1
              refine ⟨(Quiet.tick fs).trans refusedTick.quiet, ?_⟩
              rw [need, cost]
              exact refusedTick.reason.imp Fails.tickBefore id
            · intro blkno free fineRest
              have added := (addEntry_grown ownedTick loaded free indexed inTable).tickBefore
              rw [slot] at added
              rw [if_neg (fun different => different rfl)]
              apply bmapGetOut_meets (fun _ => added.inuse owned)
              rw [need, cost] at grown
              exact grown created keep.1 blkno _ added (addEntry_owned ownedTick loaded free indexed inTable)
                (not_fails_succ fine fineRest)
      · have absent : (fs.inode sin).din.indirect = 0 := not_not.mp indexed
        have block : fs.blockOf (fs.inode sin).din index = 0 :=
          (dif_neg direct).trans (if_neg fun both => indexed both.2)
        have need : (fs.inode sin).din.needed index = 2 := if_neg (by rw [absent]; omega)
        rw [if_neg indexed]
        cases create with
        | false =>
            simp only [if_true, absent, ne_eq, not_true_eq_false, if_false]
            have none := found (.inl rfl) fs (.inl rfl)
            rw [block] at none
            exact bmapGetOut_meets (fun positive => absurd rfl positive) none
        | true =>
            simp only [reduceCtorEq, if_false]
            rw [need, cost] at grown refused
            apply blockAlloc_meets owned
            · intro none
              exact refused rfl block _ _ ⟨Quiet.refl fs, .inr ⟨rfl, by omega, rfl, rfl⟩⟩
            · intro ent error free failed
              exact refused rfl block _ _
                ⟨(Quiet.taken owned free).ticked, .inl (Fails.of_error 0 failed (by omega))⟩
            · intro ent freeEnt fine
              have positive := (owned.valid_of_free freeEnt).1
              rw [absent]
              apply bmapAllocSub_indirect owned freeEnt fine inTable
              · exact fun error after gone => refused rfl block error after gone
              · intro blkno free fineRest
                have added := addIndirect_grown owned loaded freeEnt absent free inTable
                rw [slot] at added
                simp only [ne_eq, positive, not_false_eq_true, if_true]
                refine ⟨fun _ => ?_, fun broken => absurd trivial broken⟩
                apply setMap_meets
                have state : (((fs.cleared ent).cleared blkno).tick.store ent
                    (splice (((fs.cleared ent).cleared blkno).device.block ent) ((index - ndirect) * 4) 4
                      (numberBytes blkno))).setMap sin ((fs.inode sin).din.setIndirect ent) =
                    (fs.addIndirect sin ent).addEntry sin (index - ndirect) blkno := by
                  have pointer : ((fs.addIndirect sin ent).inode sin).din.indirect = ent := by
                    unfold addIndirect
                    rw [inode_setMap]
                    rfl
                  unfold addEntry
                  rw [pointer]
                  rfl
                rw [← state] at added
                apply bmapGetOut_meets (fun _ => added.inuse owned)
                apply grown rfl block blkno _ added _ fineRest
                rw [state]
                exact addEntry_owned (addIndirect_owned owned loaded freeEnt absent) loaded free
                  (by unfold addIndirect; rw [inode_setMap]; exact positive) inTable
    · rw [if_neg inTable, meets_halt]
      exact range (by omega)

/-! ## Loading a block -/

/-- `din->blocks ++` -/
def SfsFs.addBlock (fs : SfsFs) (sin : Nat) : SfsFs :=
  fs.setInode sin { fs.inode sin with din := (fs.inode sin).din.setBlocks ((fs.inode sin).din.blocks + 1) }

theorem assertInuse_zero {done : Unit -> SfsFs -> Prop}
    (stopped : stop (.panic "sfs_block_inuse: called out of range")) :
    Meets (assertInuse 0) fs ⟨done, fail, stop⟩ := by
  unfold assertInuse blockInuse
  simp only [meets_bind, meets_get, meets_ite, meets_halt]
  rw [if_neg (fun both => both.1 rfl)]
  exact stopped

theorem bmapLoadNolock_meets {index : Nat} {done : Nat -> SfsFs -> Prop} (owned : fs.Owned files)
    (loaded : sin ∈ fs.inodeList)
    (beyond : (fs.inode sin).din.blocks < index -> stop (.assertion "index <= din->blocks"))
    (range : index <= (fs.inode sin).din.blocks -> ndirect + blkNentry <= index ->
      stop (.panic "sfs_bmap_get_nolock - index out of range"))
    (hole : index < (fs.inode sin).din.blocks -> fs.blockOf (fs.inode sin).din index = 0 ->
      stop (.panic "sfs_block_inuse: called out of range"))
    (missed : forall error, index <= (fs.inode sin).din.blocks -> ndirect <= index -> fs.Fails 1 ->
      fail error fs.tick)
    (refused : index = (fs.inode sin).din.blocks -> fs.blockOf (fs.inode sin).din index = 0 -> forall error after,
      Refused fs ((fs.inode sin).din.needed index) (loadCost index) error after -> fail error after)
    (found : index < (fs.inode sin).din.blocks -> fs.blockOf (fs.inode sin).din index ≠ 0 ->
      forall after, fs.Looked after -> done (fs.blockOf (fs.inode sin).din index) after)
    (kept : index = (fs.inode sin).din.blocks -> fs.blockOf (fs.inode sin).din index ≠ 0 ->
      forall after, fs.Looked after -> done (fs.blockOf (fs.inode sin).din index) (after.addBlock sin))
    (grown : index = (fs.inode sin).din.blocks -> fs.blockOf (fs.inode sin).din index = 0 -> forall blkno after,
      Grown fs sin index blkno ((fs.inode sin).din.needed index) (loadCost index) after -> after.Owned files ->
        ¬ fs.Fails (loadCost index) -> done blkno (after.addBlock sin)) :
    Meets (bmapLoadNolock sin index) fs ⟨done, fail, stop⟩ := by
  unfold bmapLoadNolock getDin setDin
  simp only [meets_bind, meets_get, meets_pure, meets_assert, meets_ite, meets_modify]
  refine ⟨fun within => ?_, fun broken => beyond (Nat.lt_of_not_le broken)⟩
  apply bmapGetNolock_meets owned loaded
  · exact range within
  · exact fun error indexed fails => missed error within indexed fails
  · intro keep after looked
    by_cases last : index = (fs.inode sin).din.blocks
    · have present : fs.blockOf (fs.inode sin).din index ≠ 0 :=
        keep.resolve_left (by rw [decide_eq_true last]; exact Bool.noConfusion)
      have inuse := owned.blockOf_inuse loaded present
      simp only [decide_eq_true last, if_true]
      rcases looked with rfl | rfl
      · exact assertInuse_meets inuse.1 inuse.2.1 inuse.2.2 (kept last present _ (.inl rfl))
      · exact assertInuse_meets ((Quiet.tick fs).valid inuse.1) inuse.2.1 inuse.2.2 (kept last present _ (.inr rfl))
    · have before : index < (fs.inode sin).din.blocks := by omega
      simp only [decide_eq_false last, Bool.false_eq_true, if_false]
      by_cases absent : fs.blockOf (fs.inode sin).din index = 0
      · rw [absent]
        exact assertInuse_zero (hole before absent)
      · have inuse := owned.blockOf_inuse loaded absent
        rcases looked with rfl | rfl
        · exact assertInuse_meets inuse.1 inuse.2.1 inuse.2.2 (found before absent _ (.inl rfl))
        · exact assertInuse_meets ((Quiet.tick fs).valid inuse.1) inuse.2.1 inuse.2.2
            (found before absent _ (.inr rfl))
  · exact fun create absent error after gone => refused (of_decide_eq_true create) absent error after gone
  · intro create absent blkno after added ownedAfter fine
    have inuse := added.inuse owned
    simp only [create, if_true]
    exact assertInuse_meets inuse.1 inuse.2.1 inuse.2.2
      (grown (of_decide_eq_true create) absent blkno after added ownedAfter fine)

end Sfs
end Ucore
