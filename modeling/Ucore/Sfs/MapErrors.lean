import Ucore.Sfs.MapRules
import Ucore.Sfs.VolumeRun

namespace Ucore
namespace Sfs

open Library
open Program

/-!
# Errors of the block map

A call that fails to add a block gives back what it has taken, with one
exception.  `sfs_block_alloc` takes a block before it clears it, and does not
give it back when that fails.  So a failed call leaves the free map, the count
and the block map as they were exactly if no block fails to be cleared.
-/

namespace SfsFs

/-- A block is taken and cannot be cleared: `sfs_block_alloc` then returns the
error and not the block. -/
def AllocLeaks (fs : SfsFs) : Prop := 0 < fs.super.unusedBlocks /\ fs.nextError 0 ≠ none

instance (fs : SfsFs) : Decidable fs.AllocLeaks := inferInstanceAs (Decidable (_ /\ _))

/-- One of the two blocks is taken and cannot be cleared. -/
def IndirectLeaks (fs : SfsFs) : Prop :=
  fs.AllocLeaks \/ (1 < fs.super.unusedBlocks /\ fs.nextError 0 = none /\ fs.nextError 1 ≠ none)

/-- The next entry of a map takes a block that cannot be cleared.  A failure
before or after that is undone, or takes nothing. -/
def LoadLeaks (fs : SfsFs) (sin : Nat) : Prop :=
  if (fs.inode sin).din.blocks < ndirect then fs.AllocLeaks
  else if (fs.inode sin).din.indirect ≠ 0 then fs.nextError 0 = none /\ fs.tick.AllocLeaks
  else fs.IndirectLeaks

/-- What a failed call should leave as it was: the free map, the count, and the
map of the file with its indirect block.  The blocks that were free may have been
written. -/
structure Unchanged (fs after : SfsFs) (sin : Nat) : Prop where
  freemap : after.freemap = fs.freemap
  unusedBlocks : after.super.unusedBlocks = fs.super.unusedBlocks
  din : (after.inode sin).din = (fs.inode sin).din
  entries : (fs.inode sin).din.indirect ≠ 0 -> forall number,
    after.entryOf (fs.inode sin).din.indirect number = fs.entryOf (fs.inode sin).din.indirect number

/-- What was taken has been given back: the free map and the count are as they
were. -/
structure Restored (fs after : SfsFs) : Prop where
  quiet : Quiet fs after
  freemap : after.freemap = fs.freemap
  unusedBlocks : after.super.unusedBlocks = fs.super.unusedBlocks

/-- A failed call has left everything as it was, or a block is lost. -/
def Failed (fs after : SfsFs) (leaks : Prop) : Prop :=
  (Restored fs after /\ ¬ leaks) \/ (after.super.unusedBlocks < fs.super.unusedBlocks /\ leaks)

variable {fs middle after : SfsFs} {files : List Nat} {sin blkno : Nat} {leaks : Prop}

theorem Restored.refl (fs : SfsFs) : Restored fs fs := ⟨Quiet.refl fs, rfl, rfl⟩

theorem Restored.tick (fs : SfsFs) : Restored fs fs.tick := ⟨Quiet.tick fs, rfl, rfl⟩

theorem Restored.trans (first : Restored fs middle) (second : Restored middle after) : Restored fs after :=
  ⟨first.quiet.trans second.quiet, second.freemap.trans first.freemap, second.unusedBlocks.trans first.unusedBlocks⟩

/-- A block that was taken is given back. -/
theorem Restored.given (owned : fs.Owned files) (free : fs.freemap.bit blkno = true) (quiet : Quiet fs middle)
    (freemap : middle.freemap = (fs.taken blkno).freemap)
    (unused : middle.super.unusedBlocks = (fs.taken blkno).super.unusedBlocks) : Restored fs (middle.given blkno) := by
  have positive := owned.unused_pos free
  have taken : middle.freemap.bit blkno = false := freemap ▸ Function.update_self ..
  refine ⟨quiet.given owned free taken, ?_, ?_⟩
  · change { middle.freemap with bit := Function.update middle.freemap.bit blkno true } = fs.freemap
    rw [freemap]
    change { fs.freemap with bit := Function.update (Function.update fs.freemap.bit blkno false) blkno true } = _
    rw [Function.update_idem, Function.update_eq_self_iff.mpr free.symm]
  · change middle.super.unusedBlocks + 1 = _
    rw [unused]
    exact Nat.sub_add_cancel positive

theorem Restored.unchanged (restored : Restored fs after) (owned : fs.Owned files) (loaded : sin ∈ fs.inodeList) :
    Unchanged fs after sin where
  freemap := restored.freemap
  unusedBlocks := restored.unusedBlocks
  din := by rw [restored.quiet.inode]
  entries := by
    intro indexed number
    unfold entryOf
    rw [restored.quiet.used _ (owned.indirect_used loaded indexed)]

theorem Failed.unchanged_iff (failed : Failed fs after leaks) (owned : fs.Owned files) (loaded : sin ∈ fs.inodeList) :
    Unchanged fs after sin <-> ¬ leaks := by
  rcases failed with ⟨restored, safe⟩ | ⟨fewer, leaked⟩
  · exact ⟨fun _ => safe, fun _ => restored.unchanged owned loaded⟩
  · exact ⟨fun unchanged => absurd unchanged.unusedBlocks (Nat.ne_of_lt fewer), fun safe => absurd leaked safe⟩

end SfsFs

open SfsFs

section Rules

variable {fs : SfsFs} {files : List Nat} {sin : Nat}

theorem blockAlloc_fails {done : Nat -> SfsFs -> Prop} (owned : fs.Owned files)
    (served : forall blkno, fs.freemap.bit blkno = true -> fs.nextError 0 = none -> done blkno (fs.cleared blkno)) :
    Meets blockAlloc fs ⟨done, fun _ after => Failed fs after fs.AllocLeaks, fun _ => True⟩ := by
  apply blockAlloc_meets owned
  · exact fun full => .inl ⟨Restored.refl fs, fun leaks => absurd leaks.1 (by omega)⟩
  · intro blkno error free failed
    have positive := owned.unused_pos free
    refine .inr ⟨?_, positive, failed ▸ Option.some_ne_none error⟩
    change fs.super.unusedBlocks - 1 < fs.super.unusedBlocks
    omega
  · exact served

/-- The entry is written, or the block is given back. -/
theorem wbuf_restores {ent offset blkno : Nat} {data : Bytes} (owned : fs.Owned files)
    (free : fs.freemap.bit blkno = true) (valid : fs.Valid ent) (low : offset < blksize)
    (high : offset + 4 <= blksize) :
    Meets (onError (wbuf data 4 ent offset) (blockFree blkno)) (fs.cleared blkno)
      ⟨fun _ _ => True, fun _ after => Restored fs after, fun _ => True⟩ := by
  have quiet := Quiet.cleared owned free
  have inMap := owned.lt_nbits (owned.accounted.bits blkno free)
  have used : (fs.cleared blkno).freemap.bit blkno = false := Function.update_self ..
  have validBlock := owned.valid_of_free free
  rw [meets_onError]
  apply wbuf_meets (quiet.valid valid) low high
  · intro error _
    apply blockFree_meets (quiet.ticked.valid validBlock) inMap used
    exact Restored.given owned free quiet.ticked rfl rfl
  · intro error _ _
    apply blockFree_meets (quiet.ticked.ticked.valid validBlock) inMap used
    exact Restored.given owned free quiet.ticked.ticked rfl rfl
  · exact fun _ _ => trivial

/-- `sfs_bmap_get_sub_nolock` at an empty entry of an existing block -/
theorem bmapAllocSub_entry_fails {ent index : Nat} (owned : fs.Owned files) (valid : fs.Valid ent)
    (low : index < blkNentry) :
    Meets (bmapAllocSub ent ent (index * 4)) fs
      ⟨fun _ _ => True, fun _ after => Failed fs after fs.AllocLeaks, fun _ => True⟩ := by
  unfold bmapAllocSub
  simp only [meets_onError, meets_bind, meets_pure, ne_eq, not_true_eq_false, if_false]
  apply blockAlloc_fails owned
  intro blkno free fine
  have inBlock : index * 4 < blksize /\ index * 4 + 4 <= blksize := by
    unfold blkNentry at low
    unfold blksize
    omega
  have restores :=
    @wbuf_restores fs files ent (index * 4) blkno (numberBytes blkno) owned free valid inBlock.1 inBlock.2
  rw [meets_onError] at restores
  refine restores.mono (fun _ _ _ => trivial) (fun _ after freed => ?_) fun _ _ => trivial
  refine freed.mono (fun _ final restored => ?_) (fun _ _ restored => ?_) fun _ _ => trivial
  · exact .inl ⟨restored, fun leaks => leaks.2 fine⟩
  · exact .inl ⟨restored, fun leaks => leaks.2 fine⟩

/-- The same with a new indirect block -/
theorem bmapAllocSub_indirect_fails {ent index : Nat} (owned : fs.Owned files) (freeEnt : fs.freemap.bit ent = true)
    (fineEnt : fs.nextError 0 = none) (low : index < blkNentry) :
    Meets (bmapAllocSub 0 ent (index * 4)) (fs.cleared ent)
      ⟨fun _ _ => True, fun _ after => Failed fs after
        fs.IndirectLeaks,
        fun _ => True⟩ := by
  have quietEnt := Quiet.cleared owned freeEnt
  have ownedEnt := quietEnt.owned owned
  have validEnt := owned.valid_of_free freeEnt
  have lowEnt := owned.lt_nbits (owned.accounted.bits ent freeEnt)
  have usedEnt : (fs.cleared ent).freemap.bit ent = false := Function.update_self ..
  have unused : (fs.cleared ent).super.unusedBlocks = fs.super.unusedBlocks - 1 := rfl
  have safe : ¬ fs.AllocLeaks := fun leaks => leaks.2 fineEnt
  have inBlock : index * 4 < blksize /\ index * 4 + 4 <= blksize := by
    unfold blkNentry at low
    unfold blksize
    omega
  unfold bmapAllocSub
  simp only [meets_onError, meets_bind, meets_pure, ne_eq, validEnt.1, not_false_eq_true, if_true]
  apply blockAlloc_meets ownedEnt
  · intro none
    apply blockFree_meets (quietEnt.valid validEnt) lowEnt usedEnt
    refine .inl ⟨Restored.given owned freeEnt quietEnt rfl rfl, ?_⟩
    rintro (leaks | leaks)
    · exact safe leaks
    · omega
  · intro blkno error free failed
    have positive := ownedEnt.unused_pos free
    have before := (quietEnt.trans (Quiet.taken ownedEnt free)).ticked
    have different : ent ≠ blkno := by
      rintro rfl
      rw [usedEnt] at free
      cases free
    have stillUsed : ((fs.cleared ent).taken blkno).tick.freemap.bit ent = false :=
      (Function.update_of_ne different ..).trans usedEnt
    apply blockFree_meets (before.valid validEnt) lowEnt stillUsed
    refine .inr ⟨?_, .inr ⟨by omega, fineEnt, ?_⟩⟩
    · change (fs.cleared ent).super.unusedBlocks - 1 + 1 < fs.super.unusedBlocks
      omega
    · change fs.nextError 1 = some error at failed
      rw [failed]
      exact Option.some_ne_none error
  · intro blkno free fine
    have wasFine : fs.nextError 1 = none := fine
    have restores := @wbuf_restores (fs.cleared ent) files ent (index * 4) blkno (numberBytes blkno) ownedEnt free
      (quietEnt.valid validEnt) inBlock.1 inBlock.2
    have given : forall after, Restored (fs.cleared ent) after -> Failed fs (after.given ent) fs.IndirectLeaks := by
      intro after restored
      have quiet := quietEnt.trans restored.quiet
      refine .inl ⟨Restored.given owned freeEnt quiet restored.freemap restored.unusedBlocks, ?_⟩
      rintro (leaks | leaks)
      · exact safe leaks
      · exact leaks.2.2 wasFine
    have freed : forall after, Restored (fs.cleared ent) after -> forall error : Errno,
        Meets (blockFree ent) after ⟨fun _ cleaned => Failed fs cleaned fs.IndirectLeaks,
          fun _ cleaned => Failed fs cleaned fs.IndirectLeaks, fun _ => True⟩ := by
      intro after restored _
      have quiet := quietEnt.trans restored.quiet
      apply blockFree_meets (quiet.valid validEnt) (quiet.nbits ▸ lowEnt) (restored.freemap ▸ usedEnt)
      exact given after restored
    rw [meets_onError] at restores
    refine restores.mono (fun _ _ _ => trivial) (fun error after cleaned => ?_) fun _ _ => trivial
    refine cleaned.mono (fun _ final restored => ?_) (fun _ final restored => ?_) fun _ _ => trivial
    · exact freed final restored error
    · exact freed final restored error

/-! ## Loading a block -/

theorem assertInuse_succeeds (ino : Nat) :
    Meets (assertInuse ino) fs ⟨fun _ _ => True, fun _ _ => False, fun _ => True⟩ := by
  unfold assertInuse blockInuse bitmapTest
  simp only [meets_bind, meets_get, meets_ite, meets_assert, meets_pure, meets_halt]
  split
  · exact ⟨fun _ => ⟨fun _ => trivial, fun _ => trivial⟩, fun _ => trivial⟩
  · trivial

theorem bmapGetOut_succeeds (ino : Nat) :
    Meets (bmapGetOut ino) fs ⟨fun _ _ => True, fun _ _ => False, fun _ => True⟩ := by
  unfold bmapGetOut
  simp only [meets_bind, meets_ite, meets_pure]
  split
  · exact assertInuse_succeeds ino
  · trivial

/-- `sfs_bmap_get_nolock` at the end of the map -/
theorem bmapGetNolock_fails (owned : fs.Owned files) (loaded : sin ∈ fs.inodeList) :
    Meets (bmapGetNolock sin (fs.inode sin).din.blocks true) fs
      ⟨fun _ _ => True, fun _ after => Failed fs after (fs.LoadLeaks sin), fun _ => True⟩ := by
  have finished : forall (ino : Nat) (middle : SfsFs), Meets (bmapGetOut ino) middle
      ⟨fun _ _ => True, fun _ after => Failed fs after (fs.LoadLeaks sin), fun _ => True⟩ :=
    fun ino middle =>
      (bmapGetOut_succeeds ino).mono (fun _ _ _ => trivial) (fun _ _ failed => failed.elim) fun _ _ => trivial
  unfold bmapGetNolock getDin setDin setDirty
  simp only [meets_bind, meets_get, meets_pure]
  by_cases direct : (fs.inode sin).din.blocks < ndirect
  · have leaks : fs.LoadLeaks sin = fs.AllocLeaks := if_pos direct
    rw [dif_pos direct]
    split
    · rw [meets_bind, leaks]
      apply blockAlloc_fails owned
      intro blkno _ _
      rw [← leaks]
      exact finished blkno _
    · exact finished _ fs
  · rw [dif_neg direct]
    by_cases inTable : (fs.inode sin).din.blocks - ndirect < blkNentry
    · rw [if_pos inTable]
      unfold bmapGetSubNolock
      simp only [meets_bind, meets_assert, meets_ite, meets_pure]
      refine ⟨fun _ => ?_, fun broken => absurd inTable broken⟩
      by_cases indexed : (fs.inode sin).din.indirect ≠ 0
      · have leaks : fs.LoadLeaks sin = (fs.nextError 0 = none /\ fs.tick.AllocLeaks) :=
          (if_neg direct).trans (if_pos indexed)
        rw [if_pos indexed]
        apply rbuf_meets (owned.indirect_valid loaded indexed)
        · simp only [blksize, blkNentry] at *
          omega
        · simp only [blksize, blkNentry] at *
          omega
        · intro error failed
          refine .inl ⟨Restored.tick fs, ?_⟩
          rw [leaks, failed]
          exact fun both => Option.some_ne_none error both.1
        · intro fine
          split
          · rw [if_neg (fun different => different rfl)]
            exact finished _ _
          · have ownedTick := (Quiet.tick fs).owned owned
            refine (bmapAllocSub_entry_fails ownedTick (owned.indirect_valid loaded indexed) inTable).mono ?_ ?_
              fun _ _ => trivial
            · intro found after _
              dsimp only
              split
              · exact ⟨fun _ => finished _ _, fun _ => trivial⟩
              · exact finished _ _
            · intro _ after failed
              rcases failed with ⟨restored, safe⟩ | ⟨fewer, lost⟩
              · refine .inl ⟨(Restored.tick fs).trans restored, ?_⟩
                rw [leaks]
                exact fun both => safe both.2
              · refine .inr ⟨fewer, ?_⟩
                rw [leaks]
                exact ⟨fine, lost⟩
      · have absent : (fs.inode sin).din.indirect = 0 := not_not.mp indexed
        have leaks : fs.LoadLeaks sin = fs.IndirectLeaks := (if_neg direct).trans (if_neg indexed)
        rw [if_neg indexed, if_neg Bool.noConfusion]
        apply blockAlloc_meets owned
        · intro full
          refine .inl ⟨Restored.refl fs, ?_⟩
          rw [leaks]
          rintro (lost | lost)
          · exact absurd lost.1 (by omega)
          · omega
        · intro blkno error free failed
          have positive := owned.unused_pos free
          refine .inr ⟨?_, ?_⟩
          · change fs.super.unusedBlocks - 1 < fs.super.unusedBlocks
            omega
          · rw [leaks]
            exact .inl ⟨positive, failed ▸ Option.some_ne_none error⟩
        · intro ent free fine
          rw [absent]
          refine (bmapAllocSub_indirect_fails owned free fine inTable).mono ?_ ?_ fun _ _ => trivial
          · intro found after _
            dsimp only
            split
            · exact ⟨fun _ => finished _ _, fun _ => trivial⟩
            · exact finished _ _
          · intro _ after failed
            rw [leaks]
            exact failed
    · rw [if_neg inTable]
      trivial

/-- A failed `sfs_bmap_load_nolock` at the end of the map leaves everything as
it was if and only if no block was taken that cannot be cleared. -/
theorem bmapLoadNolock_atomic (owned : fs.Owned files) (loaded : sin ∈ fs.inodeList) {error : Errno} {after : SfsFs}
    (ran : bmapLoadNolock sin (fs.inode sin).din.blocks fs = .fail error after) :
    Unchanged fs after sin <-> ¬ fs.LoadLeaks sin := by
  have meets : Meets (bmapLoadNolock sin (fs.inode sin).din.blocks) fs
      ⟨fun _ _ => True, fun _ after => Failed fs after (fs.LoadLeaks sin), fun _ => True⟩ := by
    unfold bmapLoadNolock getDin setDin
    simp only [meets_bind, meets_get, meets_pure, meets_assert, meets_ite, meets_modify]
    refine ⟨fun _ => ?_, fun _ => trivial⟩
    simp only [decide_true, ite_self]
    refine (bmapGetNolock_fails owned loaded).mono ?_ (fun _ _ failed => failed) fun _ _ => trivial
    intro ino middle _
    exact (assertInuse_succeeds ino).mono (fun _ _ _ => trivial) (fun _ _ failed => failed.elim) fun _ _ => trivial
  exact (meets.of_fail ran).unchanged_iff owned loaded

end Rules

/-! ## The empty file of a formatted volume -/

/-- The file has no block yet, and the volume has no free one. -/
def fullVolume : SfsFs := volumeAfter 5 (fun _ => none) [.load 3 true true]

/-- The same with free blocks, and a device that fails at the fourth transfer -/
def failingVolume : SfsFs := volumeAfter 64 (fun number => if number = 3 then some .io else none) [.load 3 true true]

theorem bmapLoadNolock_atomic_full : Exists fun after =>
    bmapLoadNolock 3 (fullVolume.inode 3).din.blocks fullVolume = .fail .noMem after /\
      Unchanged fullVolume after 3 := by
  have owned : fullVolume.Owned formattedFiles :=
    volumeAfter_owned (by decide) (by decide) rfl rfl (by decide +kernel)
  have kept : ¬ fullVolume.LoadLeaks 3 := by
    unfold SfsFs.LoadLeaks SfsFs.IndirectLeaks
    decide +kernel
  have fails : (bmapLoadNolock 3 (fullVolume.inode 3).din.blocks fullVolume).error = some .noMem := by
    decide +kernel
  obtain ⟨after, fails⟩ := Outcome.of_error fails
  exact ⟨after, fails, (bmapLoadNolock_atomic owned (by decide +kernel) fails).mpr kept⟩

/-- The block that cannot be cleared is lost. -/
theorem bmapLoadNolock_leaks : failingVolume.Owned formattedFiles /\ 3 ∈ failingVolume.inodeList /\
    Exists fun after => bmapLoadNolock 3 (failingVolume.inode 3).din.blocks failingVolume = .fail .io after /\
      failingVolume.super.unusedBlocks = 59 /\ after.super.unusedBlocks = 58 /\ ¬ Unchanged failingVolume after 3 := by
  have owned : failingVolume.Owned formattedFiles :=
    volumeAfter_owned (by decide) (by decide) rfl rfl (by decide +kernel)
  have fails : (bmapLoadNolock 3 (failingVolume.inode 3).din.blocks failingVolume).error = some .io := by
    decide +kernel
  have lost : (bmapLoadNolock 3 (failingVolume.inode 3).din.blocks failingVolume).state.map
      (fun after => after.super.unusedBlocks) = some 58 := by decide +kernel
  have before : failingVolume.super.unusedBlocks = 59 := by decide +kernel
  obtain ⟨after, fails⟩ := Outcome.of_error fails
  rw [fails] at lost
  have count : after.super.unusedBlocks = 58 := Option.some.inj lost
  refine ⟨owned, by decide +kernel, after, fails, before, count, fun unchanged => ?_⟩
  have same := unchanged.unusedBlocks
  rw [before, count] at same
  cases same

end Sfs
end Ucore
