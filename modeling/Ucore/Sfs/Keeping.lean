import Ucore.Sfs.Edits

namespace Ucore
namespace Sfs

open Library
open Program
open SfsFs

/-!
# Inodes between memory and disk

An inode is loaded from its block, written back by `sfs_fsync`, and dropped
from memory once nobody refers to it.  Ownership survives because an inode
that is not marked dirty points to what its block points to.
-/

namespace SfsFs

variable {fs middle after : SfsFs} {files : List Nat} {sin : Nat}

/-- A loaded inode that is not dirty has its pointers on the disk. -/
def PointersSaved (fs : SfsFs) : Prop := forall ino, ino ∈ fs.inodeList -> (fs.inode ino).dirty = false ->
  (decodeInode (fs.device.block ino)).pointers = (fs.inode ino).din.pointers

structure Kept (fs : SfsFs) (files : List Nat) : Prop where
  owned : fs.Owned files
  saved : fs.PointersSaved

/-! ## Edits -/

theorem Edited.kept (edited : Edited files sin fs after) (kept : fs.Kept files) (loaded : sin ∈ fs.inodeList) :
    after.Kept files where
  owned := Edited.owned edited kept.owned loaded
  saved := by
    intro ino listed clean
    have frame := Edited.framed edited
    rw [frame.inodeList] at listed
    have fixed : (Place.inode ino).IsFixed := trivial
    have held : fs.holds files (.inode ino) = some ino := if_pos (kept.owned.loaded ino listed)
    rw [Edited.fixedBlock edited kept.owned loaded fixed held]
    by_cases same : ino = sin
    · subst same
      rcases frame.clean clean with ⟨wasClean, pointers⟩
      rw [pointers]
      exact kept.saved ino listed wasClean
    · rw [frame.others ino same] at clean ⊢
      exact kept.saved ino listed clean

theorem Kept.setInode (kept : fs.Kept files) (loaded : sin ∈ fs.inodeList) {value : Inode}
    (same : value.din.pointers = (fs.inode sin).din.pointers)
    (clean : value.dirty = false -> (fs.inode sin).dirty = false) : (fs.setInode sin value).Kept files where
  owned := kept.owned.setInode loaded same
  saved := by
    intro ino listed isClean
    by_cases here : ino = sin
    · subst here
      rw [inode_setInode] at isClean ⊢
      rw [same]
      exact kept.saved ino listed (clean isClean)
    · rw [inode_setInode_of_ne fs here] at isClean ⊢
      exact kept.saved ino listed isClean

theorem Changed.kept {allowed : Nat -> Prop} (changed : Changed files sin allowed fs after) (kept : fs.Kept files)
    (loaded : sin ∈ fs.inodeList) : after.Kept files := by
  rcases changed with ⟨middle, edited, rfl | ⟨size, _, rfl⟩⟩
  · exact Edited.kept edited kept loaded
  · have stillLoaded := (Edited.framed edited).inodeList ▸ loaded
    exact (Edited.kept edited kept loaded).setInode stillLoaded rfl (fun absurd => nomatch absurd)

theorem Changed.inodeList {allowed : Nat -> Prop} (changed : Changed files sin allowed fs after) :
    after.inodeList = fs.inodeList := by
  rcases changed with ⟨middle, edited, rfl | ⟨size, _, rfl⟩⟩
  · exact (Edited.framed edited).inodeList
  · exact (Edited.framed edited).inodeList

theorem Changed.nlinks {allowed : Nat -> Prop} (changed : Changed files sin allowed fs after) :
    (after.inode sin).din.nlinks = (fs.inode sin).din.nlinks := by
  rcases changed with ⟨middle, edited, rfl | ⟨size, _, rfl⟩⟩
  · exact (Edited.framed edited).kinds.2
  · rw [inode_setMap]
    exact (Edited.framed edited).kinds.2

theorem Quiet.kept (quiet : Quiet fs after) (kept : fs.Kept files) : after.Kept files where
  owned := quiet.owned kept.owned
  saved := by
    intro ino listed clean
    rw [quiet.inodeList] at listed
    rw [quiet.inode] at clean ⊢
    rw [quiet.used ino (kept.owned.inode_inUse (kept.owned.loaded ino listed))]
    exact kept.saved ino listed clean

/-! ## Writing an inode back -/

/-- A block of a fixed place is written, and no inode is read from it. -/
theorem Owned.storeFixed (owned : fs.Owned files) {place : Place} (fixed : place.IsFixed) {blkno : Nat}
    (held : fs.holds files place = some blkno)
    (unread : forall ino, ino ∈ files -> ino ∉ fs.inodeList -> ino ≠ blkno) (data : Bytes) :
    (fs.store blkno data).Owned files where
  accounted := by
    have held : (fs.store blkno data).holds files = fs.holds files := by
      refine holds_congr rfl ?_ ?_
      · intro ino member
        unfold dinOf
        by_cases listed : ino ∈ fs.inodeList
        · rw [if_pos listed]
          exact congrArg _ (if_pos listed)
        · rw [if_neg listed]
          have block : (fs.store blkno data).device.block ino = fs.device.block ino :=
            Function.update_of_ne (unread ino member listed) ..
          rw [block]
          exact congrArg _ (if_neg listed)
      · intro ino member indexed number
        have different : (fs.dinOf ino).indirect ≠ blkno := by
          rintro rfl
          have holding : fs.holds files (.indirect ino) = some (fs.dinOf ino).indirect :=
            (if_pos member).trans (entryBlock_eq_some.mpr ⟨rfl, indexed⟩)
          rw [owned.accounted.exclusive.once _ _ _ held holding] at fixed
          exact fixed
        have block : (fs.store blkno data).device.block (fs.dinOf ino).indirect =
            fs.device.block (fs.dinOf ino).indirect := Function.update_of_ne different ..
        unfold entryOf
        rw [block]
    rw [held]
    exact owned.accounted
  loaded := owned.loaded

/-- A block of the super block or of the free map is written. -/
theorem Kept.storeReserved (kept : fs.Kept files) {blkno : Nat}
    (held : fs.holds files (.reserved blkno) = some blkno) (data : Bytes) : (fs.store blkno data).Kept files := by
  have unread : forall ino, ino ∈ files -> ino ≠ blkno := by
    rintro ino member rfl
    have holding : fs.holds files (.inode ino) = some ino := if_pos member
    cases kept.owned.accounted.exclusive.once _ _ _ held holding
  have fixed : (Place.reserved blkno).IsFixed := trivial
  refine ⟨kept.owned.storeFixed fixed held (fun ino member _ => unread ino member) data, ?_⟩
  intro ino listed clean
  have block : (fs.store blkno data).device.block ino = fs.device.block ino :=
    Function.update_of_ne (unread ino (kept.owned.loaded ino listed)) ..
  rw [block]
  exact kept.saved ino listed clean

/-- The inode has been written to its block. -/
def writtenBack (fs : SfsFs) (sin : Nat) : SfsFs :=
  (fs.setInode sin { fs.inode sin with dirty := false }).tick.store sin
    (splice (fs.device.block sin) 0 inodeBytes (encodeInode (fs.inode sin).din))

/-- What an inode points to fits its fields. -/
theorem Owned.pointers_fit (owned : fs.Owned files) (loaded : sin ∈ fs.inodeList) :
    (forall index, (fs.inode sin).din.direct index < 2 ^ 32) /\ (fs.inode sin).din.indirect < 2 ^ 32 := by
  constructor
  · intro index
    by_cases absent : (fs.inode sin).din.direct index = 0
    · rw [absent]
      exact Nat.two_pow_pos 32
    · have block : fs.blockOf (fs.inode sin).din index.val = (fs.inode sin).din.direct index := dif_pos index.isLt
      have valid := owned.blockOf_valid loaded (block ▸ absent)
      rw [block] at valid
      exact lt_two_pow_of_valid valid
  · by_cases absent : (fs.inode sin).din.indirect = 0
    · rw [absent]
      exact Nat.two_pow_pos 32
    · exact lt_two_pow_of_valid (owned.indirect_valid loaded absent)

theorem Kept.writtenBack (kept : fs.Kept files) (loaded : sin ∈ fs.inodeList) : (fs.writtenBack sin).Kept files := by
  have member := kept.owned.loaded sin loaded
  have held : fs.holds files (.inode sin) = some sin := if_pos member
  have fixed : (Place.inode sin).IsFixed := trivial
  have cleaned : (fs.setInode sin { fs.inode sin with dirty := false }).Owned files := kept.owned.setInode loaded rfl
  refine ⟨((Quiet.tick _).owned cleaned).storeFixed fixed held ?_ _, ?_⟩
  · rintro ino _ unlisted rfl
    exact unlisted loaded
  · intro ino listed clean
    by_cases here : ino = sin
    · subst here
      have block : (fs.writtenBack ino).device.block ino =
          splice (fs.device.block ino) 0 inodeBytes (encodeInode (fs.inode ino).din) := Function.update_self ..
      have inode : (fs.writtenBack ino).inode ino = { fs.inode ino with dirty := false } := inode_setInode ..
      have fit := kept.owned.pointers_fit loaded
      rw [block, inode]
      apply Prod.ext
      · funext index
        exact decode_splice_direct (fit.1 index) _
      · exact decode_splice_indirect fit.2 _
    · have block : (fs.writtenBack sin).device.block ino = fs.device.block ino := Function.update_of_ne here ..
      have inode : (fs.writtenBack sin).inode ino = fs.inode ino := inode_setInode_of_ne fs here _
      rw [inode] at clean
      rw [block, inode]
      exact kept.saved ino listed clean

end SfsFs

variable {fs : SfsFs} {files : List Nat} {sin : Nat} {fail : Errno -> SfsFs -> Prop} {stop : Fault -> Prop}
  {done : Unit -> SfsFs -> Prop}

theorem fsync_meets (owned : fs.Owned files) (loaded : sin ∈ fs.inodeList)
    (clean : (fs.inode sin).dirty = false -> done () fs)
    (failed : (fs.inode sin).dirty = true -> fs.Fails 2 -> forall error after, Quiet fs after -> fail error after)
    (written : (fs.inode sin).dirty = true -> ¬ fs.Fails 2 -> done () (fs.writtenBack sin)) :
    Meets (fsync sin) fs ⟨done, fail, stop⟩ := by
  have held : fs.holds files (.inode sin) = some sin := if_pos (owned.loaded sin loaded)
  have valid := owned.valid held (by simp)
  unfold fsync
  simp only [meets_bind, meets_get, meets_ite, meets_pure]
  cases dirty : (fs.inode sin).dirty with
  | false =>
      rw [if_neg Bool.false_ne_true]
      exact clean dirty
  | true =>
      rw [if_pos rfl]
      unfold setDirty
      simp only [meets_modify, meets_onError]
      have restored : forall current : SfsFs, current.inode sin = { fs.inode sin with dirty := false } ->
          current.inode = Function.update fs.inode sin { fs.inode sin with dirty := false } ->
          (current.setInode sin { current.inode sin with dirty := true }).inode = fs.inode := by
        intro current here all
        unfold setInode
        dsimp only
        rw [here, all, Function.update_idem, Function.update_eq_self_iff]
        change { fs.inode sin with dirty := true } = fs.inode sin
        rw [← dirty]
      have stillValid : (fs.setInode sin { fs.inode sin with dirty := false }).Valid sin := valid
      apply wbuf_meets stillValid (by decide) (by decide)
      · intro error outcome
        exact failed dirty (Fails.of_error 0 outcome (by omega)) error _
          { Quiet.tick fs with inode := restored _ (inode_setInode ..) rfl }
      · intro error _ outcome
        exact failed dirty (Fails.of_error 1 outcome (by omega)) error _
          { (Quiet.tick fs).ticked with inode := restored _ (inode_setInode ..) rfl }
      · intro first second
        exact written dirty (not_fails_succ first
          (not_fails_succ ((fs.nextError_tick 0).trans second) not_fails_zero))

theorem fsync_kept (kept : fs.Kept files) (loaded : sin ∈ fs.inodeList) :
    Meets (fsync sin) fs ⟨fun _ after => after.Kept files /\ after.inodeList = fs.inodeList /\
        (after.inode sin).din = (fs.inode sin).din /\ (after.inode sin).dirty = false,
      fun _ after => after.Kept files /\ after.inodeList = fs.inodeList, fun _ => True⟩ := by
  apply fsync_meets kept.owned loaded
  · exact fun clean => ⟨kept, rfl, rfl, clean⟩
  · exact fun _ _ _ _ quiet => ⟨quiet.kept kept, quiet.inodeList⟩
  · intro _ _
    have inode : (fs.writtenBack sin).inode sin = { fs.inode sin with dirty := false } := inode_setInode ..
    refine ⟨kept.writtenBack loaded, rfl, ?_⟩
    rw [inode]
    exact ⟨rfl, rfl⟩

/-! ## Loading -/

/-- A new inode is loaded. -/
def SfsFs.withInode (fs : SfsFs) (ino : Nat) (sin : Inode) : SfsFs :=
  { fs.setInode ino sin with inodeList := ino :: fs.inodeList }

theorem SfsFs.Kept.withInode {ino : Nat} {value : Inode} (kept : fs.Kept files) (member : ino ∈ files)
    (unloaded : ino ∉ fs.inodeList) (read : value.din = decodeInode (fs.device.block ino)) :
    (fs.withInode ino value).Kept files := by
  have here : (fs.withInode ino value).inode ino = value := inode_setInode ..
  have din : forall other, (fs.withInode ino value).dinOf other = fs.dinOf other := by
    intro other
    unfold dinOf
    change (if other ∈ ino :: fs.inodeList then _ else _) = _
    by_cases same : other = ino
    · subst same
      rw [if_pos List.mem_cons_self, if_neg unloaded, here, read]
    · have listed : other ∈ ino :: fs.inodeList <-> other ∈ fs.inodeList := by simp [same]
      have inode : (fs.withInode ino value).inode other = fs.inode other := inode_setInode_of_ne fs same _
      rw [inode]
      exact if_congr listed rfl rfl
  refine ⟨⟨?_, ?_⟩, ?_⟩
  · have held : (fs.withInode ino value).holds files = fs.holds files := by
      refine holds_congr rfl ?_ ?_
      · intro other _
        rw [din]
      · exact fun _ _ _ _ => rfl
    rw [held]
    exact kept.owned.accounted
  · intro other listed
    rcases List.mem_cons.mp listed with rfl | listed
    · exact member
    · exact kept.owned.loaded other listed
  · intro other listed clean
    by_cases same : other = ino
    · subst same
      rw [here, read]
      rfl
    · have inode : (fs.withInode ino value).inode other = fs.inode other := inode_setInode_of_ne fs same _
      rw [inode] at clean ⊢
      exact kept.saved other ((List.mem_cons.mp listed).resolve_left same) clean

theorem loadInode_kept {ino : Nat} {dinAlloc nodeAlloc : Bool} (kept : fs.Kept files) (member : ino ∈ files) :
    Meets (loadInode ino dinAlloc nodeAlloc) fs
      ⟨fun _ after => after.Kept files, fun _ after => after.Kept files, fun _ => True⟩ := by
  have held : fs.holds files (.inode ino) = some ino := if_pos member
  have valid := kept.owned.valid held (by simp)
  unfold loadInode
  simp only [meets_bind, meets_get, meets_ite, meets_modify, meets_throw, meets_halt, meets_assert]
  by_cases listed : ino ∈ fs.inodeList
  · rw [if_pos listed]
    exact kept.setInode listed rfl (fun clean => clean)
  · rw [if_neg listed]
    split
    · exact kept
    · apply assertInuse_meets valid (kept.owned.lt_nbits valid.2.1) (kept.owned.inUse held)
      apply rbuf_meets valid (by decide) (by decide)
      · exact fun _ _ => (Quiet.tick fs).kept kept
      · intro _
        refine ⟨fun _ => ?_, fun _ => trivial⟩
        split
        · exact (Quiet.tick fs).kept kept
        · split
          · trivial
          · have read : decodeInode (fun k => fs.device.block ino (0 + k)) =
              decodeInode (fs.tick.device.block ino) := by
              simp only [Nat.zero_add]
              rfl
            exact ((Quiet.tick fs).kept kept).withInode member listed read

/-! ## Synchronisation -/

theorem fsyncAll_kept {list : List Nat} (kept : fs.Kept files) (loaded : forall ino, ino ∈ list -> ino ∈ fs.inodeList) :
    Meets (fsyncAll list) fs ⟨fun _ after => after.Kept files, fail, fun _ => True⟩ := by
  induction list generalizing fs with
  | nil => exact kept
  | cons sin rest inductionHypothesis =>
      unfold fsyncAll
      simp only [meets_bind, meets_attempt]
      have next : forall after : SfsFs, after.Kept files -> after.inodeList = fs.inodeList ->
          Meets (fsyncAll rest) after ⟨fun _ after => after.Kept files, fail, fun _ => True⟩ := by
        intro after keptAfter same
        apply inductionHypothesis keptAfter
        intro ino listed
        rw [same]
        exact loaded ino (List.mem_cons_of_mem sin listed)
      refine (fsync_kept kept (loaded sin List.mem_cons_self)).mono ?_ ?_ (fun _ _ => trivial)
      · exact fun _ after outcome => next after outcome.1 outcome.2.1
      · exact fun _ after outcome => next after outcome.1 outcome.2

theorem rwblockLoop_kept {nblks blkno base : Nat} {buf : Bytes} (kept : fs.Kept files) (low : blknFreemap <= blkno)
    (high : blkno + nblks <= blknFreemap + freemapBlocks fs.super) :
    Meets (rwblockLoop true nblks blkno base buf) fs
      ⟨fun _ after => after.Kept files, fun _ after => after.Kept files, fun _ => True⟩ := by
  induction nblks generalizing fs blkno base buf with
  | zero => exact kept
  | succ nblks inductionHypothesis =>
      have held : fs.holds files (.reserved blkno) = some blkno := if_pos (.inr ⟨low, by omega⟩)
      have positive : blkno ≠ 0 := by
        unfold blknFreemap at low
        omega
      unfold rwblockLoop
      rw [meets_bind]
      apply rwblockNolock_meets (.inl positive) (kept.owned.accounted.inRange _ _ held) kept.owned.accounted.small
      · exact fun _ _ => (Quiet.tick fs).kept kept
      · exact fun _ absurd => by cases absurd
      · intro _ _
        apply inductionHypothesis (kept.storeReserved held _)
        · omega
        · change blkno + 1 + nblks <= blknFreemap + freemapBlocks fs.super
          omega

theorem SfsFs.Kept.setSuperDirty (kept : fs.Kept files) (flag : Bool) :
    ({ fs with superDirty := flag } : SfsFs).Kept files := ⟨⟨kept.owned.accounted, kept.owned.loaded⟩, kept.saved⟩

theorem sync_kept (kept : fs.Kept files) :
    Meets sync fs ⟨fun _ after => after.Kept files, fun _ after => after.Kept files, fun _ => True⟩ := by
  unfold sync
  simp only [meets_bind, meets_get, meets_ite, meets_pure]
  refine (fsyncAll_kept kept fun _ listed => listed).mono ?_ (fun _ _ failed => failed) (fun _ stopped => stopped)
  intro _ synced keptSynced
  dsimp only
  split
  · unfold setSuperDirty syncSuper syncFreemap
    simp only [meets_onError, meets_bind, meets_get, meets_modify, meets_pure]
    have clean := keptSynced.setSuperDirty false
    have held := SfsFs.holds_super { synced with superDirty := false } files
    apply rwblockNolock_meets (.inr rfl) (clean.owned.accounted.inRange _ _ held) clean.owned.accounted.small
    · exact fun _ _ => ((Quiet.tick _).kept clean).setSuperDirty true
    · exact fun _ absurd => by cases absurd
    · intro _ _
      have stored := clean.storeReserved held
        (splice (fun _ => 0) 0 superBytes (encodeSuper { synced with superDirty := false }.super))
      unfold rwblock
      refine (rwblockLoop_kept stored (Nat.le_refl _) (Nat.le_refl _)).mono ?_ ?_ (fun _ stopped => stopped)
      · exact fun _ _ keptAfter => keptAfter
      · exact fun _ _ keptAfter => keptAfter.setSuperDirty true
  · exact keptSynced

/-! ## Dropping an inode -/

namespace SfsFs

/-- An inode is dropped from memory. -/
def withoutInode (fs : SfsFs) (ino : Nat) : SfsFs :=
  { fs with inodeList := fs.inodeList.filter (fun other => other ≠ ino) }

theorem mem_withoutInode {ino other : Nat} :
    other ∈ (fs.withoutInode ino).inodeList <-> other ∈ fs.inodeList /\ other ≠ ino := by
  unfold withoutInode
  rw [List.mem_filter, decide_eq_true_iff]

theorem Kept.withoutInode (kept : fs.Kept files) (clean : (fs.inode sin).dirty = false) :
    (fs.withoutInode sin).Kept files where
  owned := by
    refine ⟨?_, fun ino listed => kept.owned.loaded ino (mem_withoutInode.mp listed).1⟩
    have held : (fs.withoutInode sin).holds files = fs.holds files := by
      refine holds_congr rfl ?_ ?_
      · intro ino _
        unfold dinOf
        by_cases listed : ino ∈ fs.inodeList
        · rw [if_pos listed]
          by_cases same : ino = sin
          · subst same
            rw [if_neg fun still => (mem_withoutInode.mp still).2 rfl]
            exact kept.saved ino listed clean
          · rw [if_pos (mem_withoutInode.mpr ⟨listed, same⟩)]
            rfl
        · rw [if_neg listed, if_neg fun still => listed (mem_withoutInode.mp still).1]
          rfl
      · exact fun _ _ _ _ => rfl
    rw [held]
    exact kept.owned.accounted
  saved := fun ino listed isClean => kept.saved ino (mem_withoutInode.mp listed).1 isClean

theorem holds_fewer {some fewer : List Nat} (subset : forall ino, ino ∈ fewer -> ino ∈ some) {place : Place}
    {blkno : Nat} (held : fs.holds fewer place = Option.some blkno) : fs.holds some place = Option.some blkno := by
  cases place with
  | reserved _ => exact held
  | inode ino =>
      rw [holds] at held ⊢
      split at held
      · rename_i member
        rw [if_pos (subset ino member)]
        exact held
      · cases held
  | direct ino _ =>
      rw [holds] at held ⊢
      split at held
      · rename_i member
        rw [if_pos (subset ino member)]
        exact held
      · cases held
  | indirect ino =>
      rw [holds] at held ⊢
      split at held
      · rename_i member
        rw [if_pos (subset ino member)]
        exact held
      · cases held
  | entry ino index =>
      rw [holds] at held ⊢
      split at held
      · rename_i all
        rw [if_pos ⟨subset ino all.1, all.2⟩]
        exact held
      · cases held

/-- A file that is not loaded is forgotten. -/
theorem Kept.forget {fewer : List Nat} (kept : fs.Kept files) (subset : forall ino, ino ∈ fewer -> ino ∈ files)
    (loaded : forall ino, ino ∈ fs.inodeList -> ino ∈ fewer) : fs.Kept fewer where
  owned := {
    accounted := { kept.owned.accounted with
      exclusive := kept.owned.accounted.exclusive.weaken (fun _ _ held => holds_fewer subset held)
        (fun _ _ _ free => free)
      inRange := fun place blkno held => kept.owned.accounted.inRange place blkno (holds_fewer subset held) }
    loaded := loaded }
  saved := kept.saved

/-- A block that no place refers to is given back. -/
theorem Kept.given (kept : fs.Kept files) {blkno : Nat} (inRange : blkno < fs.super.blocks)
    (used : fs.freemap.bit blkno = false) (unheld : forall place, fs.holds files place ≠ some blkno) :
    (fs.given blkno).Kept files where
  owned := {
    accounted := {
      exclusive := kept.owned.accounted.exclusive.weaken (fun _ _ held => held) (by
        intro place other held set
        change Function.update fs.freemap.bit blkno true other = true at set
        have different : other ≠ blkno := by
          rintro rfl
          exact unheld place held
        rwa [Function.update_of_ne different] at set)
      inRange := kept.owned.accounted.inRange
      bits := by
        intro index set
        change Function.update fs.freemap.bit blkno true index = true at set
        by_cases same : index = blkno
        · exact same ▸ inRange
        · rw [Function.update_of_ne same] at set
          exact kept.owned.accounted.bits index set
      mapped := kept.owned.accounted.mapped
      counted := by
        change fs.super.unusedBlocks + 1 = Bitmap.count _
        rw [kept.owned.accounted.counted]
        exact (Bitmap.count_set (kept.owned.lt_nbits inRange) used).symm
      small := kept.owned.accounted.small }
    loaded := kept.owned.loaded }
  saved := kept.saved

end SfsFs

/-- The files after a file has been dropped from memory. -/
def filesAfter (files : List Nat) (ino nlinks : Nat) : List Nat :=
  if nlinks = 0 then files.filter (fun other => other ≠ ino) else files

theorem mem_filter_ne {ino other : Nat} : other ∈ files.filter (fun other => other ≠ ino) <-> other ∈ files /\
      other ≠ ino := by
  rw [List.mem_filter, decide_eq_true_iff]

theorem reclaimBlocks_kept (kept : fs.Kept files) (loaded : sin ∈ fs.inodeList)
    (clean : (fs.inode sin).dirty = false) :
    Meets (reclaimBlocks sin) (fs.withoutInode sin)
      ⟨fun _ after => after.Kept (filesAfter files sin (fs.inode sin).din.nlinks) /\ sin ∉ after.inodeList,
        fail, stop⟩ := by
  have member := kept.owned.loaded sin loaded
  have others : forall ino, ino ∈ files.filter (fun other => other ≠ sin) -> ino ∈ files :=
    fun ino listed => (mem_filter_ne.mp listed).1
  have still := kept.withoutInode clean
  have dropped := still.forget others (by
    intro ino listed
    have both := mem_withoutInode.mp listed
    exact mem_filter_ne.mpr ⟨kept.owned.loaded ino both.1, both.2⟩)
  have unlisted : sin ∉ (fs.withoutInode sin).inodeList := fun listed => (mem_withoutInode.mp listed).2 rfl
  have indirect : ((fs.withoutInode sin).dinOf sin).indirect = (fs.inode sin).din.indirect := by
    unfold dinOf
    rw [if_neg unlisted]
    exact congrArg Prod.snd (kept.saved sin loaded clean)
  have held : (fs.withoutInode sin).holds files (.inode sin) = some sin := if_pos member
  have valid := still.owned.valid held (by simp)
  -- no place of another file refers to a block of this one
  have unheld : forall place blkno, (fs.withoutInode sin).holds files place = some blkno ->
      place = .inode sin \/ place = .indirect sin ->
      forall other, (fs.withoutInode sin).holds (files.filter fun other => other ≠ sin) other ≠ some blkno := by
    intro place blkno holding own other also
    have same := still.owned.accounted.exclusive.once _ _ _ holding (holds_fewer others also)
    have gone : sin ∉ files.filter (fun other => other ≠ sin) := fun listed => (mem_filter_ne.mp listed).2 rfl
    subst same
    rcases own with rfl | rfl
    · rw [holds, if_neg gone] at also
      cases also
    · rw [holds, if_neg gone] at also
      cases also
  unfold reclaimBlocks getDin filesAfter
  simp only [meets_bind, meets_get, meets_pure, meets_ite]
  change if (fs.inode sin).din.nlinks = 0 then _ else _
  split
  · apply blockFree_meets valid (still.owned.lt_nbits valid.2.1) (still.owned.inUse held)
    have freed := dropped.given valid.2.1 (still.owned.inUse held) (unheld _ _ held (.inl rfl))
    change if (fs.inode sin).din.indirect ≠ 0 then _ else _
    split
    · rename_i indexed
      have heldIndirect : (fs.withoutInode sin).holds files (.indirect sin) = some (fs.inode sin).din.indirect := by
        rw [holds, if_pos member, indirect]
        exact entryBlock_eq_some.mpr ⟨rfl, indexed⟩
      have different : (fs.inode sin).din.indirect ≠ sin := by
        intro same
        rw [same] at heldIndirect
        cases still.owned.accounted.exclusive.once _ _ _ held heldIndirect
      have validIndirect := still.owned.valid heldIndirect (by simp)
      have validFreed : ((fs.withoutInode sin).given sin).Valid (fs.inode sin).din.indirect := validIndirect
      have used : ((fs.withoutInode sin).given sin).freemap.bit (fs.inode sin).din.indirect = false :=
        (Function.update_of_ne different ..).trans (still.owned.inUse heldIndirect)
      apply blockFree_meets validFreed (still.owned.lt_nbits validIndirect.2.1) used
      exact ⟨freed.given validIndirect.2.1 used (unheld _ _ heldIndirect (.inr rfl)), unlisted⟩
    · exact ⟨freed, unlisted⟩
  · exact ⟨still, unlisted⟩

theorem reclaimInode_kept (kept : fs.Kept files) (loaded : sin ∈ fs.inodeList) :
    Meets (reclaimInode sin) fs
      ⟨fun _ after => after.Kept files /\ sin ∈ after.inodeList /\ (after.inode sin).dirty = false /\
          (after.inode sin).din.nlinks = (fs.inode sin).din.nlinks,
        fun _ after => after.Kept files /\ sin ∈ after.inodeList, fun _ => True⟩ := by
  have finish : forall middle : SfsFs, middle.Kept files -> sin ∈ middle.inodeList ->
      (middle.inode sin).din.nlinks = (fs.inode sin).din.nlinks ->
      if (middle.inode sin).dirty = true then
        Meets (fsync sin) middle
          ⟨fun _ after => after.Kept files /\ sin ∈ after.inodeList /\ (after.inode sin).dirty = false /\
            (after.inode sin).din.nlinks = (fs.inode sin).din.nlinks,
          fun _ after => after.Kept files /\ sin ∈ after.inodeList, fun _ => True⟩
      else middle.Kept files /\ sin ∈ middle.inodeList /\ (middle.inode sin).dirty = false /\
          (middle.inode sin).din.nlinks = (fs.inode sin).din.nlinks := by
    intro middle keptMiddle listed nlinks
    split
    · refine (fsync_kept keptMiddle listed).mono ?_ ?_ (fun _ stopped => stopped)
      · rintro _ after ⟨keptAfter, list, din, clean⟩
        exact ⟨keptAfter, list ▸ listed, clean, by rw [din, nlinks]⟩
      · rintro _ after ⟨keptAfter, list⟩
        exact ⟨keptAfter, list ▸ listed⟩
    · rename_i clean
      exact ⟨keptMiddle, listed, Bool.eq_false_iff.mpr clean, nlinks⟩
  unfold reclaimInode getDin
  simp only [meets_bind, meets_get, meets_pure, meets_ite]
  split
  · unfold vopTruncate getDin
    simp only [meets_bind, meets_get, meets_pure, meets_assert]
    refine ⟨fun _ => ?_, fun _ => trivial⟩
    refine (truncfile_edits kept.owned loaded).mono ?_ ?_ (fun _ _ => trivial)
    · intro _ middle changed
      exact finish middle (changed.kept kept loaded) (changed.inodeList ▸ loaded) changed.nlinks
    · intro _ after changed
      exact ⟨changed.kept kept loaded, changed.inodeList ▸ loaded⟩
  · simpa only using finish fs kept loaded rfl

theorem reclaim_kept (kept : fs.Kept files) (loaded : sin ∈ fs.inodeList) :
    Meets (reclaim sin) fs
      ⟨fun _ after => after.Kept (filesAfter files sin (fs.inode sin).din.nlinks) /\ sin ∉ after.inodeList,
        fun _ after => after.Kept files /\ sin ∈ after.inodeList, fun _ => True⟩ := by
  have counted : (fs.setInode sin { fs.inode sin with reclaimCount := (fs.inode sin).reclaimCount - 1 }).Kept files :=
    kept.setInode loaded rfl (fun clean => clean)
  unfold reclaim removeLinks
  simp only [meets_bind, meets_get, meets_assert, meets_modify, meets_ite, meets_throw]
  refine ⟨fun _ => ?_, fun _ => trivial⟩
  split
  · exact ⟨counted, loaded⟩
  · refine (reclaimInode_kept counted loaded).mono ?_ (fun _ _ failed => failed) (fun _ stopped => stopped)
    rintro _ middle ⟨keptMiddle, listed, clean, nlinks⟩
    rw [inode_setInode] at nlinks
    rw [← nlinks]
    exact reclaimBlocks_kept keptMiddle listed clean

theorem refDec_kept (kept : fs.Kept files) (loaded : sin ∈ fs.inodeList) :
    Meets (refDec sin) fs
      ⟨fun _ after => (after.Kept (filesAfter files sin (fs.inode sin).din.nlinks) /\ sin ∉ after.inodeList) \/
          (after.Kept files /\ sin ∈ after.inodeList), fail, fun _ => True⟩ := by
  have counted : (fs.setInode sin { fs.inode sin with refCount := (fs.inode sin).refCount - 1 }).Kept files :=
    kept.setInode loaded rfl (fun clean => clean)
  unfold refDec
  simp only [meets_bind, meets_get, meets_assert, meets_modify, meets_ite, meets_attempt, meets_pure]
  refine ⟨fun _ => ?_, fun _ => trivial⟩
  split
  · refine (reclaim_kept counted loaded).mono ?_ (fun _ _ failed => .inr failed) (fun _ stopped => stopped)
    rintro _ after ⟨keptAfter, unlisted⟩
    rw [inode_setInode] at keptAfter
    exact .inl ⟨keptAfter, unlisted⟩
  · exact .inr ⟨counted, loaded⟩

/-! ## Mounting -/

/-- The files of a volume own their blocks, and the free map marks the others
free.  `sfs_do_mount` checks the number of free blocks only. -/
structure SfsFs.Consistent (fs : SfsFs) (files : List Nat) : Prop where
  exclusive : Exclusive (fs.holds files) (fun blkno => fs.freemap.bit blkno = true)
  inRange : forall place blkno, fs.holds files place = some blkno -> blkno < fs.super.blocks
  bits : forall index, fs.freemap.bit index = true -> index < fs.super.blocks
  small : fs.super.blocks <= maxNblks

/-- What `sfs_do_mount` returns. -/
structure SfsFs.Fresh (fs : SfsFs) : Prop where
  counted : fs.super.unusedBlocks = fs.freemap.count
  mapped : fs.freemap.nbits = freemapBlocks fs.super * blkbits
  inodeList : fs.inodeList = []
  superDirty : fs.superDirty = false

theorem doMount_fresh {device : Device} (mounted : doMount device = some (.ok fs)) : fs.Fresh := by
  unfold doMount at mounted
  dsimp only at mounted
  split at mounted
  · cases mounted
  · split at mounted
    · cases mounted
    · split at mounted
      · cases mounted
      · split at mounted
        · cases mounted
        · split at mounted
          · cases mounted
          · split at mounted
            · cases mounted
            · split at mounted
              · rename_i data _ _ unused
                cases mounted
                refine ⟨?_, rfl, rfl, rfl⟩
                change (decodeSuper _).unusedBlocks = (List.range _).countP _
                rw [← unused]
                apply List.countP_congr
                intro index member
                rw [Bool.and_eq_true, decide_eq_true_iff]
                exact ⟨fun set => ⟨List.mem_range.mp member, set⟩, fun both => both.2⟩
              · cases mounted

theorem SfsFs.Fresh.kept (fresh : fs.Fresh) (consistent : fs.Consistent files) : fs.Kept files where
  owned := {
    accounted := { consistent with
      mapped := by
        have bound : fs.super.blocks <= roundupDiv fs.super.blocks blkbits * blkbits := by
          unfold roundupDiv blkbits
          omega
        exact fresh.mapped ▸ bound
      counted := fresh.counted }
    loaded := fun ino listed => by
      rw [fresh.inodeList] at listed
      cases listed }
  saved := fun ino listed => by
    rw [fresh.inodeList] at listed
    cases listed

end Sfs
end Ucore
