import Ucore.Sfs.Orderly

namespace Ucore
namespace Sfs

open Library
open Program
open SfsFs

/-!
# Saving and loading an orderly volume

Writing inodes, the super block and the free map back, and loading and
dropping inodes, leave every file as it is.
-/

namespace SfsFs

/-- Only blocks of fixed places have changed, and no inode is read from them. -/
structure Shelved (files : List Nat) (fs after : SfsFs) : Prop where
  inodeList : after.inodeList = fs.inodeList
  din : forall ino, (after.inode ino).din = (fs.inode ino).din
  super : after.super = fs.super
  freemap : after.freemap = fs.freemap
  error : after.device.error = fs.device.error
  block : forall place blkno, ¬ place.IsFixed -> fs.holds files place = some blkno ->
    after.device.block blkno = fs.device.block blkno
  unloaded : forall ino, ino ∈ files -> ino ∉ fs.inodeList -> after.device.block ino = fs.device.block ino

variable {fs middle after : SfsFs} {files : List Nat} {sin ino : Nat}

theorem Shelved.dinOf (shelved : Shelved files fs after) (member : ino ∈ files) : after.dinOf ino = fs.dinOf ino := by
  by_cases loaded : ino ∈ fs.inodeList
  · have still : ino ∈ after.inodeList := shelved.inodeList ▸ loaded
    rw [dinOf_loaded loaded, dinOf_loaded still]
    exact shelved.din ino
  · have still : ino ∉ after.inodeList := shelved.inodeList ▸ loaded
    unfold SfsFs.dinOf
    rw [if_neg loaded, if_neg still, shelved.unloaded ino member loaded]

theorem Shelved.same (shelved : Shelved files fs after) (member : ino ∈ files) : Same fs ino after :=
  .of_held member (shelved.dinOf member) fun place blkno _ loose held => shelved.block place blkno loose held

theorem Shelved.owned (shelved : Shelved files fs after) (owned : fs.Owned files) : after.Owned files where
  accounted := by
    have held : after.holds files = fs.holds files := by
      refine holds_congr (by rw [shelved.super]) ?_ ?_
      · exact fun ino member => congrArg DiskInode.pointers (shelved.dinOf member)
      · intro ino member indexed index
        have loose : ¬ (Place.indirect ino).IsFixed := fun fixed => fixed
        unfold entryOf
        rw [shelved.block _ _ loose (holds_pointer member indexed)]
    rw [held, shelved.super, shelved.freemap]
    exact owned.accounted
  loaded := fun ino listed => owned.loaded ino (shelved.inodeList ▸ listed)

theorem Shelved.still (shelved : Shelved files fs after) (orderly : Orderly files fs)
    (geometry : after.geometry = fs.geometry) (saved : after.superDirty = false -> after.SuperSaved)
    (tracked : forall ino, ino ∈ after.inodeList -> after.Tracked ino) : Still files fs after where
  same := fun _ member => shelved.same member
  orderly := by
    refine ⟨shelved.owned orderly.owned, ?_, ?_, tracked, ?_⟩
    · intro number
      rw [shelved.error]
      exact orderly.works number
    · exact orderly.medium.of_fixed (by rw [shelved.super]) (by rw [shelved.freemap]) geometry saved
    · exact fun ino member => (shelved.same member).sorted (orderly.sorted ino member)

theorem Orderly.tick (orderly : Orderly files fs) : Still files fs fs.tick := by
  have shelved : Shelved files fs fs.tick :=
    ⟨rfl, fun _ => rfl, rfl, rfl, rfl, fun _ _ _ _ => rfl, fun _ _ _ => rfl⟩
  refine shelved.still orderly rfl ?_ ?_
  · exact fun clean => ⟨(orderly.medium.saved clean).super, (orderly.medium.saved clean).freemap⟩
  · exact fun ino listed => ⟨(orderly.tracked ino listed).counts, (orderly.tracked ino listed).fits,
      (orderly.tracked ino listed).saved⟩

theorem Orderly.counted (orderly : Orderly files fs) {value : Inode} (din : value.din = (fs.inode sin).din)
    (dirty : value.dirty = (fs.inode sin).dirty) (counts : 0 < value.refCount /\ value.reclaimCount = 1) :
    Still files fs (fs.setInode sin value) := by
  have shelved : Shelved files fs (fs.setInode sin value) := by
    refine ⟨rfl, fun ino => ?_, rfl, rfl, rfl, fun _ _ _ _ => rfl, fun _ _ _ => rfl⟩
    by_cases here : ino = sin
    · rw [here, inode_setInode]
      exact din
    · rw [inode_setInode_of_ne fs here]
  refine shelved.still orderly rfl ?_ ?_
  · exact fun clean => ⟨(orderly.medium.saved clean).super, (orderly.medium.saved clean).freemap⟩
  · intro ino listed
    have tracked := orderly.tracked ino listed
    by_cases here : ino = sin
    · subst here
      have inode := inode_setInode fs ino value
      refine ⟨?_, ?_, ?_⟩ <;> rw [inode]
      · exact counts
      · rw [din]
        exact tracked.fits
      · rw [din, dirty]
        exact tracked.saved
    · have inode := inode_setInode_of_ne fs here value
      refine ⟨?_, ?_, ?_⟩ <;> rw [inode]
      · exact tracked.counts
      · exact tracked.fits
      · exact tracked.saved

/-! ## Writing inodes back -/

theorem inode_writtenBack (fs : SfsFs) (sin : Nat) :
    (fs.writtenBack sin).inode sin = { fs.inode sin with dirty := false } := inode_setInode ..

theorem inode_writtenBack_of_ne (fs : SfsFs) (different : ino ≠ sin) : (fs.writtenBack sin).inode ino = fs.inode ino :=
  inode_setInode_of_ne fs different _

theorem block_writtenBack_of_ne (fs : SfsFs) (different : ino ≠ sin) :
    (fs.writtenBack sin).device.block ino = fs.device.block ino := Function.update_of_ne different ..

theorem Orderly.writtenBack (orderly : Orderly files fs) (loaded : sin ∈ fs.inodeList) :
    Still files fs (fs.writtenBack sin) := by
  have member := orderly.owned.loaded sin loaded
  have held : fs.holds files (.inode sin) = some sin := if_pos member
  have apart : forall place blkno, fs.holds files place = some blkno -> place ≠ .inode sin -> blkno ≠ sin := by
    rintro place blkno holding other rfl
    exact other (orderly.owned.accounted.exclusive.once _ _ _ holding held)
  have shelved : Shelved files fs (fs.writtenBack sin) := by
    refine ⟨rfl, fun ino => ?_, rfl, rfl, rfl, fun place blkno loose holding => ?_, fun ino _ unloaded => ?_⟩
    · by_cases here : ino = sin
      · rw [here, inode_writtenBack]
      · rw [inode_writtenBack_of_ne fs here]
    · refine block_writtenBack_of_ne fs (apart place blkno holding ?_)
      rintro rfl
      exact loose trivial
    · exact block_writtenBack_of_ne fs fun same => unloaded (same ▸ loaded)
  refine shelved.still orderly rfl ?_ ?_
  · intro clean
    refine (orderly.medium.saved clean).of_reserved orderly.medium.nbits rfl rfl fun blkno reserved => ?_
    have holding : fs.holds files (.reserved blkno) = some blkno := reserved
    exact block_writtenBack_of_ne fs (apart _ _ holding Place.noConfusion)
  · intro ino listed
    have tracked := orderly.tracked ino listed
    by_cases here : ino = sin
    · subst here
      refine ⟨?_, ?_, fun _ => ?_⟩ <;> rw [inode_writtenBack]
      · exact tracked.counts
      · exact tracked.fits
      · have block : (fs.writtenBack ino).device.block ino =
            splice (fs.device.block ino) 0 inodeBytes (encodeInode (fs.inode ino).din) := Function.update_self ..
        rw [block]
        exact decode_splice tracked.fits _
    · refine ⟨?_, ?_, ?_⟩ <;> rw [inode_writtenBack_of_ne fs here]
      · exact tracked.counts
      · exact tracked.fits
      · rw [block_writtenBack_of_ne fs here]
        exact tracked.saved

/-- Inodes have been written back, and the volume is as it was. -/
structure Written (files : List Nat) (fs after : SfsFs) : Prop where
  still : Still files fs after
  inodeList : after.inodeList = fs.inodeList
  inode : forall ino, after.inode ino = fs.inode ino \/ after.inode ino = { fs.inode ino with dirty := false }
  superDirty : after.superDirty = fs.superDirty

theorem Written.clean (written : Written files fs after) (clean : (fs.inode ino).dirty = false) :
    (after.inode ino).dirty = false := by
  rcases written.inode ino with same | cleaned
  · rw [same]
    exact clean
  · rw [cleaned]

theorem Orderly.written (orderly : Orderly files fs) : Written files fs fs :=
  ⟨orderly.still, rfl, fun _ => .inl rfl, rfl⟩

theorem Written.trans (first : Written files fs middle) (second : Written files middle after) :
    Written files fs after where
  still := first.still.trans second.still
  inodeList := second.inodeList.trans first.inodeList
  inode := by
    intro ino
    rcases second.inode ino with same | cleaned
    · rw [same]
      exact first.inode ino
    · rw [cleaned]
      rcases first.inode ino with same | cleanedFirst
      · exact .inr (by rw [same])
      · exact .inr (by rw [cleanedFirst])
  superDirty := second.superDirty.trans first.superDirty

end SfsFs

variable {fs : SfsFs} {files : List Nat} {sin ino : Nat}

theorem fsync_orderly (orderly : Orderly files fs) (loaded : sin ∈ fs.inodeList) :
    Meets (fsync sin) fs ⟨fun _ after => Written files fs after /\ (after.inode sin).dirty = false,
      fun _ _ => False, fun _ => False⟩ := by
  apply fsync_meets orderly.owned loaded
  · exact fun clean => ⟨orderly.written, clean⟩
  · exact fun _ fails => absurd fails (orderly.works.not_fails 2)
  · intro _ _
    refine ⟨⟨orderly.writtenBack loaded, rfl, fun ino => ?_, rfl⟩, ?_⟩
    · by_cases here : ino = sin
      · rw [here, inode_writtenBack]
        exact .inr rfl
      · exact .inl (inode_writtenBack_of_ne fs here)
    · rw [inode_writtenBack]

theorem fsyncAll_orderly {list : List Nat} (orderly : Orderly files fs)
    (loaded : forall ino, ino ∈ list -> ino ∈ fs.inodeList) :
    Meets (fsyncAll list) fs
      ⟨fun _ after => Written files fs after /\ forall ino, ino ∈ list -> (after.inode ino).dirty = false,
        fun _ _ => False, fun _ => False⟩ := by
  induction list generalizing fs with
  | nil => exact ⟨orderly.written, fun _ absurd => by cases absurd⟩
  | cons sin rest inductionHypothesis =>
      unfold fsyncAll
      rw [meets_bind, meets_attempt]
      refine (fsync_orderly orderly (loaded sin List.mem_cons_self)).mono ?_ (fun _ _ failed => failed.elim)
        (fun _ stopped => stopped)
      rintro _ middle ⟨first, clean⟩
      have others : forall ino, ino ∈ rest -> ino ∈ middle.inodeList := by
        intro ino listed
        rw [first.inodeList]
        exact loaded ino (List.mem_cons_of_mem _ listed)
      refine (inductionHypothesis first.still.orderly others).mono ?_ (fun _ _ failed => failed)
        (fun _ stopped => stopped)
      rintro _ after ⟨second, cleaned⟩
      refine ⟨first.trans second, fun ino listed => ?_⟩
      rcases List.mem_cons.mp listed with rfl | later
      · exact second.clean clean
      · exact cleaned ino later

/-! ## The super block and the free map -/

namespace SfsFs

/-- The volume on a device with other blocks -/
def withBlocks (fs : SfsFs) (block : Nat -> Bytes) (transfers : Nat) : SfsFs :=
  { fs with device := { fs.device with block := block, transfers := transfers } }

/-- Blocks have been written from a buffer. -/
def storeBlocks (fs : SfsFs) (blkno nblks base : Nat) (buf : Bytes) : SfsFs :=
  fs.withBlocks (fun number =>
      if blkno <= number /\ number < blkno + nblks then fun k => buf (base + (number - blkno) * blksize + k)
      else fs.device.block number)
    (fs.device.transfers + nblks)

theorem storeBlocks_zero (fs : SfsFs) (blkno base : Nat) (buf : Bytes) : fs.storeBlocks blkno 0 base buf = fs := by
  have block : (fun number =>
      if blkno <= number /\ number < blkno + 0 then fun k => buf (base + (number - blkno) * blksize + k)
      else fs.device.block number) = fs.device.block := by
    funext number
    exact if_neg (by omega)
  unfold storeBlocks
  rw [block]
  rfl

theorem storeBlocks_succ (fs : SfsFs) (blkno nblks base : Nat) (buf : Bytes) :
    (fs.store blkno fun k => buf (base + k)).storeBlocks (blkno + 1) nblks (base + blksize) buf =
      fs.storeBlocks blkno (nblks + 1) base buf := by
  refine congrArg₂ fs.withBlocks ?_ ?_
  · funext number
    by_cases first : number = blkno
    · subst first
      rw [if_neg (by omega), if_pos (by omega), Nat.sub_self, Nat.zero_mul, Nat.add_zero]
      exact Function.update_self ..
    · by_cases later : blkno + 1 <= number /\ number < blkno + 1 + nblks
      · have place : base + blksize + (number - (blkno + 1)) * blksize = base + (number - blkno) * blksize := by
          have next : number - blkno = number - (blkno + 1) + 1 := by omega
          rw [next, Nat.succ_mul]
          omega
        rw [if_pos later, if_pos (by omega), place]
      · rw [if_neg later, if_neg (by omega)]
        exact Function.update_of_ne first ..
  · change fs.device.transfers + 1 + nblks = _
    omega

theorem block_storeBlocks_of_lt (fs : SfsFs) {blkno nblks base number : Nat} (buf : Bytes) (low : number < blkno) :
    (fs.storeBlocks blkno nblks base buf).device.block number = fs.device.block number := if_neg (by omega)

end SfsFs

/-- The loop of `sfs_rwblock` when it writes. -/
theorem rwblockLoop_writes {nblks blkno base : Nat} {buf : Bytes} (works : fs.Works) (positive : blkno ≠ 0)
    (inRange : blkno + nblks <= fs.super.blocks) (small : fs.super.blocks <= maxNblks) :
    Meets (rwblockLoop true nblks blkno base buf) fs
      ⟨fun _ after => after = fs.storeBlocks blkno nblks base buf, fun _ _ => False, fun _ => False⟩ := by
  induction nblks generalizing fs blkno base buf with
  | zero => exact (storeBlocks_zero fs blkno base buf).symm
  | succ nblks inductionHypothesis =>
      unfold rwblockLoop
      rw [meets_bind]
      apply rwblockNolock_meets (.inl positive) (by omega) small
      · exact fun error outcome => absurd ((works _).symm.trans outcome) (Option.some_ne_none error).symm
      · exact fun _ absurd => Bool.noConfusion absurd
      · intro _ _
        have unchanged : splice buf base blksize (fun k => buf (base + k)) = buf := by
          funext k
          unfold splice
          split
          · next inside => exact congrArg buf (Nat.add_sub_cancel' inside.1)
          · rfl
        have stillWorks : (fs.store blkno fun k => buf (base + k)).Works := works
        have stillInRange : blkno + 1 + nblks <= (fs.store blkno fun k => buf (base + k)).super.blocks := by
          change _ <= fs.super.blocks
          omega
        rw [unchanged, ← storeBlocks_succ]
        exact inductionHypothesis stillWorks (Nat.succ_ne_zero _) stillInRange small

theorem syncSuper_writes (works : fs.Works) (owned : fs.Owned files) :
    Meets syncSuper fs
      ⟨fun _ after => after = fs.store blknSuper (splice (fun _ => 0) 0 superBytes (encodeSuper fs.super)),
        fun _ _ => False, fun _ => False⟩ := by
  have held := fs.holds_super files
  unfold syncSuper
  simp only [meets_bind, meets_get, meets_pure]
  apply rwblockNolock_meets (.inr rfl) (owned.accounted.inRange _ _ held) owned.accounted.small
  · exact fun error outcome => absurd ((works _).symm.trans outcome) (Option.some_ne_none error).symm
  · exact fun _ absurd => Bool.noConfusion absurd
  · exact fun _ _ => rfl

theorem syncFreemap_writes (works : fs.Works) (room : blknFreemap + freemapBlocks fs.super <= fs.super.blocks)
    (small : fs.super.blocks <= maxNblks) :
    Meets syncFreemap fs
      ⟨fun _ after => after = fs.storeBlocks blknFreemap (freemapBlocks fs.super) 0 (freemapBytes fs.freemap.bit),
        fun _ _ => False, fun _ => False⟩ := by
  unfold syncFreemap rwblock
  simp only [meets_bind, meets_get, meets_pure]
  exact rwblockLoop_writes works (by decide) room small

namespace SfsFs

/-- The super block and the free map have been written back. -/
def superWritten (fs : SfsFs) : SfsFs :=
  SfsFs.storeBlocks
    ({ fs with superDirty := false }.store blknSuper (splice (fun _ => 0) 0 superBytes (encodeSuper fs.super)))
    blknFreemap (freemapBlocks fs.super) 0 (freemapBytes fs.freemap.bit)

theorem Owned.super_fits (owned : fs.Owned files) (medium : fs.Medium) : fs.super.Fits := by
  have small := owned.accounted.small
  have counted := owned.accounted.counted
  have bound : fs.freemap.count <= fs.freemap.nbits := (List.countP_le_length ..).trans_eq List.length_range
  have nbits := medium.nbits
  unfold freemapBlocks roundupDiv blkbits maxNblks at *
  refine ⟨?_, by omega, by omega⟩
  rw [medium.magic]
  decide

/-- The blocks of the free map lie on the volume. -/
theorem Owned.freemap_inRange (owned : fs.Owned files) : blknFreemap + freemapBlocks fs.super <= fs.super.blocks := by
  have positive := owned.accounted.inRange _ _ (fs.holds_super files)
  have some_ : 0 < freemapBlocks fs.super := by
    unfold freemapBlocks roundupDiv blkbits
    omega
  have last : fs.holds files (.reserved (blknFreemap + (freemapBlocks fs.super - 1))) =
      some (blknFreemap + (freemapBlocks fs.super - 1)) := if_pos (.inr ⟨Nat.le_add_right .., by omega⟩)
  have inRange := owned.accounted.inRange _ _ last
  omega

theorem block_superWritten (fs : SfsFs) {blkno : Nat} (loose : fs.holds [] (.reserved blkno) ≠ some blkno) :
    fs.superWritten.device.block blkno = fs.device.block blkno := by
  have outside : ¬ (blkno = blknSuper \/ (blknFreemap <= blkno /\ blkno < blknFreemap + freemapBlocks fs.super)) :=
    fun reserved => loose (if_pos reserved)
  have first : blkno ≠ blknSuper := fun same => outside (.inl same)
  have map : fs.superWritten.device.block blkno = Function.update fs.device.block blknSuper
      (splice (fun _ => 0) 0 superBytes (encodeSuper fs.super)) blkno := if_neg fun inside => outside (.inr inside)
  rw [map, Function.update_of_ne first]

theorem superWritten_saved (owned : fs.Owned files) (medium : fs.Medium) : fs.superWritten.SuperSaved where
  super := by
    have block : fs.superWritten.device.block blknSuper = splice (fun _ => 0) 0 superBytes (encodeSuper fs.super) := by
      have low : blknSuper < blknFreemap := by decide
      exact (block_storeBlocks_of_lt _ _ low).trans (Function.update_self blknSuper _ fs.device.block)
    rw [block, decode_super (owned.super_fits medium)]
    apply Super.ext
    · rfl
    · rfl
    · rfl
    · have info : fs.super.terminate.info = Function.update fs.super.info 31 0 := rfl
      have last := congrArg (Function.update fs.super.info 31) medium.ended.symm
      exact (info.trans last).trans (Function.update_eq_self 31 fs.super.info)
  freemap := by
    intro index low
    have inside : index / blkbits < freemapBlocks fs.super := by
      refine Nat.div_lt_of_lt_mul ?_
      rw [Nat.mul_comm, ← medium.nbits]
      exact low
    have block : fs.superWritten.device.block (blknFreemap + index / blkbits) =
        fun k => freemapBytes fs.freemap.bit (0 + (blknFreemap + index / blkbits - blknFreemap) * blksize + k) :=
      if_pos ⟨Nat.le_add_right .., Nat.add_lt_add_left inside _⟩
    have place : 0 + (blknFreemap + index / blkbits - blknFreemap) * blksize + index % blkbits / 8 = index / 8 := by
      unfold blkbits blksize
      omega
    have bit : index % blkbits % 8 = index % 8 := by
      unfold blkbits
      omega
    have whole := bit_freemapBytes fs.freemap.bit index
    rw [block]
    unfold bitOfBytes at *
    dsimp only
    rw [place, bit]
    exact whole

theorem Orderly.superWritten (orderly : Orderly files fs) : Still files fs fs.superWritten := by
  have unread : forall place blkno, place ≠ .reserved blkno -> fs.holds files place = some blkno ->
      fs.superWritten.device.block blkno = fs.device.block blkno := by
    intro place blkno different held
    refine block_superWritten fs fun reserved => ?_
    exact different (orderly.owned.accounted.exclusive.once _ _ _ held reserved)
  have inodeBlock : forall ino, ino ∈ files -> fs.superWritten.device.block ino = fs.device.block ino := by
    intro ino member
    have held : fs.holds files (.inode ino) = some ino := if_pos member
    exact unread _ _ Place.noConfusion held
  have shelved : Shelved files fs fs.superWritten := by
    refine ⟨rfl, fun _ => rfl, rfl, rfl, rfl, fun place blkno loose held => ?_,
      fun ino member _ => inodeBlock ino member⟩
    refine unread place blkno ?_ held
    rintro rfl
    exact loose trivial
  refine shelved.still orderly rfl ?_ ?_
  · exact fun _ => superWritten_saved orderly.owned orderly.medium
  · intro ino listed
    have tracked := orderly.tracked ino listed
    refine ⟨tracked.counts, tracked.fits, fun clean => ?_⟩
    rw [inodeBlock ino (orderly.owned.loaded ino listed)]
    exact tracked.saved clean

/-- Nothing is marked dirty, so nothing is lost if the memory is dropped. -/
structure Clean (fs : SfsFs) : Prop where
  inodes : forall ino, ino ∈ fs.inodeList -> (fs.inode ino).dirty = false
  superDirty : fs.superDirty = false

end SfsFs

theorem sync_orderly (orderly : Orderly files fs) :
    Meets sync fs ⟨fun _ after => Still files fs after /\ after.Clean /\ after.inodeList = fs.inodeList,
      fun _ _ => False, fun _ => False⟩ := by
  unfold sync
  simp only [meets_bind, meets_get, meets_ite, meets_pure]
  refine (fsyncAll_orderly orderly fun _ listed => listed).mono ?_ (fun _ _ failed => failed) (fun _ stopped => stopped)
  rintro _ synced ⟨written, cleaned⟩
  have orderlySynced := written.still.orderly
  have inodes : forall ino, ino ∈ synced.inodeList -> (synced.inode ino).dirty = false :=
    fun ino listed => cleaned ino (written.inodeList ▸ listed)
  dsimp only
  split
  · unfold setSuperDirty
    simp only [meets_onError, meets_modify]
    have owned := orderlySynced.owned
    have marked : SfsFs.Owned { synced with superDirty := false } files := ⟨owned.accounted, owned.loaded⟩
    have works : SfsFs.Works { synced with superDirty := false } := orderlySynced.works
    refine (syncSuper_writes works marked).mono ?_ (fun _ _ failed => failed.elim)
      (fun _ stopped => stopped)
    rintro _ _ rfl
    have worksStored : (SfsFs.store { synced with superDirty := false } blknSuper
        (splice (fun _ => 0) 0 superBytes (encodeSuper synced.super))).Works := works
    refine (syncFreemap_writes worksStored owned.freemap_inRange owned.accounted.small).mono ?_
      (fun _ _ failed => failed.elim) (fun _ stopped => stopped)
    · rintro _ after rfl
      exact ⟨written.still.trans orderlySynced.superWritten, ⟨inodes, rfl⟩, written.inodeList⟩
  · next clean => exact ⟨written.still, ⟨inodes, Bool.eq_false_iff.mpr clean⟩, written.inodeList⟩

/-! ## Loading and dropping -/

/-- `inode_ref_inc` -/
def refInc (ino : Nat) : Kernel Unit :=
  modify (fun fs => fs.setInode ino { fs.inode ino with refCount := (fs.inode ino).refCount + 1 })

theorem refInc_orderly (orderly : Orderly files fs) (loaded : ino ∈ fs.inodeList) :
    Meets (refInc ino) fs ⟨fun _ after => Still files fs after /\ after.inodeList = fs.inodeList,
      fun _ _ => False, fun _ => False⟩ := by
  have counts := (orderly.tracked ino loaded).counts
  exact ⟨orderly.counted rfl rfl ⟨Int.add_pos counts.1 Int.one_pos, counts.2⟩, rfl⟩

namespace SfsFs

/-- An inode is read from its block. -/
theorem Orderly.withInode (orderly : Orderly files fs) (member : ino ∈ files) (unloaded : ino ∉ fs.inodeList) :
    Still files fs (fs.withInode ino ⟨decodeInode (fs.device.block ino), false, 1, 1⟩) := by
  have kept : (fs.withInode ino ⟨decodeInode (fs.device.block ino), false, 1, 1⟩).Kept files :=
    orderly.kept.withInode member unloaded rfl
  have here : (fs.withInode ino ⟨decodeInode (fs.device.block ino), false, 1, 1⟩).inode ino =
      ⟨decodeInode (fs.device.block ino), false, 1, 1⟩ := inode_setInode ..
  have there (other : Nat) (different : other ≠ ino) :
      (fs.withInode ino ⟨decodeInode (fs.device.block ino), false, 1, 1⟩).inode other = fs.inode other :=
    inode_setInode_of_ne fs different _
  have same (other : Nat) : Same fs other (fs.withInode ino ⟨decodeInode (fs.device.block ino), false, 1, 1⟩) := by
    refine ⟨?_, rfl, rfl⟩
    by_cases same : other = ino
    · subst same
      rw [dinOf_loaded (show other ∈ _ from List.mem_cons_self), here]
      unfold dinOf
      rw [if_neg unloaded]
    · refine dinOf_congr ?_ (there other same) rfl
      exact ⟨fun listed => (List.mem_cons.mp listed).resolve_left same, List.mem_cons_of_mem _⟩
  refine ⟨⟨kept.owned, orderly.works, ?_, ?_, ?_⟩, fun other _ => same other⟩
  · refine orderly.medium.of_fixed rfl rfl rfl fun clean => ?_
    exact ⟨(orderly.medium.saved clean).super, (orderly.medium.saved clean).freemap⟩
  · intro other listed
    by_cases same : other = ino
    · subst same
      refine ⟨?_, ?_, fun _ => ?_⟩ <;> rw [here]
      · exact ⟨Int.one_pos, rfl⟩
      · exact decodeInode_fits _
      · rfl
    · have tracked := orderly.tracked other ((List.mem_cons.mp listed).resolve_left same)
      refine ⟨?_, ?_, ?_⟩ <;> rw [there other same]
      · exact tracked.counts
      · exact tracked.fits
      · exact tracked.saved
  · exact fun other member => (same other).sorted (orderly.sorted other member)

/-- A saved inode is dropped from memory. -/
theorem Orderly.withoutInode (orderly : Orderly files fs) (clean : (fs.inode sin).dirty = false)
    (loaded : sin ∈ fs.inodeList) {value : Inode} :
    Still files fs ((fs.setInode sin value).withoutInode sin) := by
  have kept := orderly.kept.withoutInode clean
  have listed_iff : forall ino, ino ≠ sin ->
      (ino ∈ ((fs.setInode sin value).withoutInode sin).inodeList <-> ino ∈ fs.inodeList) :=
    fun ino different => mem_withoutInode.trans (and_iff_left different)
  have gone : sin ∉ ((fs.setInode sin value).withoutInode sin).inodeList :=
    fun listed => (mem_withoutInode.mp listed).2 rfl
  have inode (ino : Nat) (different : ino ≠ sin) :
      ((fs.setInode sin value).withoutInode sin).inode ino = fs.inode ino := inode_setInode_of_ne fs different _
  have same (ino : Nat) : Same fs ino ((fs.setInode sin value).withoutInode sin) := by
    refine ⟨?_, rfl, rfl⟩
    by_cases same : ino = sin
    · subst same
      rw [dinOf_loaded loaded, ← (orderly.tracked ino loaded).saved clean]
      exact if_neg gone
    · exact dinOf_congr (listed_iff ino same) (inode ino same) rfl
  refine ⟨⟨?_, orderly.works, ?_, ?_, ?_⟩, fun ino _ => same ino⟩
  · refine ⟨?_, fun ino listed => orderly.owned.loaded ino (mem_withoutInode.mp listed).1⟩
    have held : ((fs.setInode sin value).withoutInode sin).holds files = fs.holds files := by
      refine holds_congr rfl ?_ ?_
      · exact fun ino _ => congrArg DiskInode.pointers (same ino).din
      · exact fun _ _ _ _ => rfl
    rw [held]
    exact orderly.owned.accounted
  · refine orderly.medium.of_fixed rfl rfl rfl fun clean => ?_
    exact ⟨(orderly.medium.saved clean).super, (orderly.medium.saved clean).freemap⟩
  · intro ino listed
    have both := mem_withoutInode.mp listed
    have tracked := orderly.tracked ino both.1
    refine ⟨?_, ?_, ?_⟩ <;> rw [inode ino both.2]
    · exact tracked.counts
    · exact tracked.fits
    · exact tracked.saved
  · exact fun ino member => (same ino).sorted (orderly.sorted ino member)

/-- An inode is counted anew before it is written back. -/
theorem writtenBack_setInode (fs : SfsFs) {value : Inode} (din : value.din = (fs.inode sin).din) :
    (fs.setInode sin value).writtenBack sin = (fs.writtenBack sin).setInode sin { value with dirty := false } := by
  have same := inode_setInode fs sin value
  unfold writtenBack
  rw [same, din]
  unfold setInode store tick
  dsimp only
  rw [Function.update_idem, Function.update_idem, din]

end SfsFs

theorem loadInode_orderly {dinAlloc nodeAlloc : Bool} (orderly : Orderly files fs) (member : ino ∈ files) :
    Meets (loadInode ino dinAlloc nodeAlloc) fs
      ⟨fun _ after => Still files fs after /\ ino ∈ after.inodeList,
        fun error after => error = .noMem /\ (dinAlloc && nodeAlloc) = false /\ Still files fs after /\
          after.inodeList = fs.inodeList,
        fun _ => False⟩ := by
  have held : fs.holds files (.inode ino) = some ino := if_pos member
  have valid := orderly.owned.valid held Place.noConfusion
  unfold loadInode
  simp only [meets_bind, meets_get, meets_ite, meets_modify, meets_throw, meets_halt, meets_assert]
  by_cases listed : ino ∈ fs.inodeList
  · have counts := (orderly.tracked ino listed).counts
    rw [if_pos listed]
    refine ⟨orderly.counted rfl rfl ⟨Int.add_pos counts.1 Int.one_pos, ?_⟩, listed⟩
    have more : (fs.inode ino).refCount + 1 ≠ 1 := by omega
    exact (if_neg more).trans counts.2
  · have sorted := orderly.sorted ino member
    unfold dinOf at sorted
    rw [if_neg listed] at sorted
    rw [if_neg listed]
    split
    · next none =>
        refine ⟨trivial, ?_, orderly.still, trivial⟩
        rw [none]
        rfl
    · apply assertInuse_meets valid (orderly.owned.lt_nbits valid.2.1) (orderly.owned.inUse held)
      apply rbuf_meets valid (by decide) (by decide)
      · exact fun error outcome => absurd ((orderly.works _).symm.trans outcome) (Option.some_ne_none error).symm
      · intro _
        simp only [Nat.zero_add]
        refine ⟨fun _ => ?_, fun unlinked => absurd sorted.nlinks unlinked⟩
        split
        · next none =>
            refine ⟨trivial, ?_, orderly.tick, rfl⟩
            rw [none]
            exact Bool.and_false _
        · split
          · next kind =>
              rcases sorted.type with file | directory
              · exact kind.1 file
              · exact kind.2 directory
          · exact ⟨orderly.tick.trans (orderly.tick.orderly.withInode member listed), List.mem_cons_self⟩

/-- `sfs_reclaim` before the inode goes: it has links, and is written back. -/
theorem reclaimInode_orderly {value : Inode} (orderly : Orderly files fs) (loaded : sin ∈ fs.inodeList)
    (din : value.din = (fs.inode sin).din) (dirty : value.dirty = (fs.inode sin).dirty) :
    Meets (reclaimInode sin) (fs.setInode sin value)
      ⟨fun _ after => Exists fun saved => Exists fun counted => Still files fs saved /\
          saved.inodeList = fs.inodeList /\ (saved.inode sin).dirty = false /\
          counted.din.nlinks ≠ 0 /\ after = saved.setInode sin counted,
        fun _ _ => False, fun _ => False⟩ := by
  have sorted := orderly.sorted sin (orderly.owned.loaded sin loaded)
  rw [dinOf_loaded loaded] at sorted
  have linked : value.din.nlinks ≠ 0 := by
    rw [din]
    exact sorted.nlinks
  have inode := inode_setInode fs sin value
  have owned : (fs.setInode sin value).Owned files := orderly.owned.setInode loaded (congrArg DiskInode.pointers din)
  unfold reclaimInode getDin
  simp only [meets_bind, meets_get, meets_pure, meets_ite]
  rw [inode, if_neg linked]
  split
  · apply fsync_meets owned loaded
    · intro clean
      rw [inode, dirty] at clean
      exact ⟨fs, value, orderly.still, rfl, clean, linked, rfl⟩
    · have works : (fs.setInode sin value).Works := orderly.works
      exact fun _ fails => absurd fails (works.not_fails 2)
    · intro _ _
      refine ⟨fs.writtenBack sin, { value with dirty := false }, orderly.writtenBack loaded, rfl, ?_, linked, ?_⟩
      · rw [inode_writtenBack]
      · exact writtenBack_setInode fs din
  · next clean =>
      have saved : (fs.inode sin).dirty = false := dirty.symm.trans (Bool.eq_false_iff.mpr clean)
      exact ⟨fs, value, orderly.still, rfl, saved, linked, rfl⟩

/-- `sfs_reclaim` of an inode that nobody refers to any more -/
theorem reclaim_orderly {value : Inode} (orderly : Orderly files fs) (loaded : sin ∈ fs.inodeList)
    (din : value.din = (fs.inode sin).din) (dirty : value.dirty = (fs.inode sin).dirty)
    (counts : value.refCount = 0 /\ value.reclaimCount = 1) :
    Meets (reclaim sin) (fs.setInode sin value)
      ⟨fun _ after => Still files fs after, fun _ _ => False, fun _ => False⟩ := by
  have inode := inode_setInode fs sin value
  have twice : (fs.setInode sin value).setInode sin { value with reclaimCount := value.reclaimCount - 1 } =
      fs.setInode sin { value with reclaimCount := value.reclaimCount - 1 } := by
    unfold setInode
    dsimp only
    rw [Function.update_idem]
  have now := inode_setInode fs sin { value with reclaimCount := value.reclaimCount - 1 }
  have last : ¬ (value.reclaimCount - 1 ≠ 0 \/ value.refCount ≠ 0) := by
    rw [counts.1, counts.2]
    decide
  unfold reclaim removeLinks
  simp only [meets_bind, meets_get, meets_assert, meets_modify, meets_ite, meets_throw]
  rw [inode, twice, now, if_neg last]
  refine ⟨fun _ => ?_, fun absent => absent (counts.2 ▸ Int.one_pos)⟩
  have written : Meets (reclaimInode sin) (fs.setInode sin { value with reclaimCount := value.reclaimCount - 1 }) _ :=
    reclaimInode_orderly orderly loaded din dirty
  refine written.mono ?_ (fun _ _ failed => failed) (fun _ stopped => stopped)
  rintro _ after ⟨saved, counted, still, list, clean, linked, rfl⟩
  have gone : Still files fs ((saved.setInode sin counted).withoutInode sin) :=
    still.trans (still.orderly.withoutInode clean (list ▸ loaded))
  unfold reclaimBlocks getDin
  simp only [meets_bind, meets_get, meets_pure, meets_ite]
  change if ((saved.setInode sin counted).inode sin).din.nlinks = 0 then _ else _
  rw [inode_setInode, if_neg linked]
  exact gone

theorem refDec_orderly (orderly : Orderly files fs) (loaded : sin ∈ fs.inodeList) :
    Meets (refDec sin) fs ⟨fun _ after => Still files fs after, fun _ _ => False, fun _ => False⟩ := by
  have counts := (orderly.tracked sin loaded).counts
  have inode := inode_setInode fs sin { fs.inode sin with refCount := (fs.inode sin).refCount - 1 }
  unfold refDec
  simp only [meets_bind, meets_get, meets_assert, meets_modify, meets_ite, meets_attempt, meets_pure]
  refine ⟨fun _ => ?_, fun absent => absurd counts.1 absent⟩
  rw [inode]
  split
  · next last =>
      have reclaimed : Meets (reclaim sin)
          (fs.setInode sin { fs.inode sin with refCount := (fs.inode sin).refCount - 1 }) _ :=
        reclaim_orderly orderly loaded rfl rfl ⟨last, counts.2⟩
      exact reclaimed.mono (fun _ _ still => still) (fun _ _ failed => failed.elim) (fun _ stopped => stopped)
  · next more =>
      dsimp only at more
      exact orderly.counted rfl rfl ⟨show 0 < (fs.inode sin).refCount - 1 by omega, counts.2⟩

end Sfs
end Ucore
