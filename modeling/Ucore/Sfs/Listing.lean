import Mathlib.Algebra.Group.Int.Defs
import Ucore.Sfs.Directory
import Ucore.Sfs.VolumeRun

namespace Ucore
namespace Sfs

open Library
open Program

/-!
# Listing a directory

A program lists a directory one entry at a time.  The position that it passes
back counts the entries in use, and every call looks for that entry anew.  What
comes out is each entry once, in the order of the slots, whatever other
calls are made in between, as long as they leave the directory alone.
-/

/-- `sfs_dentry_size`, which is also the size of `name` in `struct dirent` -/
def dentrySize : Nat := maxFnameLen + 1

/-- `struct dirent` -/
structure Dirent where
  offset : Int
  name : Bytes

/-! ## The code -/

/-- The loop of `sfs_getdirentry_sub_nolock` -/
def getdirentryLoop (sin : Nat) : Nat -> Nat -> Int -> Kernel DiskEntry
  | 0, _, _ => throw .noEnt
  | count + 1, i, slot => do
      let entry <- direntReadNolock sin i
      if entry.ino ≠ 0 then
        if slot = 0 then pure entry else getdirentryLoop sin count (i + 1) (slot - 1)
      else getdirentryLoop sin count (i + 1) slot

/-- `sfs_getdirentry_sub_nolock` -/
def getdirentrySubNolock (sin : Nat) (slot : Int) : Kernel DiskEntry := do
  let din <- getDin sin
  getdirentryLoop sin (nslots din) 0 slot

/-- `sfs_getdirentry` to a buffer for the whole name; the flag says whether
`kmalloc` succeeds.  The slot is an `int`, which is compared as an unsigned one. -/
def getdirentry (alloc : Bool) (sin : Nat) (offset : Int) : Kernel Bytes := do
  if alloc = false then throw .noMem
  else do
    let din <- getDin sin
    if offset < 0 \/ offset.tmod dentrySize ≠ 0 then throw .inval
    else if din.blocks < (offset.tdiv dentrySize % 2 ^ 32).toNat then throw .noEnt
    else do
      let entry <- getdirentrySubNolock sin ((offset.tdiv dentrySize).bmod (2 ^ 32))
      pure entry.name

/-- `file_getdirentry` of an open directory -/
def fileGetdirentry (alloc : Bool) (sin : Nat) (direntp : Dirent) : Kernel Dirent := do
  let name <- getdirentry alloc sin direntp.offset
  pure ⟨direntp.offset + dentrySize, name⟩

/-- `readdir`, which gives `NULL` on any error -/
def readdir (sin : Nat) (dirent : Dirent) : Kernel (Option Dirent) := do
  let reply <- attempt (fileGetdirentry true sin dirent)
  pure reply.toOption

/-- The loop of `ls`, with what happens to the volume before each call -/
def lsLoop (between : Nat -> SfsFs -> SfsFs) (sin : Nat) : Nat -> Dirent -> Kernel (List (List UInt8))
  | 0, _ => halt (.panic "more entries than calls")
  | turns + 1, dirent => do
      modify (between turns)
      let dire <- readdir sin dirent
      dire.elim (pure []) (fun next => do
        let names <- lsLoop between sin turns next
        pure (cString dentrySize next.name :: names))

/-! ## The entries in use -/

/-- The entries in use among `count` slots -/
def usedEntries (entry : Nat -> DiskEntry) (count slot : Nat) : List DiskEntry :=
  ((List.range' slot count).map entry).filter (fun entry => entry.ino ≠ 0)

section Used

variable {entry : Nat -> DiskEntry} {count slot : Nat}

theorem usedEntries_cons (used : (entry slot).ino ≠ 0) :
    usedEntries entry (count + 1) slot = entry slot :: usedEntries entry count (slot + 1) := by
  unfold usedEntries
  rw [List.range'_succ, List.map_cons, List.filter_cons_of_pos (by simp [used])]

theorem usedEntries_skip (empty : (entry slot).ino = 0) :
    usedEntries entry (count + 1) slot = usedEntries entry count (slot + 1) := by
  unfold usedEntries
  rw [List.range'_succ, List.map_cons, List.filter_cons_of_neg (by simp [empty])]

theorem usedEntries_congr {other : Nat -> DiskEntry}
    (same : forall index, slot <= index -> index < slot + count -> entry index = other index) :
    usedEntries entry count slot = usedEntries other count slot := by
  unfold usedEntries
  refine congrArg (List.filter _) (List.map_congr_left (fun index member => ?_))
  have inside := List.mem_range'_1.mp member
  exact same index inside.1 inside.2

/-- What a search finds is in use. -/
theorem searchEntries_isSome {name : List UInt8} : (searchEntries entry name count slot).isSome = true <->
    name ∈ (usedEntries entry count slot).map DiskEntry.string := by
  induction count generalizing slot with
  | zero => exact iff_of_false (fun absent => by cases absent) List.not_mem_nil
  | succ count inductionHypothesis =>
    unfold searchEntries
    rcases Decidable.em ((entry slot).ino = 0) with empty | used
    · rw [if_neg (fun both => both.1 empty), usedEntries_skip empty]
      exact inductionHypothesis
    · rw [usedEntries_cons used, List.map_cons, List.mem_cons]
      rcases Decidable.em (name = (entry slot).string) with same | other
      · rw [if_pos ⟨used, same⟩]
        exact iff_of_true rfl (.inl same)
      · rw [if_neg (fun both => other both.2), inductionHypothesis]
        exact (or_iff_right other).symm

theorem length_usedEntries (entry : Nat -> DiskEntry) (count slot : Nat) :
    (usedEntries entry count slot).length <= count := by
  unfold usedEntries
  refine Nat.le_trans (List.length_filter_le ..) ?_
  rw [List.length_map, List.length_range']

end Used

/-! ## One call -/

section Calls

variable {fs : SfsFs} {files : List Nat} {sin count slot turn : Nat}

/-- The loop finds the entry in use that is asked for. -/
theorem getdirentryLoop_meets (owned : fs.Owned files) (works : fs.Works) (loaded : sin ∈ fs.inodeList)
    (directory : (fs.inode sin).din.type = typeDir) (within : slot + count <= (fs.inode sin).din.blocks)
    (mapped : forall other, slot <= other -> other < slot + count -> fs.Mapped (fs.inode sin).din other) :
    Meets (getdirentryLoop sin count slot turn) fs
      ⟨fun found after => fs.Read after /\
        (usedEntries (fs.direntOf (fs.inode sin).din) count slot)[turn]? = some found,
        fun error after => fs.Read after /\ error = .noEnt /\
          (usedEntries (fs.direntOf (fs.inode sin).din) count slot)[turn]? = none,
        fun _ => False⟩ := by
  induction count generalizing fs slot turn with
  | zero =>
    unfold getdirentryLoop
    rw [meets_throw]
    exact ⟨SfsFs.Read.refl fs, rfl, rfl⟩
  | succ count inductionHypothesis =>
    unfold getdirentryLoop
    rw [meets_bind]
    apply direntReadNolock_meets owned loaded
    · exact fun broken => absurd ⟨directory, by omega⟩ broken
    · exact fun hole => absurd (mapped slot (Nat.le_refl _) (by omega)) hole
    · exact fun broken => absurd works broken
    · intro _ _ after read
      have inode := read.quiet.inode
      have next : slot + 1 + count <= (after.inode sin).din.blocks := by
        rw [inode]
        omega
      have rest := fun turn => @inductionHypothesis _ _ turn (read.owned owned) (read.works works)
        (read.quiet.inodeList ▸ loaded) (inode ▸ directory) next (fun other low high => by
          rw [inode]
          exact read.mapped (mapped other (by omega) (by omega)))
      rw [inode, read.direntOf] at rest
      rw [meets_ite]
      rcases Decidable.em ((fs.direntOf (fs.inode sin).din slot).ino = 0) with empty | used
      · rw [if_neg (fun other => other empty), usedEntries_skip empty]
        exact (rest turn).mono (fun _ _ found => ⟨read.trans found.1, found.2⟩)
          (fun _ _ missed => ⟨read.trans missed.1, missed.2⟩) (fun _ stopped => stopped)
      · rw [if_pos used, usedEntries_cons used, meets_ite]
        cases turn with
        | zero =>
          rw [Int.natCast_zero, if_pos rfl, meets_pure]
          exact ⟨read, rfl⟩
        | succ turn =>
          have before : ((turn + 1 : Nat) : Int) - 1 = turn := by omega
          rw [if_neg (by omega), before]
          exact (rest turn).mono (fun _ _ found => ⟨read.trans found.1, found.2⟩)
            (fun _ _ missed => ⟨read.trans missed.1, missed.2⟩) (fun _ stopped => stopped)

end Calls

/-- The volume holds a directory, which is loaded and has no holes. -/
structure SfsFs.Lists (fs : SfsFs) (files : List Nat) (sin : Nat) (entry : Nat -> DiskEntry) (count : Nat) : Prop where
  owned : fs.Owned files
  works : fs.Works
  loaded : sin ∈ fs.inodeList
  directory : (fs.inode sin).din.type = typeDir
  blocks : (fs.inode sin).din.blocks = count
  mapped : forall slot, slot < count -> fs.Mapped (fs.inode sin).din slot
  entries : forall slot, slot < count -> fs.direntOf (fs.inode sin).din slot = entry slot

section Listing

variable {fs after : SfsFs} {files : List Nat} {sin count : Nat} {entry : Nat -> DiskEntry}

namespace SfsFs.Lists

theorem read (lists : fs.Lists files sin entry count) (read : fs.Read after) : after.Lists files sin entry count := by
  have inode := read.quiet.inode
  refine ⟨read.owned lists.owned, read.works lists.works, read.quiet.inodeList ▸ lists.loaded, ?_, ?_, ?_, ?_⟩
  · rw [inode]
    exact lists.directory
  · rw [inode]
    exact lists.blocks
  · rw [inode]
    exact fun slot low => read.mapped (lists.mapped slot low)
  · rw [inode, read.direntOf]
    exact lists.entries

theorem small (lists : fs.Lists files sin entry count) : count <= ndirect + blkNentry := by
  cases count with
  | zero => exact Nat.zero_le _
  | succ last => exact (lists.mapped last (Nat.lt_succ_self last)).reached

theorem nslots_eq (lists : fs.Lists files sin entry count) : nslots (fs.inode sin).din = count := by
  have small := lists.small
  unfold ndirect blkNentry at small
  unfold nslots
  rw [lists.blocks, if_pos (by omega)]

theorem used_eq (lists : fs.Lists files sin entry count) :
    usedEntries (fs.direntOf (fs.inode sin).din) count 0 = usedEntries entry count 0 :=
  usedEntries_congr (fun slot _ high => lists.entries slot (by omega))

/-- `sfs_getdirentry` gives the entry in use of a number, if there is one. -/
theorem getdirentry_meets (lists : fs.Lists files sin entry count) {turn : Nat} (within : turn <= count) :
    Meets (getdirentry true sin ((turn * dentrySize : Nat) : Int)) fs
      ⟨fun name after => fs.Read after /\ ((usedEntries entry count 0)[turn]?).map DiskEntry.name = some name,
        fun error after => fs.Read after /\ error = .noEnt /\ (usedEntries entry count 0)[turn]? = none,
        fun _ => False⟩ := by
  have small := lists.small
  unfold ndirect blkNentry at small
  have aligned : ((turn * dentrySize : Nat) : Int).tmod dentrySize = 0 := by
    rw [← Int.ofNat_tmod, Nat.mul_mod_left]
    rfl
  have number : ((turn * dentrySize : Nat) : Int).tdiv dentrySize = (turn : Int) := by
    rw [← Int.ofNat_tdiv, Nat.mul_div_cancel turn (by decide)]
  have unsigned : ((turn : Int) % 2 ^ 32).toNat = turn := by omega
  have signed : (turn : Int).bmod (2 ^ 32) = turn := by
    rw [Int.bmod_def]
    omega
  unfold getdirentry getDin
  simp only [meets_bind, meets_get, meets_pure, meets_ite, meets_throw]
  rw [if_neg (by decide), aligned, number, unsigned, signed, lists.blocks, if_neg (by omega), if_neg (by omega)]
  unfold getdirentrySubNolock getDin
  simp only [meets_bind, meets_get, meets_pure]
  rw [lists.nslots_eq]
  refine (getdirentryLoop_meets lists.owned lists.works lists.loaded lists.directory
    (by rw [lists.blocks]; omega) (fun other _ high => lists.mapped other (by omega))).mono ?_ ?_
    (fun _ stopped => stopped)
  · intro found after both
    rw [lists.used_eq] at both
    exact ⟨both.1, by rw [both.2]; rfl⟩
  · intro error after both
    rw [lists.used_eq] at both
    exact both

theorem readdir_meets (lists : fs.Lists files sin entry count) {turn : Nat} (within : turn <= count) (name : Bytes) :
    Meets (readdir sin ⟨(turn * dentrySize : Nat), name⟩) fs
      ⟨fun dire after => fs.Read after /\ dire = ((usedEntries entry count 0)[turn]?).map (fun found =>
        ⟨((turn + 1) * dentrySize : Nat), found.name⟩), fun _ _ => False, fun _ => False⟩ := by
  have next : ((turn * dentrySize : Nat) : Int) + (dentrySize : Nat) = ((turn + 1) * dentrySize : Nat) := by
    rw [Nat.add_mul, Nat.one_mul, Int.natCast_add]
  unfold readdir fileGetdirentry
  simp only [meets_bind, meets_attempt, meets_pure]
  refine (lists.getdirentry_meets within).mono ?_ ?_ (fun _ stopped => stopped)
  · intro bytes after both
    rcases Option.map_eq_some_iff.mp both.2 with ⟨found, used, rfl⟩
    refine ⟨both.1, ?_⟩
    rw [used, next]
    rfl
  · intro error after both
    refine ⟨both.1, ?_⟩
    rw [both.2.2]
    rfl

/-- The loop lists what is left. -/
theorem lsLoop_meets {between : Nat -> SfsFs -> SfsFs} (lists : fs.Lists files sin entry count)
    (kept : forall turns fs, fs.Lists files sin entry count -> (between turns fs).Lists files sin entry count)
    {turn turns : Nat} (name : Bytes) (within : turn <= (usedEntries entry count 0).length)
    (enough : (usedEntries entry count 0).length < turn + turns) :
    Meets (lsLoop between sin turns ⟨(turn * dentrySize : Nat), name⟩) fs
      ⟨fun names after => names = ((usedEntries entry count 0).drop turn).map DiskEntry.string /\
        after.Lists files sin entry count, fun _ _ => False, fun _ => False⟩ := by
  induction turns generalizing fs turn name with
  | zero => omega
  | succ turns inductionHypothesis =>
    have short := length_usedEntries entry count 0
    unfold lsLoop
    simp only [meets_bind, meets_modify]
    refine ((kept turns fs lists).readdir_meets (Nat.le_trans within short) name).mono ?_ (fun _ _ failed => failed)
      (fun _ stopped => stopped)
    rintro dire after ⟨read, rfl⟩
    have lists := (kept turns fs lists).read read
    cases used : (usedEntries entry count 0)[turn]? with
    | none =>
      have ended := List.getElem?_eq_none_iff.mp used
      simp only [Option.map_none, Option.elim_none, meets_pure, List.drop_eq_nil_of_le ended]
      exact ⟨rfl, lists⟩
    | some found =>
      have more := List.getElem?_eq_some_iff.mp used
      rcases more with ⟨more, here⟩
      simp only [Option.map_some, Option.elim_some, meets_bind, meets_pure]
      refine (inductionHypothesis lists found.name more (by omega)).mono ?_ (fun _ _ failed => failed)
        (fun _ stopped => stopped)
      rintro names final ⟨rfl, listsFinal⟩
      rw [List.drop_eq_getElem_cons more, here]
      exact ⟨rfl, listsFinal⟩

/-- A search finds the names in use. -/
theorem found_iff (lists : fs.Lists files sin entry count) {name : List UInt8} (short : name.length <= maxFnameLen) :
    ((direntSearchNolock true sin name fs).value.isSome = true <->
      name ∈ (usedEntries entry count 0).map DiskEntry.string) := by
  have searched : Meets (direntSearchNolock true sin name) fs
      ⟨fun found after => fs.Read after /\
        searchEntries (fs.direntOf (fs.inode sin).din) name (nslots (fs.inode sin).din) 0 = some found,
        fun error after => fs.Read after /\ (¬ fs.Works \/ true = false \/ (error = .noEnt /\
          searchEntries (fs.direntOf (fs.inode sin).din) name (nslots (fs.inode sin).din) 0 = none)),
        fun _ => False⟩ :=
    direntSearchNolock_meets lists.owned lists.loaded lists.directory
      (fun long => absurd short (Nat.not_le.mpr long)) (fun slot low hole =>
        absurd (lists.mapped slot (by rw [lists.nslots_eq] at low; exact low)) hole)
  rw [lists.nslots_eq] at searched
  have used := lists.used_eq
  rw [← used, ← searchEntries_isSome]
  cases ran : direntSearchNolock true sin name fs with
  | done found after =>
    rw [(Meets.of_done searched ran).2]
    exact iff_of_true rfl rfl
  | fail error after =>
    rcases (Meets.of_fail searched ran).2 with broken | absurd_ | missed
    · exact absurd lists.works broken
    · cases absurd_
    · rw [missed.2]
      exact iff_of_false (fun absent => by cases absent) (fun absent => by cases absent)
  | stop fault => exact (Meets.of_stop searched ran).elim

end SfsFs.Lists

/-- `ls` prints each entry in use once, in the order of the slots, whatever
other calls are made between its own, as long as they keep the directory; and
these are the names that a search finds. -/
theorem ls_lists {between : Nat -> SfsFs -> SfsFs} (lists : fs.Lists files sin entry count)
    (kept : forall turns fs, fs.Lists files sin entry count -> (between turns fs).Lists files sin entry count)
    {turns : Nat} (enough : count < turns) (name : Bytes) :
    Exists fun after => lsLoop between sin turns ⟨0, name⟩ fs =
        .done ((usedEntries entry count 0).map DiskEntry.string) after /\
      after.Lists files sin entry count /\
      forall wanted, wanted.length <= maxFnameLen ->
        ((direntSearchNolock true sin wanted after).value.isSome = true <->
          wanted ∈ (usedEntries entry count 0).map DiskEntry.string) := by
  have short := length_usedEntries entry count 0
  have few : (usedEntries entry count 0).length < 0 + turns := by omega
  rcases (lists.lsLoop_meets kept name (Nat.zero_le _) few).returned with ⟨names, after, ran, rfl, listsAfter⟩
  rw [Nat.zero_mul] at ran
  exact ⟨after, ran, listsAfter, fun wanted short => listsAfter.found_iff short⟩

end Listing

/-! ## A formatted volume -/

/-- A formatted volume with the root directory in memory -/
def rootLoaded : SfsFs := volumeAfter 64 (fun _ => none) [.load 1 true true]

/-- The entries of its root directory -/
def rootEntry : Nat -> DiskEntry := rootLoaded.direntOf (rootLoaded.inode 1).din

theorem rootLoaded_lists : rootLoaded.Lists formattedFiles 1 rootEntry 1 where
  owned := volumeAfter_owned (by decide) (by decide) rfl rfl (by decide +kernel)
  works := fun _ => rfl
  loaded := by decide +kernel
  directory := by decide +kernel
  blocks := by decide +kernel
  mapped := by
    intro slot low
    rw [(by omega : slot = 0)]
    exact ⟨by decide +kernel, by decide, by decide +kernel⟩
  entries := fun _ _ => rfl

/-- The name of the file is listed, also when the device is busy in between. -/
theorem rootLoaded_listed :
    Exists fun after => lsLoop (fun _ fs => fs.ticks 3) 1 2 ⟨0, fun _ => 0⟩ rootLoaded = .done [[97]] after /\
      after.Lists formattedFiles 1 rootEntry 1 /\
      forall wanted, wanted.length <= maxFnameLen ->
        ((direntSearchNolock true 1 wanted after).value.isSome = true <-> wanted ∈ [[97]]) := by
  have names : (usedEntries rootEntry 1 0).map DiskEntry.string = [[97]] := by decide +kernel
  rw [← names]
  exact ls_lists rootLoaded_lists (fun _ fs lists => lists.read ⟨3, rfl⟩) (by decide) _

end Sfs
end Ucore
