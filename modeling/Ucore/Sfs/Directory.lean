import Ucore.Sfs.Reading

namespace Ucore
namespace Sfs

open Library
open Program

/-!
# Directories

A directory has one entry in each of its blocks.  An entry whose number is 0
is empty.
-/

/-- `SFS_MAX_FNAME_LEN` of the kernel -/
def maxFnameLen : Nat := 255

/-- `struct sfs_disk_entry` -/
structure DiskEntry where
  ino : Nat
  name : Bytes

/-- `sizeof(struct sfs_disk_entry)` -/
def entrySize : Nat := 4 + (maxFnameLen + 1)

/-- The entry in a block; its name is terminated. -/
def decodeEntry (block : Bytes) : DiskEntry where
  ino := u32At block 0
  name := Function.update (fun k => block (4 + k)) maxFnameLen 0

/-- The string in a buffer of `limit` bytes. -/
def cString : Nat -> Bytes -> List UInt8
  | 0, _ => []
  | limit + 1, bytes => if bytes 0 = 0 then [] else bytes 0 :: cString limit (fun k => bytes (k + 1))

def DiskEntry.string (entry : DiskEntry) : List UInt8 := cString (maxFnameLen + 1) entry.name

/-! ## The code -/

/-- `sfs_dirent_read_nolock` -/
def direntReadNolock (sin slot : Nat) : Kernel DiskEntry := do
  let din <- getDin sin
  assert (din.type = typeDir /\ slot < din.blocks)
    (.assertion "sin->din->type == SFS_TYPE_DIR && (slot >= 0 && slot < sin->din->blocks)")
  let ino <- bmapLoadNolock sin slot
  assertInuse ino
  let bytes <- rbuf entrySize ino 0
  pure (decodeEntry bytes)

/-- The loop of `sfs_dirent_search_nolock`: the number and the slot. -/
def direntSearchLoop (sin : Nat) (name : List UInt8) : Nat -> Nat -> Kernel (Nat × Nat)
  | 0, _ => throw .noEnt
  | count + 1, slot => do
      let entry <- direntReadNolock sin slot
      if entry.ino ≠ 0 /\ name = entry.string then pure (entry.ino, slot)
      else direntSearchLoop sin name count (slot + 1)

/-- The number of blocks as an `int`, for a loop. -/
def nslots (din : DiskInode) : Nat := if din.blocks < 2 ^ 31 then din.blocks else 0

/-- `sfs_dirent_search_nolock` with no `empty_slot`; the flag says whether
`kmalloc` succeeds. -/
def direntSearchNolock (alloc : Bool) (sin : Nat) (name : List UInt8) : Kernel (Nat × Nat) := do
  assert (name.length <= maxFnameLen) (.assertion "strlen(name) <= SFS_MAX_FNAME_LEN")
  if alloc = false then throw .noMem
  else do
    let din <- getDin sin
    direntSearchLoop sin name (nslots din) 0

/-! ## Strings -/

/-- A string is read back where it was written with its end. -/
theorem cString_eq {name : List UInt8} {limit : Nat} {bytes : Bytes} (plain : forall byte, byte ∈ name -> byte ≠ 0)
    (written : forall k, k < name.length -> bytes k = name.getD k 0) (room : name.length < limit)
    (ends : bytes name.length = 0) : cString limit bytes = name := by
  induction name generalizing limit bytes with
  | nil =>
      cases limit with
      | zero => rfl
      | succ limit => exact if_pos ends
  | cons first rest inductionHypothesis =>
      cases limit with
      | zero => exact absurd room (Nat.not_lt_zero _)
      | succ limit =>
          have head : bytes 0 = first := written 0 (Nat.succ_pos _)
          have tail : cString limit (fun k => bytes (k + 1)) = rest := by
            apply inductionHypothesis
            · exact fun byte member => plain byte (List.mem_cons_of_mem _ member)
            · exact fun k low => written (k + 1) (Nat.succ_lt_succ low)
            · exact Nat.lt_of_succ_lt_succ room
            · exact ends
          unfold cString
          rw [head, if_neg (plain first (List.mem_cons_self ..)), tail]

/-! ## Rules -/

variable {fs : SfsFs} {files : List Nat} {sin : Nat} {fail : Errno -> SfsFs -> Prop} {stop : Fault -> Prop}

/-- The entry of a directory in a slot. -/
def SfsFs.direntOf (fs : SfsFs) (din : DiskInode) (slot : Nat) : DiskEntry :=
  decodeEntry (fs.device.block (fs.blockOf din slot))

theorem SfsFs.Read.direntOf {after : SfsFs} (read : fs.Read after) : after.direntOf = fs.direntOf := by
  rcases read with ⟨_, rfl⟩
  rfl

theorem SfsFs.Works.of_not_fails {count : Nat} (fails : fs.Fails count) : ¬ fs.Works := fun works =>
  works.not_fails count fails

/-- No map reaches a block beyond the entries of the first table. -/
theorem reached_of_present {din : DiskInode} {index : Nat} (present : fs.blockOf din index ≠ 0) :
    index < ndirect + blkNentry := by
  refine Nat.lt_of_not_le fun beyond => present ?_
  unfold SfsFs.blockOf
  rw [dif_neg (by omega), if_neg (by omega)]

theorem direntReadNolock_meets {slot : Nat} {done : DiskEntry -> SfsFs -> Prop} (owned : fs.Owned files)
    (loaded : sin ∈ fs.inodeList)
    (wrong : ¬ ((fs.inode sin).din.type = typeDir /\ slot < (fs.inode sin).din.blocks) -> forall text,
      stop (.assertion text))
    (unmapped : ¬ fs.Mapped (fs.inode sin).din slot -> forall text, stop (.panic text))
    (failed : ¬ fs.Works -> forall error after, fs.Read after -> fail error after)
    (read : (fs.inode sin).din.type = typeDir -> fs.Mapped (fs.inode sin).din slot -> forall after, fs.Read after ->
      done (fs.direntOf (fs.inode sin).din slot) after) :
    Meets (direntReadNolock sin slot) fs ⟨done, fail, stop⟩ := by
  unfold direntReadNolock getDin
  simp only [meets_bind, meets_get, meets_pure, meets_assert]
  refine ⟨fun both => ?_, fun broken => wrong broken _⟩
  apply bmapLoadNolock_meets owned loaded
  · exact fun beyond => absurd both.2 (by omega)
  · exact fun _ beyond => unmapped (fun mapped => Nat.not_lt.mpr beyond mapped.reached) _
  · exact fun _ hole => unmapped (fun mapped => mapped.present hole) _
  · exact fun error _ _ fails => failed (SfsFs.Works.of_not_fails fails) error _ (SfsFs.Read.refl fs).tick
  · exact fun last => absurd both.2 (by omega)
  · intro within present after looked
    have readAfter := (SfsFs.Read.refl fs).looked looked
    have inuse := owned.blockOf_inuse loaded present
    have valid := readAfter.quiet.valid inuse.1
    have map : after.freemap = fs.freemap := by
      rcases readAfter with ⟨_, rfl⟩
      rfl
    apply assertInuse_meets valid
    · rw [map]
      exact inuse.2.1
    · rw [map]
      exact inuse.2.2
    · apply rbuf_meets valid (by decide) (by decide)
      · intro error outcome
        exact failed (fun works => absurd ((readAfter.works works) _) (by
          rw [show after.device.error after.device.transfers = some error from outcome]
          exact Option.some_ne_none error)) error _ readAfter.tick
      · intro _
        have entry : (fun k => after.device.block (fs.blockOf (fs.inode sin).din slot) (0 + k)) =
            fs.device.block (fs.blockOf (fs.inode sin).din slot) := by
          funext k
          rw [readAfter.block, Nat.zero_add]
        rw [entry]
        exact read both.1 ⟨within, reached_of_present present, present⟩ _ readAfter.tick
  · exact fun last => absurd both.2 (by omega)
  · exact fun last => absurd both.2 (by omega)

/-! ## Searching -/

/-- The first of `count` slots whose entry has the name. -/
def searchEntries (entry : Nat -> DiskEntry) (name : List UInt8) : Nat -> Nat -> Option (Nat × Nat)
  | 0, _ => none
  | count + 1, slot =>
      if (entry slot).ino ≠ 0 /\ name = (entry slot).string then some ((entry slot).ino, slot)
      else searchEntries entry name count (slot + 1)

section Searching

variable {entry : Nat -> DiskEntry} {name : List UInt8} {count slot : Nat}

theorem searchEntries_none (absent : forall other, slot <= other -> other < slot + count ->
    (entry other).ino ≠ 0 -> name ≠ (entry other).string) : searchEntries entry name count slot = none := by
  induction count generalizing slot with
  | zero => rfl
  | succ count inductionHypothesis =>
      have here : ¬ ((entry slot).ino ≠ 0 /\ name = (entry slot).string) := fun both =>
        absent slot (Nat.le_refl _) (by omega) both.1 both.2
      unfold searchEntries
      rw [if_neg here]
      exact inductionHypothesis fun other low high => absent other (by omega) (by omega)

/-- What is found is an entry with the name. -/
theorem of_searchEntries {found : Nat × Nat} (result : searchEntries entry name count slot = some found) :
    slot <= found.2 /\ found.2 < slot + count /\ (entry found.2).ino = found.1 /\ name = (entry found.2).string := by
  induction count generalizing slot with
  | zero => cases result
  | succ count inductionHypothesis =>
      unfold searchEntries at result
      split at result
      · rename_i here
        cases result
        exact ⟨Nat.le_refl _, by omega, rfl, here.2⟩
      · have rest := inductionHypothesis result
        exact ⟨by omega, by omega, rest.2.2⟩

/-- The slot of a name that occurs once is found. -/
theorem searchEntries_some {found : Nat} (low : slot <= found) (high : found < slot + count)
    (used : (entry found).ino ≠ 0) (same : name = (entry found).string)
    (once : forall other, slot <= other -> other < slot + count -> name = (entry other).string -> other = found) :
    searchEntries entry name count slot = some ((entry found).ino, found) := by
  induction count generalizing slot with
  | zero => omega
  | succ count inductionHypothesis =>
      unfold searchEntries
      by_cases here : slot = found
      · rw [here, if_pos ⟨used, same⟩]
      · have other : ¬ ((entry slot).ino ≠ 0 /\ name = (entry slot).string) := fun both =>
          here (once slot (Nat.le_refl _) (by omega) both.2)
        rw [if_neg other]
        exact inductionHypothesis (by omega) (by omega) fun other low high =>
          once other (by omega) (by omega)

end Searching

/-- The loop finds what is there, unless it meets a block that is not mapped
or the device fails. -/
theorem direntSearchLoop_meets {name : List UInt8} {count slot : Nat} (owned : fs.Owned files)
    (loaded : sin ∈ fs.inodeList) (directory : (fs.inode sin).din.type = typeDir)
    (within : slot + count <= (fs.inode sin).din.blocks)
    (unmapped : forall other, slot <= other -> other < slot + count -> ¬ fs.Mapped (fs.inode sin).din other ->
      forall text, stop (.panic text)) :
    Meets (direntSearchLoop sin name count slot) fs
      ⟨fun found after => fs.Read after /\
        searchEntries (fs.direntOf (fs.inode sin).din) name count slot = some found,
        fun error after => fs.Read after /\ (¬ fs.Works \/
          (error = .noEnt /\ searchEntries (fs.direntOf (fs.inode sin).din) name count slot = none)),
        stop⟩ := by
  induction count generalizing fs slot with
  | zero =>
      unfold direntSearchLoop
      rw [meets_throw]
      exact ⟨SfsFs.Read.refl fs, .inr ⟨rfl, rfl⟩⟩
  | succ count inductionHypothesis =>
      unfold direntSearchLoop
      rw [meets_bind]
      apply direntReadNolock_meets owned loaded
      · exact fun broken => absurd ⟨directory, by omega⟩ broken
      · exact unmapped slot (Nat.le_refl _) (by omega)
      · exact fun broken error after read => ⟨read, .inl broken⟩
      · intro _ _ after read
        simp only [meets_ite, meets_pure]
        unfold searchEntries
        by_cases here : (fs.direntOf (fs.inode sin).din slot).ino ≠ 0 /\
            name = (fs.direntOf (fs.inode sin).din slot).string
        · rw [if_pos here, if_pos here]
          exact ⟨read, rfl⟩
        · rw [if_neg here, if_neg here]
          have inode := read.quiet.inode
          have next : slot + 1 + count <= (after.inode sin).din.blocks := by
            rw [inode]
            omega
          have rest := inductionHypothesis (read.owned owned) (read.quiet.inodeList ▸ loaded)
            (inode ▸ directory) next (fun other low high hole => unmapped other (by omega) (by omega)
              (fun mapped => hole (by rw [inode]; exact read.mapped mapped)))
          refine rest.mono ?_ ?_ (fun _ stopped => stopped)
          · rintro found final ⟨more, result⟩
            rw [read.direntOf, inode] at result
            exact ⟨read.trans more, result⟩
          · rintro error final ⟨more, reason⟩
            rw [read.direntOf, inode] at reason
            exact ⟨read.trans more, reason.imp (fun broken works => broken (read.works works)) id⟩

theorem direntSearchNolock_meets {alloc : Bool} {name : List UInt8} (owned : fs.Owned files)
    (loaded : sin ∈ fs.inodeList) (directory : (fs.inode sin).din.type = typeDir)
    (long : maxFnameLen < name.length -> forall text, stop (.assertion text))
    (unmapped : forall slot, slot < nslots (fs.inode sin).din -> ¬ fs.Mapped (fs.inode sin).din slot -> forall text,
      stop (.panic text)) :
    Meets (direntSearchNolock alloc sin name) fs
      ⟨fun found after => fs.Read after /\
        searchEntries (fs.direntOf (fs.inode sin).din) name (nslots (fs.inode sin).din) 0 = some found,
        fun error after => fs.Read after /\ (¬ fs.Works \/ alloc = false \/ (error = .noEnt /\
          searchEntries (fs.direntOf (fs.inode sin).din) name (nslots (fs.inode sin).din) 0 = none)),
        stop⟩ := by
  have within : 0 + nslots (fs.inode sin).din <= (fs.inode sin).din.blocks := by
    unfold nslots
    split <;> omega
  unfold direntSearchNolock getDin
  simp only [meets_bind, meets_get, meets_pure, meets_assert, meets_ite, meets_throw]
  refine ⟨fun _ => ?_, fun broken => long (Nat.lt_of_not_le broken) _⟩
  by_cases memory : alloc = false
  · rw [if_pos memory]
    exact ⟨SfsFs.Read.refl fs, .inr (.inl memory)⟩
  · rw [if_neg memory]
    refine (direntSearchLoop_meets owned loaded directory within ?_).mono (fun _ _ found => found) ?_
      (fun _ stopped => stopped)
    · exact fun other _ high hole => unmapped other (by omega) hole
    · rintro error after ⟨read, reason⟩
      exact ⟨read, reason.imp id .inr⟩

end Sfs
end Ucore
