import Ucore.Sfs.Ownership

namespace Ucore
namespace Sfs

open Library
open Program

/-!
# Rules for blocks

One rule for each function below the block maps.  Each lists the ways in
which the function can end on a volume with sound ownership, and none of them
is a fault.
-/

namespace SfsFs

/-- A free block has been taken. -/
def taken (fs : SfsFs) (blkno : Nat) : SfsFs := (fs.setBit blkno false).setUnused (fs.super.unusedBlocks - 1)

/-- A block has been given back. -/
def given (fs : SfsFs) (blkno : Nat) : SfsFs := (fs.setBit blkno true).setUnused (fs.super.unusedBlocks + 1)

/-- A free block has been taken and cleared. -/
def cleared (fs : SfsFs) (blkno : Nat) : SfsFs := (fs.taken blkno).store blkno (fun _ => 0)

/-- The error of the transfer after the next `count`. -/
def nextError (fs : SfsFs) (count : Nat) : Option Errno := fs.device.error (fs.device.transfers + count)

/-- One of the next transfers fails. -/
def Fails (fs : SfsFs) (count : Nat) : Prop := Exists fun number => number < count /\ fs.nextError number ≠ none

instance (fs : SfsFs) (count : Nat) : Decidable (fs.Fails count) :=
  decidable_of_iff (Exists fun number => number ∈ List.range count /\ fs.nextError number ≠ none)
    (exists_congr fun _ => and_congr_left fun _ => List.mem_range)

end SfsFs

variable {fs : SfsFs} {files : List Nat}

/-! ## Transfers -/

theorem position {blkno : Nat} (small : blkno < maxNblks) : blkno * blksize % 2 ^ 32 / blksize = blkno := by
  simp only [maxNblks, blksize] at *
  omega

theorem rwblockNolock_meets {buf : Bytes} {blkno : Nat} {write check : Bool} {done : Bytes -> SfsFs -> Prop}
    {fail : Errno -> SfsFs -> Prop}
    {stop : Fault -> Prop}
    (checked : blkno ≠ 0 \/ check = false) (inRange : blkno < fs.super.blocks) (small : fs.super.blocks <= maxNblks)
    (failed : forall error, fs.nextError 0 = some error -> fail error fs.tick)
    (read : fs.nextError 0 = none -> write = false -> done (fs.device.block blkno) fs.tick)
    (written : fs.nextError 0 = none -> write = true -> done buf (fs.store blkno buf)) :
    Meets (rwblockNolock buf blkno write check) fs ⟨done, fail, stop⟩ := by
  unfold rwblockNolock
  simp only [meets_bind, meets_get, meets_assert]
  refine ⟨fun _ => ?_, fun broken => absurd ⟨checked, inRange⟩ broken⟩
  unfold Meets dopIo
  rw [position (Nat.lt_of_lt_of_le inRange small)]
  have next : fs.device.error fs.device.transfers = fs.nextError 0 := rfl
  rw [next]
  cases outcome : fs.nextError 0 with
  | some error => exact failed error outcome
  | none =>
      cases write with
      | false => exact read outcome rfl
      | true => exact written outcome rfl

theorem rbuf_meets {len blkno offset : Nat} {done : Bytes -> SfsFs -> Prop} {fail : Errno -> SfsFs -> Prop}
    {stop : Fault -> Prop} (valid : fs.Valid blkno)
    (low : offset < blksize) (high : offset + len <= blksize)
    (failed : forall error, fs.nextError 0 = some error -> fail error fs.tick)
    (read : fs.nextError 0 = none -> done (fun k => fs.device.block blkno (offset + k)) fs.tick) :
    Meets (rbuf len blkno offset) fs ⟨done, fail, stop⟩ := by
  unfold rbuf
  simp only [meets_bind, meets_assert, meets_pure]
  refine ⟨fun _ => ?_, fun broken => absurd ⟨low, high⟩ broken⟩
  apply rwblockNolock_meets (.inl valid.1) valid.2.1 valid.2.2
  · exact failed
  · exact fun fine _ => read fine
  · exact fun _ absurd => by cases absurd

/-- Writing bytes of a block: two transfers. -/
theorem wbuf_meets {data : Bytes} {len blkno offset : Nat} {done : Unit -> SfsFs -> Prop}
    {fail : Errno -> SfsFs -> Prop}
    {stop : Fault -> Prop}
    (valid : fs.Valid blkno) (low : offset < blksize) (high : offset + len <= blksize)
    (failedRead : forall error, fs.nextError 0 = some error -> fail error fs.tick)
    (failedWrite : forall error, fs.nextError 0 = none -> fs.nextError 1 = some error ->
      fail error fs.tick.tick)
    (written : fs.nextError 0 = none -> fs.nextError 1 = none ->
      done () (fs.tick.store blkno (splice (fs.device.block blkno) offset len data))) :
    Meets (wbuf data len blkno offset) fs ⟨done, fail, stop⟩ := by
  unfold wbuf
  simp only [meets_bind, meets_assert, meets_pure]
  refine ⟨fun _ => ?_, fun broken => absurd ⟨low, high⟩ broken⟩
  apply rwblockNolock_meets (.inl valid.1) valid.2.1 valid.2.2
  · exact failedRead
  · intro fine _
    have stillValid : fs.tick.Valid blkno := valid
    apply rwblockNolock_meets (.inl valid.1) stillValid.2.1 stillValid.2.2
    · exact fun error failed => failedWrite error fine failed
    · exact fun _ absurd => by cases absurd
    · exact fun also _ => written fine also
  · exact fun _ absurd => by cases absurd

/-! ## The free map -/

theorem Bitmap.findBit_some {bitmap : Bitmap} {index : Nat} (found : bitmap.findBit = some index) :
    bitmap.bit index = true := by
  unfold findBit at found
  rcases List.exists_of_findSome?_eq_some found with ⟨ix, _, inner⟩
  rcases Option.map_eq_some_iff.mp inner with ⟨offset, hit, equal⟩
  have set := List.find?_some hit
  rw [equal] at set
  exact set

theorem Bitmap.findBit_none {bitmap : Bitmap} (missed : bitmap.findBit = none) {index : Nat}
    (low : index < bitmap.nbits) : bitmap.bit index = false := by
  unfold findBit at missed
  rw [List.findSome?_eq_none_iff] at missed
  have word : index / 32 ∈ List.range (roundupDiv bitmap.nbits 32) := by
    rw [List.mem_range]
    unfold roundupDiv
    omega
  have empty := missed _ word
  rw [Option.map_eq_none_iff, List.find?_eq_none] at empty
  have clear := empty (index % 32) (List.mem_range.mpr (Nat.mod_lt _ (by decide)))
  rw [Nat.div_add_mod] at clear
  exact Bool.eq_false_iff.mpr clear

namespace SfsFs

theorem Owned.lt_nbits (owned : fs.Owned files) {blkno : Nat} (inRange : blkno < fs.super.blocks) :
    blkno < fs.freemap.nbits := Nat.lt_of_lt_of_le inRange owned.accounted.mapped

/-- With a free block there is an unused one. -/
theorem Owned.unused_pos (owned : fs.Owned files) {blkno : Nat} (free : fs.freemap.bit blkno = true) :
    fs.super.unusedBlocks > 0 := by
  have low := owned.lt_nbits (owned.accounted.bits blkno free)
  have counted := Bitmap.count_clear low free
  rw [owned.accounted.counted]
  omega

theorem Owned.unused_zero (owned : fs.Owned files) (missed : fs.freemap.findBit = none) :
    fs.super.unusedBlocks = 0 := by
  rw [owned.accounted.counted, Bitmap.count, List.countP_eq_zero]
  intro index member set
  rw [Bitmap.findBit_none missed (List.mem_range.mp member)] at set
  cases set

end SfsFs

theorem assertInuse_meets {blkno : Nat} {done : Unit -> SfsFs -> Prop} {fail : Errno -> SfsFs -> Prop}
    {stop : Fault -> Prop} (valid : fs.Valid blkno)
    (low : blkno < fs.freemap.nbits) (used : fs.freemap.bit blkno = false) (returns : done () fs) :
    Meets (assertInuse blkno) fs ⟨done, fail, stop⟩ := by
  unfold assertInuse blockInuse bitmapTest
  simp only [meets_bind, meets_get, meets_ite, meets_assert, meets_pure, used]
  rw [if_pos ⟨valid.1, valid.2.1⟩]
  exact ⟨fun _ => ⟨fun _ => returns, fun broken => absurd rfl broken⟩, fun broken => absurd low broken⟩

theorem blockAlloc_meets {done : Nat -> SfsFs -> Prop} {fail : Errno -> SfsFs -> Prop}
    {stop : Fault -> Prop} (owned : fs.Owned files)
    (full : fs.super.unusedBlocks = 0 -> fail .noMem fs)
    (failed : forall blkno error, fs.freemap.bit blkno = true -> fs.nextError 0 = some error ->
      fail error (fs.taken blkno).tick)
    (served : forall blkno, fs.freemap.bit blkno = true -> fs.nextError 0 = none -> done blkno (fs.cleared blkno)) :
    Meets blockAlloc fs ⟨done, fail, stop⟩ := by
  unfold blockAlloc bitmapAlloc
  simp only [meets_bind, meets_get]
  cases found : fs.freemap.findBit with
  | none => exact full (owned.unused_zero found)
  | some blkno =>
      have free := Bitmap.findBit_some found
      have valid := owned.valid_of_free free
      have low := owned.lt_nbits valid.2.1
      simp only [meets_bind, meets_modify, meets_pure, meets_assert]
      refine ⟨fun _ => ?_, fun broken => absurd (owned.unused_pos free) broken⟩
      have stillValid : (fs.taken blkno).Valid blkno := valid
      apply assertInuse_meets stillValid low (Function.update_self ..)
      simp only [clearBlock, forRange, meets_bind, meets_pure]
      apply rwblockNolock_meets (.inl valid.1) stillValid.2.1 stillValid.2.2
      · exact fun error outcome => failed blkno error free outcome
      · exact fun _ absurd => by cases absurd
      · exact fun fine _ => served blkno free fine

theorem blockFree_meets {blkno : Nat} {done : Unit -> SfsFs -> Prop} {fail : Errno -> SfsFs -> Prop}
    {stop : Fault -> Prop} (valid : fs.Valid blkno)
    (low : blkno < fs.freemap.nbits) (used : fs.freemap.bit blkno = false)
    (returns : done () (fs.given blkno)) : Meets (blockFree blkno) fs ⟨done, fail, stop⟩ := by
  unfold blockFree bitmapFree bitmapTest
  simp only [meets_bind, meets_get, meets_assert, meets_pure, meets_modify]
  apply assertInuse_meets valid low used
  exact ⟨fun _ => ⟨fun _ => returns, fun broken => absurd used broken⟩, fun broken => absurd low broken⟩

/-! ## Quiet allocation -/

namespace SfsFs

namespace Quiet

variable {middle after : SfsFs}

theorem taken (owned : fs.Owned files) {blkno : Nat} (free : fs.freemap.bit blkno = true) :
    Quiet fs (fs.taken blkno) where
  inode := rfl
  inodeList := rfl
  fixed := rfl
  nbits := rfl
  error := rfl
  used := fun _ _ => rfl
  fewer := by
    intro index set
    change Function.update fs.freemap.bit blkno false index = true at set
    by_cases same : index = blkno
    · exact same ▸ free
    · rwa [Function.update_of_ne same] at set
  counted := by
    intro counted
    have low := owned.lt_nbits (owned.accounted.bits blkno free)
    have one := Bitmap.count_clear low free
    change fs.super.unusedBlocks - 1 = Bitmap.count _
    change Bitmap.count (fs.taken blkno).freemap + 1 = _ at one
    omega
  clean := fun absurd => nomatch absurd
  later := Nat.le_refl _

/-- A free block is taken and cleared. -/
theorem cleared (owned : fs.Owned files) {blkno : Nat} (free : fs.freemap.bit blkno = true) :
    Quiet fs (fs.cleared blkno) :=
  { Quiet.taken owned free with
    used := fun other used => by
      have different : other ≠ blkno := by
        rintro rfl
        rw [free] at used
        cases used
      exact Function.update_of_ne different ..
    later := Nat.le_succ _ }

/-- A block that was free is given back. -/
theorem given (quiet : Quiet fs middle) (owned : fs.Owned files) {blkno : Nat}
    (free : fs.freemap.bit blkno = true) (used : middle.freemap.bit blkno = false) :
    Quiet fs (middle.given blkno) where
  inode := quiet.inode
  inodeList := quiet.inodeList
  fixed := quiet.fixed
  nbits := quiet.nbits
  error := quiet.error
  used := quiet.used
  fewer := by
    intro index set
    change Function.update middle.freemap.bit blkno true index = true at set
    by_cases same : index = blkno
    · exact same ▸ free
    · rw [Function.update_of_ne same] at set
      exact quiet.fewer index set
  counted := by
    intro counted
    have low : blkno < middle.freemap.nbits := by
      rw [quiet.nbits]
      exact owned.lt_nbits (owned.accounted.bits blkno free)
    change middle.super.unusedBlocks + 1 = Bitmap.count _
    rw [quiet.counted counted]
    exact (Bitmap.count_set low used).symm
  clean := fun absurd => nomatch absurd
  later := quiet.later

/-- A block that was free is written. -/
theorem store (quiet : Quiet fs middle) {blkno : Nat} (free : fs.freemap.bit blkno = true) (data : Bytes) :
    Quiet fs (middle.store blkno data) :=
  { quiet with
    used := fun other used => by
      have different : other ≠ blkno := by
        rintro rfl
        rw [free] at used
        cases used
      exact (Function.update_of_ne different ..).trans (quiet.used other used)
    later := Nat.le_succ_of_le quiet.later }

theorem ticked (quiet : Quiet fs middle) : Quiet fs middle.tick := quiet.trans (Quiet.tick middle)

end Quiet

end SfsFs

end Sfs
end Ucore
