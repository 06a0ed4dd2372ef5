import Ucore.Mksfs.Kernel

namespace Ucore
namespace Mksfs

open Library
open Program
open Sfs

/-!
# The image is consistent

Whatever the size of the image and the tree of the host, a finished image
accounts for every number: those below the counter have one use each, the
others are free in the free map, and the kernel finds as many of them as the
super block says.
-/

variable {home : HostTree} {start fs : SfsFs}

/-- An image that the writer finishes is consistent. -/
theorem createImg_consistent (home : HostTree) {size : Nat} {disk : Nat -> Bytes} {old : Fin 32 -> UInt8}
    {start fs : SfsFs} (created : createSfs size disk old = some start)
    (made : createImg home.root start = .done () fs) :
    (forall number, number < roundupDiv fs.ninos blkbits * blkbits ->
      (fs.mapBit number = true <-> fs.nextIno <= number /\ number < fs.ninos)) /\
    (decodeSuper (fs.disk blknSuper)).unusedBlocks =
      (List.range (roundupDiv fs.ninos blkbits * blkbits)).countP fs.mapBit /\
    (forall place number, fs.holds place = some number -> place ≠ .inode blknRoot ->
      fs.firstIno <= number /\ number < fs.nextIno /\
        forall other, fs.holds other = some number -> other = place) /\
    (forall number, fs.firstIno <= number -> number < fs.nextIno ->
      Exists fun place => fs.holds place = some number) /\
    (forall number, fs.nextIno <= number -> fs.disk number = disk number) /\
    forall device, Shows device fs -> doMount device ≠ none /\
      (device.dBlocks >= fs.ninos -> (forall number, device.error number = none) ->
        Exists fun kernel => doMount device = some (.ok kernel)) := by
  rcases createImg_finished created made with ⟨filled, holds, rfl⟩
  have accounted := holds.sound.accounted
  have bits : forall number, number < roundupDiv filled.ninos blkbits * blkbits ->
      filled.closed.mapBit number = decide (filled.nextIno <= number /\ number < filled.ninos) :=
    fun number low => closed_mapBit accounted low
  refine ⟨?_, ?_, ?_, ?_, ?_, ?_⟩
  · intro number low
    rw [bits number low]
    exact decide_eq_true_iff
  · have counted : (List.range (roundupDiv filled.ninos blkbits * blkbits)).countP filled.closed.mapBit =
        (List.range (roundupDiv filled.ninos blkbits * blkbits)).countP
          (fun number => decide (filled.nextIno <= number /\ number < filled.ninos)) :=
      List.countP_congr fun number member => by rw [bits number (List.mem_range.mp member)]
    have balance := accounted.unused
    rw [closed_super_decoded accounted]
    change filled.super.unusedBlocks = (List.range (roundupDiv filled.ninos blkbits * blkbits)).countP _
    rw [counted, countP_interval]
    unfold roundupDiv blkbits
    omega
  · intro place number held notRoot
    have same : filled.closed.holds = filled.holds := rfl
    rw [same] at held ⊢
    have once : forall other, filled.holds other = some number -> other = place :=
      fun other also => accounted.exclusive.once other place number also held
    rcases accounted.held_bounds held with root | bounds
    · have rootHeld : filled.holds (.inode blknRoot) = some number := by
        rw [root]
        exact Accounted.holds_inode accounted.root
      exact absurd (once _ rootHeld).symm notRoot
    · exact ⟨bounds.1, bounds.2, once⟩
  · intro number low high
    exact (accounted.covered number low high).resolve_left List.not_mem_nil
  · intro number high
    rw [closed_beyond accounted high, holds.extends_.beyond number high]
    exact congrFun (createSfs_created home created).disk number
  · intro device shows_
    have mounts := doMount_image accounted shows_
    constructor
    · rcases mounts.1 with ⟨error, failed⟩ | ⟨kernel, mounted, _⟩
      · rw [failed]
        exact nofun
      · rw [mounted]
        exact nofun
    · intro enough fine
      rcases mounts.2 enough fine with ⟨kernel, mounted, _⟩
      exact ⟨kernel, mounted⟩

/-! ## A small tree -/

def letter (byte : UInt8) (plain : byte ≠ 0 /\ byte ≠ 47) : HostName where
  bytes := [byte]
  nonempty := List.cons_ne_nil _ _
  plain := fun _ member => List.mem_singleton.mp member ▸ plain

/-- A file `a`, and a directory `d` with a link `l` and another name of the
file. -/
def smallTree : HostTree where
  root := .item (letter 97 (by decide)) (.file 5 [104, 105])
    (.dir (letter 100 (by decide)) 6 (.item (letter 108 (by decide)) (.link 7 [97])
      (.item (letter 98 (by decide)) (.file 5 [104, 105]) .nil)) .nil)
  linked := by
    intro real first second one two
    simp [HostDir.files, HostItem.files, letter, HostName.hidden] at one two
    rw [one.2, two.2]
  filesApart := by
    intro real content member
    simp [HostDir.files, HostItem.files, letter, HostName.hidden] at member
    rw [member.1]
    decide
  dirsApart := by
    intro real member
    simp [HostDir.dirs, letter, HostName.hidden] at member
    rw [member]
    decide
  dirsOnce := by decide
  distinct := by
    simp [HostDir.Distinct, HostDir.entries, HostItem.entries, letter, HostName.hidden]

/-- The start of an image of 40 blocks. -/
theorem smallImage_created : Exists fun start => createSfs (40 * 4096) (fun _ _ => 0) (fun _ => 0) = some start /\
    start.nextIno = 3 /\ start.ninos = 40 := ⟨_, rfl, rfl, rfl⟩

theorem smallTree_fits (created : start.nextIno = 3 /\ start.ninos = 40) : TreeFits start smallTree := by
  unfold TreeFits
  rw [created.1, created.2]
  refine ⟨by decide, by decide, ?_⟩
  simp [smallTree, HostDir.Accepted, HostItem.Accepted, HostDir.entries, HostItem.entries, letter, HostName.hidden,
    maxFnameLen, maxFileSize, lnNblks, blksize]

theorem smallTree_consistent : Exists fun start => Exists fun fs =>
    createSfs (40 * 4096) (fun _ _ => 0) (fun _ => 0) = some start /\ createImg smallTree.root start = .done () fs /\
      forall device, Shows device fs -> doMount device ≠ none := by
  rcases smallImage_created with ⟨start, created, numbers⟩
  rcases createImg_succeeds created (smallTree_fits numbers) with ⟨fs, made⟩
  exact ⟨start, fs, created, made, fun device shows_ =>
    ((createImg_consistent smallTree created made).2.2.2.2.2 device shows_).1⟩

end Mksfs
end Ucore
