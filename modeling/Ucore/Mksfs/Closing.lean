import Ucore.Mksfs.Directories

namespace Ucore
namespace Mksfs

open Library
open Program
open Sfs

/-!
# The finished image

The writer starts from a volume with an empty root directory, packs the tree,
and writes the free map, the super block, the tables and the inodes, each to a
block of its own.
-/

variable {home : HostTree} {fs after : SfsFs}

/-! ## The start -/

/-- What `create_sfs` makes: a root without entries, and no other inode. -/
structure Created (home : HostTree) (disk : Nat -> Bytes) (fs : SfsFs) : Prop where
  sound : Sound fs []
  registered : Registered home fs
  nextIno : fs.nextIno = fs.firstIno
  disk : fs.disk = disk
  root : DirHolds fs blknRoot []
  real : (fs.inode blknRoot).real = 0
  only : forall file, file ∈ fs.cacheInodes -> file = blknRoot

section Start

variable {ninos : Nat} {disk : Nat -> Bytes} {old : Fin 32 -> UInt8}

/-- A volume whose only inode is the root directory. -/
def emptyVolume (ninos : Nat) (disk : Nat -> Bytes) (old : Fin 32 -> UInt8) : SfsFs :=
  (SfsFs.blank ninos (blknFreemap + roundupDiv ninos blkbits) disk old).addCacheInode (hash64 0) blknRoot
    (.fresh 0 typeDir)

theorem mem_emptyVolume {file : Nat} : file ∈ (emptyVolume ninos disk old).cacheInodes <-> file = blknRoot := by
  have none : (SfsFs.blank ninos (blknFreemap + roundupDiv ninos blkbits) disk old).cacheInodes = [] :=
    List.flatMap_eq_nil_iff.mpr fun _ _ => rfl
  have low : hash64 0 < hashListSize := hash32_lt _
  unfold emptyVolume
  rw [mem_addCacheInode low, none]
  exact ⟨fun either => either.resolve_right List.not_mem_nil, .inl⟩

theorem emptyVolume_inode : (emptyVolume ninos disk old).inode blknRoot = .fresh 0 typeDir := by
  unfold emptyVolume SfsFs.addCacheInode
  dsimp only
  rw [Function.update_self]

theorem emptyVolume_tableAt (index : Nat) : (emptyVolume ninos disk old).tableAt blknRoot index = 0 := by
  match index with
  | 0 => rw [SfsFs.tableAt, emptyVolume_inode]; rfl
  | 1 => rw [SfsFs.tableAt, emptyVolume_inode]; rfl
  | index + 2 =>
      have second : ((emptyVolume ninos disk old).inode blknRoot).inode.dbIndirect = 0 := by
        rw [emptyVolume_inode]
        rfl
      rw [tableAt_deep second, if_neg (fun both => both.1 rfl)]

theorem emptyVolume_blockAt (index : Nat) : (emptyVolume ninos disk old).blockAt blknRoot index = 0 := by
  unfold SfsFs.blockAt
  rw [emptyVolume_tableAt, emptyVolume_inode, if_neg (fun present => present rfl)]
  split
  · rfl
  · rfl

theorem emptyVolume_holds {place : Place} {number : Nat}
    (held : (emptyVolume ninos disk old).holds place = some number) :
    place = .inode blknRoot /\ number = blknRoot := by
  cases place with
  | inode ino =>
      rw [SfsFs.holds] at held
      split at held
      · rename_i member
        cases held
        have same := mem_emptyVolume.mp member
        exact ⟨by rw [same], same⟩
      · cases held
  | table file index =>
      rw [SfsFs.holds] at held
      split at held
      · rename_i member
        rw [mem_emptyVolume.mp member, emptyVolume_tableAt] at held
        cases held
      · cases held
  | data file index =>
      rw [SfsFs.holds] at held
      split at held
      · rename_i member
        rw [mem_emptyVolume.mp member, emptyVolume_blockAt] at held
        cases held
      · cases held

theorem emptyVolume_sound (small : ninos <= maxNblks) (room : blknFreemap + roundupDiv ninos blkbits < ninos) :
    Sound (emptyVolume ninos disk old) [] := by
  have none : (SfsFs.blank ninos (blknFreemap + roundupDiv ninos blkbits) disk old).cacheBlocks = [] :=
    List.flatMap_eq_nil_iff.mpr fun _ _ => rfl
  have nblks : ((emptyVolume ninos disk old).inode blknRoot).nblks = 0 := by
    rw [emptyVolume_inode]
    rfl
  refine ⟨⟨⟨?_, ?_⟩, ?_, ?_, List.nodup_nil, ?_, rfl, rfl, ?_, small, Nat.le_refl _, ?_⟩, ?_⟩
  · intro one two number oneHolds twoHolds
    rw [(emptyVolume_holds oneHolds).1, (emptyVolume_holds twoHolds).1]
  · intro place number held unplaced
    rw [(emptyVolume_holds held).2] at unplaced
    rcases unplaced with member | above | outside
    · exact absurd member List.not_mem_nil
    · have low : blknFreemap + roundupDiv ninos blkbits <= blknRoot := above
      unfold blknRoot blknFreemap at low
      omega
    · exact outside.2 rfl
  · exact fun number low high => absurd high (Nat.not_lt.mpr low)
  · exact fun _ member => absurd member List.not_mem_nil
  · intro number
    change number ∈ (SfsFs.blank ninos (blknFreemap + roundupDiv ninos blkbits) disk old).cacheBlocks <-> _
    rw [none]
    constructor
    · exact fun member => absurd member List.not_mem_nil
    · rintro ⟨file, index, held⟩
      exact nomatch (emptyVolume_holds held).1
  · change ninos - (blknFreemap + roundupDiv ninos blkbits) + (blknFreemap + roundupDiv ninos blkbits) = ninos
    omega
  · exact mem_emptyVolume.mpr rfl
  · intro file member
    rw [mem_emptyVolume.mp member]
    refine ⟨?_, ?_, ?_, ?_, ?_, ?_⟩
    · intro index
      rw [emptyVolume_blockAt, nblks]
      exact iff_of_false (fun present => present rfl) (Nat.not_lt_zero _)
    · intro index
      rw [emptyVolume_tableAt, nblks]
      exact iff_of_false (fun present => present rfl) (Nat.not_lt_zero _)
    · rw [emptyVolume_inode]
      rfl
    · rw [nblks]
      exact Nat.zero_le _
    · rw [nblks]
      exact fun indexed => absurd indexed (Nat.not_lt_zero _)
    · rw [nblks]
      exact fun deep => absurd deep (Nat.not_lt_zero _)

theorem emptyVolume_registered (home : HostTree) : Registered home (emptyVolume ninos disk old) := by
  refine ⟨?_, ?_, ?_⟩
  · intro bucket file member
    have there : file ∈ Function.update (fun _ => []) (hash64 0) [blknRoot] bucket := member
    rw [Function.update_apply] at there
    split at there
    · rename_i same
      rw [List.mem_singleton.mp there, emptyVolume_inode]
      exact same
    · exact absurd there List.not_mem_nil
  · intro one two oneListed twoListed _ _ _
    rw [mem_emptyVolume.mp oneListed, mem_emptyVolume.mp twoListed]
  · intro file member
    rw [mem_emptyVolume.mp member]
    apply Kind.dir
    · rw [emptyVolume_inode]
      rfl
    · rw [emptyVolume_inode]
      exact .inl rfl

end Start

theorem createSfs_created (home : HostTree) {size : Nat} {disk : Nat -> Bytes} {old : Fin 32 -> UInt8}
    (created : createSfs size disk old = some fs) : Created home disk fs := by
  unfold createSfs at created
  dsimp only at created
  generalize limited : (if maxNblks < size / blksize % 2 ^ 32 then maxNblks else size / blksize % 2 ^ 32) = ninos
    at created
  have small : ninos <= maxNblks := by
    rw [← limited]
    split
    · exact Nat.le_refl _
    · rename_i within
      exact Nat.le_of_not_lt within
  split at created
  · cases created
  · rename_i room
    have made : emptyVolume ninos disk old = fs := Option.some.inj created
    rw [← made]
    refine ⟨emptyVolume_sound small (Nat.lt_of_not_le room), emptyVolume_registered home, rfl, rfl, ?_, ?_,
      fun _ => mem_emptyVolume.mp⟩
    · refine ⟨?_, ?_, fun _ _ absent => nomatch absent⟩
      · rw [emptyVolume_inode]
        rfl
      · rw [emptyVolume_inode]
        rfl
    · rw [emptyVolume_inode]
      rfl

/-! ## The tree -/

/-- The numbers suffice for the tree, and its names and sizes are accepted. -/
def TreeFits (fs : SfsFs) (home : HostTree) : Prop :=
  fs.nextIno + 6 + home.root.cost <= fs.ninos /\ home.root.entries.length + 2 <= lnNblks /\ home.root.Accepted

/-- The volume holds the tree: the root has the entries of the host, and so has
every directory below it. -/
structure Filled (home : HostTree) (start fs : SfsFs) : Prop where
  extends_ : Extends start blknRoot fs
  sound : Sound fs []
  registered : Registered home fs
  root : Exists fun entries => DirHolds fs blknRoot ((blknRoot, dot) :: (blknRoot, dotdot) :: entries) /\
    Named fs entries home.root.entries
  packed : forall directory, directory ∈ home.root.subdirectories 0 -> PackedDir fs (blknRoot + 1) directory

/-- The whole tree is a part of it. -/
theorem Part.whole (home : HostTree) : Part home home.root where
  files := fun _ member => member
  links := fun _ member => member
  dirs := fun _ member => member
  once := home.dirsOnce

theorem openDir_meets {disk : Nat -> Bytes} (created : Created home disk fs) :
    Meets (openDir blknRoot blknRoot home.root) fs
      ⟨fun _ after => Filled home fs after, fun _ _ => ¬ TreeFits fs home, fun _ => False⟩ := by
  have sound := created.sound
  have listed := sound.accounted.root
  have isDir := created.root.type
  have notFile : (fs.inode blknRoot).inode.type ≠ typeFile := by
    rw [isDir]
    decide
  have nblks : (fs.inode blknRoot).nblks = 0 := created.root.nblks
  have limit : forall number, lnNblks <= number -> number <= 1 -> False := by
    intro number big small
    exact absurd (Nat.le_trans big small) (by decide)
  unfold openDir openDirWith
  simp only [meets_bind]
  apply addEntry_meets sound listed isDir (by decide)
  · intro big
    exact (limit _ big (by omega)).elim
  · intro excess _ fits
    have enough := fits.1
    omega
  · intro first one
    have grown := one.grown
    have high := one.step.high
    have limited := one.step.extends_.ninos
    have listedThen := one.step.extends_.listed _ listed
    have isDirThen := (one.step.extends_.kind _ listed).2.trans isDir
    have registeredThen := created.registered.kept sound one.step.extends_ one.inodes notFile
    apply addEntry_meets one.step.sound listedThen isDirThen (by decide)
    · intro big
      exact (limit _ big (by omega)).elim
    · intro excess _ fits
      have enough := fits.1
      omega
    · intro second two
      have extends_ := one.step.extends_.trans two.step.extends_ (.inl rfl)
      have notFileThen : (first.inode blknRoot).inode.type ≠ typeFile := by
        rw [isDirThen]
        decide
      have holds : DirHolds second blknRoot [(blknRoot, dot), (blknRoot, dotdot)] :=
        two.entries _ (one.entries _ created.root)
      have grownThen := two.grown
      have highThen := two.step.high
      have limitedThen := two.step.extends_.ninos
      have low := extends_.low
      have above := sound.accounted.root_lt
      have open_ : Open home second blknRoot (blknRoot + 1) :=
        ⟨two.step.sound, registeredThen.kept one.step.sound two.step.extends_ two.inodes notFileThen,
          extends_.listed _ listed, (extends_.kind _ listed).2.trans isDir, Nat.lt_succ_self _, by omega⟩
      have same : second.cacheInodes = fs.cacheInodes := by
        unfold SfsFs.cacheInodes
        rw [two.inodes, one.inodes]
      have unvisited : Unvisited second home.root := by
        intro file member isRealDir
        rw [same] at member
        have real : (second.inode file).real = 0 := by
          rw [(extends_.kind file member).1, created.only file member, created.real]
        rw [real] at isRealDir
        exact (home.dirsApart 0 isRealDir).2 rfl
      refine (openEntries_meets home.root open_ (.whole home) unvisited).mono ?_ ?_ (fun _ stopped => stopped)
      · intro _ after entered
        have real : (second.inode blknRoot).real = 0 := (extends_.kind _ listed).1.trans created.real
        have packed := entered.packed
        rw [real] at packed
        rcases entered.holds _ holds with ⟨added, final, named⟩
        exact ⟨extends_.trans entered.step.extends_ (.inl rfl), entered.step.sound, entered.registered,
          ⟨added, final, named⟩, packed⟩
      · intro _ _ refused fits
        apply refused
        have enough := fits.1
        have entries := fits.2.1
        exact ⟨by omega, by omega, fits.2.2⟩

/-! ## The flush -/

/-- The blocks that are written, in order. -/
def applyWrites (disk : Nat -> Bytes) (writes : List (Nat × Bytes)) : Nat -> Bytes :=
  writes.foldl (fun disk write => Function.update disk write.1 write.2) disk

theorem applyWrites_append (disk : Nat -> Bytes) (first second : List (Nat × Bytes)) :
    applyWrites disk (first ++ second) = applyWrites (applyWrites disk first) second := List.foldl_append ..

/-- A block that is not written stays. -/
theorem applyWrites_other {disk : Nat -> Bytes} {writes : List (Nat × Bytes)} {number : Nat}
    (absent : forall write, write ∈ writes -> write.1 ≠ number) : applyWrites disk writes number = disk number := by
  induction writes generalizing disk with
  | nil => rfl
  | cons write rest inductionHypothesis =>
      have different := absent write (List.mem_cons_self ..)
      exact (inductionHypothesis fun other member => absent other (List.mem_cons_of_mem _ member)).trans
        (Function.update_of_ne (fun same => different same.symm) ..)

/-- A block that is written with one value has it. -/
theorem applyWrites_same {disk : Nat -> Bytes} {writes : List (Nat × Bytes)} {number : Nat} {block : Bytes}
    (written : (number, block) ∈ writes)
    (once : forall write, write ∈ writes -> write.1 = number -> write.2 = block) :
    applyWrites disk writes number = block := by
  induction writes generalizing disk with
  | nil => exact absurd written List.not_mem_nil
  | cons write rest inductionHypothesis =>
      by_cases later : (number, block) ∈ rest
      · exact inductionHypothesis later fun other member => once other (List.mem_cons_of_mem _ member)
      · by_cases again : Exists fun other => other ∈ rest /\ other.1 = number
        · rcases again with ⟨⟨place, value⟩, member, rfl⟩
          have same := once _ (List.mem_cons_of_mem _ member) rfl
          subst same
          exact absurd member later
        · have here := (List.mem_cons.mp written).resolve_right later
          subst here
          change applyWrites (Function.update disk number block) rest number = block
          rw [applyWrites_other fun other member same => again ⟨other, member, same⟩, Function.update_self]

namespace SfsFs

def withDisk (fs : SfsFs) (disk : Nat -> Bytes) : SfsFs := { fs with disk := disk }

/-- The block of an inode. -/
def inodeBlock (fs : SfsFs) (ino : Nat) : Bytes :=
  writtenBlock (encodeCacheInode (fs.inode ino).inode) cacheInodeBytes

/-- The block of a table. -/
def tableBlock (fs : SfsFs) (cb : Nat) : Bytes := writtenBlock (tableBytes (fs.cache cb)) blksize

/-- The writes of `close_sfs`. -/
def mapWrites (fs : SfsFs) (number : Nat) : List (Nat × Bytes) :=
  [(blknFreemap + number, writtenBlock (freemapBlock fs.ninos fs.nextIno (number * blkbits)) blksize)]

def listWrites (fs : SfsFs) (bucket : Nat) : List (Nat × Bytes) :=
  (fs.blocks bucket).map (fun cb => (cb, fs.tableBlock cb)) ++
    (fs.inodes bucket).map (fun ino => (ino, fs.inodeBlock ino))

def closeWrites (fs : SfsFs) : List (Nat × Bytes) :=
  (List.range (roundupDiv fs.ninos blkbits)).flatMap fs.mapWrites ++
    [(blknSuper, writtenBlock (encodeSuper fs.super) superBytes)] ++ (List.range hashListSize).flatMap fs.listWrites

/-- The image after `close_sfs`. -/
def closed (fs : SfsFs) : SfsFs := fs.withDisk (applyWrites fs.disk fs.closeWrites)

end SfsFs

section Flush

variable {fail : Bug -> SfsFs -> Prop} {stop : Assertion -> Prop} {done : Unit -> SfsFs -> Prop}

theorem flushCacheBlocks_meets {disk : Nat -> Bytes} (list : List Nat) (inRange : forall cb, cb ∈ list -> cb < fs.ninos)
    (flushed : done () (fs.withDisk (applyWrites disk (list.map fun cb => (cb, fs.tableBlock cb))))) :
    Meets (flushCacheBlocks list) (fs.withDisk disk) ⟨done, fail, stop⟩ := by
  induction list generalizing disk with
  | nil =>
      rw [flushCacheBlocks, meets_pure]
      exact flushed
  | cons cb rest inductionHypothesis =>
      have here : cb < (fs.withDisk disk).ninos := inRange cb (List.mem_cons_self ..)
      rw [flushCacheBlocks]
      simp only [meets_bind, meets_get]
      apply writeBlock_meets (Nat.le_refl _) here
      exact inductionHypothesis (fun other member => inRange other (List.mem_cons_of_mem _ member)) flushed

theorem flushCacheInodes_meets {disk : Nat -> Bytes} (list : List Nat)
    (inRange : forall ino, ino ∈ list -> ino < fs.ninos)
    (flushed : done () (fs.withDisk (applyWrites disk (list.map fun ino => (ino, fs.inodeBlock ino))))) :
    Meets (flushCacheInodes list) (fs.withDisk disk) ⟨done, fail, stop⟩ := by
  induction list generalizing disk with
  | nil =>
      rw [flushCacheInodes, meets_pure]
      exact flushed
  | cons ino rest inductionHypothesis =>
      have here : ino < (fs.withDisk disk).ninos := inRange ino (List.mem_cons_self ..)
      rw [flushCacheInodes]
      simp only [meets_bind, meets_get]
      apply writeBlock_meets (by decide) here
      exact inductionHypothesis (fun other member => inRange other (List.mem_cons_of_mem _ member)) flushed

/-- A loop each of whose rounds makes some writes. -/
theorem writes_meets {body : Nat -> Writer Unit} (writes : Nat -> List (Nat × Bytes)) {disk : Nat -> Bytes}
    (count : Nat) (round : forall number disk, number < count -> Meets (body number) (fs.withDisk disk)
      ⟨fun _ after => after = fs.withDisk (applyWrites disk (writes number)), fail, stop⟩)
    (written : done () (fs.withDisk (applyWrites disk ((List.range count).flatMap writes)))) :
    Meets (forRange body 0 count) (fs.withDisk disk) ⟨done, fail, stop⟩ := by
  apply meets_forRange (fun number current =>
    current = fs.withDisk (applyWrites disk ((List.range number).flatMap writes)))
  · intro number current _ low holds
    rw [holds]
    refine (round number _ (by omega)).mono ?_ (fun _ _ failed => failed) (fun _ stopped => stopped)
    intro _ after same
    rw [same, List.range_succ, List.flatMap_append, applyWrites_append, List.flatMap_singleton]
  · intro current holds
    rw [holds, Nat.zero_add]
    exact written
  · rfl

theorem Accounted.next_le {pending : List Nat} (accounted : Accounted fs pending) : fs.nextIno <= fs.ninos := by
  have balance := accounted.unused
  omega

theorem closeSfs_meets (sound : Sound fs []) (finished : done () fs.closed) :
    Meets closeSfs fs ⟨done, fail, stop⟩ := by
  have accounted := sound.accounted
  have limit := accounted.next_le
  have started := accounted.started
  have itself : fs = fs.withDisk fs.disk := rfl
  unfold closeSfs
  simp only [meets_bind, meets_get]
  rw [itself]
  apply writes_meets fs.mapWrites
  · intro number disk low
    have inRange : blknFreemap + number < (fs.withDisk disk).ninos := by
      change blknFreemap + number < fs.ninos
      have first : blknFreemap + roundupDiv fs.ninos blkbits <= fs.nextIno := started
      have below : number < roundupDiv fs.ninos blkbits := low
      omega
    exact writeBlock_meets (Nat.le_refl _) inRange rfl
  · have positive : blknSuper < fs.ninos := by
      have above := accounted.root_lt
      unfold blknSuper
      omega
    refine writeBlock_meets (by decide) positive ?_
    apply writes_meets fs.listWrites
    · intro number disk low
      simp only [meets_bind]
      apply flushCacheBlocks_meets
      · intro cb member
        have cached : cb ∈ fs.cacheBlocks := List.mem_flatMap.mpr ⟨number, List.mem_range.mpr low, member⟩
        rcases (accounted.cached cb).mp cached with ⟨file, index, held⟩
        exact Nat.lt_of_lt_of_le (accounted.held_lt held) limit
      · apply flushCacheInodes_meets
        · intro ino member
          have listed : ino ∈ fs.cacheInodes := List.mem_flatMap.mpr ⟨number, List.mem_range.mpr low, member⟩
          exact Nat.lt_of_lt_of_le (accounted.inode_lt listed) limit
        · rw [← applyWrites_append]
          rfl
    · have same : fs.closed = fs.withDisk (applyWrites (applyWrites (applyWrites fs.disk
          ((List.range (roundupDiv fs.ninos blkbits)).flatMap fs.mapWrites))
          [(blknSuper, writtenBlock (encodeSuper fs.super) superBytes)])
          ((List.range hashListSize).flatMap fs.listWrites)) := by
        unfold SfsFs.closed SfsFs.closeWrites
        rw [applyWrites_append, applyWrites_append]
      rw [same] at finished
      exact finished

end Flush

end Mksfs
end Ucore
