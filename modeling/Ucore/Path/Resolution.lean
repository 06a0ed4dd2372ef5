import Ucore.Path.Image

namespace Ucore
namespace Path

open Library
open Program
open Sfs

/-!
# Resolution

`sfs_lookup` looks for the whole rest of a path as one name, and no name has a
slash in it.  So `vfs_lookup` follows a walk of at most one step, and no path
of more steps or with a slash at its end, as those that `vfs_getcwd` builds
below the root.
-/

variable {world : World} {files : List Nat}

/-! ## Paths with slashes -/

/-- A rest with a slash in it is not found. -/
theorem descend_slash {node : Node} {path : List UInt8} (ready : world.Ready files node) (inside : slash ∈ path) :
    Meets (descend node path) world ⟨fun _ _ => False, fun _ _ => True, fun _ => True⟩ := by
  unfold descend
  rw [meets_ensuring]
  exact (vopLookup_slash ready inside).mono (fun _ _ found => found.elim) (fun _ _ _ => Meets.any ..)
    (fun _ stopped => stopped)

theorem vfsLookup_several (sound : world.Sound files) (path : PathText) (several : ¬ path.Simple) :
    Meets (vfsLookup path.text) world ⟨fun _ _ => False, fun _ _ => True, fun _ => True⟩ := by
  have inside := path.slash_mem_rest several
  rw [path.vfsLookup_text, meets_bind]
  refine (start_meets path.start sound).mono ?_ (fun _ _ failed => failed) (fun _ stopped => stopped)
  intro node after ready
  dsimp only
  rw [if_pos (List.ne_nil_of_mem inside)]
  exact descend_slash ready inside

/-- `vfs_lookup` succeeds as the walk does. -/
def FollowsWalk (world : World) (path : PathText) : Prop := forall node,
  (Exists fun after => vfsLookup path.text world = .done node after) <->
    Exists fun after => walkPath path world = .done node after

/-- The walk succeeds. -/
def Walkable (world : World) (path : PathText) : Prop :=
  Exists fun node => Exists fun after => walkPath path world = .done node after

theorem followsWalk_iff (sound : world.Sound files) (path : PathText) :
    FollowsWalk world path <-> path.Simple \/ ¬ Walkable world path := by
  constructor
  · intro follows
    by_cases simple : path.Simple
    · exact .inl simple
    · refine .inr ?_
      rintro ⟨node, walked⟩
      rcases (follows node).mpr walked with ⟨after, found⟩
      exact (vfsLookup_several sound path simple).of_done found
  · rintro (simple | stuck) node
    · rw [path.vfsLookup_simple simple]
    · by_cases simple : path.Simple
      · rw [path.vfsLookup_simple simple]
      · constructor
        · rintro ⟨after, found⟩
          exact ((vfsLookup_several sound path simple).of_done found).elim
        · exact fun walked => absurd ⟨node, walked⟩ stuck

/-! ## The name of the current directory -/

/-- Every name is followed by a slash. -/
def Closed (text : List UInt8) : Prop := text = [] \/ Exists fun front => text = front ++ [slash]

theorem Closed.cons {text : List UInt8} (closed : Closed text) (name : List UInt8) :
    Closed (name ++ slash :: text) := by
  rcases closed with rfl | ⟨front, rfl⟩
  · exact .inr ⟨name, rfl⟩
  · exact .inr ⟨name ++ slash :: front, by rw [List.append_assoc, List.cons_append]⟩

theorem Closed.skipSlashes {text : List UInt8} (closed : Closed text) :
    skipSlashes text = [] \/ slash ∈ skipSlashes text := by
  rcases closed with rfl | ⟨front, rfl⟩
  · exact .inl rfl
  · induction front with
    | nil => exact .inl rfl
    | cons letter front inductionHypothesis =>
        unfold Path.skipSlashes at *
        by_cases first : letter = slash
        · rw [List.cons_append, List.dropWhile_cons_of_pos (by exact decide_eq_true first)]
          exact inductionHypothesis
        · rw [List.cons_append, List.dropWhile_cons_of_neg (by rw [decide_eq_true_iff]; exact first)]
          exact .inr (List.mem_cons_of_mem _ (List.mem_append_right _ (List.mem_singleton_self _)))

/-- The text of `sfs_namefile` is closed. -/
theorem namefileLoop_closed {ino resid : Nat} {text : List UInt8} (closed : Closed text) :
    Meets (namefileLoop ino resid text) world ⟨fun result _ => Closed result, fun _ _ => True, fun _ => True⟩ := by
  induction resid using Nat.strong_induction_on generalizing world ino text with
  | _ resid inductionHypothesis =>
      rw [namefileLoop]
      simp only [meets_bind, meets_onError, meets_get, meets_assert, meets_ite, meets_pure]
      refine (Meets.any (lookupOnce ino dotdot) world).mono ?_ (fun _ _ _ => Meets.any ..) (fun _ stopped => stopped)
      intro above first _
      refine (Meets.any (refDec (.sfs ino)) first).mono ?_ (fun _ _ failed => failed) (fun _ stopped => stopped)
      intro _ second _
      split
      · exact (Meets.any ..).mono (fun _ _ _ => closed) (fun _ _ failed => failed) (fun _ stopped => stopped)
      · refine ⟨fun _ => ?_, fun _ => trivial⟩
        refine (Meets.any (onVolume (direntFindinoNolock above ino)) second).mono ?_ (fun _ _ _ => Meets.any ..)
          (fun _ stopped => stopped)
        intro entry third _
        dsimp only
        split
        · rw [meets_bind]
          exact (Meets.any ..).mono (fun _ _ _ => trivial) (fun _ _ failed => failed) (fun _ stopped => stopped)
        · rename_i room
          exact inductionHypothesis _ (by omega) (closed.cons entry.string)

/-- The root is its own parent, so that its text is empty. -/
theorem namefileLoop_root {resid : Nat} (tree : Tree world.volume files) (loaded : blknRoot ∈ world.volume.inodeList) :
    Meets (namefileLoop blknRoot resid []) world ⟨fun result _ => result = [], fun _ _ => True, fun _ => True⟩ := by
  rcases tree.rootParent with ⟨slot, parent⟩
  have din : world.volume.dinOf blknRoot = (world.volume.inode blknRoot).din := if_pos loaded
  rw [din] at parent
  have isDir : (world.volume.inode blknRoot).din.type = typeDir := din ▸ tree.rootDir
  rw [namefileLoop]
  simp only [meets_bind, meets_onError]
  unfold lookupOnce onVolume kmalloc
  simp only [meets_bind, meets_get, meets_modify, meets_pure, meets_zoom]
  refine (direntSearchNolock_meets tree.kept.owned loaded isDir ?_ ?_).mono ?_ (fun _ _ _ => Meets.any ..)
    (fun _ stopped => stopped)
  · exact fun _ _ => trivial
  · exact fun _ _ _ _ => trivial
  · rintro found final ⟨_, result⟩
    rw [parent] at result
    cases result
    refine (Meets.any (load blknRoot) _).mono ?_ (fun _ _ _ => Meets.any ..) (fun _ stopped => stopped)
    intro _ first _
    refine (Meets.any (refDec (.sfs blknRoot)) first).mono ?_ (fun _ _ failed => failed) (fun _ stopped => stopped)
    intro _ second _
    dsimp only
    rw [if_pos rfl, meets_bind]
    refine (Meets.any (refDec (.sfs blknRoot)) second).mono ?_ (fun _ _ failed => failed) (fun _ stopped => stopped)
    exact fun _ _ _ => rfl

/-- The text of a directory ends as it has to, and that of the root is a
slash. -/
def NamesDir (ino : Nat) (text : List UInt8) : Prop :=
  Exists fun tail => text = slash :: tail /\ Closed tail /\ (ino = blknRoot -> tail = [])

theorem vopNamefile_meets {ino resid : Nat} (tree : Tree world.volume files) (loaded : ino ∈ world.volume.inodeList) :
    Meets (vopNamefile (.sfs ino) resid) world ⟨fun text _ => NamesDir ino text, fun _ _ => True, fun _ => True⟩ := by
  unfold vopNamefile sfsNamefile inodeCheck kmalloc
  simp only [meets_bind, meets_get, meets_assert, meets_ite, meets_throw, meets_modify, meets_pure]
  refine ⟨fun _ => ⟨fun _ => ⟨fun _ => ?_, fun _ => trivial⟩, fun _ => trivial⟩, fun _ => trivial⟩
  split
  · trivial
  · split
    · trivial
    · have called : Tree ({ world with calls := world.calls + 1 } : World).volume files := tree
      apply refInc_meets called
      · rintro other ⟨⟩
        exact loaded
      · intro after treeAfter listed _ _
        have closed : Closed [] := .inl rfl
        by_cases root : ino = blknRoot
        · subst root
          refine (namefileLoop_root treeAfter (listed ▸ loaded)).mono ?_ (fun _ _ failed => failed)
            (fun _ stopped => stopped)
          rintro tail _ rfl
          exact ⟨[], rfl, closed, fun _ => rfl⟩
        · refine (namefileLoop_closed closed).mono ?_ (fun _ _ failed => failed) (fun _ stopped => stopped)
          exact fun tail _ closed => ⟨tail, rfl, closed, fun same => absurd same root⟩

theorem vfsGetcwd_meets {resid ino : Nat} (sound : world.Sound files) (pwd : world.pwd = some (.sfs ino)) :
    Meets (vfsGetcwd resid) world
      ⟨fun result _ => Exists fun vdev => Exists fun text => vdev ∈ world.vdevs /\ vdev.target = .volume /\
          result = vdev.devname ++ colon :: text /\ NamesDir ino text,
        fun _ _ => True, fun _ => True⟩ := by
  unfold vfsGetcwd vfsGetDevname iobufMove
  simp only [meets_bind, meets_assert, meets_get]
  apply vfsGetCurdir_meets sound trivial
  intro node after same tree listed vdevs counts
  rw [pwd] at same
  cases same
  refine ⟨fun _ => ?_, fun _ => trivial⟩
  cases found : after.vdevs.find? (fun vdev => decide (vdev.target = .volume)) with
  | none => trivial
  | some vdev =>
      have member := List.mem_of_find?_eq_some found
      have chosen := List.find?_some found
      have target : vdev.target = .volume := of_decide_eq_true chosen
      rw [vdevs] at member
      simp only [meets_pure, meets_ensuring, meets_bind, meets_ite, meets_throw]
      have held : ino ∈ after.volume.inodeList := listed ▸ (counts ino rfl).1
      split
      · exact Meets.any ..
      · split
        · exact Meets.any ..
        · refine (vopNamefile_meets tree held).mono ?_ (fun _ _ _ => Meets.any ..) (fun _ stopped => stopped)
          intro text final names
          refine (Meets.any (refDec (.sfs ino)) final).mono ?_ (fun _ _ failed => failed) (fun _ stopped => stopped)
          exact fun _ _ _ => ⟨vdev, text, member, target, rfl, names⟩

section Devices

variable {vdevs : List Vdev} {vdev : Vdev}

/-- A device is found by its name. -/
theorem find_devname (distinct : (vdevs.map Vdev.devname).Nodup) (member : vdev ∈ vdevs) :
    vdevs.find? (fun other => decide (vdev.devname = other.devname)) = some vdev := by
  induction vdevs with
  | nil => cases member
  | cons first rest inductionHypothesis =>
      have apart := List.nodup_cons.mp distinct
      rcases List.mem_cons.mp member with rfl | later
      · exact List.find?_cons_of_pos (decide_eq_true rfl)
      · rw [List.find?_cons_of_neg]
        · exact inductionHypothesis apart.2 later
        · rw [decide_eq_true_iff]
          exact fun same => apart.1 (same ▸ List.mem_map_of_mem later)

end Devices

/-- A device name with a closed text after it. -/
theorem vfsLookup_getcwd {vdev : Vdev} {tail : List UInt8} (sound : world.Sound files) (member : vdev ∈ world.vdevs)
    (target : vdev.target = .volume) (closed : Closed tail) :
    Meets (vfsLookup (vdev.devname ++ colon :: slash :: tail)) world
      ⟨fun node _ => node = .sfs blknRoot, fun _ _ => tail ≠ [], fun _ => blknRoot ∈ world.volume.inodeList ->
        tail ≠ []⟩ := by
  have name := sound.named vdev member
  have skip : skipSlashes (slash :: tail) = skipSlashes tail := List.dropWhile_cons_of_pos (by exact decide_eq_true rfl)
  have nothing : tail = [] -> skipSlashes tail = [] := fun empty => by rw [empty]; rfl
  unfold vfsLookup
  rw [getDevice_devname name.1 name.2.1 name.2.2, skip]
  unfold vfsGetRoot
  simp only [meets_bind, meets_get, meets_pure]
  rw [find_devname sound.devices member]
  dsimp only
  rw [target]
  dsimp only
  apply getRoot_meets sound.tree
  · exact fun _ absent present => absurd present absent
  · intro after loads
    rcases closed.skipSlashes with empty | inside
    · rw [empty]
      rfl
    · have present := List.ne_nil_of_mem inside
      have ready : after.Ready files (.sfs blknRoot) := ⟨loads.1, by rintro ino ⟨⟩; exact loads.2.1⟩
      rw [if_pos present]
      refine (descend_slash ready inside).mono (fun _ _ found => found.elim) ?_ ?_
      · exact fun _ _ _ empty => present (nothing empty)
      · exact fun _ _ _ empty => present (nothing empty)

/-- What `vfs_lookup` makes of the text of `vfs_getcwd`. -/
theorem getcwd_returns {resid ino : Nat} {text : List UInt8} {after later : World} (sound : world.Sound files)
    (pwd : world.pwd = some (.sfs ino)) (built : vfsGetcwd resid world = .done text after)
    (laterSound : later.Sound files)
    (vdevs : later.vdevs = world.vdevs) (laterPwd : later.pwd = world.pwd) :
    (Exists fun final => vfsLookup text later = .done (.sfs ino) final) <-> ino = blknRoot := by
  rcases (vfsGetcwd_meets sound pwd).of_done built with ⟨vdev, _, member, target, rfl, tail, rfl, closed, empty⟩
  rw [← vdevs] at member
  have lookup := vfsLookup_getcwd laterSound member target closed
  constructor
  · rintro ⟨final, found⟩
    exact Node.sfs.inj (lookup.of_done found)
  · intro root
    have loaded : blknRoot ∈ later.volume.inodeList := by
      rw [← root]
      exact (laterSound.pwd ino (laterPwd.trans pwd)).1
    have found : Meets (vfsLookup (vdev.devname ++ colon :: slash :: tail)) later
        ⟨fun node _ => node = .sfs blknRoot, fun _ _ => False, fun _ => False⟩ :=
      lookup.mono (fun _ _ same => same) (fun _ _ other => other (empty root))
        (fun _ other => other loaded (empty root))
    rcases found.returned with ⟨node, final, ran, rfl⟩
    exact ⟨final, by rw [root]; exact ran⟩

/-- `vfs_lookup` follows the paths of at most one name that end with it, and
those that cannot be walked; the text of `vfs_getcwd` leads back to the root
only. -/
theorem paths_resolve (sound : world.Sound files) :
    (forall path : PathText, FollowsWalk world path <-> path.Simple \/ ¬ Walkable world path) /\
    forall ino resid text after, world.pwd = some (.sfs ino) -> vfsGetcwd resid world = .done text after ->
      forall later : World, later.Sound files -> later.vdevs = world.vdevs -> later.pwd = world.pwd ->
        ((Exists fun final => vfsLookup text later = .done (.sfs ino) final) <-> ino = blknRoot) :=
  ⟨followsWalk_iff sound, fun _ _ _ _ pwd built _ laterSound vdevs laterPwd =>
    getcwd_returns sound pwd built laterSound vdevs laterPwd⟩

/-! ## A file in the root -/

/-- A path from the root of the boot file system. -/
def bootPath (parts : List (List UInt8 × Nat))
    (plain : forall part, part ∈ parts -> part.1 ≠ [] /\ forall letter, letter ∈ part.1 -> letter ≠ slash /\ letter ≠ 0)
    (apart : forall part, part ∈ parts.dropLast -> 0 < part.2) : PathText :=
  ⟨.boot, 0, parts, plain, apart, by rintro devname ⟨⟩, by rintro ⟨⟩⟩

/-- The path `/a` -/
def shortPath : PathText := bootPath [([97], 0)] (by decide +kernel) (by decide +kernel)

/-- The volume is mounted as `d`. -/
def mountedWorld (volume : SfsFs) : World where
  volume := volume
  openCount := fun _ => 0
  devices := fun _ => ⟨1, 0⟩
  vdevs := [⟨[100], .volume⟩]
  bootfs := some (.sfs blknRoot)
  pwd := none
  calls := 0
  grants := fun _ => true

theorem mountedWorld_sound {volume : SfsFs} (tree : Tree volume files) (loaded : blknRoot ∈ volume.inodeList) :
    (mountedWorld volume).Sound files where
  tree := tree
  devices := List.nodup_singleton _
  named := by
    intro vdev member
    cases List.mem_singleton.mp member
    decide
  pwd := by rintro ino ⟨⟩
  bootfs := by
    rintro ino ⟨⟩
    exact loaded

/-- In the image of a tree with one file, its path is followed. -/
theorem shortPath_follows : Exists fun volume => Exists fun files => (mountedWorld volume).Sound files /\
    FollowsWalk (mountedWorld volume) shortPath := by
  rcases Mksfs.largeImage_created with ⟨start, created, nextIno, ninos⟩
  have fits : Mksfs.TreeFits start (Mksfs.singleFile 0 []) := by
    apply Mksfs.singleFile_fits (by decide) (Nat.zero_le _)
    rw [nextIno, ninos]
    decide
  rcases Mksfs.createImg_succeeds created fits with ⟨fs, made⟩
  rcases Mksfs.createImg_finished created made with ⟨filled, packed, rfl⟩
  have empty := Mksfs.createSfs_created (Mksfs.singleFile 0 []) created
  have whole : Whole (Mksfs.singleFile 0 []) := by
    intro directory member
    cases List.mem_singleton.mp member
    decide
  rcases Mksfs.exists_loaded packed.sound packed.sound.accounted.root with ⟨volume, mounted, _, loaded⟩
  have tree := image_tree packed empty.sound.accounted.root empty.real whole mounted
  have sound := mountedWorld_sound tree loaded
  exact ⟨volume, _, sound, ((paths_resolve sound).1 shortPath).mpr (.inl (.inr ⟨[97], rfl⟩))⟩

/-! ## A file in a directory -/

/-- The inode of a directory of three entries. -/
def threeEntries (first : Nat) : DiskInode :=
  ⟨3 * blksize, typeDir, 1, 3, fun index => if index.val < 3 then first + index.val else 0, 0⟩

def nameBlock (ino : Nat) (name : List UInt8) : Bytes := fun k =>
  if k < 4 then numberBytes ino k else name.getD (k - 4) 0

/-- The root has a directory `a` with a file `b`. -/
def nestedBlock : Nat -> Bytes
  | 1 => encodeInode (threeEntries 3)
  | 3 => nameBlock 1 [46]
  | 4 => nameBlock 1 dotdot
  | 5 => nameBlock 6 [97]
  | 6 => encodeInode (threeEntries 7)
  | 7 => nameBlock 6 [46]
  | 8 => nameBlock 1 dotdot
  | 9 => nameBlock 10 [98]
  | 10 => encodeInode ⟨0, typeFile, 1, 0, fun _ => 0, 0⟩
  | _ => fun _ => 0

def nestedVolume : SfsFs where
  super := ⟨0x2f8dbe2a, 16, 5, fun _ => 0⟩
  freemap := ⟨16, fun block => decide (11 <= block /\ block < 16)⟩
  superDirty := false
  inodeList := [blknRoot]
  inode := fun ino => ⟨decodeInode (nestedBlock ino), false, 1, 1⟩
  device := ⟨16, blksize, nestedBlock, 0, fun _ => none⟩

/-- The path `/a/b` -/
def nestedPath : PathText := bootPath [([97], 1), ([98], 0)] (by decide +kernel) (by decide +kernel)

/-- The root, the directory and the file -/
def nestedFiles : List Nat := [blknRoot, 6, 10]

/-- The place that refers to a block -/
def nestedHome (blkno : Nat) : Place :=
  if blkno = 0 \/ blkno = 2 then .reserved blkno
  else if blkno = 1 \/ blkno = 6 \/ blkno = 10 then .inode blkno
  else if blkno < 6 then .direct blknRoot ⟨(blkno - 3) % ndirect, Nat.mod_lt _ (by decide)⟩
  else .direct 6 ⟨(blkno - 7) % ndirect, Nat.mod_lt _ (by decide)⟩

theorem nestedVolume_home {place : Place} {blkno : Nat} (held : nestedVolume.holds nestedFiles place = some blkno) :
    place = nestedHome blkno /\ blkno < 11 := by
  cases place with
  | reserved number =>
      have blocks : freemapBlocks nestedVolume.super = 1 := by decide
      rw [SfsFs.holds, blocks] at held
      split at held
      case isTrue reserved =>
        cases held
        have first : blkno = 0 \/ blkno = 2 := by
          unfold blknSuper blknFreemap at reserved
          omega
        rcases first with rfl | rfl <;> decide
      case isFalse => cases held
  | inode ino =>
      rw [SfsFs.holds] at held
      split at held
      case isTrue listed =>
        cases held
        exact (by decide : forall ino, ino ∈ nestedFiles -> Place.inode ino = nestedHome ino /\ ino < 11) _ listed
      case isFalse => cases held
  | direct ino index =>
      rw [SfsFs.holds] at held
      split at held
      case isTrue listed =>
        have homes : forall ino, ino ∈ nestedFiles -> forall index : Fin ndirect, forall blkno,
            blkno ∈ entryBlock ((nestedVolume.dinOf ino).direct index) ->
              Place.direct ino index = nestedHome blkno /\ blkno < 11 := by decide +kernel
        exact homes ino listed index blkno held
      case isFalse => cases held
  | indirect ino =>
      rw [SfsFs.holds] at held
      split at held
      case isTrue listed =>
        have none : forall ino, ino ∈ nestedFiles -> entryBlock (nestedVolume.dinOf ino).indirect = none := by
          decide +kernel
        cases (none ino listed).symm.trans held
      case isFalse => cases held
  | entry ino index =>
      rw [SfsFs.holds] at held
      split at held
      case isTrue listed =>
        have none : forall ino, ino ∈ nestedFiles -> (nestedVolume.dinOf ino).indirect = 0 := by decide +kernel
        exact absurd (none ino listed.1) listed.2.1
      case isFalse => cases held

theorem nestedVolume_owned : nestedVolume.Owned nestedFiles where
  accounted :=
    { exclusive :=
        { once := fun first second blkno held other => (nestedVolume_home held).1.trans (nestedVolume_home other).1.symm
          inUse := by
            intro place blkno held isFree
            have low := (nestedVolume_home held).2
            have high := of_decide_eq_true isFree
            omega }
      inRange := fun place blkno held => Nat.lt_of_lt_of_le (nestedVolume_home held).2 (by decide)
      bits := fun index isFree => (of_decide_eq_true isFree).2
      mapped := Nat.le_refl 16
      counted := by decide
      small := by decide }
  loaded := by decide

theorem nestedVolume_tree : Tree nestedVolume nestedFiles where
  kept := ⟨nestedVolume_owned, fun ino _ _ => rfl⟩
  plain := by decide +kernel
  root := by decide
  rootDir := by decide +kernel
  rootParent := ⟨1, by decide +kernel⟩

/-- The walk ends at the file, and `vfs_lookup` does not. -/
theorem nestedPath_not_followed : (mountedWorld nestedVolume).Sound nestedFiles /\
    ¬ FollowsWalk (mountedWorld nestedVolume) nestedPath := by
  refine ⟨mountedWorld_sound nestedVolume_tree (by decide), fun follows => ?_⟩
  have walked : (walkPath nestedPath (mountedWorld nestedVolume)).value = some (.sfs 10) := by decide +kernel
  have lost : (vfsLookup nestedPath.text (mountedWorld nestedVolume)).value = none := by decide +kernel
  rcases (follows _).mpr (Outcome.of_value walked) with ⟨after, found⟩
  rw [found] at lost
  cases lost

end Path
end Ucore
