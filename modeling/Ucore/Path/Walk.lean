import Ucore.Path.Lookup
import Ucore.Sfs.Keeping

namespace Ucore
namespace Path

open Library
open Program
open Sfs

/-!
# Walking a path

A path is a starting point and names with slashes between them.  To walk it is
to look up its names one after the other.
-/

/-! ## Path texts -/

/-- Where a path starts. -/
inductive Start where
  | device (devname : List UInt8)
  | boot
  | root
  | cwd

def Start.text : Start -> List UInt8
  | .device devname => devname ++ [colon]
  | .boot => [slash]
  | .root => [colon]
  | .cwd => []

def Start.node : Start -> Call Node
  | .device devname => vfsGetRoot devname
  | .boot => vfsGetBootfs
  | .root => currentRoot
  | .cwd => vfsGetCurdir

/-- A starting point, slashes, and names that are each followed by a number of
slashes.  A name in the current directory has no colon when it comes first,
since the text would then start with a device. -/
structure PathText where
  start : Start
  lead : Nat
  parts : List (List UInt8 × Nat)
  plain : forall part, part ∈ parts -> part.1 ≠ [] /\ forall letter, letter ∈ part.1 -> letter ≠ slash /\ letter ≠ 0
  apart : forall part, part ∈ parts.dropLast -> 0 < part.2
  named : forall devname, start = .device devname -> devname ≠ [] /\ colon ∉ devname /\ slash ∉ devname
  relative : start = .cwd -> lead = 0 /\ forall part, parts.head? = some part -> colon ∉ part.1

namespace PathText

/-- The text after the starting point. -/
def rest (path : PathText) : List UInt8 := path.parts.flatMap (fun part => part.1 ++ List.replicate part.2 slash)

def text (path : PathText) : List UInt8 := path.start.text ++ List.replicate path.lead slash ++ path.rest

def names (path : PathText) : List (List UInt8) := path.parts.map Prod.fst

/-- No name, or one name without a slash after it.  `sfs_lookup` takes whatever
else there is for a single name. -/
def Simple (path : PathText) : Prop := path.parts = [] \/ Exists fun name => path.parts = [(name, 0)]

end PathText

/-- The names are looked up one after the other. -/
def walk : Node -> List (List UInt8) -> Call Node
  | node, [] => pure node
  | node, name :: rest => do
      let next <- descend node name
      walk next rest

def walkPath (path : PathText) : Call Node := do
  let node <- path.start.node
  walk node path.names

/-! ## Taking a path apart -/

theorem scanPath_append {plain rest : List UInt8} (i : Nat)
    (letters : forall letter, letter ∈ plain -> letter ≠ colon /\ letter ≠ slash) :
    scanPath i (plain ++ rest) = scanPath (i + plain.length) rest := by
  induction plain generalizing i with
  | nil => rfl
  | cons letter plain inductionHypothesis =>
      have first := letters letter (List.mem_cons_self ..)
      rw [List.cons_append, scanPath, if_neg first.1, if_neg first.2,
        inductionHypothesis (i + 1) fun other member => letters other (List.mem_cons_of_mem _ member),
        List.length_cons, Nat.add_right_comm, Nat.add_assoc]

theorem skipSlashes_replicate (count : Nat) {rest : List UInt8} (first : rest.head? ≠ some slash) :
    skipSlashes (List.replicate count slash ++ rest) = rest := by
  induction count with
  | zero =>
      cases rest with
      | nil => rfl
      | cons letter rest =>
          have other : letter ≠ slash := fun same => first (by rw [same]; rfl)
          unfold skipSlashes
          rw [List.replicate_zero, List.nil_append, List.dropWhile_cons_of_neg]
          rw [decide_eq_true_iff]
          exact other
  | succ count inductionHypothesis =>
      unfold skipSlashes at *
      rw [List.replicate_succ, List.cons_append, List.dropWhile_cons_of_pos]
      · exact inductionHypothesis
      · exact decide_eq_true rfl

namespace PathText

theorem rest_head (path : PathText) : path.rest.head? ≠ some slash := by
  unfold rest
  cases parts : path.parts with
  | nil => exact (Option.some_ne_none slash).symm
  | cons part others =>
      have plain := path.plain part (by rw [parts]; exact List.mem_cons_self ..)
      cases name : part.1 with
      | nil => exact absurd name plain.1
      | cons letter letters =>
          have other := (plain.2 letter (by rw [name]; exact List.mem_cons_self ..)).1
          rw [List.flatMap_cons, name]
          exact fun same => other (Option.some.inj same)

end PathText

section Device

variable {path : List UInt8} {i : Nat} {slashAt : Option Nat}

theorem getDevice_relative (scan : scanPath 0 path = (none, slashAt)) (later : slashAt ≠ some 0) :
    getDevice path = vfsGetCurdir >>= fun node => pure (path, node) := by
  unfold getDevice
  rw [scan]
  exact if_pos ⟨rfl, later⟩

theorem getDevice_device (scan : scanPath 0 path = (some (i + 1), slashAt)) :
    getDevice path = vfsGetRoot (path.take (i + 1)) >>= fun node => pure (skipSlashes (path.drop (i + 2)), node) := by
  unfold getDevice
  rw [scan]
  rfl

/-- A device name before a colon. -/
theorem getDevice_devname {devname tail : List UInt8} (nonempty : devname ≠ []) (noColon : colon ∉ devname)
    (noSlash : slash ∉ devname) : getDevice (devname ++ colon :: tail) =
      vfsGetRoot devname >>= fun node => pure (skipSlashes tail, node) := by
  have letters : forall letter, letter ∈ devname -> letter ≠ colon /\ letter ≠ slash :=
    fun letter member => ⟨fun same => noColon (same ▸ member), fun same => noSlash (same ▸ member)⟩
  cases length : devname.length with
  | zero => exact absurd (List.length_eq_zero_iff.mp length) nonempty
  | succ i =>
      have scan : scanPath 0 (devname ++ colon :: tail) = (some (i + 1), none) := by
        rw [scanPath_append 0 letters, Nat.zero_add, length, scanPath, if_pos rfl]
      have after : (devname ++ colon :: tail).drop (i + 2) = tail := by
        rw [show i + 2 = devname.length + 1 by omega, ← List.drop_drop, List.drop_left' rfl]
        rfl
      rw [getDevice_device scan, List.take_left' length, after]

theorem getDevice_slash (scan : scanPath 0 path = (none, some 0)) (head : path.head? = some slash) :
    getDevice path = vfsGetBootfs >>= fun node => pure (skipSlashes (path.drop 1), node) := by
  unfold getDevice
  rw [scan, head]
  rfl

theorem getDevice_colon (scan : scanPath 0 path = (some 0, slashAt)) (head : path.head? = some colon) :
    getDevice path = currentRoot >>= fun node => pure (skipSlashes (path.drop 1), node) := by
  unfold getDevice
  rw [scan, head]
  rfl

end Device

namespace PathText

/-- In the current directory, neither a colon nor a leading slash comes
first. -/
theorem scan_rest (path : PathText) (first : forall part, path.parts.head? = some part -> colon ∉ part.1) :
    Exists fun slashAt => scanPath 0 path.rest = (none, slashAt) /\ slashAt ≠ some 0 := by
  unfold rest
  cases parts : path.parts with
  | nil => exact ⟨none, rfl, (Option.some_ne_none 0).symm⟩
  | cons part others =>
      have plain := path.plain part (by rw [parts]; exact List.mem_cons_self ..)
      have noColon := first part (by rw [parts]; rfl)
      have positive := List.length_pos_iff.mpr plain.1
      have letters : forall letter, letter ∈ part.1 -> letter ≠ colon /\ letter ≠ slash :=
        fun letter member => ⟨fun same => noColon (same ▸ member), (plain.2 letter member).1⟩
      rw [List.flatMap_cons, List.append_assoc, scanPath_append 0 letters, Nat.zero_add]
      cases count : part.2 with
      | succ count =>
          refine ⟨some part.1.length, ?_, fun same => absurd (Option.some.inj same) (by omega)⟩
          rw [List.replicate_succ, List.cons_append, scanPath, if_neg (by decide), if_pos rfl]
      | zero =>
          have last : others = [] := by
            cases others with
            | nil => rfl
            | cons next more =>
                have between := path.apart part (by rw [parts]; exact List.mem_cons_self ..)
                omega
          rw [last]
          exact ⟨none, rfl, (Option.some_ne_none 0).symm⟩

theorem getDevice_text (path : PathText) :
    getDevice path.text = path.start.node >>= fun node => pure (path.rest, node) := by
  have skipped := skipSlashes_replicate path.lead path.rest_head
  unfold text
  cases start : path.start with
  | device devname =>
      rcases path.named devname start with ⟨nonempty, noColon, noSlash⟩
      have whole : (Start.device devname).text ++ List.replicate path.lead slash ++ path.rest =
          devname ++ colon :: (List.replicate path.lead slash ++ path.rest) := by
        change devname ++ [colon] ++ _ ++ _ = _
        rw [List.append_assoc, List.append_assoc]
        rfl
      rw [whole, getDevice_devname nonempty noColon noSlash, skipped]
      rfl
  | boot =>
      have scan : scanPath 0 (slash :: (List.replicate path.lead slash ++ path.rest)) = (none, some 0) := rfl
      change getDevice (slash :: (List.replicate path.lead slash ++ path.rest)) = _
      rw [getDevice_slash scan rfl, List.drop_one, List.tail_cons, skipped]
      rfl
  | root =>
      have scan : scanPath 0 (colon :: (List.replicate path.lead slash ++ path.rest)) = (some 0, none) := rfl
      change getDevice (colon :: (List.replicate path.lead slash ++ path.rest)) = _
      rw [getDevice_colon scan rfl, List.drop_one, List.tail_cons, skipped]
      rfl
  | cwd =>
      rcases path.relative start with ⟨lead, first⟩
      rcases path.scan_rest first with ⟨slashAt, scan, later⟩
      rw [lead]
      exact getDevice_relative scan later

theorem rest_eq_nil (path : PathText) : path.rest = [] <-> path.parts = [] := by
  unfold rest
  cases parts : path.parts with
  | nil => exact ⟨fun _ => rfl, fun _ => rfl⟩
  | cons part others =>
      have plain := path.plain part (by rw [parts]; exact List.mem_cons_self ..)
      constructor
      · intro empty
        rw [List.flatMap_cons, List.append_assoc] at empty
        exact absurd (List.append_eq_nil_iff.mp empty).1 plain.1
      · exact fun same => absurd same (List.cons_ne_nil _ _)

/-- A path that is not simple has a slash after a name. -/
theorem slash_mem_rest (path : PathText) (several : ¬ path.Simple) : slash ∈ path.rest := by
  unfold rest
  cases parts : path.parts with
  | nil => exact absurd (.inl parts) several
  | cons part others =>
      have after : part.2 ≠ 0 := by
        intro none
        cases others with
        | nil =>
            refine several (.inr ⟨part.1, ?_⟩)
            rw [parts, ← none]
        | cons next more =>
            have between := path.apart part (by rw [parts]; exact List.mem_cons_self ..)
            omega
      rw [List.flatMap_cons]
      exact List.mem_append_left _ (List.mem_append_right _ (List.mem_replicate.mpr ⟨after, rfl⟩))

/-- `vfs_lookup` of a path gives the whole rest to its starting point. -/
theorem vfsLookup_text (path : PathText) : vfsLookup path.text =
    path.start.node >>= fun node => if path.rest ≠ [] then descend node path.rest else pure node := by
  unfold vfsLookup
  rw [getDevice_text, bind_assoc]
  rfl

/-- A simple path is looked up as it is walked. -/
theorem vfsLookup_simple (path : PathText) (simple : path.Simple) : vfsLookup path.text = walkPath path := by
  rw [vfsLookup_text]
  unfold walkPath names
  rcases simple with none | ⟨name, one⟩
  · rw [path.rest_eq_nil.mpr none, none]
    rfl
  · have nonempty : name ≠ [] := (path.plain (name, 0) (by rw [one]; exact List.mem_singleton_self _)).1
    have rest : path.rest = name := by
      unfold PathText.rest
      rw [one]
      simp
    rw [rest, one]
    refine congrArg (path.start.node >>= ·) ?_
    funext node
    rw [if_pos nonempty]
    exact (bind_pure _).symm

end PathText

/-! ## A tree on the volume -/

/-- Nothing on the volume has changed that a path depends on. -/
structure Browsed (fs after : SfsFs) : Prop where
  dinOf : after.dinOf = fs.dinOf
  block : after.device.block = fs.device.block
  listed : forall ino, ino ∈ fs.inodeList -> ino ∈ after.inodeList

/-- The directories make a tree: no name has a slash in it, and the root is a
directory that is its own parent. -/
structure Tree (fs : SfsFs) (files : List Nat) : Prop where
  kept : fs.Kept files
  plain : forall dir, dir ∈ files -> (fs.dinOf dir).type = typeDir -> forall slot, slot < nslots (fs.dinOf dir) ->
    slash ∉ (fs.direntOf (fs.dinOf dir) slot).string
  root : blknRoot ∈ files
  rootDir : (fs.dinOf blknRoot).type = typeDir
  rootParent : Exists fun slot =>
    searchEntries (fs.direntOf (fs.dinOf blknRoot)) dotdot (nslots (fs.dinOf blknRoot)) 0 = some (blknRoot, slot)

section Browsing

variable {fs middle after : SfsFs} {files : List Nat} {ino : Nat} {fail : Errno -> SfsFs -> Prop} {stop : Fault -> Prop}

theorem Browsed.refl (fs : SfsFs) : Browsed fs fs := ⟨rfl, rfl, fun _ listed => listed⟩

theorem Browsed.trans (first : Browsed fs middle) (second : Browsed middle after) : Browsed fs after where
  dinOf := second.dinOf.trans first.dinOf
  block := second.block.trans first.block
  listed := fun ino listed => second.listed ino (first.listed ino listed)

theorem Browsed.direntOf (browsed : Browsed fs after) : after.direntOf = fs.direntOf := by
  funext din slot
  unfold SfsFs.direntOf SfsFs.blockOf SfsFs.entryOf
  rw [browsed.block]

theorem Tree.browsed (tree : Tree fs files) (browsed : Browsed fs after) (kept : after.Kept files) :
    Tree after files where
  kept := kept
  plain := by
    rw [browsed.dinOf, browsed.direntOf]
    exact tree.plain
  root := tree.root
  rootDir := by
    rw [browsed.dinOf]
    exact tree.rootDir
  rootParent := by
    rw [browsed.dinOf, browsed.direntOf]
    exact tree.rootParent

/-- The counts of a loaded inode do not matter. -/
theorem Tree.setInode (tree : Tree fs files) (loaded : ino ∈ fs.inodeList) {value : Inode}
    (same : value.din = (fs.inode ino).din) (dirty : value.dirty = (fs.inode ino).dirty) :
    Tree (fs.setInode ino value) files := by
  have browsed : Browsed fs (fs.setInode ino value) := by
    refine ⟨?_, rfl, fun _ listed => listed⟩
    funext other
    unfold SfsFs.dinOf
    change (if other ∈ fs.inodeList then ((fs.setInode ino value).inode other).din else _) = _
    by_cases here : other = ino
    · subst here
      rw [if_pos loaded, if_pos loaded, SfsFs.inode_setInode, same]
    · rw [SfsFs.inode_setInode_of_ne fs here]
      rfl
  refine tree.browsed browsed (tree.kept.setInode loaded ?_ ?_)
  · rw [same]
  · exact fun clean => dirty.symm.trans clean

end Browsing

/-! ## Starting points in a tree -/

/-- The volume holds a tree, the inodes that a path can start from are held,
and the device names can be told apart. -/
structure World.Sound (world : World) (files : List Nat) : Prop where
  tree : Tree world.volume files
  devices : (world.vdevs.map Vdev.devname).Nodup
  named : forall vdev, vdev ∈ world.vdevs -> vdev.devname ≠ [] /\ colon ∉ vdev.devname /\ slash ∉ vdev.devname
  pwd : forall ino, world.pwd = some (.sfs ino) -> ino ∈ world.volume.inodeList /\
    1 <= (world.volume.inode ino).refCount
  bootfs : forall ino, world.bootfs = some (.sfs ino) -> ino ∈ world.volume.inodeList

/-- A lookup can start from the inode. -/
def World.Ready (files : List Nat) (node : Node) (world : World) : Prop :=
  Tree world.volume files /\ forall ino, node = .sfs ino -> ino ∈ world.volume.inodeList

section Starting

variable {world : World} {files : List Nat} {fail : Errno -> World -> Prop} {stop : Fault -> Prop}

theorem refInc_meets {node : Node} {done : Unit -> World -> Prop} (tree : Tree world.volume files)
    (held : forall ino, node = .sfs ino -> ino ∈ world.volume.inodeList)
    (counted : forall after, Tree after.volume files -> after.volume.inodeList = world.volume.inodeList ->
      after.vdevs = world.vdevs ->
      (forall ino, node = .sfs ino -> (after.volume.inode ino).refCount = (world.volume.inode ino).refCount + 1) ->
      done () after) : Meets (refInc node) world ⟨done, fail, stop⟩ := by
  unfold refInc onVolume
  cases node with
  | sfs ino =>
      simp only [meets_zoom, meets_modify]
      apply counted
      · exact tree.setInode (held ino rfl) rfl rfl
      · rfl
      · rfl
      · intro other same
        cases same
        exact congrArg Inode.refCount (SfsFs.inode_setInode ..)
  | device number =>
      rw [meets_modify]
      exact counted _ tree rfl rfl (fun ino same => by cases same)

/-- A loaded inode is what was on the disk. -/
theorem Tree.withInode {fs : SfsFs} {ino : Nat} {value : Inode} (tree : Tree fs files) (member : ino ∈ files)
    (unloaded : ino ∉ fs.inodeList) (read : value.din = decodeInode (fs.device.block ino)) :
    Tree (fs.withInode ino value) files := by
  have here : (fs.withInode ino value).inode ino = value := SfsFs.inode_setInode ..
  have browsed : Browsed fs (fs.withInode ino value) := by
    refine ⟨?_, rfl, fun _ listed => List.mem_cons_of_mem _ listed⟩
    funext other
    unfold SfsFs.dinOf
    change (if other ∈ ino :: fs.inodeList then _ else _) = _
    by_cases same : other = ino
    · subst same
      rw [if_pos List.mem_cons_self, if_neg unloaded, here, read]
    · have listed : other ∈ ino :: fs.inodeList <-> other ∈ fs.inodeList := by simp [same]
      have inode : (fs.withInode ino value).inode other = fs.inode other := SfsFs.inode_setInode_of_ne fs same _
      rw [inode]
      exact if_congr listed rfl rfl
  exact tree.browsed browsed (tree.kept.withInode member unloaded read)

theorem Tree.tick {fs : SfsFs} (tree : Tree fs files) : Tree fs.tick files :=
  tree.browsed ⟨rfl, rfl, fun _ listed => listed⟩ ((SfsFs.Quiet.tick fs).kept tree.kept)

/-- `sfs_load_inode` leaves the tree as it is. -/
theorem loadInode_meets {ino : Nat} {dinAlloc nodeAlloc : Bool} {fs : SfsFs} {stop : Fault -> Prop}
    (tree : Tree fs files) (member : ino ∈ files) (stopped : forall fault, ino ∉ fs.inodeList -> stop fault) :
    Meets (loadInode ino dinAlloc nodeAlloc) fs
      ⟨fun _ after => Tree after files /\ ino ∈ after.inodeList /\ (forall other, other ∈ fs.inodeList ->
          other ∈ after.inodeList /\ (fs.inode other).refCount <= (after.inode other).refCount),
        fun _ _ => ino ∉ fs.inodeList, stop⟩ := by
  have held : fs.holds files (.inode ino) = some ino := if_pos member
  have owned := tree.kept.owned
  have valid := owned.valid held (by simp)
  unfold loadInode
  simp only [meets_bind, meets_get, meets_ite, meets_modify, meets_throw, meets_halt, meets_assert]
  by_cases listed : ino ∈ fs.inodeList
  · rw [if_pos listed]
    refine ⟨tree.setInode listed rfl rfl, listed, fun other there => ⟨there, ?_⟩⟩
    by_cases same : other = ino
    · subst same
      rw [SfsFs.inode_setInode]
      change _ <= (fs.inode other).refCount + 1
      omega
    · have kept := SfsFs.inode_setInode_of_ne fs same
      exact Int.le_of_eq (congrArg (fun inode => inode.refCount) (kept _).symm)
  · rw [if_neg listed]
    split
    · exact listed
    · apply assertInuse_meets valid (owned.lt_nbits valid.2.1) (owned.inUse held)
      apply rbuf_meets valid (by decide) (by decide)
      · exact fun _ _ => listed
      · intro _
        refine ⟨fun _ => ?_, fun _ => stopped _ listed⟩
        split
        · exact listed
        · split
          · exact stopped _ listed
          · have read : decodeInode (fun k => fs.device.block ino (0 + k)) =
              decodeInode (fs.tick.device.block ino) := by
              simp only [Nat.zero_add]
              rfl
            refine ⟨tree.tick.withInode member listed read, List.mem_cons_self, fun other there => ?_⟩
            have different : other ≠ ino := fun same => listed (same ▸ there)
            refine ⟨List.mem_cons_of_mem _ there, ?_⟩
            have inode := SfsFs.inode_setInode_of_ne fs.tick different
              ⟨decodeInode (fun k => fs.device.block ino (0 + k)), false, 1, 1⟩
            change _ <= ((fs.tick.setInode ino ⟨decodeInode (fun k => fs.device.block ino (0 + k)), false, 1, 1⟩).inode
              other).refCount
            rw [inode]
            exact Int.le_refl _

/-- What loading an inode does. -/
def World.Loads (files : List Nat) (ino : Nat) (world after : World) : Prop :=
  Tree after.volume files /\ ino ∈ after.volume.inodeList /\ (forall other, other ∈ world.volume.inodeList ->
    other ∈ after.volume.inodeList /\ (world.volume.inode other).refCount <= (after.volume.inode other).refCount)

theorem load_meets {ino : Nat} (tree : Tree world.volume files) (member : ino ∈ files)
    (stopped : forall fault, ino ∉ world.volume.inodeList -> stop fault) :
    Meets (load ino) world
      ⟨fun _ after => world.Loads files ino after, fun _ _ => ino ∉ world.volume.inodeList, stop⟩ := by
  unfold load onVolume kmalloc
  simp only [meets_bind, meets_get, meets_ite, meets_zoom, meets_modify, meets_pure]
  by_cases listed : ino ∈ world.volume.inodeList
  · rw [if_pos listed]
    exact (loadInode_meets tree member stopped).mono (fun _ _ loads => loads) (fun _ _ failed => failed)
      (fun _ stopped => stopped)
  · rw [if_neg listed]
    split <;>
      exact (loadInode_meets tree member stopped).mono (fun _ _ loads => loads) (fun _ _ failed => failed)
        (fun _ stopped => stopped)

/-- `sfs_get_root`; it stops unless the root can be loaded. -/
theorem getRoot_meets {done : Node -> World -> Prop} (tree : Tree world.volume files)
    (stopped : forall fault, blknRoot ∉ world.volume.inodeList -> stop fault)
    (loaded : forall after, world.Loads files blknRoot after -> done (.sfs blknRoot) after) :
    Meets getRoot world ⟨done, fail, stop⟩ := by
  unfold getRoot
  simp only [meets_bind, meets_attempt]
  refine (load_meets tree tree.root stopped).mono ?_ ?_ (fun _ stops => stops)
  · exact fun _ after loads => loaded after loads
  · exact fun _ _ absent => stopped _ absent

/-- A count that does not drop to zero. -/
theorem refDec_meets {ino : Nat} {done : Unit -> World -> Prop} (tree : Tree world.volume files)
    (held : ino ∈ world.volume.inodeList) (more : 2 <= (world.volume.inode ino).refCount)
    (returns : forall after, Tree after.volume files -> after.volume.inodeList = world.volume.inodeList ->
      done () after) : Meets (refDec (.sfs ino)) world ⟨done, fail, stop⟩ := by
  have refs : world.refs (.sfs ino) = (world.volume.inode ino).refCount := rfl
  unfold refDec onVolume
  simp only [meets_bind, meets_get, meets_ite, meets_zoom]
  rw [if_neg (by omega)]
  unfold Sfs.refDec
  simp only [meets_bind, meets_get, meets_assert, meets_modify, meets_ite, meets_pure]
  refine ⟨fun _ => ?_, fun broken => absurd (by omega) broken⟩
  have count := congrArg Inode.refCount (SfsFs.inode_setInode world.volume ino
    { world.volume.inode ino with refCount := (world.volume.inode ino).refCount - 1 })
  rw [if_neg (by rw [count]; change ¬ (world.volume.inode ino).refCount - 1 = 0; omega)]
  exact returns _ (tree.setInode held rfl rfl) rfl

/-- The current directory gets one more reference. -/
theorem vfsGetCurdir_meets {done : Node -> World -> Prop} (sound : world.Sound files)
    (absent : fail .noEnt world)
    (held : forall node after, world.pwd = some node -> Tree after.volume files ->
      after.volume.inodeList = world.volume.inodeList -> after.vdevs = world.vdevs ->
      (forall ino, node = .sfs ino -> ino ∈ world.volume.inodeList /\ 2 <= (after.volume.inode ino).refCount) ->
      done node after) : Meets vfsGetCurdir world ⟨done, fail, stop⟩ := by
  unfold vfsGetCurdir
  simp only [meets_bind, meets_get]
  cases pwd : world.pwd with
  | none => exact absent
  | some node =>
      have loaded : forall ino, node = .sfs ino ->
          ino ∈ world.volume.inodeList /\ 1 <= (world.volume.inode ino).refCount := by
        rintro ino rfl
        exact sound.pwd ino pwd
      simp only [meets_bind, meets_pure]
      apply refInc_meets sound.tree (fun ino same => (loaded ino same).1)
      intro after tree listed vdevs counts
      refine held node after pwd tree listed vdevs fun ino same => ⟨(loaded ino same).1, ?_⟩
      have count := counts ino same
      have before := (loaded ino same).2
      omega

/-- Every starting point is ready for a lookup. -/
theorem start_meets (start : Start) (sound : world.Sound files) :
    Meets start.node world ⟨fun node after => after.Ready files node, fun _ _ => True, fun _ => True⟩ := by
  have root : Meets getRoot world ⟨fun node after => after.Ready files node, fun _ _ => True, fun _ => True⟩ := by
    apply getRoot_meets sound.tree (fun _ _ => trivial)
    intro after loads
    refine ⟨loads.1, ?_⟩
    rintro ino ⟨⟩
    exact loads.2.1
  cases start with
  | device devname =>
      unfold Start.node vfsGetRoot
      simp only [meets_bind, meets_get]
      cases world.vdevs.find? (fun vdev => decide (devname = vdev.devname)) with
      | none => trivial
      | some vdev =>
          dsimp only
          cases vdev.target with
          | volume => exact root
          | unmounted => trivial
          | device number =>
              simp only [meets_bind, meets_pure]
              apply refInc_meets sound.tree (by rintro ino ⟨⟩)
              intro after tree _ _ _
              refine ⟨tree, ?_⟩
              rintro ino ⟨⟩
  | boot =>
      unfold Start.node vfsGetBootfs
      simp only [meets_bind, meets_get]
      cases bootfs : world.bootfs with
      | none => trivial
      | some node =>
          have held : forall ino, node = .sfs ino -> ino ∈ world.volume.inodeList := by
            rintro ino rfl
            exact sound.bootfs ino bootfs
          simp only [meets_bind, meets_pure]
          apply refInc_meets sound.tree held
          exact fun after tree listed _ _ => ⟨tree, fun ino same => listed ▸ held ino same⟩
  | cwd =>
      apply vfsGetCurdir_meets sound trivial
      intro node after _ tree listed _ counts
      refine ⟨tree, fun ino same => ?_⟩
      rw [listed]
      exact (counts ino same).1
  | root =>
      unfold Start.node currentRoot
      simp only [meets_bind, meets_assert, meets_pure]
      apply vfsGetCurdir_meets sound trivial
      intro node after _ tree listed _ counts
      refine ⟨fun hasFs => ?_, fun _ => trivial⟩
      cases node with
      | device number => cases hasFs
      | sfs ino =>
          have count := counts ino rfl
          apply getRoot_meets tree (fun _ _ => trivial)
          intro final loads
          have here := loads.2.2 ino (by rw [listed]; exact count.1)
          apply refDec_meets loads.1 here.1 (by omega)
          intro last treeLast listedLast
          refine ⟨treeLast, ?_⟩
          rintro other ⟨⟩
          rw [listedLast]
          exact loads.2.1

/-! ## Names with slashes -/

/-- No directory has an entry with a slash in its name. -/
theorem vopLookup_slash {node : Node} {path : List UInt8} (ready : world.Ready files node) (inside : slash ∈ path) :
    Meets (vopLookup node path) world ⟨fun _ _ => False, fun _ _ => True, fun _ => True⟩ := by
  cases node with
  | device number =>
      unfold vopLookup devLookup inodeCheck
      simp only [meets_bind, meets_get, meets_assert, meets_ite, meets_throw]
      refine ⟨fun _ => ⟨fun _ => ?_, fun _ => trivial⟩, fun _ => trivial⟩
      rw [if_pos (List.ne_nil_of_mem inside)]
      trivial
  | sfs ino =>
      have held := ready.2 ino rfl
      unfold vopLookup sfsLookup inodeCheck
      simp only [meets_bind, meets_get, meets_assert, meets_ite, meets_throw, meets_ensuring, meets_pure]
      refine ⟨fun directory => ⟨fun _ => ⟨fun _ => ⟨fun _ => ?_, fun _ => trivial⟩, fun _ => trivial⟩,
        fun _ => trivial⟩, fun _ => trivial⟩
      apply refInc_meets ready.1 (fun other same => by cases same; exact held)
      intro after tree listed _ _
      rw [← listed] at held
      split
      · exact Meets.any ..
      · rename_i isDir
        rw [not_not] at isDir
        have din : after.volume.dinOf ino = (after.volume.inode ino).din := if_pos held
        have member := tree.kept.owned.loaded ino held
        unfold lookupOnce onVolume kmalloc
        simp only [meets_bind, meets_get, meets_modify, meets_pure, meets_zoom]
        refine (direntSearchNolock_meets tree.kept.owned held isDir ?_ ?_).mono ?_ (fun _ _ _ => Meets.any ..)
          (fun _ stopped => stopped)
        · exact fun _ _ => trivial
        · exact fun _ _ _ _ => trivial
        rintro found final ⟨_, result⟩
        have entry := of_searchEntries result
        rw [← din, Nat.zero_add] at entry
        have plain := tree.plain ino member (din ▸ isDir) found.2 entry.2.1
        rw [← entry.2.2.2] at plain
        exact absurd inside plain

end Starting

end Path
end Ucore
