import Ucore.Path.Borrowed

namespace Ucore
namespace Path

open Library
open Program
open Sfs

/-!
# Directories below each other

The directories of a volume form a tree when each but the root is listed in
one directory, under one name, and its entry `..` leads back there.  The way
from a directory up to the root then gives its name.
-/

def dot : List UInt8 := [46]

/-- A directory of the volume. -/
structure IsDir (fs : SfsFs) (files : List Nat) (dir : Nat) : Prop where
  member : dir ∈ files
  type : (fs.dinOf dir).type = typeDir

/-- The entry of a directory in a slot. -/
def entryIn (fs : SfsFs) (dir slot : Nat) : DiskEntry := fs.direntOf (fs.dinOf dir) slot

/-- The number of entries of a directory. -/
def entriesIn (fs : SfsFs) (dir : Nat) : Nat := nslots (fs.dinOf dir)

/-- A directory lists another one under a name. -/
structure Lists (fs : SfsFs) (files : List Nat) (parent child : Nat) (name : List UInt8) : Prop where
  parentDir : IsDir fs files parent
  childDir : IsDir fs files child
  used : child ≠ 0
  notDot : name ≠ dot
  notDotdot : name ≠ dotdot
  entry : Exists fun slot => slot < entriesIn fs parent /\ (entryIn fs parent slot).ino = child /\
    (entryIn fs parent slot).string = name

/-- The directories of the volume form a tree, with the entries `.` and `..`. -/
structure Hierarchy (fs : SfsFs) (files : List Nat) : Prop where
  root : IsDir fs files blknRoot
  rootUnlisted : forall parent name, ¬ Lists fs files parent blknRoot name
  linked : forall dir, IsDir fs files dir -> (fs.dinOf dir).nlinks ≠ 0
  mapped : forall dir, IsDir fs files dir -> forall slot, slot < entriesIn fs dir -> fs.Mapped (fs.dinOf dir) slot
  named : forall dir, IsDir fs files dir -> forall first second, first < entriesIn fs dir ->
    second < entriesIn fs dir -> (entryIn fs dir first).ino ≠ 0 -> (entryIn fs dir second).ino ≠ 0 ->
    (entryIn fs dir first).string = (entryIn fs dir second).string -> first = second
  dot : forall dir, IsDir fs files dir -> forall slot, slot < entriesIn fs dir ->
    (entryIn fs dir slot).ino ≠ 0 -> (entryIn fs dir slot).string = Path.dot -> (entryIn fs dir slot).ino = dir
  rootDotdot : Exists fun slot => searchEntries (entryIn fs blknRoot) dotdot (entriesIn fs blknRoot) 0 =
    some (blknRoot, slot)
  dotdot : forall parent child name, Lists fs files parent child name -> Exists fun slot =>
    searchEntries (entryIn fs child) Path.dotdot (entriesIn fs child) 0 = some (parent, slot)
  once : forall first second child name other, Lists fs files first child name ->
    Lists fs files second child other -> first = second /\ name = other

/-- The directories above one, the nearest first, and the names on the way
down to it. -/
inductive Chain (fs : SfsFs) (files : List Nat) : Nat -> List Nat -> List (List UInt8) -> Prop where
  | root : Chain fs files blknRoot [] []
  | under {parent child : Nat} {above : List Nat} {path : List (List UInt8)} {name : List UInt8} :
      Chain fs files parent above path -> Lists fs files parent child name ->
        Chain fs files child (parent :: above) (path ++ [name])

variable {fs : SfsFs} {files : List Nat} {parent child : Nat} {above : List Nat} {path : List (List UInt8)}
  {name : List UInt8}

theorem Chain.isDir (chain : Chain fs files child above path) (hierarchy : Hierarchy fs files) :
    IsDir fs files child := by
  cases chain with
  | root => exact hierarchy.root
  | under chain lists => exact lists.childDir

theorem Chain.ne_zero (chain : Chain fs files child above path) : child ≠ 0 := by
  cases chain with
  | root => decide
  | under chain lists => exact lists.used

theorem Chain.above_ne_zero (chain : Chain fs files child above path) : above.headD blknRoot ≠ 0 := by
  cases chain with
  | root => decide
  | under chain lists => exact chain.ne_zero

namespace Hierarchy

/-- There is one way from a directory to the root. -/
theorem chain_unique (hierarchy : Hierarchy fs files) {dir : Nat} (chain : Chain fs files dir above path) :
    forall {other : List Nat} {names : List (List UInt8)}, Chain fs files dir other names ->
      above = other /\ path = names := by
  induction chain with
  | root =>
      intro other names chain
      cases chain with
      | root => exact ⟨rfl, rfl⟩
      | under _ lists => exact absurd lists (hierarchy.rootUnlisted _ _)
  | under chain lists ih =>
      intro other names another
      cases another with
      | root => exact absurd lists (hierarchy.rootUnlisted _ _)
      | under second listed =>
          have same := hierarchy.once _ _ _ _ _ lists listed
          rcases same with ⟨rfl, rfl⟩
          have rest := ih second
          rw [rest.1, rest.2]
          exact ⟨rfl, rfl⟩

/-- A directory is neither above the one that lists it nor the same. -/
theorem apart (hierarchy : Hierarchy fs files) (chain : Chain fs files parent above path)
    (lists : Lists fs files parent child name) : child ≠ parent /\ child ≠ above.headD blknRoot := by
  have whole : Chain fs files child (parent :: above) (path ++ [name]) := .under chain lists
  constructor
  · rintro rfl
    have lengths := congrArg List.length (hierarchy.chain_unique chain whole).1
    rw [List.length_cons] at lengths
    omega
  · cases chain with
    | root =>
        rintro rfl
        exact hierarchy.rootUnlisted _ _ lists
    | under before listed =>
        rintro rfl
        have lengths := congrArg List.length (hierarchy.chain_unique before whole).1
        rw [List.length_cons, List.length_cons] at lengths
        omega

theorem dotdot_found (hierarchy : Hierarchy fs files) (chain : Chain fs files child above path) :
    Exists fun slot => searchEntries (entryIn fs child) Path.dotdot (entriesIn fs child) 0 =
      some (above.headD blknRoot, slot) := by
  cases chain with
  | root => exact hierarchy.rootDotdot
  | under chain lists => exact hierarchy.dotdot _ _ _ lists

/-- The entry of a directory in the one above it has its name. -/
theorem entry_name (hierarchy : Hierarchy fs files) (chain : Chain fs files parent above path)
    (lists : Lists fs files parent child name) {slot : Nat} (low : slot < entriesIn fs parent)
    (entry : (entryIn fs parent slot).ino = child) : (entryIn fs parent slot).string = name := by
  have used : (entryIn fs parent slot).ino ≠ 0 := entry ▸ lists.used
  have apart := hierarchy.apart chain lists
  by_cases isDot : (entryIn fs parent slot).string = Path.dot
  · exact absurd (entry.symm.trans (hierarchy.dot parent lists.parentDir slot low used isDot)) apart.1
  by_cases isDotdot : (entryIn fs parent slot).string = Path.dotdot
  · rcases hierarchy.dotdot_found chain with ⟨found, search⟩
    have leads := of_searchEntries search
    rw [Nat.zero_add] at leads
    have same := hierarchy.named parent lists.parentDir slot found low leads.2.1 used
      (leads.2.2.1 ▸ chain.above_ne_zero) (isDotdot.trans leads.2.2.2)
    rw [← same, entry] at leads
    exact absurd leads.2.2.1 apart.2
  · have listed : Lists fs files parent child (entryIn fs parent slot).string :=
      ⟨lists.parentDir, lists.childDir, lists.used, isDot, isDotdot, slot, low, entry, rfl⟩
    exact (hierarchy.once _ _ _ _ _ listed lists).2

end Hierarchy

/-! ## Looking for a number -/

section Findino

variable {sin ino : Nat} {stop : Fault -> Prop}

theorem findinoLoop_meets {count : Nat} : forall {slot : Nat} {fs : SfsFs}, fs.Owned files -> fs.Works ->
    sin ∈ fs.inodeList -> (fs.inode sin).din.type = typeDir -> slot + count <= (fs.inode sin).din.blocks ->
    (forall other, slot <= other -> other < slot + count -> fs.Mapped (fs.inode sin).din other) ->
    Meets (findinoLoop sin ino count slot) fs
      ⟨fun entry after => fs.Read after /\ entry.ino = ino /\ Exists fun found => found < slot + count /\
          entry = fs.direntOf (fs.inode sin).din found,
        fun _ after => fs.Read after /\ forall other, slot <= other -> other < slot + count ->
          (fs.direntOf (fs.inode sin).din other).ino ≠ ino,
        stop⟩ := by
  induction count with
  | zero =>
      intro slot fs _ _ _ _ _ _
      unfold findinoLoop
      rw [meets_throw]
      exact ⟨SfsFs.Read.refl fs, fun other low high => absurd low (by omega)⟩
  | succ count ih =>
      intro slot fs owned works loaded directory within mapped
      unfold findinoLoop
      rw [meets_bind]
      apply direntReadNolock_meets owned loaded
      · exact fun broken => absurd ⟨directory, by omega⟩ broken
      · exact fun hole => absurd (mapped slot (Nat.le_refl _) (by omega)) hole
      · exact fun broken => absurd works broken
      · intro _ _ after read
        simp only [meets_ite, meets_pure]
        by_cases here : (fs.direntOf (fs.inode sin).din slot).ino = ino
        · rw [if_pos here]
          exact ⟨read, here, slot, by omega, rfl⟩
        · rw [if_neg here]
          have inode := read.quiet.inode
          have rest := @ih (slot + 1) after (read.owned owned) (read.works works) (read.quiet.inodeList ▸ loaded)
            (inode ▸ directory) (by rw [inode]; omega)
            (fun other low high => by rw [inode]; exact read.mapped (mapped other (by omega) (by omega)))
          rw [read.direntOf, inode] at rest
          refine rest.mono ?_ ?_ (fun _ stopped => stopped)
          · rintro entry final ⟨more, same, found, low, entryAt⟩
            exact ⟨read.trans more, same, found, by omega, entryAt⟩
          · rintro error final ⟨more, absent⟩
            refine ⟨read.trans more, fun other low high => ?_⟩
            by_cases first : other = slot
            · rw [first]
              exact here
            · exact absent other (by omega) (by omega)

theorem direntFindinoNolock_borrowed {base world : World} {extra : Nat -> Nat} {spent : Nat}
    {fail : Errno -> World -> Prop} (borrowed : Borrowed files base extra spent world) (steady : base.Steady files)
    (hierarchy : Hierarchy base.volume files) (chain : Chain base.volume files parent above path)
    (lists : Lists base.volume files parent child name) (loaded : parent ∈ world.volume.inodeList) :
    Meets (onVolume (direntFindinoNolock parent child)) world
      ⟨fun entry after => entry.string = name /\ Borrowed files base extra spent after, fail, stop⟩ := by
  have din := borrowed.inode_din loaded
  have isDir := lists.parentDir
  have within : 0 + nslots (world.volume.inode parent).din <= (world.volume.inode parent).din.blocks := by
    unfold nslots
    split <;> omega
  unfold onVolume direntFindinoNolock getDin
  simp only [meets_zoom, meets_bind, meets_get, meets_pure]
  refine (findinoLoop_meets (borrowed.owned steady.owned) (borrowed.works steady.works) loaded (din ▸ isDir.type)
    within ?_).mono ?_ ?_ (fun _ stopped => stopped)
  · intro slot _ high
    rw [din]
    exact borrowed.mapped (hierarchy.mapped parent isDir slot (by rw [din] at high; rw [entriesIn]; omega))
  · rintro entry after ⟨reads, same, slot, low, rfl⟩
    rw [din, borrowed.direntOf] at same ⊢
    rw [din] at low
    exact ⟨hierarchy.entry_name chain lists (by rw [entriesIn]; omega) same, borrowed.read reads⟩
  · rintro error after ⟨reads, absent⟩
    rcases lists.entry with ⟨slot, low, entry, _⟩
    rw [entriesIn] at low
    have missing := absent slot (Nat.zero_le _) (by rw [din]; omega)
    rw [din, borrowed.direntOf] at missing
    exact absurd entry missing

end Findino

end Path
end Ucore
