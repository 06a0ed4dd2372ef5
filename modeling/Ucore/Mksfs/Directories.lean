import Ucore.Mksfs.Packing

namespace Ucore
namespace Mksfs

open Library
open Program
open Sfs

/-!
# Packing a tree

The induction over the directories of the host.  When the numbers suffice and
the names and sizes are accepted, the whole tree is packed.
-/

variable {home : HostTree} {fs middle after : SfsFs} {current bound : Nat}

/-! ## Parts of the tree -/

/-- A part of the tree that is packed. -/
structure Part (home : HostTree) (dir : HostDir) : Prop where
  files : dir.files ⊆ home.root.files
  links : dir.links ⊆ home.root.links
  dirs : dir.dirs ⊆ home.root.dirs
  once : dir.dirs.Nodup

/-- No directory of the part is on the volume yet. -/
def Unvisited (fs : SfsFs) (dir : HostDir) : Prop :=
  forall file, file ∈ fs.cacheInodes -> (fs.inode file).real ∉ dir.dirs

/-- The numbers suffice, and the names and sizes are accepted. -/
def Fits (fs : SfsFs) (current : Nat) (dir : HostDir) : Prop :=
  fs.nextIno + dir.cost <= fs.ninos /\ (fs.inode current).nblks + dir.entries.length <= lnNblks /\ dir.Accepted

def HostItem.reals (what : HostItem) : List Nat := what.files.map Prod.fst ++ what.links

theorem mem_reals {dir : HostDir} {real : Nat} :
    real ∈ dir.reals <-> real ∈ dir.files.map Prod.fst \/ real ∈ dir.links \/ real ∈ dir.dirs := by
  unfold HostDir.reals
  rw [List.mem_append, List.mem_append, or_assoc]

section Parts

variable {name : HostName} {what : HostItem} {inner rest : HostDir} {real : Nat}

theorem Part.item_rest (part : Part home (.item name what rest)) : Part home rest where
  files := fun _ member => part.files (List.mem_append_right _ member)
  links := fun _ member => part.links (List.mem_append_right _ member)
  dirs := part.dirs
  once := part.once

theorem Part.dir_rest (part : Part home (.dir name real inner rest)) : Part home rest where
  files := fun _ member => part.files (List.mem_append_right _ member)
  links := fun _ member => part.links (List.mem_append_right _ member)
  dirs := fun _ member => part.dirs (List.mem_append_right _ member)
  once := (List.nodup_append.mp part.once).2.1

theorem Part.dir_inner (part : Part home (.dir name real inner rest)) (shown : ¬ name.hidden = true) :
    Part home inner where
  files := fun _ member => part.files (List.mem_append_left _ (by rw [if_neg shown]; exact member))
  links := fun _ member => part.links (List.mem_append_left _ (by rw [if_neg shown]; exact member))
  dirs := fun _ member => part.dirs (List.mem_append_left _ (by
    rw [if_neg shown]
    exact List.mem_cons_of_mem _ member))
  once := by
    have once := (List.nodup_append.mp part.once).1
    rw [if_neg shown] at once
    exact (List.nodup_cons.mp once).2

theorem Part.item_reals (part : Part home (.item name what rest)) (shown : ¬ name.hidden = true)
    (member : real ∈ what.reals) : real ∉ home.root.dirs := by
  rcases List.mem_append.mp member with file | link
  · rcases List.mem_map.mp file with ⟨⟨other, content⟩, here, rfl⟩
    have there := part.files (List.mem_append_left _ (by rw [if_neg shown]; exact here))
    exact (home.filesApart other content there).2.1
  · have there := part.links (List.mem_append_left _ (by rw [if_neg shown]; exact link))
    exact fun isDir => (home.dirsApart real isDir).1 there

/-- What is found in one directory is not another one. -/
theorem Part.inner_apart {found : Nat} (part : Part home (.dir name real inner rest)) (shown : ¬ name.hidden = true)
    (member : found ∈ real :: inner.reals) : found ∉ rest.dirs := by
  have once := part.once
  unfold HostDir.dirs at once
  rw [if_neg shown] at once
  have apart := (List.nodup_append.mp once).2.2
  intro other
  rcases List.mem_cons.mp member with rfl | below
  · exact apart found (List.mem_cons_self ..) found other rfl
  · rcases mem_reals.mp below with file | link | isDir
    · rcases List.mem_map.mp file with ⟨⟨_, content⟩, here, rfl⟩
      exact (home.filesApart _ content ((part.dir_inner shown).files here)).2.1 (part.dir_rest.dirs other)
    · exact (home.dirsApart found (part.dir_rest.dirs other)).1 ((part.dir_inner shown).links link)
    · exact apart found (List.mem_cons_of_mem _ isDir) found other rfl

end Parts

/-! ## One entry -/

variable {name : HostName} {what : HostItem} {inner rest : HostDir} {real : Nat}

/-- An entry that is no directory. -/
theorem addItem_meets (open_ : Open home fs current bound) (part : Part home (.item name what rest)) :
    Meets (withName name (addItem current name.bytes what)) fs
      ⟨fun _ after => Packs home fs current bound (if name.hidden = true then 0 else what.cost)
          (if name.hidden = true then [] else what.entries name.bytes) []
          (if name.hidden = true then [] else what.reals) after,
        fun _ _ => ¬ Fits fs current (.item name what rest), fun _ => False⟩ := by
  unfold withName
  by_cases hidden : name.hidden = true
  · rw [if_pos hidden, if_pos hidden, if_pos hidden, if_pos hidden, meets_pure]
    exact .refl open_.sound open_.registered current bound
  · rw [if_neg hidden, if_neg hidden, if_neg hidden, if_neg hidden, meets_ite]
    have shown : name.hidden = false := Bool.eq_false_iff.mpr hidden
    by_cases long : maxFnameLen < name.bytes.length
    · rw [if_pos long, meets_throw]
      intro fits
      exact absurd (fits.2.2.1 shown).1 (Nat.not_le.mpr long)
    · rw [if_neg long]
      have short := Nat.le_of_not_lt long
      have files : forall entry, entry ∈ what.files -> entry ∈ home.root.files := fun entry member =>
        part.files (List.mem_append_left _ (by rw [if_neg hidden]; exact member))
      have links : forall link, link ∈ what.links -> link ∈ home.root.links := fun link member =>
        part.links (List.mem_append_left _ (by rw [if_neg hidden]; exact member))
      have cost : Fits fs current (.item name what rest) -> fs.nextIno + what.cost <= fs.ninos := by
        intro fits
        have enough := fits.1
        unfold HostDir.cost at enough
        rw [if_neg hidden] at enough
        omega
      have entries : Fits fs current (.item name what rest) ->
          (fs.inode current).nblks + (what.entries name.bytes).length <= lnNblks := by
        intro fits
        have enough := fits.2.1
        unfold HostDir.entries at enough
        rw [if_neg hidden, List.length_append] at enough
        omega
      cases what with
      | other => exact .refl open_.sound open_.registered current bound
      | link number target =>
          refine addLink_meets open_ (links _ (List.mem_singleton_self _)) short ?_ ?_ ?_ (fun _ packs => packs)
          · intro big _ fits
            have room : (fs.inode current).nblks + 1 <= lnNblks := entries fits
            omega
          · intro excess _ fits
            exact absurd (fits.2.2.1 shown).2 (Nat.not_lt.mpr excess)
          · intro excess _ fits
            exact absurd (cost fits) (Nat.not_le.mpr excess)
      | file number content =>
          refine addFile_meets open_ (files _ (List.mem_singleton_self _)) short ?_ ?_ (fun _ packs => packs)
          · intro big _ fits
            have room : (fs.inode current).nblks + 1 <= lnNblks := entries fits
            rcases big with grown | long
            · omega
            · exact absurd (fits.2.2.1 shown).2 (Nat.not_le.mpr long)
          · intro excess _ fits
            exact absurd (cost fits) (Nat.not_le.mpr excess)

/-- What is left by packing the entries of a directory. -/
def Entered (home : HostTree) (fs : SfsFs) (current bound : Nat) (dir : HostDir) (after : SfsFs) : Prop :=
  Packs home fs current bound dir.cost dir.entries (dir.subdirectories (fs.inode current).real) dir.reals after

/-- The inode of a new directory, with its first two entries. -/
structure Opened (home : HostTree) (fs : SfsFs) (current real : Nat) (after : SfsFs) : Prop where
  extends_ : Extends (fs.newInode real typeDir) fs.nextIno after
  inodes : after.inodes = (fs.newInode real typeDir).inodes
  open_ : Open home after fs.nextIno (fs.nextIno + 1)
  holds : DirHolds after fs.nextIno [(fs.nextIno, dot), (current, dotdot)]
  high : after.nextIno <= fs.nextIno + 7

theorem Opened.listed (opened : Opened home fs current real after) : fs.nextIno ∈ after.cacheInodes := by
  apply opened.extends_.listed
  exact mem_newInode.mpr (.inl rfl)

theorem Opened.itself (opened : Opened home fs current real after) : (after.inode fs.nextIno).real = real := by
  have kind := opened.extends_.kind fs.nextIno (mem_newInode.mpr (.inl rfl))
  rw [newInode_inode] at kind
  exact kind.1

variable {done : Unit -> SfsFs -> Prop} {fail : Bug -> SfsFs -> Prop} {stop : Assertion -> Prop}

/-- The first two entries of a new directory. -/
theorem opened_meets {rest : Writer Unit} (open_ : Open home fs current bound) (source : real ∈ home.root.dirs)
    (unvisited : forall file, file ∈ fs.cacheInodes -> (fs.inode file).real ≠ real)
    (room : fs.nextIno < fs.ninos)
    (full : fs.ninos < fs.nextIno + 7 -> forall after, fail ⟨"out of disk space.\n"⟩ after)
    (opened : forall after, Opened home fs current real after -> Meets rest after ⟨done, fail, stop⟩) :
    Meets (openDirWith fs.nextIno current rest) (fs.newInode real typeDir) ⟨done, fail, stop⟩ := by
  have sound : Sound (fs.newInode real typeDir) [] := open_.sound.newInode room
  have listed : fs.nextIno ∈ (fs.newInode real typeDir).cacheInodes := mem_newInode.mpr (.inl rfl)
  have isDir : ((fs.newInode real typeDir).inode fs.nextIno).inode.type = typeDir := by
    rw [newInode_inode]
    rfl
  have notFile : ((fs.newInode real typeDir).inode fs.nextIno).inode.type ≠ typeFile := by
    rw [isDir]
    decide
  have empty : DirHolds (fs.newInode real typeDir) fs.nextIno [] := by
    refine ⟨isDir, ?_, fun _ _ absent => nomatch absent⟩
    rw [newInode_inode]
    rfl
  have limit : forall number, lnNblks <= number -> number <= 1 -> False := by
    intro number big small
    exact absurd (Nat.le_trans big small) (by decide)
  unfold openDirWith
  simp only [meets_bind]
  apply addEntry_meets sound listed isDir (by decide)
  · intro big
    rw [newInode_inode] at big
    exact (limit _ big (Nat.zero_le _)).elim
  · intro excess
    have beyond : fs.ninos < fs.nextIno + 1 + 3 := excess
    exact full (by omega)
  · intro first one
    have nblks : (first.inode fs.nextIno).nblks = 0 + 1 := by
      rw [one.grown, newInode_inode]
      rfl
    have high : first.nextIno <= fs.nextIno + 1 + 3 := one.step.high
    have listedThen := one.step.extends_.listed _ listed
    have isDirThen := (one.step.extends_.kind _ listed).2.trans isDir
    apply addEntry_meets one.step.sound listedThen isDirThen (by decide)
    · intro big
      rw [nblks] at big
      exact (limit _ big (Nat.le_refl _)).elim
    · intro excess
      rw [one.step.extends_.ninos] at excess
      have beyond : fs.ninos < first.nextIno + 3 := excess
      exact full (by omega)
    · intro after two
      have extends_ := one.step.extends_.trans two.step.extends_ (.inl rfl)
      have inodes := two.inodes.trans one.inodes
      have kind := extends_.kind _ listed
      have itself : (after.inode fs.nextIno).real = real := by
        rw [kind.1, newInode_inode]
        rfl
      have highThen := two.step.high
      have low : fs.nextIno + 1 <= after.nextIno := extends_.low
      apply opened
      refine ⟨extends_, inodes, ⟨two.step.sound, ?_, extends_.listed _ listed, kind.2.trans isDir,
        Nat.lt_succ_self _, low⟩, two.entries _ (one.entries _ empty), by omega⟩
      exact open_.registered.newInode open_.sound (fun _ => unvisited) extends_ inodes
        (.dir (kind.2.trans isDir) (by rw [itself]; exact .inr source))

/-- A directory that was opened and filled is packed. -/
theorem Opened.packed (opened : Opened home fs current real middle) (open_ : Open home fs current bound)
    (entered : Entered home middle fs.nextIno (fs.nextIno + 1) inner after) :
    Step fs current (7 + inner.cost) after /\ Registered home after /\
      (after.inode current).nblks = (fs.inode current).nblks /\
      (forall entries, DirHolds fs current entries -> DirHolds after current entries) /\
      (forall directory, directory ∈ (⟨real, (fs.inode current).real, inner⟩ : Subdirectory) ::
        inner.subdirectories real -> PackedDir after bound directory) /\
      (forall file, file ∈ after.cacheInodes -> file ∈ fs.cacheInodes \/
        (after.inode file).real ∈ real :: inner.reals) := by
  have extends_ : Extends (fs.newInode real typeDir) fs.nextIno after :=
    opened.extends_.trans entered.step.extends_ (.inl rfl)
  have whole : Extends fs fs.nextIno after := Extends.trans (.newInode open_.sound _) extends_ (.inl rfl)
  have high := entered.step.high
  have highBefore := opened.high
  have subdirectories := entered.packed
  rw [opened.itself] at subdirectories
  have before := open_.fresh
  refine ⟨open_.filled extends_ entered.step.sound (by omega), entered.registered, open_.newInode_nblks extends_,
    fun entries => DirHolds.newInode open_ extends_, ?_, ?_⟩
  · intro directory member
    rcases List.mem_cons.mp member with rfl | below
    · rcases entered.holds _ opened.holds with ⟨added, holds, named⟩
      refine ⟨fs.nextIno, current, added, ⟨before, entered.step.extends_.listed _ opened.listed, ?_⟩,
        ⟨whole.listed current open_.listed, (whole.kind current open_.listed).1⟩, holds, named⟩
      rw [(entered.step.extends_.kind _ opened.listed).1, opened.itself]
    · exact (subdirectories directory below).weaken (by omega)
  · intro file listed
    rcases entered.reals file listed with earlier | found
    · rcases newInode_found opened.inodes opened.extends_ earlier with old | itself
      · exact .inl old
      · rw [(entered.step.extends_.kind file earlier).1]
        exact .inr (List.mem_cons.mpr (.inl (List.mem_singleton.mp itself)))
    · exact .inr (List.mem_cons_of_mem _ found)

/-- An entry that is a directory. -/
theorem addDir_meets (open_ : Open home fs current bound) (part : Part home (.dir name real inner rest))
    (unvisited : Unvisited fs (.dir name real inner rest))
    (entering : forall middle, Opened home fs current real middle -> Part home inner -> Unvisited middle inner ->
      Meets (openEntries fs.nextIno inner) middle ⟨fun _ after =>
        Entered home middle fs.nextIno (fs.nextIno + 1) inner after,
        fun _ _ => ¬ Fits middle fs.nextIno inner, fun _ => False⟩) :
    Meets (withName name (addDir current name.bytes real
        (fun ino => openDirWith ino current (openEntries ino inner)))) fs
      ⟨fun _ after => Packs home fs current bound (if name.hidden = true then 0 else 10 + inner.cost)
          (if name.hidden = true then [] else [(name.bytes, real)])
          (if name.hidden = true then [] else
            ⟨real, (fs.inode current).real, inner⟩ :: inner.subdirectories real)
          (if name.hidden = true then [] else real :: inner.reals) after,
        fun _ _ => ¬ Fits fs current (.dir name real inner rest), fun _ => False⟩ := by
  unfold withName
  by_cases hidden : name.hidden = true
  · rw [if_pos hidden, if_pos hidden, if_pos hidden, if_pos hidden, if_pos hidden, meets_pure]
    exact .refl open_.sound open_.registered current bound
  · rw [if_neg hidden, if_neg hidden, if_neg hidden, if_neg hidden, if_neg hidden, meets_ite]
    have shown : name.hidden = false := Bool.eq_false_iff.mpr hidden
    by_cases long : maxFnameLen < name.bytes.length
    · rw [if_pos long, meets_throw]
      intro fits
      exact absurd (fits.2.2.1 shown).1 (Nat.not_le.mpr long)
    · rw [if_neg long]
      have short := Nat.le_of_not_lt long
      have cost : Fits fs current (.dir name real inner rest) -> fs.nextIno + (10 + inner.cost) <= fs.ninos := by
        intro fits
        have enough := fits.1
        unfold HostDir.cost at enough
        rw [if_neg hidden] at enough
        omega
      have entries : Fits fs current (.dir name real inner rest) -> (fs.inode current).nblks + 1 <= lnNblks := by
        intro fits
        have enough := fits.2.1
        unfold HostDir.entries at enough
        rw [if_neg hidden, List.length_append, List.length_singleton] at enough
        omega
      have here : real ∈ home.root.dirs := part.dirs (List.mem_append_left _ (by
        rw [if_neg hidden]
        exact List.mem_cons_self ..))
      have apart : forall number, number ∈ real :: inner.dirs -> number ∈ (HostDir.dir name real inner rest).dirs :=
        fun number member => List.mem_append_left _ (by rw [if_neg hidden]; exact member)
      have fresh : forall file, file ∈ fs.cacheInodes -> (fs.inode file).real ≠ real :=
        fun file listed same => unvisited file listed (apart _ (same ▸ List.mem_cons_self ..))
      have once := part.once
      unfold HostDir.dirs at once
      rw [if_neg hidden] at once
      have notInner : real ∉ inner.dirs := (List.nodup_cons.mp (List.nodup_append.mp once).1).1
      unfold addDir
      simp only [meets_bind, meets_get, meets_assert]
      refine ⟨fun _ => ?_, fun broken => broken ?_⟩
      · apply allocCacheInode_meets
        · intro room
          have unvisitedInner : forall middle, Opened home fs current real middle -> Unvisited middle inner := by
            intro middle opened file listed
            rcases newInode_found opened.inodes opened.extends_ listed with old | itself
            · have kept := opened.extends_.kind file (mem_newInode.mpr (.inr old))
              have different : file ≠ fs.nextIno := fun same => open_.sound.accounted.not_listed (same ▸ old)
              rw [kept.1, newInode_other different]
              exact fun member => unvisited file old (apart _ (List.mem_cons_of_mem _ member))
            · rw [List.mem_singleton.mp itself]
              exact notInner
          apply opened_meets open_ here fresh room
          · exact fun excess _ fits => absurd (cost fits) (by omega)
          · intro middle opened
            refine (entering middle opened (part.dir_inner hidden) (unvisitedInner middle opened)).mono ?_ ?_
              (fun _ stopped => stopped)
            · intro _ after entered
              have packed := opened.packed open_ entered
              refine entry_packs open_ packed.1 packed.2.1 packed.2.2.1 packed.2.2.2.1
                (entered.step.extends_.listed _ opened.listed)
                ((entered.step.extends_.kind _ opened.listed).1.trans opened.itself) packed.2.2.2.2.1
                packed.2.2.2.2.2 short (by omega) ?_ ?_ (fun _ packs => packs)
              · intro big _ fits
                exact absurd (entries fits) (by omega)
              · intro excess _ fits
                exact absurd (cost fits) (by omega)
            · intro _ _ refused fits
              apply refused
              have high := opened.high
              have accepted := fits.2.2.1 shown
              have two : (middle.inode fs.nextIno).nblks = 2 := opened.holds.nblks
              have limit := opened.extends_.ninos
              have same : middle.ninos = fs.ninos := limit
              refine ⟨?_, by omega, accepted.2.2⟩
              have enough := cost fits
              omega
        · exact fun excess fits => absurd (cost fits) (by omega)
      · -- the host has the directory once
        cases search : fs.searchCacheInode real with
        | none => rfl
        | some file =>
            have found := search_some search
            exact absurd found.2 (fresh file found.1)

/-! ## All entries -/

theorem Packs.fits {cost : Nat} {sources : List (List UInt8 × Nat)} {directories : List Subdirectory}
    {reals : List Nat} (packs : Packs home fs current bound cost sources directories reals middle)
    (enough : fs.nextIno + (cost + rest.cost) <= fs.ninos)
    (entries : (fs.inode current).nblks + (sources.length + rest.entries.length) <= lnNblks)
    (accepted : rest.Accepted) : Fits middle current rest := by
  have high := packs.step.high
  have limit := packs.step.extends_.ninos
  have grown := packs.grown
  exact ⟨by omega, by omega, accepted⟩

theorem openEntries_meets (dir : HostDir) (open_ : Open home fs current bound) (part : Part home dir)
    (unvisited : Unvisited fs dir) :
    Meets (openEntries current dir) fs ⟨fun _ after => Entered home fs current bound dir after,
      fun _ _ => ¬ Fits fs current dir, fun _ => False⟩ := by
  induction dir generalizing fs current bound with
  | nil =>
      rw [openEntries, meets_pure]
      exact .refl open_.sound open_.registered current bound
  | item name what rest inductionHypothesis =>
      rw [openEntries, meets_bind]
      refine (addItem_meets open_ part).mono ?_ (fun _ _ refused => refused) (fun _ stopped => stopped)
      intro _ middle packs
      have unvisitedRest : Unvisited middle rest := by
        intro file listed
        rcases packs.reals file listed with old | found
        · rw [(packs.step.extends_.kind file old).1]
          exact unvisited file old
        · by_cases hidden : name.hidden = true
          · rw [if_pos hidden] at found
            exact absurd found List.not_mem_nil
          · rw [if_neg hidden] at found
            exact fun isDir => part.item_reals hidden found (part.item_rest.dirs isDir)
      refine (inductionHypothesis (open_.kept packs.step packs.registered) part.item_rest unvisitedRest).mono ?_ ?_
        (fun _ stopped => stopped)
      · intro _ after entered
        have same := (packs.step.extends_.kind current open_.listed).1
        unfold Entered at entered
        rw [same] at entered
        refine (packs.trans entered open_.below).weaken ?_ (Nat.le_refl _)
        intro number member
        rcases List.mem_append.mp member with early | late
        · by_cases hidden : name.hidden = true
          · rw [if_pos hidden] at early
            exact absurd early List.not_mem_nil
          · rw [if_neg hidden] at early
            apply mem_reals.mpr
            unfold HostDir.files HostDir.links
            rw [if_neg hidden, if_neg hidden, List.map_append]
            rcases List.mem_append.mp early with file | link
            · exact .inl (List.mem_append_left _ file)
            · exact .inr (.inl (List.mem_append_left _ link))
        · apply mem_reals.mpr
          unfold HostDir.files HostDir.links
          rw [List.map_append]
          rcases mem_reals.mp late with file | link | isDir
          · exact .inl (List.mem_append_right _ file)
          · exact .inr (.inl (List.mem_append_right _ link))
          · exact .inr (.inr isDir)
      · intro _ _ refused fits
        apply refused
        have entries := fits.2.1
        unfold HostDir.entries at entries
        rw [List.length_append] at entries
        exact packs.fits fits.1 entries fits.2.2.2
  | dir name real inner rest innerHypothesis inductionHypothesis =>
      rw [openEntries, meets_bind]
      have adding := addDir_meets open_ part unvisited (fun middle opened partInner unvisitedInner =>
        innerHypothesis opened.open_ partInner unvisitedInner)
      refine adding.mono ?_ (fun _ _ refused => refused) (fun _ stopped => stopped)
      intro _ middle packs
      have unvisitedRest : Unvisited middle rest := by
        intro file listed
        rcases packs.reals file listed with old | found
        · rw [(packs.step.extends_.kind file old).1]
          exact fun isDir => unvisited file old (List.mem_append_right _ isDir)
        · by_cases hidden : name.hidden = true
          · rw [if_pos hidden] at found
            exact absurd found List.not_mem_nil
          · rw [if_neg hidden] at found
            exact part.inner_apart hidden found
      refine (inductionHypothesis (open_.kept packs.step packs.registered) part.dir_rest unvisitedRest).mono ?_ ?_
        (fun _ stopped => stopped)
      · intro _ after entered
        have same := (packs.step.extends_.kind current open_.listed).1
        unfold Entered at entered
        rw [same] at entered
        refine (packs.trans entered open_.below).weaken ?_ (Nat.le_refl _)
        intro number member
        apply mem_reals.mpr
        unfold HostDir.files HostDir.links HostDir.dirs
        rw [List.map_append]
        rcases List.mem_append.mp member with early | late
        · by_cases hidden : name.hidden = true
          · rw [if_pos hidden] at early
            exact absurd early List.not_mem_nil
          · rw [if_neg hidden] at early
            rw [if_neg hidden, if_neg hidden, if_neg hidden]
            rcases List.mem_cons.mp early with rfl | below
            · exact .inr (.inr (List.mem_append_left _ (List.mem_cons_self ..)))
            · rcases mem_reals.mp below with file | link | isDir
              · exact .inl (List.mem_append_left _ file)
              · exact .inr (.inl (List.mem_append_left _ link))
              · exact .inr (.inr (List.mem_append_left _ (List.mem_cons_of_mem _ isDir)))
        · rcases mem_reals.mp late with file | link | isDir
          · exact .inl (List.mem_append_right _ file)
          · exact .inr (.inl (List.mem_append_right _ link))
          · exact .inr (.inr (List.mem_append_right _ isDir))
      · intro _ _ refused fits
        apply refused
        have entries := fits.2.1
        unfold HostDir.entries at entries
        rw [List.length_append] at entries
        exact packs.fits fits.1 entries fits.2.2.2

end Mksfs
end Ucore
