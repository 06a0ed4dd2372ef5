import Mathlib.Data.List.Forall2
import Ucore.Mksfs.Host
import Ucore.Mksfs.Steps

namespace Ucore
namespace Mksfs

open Library
open Program
open Sfs

/-!
# Packing a directory

The induction over the tree of the host.  A directory that is being packed
grows; one that is packed stays as it is, because it has a greater number than
those that are still open.
-/

variable {home : HostTree} {fs middle after : SfsFs} {current bound : Nat}

/-! ## Inodes by kind -/

/-- What a cache inode stands for. -/
inductive Kind (home : HostTree) (fs : SfsFs) (file : Nat) : Prop
  | file (content : List UInt8) (member : ((fs.inode file).real, content) ∈ home.root.files)
      (holds : FileHolds fs file content)
  | dir (type : (fs.inode file).inode.type = typeDir)
      (member : (fs.inode file).real = 0 \/ (fs.inode file).real ∈ home.root.dirs)
  | link (type : (fs.inode file).inode.type = typeLink) (member : (fs.inode file).real ∈ home.root.links)

/-- The hash lists are in order, a directory has one inode, and every inode
stands for something of the host. -/
structure Registered (home : HostTree) (fs : SfsFs) : Prop where
  bucket : forall bucket file, file ∈ fs.inodes bucket -> bucket = hash64 (fs.inode file).real
  once : forall first second, first ∈ fs.cacheInodes -> second ∈ fs.cacheInodes ->
    (fs.inode first).inode.type = typeDir -> (fs.inode second).inode.type = typeDir ->
    (fs.inode first).real = (fs.inode second).real -> first = second
  kinds : forall file, file ∈ fs.cacheInodes -> Kind home fs file

theorem mem_cacheInodes {file : Nat} : file ∈ fs.cacheInodes <->
    Exists fun bucket => bucket < hashListSize /\ file ∈ fs.inodes bucket := by
  unfold SfsFs.cacheInodes
  rw [List.mem_flatMap]
  exact exists_congr fun bucket => and_congr_left fun _ => List.mem_range

/-- A search that fails means that there is no such inode. -/
theorem Registered.search_none (registered : Registered home fs) {real file : Nat}
    (missed : fs.searchCacheInode real = none) (listed : file ∈ fs.cacheInodes) : (fs.inode file).real ≠ real := by
  intro same
  rcases mem_cacheInodes.mp listed with ⟨bucket, _, member⟩
  have place := registered.bucket bucket file member
  rw [same] at place
  subst place
  have different := List.find?_eq_none.mp missed file member
  exact different (decide_eq_true same)

theorem search_some {real file : Nat} (found : fs.searchCacheInode real = some file) :
    file ∈ fs.cacheInodes /\ (fs.inode file).real = real := by
  have member := List.mem_of_find?_eq_some found
  have same := List.find?_some found
  exact ⟨mem_cacheInodes.mpr ⟨_, hash32_lt _, member⟩, of_decide_eq_true same⟩

theorem Kind.kept {file : Nat} (kind : Kind home fs file) (sound : Sound fs []) (listed : file ∈ fs.cacheInodes)
    (extends_ : Extends fs current after) (open_ : (fs.inode current).inode.type ≠ typeFile \/ file ≠ current) :
    Kind home after file := by
  have same := extends_.kind file listed
  cases kind with
  | file content member holds =>
      refine .file content (by rw [same.1]; exact member) (holds.kept sound listed extends_ ?_)
      rcases open_ with notFile | different
      · exact fun equal => notFile (equal ▸ holds.type)
      · exact different
  | dir type member => exact .dir (same.2.trans type) (by rw [same.1]; exact member)
  | link type member => exact .link (same.2.trans type) (by rw [same.1]; exact member)

/-- A step that makes no inode keeps the register. -/
theorem Registered.kept (registered : Registered home fs) (sound : Sound fs []) (extends_ : Extends fs current after)
    (inodes : after.inodes = fs.inodes) (open_ : (fs.inode current).inode.type ≠ typeFile) :
    Registered home after := by
  have cacheInodes : after.cacheInodes = fs.cacheInodes := by
    unfold SfsFs.cacheInodes
    rw [inodes]
  have listed : forall bucket file, file ∈ fs.inodes bucket -> bucket < hashListSize -> file ∈ fs.cacheInodes :=
    fun bucket file member low => mem_cacheInodes.mpr ⟨bucket, low, member⟩
  refine ⟨?_, ?_, ?_⟩
  · intro bucket file member
    rw [inodes] at member
    have place := registered.bucket bucket file member
    have low : bucket < hashListSize := by
      rw [place]
      exact hash32_lt _
    rw [(extends_.kind file (listed bucket file member low)).1]
    exact place
  · intro first second firstListed secondListed firstDir secondDir same
    rw [cacheInodes] at firstListed secondListed
    have one := extends_.kind first firstListed
    have two := extends_.kind second secondListed
    rw [one.1, two.1] at same
    exact registered.once first second firstListed secondListed (one.2.symm.trans firstDir)
      (two.2.symm.trans secondDir) same
  · intro file member
    rw [cacheInodes] at member
    exact (registered.kinds file member).kept sound member extends_ (.inl open_)

/-- A new inode is registered once it stands for something. -/
theorem Registered.newInode {real type : Nat} (registered : Registered home fs) (sound : Sound fs [])
    (fresh : type = typeDir -> forall file, file ∈ fs.cacheInodes -> (fs.inode file).real ≠ real)
    (extends_ : Extends (fs.newInode real type) fs.nextIno after)
    (inodes : after.inodes = (fs.newInode real type).inodes) (kind : Kind home after fs.nextIno) :
    Registered home after := by
  have before : Extends fs fs.nextIno (fs.newInode real type) := .newInode sound _
  have whole : Extends fs fs.nextIno after := before.trans extends_ (.inl rfl)
  have cacheInodes : after.cacheInodes = (fs.newInode real type).cacheInodes := by
    unfold SfsFs.cacheInodes
    rw [inodes]
  have self := extends_.kind fs.nextIno (mem_newInode.mpr (.inl rfl))
  rw [newInode_inode] at self
  have dirs : forall file, file ∈ fs.cacheInodes -> (after.inode fs.nextIno).inode.type = typeDir ->
      (after.inode file).real ≠ (after.inode fs.nextIno).real := by
    intro file listed isDir
    rw [(whole.kind file listed).1, self.1]
    exact fresh (self.2.symm.trans isDir) file listed
  refine ⟨?_, ?_, ?_⟩
  · intro bucket file member
    have there : file ∈ Function.update fs.inodes (hash64 real) (fs.nextIno :: fs.inodes (hash64 real)) bucket := by
      rw [inodes] at member
      exact member
    rw [Function.update_apply] at there
    by_cases head : file = fs.nextIno
    · subst head
      rw [self.1]
      by_cases same : bucket = hash64 real
      · exact same
      · rw [if_neg same] at there
        have place := registered.bucket bucket _ there
        have low : bucket < hashListSize := by
          rw [place]
          exact hash32_lt _
        exact absurd (mem_cacheInodes.mpr ⟨bucket, low, there⟩) sound.accounted.not_listed
    · have old : file ∈ fs.inodes bucket := by
        split at there
        · rename_i same
          subst same
          exact (List.mem_cons.mp there).resolve_left head
        · exact there
      have place := registered.bucket bucket file old
      have low : bucket < hashListSize := by
        rw [place]
        exact hash32_lt _
      rw [(whole.kind file (mem_cacheInodes.mpr ⟨bucket, low, old⟩)).1]
      exact place
  · intro first second firstListed secondListed firstDir secondDir same
    rw [cacheInodes, mem_newInode] at firstListed secondListed
    rcases firstListed with rfl | firstOld <;> rcases secondListed with rfl | secondOld
    · rfl
    · exact absurd same.symm (dirs second secondOld firstDir)
    · exact absurd same (dirs first firstOld secondDir)
    · have one := whole.kind first firstOld
      have two := whole.kind second secondOld
      rw [one.1, two.1] at same
      exact registered.once first second firstOld secondOld (one.2.symm.trans firstDir)
        (two.2.symm.trans secondDir) same
  · intro file listed
    rw [cacheInodes, mem_newInode] at listed
    rcases listed with rfl | old
    · exact kind
    · have different : file ≠ fs.nextIno := fun same => sound.accounted.not_listed (same ▸ old)
      exact (registered.kinds file old).kept sound old whole (.inr different)

/-! ## What packing leaves -/

/-- The entries are those of the host, in order. -/
def Named (fs : SfsFs) (entries : List (Nat × List UInt8)) (sources : List (List UInt8 × Nat)) : Prop :=
  List.Forall₂ (fun entry source =>
    entry.1 ∈ fs.cacheInodes /\ (fs.inode entry.1).real = source.2 /\ entry.2 = source.1) entries sources

theorem Named.kept {entries : List (Nat × List UInt8)} {sources : List (List UInt8 × Nat)}
    (named : Named fs entries sources) (extends_ : Extends fs current after) : Named after entries sources :=
  List.Forall₂.imp (fun entry _ same =>
    ⟨extends_.listed _ same.1, (extends_.kind entry.1 same.1).1.trans same.2.1, same.2.2⟩) named

/-- A directory of the host is on the volume, in an inode from `bound` on. -/
def PackedDir (fs : SfsFs) (bound : Nat) (directory : Subdirectory) : Prop :=
  Exists fun dir => Exists fun parent => Exists fun entries =>
    (bound <= dir /\ dir ∈ fs.cacheInodes /\ (fs.inode dir).real = directory.real) /\
      (parent ∈ fs.cacheInodes /\ (fs.inode parent).real = directory.parent) /\
      DirHolds fs dir ((dir, dot) :: (parent, dotdot) :: entries) /\ Named fs entries directory.entries.entries

theorem PackedDir.kept {directory : Subdirectory} (packed : PackedDir fs bound directory) (sound : Sound fs [])
    (extends_ : Extends fs current after) (below : current < bound) : PackedDir after bound directory := by
  rcases packed with ⟨dir, parent, entries, ⟨low, listed, real⟩, above, holds, named⟩
  refine ⟨dir, parent, entries, ⟨low, extends_.listed dir listed, (extends_.kind dir listed).1.trans real⟩,
    ⟨extends_.listed parent above.1, (extends_.kind parent above.1).1.trans above.2⟩,
    holds.kept sound listed extends_ (by omega), named.kept extends_⟩

theorem PackedDir.weaken {directory : Subdirectory} {lower : Nat} (packed : PackedDir fs bound directory)
    (less : lower <= bound) : PackedDir fs lower directory := by
  rcases packed with ⟨dir, parent, entries, ⟨low, listed⟩, rest⟩
  exact ⟨dir, parent, entries, ⟨Nat.le_trans less low, listed⟩, rest⟩

/-- Entries were packed into the current directory, behind those that it had,
with everything that is below them on the host. -/
structure Packs (home : HostTree) (fs : SfsFs) (current bound cost : Nat) (sources : List (List UInt8 × Nat))
    (directories : List Subdirectory) (reals : List Nat) (after : SfsFs) : Prop where
  step : Step fs current cost after
  registered : Registered home after
  grown : (after.inode current).nblks = (fs.inode current).nblks + sources.length
  holds : forall entries, DirHolds fs current entries ->
    Exists fun added => DirHolds after current (entries ++ added) /\ Named after added sources
  packed : forall directory, directory ∈ directories -> PackedDir after bound directory
  reals : forall file, file ∈ after.cacheInodes -> file ∈ fs.cacheInodes \/ (after.inode file).real ∈ reals

section Packs

variable {cost more : Nat} {sources others : List (List UInt8 × Nat)} {directories rest : List Subdirectory}
  {reals found : List Nat}

theorem Packs.refl (sound : Sound fs []) (registered : Registered home fs) (current bound : Nat) :
    Packs home fs current bound 0 [] [] [] fs where
  step := ⟨.refl fs current, sound, Nat.le_refl _⟩
  registered := registered
  grown := rfl
  holds := fun entries holds => ⟨[], by rw [List.append_nil]; exact holds, .nil⟩
  packed := fun _ member => absurd member List.not_mem_nil
  reals := fun _ listed => .inl listed

theorem Packs.trans (first : Packs home fs current bound cost sources directories reals middle)
    (second : Packs home middle current bound more others rest found after) (below : current < bound) :
    Packs home fs current bound (cost + more) (sources ++ others) (directories ++ rest) (reals ++ found) after where
  step := ⟨first.step.extends_.trans second.step.extends_ (.inl rfl), second.step.sound, by
    have one := first.step.high
    have two := second.step.high
    omega⟩
  registered := second.registered
  grown := by
    rw [second.grown, first.grown, List.length_append, Nat.add_assoc]
  holds := by
    intro entries holds
    rcases first.holds entries holds with ⟨added, now, named⟩
    rcases second.holds _ now with ⟨later, final, namedLater⟩
    refine ⟨added ++ later, by rw [← List.append_assoc]; exact final, ?_⟩
    exact List.rel_append (named.kept second.step.extends_) namedLater
  packed := by
    intro directory member
    rcases List.mem_append.mp member with early | late
    · exact (first.packed directory early).kept first.step.sound second.step.extends_ below
    · exact second.packed directory late
  reals := by
    intro file listed
    rcases second.reals file listed with before | new
    · rcases first.reals file before with old | early
      · exact .inl old
      · rw [(second.step.extends_.kind file before).1]
        exact .inr (List.mem_append_left _ early)
    · exact .inr (List.mem_append_right _ new)

/-- More may be said to be found. -/
theorem Packs.weaken (packs : Packs home fs current bound cost sources directories reals after)
    (subset : reals ⊆ found) (less : cost <= more) :
    Packs home fs current bound more sources directories found after :=
  { packs with
    step := ⟨packs.step.extends_, packs.step.sound, Nat.le_trans packs.step.high (Nat.add_le_add_left less _)⟩
    reals := fun file listed => (packs.reals file listed).imp id (fun new => subset new) }

end Packs

/-! ## Single entries -/

/-- The state in which an entry is packed.  The directory has an inode below
`bound`, and the inodes made from here on have larger numbers. -/
structure Open (home : HostTree) (fs : SfsFs) (current bound : Nat) : Prop where
  sound : Sound fs []
  registered : Registered home fs
  listed : current ∈ fs.cacheInodes
  isDir : (fs.inode current).inode.type = typeDir
  below : current < bound
  fresh : bound <= fs.nextIno

theorem Open.notFile (open_ : Open home fs current bound) : (fs.inode current).inode.type ≠ typeFile := by
  rw [open_.isDir]
  decide

/-- Entries that were packed leave the directory open. -/
theorem Open.kept {cost : Nat} (open_ : Open home fs current bound) (step : Step fs current cost after)
    (registered : Registered home after) : Open home after current bound where
  sound := step.sound
  registered := registered
  listed := step.extends_.listed current open_.listed
  isDir := (step.extends_.kind current open_.listed).2.trans open_.isDir
  below := open_.below
  fresh := Nat.le_trans open_.fresh step.extends_.low

theorem Open.room (open_ : Open home fs current bound) : current < fs.nextIno :=
  Nat.lt_of_lt_of_le open_.below open_.fresh

variable {done : Unit -> SfsFs -> Prop} {fail : Bug -> SfsFs -> Prop} {stop : Assertion -> Prop}

/-- The entry of an inode that was there or has just been filled. -/
theorem entry_packs {file real cost more : Nat} {name : List UInt8} {directories : List Subdirectory}
    {reals : List Nat} (open_ : Open home fs current bound) (step : Step fs current cost middle)
    (registered : Registered home middle) (nblks : (middle.inode current).nblks = (fs.inode current).nblks)
    (holds : forall entries, DirHolds fs current entries ->
      DirHolds middle current entries)
    (listed : file ∈ middle.cacheInodes) (named : (middle.inode file).real = real)
    (packed : forall directory, directory ∈ directories -> PackedDir middle bound directory)
    (found : forall other, other ∈ middle.cacheInodes -> other ∈ fs.cacheInodes \/ (middle.inode other).real ∈ reals)
    (short : name.length <= maxFnameLen) (enough : cost + 3 <= more)
    (tooBig : lnNblks <= (fs.inode current).nblks -> forall after, fail ⟨"file is too big.\n"⟩ after)
    (full : fs.ninos < fs.nextIno + more -> forall after, fail ⟨"out of disk space.\n"⟩ after)
    (packs : forall after, Packs home fs current bound more [(name, real)] directories reals after -> done () after) :
    Meets (addEntry current file name) middle ⟨done, fail, stop⟩ := by
  have still := open_.kept step registered
  apply addEntry_meets still.sound still.listed still.isDir short
  · intro big
    exact tooBig (nblks ▸ big)
  · intro excess
    apply full
    have high := step.high
    have limit := step.extends_.ninos
    omega
  · intro after added
    have both := step.extends_.trans added.step.extends_ (.inl rfl)
    have cacheInodes : after.cacheInodes = middle.cacheInodes := by
      unfold SfsFs.cacheInodes
      rw [added.inodes]
    apply packs
    refine ⟨⟨both, added.step.sound, ?_⟩, registered.kept still.sound added.step.extends_ added.inodes still.notFile,
      ?_, ?_, ?_, ?_⟩
    · have one := step.high
      have two := added.step.high
      omega
    · rw [added.grown, nblks]
      rfl
    · intro entries before
      refine ⟨[(file, name)], added.entries _ (holds entries before), .cons ⟨?_, ?_, rfl⟩ .nil⟩
      · rw [cacheInodes]
        exact listed
      · exact (added.step.extends_.kind file listed).1.trans named
    · exact fun directory member => (packed directory member).kept still.sound added.step.extends_ open_.below
    · intro other member
      rw [cacheInodes] at member
      rw [(added.step.extends_.kind other member).1]
      exact found other member

/-- A step that makes an inode leaves what other directories hold. -/
theorem DirHolds.newInode {real type : Nat} {entries : List (Nat × List UInt8)} (open_ : Open home fs current bound)
    (extends_ : Extends (fs.newInode real type) fs.nextIno after) (holds : DirHolds fs current entries) :
    DirHolds after current entries := by
  have whole : Extends fs fs.nextIno after := Extends.trans (.newInode open_.sound _) extends_ (.inl rfl)
  exact holds.kept open_.sound open_.listed whole (Nat.ne_of_lt open_.room)

theorem Open.filled {real type cost : Nat} (open_ : Open home fs current bound)
    (extends_ : Extends (fs.newInode real type) fs.nextIno after) (sound : Sound after [])
    (high : after.nextIno <= fs.nextIno + cost) : Step fs current cost after where
  extends_ := Extends.trans (.newInode open_.sound current) extends_ (.inr open_.sound.accounted.not_listed)
  sound := sound
  high := high

theorem Open.newInode_nblks {real type : Nat} (open_ : Open home fs current bound)
    (extends_ : Extends (fs.newInode real type) fs.nextIno after) :
    (after.inode current).nblks = (fs.inode current).nblks := by
  have whole : Extends fs fs.nextIno after := Extends.trans (.newInode open_.sound _) extends_ (.inl rfl)
  exact (whole.closed current open_.listed (Nat.ne_of_lt open_.room)).1

theorem newInode_found {real type : Nat} (inodes : after.inodes = (fs.newInode real type).inodes)
    (extends_ : Extends (fs.newInode real type) fs.nextIno after) {file : Nat} (listed : file ∈ after.cacheInodes) :
    file ∈ fs.cacheInodes \/ (after.inode file).real ∈ [real] := by
  have cacheInodes : after.cacheInodes = (fs.newInode real type).cacheInodes := by
    unfold SfsFs.cacheInodes
    rw [inodes]
  rw [cacheInodes, mem_newInode] at listed
  rcases listed with rfl | old
  · have self := extends_.kind fs.nextIno (mem_newInode.mpr (.inl rfl))
    rw [newInode_inode] at self
    exact .inr (List.mem_singleton.mpr self.1)
  · exact .inl old

theorem addLink_meets {real : Nat} {name target : List UInt8} (open_ : Open home fs current bound)
    (source : real ∈ home.root.links) (short : name.length <= maxFnameLen)
    (tooBig : lnNblks <= (fs.inode current).nblks -> forall after, fail ⟨"file is too big.\n"⟩ after)
    (tooLong : blksize <= target.length -> forall after, fail ⟨"read link failed, %d"⟩ after)
    (full : fs.ninos < fs.nextIno + 7 -> forall after, fail ⟨"out of disk space.\n"⟩ after)
    (packs : forall after, Packs home fs current bound 7 [(name, real)] [] [real] after -> done () after) :
    Meets (addLink current name real target) fs ⟨done, fail, stop⟩ := by
  unfold addLink
  simp only [meets_bind]
  apply allocCacheInode_meets
  · intro room
    have sound : Sound (fs.newInode real typeLink) [] := open_.sound.newInode room
    have listed : fs.nextIno ∈ (fs.newInode real typeLink).cacheInodes := mem_newInode.mpr (.inl rfl)
    apply openLink_meets sound listed
    · intro big
      rw [newInode_inode] at big
      have positive : 0 < lnNblks := by decide
      exact absurd big (Nat.not_le.mpr positive)
    · exact tooLong
    · intro excess
      have after : fs.ninos < fs.nextIno + 1 + 3 := excess
      exact full (by omega)
    · intro middle stored
      have extends_ := stored.step.extends_
      have high : middle.nextIno <= fs.nextIno + 1 + 3 := stored.step.high
      have kept := extends_.kind fs.nextIno listed
      rw [newInode_inode] at kept
      have kind : Kind home middle fs.nextIno := .link kept.2 (by rw [kept.1]; exact source)
      have registered := open_.registered.newInode open_.sound (fun isDir => absurd isDir (by decide)) extends_
        stored.inodes kind
      have step : Step fs current 4 middle := open_.filled extends_ stored.step.sound (by omega)
      exact entry_packs open_ step registered (open_.newInode_nblks extends_)
        (fun entries => DirHolds.newInode open_ extends_) (extends_.listed _ listed) kept.1
        (fun _ member => absurd member List.not_mem_nil) (fun _ => newInode_found stored.inodes extends_) short
        (by decide) tooBig full packs
  · exact fun excess => full (by omega) fs

theorem addFile_meets {real : Nat} {name content : List UInt8} (open_ : Open home fs current bound)
    (source : (real, content) ∈ home.root.files) (short : name.length <= maxFnameLen)
    (tooBig : lnNblks <= (fs.inode current).nblks \/ maxFileSize < content.length ->
      forall after, fail ⟨"file is too big.\n"⟩ after)
    (full : fs.ninos < fs.nextIno + (4 + 3 * roundupDiv content.length blksize) ->
      forall after, fail ⟨"out of disk space.\n"⟩ after)
    (packs : forall after, Packs home fs current bound (4 + 3 * roundupDiv content.length blksize) [(name, real)] []
      [real] after -> done () after) :
    Meets (addFile current name real content) fs ⟨done, fail, stop⟩ := by
  unfold addFile
  simp only [meets_bind, meets_get]
  cases search : fs.searchCacheInode real with
  | some file =>
      have found := search_some search
      have step : Step fs current 0 fs := ⟨.refl fs current, open_.sound, Nat.le_refl _⟩
      exact entry_packs open_ step open_.registered rfl (fun _ holds => holds) found.1 found.2
        (fun _ member => absurd member List.not_mem_nil) (fun _ listed => .inl listed) short (by omega)
        (fun big => tooBig (.inl big)) full packs
  | none =>
      simp only [meets_bind]
      apply allocCacheInode_meets
      · intro room
        have sound : Sound (fs.newInode real typeFile) [] := open_.sound.newInode room
        have listed : fs.nextIno ∈ (fs.newInode real typeFile).cacheInodes := mem_newInode.mpr (.inl rfl)
        have start : Reading (fs.newInode real typeFile) (fs.newInode real typeFile) fs.nextIno content content
            (3 * roundupDiv content.length blksize) := by
          refine ⟨.refl _ _, sound, rfl, fun _ _ => rfl, listed, by rw [newInode_inode]; rfl,
            ⟨0, rfl, Nat.zero_le _, by rw [newInode_inode]; rfl, by rw [newInode_inode]; rfl, fun _ => rfl,
              Nat.le_refl _⟩, ?_⟩
          intro index low
          rw [newInode_inode] at low
          exact absurd low (Nat.not_lt_zero _)
        apply openFile_meets start (fun _ => rfl)
        · exact fun big => tooBig (.inr big)
        · intro excess
          have after : fs.ninos < fs.nextIno + 1 + 3 * roundupDiv content.length blksize := excess
          exact full (by omega)
        · intro middle reading
          have extends_ := reading.extends_
          rcases reading.split with ⟨read, equal, within, size, nblks, _, room⟩
          have all : read = content.length := by
            have empty := List.drop_eq_nil_iff.mp equal.symm
            omega
          subst all
          have high : middle.nextIno + 3 * roundupDiv 0 blksize <=
            fs.nextIno + 1 + 3 * roundupDiv content.length blksize := room
          have kept := extends_.kind fs.nextIno listed
          rw [newInode_inode] at kept
          have kind : Kind home middle fs.nextIno :=
            .file content (by rw [kept.1]; exact source) ⟨reading.kind, size, nblks, reading.bytes⟩
          have registered := open_.registered.newInode open_.sound (fun isDir => absurd isDir (by decide)) extends_
            reading.inodes kind
          have step : Step fs current (1 + 3 * roundupDiv content.length blksize) middle :=
            open_.filled extends_ reading.sound (by omega)
          exact entry_packs open_ step registered (open_.newInode_nblks extends_)
            (fun entries => DirHolds.newInode open_ extends_) (extends_.listed _ listed) kept.1
            (fun _ member => absurd member List.not_mem_nil) (fun _ => newInode_found reading.inodes extends_) short
            (by omega) (fun big => tooBig (.inl big)) full packs
      · exact fun excess => full (by omega) fs

end Mksfs
end Ucore
