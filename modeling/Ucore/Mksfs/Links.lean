import Mathlib.Data.List.Nodup
import Mathlib.Data.List.Perm.Subperm
import Ucore.Library.Preservation
import Ucore.Mksfs.Consistency
import Ucore.Mksfs.Entries

namespace Ucore
namespace Mksfs

open Library
open Program
open Sfs

/-!
# Link counts

Every entry that is packed counts as a link of the inode it names, in 16 bits.
A volume is followed with the list of the entries packed so far.
-/

variable {fs middle after : SfsFs} {current file : Nat}

/-! ## Who counts -/

/-- The links of every inode -/
def SfsFs.links (fs : SfsFs) (ino : Nat) : Nat := (fs.inode ino).inode.nlinks

theorem links_setInode (fs : SfsFs) {file : Nat} {ci : CacheInode}
    (same : ci.inode.nlinks = (fs.inode file).inode.nlinks) : (fs.setInode file ci).links = fs.links := by
  funext other
  unfold SfsFs.links
  by_cases here : other = file
  · subst here
    rw [setInode_inode]
    exact same
  · rw [setInode_other here]

theorem fixes_links_modifyInode (change : CacheInode -> CacheInode)
    (same : forall ci, (change ci).inode.nlinks = ci.inode.nlinks) (ino : Nat) :
    Fixes SfsFs.links (modifyInode ino change) :=
  fixes_modify fun fs => links_setInode fs (same _)

theorem fixes_links_setCache (cb slot ino : Nat) :
    Fixes SfsFs.links (modify fun fs => fs.setCache cb slot ino : Writer Unit) := fixes_modify fun _ => rfl

theorem fixes_links_allocIno : Fixes SfsFs.links allocIno := by
  unfold allocIno
  refine fixes_get.bind fun _ => Fixes.ite ?_ (fixes_throw _)
  exact Fixes.bind (fixes_modify fun _ => rfl) fun _ => fixes_pure _

theorem fixes_links_writeBlock (data : Bytes) (len ino : Nat) : Fixes SfsFs.links (writeBlock data len ino) := by
  unfold writeBlock
  exact fixes_get.bind fun _ => (fixes_assert ..).bind fun _ => fixes_modify fun _ => rfl

theorem fixes_links_updateCache (cbp : Option Nat) (ino : Nat) : Fixes SfsFs.links (updateCache cbp ino) := by
  unfold updateCache allocCacheBlock
  refine Fixes.ite ?_ (Fixes.ite ?_ (fixes_pure _))
  · refine fixes_links_allocIno.bind fun _ => ?_
    exact Fixes.bind (fixes_modify fun _ => rfl) fun _ => fixes_pure _
  · exact fixes_get.bind fun _ => (fixes_assert ..).bind fun _ => fixes_pure _

theorem fixes_links_appendInner (file l2 slot ino : Nat) : Fixes SfsFs.links (appendInner file l2 slot ino) := by
  unfold appendInner
  exact fixes_get.bind fun _ => (fixes_links_updateCache ..).bind fun l1 =>
    (fixes_links_modifyInode (·.setL1 l1) (fun _ => rfl) file).bind fun _ =>
      (fixes_links_setCache ..).bind fun _ => fixes_links_setCache ..

theorem fixes_links_appendNumber (file nblks ino : Nat) : Fixes SfsFs.links (appendNumber file nblks ino) := by
  unfold appendNumber
  refine Fixes.dite (fun direct => ?_) fun _ => Fixes.ite ?_ (Fixes.ite ?_ (fixes_pure _))
  · exact fixes_links_modifyInode (·.setDirect ⟨nblks, direct⟩ ino) (fun _ => rfl) file
  · unfold appendIndirect
    exact fixes_get.bind fun _ => (fixes_links_updateCache ..).bind fun l1 =>
      (fixes_links_modifyInode (·.setIndirect l1) (fun _ => rfl) file).bind fun _ => fixes_links_setCache ..
  · unfold appendDbIndirect
    exact fixes_get.bind fun _ => (fixes_links_updateCache ..).bind fun l2 =>
      (fixes_links_modifyInode (·.setDbIndirect l2) (fun _ => rfl) file).bind fun _ => fixes_links_appendInner ..

theorem fixes_links_appendBlock (file size ino : Nat) : Fixes SfsFs.links (appendBlock file size ino) := by
  unfold appendBlock
  refine (fixes_assert ..).bind fun _ => fixes_get.bind fun _ => (fixes_throw _).ite ?_
  exact (fixes_links_appendNumber ..).bind fun _ => fixes_links_modifyInode (·.grow size) (fun _ => rfl) file

theorem fixes_links_openFile (file last : Nat) (content : List UInt8) :
    Fixes SfsFs.links (openFile file last content) := by
  induction length : content.length using Nat.strong_induction_on generalizing last content with
  | _ total inductionHypothesis =>
      rw [openFile]
      by_cases ended : content = []
      · rw [if_pos ended]
        exact fixes_pure ()
      · rw [if_neg ended]
        have positive := List.length_pos_iff.mpr ended
        have shorter : (content.drop blksize).length < total := by
          rw [List.length_drop]
          unfold blksize
          omega
        exact (fixes_assert ..).bind fun _ => fixes_links_allocIno.bind fun _ =>
          (fixes_links_writeBlock ..).bind fun _ => (fixes_links_appendBlock ..).bind fun _ =>
            inductionHypothesis _ shorter _ _ rfl

theorem fixes_links_openLink (file : Nat) (target : List UInt8) : Fixes SfsFs.links (openLink file target) := by
  unfold openLink
  refine fixes_links_allocIno.bind fun _ => (fixes_throw _).ite ?_
  exact (fixes_links_writeBlock ..).bind fun _ => fixes_links_appendBlock ..

theorem addEntry_links (current file : Nat) (name : List UInt8) (fs : SfsFs) :
    Meets (addEntry current file name) fs
      ⟨fun _ after => after.links = Function.update fs.links file ((fs.links file + 1) % 2 ^ 16), fun _ _ => True,
        fun _ => True⟩ := by
  have start : SfsFs.links fs = fs.links := rfl
  unfold addEntry
  refine fixes_get.before start fun _ _ one => (fixes_assert ..).before one fun _ _ two => ?_
  refine Fixes.before (fixes_modify fun _ => rfl) two fun _ _ three => ?_
  refine fixes_links_allocIno.before three fun _ _ four => fixes_get.before four fun _ _ five => ?_
  refine (fixes_links_writeBlock ..).before five fun _ _ six => ?_
  refine (fixes_links_appendBlock ..).before six fun _ middle same => ?_
  unfold modifyInode
  rw [meets_modify]
  funext other
  rw [← same]
  by_cases here : other = file
  · subst here
    rw [Function.update_self]
    exact congrArg (fun ci => ci.inode.nlinks) (setInode_inode middle other _)
  · rw [Function.update_of_ne here]
    exact congrArg (fun ci => ci.inode.nlinks) (setInode_other here _)

/-! ## Entries -/

/-- An entry that has been packed: its directory, its inode and its name -/
structure Edge where
  dir : Nat
  ino : Nat
  name : List UInt8

/-- What a directory lists -/
def entriesOf (edges : List Edge) (dir : Nat) : List (Nat × List UInt8) :=
  (edges.filter fun edge => decide (edge.dir = dir)).map fun edge => (edge.ino, edge.name)

/-- How many entries name an inode -/
def degree (edges : List Edge) (ino : Nat) : Nat := edges.countP fun edge => decide (edge.ino = ino)

/-- The edges are the entries of the volume, and the inodes count them.  Only
a fresh inode may have none. -/
structure Linked (fs : SfsFs) (edges : List Edge) (fresh : List Nat) : Prop where
  holds : forall dir, dir ∈ fs.cacheInodes -> (fs.inode dir).inode.type = typeDir ->
    DirHolds fs dir (entriesOf edges dir)
  ends : forall edge, edge ∈ edges ->
    edge.dir ∈ fs.cacheInodes /\ (fs.inode edge.dir).inode.type = typeDir /\ edge.ino ∈ fs.cacheInodes
  counted : forall file, file ∈ fs.cacheInodes -> fs.links file = degree edges file % 2 ^ 16
  named : forall file, file ∈ fs.cacheInodes -> file ∈ fresh \/ 0 < degree edges file

variable {edges : List Edge} {fresh : List Nat} {ino real type : Nat} {name : List UInt8}

theorem entriesOf_append (edges : List Edge) (edge : Edge) (dir : Nat) :
    entriesOf (edges ++ [edge]) dir =
      entriesOf edges dir ++ if edge.dir = dir then [(edge.ino, edge.name)] else [] := by
  unfold entriesOf
  rw [List.filter_append, List.map_append, List.filter_singleton]
  by_cases here : edge.dir = dir
  · rw [decide_eq_true here, if_pos here]
    rfl
  · rw [decide_eq_false here, if_neg here]
    rfl

theorem degree_append (edges : List Edge) (edge : Edge) (ino : Nat) :
    degree (edges ++ [edge]) ino = degree edges ino + if edge.ino = ino then 1 else 0 := by
  unfold degree
  rw [List.countP_append, List.countP_singleton]
  simp only [decide_eq_true_eq]

theorem EntryAdded.cacheInodes (added : EntryAdded fs current ino name after) : after.cacheInodes = fs.cacheInodes := by
  unfold SfsFs.cacheInodes
  rw [added.inodes]

theorem Linked.entry (linked : Linked fs edges fresh) (sound : Sound fs []) (listed : current ∈ fs.cacheInodes)
    (isDir : (fs.inode current).inode.type = typeDir) (target : ino ∈ fs.cacheInodes)
    (only : forall file, file ∈ fresh -> file = ino) (added : EntryAdded fs current ino name after)
    (links : after.links = Function.update fs.links ino ((fs.links ino + 1) % 2 ^ 16)) :
    Linked after (edges ++ [⟨current, ino, name⟩]) [] := by
  have kind := added.step.extends_.kind
  refine ⟨?_, ?_, ?_, ?_⟩
  · intro dir member dirType
    rw [added.cacheInodes] at member
    rw [(kind dir member).2] at dirType
    rw [entriesOf_append]
    by_cases here : current = dir
    · subst here
      rw [if_pos rfl]
      exact added.entries _ (linked.holds current member dirType)
    · rw [if_neg here, List.append_nil]
      exact (linked.holds dir member dirType).kept sound member added.step.extends_ (Ne.symm here)
  · intro edge member
    rw [added.cacheInodes]
    rcases List.mem_append.mp member with old | new
    · have ends := linked.ends edge old
      rw [(kind edge.dir ends.1).2]
      exact ends
    · rw [List.mem_singleton.mp new, (kind current listed).2]
      exact ⟨listed, isDir, target⟩
  · intro file member
    rw [added.cacheInodes] at member
    rw [links, degree_append]
    by_cases here : file = ino
    · subst here
      rw [Function.update_self, if_pos rfl, linked.counted file member, Nat.mod_add_mod]
    · rw [Function.update_of_ne here, if_neg (Ne.symm here)]
      exact linked.counted file member
  · intro file member
    rw [added.cacheInodes] at member
    rw [degree_append]
    refine .inr ?_
    by_cases here : ino = file
    · rw [if_pos here]
      exact Nat.succ_pos _
    · have before := (linked.named file member).resolve_left fun listed => here (only file listed).symm
      exact Nat.lt_of_lt_of_le before (Nat.le_add_right ..)

theorem Linked.newInode (linked : Linked fs edges []) (sound : Sound fs []) :
    Linked (fs.newInode real type) edges [fs.nextIno] := by
  have absent := sound.accounted.not_listed
  have extends_ : Extends fs fs.nextIno (fs.newInode real type) := .newInode sound _
  have none : degree edges fs.nextIno = 0 := by
    refine List.countP_eq_zero.mpr fun edge member named => ?_
    have target := (linked.ends edge member).2.2
    rw [of_decide_eq_true named] at target
    exact absent target
  have other {file : Nat} (member : file ∈ fs.cacheInodes) : file ≠ fs.nextIno := fun same => absent (same ▸ member)
  refine ⟨?_, ?_, ?_, ?_⟩
  · intro dir member dirType
    rcases mem_newInode.mp member with rfl | old
    · have empty : entriesOf edges fs.nextIno = [] := by
        unfold entriesOf
        rw [List.map_eq_nil_iff, List.filter_eq_nil_iff]
        intro edge there owner
        have source := (linked.ends edge there).1
        rw [of_decide_eq_true owner] at source
        exact absent source
      rw [empty]
      refine ⟨dirType, ?_, fun _ _ missing => by cases missing⟩
      rw [newInode_inode]
      rfl
    · rw [newInode_other (other old)] at dirType
      exact (linked.holds dir old dirType).kept sound old extends_ (other old)
  · intro edge member
    have ends := linked.ends edge member
    rw [newInode_other (other ends.1)]
    exact ⟨mem_newInode.mpr (.inr ends.1), ends.2.1, mem_newInode.mpr (.inr ends.2.2)⟩
  · intro file member
    rcases mem_newInode.mp member with rfl | old
    · rw [none]
      unfold SfsFs.links
      rw [newInode_inode]
      rfl
    · have same : (fs.newInode real type).links file = fs.links file := by
        unfold SfsFs.links
        rw [newInode_other (other old)]
      exact same.trans (linked.counted file old)
  · intro file member
    rcases mem_newInode.mp member with rfl | old
    · exact .inl (List.mem_singleton_self _)
    · exact .inr ((linked.named file old).resolve_left List.not_mem_nil)

/-- A file or a link is filled. -/
theorem Linked.kept (linked : Linked fs edges fresh) (sound : Sound fs []) (extends_ : Extends fs current after)
    (notDir : (fs.inode current).inode.type ≠ typeDir) (inodes : after.inodes = fs.inodes)
    (links : after.links = fs.links) : Linked after edges fresh := by
  have cacheInodes : after.cacheInodes = fs.cacheInodes := by
    unfold SfsFs.cacheInodes
    rw [inodes]
  refine ⟨?_, ?_, ?_, ?_⟩
  · intro dir member dirType
    rw [cacheInodes] at member
    rw [(extends_.kind dir member).2] at dirType
    exact (linked.holds dir member dirType).kept sound member extends_ fun same => notDir (same ▸ dirType)
  · intro edge member
    have ends := linked.ends edge member
    rw [cacheInodes, (extends_.kind edge.dir ends.1).2]
    exact ends
  · intro file member
    rw [cacheInodes] at member
    rw [links]
    exact linked.counted file member
  · intro file member
    rw [cacheInodes] at member
    exact linked.named file member

/-! ## The writer -/

/-- Part of the writer has worked on a directory, and the link counts agree with
the entries so far. -/
structure Grown (fs : SfsFs) (current : Nat) (after : SfsFs) : Prop where
  extends_ : Extends fs current after
  sound : Sound after []
  linked : Exists fun edges => Linked after edges []

theorem Grown.trans (first : Grown fs current middle) (second : Grown middle current after) :
    Grown fs current after where
  extends_ := first.extends_.trans second.extends_ (.inl rfl)
  sound := second.sound
  linked := second.linked

/-- A new inode was filled before. -/
theorem Grown.of_new (sound : Sound fs []) (extends_ : Extends (fs.newInode real type) fs.nextIno middle)
    (grown : Grown middle current after) : Grown fs current after where
  extends_ :=
    (Extends.trans (.newInode sound current) extends_ (.inr sound.accounted.not_listed)).trans grown.extends_ (.inl rfl)
  sound := grown.sound
  linked := grown.linked

/-- The state in which an entry is packed. -/
structure Packing (fs : SfsFs) (current : Nat) : Prop where
  sound : Sound fs []
  listed : current ∈ fs.cacheInodes
  isDir : (fs.inode current).inode.type = typeDir

theorem Packing.kept (packing : Packing fs current) (extends_ : Extends fs file after) (sound : Sound after []) :
    Packing after current where
  sound := sound
  listed := extends_.listed current packing.listed
  isDir := (extends_.kind current packing.listed).2.trans packing.isDir

theorem addEntry_grown (packing : Packing fs current) (linked : Linked fs edges fresh) (target : ino ∈ fs.cacheInodes)
    (only : forall file, file ∈ fresh -> file = ino) (short : name.length <= maxFnameLen) :
    Meets (addEntry current ino name) fs ⟨fun _ after => Grown fs current after, fun _ _ => True, fun _ => True⟩ := by
  have added : Meets (addEntry current ino name) fs
      ⟨fun _ after => EntryAdded fs current ino name after, fun _ _ => True, fun _ => True⟩ :=
    addEntry_meets packing.sound packing.listed packing.isDir short (fun _ _ => trivial) (fun _ _ => trivial)
      (fun _ added => added)
  refine (added.and (addEntry_links current ino name fs)).mono ?_ (fun _ _ _ => trivial) (fun _ _ => trivial)
  intro _ after both
  exact ⟨both.1.step.extends_, both.1.step.sound,
    _, linked.entry packing.sound packing.listed packing.isDir target only both.1 both.2⟩

/-- What each part of the writer does to the directory it works on -/
def Grows (fs : SfsFs) (current : Nat) (program : Writer Unit) : Prop :=
  Meets program fs ⟨fun _ after => Grown fs current after, fun _ _ => True, fun _ => True⟩

/-- A new inode is filled, and then it gets its entry. -/
theorem newInode_grows (fill : Nat -> Writer Unit) (packing : Packing fs current) (short : name.length <= maxFnameLen)
    (filled : fs.nextIno < fs.ninos -> Meets (fill fs.nextIno) (fs.newInode real type)
      ⟨fun _ middle => Extends (fs.newInode real type) fs.nextIno middle /\ Sound middle [] /\
        Exists fun edges => Exists fun fresh => Linked middle edges fresh /\
          forall file, file ∈ fresh -> file = fs.nextIno, fun _ _ => True, fun _ => True⟩) :
    Grows fs current (do
      let file <- allocCacheInode real 0 type
      fill file
      addEntry current file name) := by
  unfold Grows
  simp only [meets_bind]
  apply allocCacheInode_meets
  · intro room
    refine (filled room).mono ?_ (fun _ _ _ => trivial) (fun _ _ => trivial)
    rintro _ middle ⟨extends_, sound, _, _, linkedThen, only⟩
    have there : Extends fs current middle :=
      Extends.trans (.newInode packing.sound current) extends_ (.inr packing.sound.accounted.not_listed)
    have target : fs.nextIno ∈ middle.cacheInodes := extends_.listed _ (mem_newInode.mpr (.inl rfl))
    refine (addEntry_grown (packing.kept there sound) linkedThen target only short).mono ?_ (fun _ _ _ => trivial)
      (fun _ _ => trivial)
    exact fun _ after grown => grown.of_new packing.sound extends_
  · exact fun _ => trivial

theorem addLink_grows {target : List UInt8} (packing : Packing fs current) (linked : Linked fs edges [])
    (short : name.length <= maxFnameLen) : Grows fs current (addLink current name real target) := by
  refine newInode_grows (openLink · target) packing short fun room => ?_
  have sound : Sound (fs.newInode real typeLink) [] := packing.sound.newInode room
  have listed : fs.nextIno ∈ (fs.newInode real typeLink).cacheInodes := mem_newInode.mpr (.inl rfl)
  have notDir : ((fs.newInode real typeLink).inode fs.nextIno).inode.type ≠ typeDir := by
    intro isDir
    rw [newInode_inode] at isDir
    exact absurd isDir (by decide : typeLink ≠ typeDir)
  have opened : Meets (openLink fs.nextIno target) (fs.newInode real typeLink)
      ⟨fun _ after => Stored (fs.newInode real typeLink) fs.nextIno target.length
        (writtenBlock (bytesOf target) target.length) after, fun _ _ => True, fun _ => True⟩ :=
    openLink_meets sound listed (fun _ _ => trivial) (fun _ _ => trivial) (fun _ _ => trivial) (fun _ stored => stored)
  refine (opened.and ((fixes_links_openLink fs.nextIno target).meets _)).mono ?_ (fun _ _ _ => trivial)
    (fun _ _ => trivial)
  rintro _ middle ⟨stored, links⟩
  exact ⟨stored.step.extends_, stored.step.sound, edges, [fs.nextIno],
    (linked.newInode packing.sound).kept sound stored.step.extends_ notDir stored.inodes links,
    fun _ member => List.mem_singleton.mp member⟩

theorem addFile_grows {content : List UInt8} (packing : Packing fs current) (linked : Linked fs edges [])
    (short : name.length <= maxFnameLen) : Grows fs current (addFile current name real content) := by
  unfold Grows addFile
  simp only [meets_bind, meets_get]
  cases search : fs.searchCacheInode real with
  | some file => exact addEntry_grown packing linked (search_some search).1 (fun _ member => by cases member) short
  | none =>
      refine newInode_grows (openFile · blksize content) packing short fun room => ?_
      have sound : Sound (fs.newInode real typeFile) [] := packing.sound.newInode room
      have listed : fs.nextIno ∈ (fs.newInode real typeFile).cacheInodes := mem_newInode.mpr (.inl rfl)
      have notDir : ((fs.newInode real typeFile).inode fs.nextIno).inode.type ≠ typeDir := by
        intro isDir
        rw [newInode_inode] at isDir
        exact absurd isDir (by decide : typeFile ≠ typeDir)
      have start : Reading (fs.newInode real typeFile) (fs.newInode real typeFile) fs.nextIno content content
          (3 * roundupDiv content.length blksize) := by
        refine ⟨.refl _ _, sound, rfl, fun _ _ => rfl, listed, by rw [newInode_inode]; rfl,
          ⟨0, rfl, Nat.zero_le _, by rw [newInode_inode]; rfl, by rw [newInode_inode]; rfl, fun _ => rfl,
            Nat.le_refl _⟩, ?_⟩
        intro index low
        rw [newInode_inode] at low
        exact absurd low (Nat.not_lt_zero _)
      have opened : Meets (openFile fs.nextIno blksize content) (fs.newInode real typeFile)
          ⟨fun _ after => Reading (fs.newInode real typeFile) after fs.nextIno content []
            (3 * roundupDiv content.length blksize), fun _ _ => True, fun _ => True⟩ :=
        openFile_meets start (fun _ => rfl) (fun _ _ => trivial) (fun _ _ => trivial) (fun _ reading => reading)
      refine (opened.and ((fixes_links_openFile fs.nextIno blksize content).meets _)).mono ?_ (fun _ _ _ => trivial)
        (fun _ _ => trivial)
      rintro _ middle ⟨reading, links⟩
      exact ⟨reading.extends_, reading.sound, edges, [fs.nextIno],
        (linked.newInode packing.sound).kept sound reading.extends_ notDir reading.inodes links,
        fun _ member => List.mem_singleton.mp member⟩

/-- A directory is opened: its first two entries, and those of the host. -/
theorem openDirWith_grows {parent : Nat} {entries : Writer Unit} (packing : Packing fs current)
    (linked : Linked fs edges fresh) (above : parent ∈ fs.cacheInodes)
    (only : forall file, file ∈ fresh -> file = current)
    (rest : forall middle edges, Packing middle current -> Linked middle edges [] -> Grows middle current entries) :
    Grows fs current (openDirWith current parent entries) := by
  unfold Grows openDirWith
  simp only [meets_bind]
  refine (addEntry_grown packing linked packing.listed only (by decide)).mono ?_ (fun _ _ _ => trivial)
    (fun _ _ => trivial)
  intro _ first one
  rcases one.linked with ⟨_, linkedOne⟩
  have open_ := packing.kept one.extends_ one.sound
  have aboveThen := one.extends_.listed parent above
  refine (addEntry_grown open_ linkedOne aboveThen (fun _ member => by cases member) (by decide)).mono ?_
    (fun _ _ _ => trivial) (fun _ _ => trivial)
  intro _ second two
  rcases two.linked with ⟨_, linkedTwo⟩
  refine (rest second _ (open_.kept two.extends_ two.sound) linkedTwo).mono ?_ (fun _ _ _ => trivial)
    (fun _ _ => trivial)
  exact fun _ after three => (one.trans two).trans three

theorem withName_grows {hostName : HostName} {add : Writer Unit} (packing : Packing fs current)
    (linked : Linked fs edges []) (adds : hostName.bytes.length <= maxFnameLen -> Grows fs current add) :
    Grows fs current (withName hostName add) := by
  unfold Grows withName
  rw [meets_ite]
  split
  · exact ⟨.refl fs current, packing.sound, edges, linked⟩
  · rw [meets_ite]
    split
    · exact trivial
    · rename_i short
      exact adds (Nat.le_of_not_lt short)

theorem Grows.next {first second : Writer Unit} (packing : Packing fs current) (grows : Grows fs current first)
    (rest : forall middle edges, Packing middle current -> Linked middle edges [] -> Grows middle current second) :
    Grows fs current (first >>= fun _ => second) := by
  unfold Grows
  rw [meets_bind]
  refine grows.mono ?_ (fun _ _ _ => trivial) (fun _ _ => trivial)
  intro _ middle one
  rcases one.linked with ⟨edges, linked⟩
  refine (rest middle edges (packing.kept one.extends_ one.sound) linked).mono ?_ (fun _ _ _ => trivial)
    (fun _ _ => trivial)
  exact fun _ after two => one.trans two

theorem openEntries_grows (dir : HostDir) (packing : Packing fs current) (linked : Linked fs edges []) :
    Grows fs current (openEntries current dir) := by
  induction dir generalizing fs current edges with
  | nil => exact ⟨.refl fs current, packing.sound, edges, linked⟩
  | item name what rest inductionHypothesis =>
      rw [openEntries]
      refine Grows.next packing (withName_grows packing linked fun short => ?_) fun _ _ => inductionHypothesis
      cases what with
      | link real target => exact addLink_grows packing linked short
      | file real content => exact addFile_grows packing linked short
      | other => exact ⟨.refl fs current, packing.sound, edges, linked⟩
  | dir name real entries rest innerHypothesis inductionHypothesis =>
      rw [openEntries]
      refine Grows.next packing (withName_grows packing linked fun short => ?_) fun _ _ => inductionHypothesis
      unfold Grows addDir
      rw [meets_bind, meets_get]
      dsimp only
      rw [meets_bind, meets_assert]
      refine ⟨fun _ => ?_, fun _ => trivial⟩
      refine newInode_grows (fun file => openDirWith file current (openEntries file entries)) packing short
        fun room => ?_
      have inside : Packing (fs.newInode real typeDir) fs.nextIno := by
        refine ⟨packing.sound.newInode room, mem_newInode.mpr (.inl rfl), ?_⟩
        rw [newInode_inode]
        rfl
      refine (openDirWith_grows inside (linked.newInode packing.sound) (mem_newInode.mpr (.inr packing.listed))
        (fun _ member => List.mem_singleton.mp member) fun _ _ => innerHypothesis).mono ?_ (fun _ _ _ => trivial)
        (fun _ _ => trivial)
      rintro _ after ⟨extends_, sound, filled, linkedThen⟩
      exact ⟨extends_, sound, filled, [], linkedThen, fun _ member => by cases member⟩

/-! ## The image -/

namespace SfsFs

/-- The directories of a volume -/
def directories (fs : SfsFs) : List Nat :=
  (List.range fs.ninos).filter fun dir => decide (dir ∈ fs.cacheInodes /\ (fs.inode dir).inode.type = typeDir)

/-- The numbers in the entries of a directory, as they are on the disk -/
def entryNumbers (fs : SfsFs) (dir : Nat) : List Nat :=
  (List.range (fs.inode dir).nblks).map fun index => u32At (fs.disk (fs.blockAt dir index)) 0

/-- The numbers in the entries of all directories -/
def named (fs : SfsFs) : List Nat := fs.directories.flatMap fs.entryNumbers

end SfsFs

theorem count_entriesOf {dirs : List Nat} (once : dirs.Nodup) (edges : List Edge) (file : Nat) :
    (dirs.flatMap fun dir => (entriesOf edges dir).map Prod.fst).count file =
      edges.countP fun edge => decide (edge.dir ∈ dirs) && decide (edge.ino = file) := by
  induction dirs with
  | nil => exact (List.countP_eq_zero.mpr fun edge _ inside => by simp at inside).symm
  | cons dir rest inductionHypothesis =>
      have single : ((entriesOf edges dir).map Prod.fst).count file =
          edges.countP fun edge => decide (edge.dir = dir) && decide (edge.ino = file) := by
        unfold entriesOf
        rw [List.map_map, List.count, List.countP_map, List.countP_filter]
        refine List.countP_congr fun edge _ => ?_
        simp [And.comm]
      have absent := (List.nodup_cons.mp once).1
      rw [List.flatMap_cons, List.count_append, inductionHypothesis (List.nodup_cons.mp once).2, single]
      clear single inductionHypothesis
      induction edges with
      | nil => rfl
      | cons edge edges together =>
          rw [List.countP_cons, List.countP_cons, List.countP_cons, ← together]
          by_cases here : edge.dir = dir
          · have outside : edge.dir ∉ rest := fun member => absent (here ▸ member)
            simp [here, absent]
            omega
          · simp [here]
            omega

/-- The numbers that a directory holds on the disk -/
theorem DirHolds.entryNumbers {entries : List (Nat × List UInt8)} (holds : DirHolds fs current entries)
    (fits : forall entry, entry ∈ entries -> entry.1 < 2 ^ 32) : fs.entryNumbers current = entries.map Prod.fst := by
  unfold SfsFs.entryNumbers
  rw [holds.nblks]
  apply List.ext_getElem
  · rw [List.length_map, List.length_map, List.length_range]
  · intro index low _
    rw [List.length_map, List.length_range] at low
    rw [List.getElem_map, List.getElem_map, List.getElem_range]
    rcases holds.stores index _ (List.getElem?_eq_getElem low) with ⟨old, stores⟩
    refine u32At_of_bytes (fits _ (List.getElem_mem low)) fun k small => ?_
    have size : entryNameBytes = 256 := rfl
    have whole : blksize = 4096 := rfl
    rw [Nat.zero_add, stores k (by omega), entryBlock_low (by omega)]
    exact if_pos small

/-- The edges of a volume are the entries on its disk. -/
theorem Linked.count (linked : Linked fs edges []) (sound : Sound fs []) (file : Nat) :
    fs.named.count file = degree edges file := by
  have accounted := sound.accounted
  have limit := accounted.next_le
  have small := accounted.small
  unfold maxNblks at small
  have once : fs.directories.Nodup := List.nodup_range.filter _
  have same : fs.named = fs.directories.flatMap fun dir => (entriesOf edges dir).map Prod.fst := by
    refine List.flatMap_congr fun dir member => ?_
    have kind := of_decide_eq_true (List.mem_filter.mp member).2
    refine (linked.holds dir kind.1 kind.2).entryNumbers fun entry there => ?_
    rcases List.mem_map.mp there with ⟨edge, listed, rfl⟩
    have low := accounted.inode_lt (linked.ends edge (List.mem_of_mem_filter listed)).2.2
    dsimp only
    omega
  rw [same, count_entriesOf once]
  refine List.countP_congr fun edge member => ?_
  have ends := linked.ends edge member
  have low := accounted.inode_lt ends.1
  have inside : edge.dir ∈ fs.directories :=
    List.mem_filter.mpr ⟨List.mem_range.mpr (Nat.lt_of_lt_of_le low limit), decide_eq_true ⟨ends.1, ends.2.1⟩⟩
  simp [inside]

theorem Sound.named_length (sound : Sound fs []) : fs.named.length <= fs.nextIno := by
  have accounted := sound.accounted
  have holds {dir index : Nat} (member : dir ∈ fs.directories) (low : index ∈ List.range (fs.inode dir).nblks) :
      fs.holds (.data dir index) = some (fs.blockAt dir index) := by
    have listed := (of_decide_eq_true (List.mem_filter.mp member).2).1
    exact Accounted.holds_data listed (((sound.shaped dir listed).blocks index).mpr (List.mem_range.mp low))
  have apart {first second dir other : Nat} (one : fs.holds (.data dir first) = some (fs.blockAt dir first))
      (two : fs.holds (.data other second) = some (fs.blockAt other second))
      (same : fs.blockAt dir first = fs.blockAt other second) : dir = other /\ first = second := by
    have place := accounted.exclusive.once _ _ _ one (two.trans (congrArg some same.symm))
    cases place
    exact ⟨rfl, rfl⟩
  have once : (fs.directories.flatMap fun dir =>
      (List.range (fs.inode dir).nblks).map fun index => fs.blockAt dir index).Nodup := by
    refine List.nodup_flatMap.mpr ⟨fun dir member => ?_, ?_⟩
    · refine List.nodup_range.map_on fun first low second high same => ?_
      exact (apart (holds member low) (holds member high) same).2
    · refine (List.nodup_range.filter _).imp_of_mem fun one two different => ?_
      intro number first second
      rcases List.mem_map.mp first with ⟨index, low, rfl⟩
      rcases List.mem_map.mp second with ⟨other, high, same⟩
      exact different (apart (holds one low) (holds two high) same.symm).1
  have below : (fs.directories.flatMap fun dir =>
      (List.range (fs.inode dir).nblks).map fun index => fs.blockAt dir index) ⊆ List.range fs.nextIno := by
    intro number member
    rcases List.mem_flatMap.mp member with ⟨dir, listed, inside⟩
    rcases List.mem_map.mp inside with ⟨index, low, rfl⟩
    exact List.mem_range.mpr (accounted.held_lt (holds listed low))
  have length := (once.subperm below).length_le
  rw [List.length_range] at length
  unfold SfsFs.named SfsFs.entryNumbers
  simp only [List.length_flatMap, List.length_map] at length ⊢
  exact length

/-- The entries on the disk are the same when the image is finished. -/
theorem closed_named (sound : Sound fs []) : fs.closed.named = fs.named := by
  refine List.flatMap_congr fun dir member => ?_
  have kind := of_decide_eq_true (List.mem_filter.mp member).2
  refine List.map_congr_left fun index low => ?_
  have present := ((sound.shaped dir kind.1).blocks index).mpr (List.mem_range.mp low)
  exact congrArg (u32At · 0) (closed_data sound.accounted (Accounted.holds_data kind.1 present))

/-- What the finished image has of the links -/
theorem Linked.closed (linked : Linked fs edges []) (sound : Sound fs []) :
    (forall number, number ∈ fs.closed.named -> number ∈ fs.cacheInodes) /\
    forall file, file ∈ fs.cacheInodes -> 0 < fs.closed.named.count file /\
      (decodeInode (fs.closed.disk file)).nlinks = fs.closed.named.count file % 2 ^ 16 := by
  have count (file : Nat) : fs.closed.named.count file = degree edges file := by
    rw [closed_named sound]
    exact linked.count sound file
  constructor
  · intro number member
    have positive := List.count_pos_iff.mpr member
    rw [count number] at positive
    rcases List.countP_pos_iff.mp positive with ⟨edge, there, names⟩
    have target := (linked.ends edge there).2.2
    rwa [of_decide_eq_true names] at target
  · intro file listed
    have counted : (fs.inode file).inode.nlinks = degree edges file % 2 ^ 16 := linked.counted file listed
    have fits : (fs.inode file).inode.nlinks < 2 ^ 16 := by
      rw [counted]
      exact Nat.mod_lt _ (by decide)
    rw [count file, closed_inode sound.accounted listed, inodeBlock_splice, ← counted]
    exact ⟨(linked.named file listed).resolve_left List.not_mem_nil, decode_splice_nlinks fits _⟩

theorem createSfs_linked {size : Nat} {disk : Nat -> Bytes} {old : Fin 32 -> UInt8}
    (created : createSfs size disk old = some fs) : Linked fs [] [blknRoot] := by
  -- Nothing of the host has been read yet, so that any tree will do.
  have empty := createSfs_created smallTree created
  have only : forall file, file ∈ fs.cacheInodes -> file = blknRoot := empty.only
  have none : fs.links blknRoot = 0 := by
    unfold createSfs at created
    dsimp only at created
    generalize (if maxNblks < size / blksize % 2 ^ 32 then maxNblks else size / blksize % 2 ^ 32) = ninos at created
    split at created
    · cases created
    · have blank : emptyVolume ninos disk old = fs := Option.some.inj created
      rw [← blank]
      exact congrArg (fun ci => ci.inode.nlinks) emptyVolume_inode
  refine ⟨fun dir member _ => ?_, fun _ member => (by cases member), fun file member => ?_, fun file member => ?_⟩
  · rw [only dir member]
    exact empty.root
  · rw [only file member, none]
    rfl
  · exact .inl (List.mem_singleton.mpr (only file member))

theorem createImg_linked (root : HostDir) {size : Nat} {disk : Nat -> Bytes} {old : Fin 32 -> UInt8}
    {start : SfsFs} (created : createSfs size disk old = some start) (made : createImg root start = .done () fs) :
    Exists fun filled => Exists fun edges => Sound filled [] /\ Linked filled edges [] /\ fs = filled.closed := by
  have empty := createSfs_created smallTree created
  have packing : Packing start blknRoot := ⟨empty.sound, empty.sound.accounted.root, empty.root.type⟩
  have opens : Grows start blknRoot (openDir blknRoot blknRoot root) :=
    openDirWith_grows packing (createSfs_linked created) packing.listed (fun _ member => List.mem_singleton.mp member)
      fun _ _ => openEntries_grows root
  have meets : Meets (createImg root) start ⟨fun _ after => Exists fun filled => Exists fun edges =>
      Sound filled [] /\ Linked filled edges [] /\ after = filled.closed, fun _ _ => True, fun _ => True⟩ := by
    unfold createImg
    rw [meets_bind]
    refine opens.mono (fun _ filled grown => ?_) (fun _ _ _ => trivial) (fun _ _ => trivial)
    rcases grown.linked with ⟨edges, linked⟩
    exact closeSfs_meets grown.sound ⟨filled, edges, grown.sound, linked, rfl⟩
  exact meets.of_done made

/-- In an image that the writer finishes, every entry names an inode, every
inode has an entry, and the link counts are the numbers of entries, in 16
bits. -/
theorem createImg_links (root : HostDir) {size : Nat} {disk : Nat -> Bytes} {old : Fin 32 -> UInt8}
    {start fs : SfsFs} (created : createSfs size disk old = some start) (made : createImg root start = .done () fs) :
    (forall number, number ∈ fs.named -> number ∈ fs.cacheInodes) /\
    forall file, file ∈ fs.cacheInodes -> 0 < fs.named.count file /\
      (decodeInode (fs.disk file)).nlinks = fs.named.count file % 2 ^ 16 := by
  rcases createImg_linked root created made with ⟨filled, edges, sound, linked, rfl⟩
  exact linked.closed sound

/-- The file of the small tree has two names. -/
theorem smallTree_links : Exists fun start => Exists fun fs =>
    createSfs (40 * 4096) (fun _ _ => 0) (fun _ => 0) = some start /\ createImg smallTree.root start = .done () fs /\
      (forall number, number ∈ fs.named -> number ∈ fs.cacheInodes) /\
      forall file, file ∈ fs.cacheInodes -> 0 < fs.named.count file /\
        (decodeInode (fs.disk file)).nlinks = fs.named.count file % 2 ^ 16 := by
  rcases smallImage_created with ⟨start, created, numbers⟩
  rcases createImg_succeeds created (smallTree_fits numbers) with ⟨fs, made⟩
  exact ⟨start, fs, created, made, createImg_links smallTree.root created made⟩

end Mksfs
end Ucore
