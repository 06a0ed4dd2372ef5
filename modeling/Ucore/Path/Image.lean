import Ucore.Mksfs.Entries
import Ucore.Path.Walk

namespace Ucore
namespace Path

open Library
open Program
open Sfs
open Mksfs (HostTree Mounted Filled Decodable Storable Subdirectory Listed listing)

/-!
# The tree of an image

A mounted image holds a tree for paths, when the entries of its directories
are stored whole.
-/

variable {home : HostTree} {start filled : Mksfs.SfsFs} {kernel : SfsFs}

/-- The entries of every directory are stored whole. -/
def Whole (home : HostTree) : Prop := forall directory, directory ∈ home.directories ->
  (forall entry, entry ∈ directory.entries.entries -> entry.1.length <= Mksfs.storedName) /\
    directory.entries.entries.length + 2 <= ndirect + blkNentry

/-- A directory of the volume is one of the host. -/
theorem directory_of_inode (packed : Filled home start filled) {dir : Nat} (listed : dir ∈ filled.cacheInodes)
    (isDir : (filled.inode dir).inode.type = typeDir) :
    Exists fun directory => directory ∈ home.directories /\ (filled.inode dir).real = directory.real := by
  cases packed.registered.kinds dir listed with
  | file content member holds =>
      rw [holds.type] at isDir
      exact absurd isDir (by decide)
  | link type member =>
      rw [type] at isDir
      exact absurd isDir (by decide)
  | dir type member =>
      rcases member with root | below
      · exact ⟨⟨0, 0, home.root⟩, List.mem_cons_self .., root⟩
      · rw [← home.root.subdirectories_real 0] at below
        rcases List.mem_map.mp below with ⟨directory, member, real⟩
        exact ⟨directory, List.mem_cons_of_mem _ member, real.symm⟩

/-- What the kernel decodes of a directory of the volume. -/
theorem decodable_of_inode (packed : Filled home start filled) (started : blknRoot ∈ start.cacheInodes)
    (root : (start.inode blknRoot).real = 0) (whole : Whole home) {dir : Nat} (listed : dir ∈ filled.cacheInodes)
    (isDir : (filled.inode dir).inode.type = typeDir) :
    Exists fun directory => Exists fun parent => Exists fun entries => directory ∈ home.directories /\
      Listed filled directory dir parent entries /\ Decodable filled dir (listing dir parent entries) /\
        Storable (listing dir parent entries) := by
  rcases directory_of_inode packed listed isDir with ⟨directory, member, real⟩
  rcases packed.decodable started root member with ⟨other, parent, entries, known, decodable⟩
  have same : other = dir := packed.registered.once other dir known.dir.1 listed decodable.holds.type isDir
    (known.dir.2.trans real.symm)
  subst same
  exact ⟨directory, parent, entries, member, known, decodable,
    (Mksfs.storable_listing known.named).mpr (whole directory member)⟩

/-- No entry has a slash in its name. -/
theorem listing_noSlash {directory : Subdirectory} {dir parent : Nat} {entries : List (Nat × List UInt8)}
    (named : Mksfs.Named filled entries directory.entries.entries) {entry : Nat × List UInt8}
    (member : entry ∈ listing dir parent entries) : slash ∉ entry.2 := by
  have dots : slash ∉ Mksfs.dot := by decide
  have both : slash ∉ Mksfs.dotdot := by decide
  rcases List.mem_cons.mp member with rfl | later
  · exact dots
  · rcases List.mem_cons.mp later with rfl | inner
    · exact both
    · have name : entry.2 ∈ entries.map Prod.snd := List.mem_map_of_mem inner
      rw [named.map_snd] at name
      rcases List.mem_map.mp name with ⟨⟨bytes, real⟩, here, same⟩
      rcases directory.entries.name_of_entry here with ⟨host, _, rfl⟩
      rw [← same]
      exact fun inside => (host.plain slash inside).2 rfl

/-- The type of an inode fits its field. -/
theorem type_fits (packed : Filled home start filled) {ino : Nat} (listed : ino ∈ filled.cacheInodes) :
    (filled.inode ino).inode.type < 2 ^ 16 := by
  cases packed.registered.kinds ino listed with
  | file content member holds =>
      rw [holds.type]
      decide
  | dir type member =>
      rw [type]
      decide
  | link type member =>
      rw [type]
      decide

/-- A mounted image holds a tree. -/
theorem image_tree (packed : Filled home start filled) (started : blknRoot ∈ start.cacheInodes)
    (root : (start.inode blknRoot).real = 0) (whole : Whole home) (mounted : Mounted filled.closed kernel) :
    Tree kernel filled.cacheInodes := by
  have sound := packed.sound
  have accounted := sound.accounted
  have rootListed := accounted.root
  rcases packed.rootDirectory started root with ⟨entries, listed, holds⟩
  have decodable := listed.decodable holds sound (List.mem_cons_self ..)
  have storable : Storable (listing blknRoot blknRoot entries) :=
    (Mksfs.storable_listing listed.named).mpr (whole _ (List.mem_cons_self ..))
  have decoded := decodable.decoded storable mounted
  rw [← mounted.dinOf accounted rootListed] at decoded
  refine ⟨⟨mounted.owned accounted, ?_⟩, ?_, rootListed, decoded.type, 1, ?_⟩
  · intro ino loaded _
    have inode := mounted.loaded ino loaded
    have low := accounted.inode_lt inode.1
    have limit := accounted.next_le
    rw [inode.2, mounted.block ino (Nat.lt_of_lt_of_le low limit)]
  · intro dir dirListed isDir slot low
    rw [mounted.dinOf accounted dirListed] at isDir low ⊢
    rw [Mksfs.closed_type accounted dirListed (type_fits packed dirListed)] at isDir
    rcases decodable_of_inode packed started root whole dirListed isDir with
      ⟨directory, parent, names, _, known, dirDecodable, dirStorable⟩
    have dirDecoded := dirDecodable.decoded dirStorable mounted
    rw [dirDecoded.slots] at low
    rcases Mksfs.Decoded.entry_exists low with ⟨entry, here⟩
    rw [(dirDecoded.entry slot entry here).2.2]
    exact listing_noSlash known.named (List.mem_of_getElem? here)
  · rw [decoded.slots]
    have here : (listing blknRoot blknRoot entries)[1]? = some (blknRoot, dotdot) := rfl
    exact decoded.search_some here

end Path
end Ucore
