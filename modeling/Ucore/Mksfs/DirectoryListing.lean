import Ucore.Mksfs.Entries
import Ucore.Sfs.Listing

namespace Ucore
namespace Mksfs

open Library
open Program
open Sfs (DiskInode typeDir usedEntries lsLoop)

/-!
# What `ls` prints

A directory of an image is listed under the kernel as it is on the host: the
entries for the directory itself and its parent, and then those of the host,
in the order in which the host lists them.
-/

section Listing

variable {kernel : Sfs.SfsFs} {dir : Nat} {entries : List (Nat × List UInt8)} {files : List Nat} {filled : SfsFs}

/-- All entries of a directory that is decoded are in use. -/
theorem Decoded.used_strings {din : DiskInode} (decoded : Decoded kernel din entries) :
    (usedEntries (kernel.direntOf din) entries.length 0).map Sfs.DiskEntry.string = entries.map Prod.snd := by
  have all : usedEntries (kernel.direntOf din) entries.length 0 =
      (List.range' 0 entries.length).map (kernel.direntOf din) := by
    refine List.filter_eq_self.mpr (fun found member => decide_eq_true ?_)
    rcases List.mem_map.mp member with ⟨slot, inside, rfl⟩
    have low : slot < entries.length := by
      have inside := List.mem_range'_1.mp inside
      omega
    rcases Decoded.entry_exists low with ⟨entry, here⟩
    rw [(decoded.entry slot entry here).2.1]
    exact decoded.used entry (List.mem_of_getElem? here)
  refine List.ext_getElem? (fun slot => ?_)
  rw [all, List.map_map, List.getElem?_map, List.getElem?_map]
  rcases Nat.lt_or_ge slot entries.length with low | high
  · rcases Decoded.entry_exists low with ⟨entry, here⟩
    rw [here, List.getElem?_range' low, Nat.zero_add, Nat.one_mul]
    exact congrArg some (decoded.entry slot entry here).2.2
  · rw [List.getElem?_eq_none (by rw [List.length_range']; exact high), List.getElem?_eq_none high]
    rfl

/-- A directory that is decoded can be listed. -/
theorem Decoded.lists (decoded : Decoded kernel (kernel.inode dir).din entries) (owned : kernel.Owned files)
    (works : kernel.Works) (loaded : dir ∈ kernel.inodeList) :
    kernel.Lists files dir (kernel.direntOf (kernel.inode dir).din) entries.length := by
  refine ⟨owned, works, loaded, decoded.type, decoded.blocks, fun slot low => ?_, fun _ _ => rfl⟩
  rcases Decoded.entry_exists low with ⟨entry, here⟩
  exact (decoded.entry slot entry here).1

end Listing

/-- `ls` lists a directory of the image as the host does, in every kernel that
has mounted the image, whatever other calls keep the directory in between. -/
theorem directories_listed (home : HostTree) {size : Nat} {disk : Nat -> Sfs.Bytes} {old : Fin 32 -> UInt8}
    {start fs : SfsFs} (created : createSfs size disk old = some start)
    (made : createImg home.root start = .done () fs) {directory : Subdirectory}
    (member : directory ∈ home.directories)
    (short : forall entry, entry ∈ directory.entries.entries -> entry.1.length <= storedName)
    (few : directory.entries.entries.length + 2 <= Sfs.ndirect + Sfs.blkNentry) :
    Exists fun dir => Exists fun parent => Exists fun entries => Listed fs directory dir parent entries /\
      forall kernel, Mounted fs kernel -> kernel.Works -> dir ∈ kernel.inodeList ->
        forall between : Nat -> Sfs.SfsFs -> Sfs.SfsFs,
          (forall entry count turns current, current.Lists fs.cacheInodes dir entry count ->
            (between turns current).Lists fs.cacheInodes dir entry count) ->
          forall turns, directory.entries.entries.length + 2 < turns -> forall name, Exists fun after =>
            lsLoop between dir turns ⟨0, name⟩ kernel =
              .done (dot :: dotdot :: directory.entries.entries.map Prod.fst) after := by
  rcases createImg_finished created made with ⟨filled, packed, rfl⟩
  have empty := createSfs_created home created
  rcases packed.decodable empty.sound.accounted.root empty.real member with ⟨dir, parent, entries, listed, decodable⟩
  have storable : Storable (listing dir parent entries) := (storable_listing listed.named).mpr ⟨short, few⟩
  refine ⟨dir, parent, entries, ⟨listed.dir, listed.parent, listed.named⟩, ?_⟩
  intro kernel mounted works loaded between kept turns enough name
  have decoded := decodable.decoded storable mounted
  rw [← (mounted.loaded dir loaded).2] at decoded
  have lists := decoded.lists (mounted.owned decodable.sound.accounted) works loaded
  have names : (listing dir parent entries).map Prod.snd =
      dot :: dotdot :: directory.entries.entries.map Prod.fst := by
    rw [← listed.named.map_snd]
    rfl
  have length : (listing dir parent entries).length = directory.entries.entries.length + 2 := by
    have length := congrArg List.length names
    rw [List.length_map, List.length_cons, List.length_cons, List.length_map] at length
    exact length
  rcases Sfs.ls_lists lists (fun turns current => kept _ _ turns current) (length.symm ▸ enough) name with
    ⟨after, ran, _⟩
  rw [decoded.used_strings, names] at ran
  exact ⟨after, ran⟩

/-- A directory of one file, which is listed while the device is busy. -/
theorem shortName_listed : Exists fun start => Exists fun fs => Exists fun dir => Exists fun parent =>
    Exists fun entries => createSfs (8192 * 4096) (fun _ _ => 0) (fun _ => 0) = some start /\
      createImg (singleFile 0 []).root start = .done () fs /\
      Listed fs ⟨0, 0, (singleFile 0 []).root⟩ dir parent entries /\
      forall kernel, Mounted fs kernel -> kernel.Works -> dir ∈ kernel.inodeList -> Exists fun after =>
        lsLoop (fun turns current => current.ticks turns) dir 4 ⟨0, fun _ => 0⟩ kernel =
          .done [dot, dotdot, [97]] after := by
  rcases largeImage_created with ⟨start, created, nextIno, ninos⟩
  have fits : TreeFits start (singleFile 0 []) := by
    apply singleFile_fits (by decide) (Nat.zero_le _)
    rw [nextIno, ninos]
    decide
  rcases createImg_succeeds created fits with ⟨fs, made⟩
  rcases directories_listed (singleFile 0 []) created made (List.mem_cons_self ..) (by decide) (by decide) with
    ⟨dir, parent, entries, listed, lists⟩
  exact ⟨start, fs, dir, parent, entries, created, made, listed, fun kernel mounted works loaded =>
    lists kernel mounted works loaded (fun turns current => current.ticks turns)
      (fun _ _ turns _ held => held.read ⟨turns, rfl⟩) 4 (by decide) _⟩

end Mksfs
end Ucore
