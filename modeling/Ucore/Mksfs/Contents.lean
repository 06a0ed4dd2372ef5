import Ucore.Mksfs.Kernel
import Ucore.Sfs.Reading

namespace Ucore
namespace Mksfs

open Library
open Program
open Sfs

/-!
# The contents of the image

The kernel reads back from an image what the writer packed.  The writer has
tables of a second level, for which the kernel has no code: it reads a file as
far as the first table reaches, and stops at the next block.
-/

variable {home : HostTree} {start fs filled : SfsFs} {kernel : Sfs.SfsFs} {file : Nat} {content : List UInt8}

/-! ## Where the host lists a file -/

/-- A file is an entry of the directory or of one below it. -/
theorem HostDir.entry_of_file (dir : HostDir) (parent : Nat) {real : Nat} (member : (real, content) ∈ dir.files) :
    (Exists fun name => (name, real) ∈ dir.entries) \/
      Exists fun inner => inner ∈ dir.subdirectories parent /\
        Exists fun name => (name, real) ∈ inner.entries.entries := by
  induction dir generalizing parent with
  | nil => cases member
  | item name what rest ih =>
      rcases List.mem_append.mp member with here | later
      · by_cases hidden : name.hidden = true
        · rw [if_pos hidden] at here
          cases here
        · rw [if_neg hidden] at here
          cases what with
          | file other bytes =>
              cases List.mem_singleton.mp here
              refine .inl ⟨name.bytes, List.mem_append_left _ ?_⟩
              rw [if_neg hidden]
              exact List.mem_singleton_self _
          | link other target => cases here
          | other => cases here
      · rcases ih parent later with ⟨other, entry⟩ | below
        · exact .inl ⟨other, List.mem_append_right _ entry⟩
        · exact .inr below
  | dir name real entries rest first second =>
      rcases List.mem_append.mp member with here | later
      · by_cases hidden : name.hidden = true
        · rw [if_pos hidden] at here
          cases here
        · rw [if_neg hidden] at here
          right
          unfold HostDir.subdirectories
          rw [if_neg hidden]
          rcases first real here with entry | ⟨inner, below, entry⟩
          · exact ⟨_, List.mem_append_left _ (List.mem_cons_self ..), entry⟩
          · exact ⟨inner, List.mem_append_left _ (List.mem_cons_of_mem _ below), entry⟩
      · rcases second parent later with ⟨other, entry⟩ | ⟨inner, below, entry⟩
        · exact .inl ⟨other, List.mem_append_right _ entry⟩
        · exact .inr ⟨inner, List.mem_append_right _ below, entry⟩

/-- An entry of the host has an inode. -/
theorem Named.inode_of {entries : List (Nat × List UInt8)} {sources : List (List UInt8 × Nat)}
    (named : Named fs entries sources) {name : List UInt8} {real : Nat} (member : (name, real) ∈ sources) :
    Exists fun ino => ino ∈ fs.cacheInodes /\ (fs.inode ino).real = real := by
  induction named with
  | nil => cases member
  | cons same _ inductionHypothesis =>
      rcases List.mem_cons.mp member with here | later
      · subst here
        exact ⟨_, same.1, same.2.1⟩
      · exact inductionHypothesis later

/-- Every file of the host has an inode. -/
theorem Filled.inode_of (packed : Filled home start filled) {real : Nat} (member : (real, content) ∈ home.root.files) :
    Exists fun file => file ∈ filled.cacheInodes /\ (filled.inode file).real = real := by
  rcases home.root.entry_of_file 0 member with ⟨name, entry⟩ | ⟨inner, below, name, entry⟩
  · rcases packed.root with ⟨entries, _, named⟩
    exact named.inode_of entry
  · rcases packed.packed inner below with ⟨dir, parent, entries, _, _, _, named⟩
    exact named.inode_of entry

theorem Filled.fileHolds (packed : Filled home start filled) (listed : file ∈ filled.cacheInodes)
    (member : ((filled.inode file).real, content) ∈ home.root.files) : FileHolds filled file content := by
  have apart := home.filesApart _ content member
  cases packed.registered.kinds file listed with
  | file other known holds =>
      rw [home.linked _ content other member known]
      exact holds
  | dir type known =>
      rcases known with root | inDirs
      · exact absurd root apart.2.2
      · exact absurd inDirs apart.2.1
  | link type known => exact absurd known apart.1

/-! ## The inode on the disk -/

section Inode

theorem closed_type (accounted : Accounted filled []) (listed : file ∈ filled.cacheInodes)
    (fits : (filled.inode file).inode.type < 2 ^ 16) :
    (decodeInode (filled.closed.disk file)).type = (filled.inode file).inode.type := by
  rw [closed_inode accounted listed, inodeBlock_splice]
  exact decode_splice_type fits _

theorem closed_blocks (sound : Sound filled []) (listed : file ∈ filled.cacheInodes) :
    (decodeInode (filled.closed.disk file)).blocks = (filled.inode file).nblks := by
  have shaped := sound.shaped file listed
  have bounded := shaped.bounded
  have fits : (filled.inode file).inode.blocks < 2 ^ 32 := by
    have small : lnNblks < 2 ^ 32 := by decide
    have counted := shaped.counted
    omega
  rw [closed_inode sound.accounted listed, inodeBlock_splice, ← shaped.counted]
  exact decode_splice_blocks fits _

theorem FileHolds.length_le (holds : FileHolds filled file content) (sound : Sound filled [])
    (listed : file ∈ filled.cacheInodes) : content.length <= maxFileSize := by
  have bounded := (sound.shaped file listed).bounded
  have nblks := holds.nblks
  unfold roundupDiv at nblks
  unfold lnNblks blksize maxFileSize at *
  omega

theorem closed_size (holds : FileHolds filled file content) (sound : Sound filled [])
    (listed : file ∈ filled.cacheInodes) : (decodeInode (filled.closed.disk file)).size = content.length := by
  have small := holds.length_le sound listed
  have fits : (filled.inode file).inode.size < 2 ^ 32 := by
    rw [holds.size]
    unfold maxFileSize at small
    omega
  rw [closed_inode sound.accounted listed, inodeBlock_splice, ← holds.size]
  exact decode_splice_size fits _

/-- The kernel finds the blocks that its map reaches. -/
theorem Mounted.mapped (mounted : Mounted filled.closed kernel) (sound : Sound filled [])
    (listed : file ∈ filled.cacheInodes) {index : Nat} (low : index < (filled.inode file).nblks)
    (reached : index < ndirect + blkNentry) : kernel.Mapped (decodeInode (filled.closed.disk file)) index where
  within := by
    rw [closed_blocks sound listed]
    exact low
  reached := reached
  present := by
    rw [mounted.blockOf sound.accounted listed reached]
    exact ((sound.shaped file listed).blocks index).mpr low

/-- A block of a file, as the kernel reads it. -/
theorem Mounted.block_of (mounted : Mounted filled.closed kernel) (sound : Sound filled [])
    (listed : file ∈ filled.cacheInodes) {index : Nat} (low : index < (filled.inode file).nblks)
    (reached : index < ndirect + blkNentry) :
    kernel.device.block (kernel.blockOf (decodeInode (filled.closed.disk file)) index) =
      filled.disk (filled.blockAt file index) := by
  have present := ((sound.shaped file listed).blocks index).mpr low
  have held := Accounted.holds_data listed present
  have inRange := Nat.lt_of_lt_of_le (sound.accounted.held_lt held) sound.accounted.next_le
  rw [mounted.blockOf sound.accounted listed reached, mounted.block _ inRange]
  exact closed_data sound.accounted held

/-- A byte of a file, as the kernel reads it. -/
theorem Mounted.byteOf (mounted : Mounted filled.closed kernel) (sound : Sound filled [])
    (listed : file ∈ filled.cacheInodes) (holds : FileHolds filled file content) {k : Nat} (low : k < content.length)
    (reached : k < (ndirect + blkNentry) * blksize) :
    kernel.byteOf (decodeInode (filled.closed.disk file)) k = content.getD k 0 := by
  have index : k / blksize < (filled.inode file).nblks := by
    rw [holds.nblks]
    unfold roundupDiv blksize
    omega
  have slot : k / blksize < ndirect + blkNentry := Nat.div_lt_of_lt_mul (by rwa [Nat.mul_comm])
  have inside : k % blksize < blksize := Nat.mod_lt _ (by decide)
  unfold Sfs.SfsFs.byteOf
  rw [mounted.block_of sound listed index slot, holds.bytes _ index _ inside]
  dsimp only
  rw [Nat.div_add_mod']

end Inode

/-! ## Reading back -/

/-- The kernel reads every part of a file from the image, and leaves the rest
of the buffer alone. -/
def ReadsBack (image : SfsFs) (file : Nat) (content : List UInt8) : Prop :=
  forall kernel, Mounted image kernel -> kernel.Works -> file ∈ kernel.inodeList ->
    forall buf offset length, offset < content.length -> offset + length <= content.length ->
      Meets (ioNolock file buf (offset : Nat) length false) kernel
        ⟨fun now _ => now.ret = none /\ now.alen = length /\
          now.buf = splice buf 0 length (fun k => content.getD (offset + k) 0),
          fun _ _ => False, fun _ => False⟩

theorem reads_back (sound : Sound filled []) (listed : file ∈ filled.cacheInodes)
    (holds : FileHolds filled file content) (small : content.length <= (ndirect + blkNentry) * blksize) :
    ReadsBack filled.closed file content := by
  intro kernel mounted works loaded buf offset length inside within
  have owned := mounted.owned sound.accounted
  have din := (mounted.loaded file loaded).2
  have size := closed_size holds sound listed
  have type : (kernel.inode file).din.type = typeFile := by
    have fits : (filled.inode file).inode.type < 2 ^ 16 := by
      rw [holds.type]
      decide
    rw [din, closed_type sound.accounted listed fits, holds.type]
  have limit := holds.length_le sound listed
  rw [← din] at size
  refine (ioNolock_reads owned loaded works ?_ (by omega) (by omega) (by omega) ?_).mono ?_
    (fun _ _ failed => failed) (fun _ stopped => stopped)
  · rw [type]
    decide
  · intro index low
    rw [din]
    apply mounted.mapped sound listed
    · rw [holds.nblks]
      unfold roundupDiv blksize at *
      omega
    · have below : index * blksize < (ndirect + blkNentry) * blksize := by omega
      exact Nat.lt_of_mul_lt_mul_right below
  · rintro now after ⟨_, ret, alen, copied⟩
    refine ⟨ret, alen, ?_⟩
    rw [copied, din]
    funext k
    unfold splice
    by_cases copy : 0 <= k /\ k < 0 + length
    · rw [if_pos copy, if_pos copy]
      exact mounted.byteOf sound listed holds (by omega) (by omega)
    · rw [if_neg copy, if_neg copy]

/-- A device that shows an image and works. -/
def imageDevice (image : SfsFs) : Device := ⟨image.ninos, blksize, image.disk, 0, fun _ => none⟩

/-- The kernel with an inode of the image. -/
def loadedKernel (image : SfsFs) (kernel : Sfs.SfsFs) (file : Nat) : Sfs.SfsFs :=
  { kernel.setInode file ⟨decodeInode (image.disk file), false, 1, 1⟩ with inodeList := [file] }

/-- The image is mounted and an inode is loaded. -/
theorem exists_loaded (sound : Sound filled []) (listed : file ∈ filled.cacheInodes) :
    Exists fun kernel => Mounted filled.closed kernel /\ kernel.Works /\ file ∈ kernel.inodeList := by
  have shows_ : Shows (imageDevice filled.closed) filled.closed := ⟨rfl, fun _ _ => rfl⟩
  rcases (doMount_image sound.accounted shows_).2 (Nat.le_refl _) (fun _ => rfl) with ⟨kernel, _, mounted, works⟩
  refine ⟨loadedKernel filled.closed kernel file, ⟨mounted.super, mounted.nbits, mounted.bits, mounted.block, ?_⟩, ?_,
    List.mem_singleton_self _⟩
  · intro ino member
    cases List.mem_singleton.mp member
    have self : (loadedKernel filled.closed kernel file).inode file =
        ⟨decodeInode (filled.closed.disk file), false, 1, 1⟩ := Function.update_self ..
    rw [self]
    exact ⟨listed, rfl⟩
  · intro number
    exact congrFun works number

/-- Beyond the first table, the kernel stops. -/
theorem stops_beyond (sound : Sound filled []) (listed : file ∈ filled.cacheInodes)
    (holds : FileHolds filled file content) (large : (ndirect + blkNentry) * blksize < content.length)
    (mounted : Mounted filled.closed kernel) (loaded : file ∈ kernel.inodeList) (buf : Bytes) :
    Meets (ioNolock file buf (((ndirect + blkNentry) * blksize : Nat) : Int) 1 false) kernel
      ⟨fun _ _ => False, fun _ _ => False, fun fault => fault = .panic "sfs_bmap_get_nolock - index out of range"⟩ := by
  have din := (mounted.loaded file loaded).2
  have size := closed_size holds sound listed
  have blocks := closed_blocks sound listed
  have fits : (filled.inode file).inode.type < 2 ^ 16 := by
    rw [holds.type]
    decide
  have type := closed_type sound.accounted listed fits
  rw [← din] at size blocks type
  apply ioNolock_unreached
  · rw [type, holds.type]
    decide
  · omega
  · rw [blocks, holds.nblks]
    unfold roundupDiv blksize at *
    omega
  · rfl

/-- The kernel reads back the files that its map reaches, and no others. -/
theorem contents_read_back (home : HostTree) {size : Nat} {disk : Nat -> Bytes} {old : Fin 32 -> UInt8}
    {start fs : SfsFs} (created : createSfs size disk old = some start)
    (made : createImg home.root start = .done () fs) {real : Nat} {content : List UInt8}
    (member : (real, content) ∈ home.root.files) :
    (Exists fun file => file ∈ fs.cacheInodes /\ (fs.inode file).real = real) /\
    forall file, file ∈ fs.cacheInodes -> (fs.inode file).real = real ->
      (ReadsBack fs file content <-> content.length <= (ndirect + blkNentry) * blksize) := by
  rcases createImg_finished created made with ⟨filled, packed, rfl⟩
  have sound := packed.sound
  refine ⟨packed.inode_of member, ?_⟩
  intro file listed same
  have holds : FileHolds filled file content := by
    apply packed.fileHolds listed
    rw [← same] at member
    exact member
  constructor
  · intro readsBack
    refine Nat.le_of_not_lt fun large => ?_
    rcases exists_loaded sound listed with ⟨kernel, mounted, works, loaded⟩
    have stops := stops_beyond sound listed holds large mounted loaded (fun _ => 0)
    have returns := readsBack kernel mounted works loaded (fun _ => 0) _ 1 large large
    rcases stops.stopped with ⟨fault, ran, _⟩
    exact returns.of_stop ran
  · exact reads_back sound listed holds

/-! ## A large file -/

/-- A tree of one file, whose name is letters `a`. -/
def singleFile (letters : Nat) (bytes : List UInt8) : HostTree where
  root := .item ⟨97 :: List.replicate letters 97, List.cons_ne_nil _ _, by simp⟩ (.file 5 bytes) .nil
  linked := by
    intro real first second one two
    cases List.mem_singleton.mp one
    cases List.mem_singleton.mp two
    rfl
  filesApart := by
    intro real content member
    cases List.mem_singleton.mp member
    exact ⟨List.not_mem_nil, List.not_mem_nil, by decide⟩
  dirsApart := fun real member => nomatch member
  dirsOnce := List.nodup_nil
  distinct := ⟨fun _ => List.not_mem_nil, trivial⟩

theorem singleFile_cost (letters : Nat) (bytes : List UInt8) :
    (singleFile letters bytes).root.cost = 4 + 3 * roundupDiv bytes.length blksize := rfl

theorem singleFile_files (letters : Nat) (bytes : List UInt8) : (5, bytes) ∈ (singleFile letters bytes).root.files :=
  List.mem_singleton_self _

theorem singleFile_fits {letters : Nat} {bytes : List UInt8} (short : letters < maxFnameLen)
    (small : bytes.length <= maxFileSize)
    (room : start.nextIno + 6 + (4 + 3 * roundupDiv bytes.length blksize) <= start.ninos) :
    TreeFits start (singleFile letters bytes) := by
  refine ⟨?_, ?_, fun _ => ⟨?_, small⟩, trivial⟩
  · rw [singleFile_cost]
    exact room
  · change 1 + 2 <= lnNblks
    decide
  · rw [List.length_cons, List.length_replicate]
    exact short

theorem largeImage_created : Exists fun start => createSfs (8192 * 4096) (fun _ _ => 0) (fun _ => 0) = some start /\
    start.nextIno = 3 /\ start.ninos = 8192 := ⟨_, rfl, rfl, rfl⟩

/-- The last byte of a file that is one byte larger than the map reaches
cannot be read. -/
theorem largeFile_stops {bytes : List UInt8} (length : bytes.length = (ndirect + blkNentry) * blksize + 1) :
    Exists fun start => Exists fun fs => Exists fun file => Exists fun kernel =>
      createSfs (8192 * 4096) (fun _ _ => 0) (fun _ => 0) = some start /\
        createImg (singleFile 0 bytes).root start = .done () fs /\ file ∈ fs.cacheInodes /\
        ((fs.inode file).real, bytes) ∈ (singleFile 0 bytes).root.files /\ Mounted fs kernel /\ kernel.Works /\
        file ∈ kernel.inodeList /\
        ioNolock file (fun _ => 0) (((ndirect + blkNentry) * blksize : Nat) : Int) 1 false kernel =
          .stop (.panic "sfs_bmap_get_nolock - index out of range") := by
  rcases largeImage_created with ⟨start, created, nextIno, ninos⟩
  have total : (ndirect + blkNentry) * blksize + 1 = 4243457 := by decide
  have fits : TreeFits start (singleFile 0 bytes) := by
    apply singleFile_fits (by decide)
    · rw [length]
      decide
    · rw [length, total, nextIno, ninos]
      decide
  rcases createImg_succeeds created fits with ⟨fs, made⟩
  rcases createImg_finished created made with ⟨filled, packed, rfl⟩
  have member := singleFile_files 0 bytes
  rcases packed.inode_of member with ⟨file, listed, real⟩
  rw [← real] at member
  have holds := packed.fileHolds listed member
  rcases exists_loaded packed.sound listed with ⟨kernel, mounted, works, loaded⟩
  have large : (ndirect + blkNentry) * blksize < bytes.length := by omega
  have stops := stops_beyond packed.sound listed holds large mounted loaded (fun _ => 0)
  rcases stops.stopped with ⟨fault, ran, panics⟩
  rw [panics] at ran
  exact ⟨start, _, file, kernel, created, made, listed, member, mounted, works, loaded, ran⟩

/-- A file of two bytes can be read. -/
theorem smallFile_reads_back : Exists fun start => Exists fun fs => Exists fun file =>
    createSfs (8192 * 4096) (fun _ _ => 0) (fun _ => 0) = some start /\
      createImg (singleFile 0 [104, 105]).root start = .done () fs /\ file ∈ fs.cacheInodes /\
      ReadsBack fs file [104, 105] := by
  rcases largeImage_created with ⟨start, created, nextIno, ninos⟩
  have fits : TreeFits start (singleFile 0 [104, 105]) := by
    apply singleFile_fits (by decide)
    · decide
    · rw [nextIno, ninos]
      decide
  rcases createImg_succeeds created fits with ⟨fs, made⟩
  rcases contents_read_back (singleFile 0 [104, 105]) created made (singleFile_files 0 _) with
    ⟨⟨file, listed, real⟩, reads⟩
  exact ⟨start, fs, file, created, made, listed, (reads file listed real).mpr (by decide)⟩

/-- A file of zeros with 1036 blocks and one byte. -/
theorem zeroFile_stops : Exists fun start => Exists fun fs => Exists fun file => Exists fun kernel =>
    createSfs (8192 * 4096) (fun _ _ => 0) (fun _ => 0) = some start /\
      createImg (singleFile 0 (List.replicate 4243457 0)).root start = .done () fs /\ file ∈ fs.cacheInodes /\
      ((fs.inode file).real, List.replicate 4243457 0) ∈ (singleFile 0 (List.replicate 4243457 0)).root.files /\
      Mounted fs kernel /\ kernel.Works /\ file ∈ kernel.inodeList /\
      ioNolock file (fun _ => 0) (4243456 : Int) 1 false kernel =
        .stop (.panic "sfs_bmap_get_nolock - index out of range") :=
  largeFile_stops List.length_replicate

end Mksfs
end Ucore
