import Ucore.Mksfs.Links
import Ucore.Sfs.FileStore

namespace Ucore
namespace Mksfs

open Library
open Program
open Sfs
open Sfs.SfsFs (Orderly)

/-!
# The volume of a host tree

An image that was made of files and directories is mounted as a volume in
order, and the store that it starts with has the bytes of the host.  A link
is left out: the kernel loads none.
-/

variable {home : HostTree} {filled : SfsFs} {kernel : Sfs.SfsFs} {file : Nat} {content : List UInt8}

/-- The bytes of the host for each inode of an image -/
def HostTree.store (home : HostTree) (fs : SfsFs) : Store := fun ino =>
  (home.root.files.lookup (fs.inode ino).real).getD []

theorem HostTree.store_eq (member : ((filled.inode file).real, content) ∈ home.root.files) :
    home.store filled file = content := by
  unfold HostTree.store
  cases found : home.root.files.lookup (filled.inode file).real with
  | none =>
      have absent := List.lookup_eq_none_iff.mp found _ member
      exact absurd rfl (bne_iff_ne.mp absent)
  | some other =>
      have known : ((filled.inode file).real, other) ∈ home.root.files := by
        rcases List.lookup_eq_some_iff.mp found with ⟨before, rest, equal, _⟩
        rw [equal]
        exact List.mem_append_right _ (List.mem_cons_self ..)
      exact home.linked _ other content known member

/-! ## What is mounted -/

section Image

/-- The blocks of a file, as the kernel finds them -/
theorem Mounted.full (mounted : Mounted filled.closed kernel) (sound : Sound filled [])
    (listed : file ∈ filled.cacheInodes) (holds : FileHolds filled file content) (small : content.length <= maxMapped) :
    Sfs.SfsFs.Full kernel (decodeInode (filled.closed.disk file)) := by
  have blocks := closed_blocks sound listed
  have nblks := holds.nblks
  have reached : (filled.inode file).nblks <= ndirect + blkNentry := by
    unfold maxMapped roundupDiv blksize at *
    omega
  refine ⟨blocks ▸ reached, fun index => ?_⟩
  rw [blocks]
  by_cases low : index < ndirect + blkNentry
  · rw [mounted.blockOf sound.accounted listed low]
    exact (sound.shaped file listed).blocks index
  · have none : kernel.blockOf (decodeInode (filled.closed.disk file)) index = 0 := by
      unfold Sfs.SfsFs.blockOf
      rw [dif_neg (by omega), if_neg (by omega)]
    exact iff_of_false (fun present => present none) (by omega)

/-- The bytes of a file, as the kernel finds them -/
theorem Mounted.byteIn (mounted : Mounted filled.closed kernel) (sound : Sound filled [])
    (listed : file ∈ filled.cacheInodes) (holds : FileHolds filled file content) (small : content.length <= maxMapped) :
    kernel.byteIn (decodeInode (filled.closed.disk file)) = (content.getD · 0) := by
  have full := mounted.full sound listed holds small
  have blocks := closed_blocks sound listed
  funext k
  unfold Sfs.SfsFs.byteIn
  by_cases inside : k / blksize < (filled.inode file).nblks
  · have present := (full.present (k / blksize)).mpr (blocks ▸ inside)
    have reached : k / blksize < ndirect + blkNentry := Nat.lt_of_lt_of_le (blocks ▸ inside) full.reached
    rw [if_neg present, mounted.block_of sound listed inside reached,
      holds.bytes _ inside _ (Nat.mod_lt _ (by decide))]
    dsimp only
    rw [Nat.div_add_mod']
  · have absent : kernel.blockOf (decodeInode (filled.closed.disk file)) (k / blksize) = 0 :=
      Decidable.not_not.mp fun present => inside (blocks ▸ (full.present _).mp present)
    have beyond : content.length <= k := by
      have nblks := holds.nblks
      unfold roundupDiv blksize at *
      omega
    rw [if_pos absent, List.getD_eq_default _ _ beyond]

/-- A volume that was mounted from a device with the image -/
structure Started (image : SfsFs) (kernel : Sfs.SfsFs) : Prop where
  mounted : Mounted image kernel
  works : kernel.Works
  fresh : kernel.Fresh
  blocks : kernel.super.blocks <= kernel.device.dBlocks
  blocksize : kernel.device.dBlocksize = blksize

theorem doMount_started {device : Device} (accounted : Accounted filled []) (shows_ : Shows device filled.closed)
    (enough : filled.ninos <= device.dBlocks) (fine : forall number, device.error number = none) :
    Exists fun kernel => doMount device = some (.ok kernel) /\ Started filled.closed kernel := by
  rcases (doMount_image accounted shows_).2 enough fine with ⟨kernel, made, mounted, error⟩
  have geometry := doMount_geometry made
  have parts := Prod.ext_iff.mp geometry.1
  have dBlocks : kernel.device.dBlocks = device.dBlocks := parts.1
  refine ⟨kernel, made, mounted, fun number => ?_, doMount_fresh made, ?_, parts.2.trans shows_.dBlocksize⟩
  · rw [error]
    exact fine number
  · rw [dBlocks]
    exact geometry.2

/-- The super block and the free map of the image -/
theorem Started.saved (started : Started filled.closed kernel) (accounted : Accounted filled []) :
    kernel.SuperSaved := by
  have mounted := started.mounted
  have above := accounted.root_lt
  have limit := accounted.next_le
  constructor
  · have low : blknSuper < filled.closed.ninos := by
      change blknSuper < filled.ninos
      unfold blknSuper
      omega
    rw [mounted.block _ low, closed_super_decoded accounted, mounted.super]
    rfl
  · intro index low
    rw [mounted.nbits] at low
    have small : blknFreemap + index / blkbits < filled.closed.ninos := by
      have begun := accounted.started
      have block : index / blkbits < roundupDiv filled.ninos blkbits := Nat.div_lt_of_lt_mul (by rwa [Nat.mul_comm])
      change blknFreemap + index / blkbits < filled.ninos
      unfold SfsFs.firstIno at begun
      omega
    rw [mounted.block _ small, mounted.bits index]
    exact closed_mapBit accounted low

theorem Started.dinOf (started : Started filled.closed kernel) (accounted : Accounted filled [])
    (listed : file ∈ filled.cacheInodes) : kernel.dinOf file = decodeInode (filled.closed.disk file) :=
  started.mounted.dinOf accounted listed

theorem Started.medium (started : Started filled.closed kernel) (accounted : Accounted filled []) :
    kernel.Medium where
  magic := by
    rw [started.mounted.super]
    exact accounted.magic
  ended := by
    have last (info : Fin 32 -> UInt8) : Function.update info 31 0 31 = 0 := Function.update_self ..
    rw [started.mounted.super]
    exact last filled.closed.super.info
  nbits := started.fresh.mapped
  blocks := started.blocks
  blocksize := started.blocksize
  saved := fun _ => started.saved accounted

/-- A file or a directory of the image, as the kernel finds it -/
theorem Started.sorted {start : SfsFs} (started : Started filled.closed kernel) (packed : Filled home start filled)
    (noLinks : home.root.links = []) (small : forall real content, (real, content) ∈ home.root.files ->
      content.length <= maxMapped) (listed : file ∈ filled.cacheInodes)
    (linked : (decodeInode (filled.closed.disk file)).nlinks ≠ 0) : kernel.Sorted (kernel.dinOf file) := by
  have sound := packed.sound
  rw [started.dinOf sound.accounted listed]
  refine ⟨linked, ?_, fun kind => ?_⟩
  · cases packed.registered.kinds file listed with
    | file content member holds =>
        rw [closed_type sound.accounted listed (by rw [holds.type]; decide)]
        exact .inl holds.type
    | dir type member =>
        rw [closed_type sound.accounted listed (by rw [type]; decide)]
        exact .inr type
    | link type member =>
        rw [noLinks] at member
        cases member
  · cases packed.registered.kinds file listed with
    | file content member holds =>
        refine ⟨started.mounted.full sound listed holds (small _ content member), ?_⟩
        rw [closed_blocks sound listed, closed_size holds sound listed]
        exact holds.nblks
    | dir type member =>
        rw [closed_type sound.accounted listed (by rw [type]; decide), type] at kind
        cases kind
    | link type member =>
        rw [noLinks] at member
        cases member

theorem Started.holds {start : SfsFs} (started : Started filled.closed kernel) (packed : Filled home start filled)
    (small : forall real content, (real, content) ∈ home.root.files -> content.length <= maxMapped) :
    kernel.Holds filled.cacheInodes (home.store filled) := by
  intro file listed kind
  have sound := packed.sound
  rw [started.dinOf sound.accounted listed] at kind ⊢
  cases packed.registered.kinds file listed with
  | file content member holds =>
      rw [home.store_eq member, closed_size holds sound listed]
      exact ⟨rfl, started.mounted.byteIn sound listed holds (small _ content member)⟩
  | dir type member =>
      rw [closed_type sound.accounted listed (by rw [type]; decide), type] at kind
      cases kind
  | link type member =>
      rw [closed_type sound.accounted listed (by rw [type]; decide), type] at kind
      cases kind

end Image

/-- An image of files and directories that the kernel can map, in which no
inode has 65536 names, is mounted as a volume in order, on a device that works.
It holds a store, in which every file of the host has its bytes, and the calls
on it are answered as by that store. -/
theorem image_holds_host (home : HostTree) {size : Nat} {disk : Nat -> Bytes} {old : Fin 32 -> UInt8}
    {start fs : SfsFs} {device : Device} (created : createSfs size disk old = some start)
    (made : createImg home.root start = .done () fs) (noLinks : home.root.links = [])
    (small : forall real content, (real, content) ∈ home.root.files -> content.length <= maxMapped)
    (few : forall file, file ∈ fs.cacheInodes -> fs.named.count file < 2 ^ 16) (shows_ : Shows device fs)
    (enough : fs.ninos <= device.dBlocks) (fine : forall number, device.error number = none) :
    (Exists fun kernel => doMount device = some (.ok kernel) /\ Orderly fs.cacheInodes kernel /\
      kernel.Holds fs.cacheInodes (home.store fs) /\ forall calls : List StoreCall,
        callMachine.Along (fun now call => call.Admitted fs.cacheInodes now) kernel calls ->
          RunsAs fs.cacheInodes kernel (home.store fs) calls) /\
    forall real content, (real, content) ∈ home.root.files -> Exists fun file =>
      file ∈ fs.cacheInodes /\ (decodeInode (fs.disk file)).type = typeFile /\ home.store fs file = content := by
  rcases createImg_linked home.root created made with ⟨counted, edges, soundCounted, linked, equal⟩
  have links := (linked.closed soundCounted).2
  have listed : counted.cacheInodes = fs.cacheInodes := by
    rw [equal]
    rfl
  rw [listed, ← equal] at links
  rcases createImg_finished created made with ⟨filled, packed, rfl⟩
  have sound := packed.sound
  constructor
  · rcases doMount_started sound.accounted shows_ enough fine with ⟨kernel, mounted, started⟩
    have none (ino : Nat) : ino ∉ kernel.inodeList := by
      rw [started.fresh.inodeList]
      exact List.not_mem_nil
    have orderly : Orderly filled.closed.cacheInodes kernel := by
      refine ⟨started.mounted.owned sound.accounted, started.works, started.medium sound.accounted,
        fun ino loaded => absurd loaded (none ino), fun file member => ?_⟩
      refine started.sorted packed noLinks small member ?_
      have positive := links file member
      rw [positive.2, Nat.mod_eq_of_lt (few file member)]
      exact Nat.ne_of_gt positive.1
    have holds := started.holds packed small
    exact ⟨kernel, mounted, orderly, holds, fun calls => runsAs orderly holds calls⟩
  · intro real content member
    rcases packed.inode_of member with ⟨file, there, rfl⟩
    have holds := packed.fileHolds there member
    refine ⟨file, there, ?_, home.store_eq member⟩
    rw [closed_type sound.accounted there (by rw [holds.type]; decide)]
    exact holds.type

/-- An image of 8192 blocks with one small file -/
theorem smallFile_held : Exists fun start => Exists fun fs =>
    createSfs (8192 * 4096) (fun _ _ => 0) (fun _ => 0) = some start /\
      createImg (singleFile 0 [104, 105]).root start = .done () fs /\
      (Exists fun kernel => doMount (imageDevice fs) = some (.ok kernel) /\ Orderly fs.cacheInodes kernel /\
        kernel.Holds fs.cacheInodes ((singleFile 0 [104, 105]).store fs) /\ forall calls : List StoreCall,
          callMachine.Along (fun now call => call.Admitted fs.cacheInodes now) kernel calls ->
            RunsAs fs.cacheInodes kernel ((singleFile 0 [104, 105]).store fs) calls) /\
      forall real content, (real, content) ∈ (singleFile 0 [104, 105]).root.files -> Exists fun file =>
        file ∈ fs.cacheInodes /\ (decodeInode (fs.disk file)).type = typeFile /\
          (singleFile 0 [104, 105]).store fs file = content := by
  rcases largeImage_created with ⟨start, created, numbers⟩
  have fits : TreeFits start (singleFile 0 [104, 105]) :=
    singleFile_fits (by decide) (by decide) (by rw [numbers.1, numbers.2]; decide)
  rcases createImg_succeeds created fits with ⟨fs, made⟩
  refine ⟨start, fs, created, made, image_holds_host (singleFile 0 [104, 105]) created made rfl ?_ ?_
    ⟨rfl, fun _ _ => rfl⟩ (Nat.le_refl _) (fun _ => rfl)⟩
  · intro real content member
    cases List.mem_singleton.mp member
    decide
  · intro file _
    rcases createImg_finished created made with ⟨filled, packed, rfl⟩
    have sound := packed.sound
    have blocks : filled.ninos = 8192 := packed.extends_.ninos.trans numbers.2
    have length := sound.named_length
    have limit := sound.accounted.next_le
    rw [closed_named sound]
    exact Nat.lt_of_le_of_lt List.count_le_length (by omega)

end Mksfs
end Ucore
