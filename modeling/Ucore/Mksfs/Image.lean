import Ucore.Library.Program
import Ucore.Sfs.Layout

namespace Ucore
namespace Mksfs

open Library
open Program
open Sfs

/-!
# The image writer

`mksfs` packs a directory of the host into the image of a volume.  It takes
block numbers in order from a counter, writes data and entries at once, and
keeps inodes and tables in memory until the end.

The host is a tree, listed in the order of `readdir`; its system calls are
taken to succeed.  A cache block or cache inode is reached by its number, and
the hash lists hold the numbers.
-/

/-! ## The host -/

/-- A file name of the host. -/
structure HostName where
  bytes : List UInt8
  nonempty : bytes ≠ []
  plain : forall byte, byte ∈ bytes -> byte ≠ 0 /\ byte ≠ 47

/-- What `readdir` gives that is not a directory.  `real` is `st_ino`. -/
inductive HostItem where
  | link (real : Nat) (target : List UInt8)
  | file (real : Nat) (content : List UInt8)
  | other

/-- The entries of a directory of the host. -/
inductive HostDir where
  | nil
  | item (name : HostName) (item : HostItem) (rest : HostDir)
  | dir (name : HostName) (real : Nat) (entries rest : HostDir)

/-- `name[0] == '.'`, which covers `.` and `..` too. -/
def HostName.hidden (name : HostName) : Bool := decide (name.bytes.head? = some 46)

/-! ## Memory -/

/-- `SFS_MAX_FNAME_LEN` -/
def maxFnameLen : Nat := 255

def typeLink : Nat := 3

/-- `SFS_L0_NBLKS`, `SFS_L1_NBLKS`, `SFS_L2_NBLKS`, `SFS_LN_NBLKS` -/
abbrev l0Nblks : Nat := ndirect

def l1Nblks : Nat := blkNentry + l0Nblks

def l2Nblks : Nat := blkNentry * blkNentry + l1Nblks

def lnNblks : Nat := maxFileSize / blksize

def hashListSize : Nat := 1024

/-- `hash32`, with its shift of `HASH_SHIFT` bits -/
def hash32 (val : Nat) : Nat := val * 0x9e370001 % 2 ^ 32 / 2 ^ 22

def hash64 (val : Nat) : Nat := hash32 (val % 2 ^ 32)

/-- `struct inode` of `mksfs`, which ends with one more field than that of
the kernel. -/
structure Inode extends DiskInode where
  dbIndirect : Nat

/-- `struct cache_inode` -/
structure CacheInode where
  inode : Inode
  real : Nat
  nblks : Nat
  l1 : Option Nat
  l2 : Option Nat

/-- `struct sfs_fs`, with the image and the static entry of `add_entry`. -/
structure SfsFs where
  super : Super
  ninos : Nat
  nextIno : Nat
  disk : Nat -> Bytes
  entryName : Bytes
  inodes : Nat -> List Nat
  inode : Nat -> CacheInode
  blocks : Nat -> List Nat
  cache : Nat -> Nat -> Nat

/-- What `bug` prints before it exits. -/
structure Bug where
  text : String
deriving DecidableEq, Repr

structure Assertion where
  text : String
deriving DecidableEq, Repr

abbrev Writer (Value : Type) := Program SfsFs Bug Assertion Value

namespace SfsFs

/-- A number has been taken from the counter. -/
def taken (fs : SfsFs) : SfsFs :=
  { fs with
    nextIno := fs.nextIno + 1
    super := { fs.super with unusedBlocks := fs.super.unusedBlocks - 1 } }

/-- A block of the image has been written. -/
def setDisk (fs : SfsFs) (ino : Nat) (block : Bytes) : SfsFs :=
  { fs with disk := Function.update fs.disk ino block }

def setInode (fs : SfsFs) (ino : Nat) (file : CacheInode) : SfsFs :=
  { fs with inode := Function.update fs.inode ino file }

/-- `cb->cache[slot] = ino` -/
def setCache (fs : SfsFs) (cb slot ino : Nat) : SfsFs :=
  { fs with cache := Function.update fs.cache cb (Function.update (fs.cache cb) slot ino) }

/-- A cleared cache block heads its hash list. -/
def addCacheBlock (fs : SfsFs) (bucket number : Nat) : SfsFs :=
  { fs with
    blocks := Function.update fs.blocks bucket (number :: fs.blocks bucket)
    cache := Function.update fs.cache number (fun _ => 0) }

/-- A cache inode heads its hash list. -/
def addCacheInode (fs : SfsFs) (bucket number : Nat) (file : CacheInode) : SfsFs :=
  { fs with
    inodes := Function.update fs.inodes bucket (number :: fs.inodes bucket)
    inode := Function.update fs.inode number file }

def searchCacheBlock (fs : SfsFs) (ino : Nat) : Option Nat :=
  (fs.blocks (hash32 ino)).find? (fun cb => decide (cb = ino))

def searchCacheInode (fs : SfsFs) (real : Nat) : Option Nat :=
  (fs.inodes (hash64 real)).find? (fun ci => decide ((fs.inode ci).real = real))

end SfsFs

/-- `sfs_alloc_ino` -/
def allocIno : Writer Nat := do
  let fs <- get
  if fs.nextIno < fs.ninos then do
    modify SfsFs.taken
    pure fs.nextIno
  else throw ⟨"out of disk space.\n"⟩

def allocCacheBlock (ino : Nat) : Writer Nat := do
  let number <- if ino ≠ 0 then pure ino else allocIno
  modify (fun fs => fs.addCacheBlock (hash32 ino) number)
  pure number

/-- A cache inode after its `memset`. -/
def CacheInode.fresh (real type : Nat) : CacheInode :=
  ⟨⟨⟨0, type, 0, 0, fun _ => 0, 0⟩, 0⟩, real, 0, none, none⟩

def allocCacheInode (real ino type : Nat) : Writer Nat := do
  let number <- if ino ≠ 0 then pure ino else allocIno
  modify (fun fs => fs.addCacheInode (hash64 real) number (.fresh real type))
  pure number

def writeBlock (data : Bytes) (len ino : Nat) : Writer Unit := do
  let fs <- get
  assert (len <= blksize /\ ino < fs.ninos) ⟨"len <= SFS_BLKSIZE && ino < sfs->ninos"⟩
  modify (fun fs => fs.setDisk ino (if len ≠ blksize then splice (fun _ => 0) 0 len data else data))

/-! ## Files -/

/-- `update_cache`; the result is the number of the cache block, which is
also `*inop`. -/
def updateCache (cbp : Option Nat) (ino : Nat) : Writer Nat := do
  if ino = 0 then allocCacheBlock 0
  else if cbp ≠ some ino then do
    let fs <- get
    assert (fs.searchCacheBlock ino = some ino) ⟨"cb != NULL && cb->ino == ino"⟩
    pure ino
  else pure ino

/-- `inode->direct[nblks] = ino` -/
def CacheInode.setDirect (file : CacheInode) (index : Fin ndirect) (ino : Nat) : CacheInode :=
  { file with inode := { file.inode with toDiskInode := file.inode.toDiskInode.setDirect index ino } }

/-- `file->l1` and `inode->indirect` -/
def CacheInode.setIndirect (file : CacheInode) (cb : Nat) : CacheInode :=
  { file with l1 := some cb, inode := { file.inode with toDiskInode := file.inode.toDiskInode.setIndirect cb } }

/-- `file->l2` and `inode->db_indirect` -/
def CacheInode.setDbIndirect (file : CacheInode) (cb : Nat) : CacheInode :=
  { file with l2 := some cb, inode := { file.inode with dbIndirect := cb } }

def CacheInode.setL1 (file : CacheInode) (cb : Nat) : CacheInode := { file with l1 := some cb }

/-- `file->nblks ++, inode->size += size, inode->blocks ++` -/
def CacheInode.grow (file : CacheInode) (size : Nat) : CacheInode :=
  { file with
    nblks := file.nblks + 1
    inode :=
      { file.inode with
        size := file.inode.size + size
        blocks := file.inode.blocks + 1 } }

/-- `file->inode.nlinks ++`, in 16 bits -/
def CacheInode.addLink (file : CacheInode) : CacheInode :=
  { file with inode := { file.inode with nlinks := (file.inode.nlinks + 1) % 2 ^ 16 } }

def modifyInode (ino : Nat) (change : CacheInode -> CacheInode) : Writer Unit :=
  modify (fun fs => fs.setInode ino (change (fs.inode ino)))

/-- `append_block` with the number in the first table. -/
def appendIndirect (file slot ino : Nat) : Writer Unit := do
  let fs <- get
  let l1 <- updateCache (fs.inode file).l1 (fs.inode file).inode.indirect
  modifyInode file (fun ci => ci.setIndirect l1)
  modify (fun fs => fs.setCache l1 slot ino)

/-- `append_block` with the number in a table that the table `l2` lists. -/
def appendInner (file l2 slot ino : Nat) : Writer Unit := do
  let fs <- get
  let l1 <- updateCache (fs.inode file).l1 (fs.cache l2 (slot / blkNentry))
  modifyInode file (fun ci => ci.setL1 l1)
  modify (fun fs => fs.setCache l2 (slot / blkNentry) l1)
  modify (fun fs => fs.setCache l1 (slot % blkNentry) ino)

/-- `append_block` with the number in a table of the second level. -/
def appendDbIndirect (file slot ino : Nat) : Writer Unit := do
  let fs <- get
  let l2 <- updateCache (fs.inode file).l2 (fs.inode file).inode.dbIndirect
  modifyInode file (fun ci => ci.setDbIndirect l2)
  appendInner file l2 slot ino

/-- The branches of `append_block`. -/
def appendNumber (file nblks ino : Nat) : Writer Unit :=
  if direct : nblks < l0Nblks then modifyInode file (fun ci => ci.setDirect ⟨nblks, direct⟩ ino)
  else if nblks < l1Nblks then appendIndirect file (nblks - l0Nblks) ino
  else if nblks < l2Nblks then appendDbIndirect file (nblks - l1Nblks) ino
  else pure ()

def appendBlock (file size ino : Nat) : Writer Unit := do
  assert (size <= blksize) ⟨"size <= SFS_BLKSIZE"⟩
  let fs <- get
  if lnNblks <= (fs.inode file).nblks then throw ⟨"file is too big.\n"⟩
  else do
    appendNumber file (fs.inode file).nblks ino
    modifyInode file (fun ci => ci.grow size)

/-- The bytes of a buffer. -/
def bytesOf (content : List UInt8) : Bytes := fun k => content.getD k 0

/-- `open_file`; `last` is the result of the `read` before. -/
def openFile (file last : Nat) (content : List UInt8) : Writer Unit :=
  if content = [] then pure ()
  else do
    assert (last = blksize) ⟨"last == SFS_BLKSIZE"⟩
    let ino <- allocIno
    writeBlock (bytesOf content) (min content.length blksize) ino
    appendBlock file (min content.length blksize) ino
    openFile file (min content.length blksize) (content.drop blksize)
termination_by content.length
decreasing_by
  rename_i rest
  have positive := List.length_pos_iff.mpr rest
  rw [List.length_drop]
  unfold blksize
  omega

def openLink (file : Nat) (target : List UInt8) : Writer Unit := do
  let ino <- allocIno
  if blksize <= target.length then throw ⟨"read link failed, %d"⟩
  else do
    writeBlock (bytesOf target) target.length ino
    appendBlock file target.length ino

/-! ## Directories -/

/-- `strcpy(entry->name, name)` -/
def strcpy (old : Bytes) (name : List UInt8) : Bytes := fun k =>
  if k < name.length then name.getD k 0 else if k = name.length then 0 else old k

/-- `struct sfs_entry` -/
def entryBytes (ino : Nat) (name : Bytes) : Bytes := fun k => if k < 4 then numberBytes ino k else name (k - 4)

/-- `sizeof(entry->name)` -/
def entryNameBytes : Nat := maxFnameLen + 1

def addEntry (current file : Nat) (name : List UInt8) : Writer Unit := do
  let fs <- get
  assert ((fs.inode current).inode.type = typeDir /\ name.length <= maxFnameLen)
    ⟨"current->inode.type == SFS_TYPE_DIR && strlen(name) <= SFS_MAX_FNAME_LEN"⟩
  modify (fun fs => { fs with entryName := strcpy fs.entryName name })
  let entryIno <- allocIno
  let fs <- get
  writeBlock (entryBytes file fs.entryName) entryNameBytes entryIno
  appendBlock current entryNameBytes entryIno
  modifyInode file CacheInode.addLink

def dot : List UInt8 := [46]

def dotdot : List UInt8 := [46, 46]

/-- `add_dir`; `openDir` opens the directory with the given inode. -/
def addDir (parent : Nat) (dirname : List UInt8) (real : Nat) (openDir : Nat -> Writer Unit) : Writer Unit := do
  let fs <- get
  assert (fs.searchCacheInode real = none) ⟨"search_cache_inode(sfs, real) == NULL"⟩
  let current <- allocCacheInode real 0 typeDir
  openDir current
  addEntry parent current dirname

def addFile (current : Nat) (filename : List UInt8) (real : Nat) (content : List UInt8) : Writer Unit := do
  let fs <- get
  match fs.searchCacheInode real with
  | some file => addEntry current file filename
  | none => do
      let file <- allocCacheInode real 0 typeFile
      openFile file blksize content
      addEntry current file filename

def addLink (current : Nat) (filename : List UInt8) (real : Nat) (target : List UInt8) : Writer Unit := do
  let file <- allocCacheInode real 0 typeLink
  openLink file target
  addEntry current file filename

/-- What `open_dir` does with an entry that is no directory. -/
def addItem (current : Nat) (name : List UInt8) : HostItem -> Writer Unit
  | .link real target => addLink current name real target
  | .file real content => addFile current name real content
  | .other => pure ()

/-- The checks of `open_dir` on the name of an entry. -/
def withName (name : HostName) (add : Writer Unit) : Writer Unit :=
  if name.hidden = true then pure ()
  else if maxFnameLen < name.bytes.length then throw ⟨"file name is too long: %s\n"⟩
  else add

/-- The first entries of `open_dir` and then the others. -/
def openDirWith (current parent : Nat) (entries : Writer Unit) : Writer Unit := do
  addEntry current current dot
  addEntry current parent dotdot
  entries

/-- The loop of `open_dir`. -/
def openEntries (current : Nat) : HostDir -> Writer Unit
  | .nil => pure ()
  | .item name item rest => do
      withName name (addItem current name.bytes item)
      openEntries current rest
  | .dir name real entries rest => do
      withName name (addDir current name.bytes real (fun ino => openDirWith ino current (openEntries ino entries)))
      openEntries current rest

def openDir (current parent : Nat) (entries : HostDir) : Writer Unit :=
  openDirWith current parent (openEntries current entries)

/-! ## The image -/

/-- `snprintf(sfs->super.info, SFS_MAX_INFO_LEN, "simple file system")` into
memory that held `old`. -/
def superInfo (old : Fin 32 -> UInt8) : Fin 32 -> UInt8 := fun index =>
  strcpy (fun k => if low : k < 32 then old ⟨k, low⟩ else 0)
    ("simple file system".toList.map fun letter => UInt8.ofNat letter.toNat)
    index.val

/-- The fields that `create_sfs` sets; `old` is what `malloc` gave. -/
def SfsFs.blank (ninos nextIno : Nat) (disk : Nat -> Bytes) (old : Fin 32 -> UInt8) : SfsFs where
  super := ⟨sfsMagic, ninos, ninos - nextIno, superInfo old⟩
  ninos := ninos
  nextIno := nextIno
  disk := disk
  entryName := fun _ => 0
  inodes := fun _ => []
  inode := fun _ => .fresh 0 0
  blocks := fun _ => []
  cache := fun _ _ => 0

/-- `create_sfs` on an image of `size` bytes, `none` when it is too small. -/
def createSfs (size : Nat) (disk : Nat -> Bytes) (old : Fin 32 -> UInt8) : Option SfsFs :=
  let ninos := if maxNblks < size / blksize % 2 ^ 32 then maxNblks else size / blksize % 2 ^ 32
  let nextIno := blknFreemap + (ninos + blkbits - 1) / blkbits
  if ninos <= nextIno then none
  else some ((SfsFs.blank ninos nextIno disk old).addCacheInode (hash64 0) blknRoot (.fresh 0 typeDir))

/-- The loop over the bits of a block of the free map. -/
def setBits : Nat -> Nat -> (Nat -> Bool) -> Nat -> Bool
  | _, 0, bit => bit
  | start, count + 1, bit => setBits (start + 1) count (Function.update bit start true)

/-- The buffer that `close_sfs` writes for the bits from `i` on. -/
def freemapBlock (ninos nextIno i : Nat) : Bytes :=
  if nextIno < i + blkbits then
    let start := if i < nextIno then nextIno - i else 0
    let stop := if ninos < i + blkbits then ninos - i else blkbits
    freemapBytes (setBits start (stop - start) (fun _ => false))
  else fun _ => 0

/-- A cache block in memory. -/
def tableBytes (table : Nat -> Nat) : Bytes := fun k => numberBytes (table (k / 4)) (k % 4)

/-- `sizeof(ci->inode)` -/
def cacheInodeBytes : Nat := inodeBytes + 4

def encodeCacheInode (inode : Inode) : Bytes := fun k =>
  if k < inodeBytes then encodeInode inode.toDiskInode k else numberBytes inode.dbIndirect (k - inodeBytes)

/-- `flush_cache_block` along a hash list. -/
def flushCacheBlocks : List Nat -> Writer Unit
  | [] => pure ()
  | cb :: rest => do
      let fs <- get
      writeBlock (tableBytes (fs.cache cb)) blksize cb
      flushCacheBlocks rest

/-- `flush_cache_inode` along a hash list. -/
def flushCacheInodes : List Nat -> Writer Unit
  | [] => pure ()
  | ci :: rest => do
      let fs <- get
      writeBlock (encodeCacheInode (fs.inode ci).inode) cacheInodeBytes ci
      flushCacheInodes rest

def closeSfs : Writer Unit := do
  let fs <- get
  forRange (fun number =>
      writeBlock (freemapBlock fs.ninos fs.nextIno (number * blkbits)) blksize (blknFreemap + number))
    0 (roundupDiv fs.ninos blkbits)
  writeBlock (encodeSuper fs.super) superBytes blknSuper
  forRange (fun i => do
      flushCacheBlocks (fs.blocks i)
      flushCacheInodes (fs.inodes i))
    0 hashListSize

/-- `create_img` from the opened image on. -/
def createImg (home : HostDir) : Writer Unit := do
  openDir blknRoot blknRoot home
  closeSfs

end Mksfs
end Ucore
