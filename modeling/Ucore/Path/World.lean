import Ucore.Sfs.Directory

namespace Ucore
namespace Path

open Library
open Program
open Sfs

/-!
# Inodes above a volume

One volume is mounted, on one of the named devices.  An inode is one of the
volume, reached by its number, or that of a device.  The operations of an
inode are looked up in its table: a missing one is a failed assertion.

Which calls of `kmalloc` succeed is given by their number.
-/

/-- `struct inode *` -/
inductive Node where
  | sfs (ino : Nat)
  | device (number : Nat)
deriving DecidableEq, Repr

/-- `node->in_fs != NULL` -/
def Node.hasFs : Node -> Bool
  | .sfs _ => true
  | .device _ => false

/-- The inode of a device. -/
structure DevInode where
  refCount : Int
  openCount : Int

/-- What a device name stands for: the volume, a device that is not mountable,
or a mountable one without a volume. -/
inductive Target where
  | volume
  | device (number : Nat)
  | unmounted
deriving DecidableEq, Repr

/-- `vfs_dev_t` -/
structure Vdev where
  devname : List UInt8
  target : Target

structure World where
  volume : SfsFs
  /-- `open_count` of the inodes of the volume -/
  openCount : Nat -> Int
  devices : Nat -> DevInode
  vdevs : List Vdev
  /-- `bootfs_node` -/
  bootfs : Option Node
  /-- `current->filesp->pwd` -/
  pwd : Option Node
  calls : Nat
  grants : Nat -> Bool

abbrev Call (Value : Type) := Program World Errno Fault Value

namespace World

def setVolume (volume : SfsFs) (world : World) : World := { world with volume := volume }

def setOpenCount (world : World) (ino : Nat) (count : Int) : World :=
  { world with openCount := Function.update world.openCount ino count }

def setDevice (world : World) (number : Nat) (device : DevInode) : World :=
  { world with devices := Function.update world.devices number device }

/-- `inode_ref_count` -/
def refs (world : World) : Node -> Int
  | .sfs ino => (world.volume.inode ino).refCount
  | .device number => (world.devices number).refCount

/-- `inode_open_count` -/
def opens (world : World) : Node -> Int
  | .sfs ino => world.openCount ino
  | .device number => (world.devices number).openCount

/-- The type of an inode of the volume. -/
def type (world : World) (ino : Nat) : Nat := (world.volume.inode ino).din.type

end World

def onVolume {Value : Type} (program : Kernel Value) : Call Value := zoom World.volume World.setVolume program

def kmalloc : Call Bool := do
  let world <- get
  modify (fun world => { world with calls := world.calls + 1 })
  pure (world.grants world.calls)

/-! ## Counts -/

def refInc : Node -> Call Unit
  | .sfs ino =>
      onVolume (modify (fun fs => fs.setInode ino { fs.inode ino with refCount := (fs.inode ino).refCount + 1 }))
  | .device number => modify (fun world => world.setDevice number
      { world.devices number with refCount := (world.devices number).refCount + 1 })

def maxInodeCount : Int := 65536

def inodeCheck (node : Node) : Call Unit := do
  let world <- get
  assert (world.refs node >= world.opens node /\ world.opens node >= 0)
    (.assertion "ref_count >= open_count && open_count >= 0")
  assert (world.refs node < maxInodeCount /\ world.opens node < maxInodeCount)
    (.assertion "ref_count < MAX_INODE_COUNT && open_count < MAX_INODE_COUNT")

/-- What `__vop_op` checks. -/
def missingOp (sym : String) : Fault :=
  .assertion ("__node != NULL && __node->in_ops != NULL && __node->in_ops->vop_" ++ sym ++ " != NULL")

/-- `inode_ref_dec`; devices have no `vop_reclaim`. -/
def refDec : Node -> Call Unit
  | .sfs ino => do
      let world <- get
      if world.refs (.sfs ino) = 1 then
        assert (world.opens (.sfs ino) = 0) (.assertion "ref_count >= open_count && open_count >= 0")
      else pure ()
      onVolume (Sfs.refDec ino)
  | .device number => do
      let world <- get
      assert (world.refs (.device number) > 0) (.assertion "inode_ref_count(node) > 0")
      modify (fun world => world.setDevice number
        { world.devices number with refCount := (world.devices number).refCount - 1 })
      if world.refs (.device number) = 1 then halt (missingOp "reclaim") else pure ()

/-! ## Lookup of one name -/

/-- `sfs_load_inode`, with its two calls of `kmalloc` -/
def load (ino : Nat) : Call Unit := do
  let world <- get
  if ino ∈ world.volume.inodeList then onVolume (loadInode ino true true)
  else do
    let din <- kmalloc
    let node <- if din = true then kmalloc else pure false
    onVolume (loadInode ino din node)
    modify (fun world => world.setOpenCount ino 0)

/-- `sfs_lookup_once` -/
def lookupOnce (ino : Nat) (name : List UInt8) : Call Nat := do
  let alloc <- kmalloc
  let found <- onVolume (direntSearchNolock alloc ino name)
  load found.1
  pure found.1

/-- `'/'` and `':'` -/
def slash : UInt8 := 47

def colon : UInt8 := 58

def sfsLookup (ino : Nat) (path : List UInt8) : Call Node := do
  assert (path ≠ [] /\ path.head? ≠ some slash) (.assertion "*path != '\\0' && *path != '/'")
  refInc (.sfs ino)
  let world <- get
  if world.type ino ≠ typeDir then do
    refDec (.sfs ino)
    throw .notDir
  else do
    let child <- ensuring (lookupOnce ino path) (refDec (.sfs ino))
    pure (.sfs child)

def devLookup (number : Nat) (path : List UInt8) : Call Node := do
  if path ≠ [] then throw .noEnt
  else do
    refInc (.device number)
    pure (.device number)

/-- `vop_lookup`, which files do not have. -/
def vopLookup (node : Node) (path : List UInt8) : Call Node :=
  match node with
  | .sfs ino => do
      let world <- get
      assert (world.type ino = typeDir) (missingOp "lookup")
      inodeCheck node
      sfsLookup ino path
  | .device number => do
      inodeCheck node
      devLookup number path

/-- `sfs_get_root` -/
def getRoot : Call Node := do
  let outcome <- attempt (load blknRoot)
  match outcome with
  | .ok _ => pure (.sfs blknRoot)
  | .error _ => halt (.panic "load sfs root failed: %e")

end Path
end Ucore
