import Ucore.Path.World

namespace Ucore
namespace Path

open Library
open Program
open Sfs

/-!
# Paths

`vfs_lookup` takes a device name, a slash or a colon off the front of a path
and gives the rest, as it stands, to the directory to look up.
-/

/-! ## Starting points -/

def vfsGetCurdir : Call Node := do
  let world <- get
  match world.pwd with
  | none => throw .noEnt
  | some node => do
      refInc node
      pure node

def vfsGetBootfs : Call Node := do
  let world <- get
  match world.bootfs with
  | none => throw .noEnt
  | some node => do
      refInc node
      pure node

def vfsGetRoot (devname : List UInt8) : Call Node := do
  let world <- get
  match world.vdevs.find? (fun vdev => decide (devname = vdev.devname)) with
  | none => throw .noDev
  | some vdev =>
      match vdev.target with
      | .volume => getRoot
      | .device number => do
          refInc (.device number)
          pure (.device number)
      | .unmounted => throw .naDev

/-- The root of the file system of the current directory. -/
def currentRoot : Call Node := do
  let node <- vfsGetCurdir
  assert (node.hasFs = true) (.assertion "node->in_fs != NULL")
  let root <- getRoot
  refDec node
  pure root

/-! ## Lookup -/

/-- The loop of `get_device`: the position of a colon, or that of a slash
before any colon. -/
def scanPath : Nat -> List UInt8 -> Option Nat × Option Nat
  | _, [] => (none, none)
  | i, letter :: rest =>
      if letter = colon then (some i, none)
      else if letter = slash then (none, some i)
      else scanPath (i + 1) rest

/-- `while (*path == '/') path ++` -/
def skipSlashes (path : List UInt8) : List UInt8 := path.dropWhile (fun letter => decide (letter = slash))

def getDevice (path : List UInt8) : Call (List UInt8 × Node) := do
  let (colonAt, slashAt) := scanPath 0 path
  if colonAt = none /\ slashAt ≠ some 0 then do
    let node <- vfsGetCurdir
    pure (path, node)
  else
    match colonAt with
    | some (i + 1) => do
        let node <- vfsGetRoot (path.take (i + 1))
        pure (skipSlashes (path.drop (i + 2)), node)
    | _ => do
        let node <- if path.head? = some slash then vfsGetBootfs else currentRoot
        pure (skipSlashes (path.drop 1), node)

/-- `vop_lookup` and `vop_ref_dec` of the directory -/
def descend (node : Node) (path : List UInt8) : Call Node := ensuring (vopLookup node path) (refDec node)

def vfsLookup (path : List UInt8) : Call Node := do
  let (subpath, node) <- getDevice path
  if subpath ≠ [] then descend node subpath else pure node

/-! ## The name of a directory -/

/-- The loop of `sfs_dirent_findino_nolock` -/
def findinoLoop (sin ino : Nat) : Nat -> Nat -> Kernel DiskEntry
  | 0, _ => throw .noEnt
  | count + 1, slot => do
      let entry <- direntReadNolock sin slot
      if entry.ino = ino then pure entry else findinoLoop sin ino count (slot + 1)

/-- `sfs_dirent_findino_nolock` -/
def direntFindinoNolock (sin ino : Nat) : Kernel DiskEntry := do
  let din <- getDin sin
  findinoLoop sin ino (nslots din) 0

def dotdot : List UInt8 := [46, 46]

/-- The loop of `sfs_namefile` on the inode `ino`, with `resid` bytes left
before the text. -/
def namefileLoop (ino resid : Nat) (text : List UInt8) : Call (List UInt8) := do
  let above <- onError (lookupOnce ino dotdot) (refDec (.sfs ino))
  refDec (.sfs ino)
  if above = ino then do
    refDec (.sfs ino)
    pure text
  else do
    let world <- get
    assert (world.type above = typeDir) (.assertion "ino != sin->ino && sin->din->type == SFS_TYPE_DIR")
    let entry <- onError (onVolume (direntFindinoNolock above ino)) (refDec (.sfs above))
    if _fits : resid < entry.string.length + 1 then do
      refDec (.sfs above)
      throw .noMem
    else namefileLoop above (resid - (entry.string.length + 1)) (entry.string ++ slash :: text)
termination_by resid

/-- `sfs_namefile` with `resid` bytes of room -/
def sfsNamefile (ino resid : Nat) : Call (List UInt8) := do
  if resid <= 2 then throw .noMem
  else do
    let alloc <- kmalloc
    if alloc = false then throw .noMem
    else do
      refInc (.sfs ino)
      let text <- namefileLoop ino (resid - 2) []
      pure (slash :: text)

/-- `vop_namefile`, which files and devices do not have. -/
def vopNamefile (node : Node) (resid : Nat) : Call (List UInt8) :=
  match node with
  | .sfs ino => do
      let world <- get
      assert (world.type ino = typeDir) (missingOp "namefile")
      inodeCheck node
      sfsNamefile ino resid
  | .device _ => halt (missingOp "namefile")

/-- `iobuf_move` of a text; the room that is left. -/
def iobufMove (resid len : Nat) : Call Nat := if resid < len then throw .noMem else pure (resid - len)

/-- `vfs_get_devname` of the volume, whose text is read. -/
def vfsGetDevname : Call (List UInt8) := do
  let world <- get
  match world.vdevs.find? (fun vdev => decide (vdev.target = .volume)) with
  | none => halt (.panic "Load page fault\n")
  | some vdev => pure vdev.devname

/-- `vfs_getcwd` into a buffer of `resid` bytes; the text. -/
def vfsGetcwd (resid : Nat) : Call (List UInt8) := do
  let node <- vfsGetCurdir
  assert (node.hasFs = true) (.assertion "node->in_fs != NULL")
  let devname <- vfsGetDevname
  ensuring (do
      let left <- iobufMove resid devname.length
      let left <- iobufMove left 1
      let text <- vopNamefile node left
      pure (devname ++ colon :: text))
    (refDec node)

end Path
end Ucore
