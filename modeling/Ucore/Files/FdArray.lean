import Mathlib.Logic.Function.Basic
import Ucore.Library.Program
import Ucore.Library.Run

namespace Ucore
namespace Files

open Library Library.Program

/-!
# The table of open files

A `struct files_struct` is shared by the processes that were cloned with
`CLONE_FS`.  Its entries go from `FD_NONE` over `FD_INIT` and `FD_OPENED` to
`FD_CLOSED` and back.  A process runs until it has to wait, which it does only
inside a `vop_*` call; what it does afterwards is kept as its stage.  In the
meantime the other processes use the same entries.

Each call of `fd_array_open` hands out a new ticket.  The code has no tickets:
they say which of the successive files of an entry is meant, and `closings`
lists the tickets of the files for which `vfs_close` has been started.
-/

/-- `FILES_STRUCT_NENTRY`: what is left of a page after the `files_struct`, in
files. -/
def filesStructNentry : Nat := (4096 - 48) / 56

def noFd : Int := -0x9527

def eInval : Int := 3

def eBusy : Int := 15

def eMaxOpen : Int := 22

inductive FdStatus where
  | fdNone
  | fdInit
  | fdOpened
  | fdClosed
deriving DecidableEq

/-- `struct file` -/
structure OpenFile where
  status : FdStatus
  readable : Bool
  writable : Bool
  fd : Nat
  pos : Int
  node : Option Nat
  openCount : Int
  ticket : Nat

/-- The operations that have acquired their file when they call the inode. -/
inductive FileOp where
  | read
  | write
  | seekEnd (pos : Int)
  | seek (pos : Int)
  | fstat
  | fsync
  | getdirentry

/-- What follows on `fd_array_free`: the result of the call, or the rest of
the loop of `files_closeall` or `files_destroy`. -/
inductive Next where
  | result (code : Int)
  | sweep (destroy : Bool) (remaining : Nat)

/-- The `vop_*` call a process is in. -/
inductive Stage where
  | opening (fd openFlags : Nat)
  | sizing (fd node openFlags : Nat)
  | abandoning (fd : Nat) (code : Int)
  | operating (fd ticket : Nat) (op : FileOp)
  | freeing (fd : Nat) (next : Next)
  | leaving

/-- `struct files_struct`, the processes that share it, and the calls they are
in. -/
structure FilesStruct (Process : Type) where
  pwd : Option Nat
  fdArray : Nat -> OpenFile
  filesCount : Int
  sharing : Process -> Bool
  stage : Process -> Option Stage
  destroyed : Bool
  returned : List (Process × Int)
  issued : Nat
  closings : List Nat

abbrev DescriptorFault := String

/-- An error is the result of the call. -/
abbrev Kernel (Process Value : Type) := Program (FilesStruct Process) Int DescriptorFault Value

section Table

variable {Process : Type}

def getFile (fd : Nat) : Kernel Process OpenFile := do
  let files <- get
  pure (files.fdArray fd)

def FilesStruct.setFile (files : FilesStruct Process) (fd : Nat) (file : OpenFile) : FilesStruct Process :=
  { files with fdArray := Function.update files.fdArray fd file }

@[simp] theorem FilesStruct.setFile_self (files : FilesStruct Process) (fd : Nat) (file : OpenFile) :
    (files.setFile fd file).fdArray fd = file := Function.update_self ..

def setFile (fd : Nat) (file : OpenFile) : Kernel Process Unit := modify fun files => files.setFile fd file

def getFdArray : Kernel Process (FilesStruct Process) := do
  let files <- get
  assert (0 < files.filesCount) "filesp != NULL && files_count(filesp) > 0"
  pure files

def Testfd (fd : Int) : Prop := 0 <= fd /\ fd < filesStructNentry

instance (fd : Int) : Decidable (Testfd fd) := inferInstanceAs (Decidable (_ /\ _))

/-- The entry that `fd_array_alloc` finds. -/
def fdArrayFind (files : FilesStruct Process) (fd : Int) : Except Int Nat :=
  if fd = noFd then
    match (List.range filesStructNentry).find? (fun fd => (files.fdArray fd).status = .fdNone) with
    | some found => .ok found
    | none => .error (-eMaxOpen)
  else if Testfd fd then
    if (files.fdArray fd.toNat).status = .fdNone then .ok fd.toNat else .error (-eBusy)
  else .error (-eInval)

def fdArrayAlloc (fd : Int) : Kernel Process Nat := do
  let files <- getFdArray
  match fdArrayFind files fd with
  | .error code => throw code
  | .ok found => do
      let file <- getFile found
      assert (file.openCount = 0) "fopen_count(file) == 0"
      setFile found { file with status := .fdInit, node := none }
      pure found

/-- `fd_array_free` up to `vfs_close`, which the process waits in if there is
one. -/
def fdArrayFree (fd : Nat) : Kernel Process Bool := do
  let file <- getFile fd
  assert (file.status = .fdInit \/ file.status = .fdClosed) "file->status == FD_INIT || file->status == FD_CLOSED"
  assert (file.openCount = 0) "fopen_count(file) == 0"
  if file.status = .fdClosed then do
    modify fun files => { files with closings := file.ticket :: files.closings }
    pure true
  else do
    setFile fd { file with status := .fdNone }
    pure false

/-- `fd_array_free` after `vfs_close` -/
def fdArrayFreed (fd : Nat) : Kernel Process Unit := do
  let file <- getFile fd
  setFile fd { file with status := .fdNone }

def fdArrayAcquire (fd : Nat) : Kernel Process Unit := do
  let file <- getFile fd
  assert (file.status = .fdOpened) "file->status == FD_OPENED"
  setFile fd { file with openCount := file.openCount + 1 }

/-- `fopen_count_dec`, and `fd_array_free` at zero -/
def fdArrayDrop (fd : Nat) (file : OpenFile) : Kernel Process Bool := do
  setFile fd { file with openCount := file.openCount - 1 }
  if file.openCount - 1 = 0 then fdArrayFree fd else pure false

def fdArrayRelease (fd : Nat) : Kernel Process Bool := do
  let file <- getFile fd
  assert (file.status = .fdOpened \/ file.status = .fdClosed) "file->status == FD_OPENED || file->status == FD_CLOSED"
  assert (0 < file.openCount) "fopen_count(file) > 0"
  fdArrayDrop fd file

def fdArrayOpen (fd : Nat) : Kernel Process Unit := do
  let file <- getFile fd
  assert (file.status = .fdInit /\ file.node ≠ none) "file->status == FD_INIT && file->node != NULL"
  let files <- get
  setFile fd { file with status := .fdOpened, openCount := file.openCount + 1, ticket := files.issued }
  modify fun files => { files with issued := files.issued + 1 }

def fdArrayClose (fd : Nat) : Kernel Process Bool := do
  let file <- getFile fd
  assert (file.status = .fdOpened) "file->status == FD_OPENED"
  assert (0 < file.openCount) "fopen_count(file) > 0"
  fdArrayDrop fd { file with status := .fdClosed }

def fdArrayDup (fd : Nat) (file : OpenFile) : Kernel Process Unit := do
  let target <- getFile fd
  assert (target.status = .fdInit /\ file.status = .fdOpened) "to->status == FD_INIT && from->status == FD_OPENED"
  setFile fd { target with pos := file.pos, readable := file.readable, writable := file.writable, node := file.node }
  fdArrayOpen fd

def fd2file (fd : Int) : Kernel Process Nat :=
  if Testfd fd then do
    let files <- getFdArray
    let file := files.fdArray fd.toNat
    if file.status = .fdOpened /\ (file.fd : Int) = fd then pure fd.toNat else throw (-eInval)
  else throw (-eInval)

end Table

/-! ## The calls -/

section Calls

variable {Process : Type} [DecidableEq Process]

/-- The process waits in a `vop_*` call. -/
def wait (process : Process) (stage : Stage) : Kernel Process Unit :=
  modify fun files => { files with stage := Function.update files.stage process (some stage) }

/-- The call returns. -/
def finish (process : Process) (code : Int) : Kernel Process Unit :=
  modify fun files =>
    { files with
      stage := Function.update files.stage process none
      returned := (process, code) :: files.returned }

/-- The call returns when the entry has been freed, if it has to be. -/
def settle (process : Process) (fd : Nat) (code : Int) (waits : Bool) : Kernel Process Unit :=
  if waits = true then wait process (.freeing fd (.result code)) else finish process code

/-- `O_ACCMODE`, `O_APPEND` -/
def accmode (openFlags : Nat) : Nat := openFlags % 4

def appends (openFlags : Nat) : Bool := openFlags.testBit 5

/-- `file_open` up to `vfs_open` -/
def fileOpen (process : Process) (openFlags : Nat) : Kernel Process Unit :=
  if accmode openFlags = 3 then throw (-eInval)
  else do
    let fd <- fdArrayAlloc noFd
    wait process (.opening fd openFlags)

/-- The end of `file_open` -/
def fileOpened (process : Process) (fd node openFlags : Nat) : Kernel Process Unit := do
  let file <- getFile fd
  setFile fd
    { file with
      node := some node
      readable := accmode openFlags ≠ 1
      writable := accmode openFlags ≠ 0 }
  fdArrayOpen fd
  finish process file.fd

/-- `file_open` when it gives up -/
def fileAbandoned (process : Process) (fd : Nat) (code : Int) : Kernel Process Unit := do
  let waits <- fdArrayFree fd
  settle process fd code waits

/-- `file_open` from `vfs_open` on -/
def vfsOpened (process : Process) (fd openFlags : Nat) (ret : Int) (node : Nat) : Kernel Process Unit :=
  if ret ≠ 0 then fileAbandoned process fd ret
  else do
    let file <- getFile fd
    setFile fd { file with pos := 0 }
    if appends openFlags = true then wait process (.sizing fd node openFlags)
    else fileOpened process fd node openFlags

/-- `file_open` from `vop_fstat` on; `vfs_close` is a call to wait in. -/
def fileSized (process : Process) (fd node openFlags : Nat) (ret : Int) (size : Nat) : Kernel Process Unit :=
  if ret ≠ 0 then wait process (.abandoning fd ret)
  else do
    let file <- getFile fd
    setFile fd { file with pos := size }
    fileOpened process fd node openFlags

def fileClose (process : Process) (fd : Int) : Kernel Process Unit := do
  let fd <- fd2file fd
  let waits <- fdArrayClose fd
  settle process fd 0 waits

def fileDup (process : Process) (fd1 fd2 : Int) : Kernel Process Unit := do
  let file1 <- fd2file fd1
  let file2 <- fdArrayAlloc fd2
  let file <- getFile file1
  fdArrayDup file2 file
  let target <- getFile file2
  finish process target.fd

/-- `fd_array_acquire`, and the call of the inode. -/
def startOp (process : Process) (fd : Nat) (op : FileOp) : Kernel Process Unit := do
  fdArrayAcquire fd
  let file <- getFile fd
  wait process (.operating fd file.ticket op)

/-- `fd_array_release`, and the result. -/
def endOp (process : Process) (fd : Nat) (code : Int) : Kernel Process Unit := do
  let waits <- fdArrayRelease fd
  settle process fd code waits

/-- `file_read` and `file_write` -/
def fileIo (process : Process) (fd : Int) (write : Bool) : Kernel Process Unit := do
  let fd <- fd2file fd
  let file <- getFile fd
  if (if write = true then file.writable else file.readable) = true then
    startOp process fd (if write = true then .write else .read)
  else throw (-eInval)

/-- `LSEEK_SET`, `LSEEK_CUR`, `LSEEK_END` -/
def fileSeek (process : Process) (fd pos : Int) (whence : Nat) : Kernel Process Unit := do
  let fd <- fd2file fd
  let file <- getFile fd
  match whence with
  | 0 => startOp process fd (.seek pos)
  | 1 => startOp process fd (.seek (pos + file.pos))
  | 2 => startOp process fd (.seekEnd pos)
  | _ => do
      startOp process fd (.seek pos)
      endOp process fd (-eInval)

/-- `file_fstat`, `file_fsync` and `file_getdirentry` -/
def fileStat (process : Process) (fd : Int) (op : FileOp) : Kernel Process Unit := do
  let fd <- fd2file fd
  startOp process fd op

/-- The position moves unless the file was closed in the meantime. -/
def movePos (fd : Nat) (copied : Nat) : Kernel Process Unit := do
  let file <- getFile fd
  if file.status = .fdOpened then setFile fd { file with pos := file.pos + copied } else pure ()

/-- An operation from the answer of the inode on. -/
def answered (process : Process) (fd ticket : Nat) (ret : Int) (value : Nat) : FileOp -> Kernel Process Unit
  | .read => do
      movePos fd value
      endOp process fd ret
  | .write => do
      movePos fd value
      endOp process fd ret
  | .seekEnd pos =>
      if ret = 0 then wait process (.operating fd ticket (.seek (pos + value))) else endOp process fd ret
  | .seek pos =>
      if ret = 0 then do
        let file <- getFile fd
        setFile fd { file with pos := pos }
        endOp process fd ret
      else endOp process fd ret
  | .fstat => endOp process fd ret
  | .fsync => endOp process fd ret
  | .getdirentry => endOp process fd ret

/-- The loop of `files_destroy`, and that of `files_closeall`, which does not
look at the entry again. -/
def sweep (process : Process) (destroy : Bool) : Nat -> Kernel Process Unit
  | 0 =>
      if destroy = true then
        modify fun files => { files with stage := Function.update files.stage process none, destroyed := true }
      else finish process 0
  | remaining + 1 => do
      let fd := filesStructNentry - (remaining + 1)
      let file <- getFile fd
      let waits <- if file.status = .fdOpened then fdArrayClose fd else pure false
      if waits = true then wait process (.freeing fd (.sweep destroy remaining))
      else do
        let now <- getFile fd
        assert (destroy = true -> now.status = .fdNone) "file->status == FD_NONE"
        sweep process destroy remaining

/-- After `vfs_close` in `fd_array_free` -/
def freed (process : Process) (fd : Nat) (next : Next) : Kernel Process Unit := do
  fdArrayFreed fd
  match next with
  | .result code => finish process code
  | .sweep destroy remaining => do
      let now <- getFile fd
      assert (destroy = true -> now.status = .fdNone) "file->status == FD_NONE"
      sweep process destroy remaining

/-- `files_closeall` leaves standard input and output. -/
def filesCloseall (process : Process) : Kernel Process Unit := do
  let files <- get
  assert (0 < files.filesCount) "filesp != NULL && files_count(filesp) > 0"
  sweep process false (filesStructNentry - 2)

def filesDestroy (process : Process) : Kernel Process Unit := do
  let files <- get
  assert (files.filesCount = 0) "filesp != NULL && files_count(filesp) == 0"
  match files.pwd with
  | some _ => wait process .leaving
  | none => sweep process true filesStructNentry

/-- `put_files`, when the process exits -/
def putFiles (process : Process) : Kernel Process Unit := do
  modify fun files =>
    { files with
      sharing := Function.update files.sharing process false
      filesCount := files.filesCount - 1 }
  let files <- get
  if files.filesCount = 0 then filesDestroy process else pure ()

/-- `dup_files` into the table that `files_create` has made. -/
def dupFiles (files : FilesStruct Process) : Kernel Process Unit := do
  let target <- get
  assert (target.filesCount = 0 /\ 0 < files.filesCount) "files_count(to) == 0 && files_count(from) > 0"
  modify fun target => { target with pwd := files.pwd }
  forRange (fun fd =>
    if (files.fdArray fd).status = .fdOpened then do
      let target <- getFile fd
      setFile fd { target with status := .fdInit }
      fdArrayDup fd (files.fdArray fd)
    else pure ()) 0 filesStructNentry

/-- `files_create` with `fd_array_init` -/
def filesCreate : FilesStruct Process where
  pwd := none
  fdArray := fun fd => ⟨.fdNone, false, false, fd, 0, none, 0, 0⟩
  filesCount := 0
  sharing := fun _ => false
  stage := fun _ => none
  destroyed := false
  returned := []
  issued := 0
  closings := []

/-- `files_count_inc`, for a process whose `filesp` this is from now on. -/
def FilesStruct.join (files : FilesStruct Process) (process : Process) : FilesStruct Process :=
  { files with sharing := Function.update files.sharing process true, filesCount := files.filesCount + 1 }

end Calls

end Files
end Ucore
