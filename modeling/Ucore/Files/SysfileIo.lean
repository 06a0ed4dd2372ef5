import Ucore.Files.FdArray
import Ucore.Sfs.FileBytes
import Ucore.Vm.UserAreas

namespace Ucore
namespace Sysfile

open Library
open Program
open Files (OpenFile FdStatus Testfd filesStructNentry)
open Sfs (SfsFs Bytes Errno Fault Transfer)
open Vm (Mm userMemCheck userBase userTop)

/-!
# Reading and writing by descriptor

The system calls move the bytes of a file through a buffer of the kernel, one
chunk after the other.  `file_read` and `file_write` move the position of the
file by what the file system has transferred, and `copy_to_user` and
`copy_from_user` may refuse a chunk.

User memory is a map from addresses to bytes.  Nobody else uses the descriptor
during a call.
-/

def iobufSize : Nat := 4096

/-- The value of a conversion to `int`. -/
def toSigned (value : Int) : Int := value.bmod (2 ^ 32)

/-- What the process of the call has. -/
structure Caller where
  fs : SfsFs
  filesCount : Int
  fdArray : Nat -> OpenFile
  mm : Mm
  memory : Nat -> UInt8

abbrev Call (Value : Type) := Program Caller Errno Fault Value

/-- The number of an error, negated. -/
def errorCode : Errno -> Int
  | .inval => -3
  | .noMem => -4
  | .noDev => -13
  | .naDev => -14
  | .busy => -15
  | .noEnt => -16
  | .isDir => -17
  | .notDir => -18
  | .maxOpen => -22
  | .exists => -23
  | .io => -1

def Caller.setFile (caller : Caller) (fd : Nat) (file : OpenFile) : Caller :=
  { caller with fdArray := Function.update caller.fdArray fd file }

/-! ## `file.c` -/

def fd2file (fd : Int) : Call (Option OpenFile) := do
  if Testfd fd then do
    let caller <- get
    assert (0 < caller.filesCount) (.assertion "filesp != NULL && files_count(filesp) > 0")
    let file := caller.fdArray fd.toNat
    pure (if file.status = .fdOpened /\ (file.fd : Int) = fd then some file else none)
  else pure none

def fileTestfd (fd : Int) (readable writable : Bool) : Call Bool := do
  let found <- fd2file fd
  match found with
  | none => pure false
  | some file =>
      pure (if readable = true /\ file.readable = false then false
        else if writable = true /\ file.writable = false then false
        else true)

def fdArrayAcquire (fd : Nat) : Call Unit := do
  let caller <- get
  let file := caller.fdArray fd
  assert (file.status = .fdOpened) (.assertion "file->status == FD_OPENED")
  modify (fun caller => caller.setFile fd { file with openCount := file.openCount + 1 })

/-- `fd_array_free`, for a file that is still open -/
def fdArrayFree (fd : Nat) : Call Unit := do
  let caller <- get
  let file := caller.fdArray fd
  assert (file.status = .fdInit \/ file.status = .fdClosed)
    (.assertion "file->status == FD_INIT || file->status == FD_CLOSED")
  modify (fun caller => caller.setFile fd { file with status := .fdNone })

def fdArrayRelease (fd : Nat) : Call Unit := do
  let caller <- get
  let file := caller.fdArray fd
  assert (file.status = .fdOpened \/ file.status = .fdClosed)
    (.assertion "file->status == FD_OPENED || file->status == FD_CLOSED")
  assert (0 < file.openCount) (.assertion "fopen_count(file) > 0")
  modify (fun caller => caller.setFile fd { file with openCount := file.openCount - 1 })
  if file.openCount - 1 = 0 then fdArrayFree fd else pure ()

/-- `vop_read` and `vop_write` on the inode of the file -/
def vopIo (node : Option Nat) (base : Bytes) (offset : Int) (len : Nat) (write : Bool) : Call Transfer :=
  match node with
  | none => halt (.assertion "node != NULL")
  | some sin => zoom Caller.fs (fun fs caller => { caller with fs := fs }) (Sfs.io sin base offset len write)

/-- What `file_read` and `file_write` share; `allowed` is the permission that
they look at.  The length is that of `*copied_store`. -/
def fileIo (allowed : OpenFile -> Bool) (write : Bool) (fd : Int) (base : Bytes) (len : Nat) : Call Transfer := do
  let found <- fd2file fd
  match found with
  | none => pure ⟨some .inval, 0, base⟩
  | some file =>
      if allowed file = false then pure ⟨some .inval, 0, base⟩
      else do
        fdArrayAcquire fd.toNat
        let done <- vopIo file.node base file.pos len write
        let caller <- get
        let file := caller.fdArray fd.toNat
        if file.status = .fdOpened then
          modify (fun caller => caller.setFile fd.toNat { file with pos := file.pos + done.alen })
        else pure ()
        fdArrayRelease fd.toNat
        pure done

def fileRead (fd : Int) (base : Bytes) (len : Nat) : Call Transfer := fileIo OpenFile.readable false fd base len

def fileWrite (fd : Int) (base : Bytes) (len : Nat) : Call Transfer := fileIo OpenFile.writable true fd base len

/-! ## `vmm.c` -/

/-- `user_mem_check` -/
def checkUser (addr : UInt64) (len : Nat) (write : Bool) : Call Bool := do
  let caller <- get
  match userMemCheck (caller.mm.mmapList.length + 1) caller.mm addr (UInt64.ofNat len) write with
  | none => halt (.panic "user_mem_check")
  | some (result, mm) => do
      modify (fun caller => { caller with mm := mm })
      pure result

def copyToUser (dst : UInt64) (src : Bytes) (len : Nat) : Call Bool := do
  let checked <- checkUser dst len true
  if checked = false then pure false
  else do
    modify (fun caller => { caller with memory := paste dst.toNat len src caller.memory })
    pure true

/-- `copy_from_user` with `writable` off: the buffer, unless the copy is
refused -/
def copyFromUser (dst : Bytes) (src : UInt64) (len : Nat) : Call (Option Bytes) := do
  let checked <- checkUser src len false
  if checked = false then pure none
  else do
    let caller <- get
    pure (some (paste 0 len (fun k => caller.memory (src.toNat + k)) dst))

/-! ## `sysfile.c` -/

/-- The end of both calls: `copied` if it is not zero, and else `ret` -/
def out (copied : Nat) (ret : Option Errno) : Int :=
  if copied ≠ 0 then toSigned copied else ret.elim 0 errorCode

/-- The loop of `sysfile_read` -/
def readLoop (fd : Int) : Nat -> UInt64 -> Nat -> Nat -> Bytes -> Call Int
  | 0, _, _, _, _ => halt (.panic "sysfile_read")
  | fuel + 1, base, len, copied, buffer =>
      if len = 0 then pure (out copied none)
      else do
        let done <- fileRead fd buffer (min iobufSize len)
        if done.alen = 0 then pure (out copied done.ret)
        else do
          let stored <- copyToUser base done.buf done.alen
          if stored = false then pure (out copied (if done.ret = none then some .inval else done.ret))
          else do
            assert (done.alen <= len) (.assertion "len >= alen")
            if done.ret ≠ none then pure (out (copied + done.alen) done.ret)
            else readLoop fd fuel (base + UInt64.ofNat done.alen) (len - done.alen) (copied + done.alen) done.buf

/-- `sysfile_read`, where `kmalloc` gives a buffer or none -/
def sysfileRead (buffer : Option Bytes) (fd : Int) (base len : UInt64) : Call Int := do
  if len = 0 then pure 0
  else do
    let readable <- fileTestfd fd true false
    if readable = false then pure (errorCode .inval)
    else
      match buffer with
      | none => pure (errorCode .noMem)
      | some buffer => readLoop fd (len.toNat + 1) base len.toNat 0 buffer

/-- The loop of `sysfile_write` -/
def writeLoop (fd : Int) : Nat -> UInt64 -> Nat -> Nat -> Bytes -> Call Int
  | 0, _, _, _, _ => halt (.panic "sysfile_write")
  | fuel + 1, base, len, copied, buffer =>
      if len = 0 then pure (out copied none)
      else do
        let loaded <- copyFromUser buffer base (min iobufSize len)
        match loaded with
        | none => pure (out copied (some .inval))
        | some buffer => do
            let done <- fileWrite fd buffer (min iobufSize len)
            if done.alen = 0 then pure (out copied done.ret)
            else do
              assert (done.alen <= len) (.assertion "len >= alen")
              if done.ret ≠ none then pure (out (copied + done.alen) done.ret)
              else writeLoop fd fuel (base + UInt64.ofNat done.alen) (len - done.alen) (copied + done.alen) buffer

def sysfileWrite (buffer : Option Bytes) (fd : Int) (base len : UInt64) : Call Int := do
  if len = 0 then pure 0
  else do
    let writable <- fileTestfd fd false true
    if writable = false then pure (errorCode .inval)
    else
      match buffer with
      | none => pure (errorCode .noMem)
      | some buffer => writeLoop fd (len.toNat + 1) base len.toNat 0 buffer

end Sysfile
end Ucore
