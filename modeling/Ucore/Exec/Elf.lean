import Ucore.Vm.AddressSpace

namespace Ucore
namespace Exec

open Vm

/-!
# Program files

The headers of a program are read from the file as they lie in memory, the
lowest byte of a number first.  Only the fields that the loader looks at are
kept.

The file calls are a parameter.  What the loader relies on is that a read that
returns the whole length has read the bytes of the file from the position that
was sought.
-/

/-- The number in `count` bytes from a place on -/
def littleEndian (bytes : Nat -> UInt8) (place : Nat) : Nat -> Nat
  | 0 => 0
  | count + 1 => littleEndian bytes place count + (bytes (place + count)).toNat * 256 ^ count

/-- The number depends on its own bytes only. -/
theorem littleEndian_congr {bytes other : Nat -> UInt8} (place count : Nat)
    (same : forall index, index < count -> bytes (place + index) = other (place + index)) :
    littleEndian bytes place count = littleEndian other place count := by
  induction count with
  | zero => rfl
  | succ count inductionHypothesis =>
      unfold littleEndian
      rw [inductionHypothesis fun index below => same index (Nat.lt_succ_of_lt below),
        same count (Nat.lt_succ_self count)]

/-! ## Headers -/

/-- `struct elfhdr` -/
structure Elfhdr where
  eMagic : UInt32
  eEntry : UInt64
  ePhoff : UInt64
  ePhnum : UInt16
deriving DecidableEq, Repr

def elfhdrSize : Nat := 64

def elfMagic : UInt32 := 0x464C457F

def elfhdrOf (bytes : Nat -> UInt8) : Elfhdr where
  eMagic := UInt32.ofNat (littleEndian bytes 0 4)
  eEntry := UInt64.ofNat (littleEndian bytes 24 8)
  ePhoff := UInt64.ofNat (littleEndian bytes 32 8)
  ePhnum := UInt16.ofNat (littleEndian bytes 56 2)

/-- `struct proghdr` -/
structure Proghdr where
  pType : UInt32
  pFlags : UInt32
  pOffset : UInt64
  pVa : UInt64
  pFilesz : UInt64
  pMemsz : UInt64
deriving DecidableEq, Repr

def proghdrSize : Nat := 56

def elfPtLoad : UInt32 := 1

def proghdrOf (bytes : Nat -> UInt8) : Proghdr where
  pType := UInt32.ofNat (littleEndian bytes 0 4)
  pFlags := UInt32.ofNat (littleEndian bytes 4 4)
  pOffset := UInt64.ofNat (littleEndian bytes 8 8)
  pVa := UInt64.ofNat (littleEndian bytes 16 8)
  pFilesz := UInt64.ofNat (littleEndian bytes 32 8)
  pMemsz := UInt64.ofNat (littleEndian bytes 40 8)

theorem elfhdrOf_congr {bytes other : Nat -> UInt8}
    (same : forall index, index < elfhdrSize -> bytes index = other index) :
    elfhdrOf bytes = elfhdrOf other := by
  have field : forall place count, place + count <= 64 ->
    littleEndian bytes place count = littleEndian other place count :=
    fun place count fits => littleEndian_congr place count fun index below =>
      same (place + index) (Nat.lt_of_lt_of_le (Nat.add_lt_add_left below place) fits)
  unfold elfhdrOf
  rw [field 0 4 (by decide), field 24 8 (by decide), field 32 8 (by decide), field 56 2 (by decide)]

theorem proghdrOf_congr {bytes other : Nat -> UInt8}
    (same : forall index, index < proghdrSize -> bytes index = other index) :
    proghdrOf bytes = proghdrOf other := by
  have field : forall place count, place + count <= 56 ->
    littleEndian bytes place count = littleEndian other place count :=
    fun place count fits => littleEndian_congr place count fun index below =>
      same (place + index) (Nat.lt_of_lt_of_le (Nat.add_lt_add_left below place) fits)
  unfold proghdrOf
  rw [field 0 4 (by decide), field 4 4 (by decide), field 8 8 (by decide), field 16 8 (by decide),
    field 32 8 (by decide),
    field 40 8 (by decide)]

namespace Proghdr

/-- The area of a segment is executable, writable and readable as `p_flags`
says. -/
def vmFlags (ph : Proghdr) : VmFlags where
  exec := ph.pFlags.toNat.testBit 0
  write := ph.pFlags.toNat.testBit 1
  read := ph.pFlags.toNat.testBit 2

/-- `perm`: a writable page is readable too. -/
def perm (ph : Proghdr) : Pte where
  v := true
  u := true
  r := ph.vmFlags.read || ph.vmFlags.write
  w := ph.vmFlags.write
  x := ph.vmFlags.exec

end Proghdr

/-- A word as an `off_t` -/
def offT (word : Int) : Int := Int.bmod word (2 ^ 64)

/-- A word that is no negative `off_t` is kept. -/
theorem offT_exact {word : Nat} (small : word < 2 ^ 64) (positive : 0 <= offT word) :
    word < 2 ^ 63 /\ offT word = word := by
  have low : word < 2 ^ 63 := by
    by_contra high
    have negative : offT word < 0 := by
      unfold offT
      rw [Int.bmod_neg]
      · omega
      · omega
    omega
  refine ⟨low, Int.bmod_eq_of_le_mul_two ?_ ?_⟩
  · omega
  · omega

/-! ## Files -/

/-- `sysfile_seek` with `LSEEK_SET`, and `sysfile_read` with what goes to the
buffer -/
structure FileCalls (File : Type) where
  seek : File -> Int -> Int × File
  read : File -> Nat -> Int × (Nat -> UInt8) × File

/-- The open file has these bytes.  A seek or a read may fail or be short at any
time; what a read returns in full is what stands at the place. -/
structure Serves {File : Type} (calls : FileCalls File) (isOpen : File -> Prop) (content : Nat -> UInt8) : Prop where
  seeks : forall file offset, isOpen file -> isOpen (calls.seek file offset).2
  reads : forall file len, isOpen file -> isOpen (calls.read file len).2.2
  negative : forall file offset, isOpen file -> offset < 0 -> (calls.seek file offset).1 ≠ 0
  bounded : forall file len, isOpen file -> (calls.read file len).1 <= len
  bytes : forall file offset len, isOpen file -> (calls.seek file offset).1 = 0 ->
    (calls.read (calls.seek file offset).2 len).1 = len ->
      forall index, index < len -> (calls.read (calls.seek file offset).2 len).2.1 index =
        content (offset.toNat + index)

/-- Within the first `size` bytes of the file every seek succeeds, and every
read returns the whole length. -/
structure Whole {File : Type} (calls : FileCalls File) (isOpen : File -> Prop) (size : Nat) : Prop where
  seeks : forall file (offset : Int), isOpen file -> 0 <= offset -> offset <= size -> (calls.seek file offset).1 = 0
  reads : forall file (offset : Int) (len : Nat), isOpen file -> 0 <= offset -> offset + len <= size ->
    (calls.read (calls.seek file offset).2 len).1 = len

end Exec
end Ucore
