import Mathlib.Data.List.Basic
import Mathlib.Algebra.Group.Nat.Defs

namespace Ucore
namespace Devices

/-!
# The device tree in memory

The firmware leaves a flattened device tree, which is a block of tokens with
big-endian words and a block of strings.  Only these two blocks are memory
here, so that a read outside of them has no result.

Addresses are numbers that do not wrap.
-/

/-- The blocks, and the words of the header that say where they are, as they are
loaded. -/
structure Dtb where
  vaddr : Nat
  offDtStruct : Nat
  offDtStrings : Nat
  structBlock : List UInt8
  stringsBlock : List UInt8

def fdtBeginNode : Nat := 1

def fdtEndNode : Nat := 2

def fdtProp : Nat := 3

def fdtNop : Nat := 4

def fdtEnd : Nat := 9

def fdt32ToCpu (x : Nat) : Nat :=
  ((x &&& 0xff) <<< 24) ||| (((x >>> 8) &&& 0xff) <<< 16) ||| (((x >>> 16) &&& 0xff) <<< 8) ||| ((x >>> 24) &&& 0xff)

def fdt64ToCpu (x : Nat) : Nat := (fdt32ToCpu (x &&& 0xffffffff) <<< 32) ||| fdt32ToCpu (x >>> 32)

/-- `"memory"` -/
def memoryName : List UInt8 := [109, 101, 109, 111, 114, 121]

/-- `"reg"` -/
def regName : List UInt8 := [114, 101, 103]

/-- `addr & ~3` -/
def alignDown (addr : Nat) : Nat := addr / 4 * 4

/-- What the function takes, and from where. -/
structure MemoryInfo where
  regData : Nat
  memBase : Nat
  memSize : Nat
deriving DecidableEq

namespace Dtb

def structBase (dtb : Dtb) : Nat := dtb.vaddr + fdt32ToCpu dtb.offDtStruct

def stringsBase (dtb : Dtb) : Nat := dtb.vaddr + fdt32ToCpu dtb.offDtStrings

/-- A byte of one of the blocks -/
def read (dtb : Dtb) (addr : Nat) : Option UInt8 :=
  if dtb.structBase <= addr /\ addr < dtb.structBase + dtb.structBlock.length then
    dtb.structBlock[addr - dtb.structBase]?
  else if dtb.stringsBase <= addr then dtb.stringsBlock[addr - dtb.stringsBase]?
  else none

/-- A load of a word by a little-endian machine -/
def load32 (dtb : Dtb) (addr : Nat) : Option Nat := do
  let first <- dtb.read addr
  let second <- dtb.read (addr + 1)
  let third <- dtb.read (addr + 2)
  let fourth <- dtb.read (addr + 3)
  some (first.toNat + 256 * second.toNat + 65536 * third.toNat + 16777216 * fourth.toNat)

def load64 (dtb : Dtb) (addr : Nat) : Option Nat := do
  let low <- dtb.load32 addr
  let high <- dtb.load32 (addr + 4)
  some (low + 4294967296 * high)

def strlenLoop (dtb : Dtb) : Nat -> Nat -> Option Nat
  | 0, _ => none
  | turns + 1, s => do
      let c <- dtb.read s
      if c ≠ 0 then (dtb.strlenLoop turns (s + 1)).map (· + 1) else some 0

/-- `strlen`; a string that leaves the blocks has no length. -/
def strlen (dtb : Dtb) (s : Nat) : Option Nat := dtb.strlenLoop (dtb.structBlock.length + dtb.stringsBlock.length + 1) s

/-- `strncmp`, with the length of the second string -/
def strncmp (dtb : Dtb) (s1 : Nat) : List UInt8 -> Option Int
  | [] => some 0
  | c2 :: s2 => do
      let c1 <- dtb.read s1
      if c1 ≠ 0 /\ c1 = c2 then dtb.strncmp (s1 + 1) s2 else some ((c1.toNat : Int) - c2.toNat)

def strcmp (dtb : Dtb) (s1 : Nat) : List UInt8 -> Option Int
  | [] => do
      let c1 <- dtb.read s1
      some (c1.toNat : Int)
  | c2 :: s2 => do
      let c1 <- dtb.read s1
      if c1 ≠ 0 /\ c1 = c2 then dtb.strcmp (s1 + 1) s2 else some ((c1.toNat : Int) - c2.toNat)

/-- The end of a name, whose length is an `int`. -/
def nameEnd (structPtr nameLen : Nat) : Nat :=
  alignDown ((structPtr : Int) + (nameLen : Int).bmod (2 ^ 32) + 4).toNat

/-- `in_memory_node && strcmp(prop_name, "reg") == 0 && prop_len >= 16` -/
def isMemoryReg (dtb : Dtb) (inMemoryNode : Bool) (propName propLen : Nat) : Option Bool :=
  if inMemoryNode = true then do
    let compared <- dtb.strcmp propName regName
    some (decide (compared = 0 /\ 16 <= propLen))
  else some false

/-- The loop of `extract_memory_info` -/
def extractLoop (dtb : Dtb) : Nat -> Nat -> Bool -> Option (Option MemoryInfo)
  | 0, _, _ => none
  | turns + 1, structPtr, inMemoryNode => do
      let word <- dtb.load32 structPtr
      let token := fdt32ToCpu word
      if token = fdtBeginNode then do
        let nameLen <- dtb.strlen (structPtr + 4)
        let compared <- dtb.strncmp (structPtr + 4) memoryName
        dtb.extractLoop turns (nameEnd (structPtr + 4) nameLen) (if compared = 0 then true else inMemoryNode)
      else if token = fdtEndNode then dtb.extractLoop turns (structPtr + 4) false
      else if token = fdtProp then do
        let propLen := fdt32ToCpu (<- dtb.load32 (structPtr + 4))
        let propNameoff := fdt32ToCpu (<- dtb.load32 (structPtr + 8))
        let propData := structPtr + 12
        let found <- dtb.isMemoryReg inMemoryNode (dtb.stringsBase + propNameoff) propLen
        if found = true then do
          let memBase <- dtb.load64 propData
          let memSize <- dtb.load64 (propData + 8)
          some (some ⟨propData, fdt64ToCpu memBase, fdt64ToCpu memSize⟩)
        else dtb.extractLoop turns (alignDown (propData + propLen + 3)) inMemoryNode
      else if token = fdtNop then dtb.extractLoop turns (structPtr + 4) inMemoryNode
      else some none

/-- `extract_memory_info`: a result unless it reads outside of the blocks -/
def extractMemoryInfo (dtb : Dtb) : Option (Option MemoryInfo) :=
  dtb.extractLoop (dtb.structBlock.length + 1) dtb.structBase false

end Dtb

end Devices
end Ucore
