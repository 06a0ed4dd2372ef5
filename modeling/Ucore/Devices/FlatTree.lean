import Ucore.Devices.DeviceTree

namespace Ucore
namespace Devices

/-!
# Flattened device trees

A tree is written as tokens: the beginning of a node with its name, its
properties, its children, and its end.  Words are big-endian, names and values
are padded to four bytes, and there may be empty tokens anywhere.
-/

/-- A word of the tree -/
def bigEndian32 (value : Nat) : List UInt8 :=
  [UInt8.ofNat (value / 16777216), UInt8.ofNat (value / 65536), UInt8.ofNat (value / 256), UInt8.ofNat value]

/-- The number that bytes are, the first one being the highest. -/
def bigEndian (bytes : List UInt8) : Nat := bytes.foldl (fun value byte => 256 * value + byte.toNat) 0

structure Property where
  name : List UInt8
  nameoff : Nat
  value : List UInt8
  padding : List UInt8

/-- What stands before the children of a node -/
inductive Item where
  | nop
  | prop (property : Property)

/-- Nodes that follow each other, each with its children -/
inductive Forest where
  | nil
  | nop (rest : Forest)
  | node (name padding : List UInt8) (items : List Item) (children rest : Forest)

def Property.flatten (property : Property) : List UInt8 :=
  bigEndian32 fdtProp ++ (bigEndian32 property.value.length ++ (bigEndian32 property.nameoff ++
    (property.value ++ property.padding)))

def Item.flatten : Item -> List UInt8
  | nop => bigEndian32 fdtNop
  | prop property => property.flatten

namespace Forest

def flatten : Forest -> List UInt8
  | nil => []
  | nop rest => bigEndian32 fdtNop ++ rest.flatten
  | node name padding items children rest =>
      (bigEndian32 fdtBeginNode ++ (name ++ 0 :: padding)) ++ (items.flatMap Item.flatten ++ (children.flatten ++
        (bigEndian32 fdtEndNode ++ rest.flatten)))

/-- The tokens -/
def count : Forest -> Nat
  | nil => 0
  | nop rest => rest.count + 1
  | node _ _ items children rest => items.length + children.count + rest.count + 2

end Forest

/-! ## Well-formed trees -/

/-- `memory`, or `memory@` and a unit address -/
def IsMemoryName (name : List UInt8) : Prop := name = memoryName \/ memoryName ++ [64] <+: name

instance (name : List UInt8) : Decidable (IsMemoryName name) := inferInstanceAs (Decidable (_ \/ _))

/-- The name is in the strings block, and the value ends at a word. -/
structure Property.WellFormed (strings : List UInt8) (property : Property) : Prop where
  name : 0 ∉ property.name
  stored : Exists fun front => Exists fun back =>
    strings = front ++ (property.name ++ 0 :: back) /\ front.length = property.nameoff
  padding : (property.value.length + property.padding.length) % 4 = 0
  short : property.padding.length < 4

/-- The same for the properties of a node; that of a memory node has an address
and a size of two cells each. -/
def ItemWellFormed (strings : List UInt8) (ofMemory : Prop) : Item -> Prop
  | .nop => True
  | .prop property => property.WellFormed strings /\
      (ofMemory -> property.name = regName -> 16 <= property.value.length)

def Forest.WellFormed (strings : List UInt8) : Forest -> Prop
  | nil => True
  | nop rest => rest.WellFormed strings
  | node name padding items children rest =>
      0 ∉ name /\ (name.length + 1 + padding.length) % 4 = 0 /\ padding.length < 4 /\
        (forall item, item ∈ items -> ItemWellFormed strings (IsMemoryName name) item) /\
        children.WellFormed strings /\ rest.WellFormed strings

/-- The two blocks hold the tree.  The names are shorter than an `int` can
count, since the kernel maps one gigabyte. -/
structure Dtb.Encodes (dtb : Dtb) (forest : Forest) : Prop where
  structBlock : dtb.structBlock = forest.flatten ++ bigEndian32 fdtEnd
  wellFormed : forest.WellFormed dtb.stringsBlock
  aligned : dtb.structBase % 4 = 0
  structSmall : dtb.structBlock.length < 2 ^ 31
  stringsSmall : dtb.stringsBlock.length < 2 ^ 31
  apart : dtb.stringsBase + dtb.stringsBlock.length <= dtb.structBase \/
    dtb.structBase + dtb.structBlock.length <= dtb.stringsBase

/-! ## Words -/

theorem toNat_ofNat (value : Nat) : (UInt8.ofNat value).toNat = value % 256 := UInt8.toNat_ofNat'

/-- The bytes of a word are swapped. -/
theorem fdt32ToCpu_bytes {first second third fourth : Nat} (one : first < 256) (two : second < 256)
    (three : third < 256) (four : fourth < 256) :
    fdt32ToCpu (first + 256 * second + 65536 * third + 16777216 * fourth) =
      16777216 * first + 65536 * second + 256 * third + fourth := by
  have mask : forall value, value &&& 0xff = value % 256 := fun value => Nat.and_two_pow_sub_one_eq_mod value 8
  unfold fdt32ToCpu
  simp only [mask, Nat.shiftRight_eq_div_pow]
  have low : (first + 256 * second + 65536 * third + 16777216 * fourth) % 256 = first := by omega
  have next : (first + 256 * second + 65536 * third + 16777216 * fourth) / 2 ^ 8 % 256 = second := by omega
  have higher : (first + 256 * second + 65536 * third + 16777216 * fourth) / 2 ^ 16 % 256 = third := by omega
  have high : (first + 256 * second + 65536 * third + 16777216 * fourth) / 2 ^ 24 % 256 = fourth := by omega
  rw [low, next, higher, high, Nat.or_assoc, Nat.or_assoc]
  have lowest : third <<< 8 ||| fourth = 256 * third + fourth := by
    rw [← Nat.shiftLeft_add_eq_or_of_lt (show fourth < 2 ^ 8 from four), Nat.shiftLeft_eq]
    omega
  have lower : second <<< 16 ||| (256 * third + fourth) = 65536 * second + 256 * third + fourth := by
    rw [← Nat.shiftLeft_add_eq_or_of_lt (show 256 * third + fourth < 2 ^ 16 by omega), Nat.shiftLeft_eq]
    omega
  rw [lowest, lower, ← Nat.shiftLeft_add_eq_or_of_lt (show 65536 * second + 256 * third + fourth < 2 ^ 24 by omega),
    Nat.shiftLeft_eq]
  omega

theorem fdt64ToCpu_words {low high : Nat} (small : low < 2 ^ 32) (fits : fdt32ToCpu high < 2 ^ 32) :
    fdt64ToCpu (low + 4294967296 * high) = 4294967296 * fdt32ToCpu low + fdt32ToCpu high := by
  have mask : forall value, value &&& 0xffffffff = value % 4294967296 :=
    fun value => Nat.and_two_pow_sub_one_eq_mod value 32
  unfold fdt64ToCpu
  rw [mask, Nat.shiftRight_eq_div_pow]
  have first : (low + 4294967296 * high) % 4294967296 = low := by omega
  have second : (low + 4294967296 * high) / 2 ^ 32 = high := by omega
  rw [first, second, ← Nat.shiftLeft_add_eq_or_of_lt fits, Nat.shiftLeft_eq]
  omega

/-! ## Reading -/

namespace Dtb

variable {dtb : Dtb} {addr : Nat} {bytes first second : List UInt8}

/-- The memory has these bytes from the address on. -/
def Reads (dtb : Dtb) : Nat -> List UInt8 -> Prop
  | _, [] => True
  | addr, byte :: bytes => dtb.read addr = some byte /\ dtb.Reads (addr + 1) bytes

theorem reads_append : dtb.Reads addr (first ++ second) <->
    dtb.Reads addr first /\ dtb.Reads (addr + first.length) second := by
  induction first generalizing addr with
  | nil => exact ⟨fun reads => ⟨trivial, reads⟩, fun both => both.2⟩
  | cons byte first inductionHypothesis =>
      have place : addr + (byte :: first).length = addr + 1 + first.length := by
        rw [List.length_cons]
        omega
      rw [List.cons_append, Reads, Reads, inductionHypothesis, place, and_assoc]

/-- A part of the tree is read where it is. -/
theorem reads_struct {front : List UInt8} (block : dtb.structBlock = front ++ bytes) :
    dtb.Reads (dtb.structBase + front.length) bytes := by
  induction bytes generalizing front with
  | nil => trivial
  | cons byte bytes inductionHypothesis =>
      constructor
      · have inside : dtb.structBase <= dtb.structBase + front.length /\
            dtb.structBase + front.length < dtb.structBase + dtb.structBlock.length := by
          rw [block, List.length_append, List.length_cons]
          omega
        unfold read
        rw [if_pos inside, Nat.add_sub_cancel_left, block, List.getElem?_append_right (Nat.le_refl _), Nat.sub_self]
        rfl
      · have split : dtb.structBlock = (front ++ [byte]) ++ bytes := by
          rw [block, List.append_assoc]
          rfl
        have rest := inductionHypothesis split
        rw [List.length_append] at rest
        exact rest

/-- A string is read where it is. -/
theorem reads_strings {forest : Forest} (encodes : dtb.Encodes forest) {front back : List UInt8}
    (block : dtb.stringsBlock = front ++ (bytes ++ back)) : dtb.Reads (dtb.stringsBase + front.length) bytes := by
  induction bytes generalizing front with
  | nil => trivial
  | cons byte bytes inductionHypothesis =>
      constructor
      · have length : dtb.stringsBlock.length = front.length + (bytes.length + back.length + 1) := by
          rw [block, List.length_append, List.length_append, List.length_cons]
          omega
        have outside : ¬ (dtb.structBase <= dtb.stringsBase + front.length /\
            dtb.stringsBase + front.length < dtb.structBase + dtb.structBlock.length) := by
          have apart := encodes.apart
          omega
        unfold read
        rw [if_neg outside, if_pos (Nat.le_add_right ..), Nat.add_sub_cancel_left, block,
          List.getElem?_append_right (Nat.le_refl _), Nat.sub_self]
        rfl
      · have split : dtb.stringsBlock = (front ++ [byte]) ++ (bytes ++ back) := by
          rw [block, List.append_assoc]
          rfl
        have rest := inductionHypothesis split
        rw [List.length_append] at rest
        exact rest

/-- A word of four bytes, as it is loaded and swapped -/
theorem load32_bytes {one two three four : UInt8} (reads : dtb.Reads addr [one, two, three, four]) :
    Exists fun word => dtb.load32 addr = some word /\ word < 2 ^ 32 /\
      fdt32ToCpu word = bigEndian [one, two, three, four] := by
  obtain ⟨first, second, third, fourth, _⟩ := reads
  have small : forall byte : UInt8, byte.toNat < 256 := fun byte => byte.toNat_lt
  refine ⟨one.toNat + 256 * two.toNat + 65536 * three.toNat + 16777216 * four.toNat, ?_, ?_, ?_⟩
  · unfold load32
    rw [first, second, third, fourth]
    rfl
  · have lowest := small one
    have low := small two
    have high := small three
    have highest := small four
    omega
  · rw [fdt32ToCpu_bytes (small one) (small two) (small three) (small four)]
    unfold bigEndian
    simp only [List.foldl]
    omega

theorem load32_word {value : Nat} (reads : dtb.Reads addr (bigEndian32 value)) (small : value < 2 ^ 32) :
    Exists fun word => dtb.load32 addr = some word /\ fdt32ToCpu word = value := by
  obtain ⟨word, loaded, _, swapped⟩ := load32_bytes reads
  refine ⟨word, loaded, swapped.trans ?_⟩
  unfold bigEndian
  simp only [List.foldl, toNat_ofNat]
  omega

theorem load64_bytes {one two three four five six seven eight : UInt8}
    (reads : dtb.Reads addr [one, two, three, four, five, six, seven, eight]) :
    Exists fun word => dtb.load64 addr = some word /\
      fdt64ToCpu word = bigEndian [one, two, three, four, five, six, seven, eight] := by
  obtain ⟨lower, upper⟩ := (@reads_append dtb addr [one, two, three, four] [five, six, seven, eight]).mp reads
  obtain ⟨low, lowLoaded, lowSmall, lowSwapped⟩ := load32_bytes lower
  obtain ⟨high, highLoaded, _, highSwapped⟩ := load32_bytes upper
  refine ⟨low + 4294967296 * high, ?_, ?_⟩
  · unfold load64
    change dtb.load32 (addr + 4) = some high at highLoaded
    rw [lowLoaded]
    change (dtb.load32 (addr + 4)).bind _ = _
    rw [highLoaded]
    rfl
  · have fits : fdt32ToCpu high < 2 ^ 32 := by
      have small : forall byte : UInt8, byte.toNat < 256 := fun byte => byte.toNat_lt
      have lowest := small five
      have next := small six
      have higher := small seven
      have highest := small eight
      rw [highSwapped]
      unfold bigEndian
      simp only [List.foldl]
      omega
    rw [fdt64ToCpu_words lowSmall fits, lowSwapped, highSwapped]
    unfold bigEndian
    simp only [List.foldl]
    omega

/-- A string has the length of its name. -/
theorem strlenLoop_eq {name : List UInt8} (nonzero : 0 ∉ name) {turns : Nat} (enough : name.length < turns)
    (reads : dtb.Reads addr (name ++ [0])) : dtb.strlenLoop turns addr = some name.length := by
  induction name generalizing turns addr with
  | nil =>
      cases turns with
      | zero => cases enough
      | succ turns =>
          rw [strlenLoop, reads.1]
          rfl
  | cons byte name inductionHypothesis =>
      cases turns with
      | zero => cases enough
      | succ turns =>
          have rest := inductionHypothesis (fun member => nonzero (List.mem_cons_of_mem _ member))
            (Nat.lt_of_succ_lt_succ enough) reads.2
          have different : byte ≠ 0 := by
            rintro rfl
            exact nonzero (List.mem_cons_self ..)
          rw [strlenLoop, reads.1]
          change (if byte ≠ 0 then (dtb.strlenLoop turns (addr + 1)).map (· + 1) else some 0) = _
          rw [if_pos different, rest]
          rfl

/-- Two bytes have no difference if they are the same. -/
theorem sub_eq_zero {first second : UInt8} : (first.toNat : Int) - second.toNat = 0 <-> first = second := by
  rw [Int.sub_eq_zero, Int.natCast_inj]
  exact UInt8.toNat_inj

theorem strncmp_eq {name literal : List UInt8} (nonzero : 0 ∉ literal) (reads : dtb.Reads addr (name ++ [0])) :
    Exists fun compared => dtb.strncmp addr literal = some compared /\ (compared = 0 <-> literal <+: name) := by
  induction literal generalizing name addr with
  | nil => exact ⟨0, rfl, ⟨fun _ => List.nil_prefix, fun _ => rfl⟩⟩
  | cons byte literal inductionHypothesis =>
      have different : byte ≠ 0 := by
        rintro rfl
        exact nonzero (List.mem_cons_self ..)
      cases name with
      | nil =>
          rw [strncmp, reads.1]
          refine ⟨_, rfl, ?_⟩
          rw [sub_eq_zero, List.prefix_nil]
          exact ⟨fun zero => absurd zero.symm different, fun empty => absurd empty (List.cons_ne_nil _ _)⟩
      | cons letter name =>
          rw [strncmp, reads.1]
          change Exists fun compared => (if letter ≠ 0 /\ letter = byte then dtb.strncmp (addr + 1) literal
            else some ((letter.toNat : Int) - byte.toNat)) = some compared /\ _
          by_cases same : letter = byte
          · obtain ⟨compared, ran, iff⟩ :=
              inductionHypothesis (fun member => nonzero (List.mem_cons_of_mem _ member)) reads.2
            rw [if_pos ⟨same ▸ different, same⟩]
            refine ⟨compared, ran, iff.trans ?_⟩
            rw [List.cons_prefix_cons]
            exact ⟨fun before => ⟨same.symm, before⟩, fun both => both.2⟩
          · rw [if_neg fun both => same both.2]
            refine ⟨_, rfl, ?_⟩
            rw [sub_eq_zero, List.cons_prefix_cons]
            exact ⟨fun equal => absurd equal same, fun both => absurd both.1.symm same⟩

theorem strcmp_eq {name literal : List UInt8} (nonzero : 0 ∉ literal) (reads : dtb.Reads addr (name ++ [0]))
    (named : 0 ∉ name) : Exists fun compared => dtb.strcmp addr literal = some compared /\
      (compared = 0 <-> name = literal) := by
  induction literal generalizing name addr with
  | nil =>
      cases name with
      | nil =>
          rw [strcmp, reads.1]
          exact ⟨_, rfl, ⟨fun _ => rfl, fun _ => rfl⟩⟩
      | cons letter name =>
          have different : letter ≠ 0 := by
            rintro rfl
            exact named (List.mem_cons_self ..)
          rw [strcmp, reads.1]
          refine ⟨_, rfl, ⟨fun zero => absurd ?_ different, fun empty => absurd empty (List.cons_ne_nil _ _)⟩⟩
          exact UInt8.toNat_inj.mp (Int.ofNat_inj.mp zero)
  | cons byte literal inductionHypothesis =>
      have different : byte ≠ 0 := by
        rintro rfl
        exact nonzero (List.mem_cons_self ..)
      cases name with
      | nil =>
          rw [strcmp, reads.1]
          refine ⟨_, rfl, ?_⟩
          rw [sub_eq_zero]
          exact ⟨fun zero => absurd zero.symm different, fun empty => absurd empty.symm (List.cons_ne_nil _ _)⟩
      | cons letter name =>
          rw [strcmp, reads.1]
          change Exists fun compared => (if letter ≠ 0 /\ letter = byte then dtb.strcmp (addr + 1) literal
            else some ((letter.toNat : Int) - byte.toNat)) = some compared /\ _
          by_cases same : letter = byte
          · obtain ⟨compared, ran, iff⟩ := inductionHypothesis
              (fun member => nonzero (List.mem_cons_of_mem _ member)) reads.2
              (fun member => named (List.mem_cons_of_mem _ member))
            rw [if_pos ⟨same ▸ different, same⟩]
            refine ⟨compared, ran, iff.trans ?_⟩
            rw [List.cons.injEq, same]
            exact ⟨fun rest => ⟨rfl, rest⟩, fun both => both.2⟩
          · rw [if_neg fun both => same both.2]
            refine ⟨_, rfl, ?_⟩
            rw [sub_eq_zero]
            exact ⟨fun equal => absurd equal same, fun equal => absurd (List.cons.inj equal).1 same⟩

end Dtb

end Devices
end Ucore
