import Ucore.Devices.FlatTree

namespace Ucore
namespace Devices

/-!
# The memory node

The function takes the first `reg` property that it sees while its flag is on.
A name that begins with `memory` turns the flag on, and only the end of a node
turns it off.  So a property of another node may be taken: one whose name only
begins with `memory`, or the first child of a node for which the flag is on.
-/

/-- A `reg` property at its place: whether it is that of a memory node, and
whether the function takes it if it gets there. -/
structure Reg where
  place : Nat
  value : List UInt8
  ofMemory : Bool
  admitted : Bool

/-- The first address and the first size -/
def Reg.info (reg : Reg) : MemoryInfo :=
  ⟨reg.place, bigEndian (reg.value.take 8), bigEndian ((reg.value.drop 8).take 8)⟩

/-- The `reg` properties of a node -/
def itemRegs (ofMemory inMemoryNode : Bool) : List Item -> Nat -> List Reg
  | [], _ => []
  | .nop :: items, addr => itemRegs ofMemory inMemoryNode items (addr + 4)
  | .prop property :: items, addr =>
      (if property.name = regName then
        [⟨addr + 12, property.value, ofMemory, inMemoryNode && decide (16 <= property.value.length)⟩]
      else []) ++ itemRegs ofMemory inMemoryNode items (addr + property.flatten.length)

namespace Forest

/-- The `reg` properties of a tree in their order -/
def regs : Forest -> Nat -> Bool -> List Reg
  | nil, _, _ => []
  | nop rest, addr, inMemoryNode => rest.regs (addr + 4) inMemoryNode
  | node name padding items children rest, addr, inMemoryNode =>
      itemRegs (decide (IsMemoryName name)) (inMemoryNode || memoryName.isPrefixOf name) items
          (addr + (5 + name.length + padding.length)) ++
        (children.regs (addr + (5 + name.length + padding.length) + (items.flatMap Item.flatten).length)
            (inMemoryNode || memoryName.isPrefixOf name) ++
          rest.regs (addr + (5 + name.length + padding.length) + (items.flatMap Item.flatten).length +
            children.flatten.length + 4) false)

/-- The flag after the nodes -/
def flagAfter : Forest -> Bool -> Bool
  | nil, inMemoryNode => inMemoryNode
  | nop rest, inMemoryNode => rest.flagAfter inMemoryNode
  | node _ _ _ _ rest, _ => rest.flagAfter false

end Forest

/-! ## Tokens -/

section Tokens

variable {dtb : Dtb} {addr turns : Nat} {inMemoryNode : Bool}

theorem extractLoop_nop (reads : dtb.Reads addr (bigEndian32 fdtNop)) :
    dtb.extractLoop (turns + 1) addr inMemoryNode = dtb.extractLoop turns (addr + 4) inMemoryNode := by
  obtain ⟨word, loaded, token⟩ := Dtb.load32_word reads (by decide)
  rw [Dtb.extractLoop, loaded]
  change (if fdt32ToCpu word = fdtBeginNode then _ else _) = _
  rw [token]
  rfl

theorem extractLoop_endNode (reads : dtb.Reads addr (bigEndian32 fdtEndNode)) :
    dtb.extractLoop (turns + 1) addr inMemoryNode = dtb.extractLoop turns (addr + 4) false := by
  obtain ⟨word, loaded, token⟩ := Dtb.load32_word reads (by decide)
  rw [Dtb.extractLoop, loaded]
  change (if fdt32ToCpu word = fdtBeginNode then _ else _) = _
  rw [token]
  rfl

theorem extractLoop_end (reads : dtb.Reads addr (bigEndian32 fdtEnd)) :
    dtb.extractLoop (turns + 1) addr inMemoryNode = some none := by
  obtain ⟨word, loaded, token⟩ := Dtb.load32_word reads (by decide)
  rw [Dtb.extractLoop, loaded]
  change (if fdt32ToCpu word = fdtBeginNode then _ else _) = _
  rw [token]
  rfl

theorem extractLoop_beginNode {name padding : List UInt8} (nonzero : 0 ∉ name) (aligned : addr % 4 = 0)
    (padded : (name.length + 1 + padding.length) % 4 = 0) (short : padding.length < 4)
    (small : name.length < 2 ^ 31) (inBlocks : name.length < dtb.structBlock.length)
    (reads : dtb.Reads addr (bigEndian32 fdtBeginNode ++ (name ++ 0 :: padding))) :
    dtb.extractLoop (turns + 1) addr inMemoryNode =
      dtb.extractLoop turns (addr + (5 + name.length + padding.length))
        (inMemoryNode || memoryName.isPrefixOf name) := by
  obtain ⟨tokenReads, nameReads⟩ := Dtb.reads_append.mp reads
  have string : dtb.Reads (addr + 4) (name ++ [0]) := by
    have split : name ++ 0 :: padding = (name ++ [0]) ++ padding := by rw [List.append_assoc]; rfl
    rw [split] at nameReads
    exact (Dtb.reads_append.mp nameReads).1
  obtain ⟨word, loaded, token⟩ := Dtb.load32_word tokenReads (by decide)
  obtain ⟨compared, ran, isPrefix⟩ := Dtb.strncmp_eq (by decide : 0 ∉ memoryName) string
  have length : dtb.strlen (addr + 4) = some name.length := Dtb.strlenLoop_eq nonzero (by omega) string
  have place : Dtb.nameEnd (addr + 4) name.length = addr + (5 + name.length + padding.length) := by
    unfold Dtb.nameEnd alignDown
    rw [Int.bmod_eq_of_le (by omega) (by omega)]
    omega
  have flag : (if compared = 0 then true else inMemoryNode) = (inMemoryNode || memoryName.isPrefixOf name) := by
    by_cases here : memoryName <+: name
    · rw [if_pos (isPrefix.mpr here), List.isPrefixOf_iff_prefix.mpr here, Bool.or_true]
    · have absent : memoryName.isPrefixOf name = false :=
        Bool.eq_false_iff.mpr fun set => here (List.isPrefixOf_iff_prefix.mp set)
      rw [if_neg (fun zero => here (isPrefix.mp zero)), absent, Bool.or_false]
  rw [Dtb.extractLoop, loaded]
  change (if fdt32ToCpu word = fdtBeginNode then _ else _) = _
  rw [token, if_pos rfl, length]
  change (dtb.strncmp (addr + 4) memoryName).bind _ = _
  rw [ran]
  change dtb.extractLoop turns (Dtb.nameEnd (addr + 4) name.length) (if compared = 0 then true else inMemoryNode) = _
  rw [place, flag]

theorem load64_eight {bytes : List UInt8} (length : bytes.length = 8) (reads : dtb.Reads addr bytes) :
    Exists fun word => dtb.load64 addr = some word /\ fdt64ToCpu word = bigEndian bytes := by
  obtain ⟨one, bytes, rfl⟩ := List.exists_cons_of_length_eq_add_one length
  obtain ⟨two, bytes, rfl⟩ := List.exists_cons_of_length_eq_add_one (Nat.succ.inj length)
  obtain ⟨three, bytes, rfl⟩ := List.exists_cons_of_length_eq_add_one (Nat.succ.inj (Nat.succ.inj length))
  obtain ⟨four, bytes, rfl⟩ := List.exists_cons_of_length_eq_add_one
    (Nat.succ.inj (Nat.succ.inj (Nat.succ.inj length)))
  simp only [List.length_cons, Nat.reduceEqDiff] at length
  obtain ⟨five, bytes, rfl⟩ := List.exists_cons_of_length_eq_add_one length
  obtain ⟨six, bytes, rfl⟩ := List.exists_cons_of_length_eq_add_one (Nat.succ.inj length)
  obtain ⟨seven, bytes, rfl⟩ := List.exists_cons_of_length_eq_add_one (Nat.succ.inj (Nat.succ.inj length))
  obtain ⟨eight, bytes, rfl⟩ := List.exists_cons_of_length_eq_add_one
    (Nat.succ.inj (Nat.succ.inj (Nat.succ.inj length)))
  simp only [List.length_cons, Nat.reduceEqDiff] at length
  obtain rfl := List.eq_nil_of_length_eq_zero length
  exact Dtb.load64_bytes reads

theorem length_flatten (property : Property) :
    property.flatten.length = 12 + property.value.length + property.padding.length := by
  unfold Property.flatten bigEndian32
  simp only [List.length_append, List.length_cons, List.length_nil]
  omega

theorem extractLoop_prop {forest : Forest} {property : Property} (encodes : dtb.Encodes forest)
    (wellFormed : property.WellFormed dtb.stringsBlock) (aligned : addr % 4 = 0)
    (small : property.value.length < 2 ^ 31) (reads : dtb.Reads addr property.flatten) :
    dtb.extractLoop (turns + 1) addr inMemoryNode =
      if property.name = regName /\ inMemoryNode = true /\ 16 <= property.value.length then
        some (some ⟨addr + 12, bigEndian (property.value.take 8), bigEndian ((property.value.drop 8).take 8)⟩)
      else dtb.extractLoop turns (addr + property.flatten.length) inMemoryNode := by
  obtain ⟨tokenReads, rest⟩ := Dtb.reads_append.mp reads
  obtain ⟨lengthReads, rest⟩ := Dtb.reads_append.mp rest
  obtain ⟨nameReads, rest⟩ := Dtb.reads_append.mp rest
  obtain ⟨valueReads, _⟩ := Dtb.reads_append.mp rest
  obtain ⟨front, back, strings, offset⟩ := wellFormed.stored
  have string : dtb.Reads (dtb.stringsBase + property.nameoff) (property.name ++ [0]) := by
    rw [← offset]
    have block : dtb.stringsBlock = front ++ ((property.name ++ [0]) ++ back) := by
      rw [strings, List.append_assoc]
      rfl
    exact Dtb.reads_strings encodes block
  have stringsSmall := encodes.stringsSmall
  have offsetSmall : property.nameoff < 2 ^ 32 := by
    rw [strings, List.length_append] at stringsSmall
    omega
  obtain ⟨word, loaded, token⟩ := Dtb.load32_word tokenReads (by decide)
  obtain ⟨lengthWord, lengthLoaded, lengthIs⟩ := Dtb.load32_word lengthReads (by omega)
  obtain ⟨nameWord, nameLoaded, nameIs⟩ := Dtb.load32_word nameReads offsetSmall
  obtain ⟨compared, ran, isReg⟩ := Dtb.strcmp_eq (by decide : 0 ∉ regName) string wellFormed.name
  change dtb.load32 (addr + 4) = some lengthWord at lengthLoaded
  change dtb.load32 (addr + 8) = some nameWord at nameLoaded
  have place : alignDown (addr + 12 + property.value.length + 3) = addr + property.flatten.length := by
    have padding := wellFormed.padding
    have short := wellFormed.short
    rw [length_flatten]
    unfold alignDown
    omega
  have found : dtb.isMemoryReg inMemoryNode (dtb.stringsBase + property.nameoff) property.value.length =
      some (decide (property.name = regName /\ inMemoryNode = true /\ 16 <= property.value.length)) := by
    unfold Dtb.isMemoryReg
    cases inMemoryNode with
    | false =>
        rw [if_neg Bool.false_ne_true, decide_eq_false fun all => Bool.false_ne_true all.2.1]
    | true =>
        rw [if_pos rfl, ran]
        change some (decide (compared = 0 /\ 16 <= property.value.length)) = _
        simp only [isReg, true_and]
  rw [Dtb.extractLoop, loaded]
  change (if fdt32ToCpu word = fdtBeginNode then _ else _) = _
  rw [token, if_neg (by decide), if_neg (by decide), if_pos rfl, lengthLoaded]
  change (dtb.load32 (addr + 8)).bind _ = _
  rw [nameLoaded]
  change (dtb.isMemoryReg inMemoryNode (dtb.stringsBase + fdt32ToCpu nameWord) (fdt32ToCpu lengthWord)).bind _ = _
  rw [lengthIs, nameIs, found]
  by_cases taken : property.name = regName /\ inMemoryNode = true /\ 16 <= property.value.length
  · have long := taken.2.2
    have firstReads : dtb.Reads (addr + 12) (property.value.take 8 ++ ((property.value.drop 8).take 8 ++
        (property.value.drop 8).drop 8)) := by
      rw [List.take_append_drop, List.take_append_drop]
      exact valueReads
    obtain ⟨baseReads, rest⟩ := Dtb.reads_append.mp firstReads
    have firstLength : (property.value.take 8).length = 8 := by
      rw [List.length_take]
      omega
    have secondLength : ((property.value.drop 8).take 8).length = 8 := by
      rw [List.length_take, List.length_drop]
      omega
    rw [firstLength] at rest
    obtain ⟨base, baseLoaded, baseIs⟩ := load64_eight firstLength baseReads
    obtain ⟨size, sizeLoaded, sizeIs⟩ := load64_eight secondLength (Dtb.reads_append.mp rest).1
    rw [decide_eq_true taken, if_pos taken]
    change (dtb.load64 (addr + 12)).bind _ = _
    rw [baseLoaded]
    change (dtb.load64 (addr + 12 + 8)).bind _ = _
    rw [sizeLoaded]
    change some (some (MemoryInfo.mk (addr + 12) (fdt64ToCpu base) (fdt64ToCpu size))) = _
    rw [baseIs, sizeIs]
  · rw [decide_eq_false taken, if_neg taken]
    change dtb.extractLoop turns (alignDown (addr + 12 + property.value.length + 3)) inMemoryNode = _
    rw [place]

end Tokens

/-! ## Trees -/

section Trees

variable {dtb : Dtb} {encoded : Forest}

/-- The properties of a node: the first one that is taken ends the search. -/
theorem extractLoop_items (encodes : dtb.Encodes encoded) {ofMemory : Prop} [Decidable ofMemory] {inMemoryNode : Bool}
    {items : List Item} (wellFormed : forall item, item ∈ items -> ItemWellFormed dtb.stringsBlock ofMemory item) :
    forall addr turns : Nat, addr % 4 = 0 -> (items.flatMap Item.flatten).length < 2 ^ 31 ->
      dtb.Reads addr (items.flatMap Item.flatten) ->
      (items.flatMap Item.flatten).length % 4 = 0 /\ items.length <= (items.flatMap Item.flatten).length /\
      dtb.extractLoop (turns + items.length) addr inMemoryNode =
        ((itemRegs (decide ofMemory) inMemoryNode items addr).find? Reg.admitted).elim
          (dtb.extractLoop turns (addr + (items.flatMap Item.flatten).length) inMemoryNode)
          (fun reg => some (some reg.info)) := by
  induction items with
  | nil => exact fun _ _ _ _ _ => ⟨rfl, Nat.le_refl _, rfl⟩
  | cons item items inductionHypothesis =>
      intro addr turns aligned small reads
      have following :=
        inductionHypothesis fun other member => wellFormed other (List.mem_cons_of_mem _ member)
      have here := wellFormed item (List.mem_cons_self ..)
      rw [List.flatMap_cons, List.length_append] at small ⊢
      rw [List.flatMap_cons] at reads
      obtain ⟨itemReads, rest⟩ := Dtb.reads_append.mp reads
      have order : turns + (item :: items).length = turns + items.length + 1 := rfl
      cases item with
      | nop =>
          have length : (Item.nop).flatten.length = 4 := rfl
          rw [length] at small rest ⊢
          obtain ⟨words, counted, found⟩ := following (addr + 4) turns (by omega) (by omega) rest
          refine ⟨by omega, ?_, ?_⟩
          · rw [List.length_cons]
            omega
          · rw [order, extractLoop_nop itemReads, found, Nat.add_assoc]
            rfl
      | prop property =>
          have length : (Item.prop property).flatten.length = property.flatten.length := rfl
          have exact_ := length_flatten property
          have padding := here.1.padding
          rw [length] at small rest ⊢
          obtain ⟨words, counted, found⟩ := following (addr + property.flatten.length) turns (by omega) (by omega) rest
          refine ⟨by omega, ?_, ?_⟩
          · rw [List.length_cons]
            omega
          · rw [order, extractLoop_prop encodes here.1 aligned (by omega) itemReads, itemRegs, ← Nat.add_assoc]
            by_cases named : property.name = regName
            · rw [if_pos named, List.singleton_append]
              by_cases taken : inMemoryNode = true /\ 16 <= property.value.length
              · have admitted : Reg.admitted ⟨addr + 12, property.value, decide ofMemory,
                    inMemoryNode && decide (16 <= property.value.length)⟩ = true := by
                  rw [taken.1, decide_eq_true taken.2]
                  rfl
                rw [if_pos ⟨named, taken⟩, List.find?_cons_of_pos admitted]
                rfl
              · have refused : ¬ Reg.admitted ⟨addr + 12, property.value, decide ofMemory,
                    inMemoryNode && decide (16 <= property.value.length)⟩ = true := by
                  intro both
                  obtain ⟨flag, long⟩ := Bool.and_eq_true_iff.mp both
                  exact taken ⟨flag, of_decide_eq_true long⟩
                rw [if_neg fun all => taken all.2, List.find?_cons_of_neg refused]
                exact found
            · rw [if_neg named, if_neg fun all => named all.1, List.nil_append]
              exact found

/-- The search goes on behind a part in which nothing is taken. -/
theorem find_append {first second : List Reg} {result : Option (Option MemoryInfo)} :
    ((first ++ second).find? Reg.admitted).elim result (fun reg => some (some reg.info)) =
      (first.find? Reg.admitted).elim ((second.find? Reg.admitted).elim result (fun reg => some (some reg.info)))
        (fun reg => some (some reg.info)) := by
  rw [List.find?_append]
  cases first.find? Reg.admitted <;> rfl

theorem length_beginNode (name padding : List UInt8) :
    (bigEndian32 fdtBeginNode ++ (name ++ 0 :: padding)).length = 5 + name.length + padding.length := by
  unfold bigEndian32
  simp only [List.length_append, List.length_cons, List.length_nil]
  omega

theorem Forest.length_node (name padding : List UInt8) (items : List Item) (children rest : Forest) :
    (Forest.node name padding items children rest).flatten.length =
      (5 + name.length + padding.length) + (items.flatMap Item.flatten).length + children.flatten.length + 4 +
        rest.flatten.length := by
  have endLength : (bigEndian32 fdtEndNode).length = 4 := rfl
  rw [Forest.flatten, List.length_append, length_beginNode, List.length_append, List.length_append, List.length_append,
    endLength]
  omega

theorem extractLoop_forest (encodes : dtb.Encodes encoded) {forest : Forest}
    (wellFormed : forest.WellFormed dtb.stringsBlock) :
    forall (addr turns : Nat) (inMemoryNode : Bool), addr % 4 = 0 -> forest.flatten.length < dtb.structBlock.length ->
      dtb.Reads addr forest.flatten ->
      forest.flatten.length % 4 = 0 /\ forest.count <= forest.flatten.length /\
      dtb.extractLoop (turns + forest.count) addr inMemoryNode =
        ((forest.regs addr inMemoryNode).find? Reg.admitted).elim
          (dtb.extractLoop turns (addr + forest.flatten.length) (forest.flagAfter inMemoryNode))
          (fun reg => some (some reg.info)) := by
  have structSmall := encodes.structSmall
  induction forest with
  | nil => exact fun _ _ _ _ _ _ => ⟨rfl, Nat.le_refl _, rfl⟩
  | nop rest restHypothesis =>
      intro addr turns inMemoryNode aligned small reads
      obtain ⟨nopReads, restReads⟩ := Dtb.reads_append.mp reads
      have length : (Forest.nop rest).flatten.length = 4 + rest.flatten.length := List.length_append ..
      obtain ⟨words, counted, found⟩ :=
        restHypothesis wellFormed (addr + 4) turns inMemoryNode (by omega) (by omega) restReads
      have count : (Forest.nop rest).count = rest.count + 1 := rfl
      refine ⟨by omega, by omega, ?_⟩
      rw [count, ← Nat.add_assoc, extractLoop_nop nopReads, found, length, Nat.add_assoc]
      rfl
  | node name padding items children rest childrenHypothesis restHypothesis =>
      intro addr turns inMemoryNode aligned small reads
      obtain ⟨nonzero, padded, short, itemsWell, childrenWell, restWell⟩ := wellFormed
      obtain ⟨nameReads, reads⟩ := Dtb.reads_append.mp reads
      obtain ⟨itemReads, reads⟩ := Dtb.reads_append.mp reads
      obtain ⟨childReads, reads⟩ := Dtb.reads_append.mp reads
      obtain ⟨endReads, restReads⟩ := Dtb.reads_append.mp reads
      have nameLength := length_beginNode name padding
      have endLength : (bigEndian32 fdtEndNode).length = 4 := rfl
      have length := Forest.length_node name padding items children rest
      have count : (Forest.node name padding items children rest).count =
          items.length + children.count + rest.count + 2 := rfl
      rw [nameLength] at itemReads childReads endReads restReads
      rw [endLength] at restReads
      obtain ⟨itemWords, itemCounted, itemFound⟩ := @extractLoop_items dtb encoded encodes (IsMemoryName name) _
        (inMemoryNode || memoryName.isPrefixOf name) items itemsWell (addr + (5 + name.length + padding.length))
        (turns + rest.count + 1 + children.count) (by omega) (by omega) itemReads
      obtain ⟨childWords, childCounted, childFound⟩ := childrenHypothesis childrenWell
        (addr + (5 + name.length + padding.length) + (items.flatMap Item.flatten).length) (turns + rest.count + 1)
        (inMemoryNode || memoryName.isPrefixOf name) (by omega) (by omega) childReads
      obtain ⟨restWords, restCounted, restFound⟩ := restHypothesis restWell
        (addr + (5 + name.length + padding.length) + (items.flatMap Item.flatten).length + children.flatten.length + 4)
        turns false (by omega) (by omega) restReads
      refine ⟨by omega, by omega, ?_⟩
      have order : turns + (items.length + children.count + rest.count + 2) =
          turns + rest.count + 1 + children.count + items.length + 1 := by omega
      have place : addr + ((5 + name.length + padding.length) + (items.flatMap Item.flatten).length +
          children.flatten.length + 4 + rest.flatten.length) =
          addr + (5 + name.length + padding.length) + (items.flatMap Item.flatten).length +
            children.flatten.length + 4 + rest.flatten.length := by omega
      rw [count, order, extractLoop_beginNode nonzero aligned padded short (by omega) (by omega) nameReads, itemFound,
        childFound, extractLoop_endNode endReads, restFound, Forest.regs, find_append, find_append, length, place]
      rfl

/-- The function takes the first property that it admits. -/
theorem extractMemoryInfo_eq {forest : Forest} (encodes : dtb.Encodes forest) :
    dtb.extractMemoryInfo = some (((forest.regs dtb.structBase false).find? Reg.admitted).map Reg.info) := by
  have block : dtb.structBlock = [] ++ (forest.flatten ++ bigEndian32 fdtEnd) := encodes.structBlock
  have length : dtb.structBlock.length = forest.flatten.length + 4 := by
    rw [encodes.structBlock, List.length_append]
    rfl
  obtain ⟨treeReads, endReads⟩ := Dtb.reads_append.mp (Dtb.reads_struct block)
  rw [List.length_nil, Nat.add_zero] at treeReads endReads
  obtain ⟨_, counted, found⟩ := extractLoop_forest encodes encodes.wellFormed dtb.structBase
    (dtb.structBlock.length - forest.count + 1) false encodes.aligned (by omega) treeReads
  have turns : dtb.structBlock.length - forest.count + 1 + forest.count = dtb.structBlock.length + 1 := by omega
  rw [turns, extractLoop_end endReads] at found
  unfold Dtb.extractMemoryInfo
  rw [found]
  cases (forest.regs dtb.structBase false).find? Reg.admitted <;> rfl

end Trees

/-! ## Which property is taken -/

/-- The properties stand behind each other, and those of memory nodes are
taken. -/
structure Ordered (first last : Nat) (regs : List Reg) : Prop where
  inside : forall reg, reg ∈ regs -> first < reg.place /\ reg.place <= last
  taken : forall reg, reg ∈ regs -> reg.ofMemory = true -> reg.admitted = true
  apart : regs.Pairwise fun reg other => reg.place < other.place

namespace Ordered

variable {first middle last : Nat} {regs others : List Reg}

theorem nil (first last : Nat) : Ordered first last [] :=
  ⟨fun _ member => absurd member List.not_mem_nil, fun _ member => absurd member List.not_mem_nil, List.Pairwise.nil⟩

theorem append (before : Ordered first middle regs) (after : Ordered middle last others) (start : first <= middle)
    (finish : middle <= last) : Ordered first last (regs ++ others) where
  inside := by
    intro reg member
    rcases List.mem_append.mp member with early | late
    · have here := before.inside reg early
      omega
    · have here := after.inside reg late
      omega
  taken := by
    intro reg member
    rcases List.mem_append.mp member with early | late
    · exact before.taken reg early
    · exact after.taken reg late
  apart := by
    rw [List.pairwise_append]
    refine ⟨before.apart, after.apart, fun reg early other late => ?_⟩
    have here := before.inside reg early
    have there := after.inside other late
    omega

theorem mono (ordered : Ordered middle last regs) (start : first <= middle) : Ordered first last regs :=
  ⟨fun reg member => ⟨Nat.lt_of_le_of_lt start (ordered.inside reg member).1, (ordered.inside reg member).2⟩,
    ordered.taken, ordered.apart⟩

end Ordered

theorem isPrefixOf_memoryName {name : List UInt8} (isMemory : IsMemoryName name) :
    memoryName.isPrefixOf name = true := by
  rw [List.isPrefixOf_iff_prefix]
  rcases isMemory with rfl | before
  · exact List.prefix_refl _
  · exact (List.prefix_append ..).trans before

theorem itemRegs_ordered {strings : List UInt8} {ofMemory : Prop} [Decidable ofMemory] {inMemoryNode : Bool}
    (flag : ofMemory -> inMemoryNode = true) {items : List Item}
    (wellFormed : forall item, item ∈ items -> ItemWellFormed strings ofMemory item) (addr : Nat) :
    Ordered addr (addr + (items.flatMap Item.flatten).length) (itemRegs (decide ofMemory) inMemoryNode items addr) := by
  induction items generalizing addr with
  | nil => exact Ordered.nil ..
  | cons item items inductionHypothesis =>
      have following := inductionHypothesis fun other member => wellFormed other (List.mem_cons_of_mem _ member)
      have here := wellFormed item (List.mem_cons_self ..)
      rw [List.flatMap_cons, List.length_append, ← Nat.add_assoc]
      cases item with
      | nop => exact (following (addr + 4)).mono (Nat.le_add_right ..)
      | prop property =>
          have length := length_flatten property
          have single : Ordered addr (addr + property.flatten.length) (if property.name = regName then
              [⟨addr + 12, property.value, decide ofMemory, inMemoryNode && decide (16 <= property.value.length)⟩]
            else []) := by
            split
            · rename_i named
              refine ⟨fun reg member => ?_, fun reg member memory => ?_, List.pairwise_singleton ..⟩
              · obtain rfl := List.mem_singleton.mp member
                dsimp only
                omega
              · obtain rfl := List.mem_singleton.mp member
                have isMemory := of_decide_eq_true memory
                dsimp only
                rw [flag isMemory, decide_eq_true (here.2 isMemory named)]
                rfl
            · exact Ordered.nil ..
          exact single.append (following (addr + property.flatten.length)) (Nat.le_add_right ..) (Nat.le_add_right ..)

theorem regs_ordered {strings : List UInt8} {forest : Forest} (wellFormed : forest.WellFormed strings) (addr : Nat)
    (inMemoryNode : Bool) : Ordered addr (addr + forest.flatten.length) (forest.regs addr inMemoryNode) := by
  induction forest generalizing addr inMemoryNode with
  | nil => exact Ordered.nil ..
  | nop rest restHypothesis =>
      have length : (Forest.nop rest).flatten.length = 4 + rest.flatten.length := List.length_append ..
      rw [length, ← Nat.add_assoc]
      exact (restHypothesis wellFormed (addr + 4) inMemoryNode).mono (Nat.le_add_right ..)
  | node name padding items children rest childrenHypothesis restHypothesis =>
      obtain ⟨_, _, _, itemsWell, childrenWell, restWell⟩ := wellFormed
      have flag : IsMemoryName name -> (inMemoryNode || memoryName.isPrefixOf name) = true := by
        intro isMemory
        rw [isPrefixOf_memoryName isMemory, Bool.or_true]
      have own := itemRegs_ordered flag itemsWell (addr + (5 + name.length + padding.length))
      have below := childrenHypothesis childrenWell
        (addr + (5 + name.length + padding.length) + (items.flatMap Item.flatten).length)
        (inMemoryNode || memoryName.isPrefixOf name)
      have later := restHypothesis restWell
        (addr + (5 + name.length + padding.length) + (items.flatMap Item.flatten).length + children.flatten.length + 4)
        false
      have whole := own.append (below.append (later.mono (Nat.le_add_right ..)) (Nat.le_add_right ..) (by omega))
        (Nat.le_add_right ..) (by omega)
      have place : addr + (Forest.node name padding items children rest).flatten.length =
          addr + (5 + name.length + padding.length) + (items.flatMap Item.flatten).length +
            children.flatten.length + 4 + rest.flatten.length := by
        rw [Forest.length_node]
        omega
      rw [place]
      exact whole.mono (Nat.le_add_right ..)

/-- No `reg` property of another node is admitted before the first one of a
memory node.  The function ends at the first property that it admits. -/
def NoStray (regs : List Reg) : Prop :=
  forall reg, reg ∈ regs.takeWhile (fun reg => !reg.ofMemory) -> reg.admitted = false

instance (regs : List Reg) : Decidable (NoStray regs) :=
  inferInstanceAs (Decidable (forall reg, reg ∈ regs.takeWhile (fun reg => !reg.ofMemory) -> reg.admitted = false))

/-- The first admitted property is that of the first memory node if and only if
there is no other one before it. -/
theorem Ordered.find_iff {first last : Nat} {regs : List Reg} (ordered : Ordered first last regs) :
    (regs.find? Reg.admitted).map Reg.info = (regs.find? Reg.ofMemory).map Reg.info <-> NoStray regs := by
  unfold NoStray
  induction regs with
  | nil => exact ⟨fun _ reg member => absurd member List.not_mem_nil, fun _ => rfl⟩
  | cons reg regs inductionHypothesis =>
      obtain ⟨before, apart⟩ := List.pairwise_cons.mp ordered.apart
      have rest : Ordered first last regs :=
        ⟨fun other member => ordered.inside other (List.mem_cons_of_mem _ member),
          fun other member => ordered.taken other (List.mem_cons_of_mem _ member), apart⟩
      cases memory : reg.ofMemory with
      | true =>
          have admitted := ordered.taken reg (List.mem_cons_self ..) memory
          rw [List.find?_cons_of_pos admitted, List.find?_cons_of_pos memory, List.takeWhile_cons_of_neg]
          · exact ⟨fun _ other member => absurd member List.not_mem_nil, fun _ => rfl⟩
          · rw [memory]
            decide
      | false =>
          have notMemory : ¬ reg.ofMemory = true := by
            rw [memory]
            exact Bool.false_ne_true
          have other : (!reg.ofMemory) = true := by rw [memory]; rfl
          have kept : (reg :: regs).takeWhile (fun reg => !reg.ofMemory) =
              reg :: regs.takeWhile (fun reg => !reg.ofMemory) := List.takeWhile_cons_of_pos other
          rw [List.find?_cons_of_neg notMemory, kept]
          cases admitted : reg.admitted with
          | true =>
              rw [List.find?_cons_of_pos admitted]
              constructor
              · intro same
                obtain ⟨found, isFound, equal⟩ := Option.map_eq_some_iff.mp same.symm
                have later := before found (List.mem_of_find?_eq_some isFound)
                have place : found.place = reg.place := congrArg MemoryInfo.regData equal
                omega
              · intro none_
                exact absurd (none_ reg (List.mem_cons_self ..)) (by rw [admitted]; exact Bool.noConfusion)
          | false =>
              have refused : ¬ reg.admitted = true := by
                rw [admitted]
                exact Bool.false_ne_true
              rw [List.find?_cons_of_neg refused, inductionHypothesis rest]
              constructor
              · intro none_ other member
                rcases List.mem_cons.mp member with rfl | later
                · exact admitted
                · exact none_ other later
              · exact fun none_ other member => none_ other (List.mem_cons_of_mem _ member)

/-- `extract_memory_info` ends, reads only in the blocks, and returns the `reg`
property of the first memory node if and only if no other node has one that is
admitted before. -/
theorem extractMemoryInfo_finds_memory {dtb : Dtb} {forest : Forest} (encodes : dtb.Encodes forest) :
    Exists fun result => dtb.extractMemoryInfo = some result /\
      (result = ((forest.regs dtb.structBase false).find? Reg.ofMemory).map Reg.info <->
        NoStray (forest.regs dtb.structBase false)) :=
  ⟨_, extractMemoryInfo_eq encodes, (regs_ordered encodes.wellFormed dtb.structBase false).find_iff⟩

/-! ## Two trees -/

/-- `memory@80000000` and its `reg` property -/
def memoryNode (rest : Forest) : Forest :=
  .node [109, 101, 109, 111, 114, 121, 64, 56, 48, 48, 48, 48, 48, 48, 48] []
    [.nop, .prop ⟨regName, 0, [0, 0, 0, 0, 0x80, 0, 0, 0, 0, 0, 0, 0, 8, 0, 0, 0], []⟩] .nil rest

/-- `memory-controller` and its `reg` property, before another node -/
def controllerNode (rest : Forest) : Forest :=
  .node [109, 101, 109, 111, 114, 121, 45, 99, 111, 110, 116, 114, 111, 108, 108, 101, 114] [0, 0]
    [.prop ⟨regName, 0, [0, 0, 0, 0, 0x10, 0, 0, 0, 0, 0, 0, 0, 0, 0, 0x10, 0], []⟩] .nil rest

/-- The root with its children -/
def rootNode (children : Forest) : Forest := .node [] [0, 0, 0] [] children .nil

/-- A tree whose only string is the name of the properties -/
def treeInMemory (forest : Forest) : Dtb :=
  ⟨0x1000, 0x38000000, 0x20000, forest.flatten ++ bigEndian32 fdtEnd, [114, 101, 103, 0]⟩

theorem memoryNode_wellFormed {rest : Forest} (wellFormed : rest.WellFormed [114, 101, 103, 0]) :
    (memoryNode rest).WellFormed [114, 101, 103, 0] := by
  refine ⟨by decide, rfl, by decide, fun item member => ?_, trivial, wellFormed⟩
  rcases List.mem_cons.mp member with rfl | member
  · trivial
  · obtain rfl := List.mem_singleton.mp member
    exact ⟨⟨by decide, ⟨[], [], rfl, rfl⟩, rfl, by decide⟩, fun _ _ => by decide⟩

theorem controllerNode_wellFormed {rest : Forest} (wellFormed : rest.WellFormed [114, 101, 103, 0]) :
    (controllerNode rest).WellFormed [114, 101, 103, 0] := by
  refine ⟨by decide, rfl, by decide, fun item member => ?_, trivial, wellFormed⟩
  obtain rfl := List.mem_singleton.mp member
  exact ⟨⟨by decide, ⟨[], [], rfl, rfl⟩, rfl, by decide⟩, fun _ _ => by decide⟩

theorem rootNode_wellFormed {children : Forest} (wellFormed : children.WellFormed [114, 101, 103, 0]) :
    (rootNode children).WellFormed [114, 101, 103, 0] :=
  ⟨by decide, rfl, by decide, fun _ member => absurd member List.not_mem_nil, wellFormed, trivial⟩

theorem extractMemoryInfo_finds_only_memory : Exists fun result =>
    (treeInMemory (rootNode (memoryNode .nil))).extractMemoryInfo = some result /\
      result = some ⟨0x1064, 0x80000000, 0x8000000⟩ := by
  have encodes : (treeInMemory (rootNode (memoryNode .nil))).Encodes (rootNode (memoryNode .nil)) :=
    ⟨rfl, rootNode_wellFormed (memoryNode_wellFormed trivial), rfl, by decide, by decide, by decide +kernel⟩
  obtain ⟨result, found, right⟩ := extractMemoryInfo_finds_memory encodes
  refine ⟨result, found, (right.mpr (by decide +kernel)).trans (by decide +kernel)⟩

/-- A controller before the memory -/
def controllerTree : Forest := rootNode (controllerNode (memoryNode .nil))

/-- The controller is taken for the memory. -/
theorem extractMemoryInfo_finds_controller :
    (treeInMemory controllerTree).Encodes controllerTree /\
    (treeInMemory controllerTree).extractMemoryInfo = some (some ⟨0x1064, 0x10000000, 0x1000⟩) /\
    ((controllerTree.regs (treeInMemory controllerTree).structBase false).find? Reg.ofMemory).map Reg.info =
      some ⟨0x109c, 0x80000000, 0x8000000⟩ /\
    (treeInMemory controllerTree).extractMemoryInfo ≠ some
      (((controllerTree.regs (treeInMemory controllerTree).structBase false).find? Reg.ofMemory).map Reg.info) := by
  have wellFormed : controllerTree.WellFormed (treeInMemory controllerTree).stringsBlock :=
    rootNode_wellFormed (controllerNode_wellFormed (memoryNode_wellFormed trivial))
  refine ⟨⟨rfl, wellFormed, ?_, ?_, ?_, ?_⟩, ?_, ?_, ?_⟩ <;> decide +kernel

end Devices
end Ucore
