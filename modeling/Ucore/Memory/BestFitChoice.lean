import Ucore.Memory.BestFitOrder

namespace Ucore
namespace Memory

open Library
open FirstFit

/-!
# The choice of the best-fit allocator

Which block a request gets is stated exactly, for a list in any order.  The
running minimum of the search begins at `nr_free + 1`, which is larger than
every listed block, unless the sum is too large for an `unsigned int`.  It is
zero then, and only a block of the requested size is found.
-/

/-- `blocks` are the listed blocks with their sizes, first to last, in any
order; each head is marked, and `nr_free` counts the pages. -/
structure ListedBlocks (sys : FirstFit) (blocks : List (Nat × Nat)) : Prop where
  ring : sys.links.Ring freeList (blocks.map blockNode)
  fields : forall block, block ∈ blocks -> (sys.page block.1).property = block.2
  flags : forall block, block ∈ blocks -> pageProperty (sys.page block.1) = true
  disjoint : blocks.Pairwise fun first second =>
    first.1 + first.2 <= second.1 \/ second.1 + second.2 <= first.1
  total : (blocks.map Prod.snd).sum = sys.nrFree.toNat

/-- The free list of a region, in the order of the addresses, is one. -/
theorem FreeBlocks.listedBlocks {sys : FirstFit} {low n : Nat} {held : List Nat} {blocks : List (Nat × Nat)}
    (free : FreeBlocks sys low n held blocks) : ListedBlocks sys blocks where
  ring := free.ring
  fields := free.fields
  flags := fun block member =>
    (free.flags block.1 (free.inside block member).1 (free.inside block member).2.1).mpr
      (List.mem_map_of_mem member)
  disjoint := free.sorted.imp fun below => .inl below.2
  total := free.total

/-- The block is the earliest one of the smallest size that is large enough. -/
def Best (request : Nat) (before : List (Nat × Nat)) (block : Nat × Nat) (after : List (Nat × Nat)) : Prop :=
  request <= block.2 /\
    (forall other, other ∈ before -> other.2 < request \/ block.2 < other.2) /\
    forall other, other ∈ after -> other.2 < request \/ block.2 <= other.2

namespace BestFit

/-! ## The search as a function of the list -/

/-- The loop of the search over the blocks. -/
def chooseBest (request : Nat) : List (Nat × Nat) -> Option Nat -> Nat -> Option Nat
  | [], page, _ => page
  | block :: rest, page, minSize =>
      if block.2 >= request then
        if block.2 = request then some block.1
        else if block.2 < minSize then chooseBest request rest (some block.1) block.2
        else chooseBest request rest page minSize
      else chooseBest request rest page minSize

theorem findBest_eq {sys : FirstFit} {before after : List (Nat × Nat)} {request fuel : Nat} (page : Option Nat)
    (minSize : Nat) (ring : sys.links.Ring freeList ((before ++ after).map blockNode))
    (fields : forall block, block ∈ after -> (sys.page block.1).property = block.2) (enough : after.length < fuel) :
    findBest sys request fuel (lastNode before) page minSize = some (chooseBest request after page minSize) := by
  induction after generalizing before fuel page minSize with
  | nil =>
      rcases Nat.exists_eq_succ_of_ne_zero (Nat.ne_of_gt enough) with ⟨fuel, rfl⟩
      have next : listNext sys.links (lastNode before) = freeList := (seam ring).1
      rw [findBest, next, chooseBest]
  | cons block rest inductionHypothesis =>
      rcases Nat.exists_eq_succ_of_ne_zero (Nat.ne_of_gt (Nat.lt_of_le_of_lt (Nat.zero_le _) enough)) with ⟨fuel, rfl⟩
      have next : listNext sys.links (lastNode before) = .page block.1 := (seam ring).1
      have split : before ++ block :: rest = (before ++ [block]) ++ rest := by simp
      rw [split] at ring
      have onward : forall page minSize, findBest sys request fuel (.page block.1) page minSize =
          some (chooseBest request rest page minSize) := by
        intro page minSize
        change findBest sys request fuel (blockNode block) page minSize = _
        rw [← lastNode_append before block]
        exact inductionHypothesis page minSize ring (fun other member => fields other (List.mem_cons_of_mem _ member))
          (Nat.lt_of_succ_lt_succ enough)
      rw [findBest, next, chooseBest]
      simp only [fields block List.mem_cons_self, onward]
      split_ifs <;> rfl

/-- Without a block that beats the running minimum the choice stays. -/
theorem chooseBest_keeps {request : Nat} {blocks : List (Nat × Nat)} (page : Option Nat) {minSize : Nat}
    (none : forall block, block ∈ blocks -> block.2 < request \/ (block.2 ≠ request /\ minSize <= block.2)) :
    chooseBest request blocks page minSize = page := by
  induction blocks with
  | nil => rfl
  | cons block rest inductionHypothesis =>
      have others := inductionHypothesis fun other member => none other (List.mem_cons_of_mem _ member)
      rw [chooseBest]
      rcases none block List.mem_cons_self with small | ⟨different, large⟩
      · rw [if_neg (Nat.not_le_of_lt small)]
        exact others
      · rw [if_neg different, if_neg (Nat.not_lt_of_le large), others, ite_self]

/-- A best block that beats the running minimum is chosen. -/
theorem chooseBest_best {request : Nat} {before after : List (Nat × Nat)} {block : Nat × Nat} (page : Option Nat)
    {minSize : Nat} (best : Best request before block after) (beats : block.2 = request \/ block.2 < minSize) :
    chooseBest request (before ++ block :: after) page minSize = some block.1 := by
  rcases best with ⟨large, earlier, later⟩
  induction before generalizing page minSize with
  | nil =>
      rw [List.nil_append, chooseBest, if_pos large]
      by_cases exact : block.2 = request
      · rw [if_pos exact]
      · rw [if_neg exact, if_pos (beats.resolve_left exact)]
        apply chooseBest_keeps
        intro other member
        rcases later other member with small | larger
        · exact .inl small
        · exact .inr ⟨by omega, larger⟩
  | cons other rest inductionHypothesis =>
      have others := fun candidate member => earlier candidate (List.mem_cons_of_mem other member)
      rw [List.cons_append, chooseBest]
      rcases earlier other List.mem_cons_self with small | larger
      · rw [if_neg (Nat.not_le_of_lt small)]
        exact inductionHypothesis page beats others
      · have large' : other.2 >= request := by omega
        have different : other.2 ≠ request := by omega
        rw [if_pos large', if_neg different]
        split
        · exact inductionHypothesis (some other.1) (.inr larger) others
        · exact inductionHypothesis page beats others

/-- Where some block is large enough there is a best one. -/
theorem exists_best {request : Nat} {blocks : List (Nat × Nat)}
    (some : Exists fun block => block ∈ blocks /\ request <= block.2) :
    Exists fun before => Exists fun block => Exists fun after =>
      blocks = before ++ block :: after /\ Best request before block after := by
  induction blocks with
  | nil =>
      rcases some with ⟨_, member, _⟩
      cases member
  | cons first rest inductionHypothesis =>
      by_cases later : Exists fun block => block ∈ rest /\ request <= block.2 /\
        (first.2 < request \/ block.2 < first.2)
      · rcases later with ⟨other, otherMember, otherLarge, otherBeats⟩
        rcases inductionHypothesis ⟨other, otherMember, otherLarge⟩ with
          ⟨before, block, after, split, large, earlier, last⟩
        have smallest : block.2 <= other.2 := by
          rw [split] at otherMember
          rcases List.mem_append.mp otherMember with before | rest
          · rcases earlier other before with small | larger
            · omega
            · exact Nat.le_of_lt larger
          · rcases List.mem_cons.mp rest with same | after
            · exact Nat.le_of_eq (same ▸ rfl)
            · rcases last other after with small | larger
              · omega
              · exact larger
        refine ⟨first :: before, block, after, by rw [split]; rfl, large, fun candidate member => ?_, last⟩
        rcases List.mem_cons.mp member with same | early
        · rw [same]
          omega
        · exact earlier candidate early
      · have fits : request <= first.2 := by
          rcases some with ⟨block, member, large⟩
          rcases List.mem_cons.mp member with same | rest
          · exact same ▸ large
          · by_contra small
            exact later ⟨block, rest, large, .inl (Nat.lt_of_not_le small)⟩
        refine ⟨[], first, rest, rfl, fits, fun _ member => absurd member List.not_mem_nil, fun other member => ?_⟩
        by_cases large : request <= other.2
        · refine .inr (Nat.le_of_not_lt fun less => later ⟨other, member, large, .inr less⟩)
        · exact .inl (Nat.lt_of_not_le large)

/-! ## Allocation -/

variable {sys : FirstFit} {blocks before after : List (Nat × Nat)} {n fuel : Nat}

/-- The request was served from `block`: its first `n` pages are taken, the
rest is listed in its place, and nothing else has changed. -/
structure ServedFrom (sys : FirstFit) (before : List (Nat × Nat)) (block : Nat × Nat) (after : List (Nat × Nat))
    (n : Nat) (next : FirstFit) : Prop where
  listed : ListedBlocks next (before ++ remainder block n ++ after)
  total : next.nrFree.toNat + n = sys.nrFree.toNat
  granted : next.page block.1 = clearPageProperty (sys.page block.1)
  rest : n < block.2 ->
    next.page (block.1 + n) = setPageProperty { sys.page (block.1 + n) with property := block.2 - n }
  others : forall p, p ≠ block.1 -> (n < block.2 -> p ≠ block.1 + n) -> next.page p = sys.page p

/-- What best fit promises: a failure changes nothing and happens exactly when
no block is large enough; otherwise the earliest block of the smallest
sufficient size serves the request. -/
def ServesBest (fuel : Nat) (sys : FirstFit) (blocks : List (Nat × Nat)) (n : Nat) : Prop :=
  (allocPages fuel sys n = some (none, sys) <-> forall block, block ∈ blocks -> block.2 < n) /\
    forall before block after, blocks = before ++ block :: after -> Best n before block after ->
      Exists fun next => allocPages fuel sys n = some (some block.1, next) /\
        ServedFrom sys before block after n next

theorem size_le_nrFree (listed : ListedBlocks sys blocks) {block : Nat × Nat} (member : block ∈ blocks) :
    block.2 <= sys.nrFree.toNat := by
  rcases List.append_of_mem member with ⟨before, after, split⟩
  have total := listed.total
  rw [split] at total
  simp only [List.map_append, List.map_cons, List.sum_append, List.sum_cons] at total
  omega

theorem takeFrom_served {block : Nat × Nat} (listed : ListedBlocks sys (before ++ block :: after))
    (positive : 0 < n) (fits : n <= block.2) : ServedFrom sys before block after n (sys.takeFrom block.1 n) := by
  have member : block ∈ before ++ block :: after := List.mem_append_right before List.mem_cons_self
  have field := listed.fields block member
  have small := size_le_nrFree listed member
  have counted := sys.nrFree.toNat_lt
  have order := pairwise_insert.mp listed.disjoint
  have away : forall other, other ∈ before ++ after ->
      other.1 + other.2 <= block.1 \/ block.1 + block.2 <= other.1 := by
    intro other otherMember
    rcases List.mem_append.mp otherMember with earlier | later
    · exact order.2.1 other earlier
    · exact (order.2.2 other later).symm
  have pages : forall p, (sys.takeFrom block.1 n).page p =
      if p = block.1 then clearPageProperty (sys.page block.1)
      else if block.2 > n /\ p = block.1 + n then
        setPageProperty { sys.page p with property := block.2 - n }
      else sys.page p := by
    intro p
    rw [takeFrom_page sys block.1 positive p, field, unsignedInt_eq (show block.2 - n < 2 ^ 32 by omega)]
  have outside : forall other, other ∈ before ++ after -> other.1 ≠ block.1 /\
    (n < block.2 -> other.1 ≠ block.1 + n) := by
    intro other otherMember
    have place := away other otherMember
    have nodes := (List.nodup_cons.mp listed.ring.distinct).2
    rw [List.map_append, List.map_cons] at nodes
    have gone := (List.nodup_cons.mp (List.nodup_middle.mp nodes)).1
    rw [← List.map_append] at gone
    refine ⟨fun start => gone (List.mem_map.mpr ⟨other, otherMember, congrArg ListNode.page start⟩),
      fun split start => ?_⟩
    omega
  have kept : forall other, other ∈ before ++ after -> (sys.takeFrom block.1 n).page other.1 = sys.page other.1 := by
    intro other otherMember
    have apart := outside other otherMember
    rw [pages, if_neg apart.1, if_neg fun both => apart.2 both.1 both.2]
  have members : forall other, other ∈ before ++ remainder block n ++ after ->
      other ∈ before ++ after \/ (block.2 > n /\ other = (block.1 + n, block.2 - n)) := by
    intro other otherMember
    rw [← mem_remainder]
    simp only [List.mem_append] at otherMember ⊢
    tauto
  have keeps : forall other, other ∈ before ++ after -> other ∈ before ++ block :: after := by
    intro other otherMember
    simp only [List.mem_append, List.mem_cons] at otherMember ⊢
    tauto
  refine ⟨⟨?_, ?_, ?_, ?_, takeFrom_total listed.total fits⟩, ?_, ?_, ?_, ?_⟩
  · refine ring_takeFrom listed.ring field fun split found => ?_
    rcases List.mem_map.mp found with ⟨other, otherMember, start⟩
    exact (outside other otherMember).2 split start
  · intro other otherMember
    rcases members other otherMember with old | ⟨split, new⟩
    · rw [kept other old]
      exact listed.fields other (keeps other old)
    · rw [new, pages, if_neg (show block.1 + n ≠ block.1 by omega), if_pos ⟨split, rfl⟩, property_set]
  · intro other otherMember
    rcases members other otherMember with old | ⟨split, new⟩
    · rw [kept other old]
      exact listed.flags other (keeps other old)
    · rw [new, pages, if_neg (show block.1 + n ≠ block.1 by omega), if_pos ⟨split, rfl⟩, pageProperty_set]
  · rw [remainder]
    split
    · rw [List.append_assoc, List.singleton_append]
      refine pairwise_insert.mpr ⟨order.1, fun other earlier => ?_, fun other later => ?_⟩
      · have place := order.2.1 other earlier
        dsimp only at place ⊢
        omega
      · have place := order.2.2 other later
        dsimp only at place ⊢
        omega
    · rw [List.append_nil]
      exact order.1
  · have sizes := remainder_sum before after fits
    rw [takeFrom_total listed.total fits, listed.total] at sizes
    exact sizes
  · rw [pages, if_pos rfl]
  · intro split
    rw [pages, if_neg (show block.1 + n ≠ block.1 by omega), if_pos ⟨split, rfl⟩]
  · intro p different outside
    rw [pages, if_neg different, if_neg fun both => outside both.1 both.2]

/-- The call returns what the search chooses. -/
theorem allocPages_eq (listed : ListedBlocks sys blocks) (positive : 0 < n) (enough : blocks.length < fuel) :
    allocPages fuel sys n =
      match chooseBest n blocks none (sys.nrFree + 1).toNat with
      | none => some (none, sys)
      | some page => some (some page, sys.takeFrom page n) := by
  rw [allocPages, if_pos positive]
  by_cases scarce : n > sys.nrFree.toNat
  · have none : chooseBest n blocks none (sys.nrFree + 1).toNat = none := by
      apply chooseBest_keeps
      intro block member
      exact .inl (Nat.lt_of_le_of_lt (size_le_nrFree listed member) scarce)
    rw [if_pos scarce, none]
  · have ring : sys.links.Ring freeList (([] ++ blocks).map blockNode) := listed.ring
    have search := @findBest_eq sys [] blocks n fuel none (sys.nrFree + 1).toNat ring listed.fields enough
    rw [lastNode_nil] at search
    rw [if_neg scarce, search]
    cases chooseBest n blocks none (sys.nrFree + 1).toNat with
    | none => rfl
    | some page => rfl

/-- The best block beats the first value of the running minimum. -/
theorem best_beats (listed : ListedBlocks sys blocks) {block : Nat × Nat}
    (allowed : sys.nrFree.toNat + 1 < 2 ^ 32 \/ (Exists fun block => block ∈ blocks /\ block.2 = n) \/
      forall block, block ∈ blocks -> block.2 < n)
    (split : blocks = before ++ block :: after) (best : Best n before block after) :
    block.2 = n \/ block.2 < (sys.nrFree + 1).toNat := by
  have member : block ∈ blocks := split ▸ List.mem_append_right before List.mem_cons_self
  rcases best with ⟨large, earlier, later⟩
  rcases allowed with small | ⟨other, otherMember, exact⟩ | none
  · right
    have sum : (sys.nrFree + 1).toNat = sys.nrFree.toNat + 1 := by
      rw [UInt32.toNat_add]
      exact Nat.mod_eq_of_lt small
    rw [sum]
    exact Nat.lt_succ_of_le (size_le_nrFree listed member)
  · left
    rw [split] at otherMember
    rcases List.mem_append.mp otherMember with before | rest
    · have place := earlier other before
      omega
    · rcases List.mem_cons.mp rest with same | after
      · exact same ▸ exact
      · have place := later other after
        omega
  · exact absurd (none block member) (Nat.not_lt_of_le large)

/-- Best fit keeps its promise unless `nr_free + 1` overflows while a block is
large enough and none has exactly the requested size. -/
theorem allocPages_best_iff (listed : ListedBlocks sys blocks) (positive : 0 < n) (enough : blocks.length < fuel) :
    ServesBest fuel sys blocks n <->
      sys.nrFree.toNat + 1 < 2 ^ 32 \/ (Exists fun block => block ∈ blocks /\ block.2 = n) \/
        forall block, block ∈ blocks -> block.2 < n := by
  have result := allocPages_eq listed positive enough
  constructor
  · intro serves
    by_contra refused
    simp only [not_or, not_exists, not_and] at refused
    rcases refused with ⟨large, inexact, some⟩
    have zero : (sys.nrFree + 1).toNat = 0 := by
      have counted := sys.nrFree.toNat_lt
      have full : sys.nrFree.toNat + 1 = 2 ^ 32 := by omega
      rw [UInt32.toNat_add]
      change (sys.nrFree.toNat + 1) % 2 ^ 32 = 0
      rw [full, Nat.mod_self]
    have none : chooseBest n blocks none (sys.nrFree + 1).toNat = none := by
      apply chooseBest_keeps
      intro block member
      exact .inr ⟨inexact block member, zero ▸ Nat.zero_le _⟩
    rw [none] at result
    exact some (serves.1.mp result)
  · intro allowed
    have served : forall before block after, blocks = before ++ block :: after -> Best n before block after ->
        allocPages fuel sys n = some (some block.1, sys.takeFrom block.1 n) := by
      intro before block after split best
      have beats := best_beats listed allowed split best
      rw [result, split, chooseBest_best none best beats]
    refine ⟨⟨fun none block member => ?_, fun none => ?_⟩, fun before block after split best => ?_⟩
    · by_contra large
      rcases exists_best ⟨block, member, Nat.le_of_not_lt large⟩ with ⟨before, found, after, split, best⟩
      rw [served before found after split best] at none
      cases none
    · rw [result, chooseBest_keeps Option.none fun block member => .inl (none block member)]
    · exact ⟨_, served before block after split best,
        takeFrom_served (split ▸ listed) positive best.1⟩

/-! ## A large and a small memory -/

/-- One free block of the given size from page 0. -/
def oneBlock (size : UInt32) : FirstFit where
  page := Function.update (fun _ => {}) 0 (setPageProperty { property := size.toNat })
  links := listAdd (listInit ⟨id, id⟩ freeList) freeList (.page 0)
  nrFree := size

theorem oneBlock_listed (size : UInt32) : ListedBlocks (oneBlock size) [(0, size.toNat)] where
  ring := ring_listAdd_head (Links.ring_reset _ _) (by decide)
  fields := by
    intro block member
    rw [List.mem_singleton.mp member]
    rfl
  flags := by
    intro block member
    rw [List.mem_singleton.mp member]
    rfl
  disjoint := List.pairwise_singleton _ _
  total := rfl

theorem oneBlock_serves_best :
    ServesBest 2 (oneBlock 8) [(0, 8)] 3 :=
  (allocPages_best_iff (oneBlock_listed 8) (by decide) (by decide)).mpr (.inl (by decide))

/-- With `2 ^ 32 - 1` free pages in one block, a request for one page fails. -/
theorem oneBlock_refused :
    ListedBlocks (oneBlock 0xffffffff) [(0, 0xffffffff)] /\
      ¬ ServesBest 2 (oneBlock 0xffffffff) [(0, 0xffffffff)] 1 := by
  have listed := oneBlock_listed 0xffffffff
  refine ⟨listed, fun serves => ?_⟩
  have result := @allocPages_eq _ _ 1 2 listed (by decide) (by decide)
  have none : chooseBest 1 [(0, 0xffffffff)] none ((oneBlock 0xffffffff).nrFree + 1).toNat = none :=
    chooseBest_keeps Option.none (by decide)
  rw [UInt32.toNat_ofNat] at result
  rw [none] at result
  exact absurd (serves.1.mp result (0, 0xffffffff) (List.mem_singleton_self _)) (by decide)

end BestFit

end Memory
end Ucore
