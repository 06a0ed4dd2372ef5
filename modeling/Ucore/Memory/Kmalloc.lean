import Mathlib.Algebra.Group.Nat.Defs
import Mathlib.Tactic.Ring
import Ucore.Memory.SlobRun

set_option linter.style.nameCheck false

namespace Ucore
namespace Kmalloc

open Library
open Program
open Slob

/-!
# The dispatch of `kmalloc`

Requests below a threshold go to the small-block heap with a header in front.
The others get whole pages: a record from the small-block heap keeps the order
and the address, and `kfree` finds a block by its record.  The records form a
list, first to last.  What a record holds is kept in that list only: nothing
reads the header of a record before `slob_free` sets it.

The page allocator is a parameter.  `answer` says what each request of the heap
for a page yields, and `pages` what a request for `2 ^ order` pages yields in
the present state.
-/

/-- `bigblock_t`, with the address at which it lies. -/
structure BigBlock where
  record : Nat
  order : Nat
  pages : Nat
deriving DecidableEq, Repr

structure Store where
  heap : Heap
  bigblocks : List BigBlock

abbrev Kernel (Value : Type) := Program Store Empty Fault Value

def inHeap {Value : Type} (call : Call Value) : Kernel Value :=
  zoom Store.heap (fun heap store => { store with heap := heap }) call

/-- `sizeof(bigblock_t)` -/
def bigblockSize : Nat := 24

/-! ## `find_order` -/

/-- What `size` becomes as an argument of type `int`. -/
def toInt (size : Nat) : Int := Int.bmod size (2 ^ 32)

/-- `for (; size > 4096; size >>= 1) order++;` -/
def findOrderLoop : Nat -> Int -> Nat -> Nat
  | 0, _, order => order
  | fuel + 1, size, order => if size > 4096 then findOrderLoop fuel (size >>> (1 : Nat)) (order + 1) else order

/-- `find_order`: an `int` has no more bits than the loop is given rounds. -/
def findOrder (size : Int) : Nat := findOrderLoop 32 size 0

/-! ## `__kmalloc` and `kfree` -/

variable (answer : Nat -> Option Nat) (pages : Store -> Nat -> Option Nat)

/-- The record is listed, or given back when there are no pages. -/
def recordPages (bb order : Nat) : Option Nat -> Kernel Nat
  | some block => do
      modify (fun store => { store with bigblocks := ⟨bb, order, block⟩ :: store.bigblocks })
      pure block
  | none => do
      inHeap (slobFree bb bigblockSize)
      pure 0

/-- The second half of `__kmalloc` -/
def allocBig (size bb : Nat) : Kernel Nat :=
  if bb = 0 then pure 0
  else do
    let store <- get
    recordPages bb (findOrder (toInt size)) (pages store (findOrder (toInt size)))

def __kmalloc (size : Nat) : Kernel Nat :=
  if size < pageSize - slobUnit then inHeap (Slob.kmalloc answer size)
  else do
    let bb <- inHeap (slobAlloc answer bigblockSize)
    allocBig pages size bb

/-- `kfree` of a block whose record is found, or of a small block -/
def release (block : Nat) : Option BigBlock -> Kernel Unit
  | some bb => do
      modify (fun store => { store with bigblocks := store.bigblocks.erase bb })
      inHeap (slobFree bb.record bigblockSize)
  | none => inHeap (slobFree (block - slobUnit) 0)

/-- The record of a block, sought for if the block starts a page -/
def recordOf (store : Store) (block : Nat) : Option BigBlock :=
  if block % pageSize = 0 then store.bigblocks.find? (fun bb => bb.pages = block) else none

def kfree (block : Nat) : Kernel Unit :=
  if block = 0 then pure ()
  else do
    let store <- get
    release block (recordOf store block)

/-! ## The order of a large request -/

/-- The loop stops at the first order at which the halved size is no more than
a page; the bits that the halving drops do not count. -/
theorem findOrderLoop_spec (fuel size order : Nat) (enough : size < (pageSize + 1) * 2 ^ fuel) :
    order <= findOrderLoop fuel size order /\
      size < (pageSize + 1) * 2 ^ (findOrderLoop fuel size order - order) /\
      forall more, size < (pageSize + 1) * 2 ^ more -> findOrderLoop fuel size order <= order + more := by
  induction fuel generalizing size order with
  | zero =>
      rw [findOrderLoop, Nat.sub_self]
      exact ⟨Nat.le_refl _, enough, fun more _ => Nat.le_add_right _ _⟩
  | succ fuel inductionHypothesis =>
      rw [findOrderLoop]
      have halves : forall more, size / 2 < (pageSize + 1) * 2 ^ more <-> size < (pageSize + 1) * 2 ^ (more + 1) := by
        intro more
        rw [pow_succ, ← Nat.mul_assoc]
        omega
      by_cases large : (size : Int) > 4096
      · have shifted : (size : Int) >>> (1 : Nat) = ((size / 2 : Nat) : Int) := Int.shiftRight_eq_div_pow size 1
        rw [if_pos large, shifted]
        have rest := inductionHypothesis (size / 2) (order + 1) ((halves fuel).mpr enough)
        have shrunk := (halves _).mp rest.2.1
        have moved : findOrderLoop fuel ((size / 2 : Nat) : Int) (order + 1) - (order + 1) + 1 =
            findOrderLoop fuel ((size / 2 : Nat) : Int) (order + 1) - order := by omega
        rw [moved] at shrunk
        refine ⟨by omega, shrunk, fun more bound => ?_⟩
        cases more with
        | zero =>
            rw [pow_zero, Nat.mul_one] at bound
            unfold pageSize at bound
            omega
        | succ more =>
            have smaller := rest.2.2 more ((halves more).mpr bound)
            omega
      · rw [if_neg large, Nat.sub_self, pow_zero, Nat.mul_one]
        refine ⟨Nat.le_refl _, ?_, fun more _ => Nat.le_add_right _ _⟩
        unfold pageSize
        omega

/-- The order is large enough for the size, and no smaller one is. -/
def Covers (size : Nat) : Prop :=
  size <= pageSize * 2 ^ findOrder (toInt size) /\
    forall order, size <= pageSize * 2 ^ order -> findOrder (toInt size) <= order

/-- The size exceeds a power of two of pages by less than the halvings drop. -/
def Truncated (size : Nat) : Prop :=
  Exists fun order => 0 < order /\ pageSize * 2 ^ order < size /\ size < (pageSize + 1) * 2 ^ order

theorem toInt_eq {size : Nat} (bound : size < 2 ^ 31) : toInt size = size := by
  unfold toInt
  rw [Int.bmod_def]
  omega

theorem findOrder_spec {size : Nat} (bound : size < 2 ^ 31) :
    size < (pageSize + 1) * 2 ^ findOrder (toInt size) /\
      forall order, size < (pageSize + 1) * 2 ^ order -> findOrder (toInt size) <= order := by
  rw [toInt_eq bound]
  have enough : size < (pageSize + 1) * 2 ^ 32 := by
    unfold pageSize
    omega
  have loop := findOrderLoop_spec 32 size 0 enough
  refine ⟨loop.2.1, fun order fits => ?_⟩
  have least := loop.2.2 order fits
  rw [Nat.zero_add] at least
  exact least

/-- `find_order` covers the request unless the halvings drop what exceeds a
power of two of pages. -/
theorem covers_iff {size : Nat} (large : pageSize < size) (bound : size <= 2 ^ 30) :
    Covers size <-> ¬ Truncated size := by
  have spec := @findOrder_spec size (by omega)
  unfold Covers
  generalize findOrder (toInt size) = chosen at spec ⊢
  have wider : forall order, pageSize * 2 ^ order < (pageSize + 1) * 2 ^ order := fun order =>
    Nat.mul_lt_mul_of_pos_right (Nat.lt_succ_self _) (Nat.two_pow_pos order)
  have least : forall order, size <= pageSize * 2 ^ order -> chosen <= order := fun order fits =>
    spec.2 order (Nat.lt_of_le_of_lt fits (wider order))
  constructor
  · rintro ⟨covered, _⟩ ⟨order, positive, above, below⟩
    have smaller := spec.2 order below
    have grows := Nat.mul_le_mul_left pageSize (Nat.pow_le_pow_right Nat.two_pos smaller)
    omega
  · intro whole
    refine ⟨?_, least⟩
    by_contra short
    refine whole ⟨chosen, ?_, Nat.lt_of_not_le short, spec.1⟩
    by_contra zero
    rw [Nat.eq_zero_of_not_pos zero, pow_zero, Nat.mul_one] at spec
    omega

/-! ## The assertion of `slob_alloc` -/

/-- The fault of the assertion. -/
def tooLarge : Fault := .assertion "(size + SLOB_UNIT) < PAGE_SIZE"

/-- The call may run out of steps, but no assertion fails. -/
def Quiet {State Value : Type} (program : Program State Empty Fault Value) : Prop :=
  forall state, Meets program state ⟨fun _ _ => True, fun _ _ => True, fun fault => fault = .endless⟩

section Quiet

variable {State Value Next : Type} {answer : Nat -> Option Nat} {pages : Store -> Nat -> Option Nat}

theorem Quiet.bind {program : Program State Empty Fault Value} {next : Value -> Program State Empty Fault Next}
    (quiet : Quiet program) (later : forall value, Quiet (next value)) : Quiet (program >>= next) := by
  intro state
  rw [meets_bind]
  exact (quiet state).mono (fun value after _ => later value after) (fun _ _ _ => trivial) (fun _ ends => ends)

theorem quiet_pure (value : Value) : Quiet (pure value : Program State Empty Fault Value) :=
  fun _ => trivial

theorem quiet_get : Quiet (get : Program State Empty Fault State) := fun _ => trivial

theorem quiet_modify (change : State -> State) : Quiet (modify change : Program State Empty Fault Unit) :=
  fun _ => trivial

theorem quiet_endless : Quiet (halt .endless : Program State Empty Fault Value) := fun _ => rfl

theorem Quiet.ite {first second : Program State Empty Fault Value} (condition : Prop) [Decidable condition]
    (quiet : Quiet first) (other : Quiet second) : Quiet (if condition then first else second) := by
  split
  · exact quiet
  · exact other

theorem Quiet.inHeap {call : Call Value} (quiet : Quiet call) : Quiet (inHeap call) := by
  intro store
  unfold Kmalloc.inHeap
  rw [meets_zoom]
  exact quiet store.heap

theorem quiet_insertionPoint (b fuel place : Nat) : Quiet (insertionPoint b fuel place) := by
  induction fuel generalizing place with
  | zero => exact quiet_endless
  | succ fuel inductionHypothesis =>
      rw [insertionPoint]
      exact quiet_get.bind fun heap => .ite _ (quiet_pure _) (.ite _ (quiet_pure _) (inductionHypothesis _))

theorem quiet_slobFree (block size : Nat) : Quiet (slobFree block size) := by
  have joins : forall cur, Quiet (do
      joinNext block cur
      joinPrevious block cur
      modify (fun heap => { heap with slobfree := cur })) := fun cur =>
    (quiet_get.bind fun _ => .ite _ ((quiet_modify _).bind fun _ => quiet_modify _) (quiet_modify _)).bind fun _ =>
      (quiet_get.bind fun _ => .ite _ ((quiet_modify _).bind fun _ => quiet_modify _) (quiet_modify _)).bind fun _ =>
        quiet_modify _
  have inserts : Quiet (slobInsert block) :=
    quiet_get.bind fun heap => (quiet_insertionPoint _ _ _).bind joins
  exact .ite _ (quiet_pure _) (.ite _ ((quiet_modify _).bind fun _ => inserts) inserts)

theorem quiet_searchLoop (size fuel place : Nat) : Quiet (searchLoop answer size fuel place) := by
  induction fuel generalizing place with
  | zero => exact quiet_endless
  | succ fuel inductionHypothesis =>
      have takes : forall units prev cur, Quiet (take units prev cur) := fun units prev cur =>
        (quiet_get.bind fun _ => .ite _ (quiet_modify _) ((quiet_modify _).bind fun _ => quiet_get.bind fun _ =>
          (quiet_modify _).bind fun _ => quiet_get.bind fun _ => (quiet_modify _).bind fun _ => quiet_modify _)).bind
            fun _ => (quiet_modify _).bind fun _ => quiet_pure _
      have grows : Quiet (grow answer size (searchLoop answer size fuel)) := by
        refine .ite _ (quiet_pure _) ((quiet_get.bind fun _ => (quiet_modify _).bind fun _ => quiet_pure _).bind ?_)
        intro page
        cases page with
        | none => exact quiet_pure _
        | some page => exact (quiet_slobFree _ _).bind fun _ => quiet_get.bind fun heap => inductionHypothesis _
      rw [searchLoop]
      exact quiet_get.bind fun heap => .ite _ (takes _ _ _) (.ite _ grows (inductionHypothesis _))

/-- `slob_alloc` of an admitted size meets its assertion. -/
theorem quiet_slobAlloc {size : Nat} (small : size + slobUnit < pageSize) : Quiet (slobAlloc answer size) := by
  unfold slobAlloc assert
  rw [if_pos small]
  exact (quiet_pure _).bind fun _ => quiet_get.bind fun heap => quiet_searchLoop _ _ _

end Quiet

variable {answer pages}

/-- The small-block path takes a size that its header makes too large. -/
theorem kmalloc_trips {size : Nat} (store : Store) (above : pageSize - 2 * slobUnit <= size)
    (below : size < pageSize - slobUnit) : __kmalloc answer pages size store = .stop tooLarge := by
  have fails : ¬ size + slobUnit + slobUnit < pageSize := by
    unfold pageSize slobUnit at *
    omega
  unfold __kmalloc Kmalloc.inHeap Slob.kmalloc slobAlloc assert
  rw [if_pos below, if_neg fails]
  rfl

/-- In every state the assertion fails exactly for the sixteen sizes between
the two bounds. -/
theorem kmalloc_trips_iff (size : Nat) (store : Store) :
    __kmalloc answer pages size store = .stop tooLarge <->
      pageSize - 2 * slobUnit <= size /\ size < pageSize - slobUnit := by
  constructor
  · intro tripped
    by_contra outside
    have quiet : Quiet (__kmalloc answer pages size) := by
      unfold __kmalloc
      by_cases small : size < pageSize - slobUnit
      · rw [if_pos small]
        have admitted : size + slobUnit + slobUnit < pageSize := by
          unfold pageSize slobUnit at *
          omega
        exact ((quiet_slobAlloc admitted).bind fun m => quiet_pure _).inHeap
      · rw [if_neg small]
        refine (quiet_slobAlloc (by decide)).inHeap.bind fun bb =>
          .ite _ (quiet_pure _) (quiet_get.bind fun store => ?_)
        cases pages store (findOrder (toInt size)) with
        | none => exact (quiet_slobFree _ _).inHeap.bind fun _ => quiet_pure _
        | some block => exact (quiet_modify _).bind fun _ => quiet_pure _
    have ends := (quiet store).of_stop tripped
    cases ends
  · exact fun between => kmalloc_trips store between.1 between.2

/-- The first request of the kernel, for `PAGE_SIZE - 2 * SLOB_UNIT` bytes. -/
theorem firstRequest_trips :
    __kmalloc onePage (fun _ _ => none) 4064 ⟨(boot 16).heap, []⟩ = .stop tooLarge :=
  kmalloc_trips _ (by decide) (by decide)

end Kmalloc
end Ucore
