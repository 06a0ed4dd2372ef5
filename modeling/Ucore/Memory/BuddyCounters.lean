import Ucore.Memory.BuddySystem
import Mathlib.Algebra.BigOperators.Group.Finset.Piecewise
import Mathlib.Algebra.Ring.Nat

namespace Ucore
namespace Memory

/-!
# The counters of the buddy allocator

Every list has a counter of its blocks, and there is one of all free pages.
Linking and unlinking a block keep the counter of the list, and move its pages
between the lists and the hand.
-/

namespace BuddySystem

/-- The pages of the blocks on the lists. -/
def listedPages (free : Nat -> List Nat) : Nat :=
  ∑ order ∈ Finset.range maxOrder, 2 ^ order * (free order).length

/-- The counters of the lists are their lengths. -/
def AreasCount (sys : BuddySystem) (free : Nat -> List Nat) : Prop :=
  forall order, order < maxOrder -> sys.areaNrFree order = UInt32.ofNat (free order).length

/-- Only the list of one order changes. -/
theorem listedPages_update (free : Nat -> List Nat) {order : Nat} (bound : order < maxOrder) (members : List Nat) :
    listedPages (Function.update free order members) + 2 ^ order * (free order).length =
      listedPages free + 2 ^ order * members.length := by
  have member : order ∈ Finset.range maxOrder := Finset.mem_range.mpr bound
  unfold listedPages
  rw [← Finset.add_sum_erase _ _ member, ← Finset.add_sum_erase _ (fun order => 2 ^ order * (free order).length) member,
    Function.update_self]
  have rest : forall other, other ∈ (Finset.range maxOrder).erase order ->
      2 ^ other * (Function.update free order members other).length = 2 ^ other * (free other).length := by
    intro other distinct
    rw [Function.update_of_ne (Finset.ne_of_mem_erase distinct)]
  rw [Finset.sum_congr rfl rest]
  omega

/-- Blocks move between the lists and the hand, which holds so many pages. -/
structure Moves (sys : BuddySystem) (free : Nat -> List Nat) (held : Nat) (next : BuddySystem)
    (nextFree : Nat -> List Nat)
    (nextHeld : Nat) : Prop where
  pages : listedPages nextFree + nextHeld = listedPages free + held
  total : next.nrFree = sys.nrFree
  areas : AreasCount sys free -> AreasCount next nextFree

variable {sys next last : BuddySystem} {free nextFree lastFree : Nat -> List Nat} {held nextHeld lastHeld : Nat}

theorem Moves.refl (sys : BuddySystem) (free : Nat -> List Nat) (held : Nat) : Moves sys free held sys free held :=
  ⟨rfl, rfl, fun areas => areas⟩

theorem Moves.trans (first : Moves sys free held next nextFree nextHeld)
    (second : Moves next nextFree nextHeld last lastFree lastHeld) : Moves sys free held last lastFree lastHeld :=
  ⟨second.pages.trans first.pages, second.total.trans first.total, fun areas => second.areas (first.areas areas)⟩

theorem linkBlock_moves {start order : Nat} (bound : order < maxOrder) (held : Nat) :
    Moves sys free (held + 2 ^ order) (sys.linkBlock start order) (Function.update free order (start :: free order))
      held := by
  refine ⟨?_, rfl, fun areas other small => ?_⟩
  · have pages := listedPages_update free bound (start :: free order)
    rw [List.length_cons, Nat.mul_succ] at pages
    omega
  · change Function.update sys.areaNrFree order (sys.areaNrFree order + 1) other = _
    by_cases same : other = order
    · rw [same, Function.update_self, Function.update_self, areas order bound, List.length_cons, UInt32.ofNat_add]
      rfl
    · rw [Function.update_of_ne same, Function.update_of_ne same]
      exact areas other small

theorem unlinkBlock_moves {start order : Nat} {first rest : List Nat} (bound : order < maxOrder)
    (split : free order = first ++ start :: rest) (held : Nat) :
    Moves sys free held (sys.unlinkBlock start order) (Function.update free order (first ++ rest))
      (held + 2 ^ order) := by
  have length : (free order).length = (first ++ rest).length + 1 := by
    rw [split, List.length_append, List.length_append, List.length_cons]
    rfl
  refine ⟨?_, rfl, fun areas other small => ?_⟩
  · have pages := listedPages_update free bound (first ++ rest)
    rw [length, Nat.mul_succ] at pages
    omega
  · change Function.update sys.areaNrFree order (sys.areaNrFree order - 1) other = _
    by_cases same : other = order
    · rw [same, Function.update_self, Function.update_self, areas order bound, length, UInt32.ofNat_add]
      exact UInt32.add_sub_cancel _ _
    · rw [Function.update_of_ne same, Function.update_of_ne same]
      exact areas other small

/-- Pages leave the lists, and the counter of free pages. -/
structure Takes (sys : BuddySystem) (free : Nat -> List Nat) (count : Nat) (next : BuddySystem)
    (nextFree : Nat -> List Nat) :
    Prop where
  pages : listedPages nextFree + count = listedPages free
  total : next.nrFree = sys.nrFree - UInt32.ofNat count
  areas : AreasCount sys free -> AreasCount next nextFree

/-- Pages come onto the lists, and into the counter, by the same number.  The
counter is a machine word, so it gains modulo 2^32. -/
structure Gains (sys : BuddySystem) (free : Nat -> List Nat) (count : Nat) (next : BuddySystem)
    (nextFree : Nat -> List Nat) :
    Prop where
  pages : listedPages nextFree = listedPages free + count
  total : next.nrFree = sys.nrFree + UInt32.ofNat count
  areas : AreasCount sys free -> AreasCount next nextFree

theorem Gains.none (sys : BuddySystem) (free : Nat -> List Nat) : Gains sys free 0 sys free :=
  ⟨(Nat.add_zero _).symm, (UInt32.add_zero _).symm, fun areas => areas⟩

theorem Gains.trans {count more : Nat} (first : Gains sys free count next nextFree)
    (second : Gains next nextFree more last lastFree) : Gains sys free (count + more) last lastFree := by
  refine ⟨?_, ?_, fun areas => second.areas (first.areas areas)⟩
  · rw [second.pages, first.pages, Nat.add_assoc]
  · rw [second.total, first.total, UInt32.ofNat_add, UInt32.add_assoc]

/-- A block that comes onto a list is counted. -/
theorem linkBlock_gains {start order : Nat} (bound : order < maxOrder) :
    Gains sys free (2 ^ order)
      { sys.linkBlock start order with nrFree := (sys.linkBlock start order).nrFree + UInt32.ofNat (2 ^ order) }
      (Function.update free order (start :: free order)) := by
  have moves := @linkBlock_moves sys free start order bound 0
  refine ⟨?_, rfl, fun areas => moves.areas areas⟩
  have pages := moves.pages
  omega

/-! ## Initialisation -/

theorem init_counts (sys : BuddySystem) : AreasCount sys.init (fun _ => []) /\ sys.init.nrFree = 0 := by
  have folded : forall (orders : List Nat) (sys : BuddySystem) (order : Nat),
      order ∈ orders \/ sys.areaNrFree order = 0 ->
        (orders.foldl (fun (sys : BuddySystem) order =>
          { sys with
            links := listInit sys.links (.head order)
            areaNrFree := Function.update sys.areaNrFree order 0 }) sys).areaNrFree order = 0 := by
    intro orders
    induction orders with
    | nil =>
        rintro sys order (absent | zero)
        · cases absent
        · exact zero
    | cons other rest inductionHypothesis =>
        intro sys order held
        rw [List.foldl_cons]
        refine inductionHypothesis _ order ?_
        by_cases same : order = other
        · subst same
          exact .inr (Function.update_self ..)
        · refine held.imp (fun member => (List.mem_cons.mp member).resolve_left same) fun zero => ?_
          exact (Function.update_of_ne same _ _).trans zero
  exact ⟨fun order bound => folded (List.range maxOrder) sys order (.inl (List.mem_range.mpr bound)), rfl⟩

theorem clearRegion_counters {p remain : Nat} (cleared : clearRegion p remain sys = some next) :
    next.areaNrFree = sys.areaNrFree /\ next.nrFree = sys.nrFree := by
  induction remain generalizing p sys with
  | zero =>
      cases cleared
      exact ⟨rfl, rfl⟩
  | succ remain inductionHypothesis =>
      rw [clearRegion] at cleared
      split at cleared
      · have kept := inductionHypothesis cleared
        exact kept
      · cases cleared

end BuddySystem

end Memory
end Ucore
