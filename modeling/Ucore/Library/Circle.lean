import Mathlib.Data.Finset.Card
import Mathlib.Logic.Function.Basic
import Mathlib.Order.Basic

namespace Ucore
namespace Library

universe u

/-!
# Singly linked lists in address order

A circular list whose entries are sorted by address has one place where it
wraps, from its greatest entry to its least.  This is said of each entry alone:
no other entry lies between it and its successor, where *between* is read
around the circle.  Both edits of such a list, and the walks around it, then
need the order of a few addresses only.
-/

variable {Address : Type u} [LinearOrder Address]

/-- Going up from `low`, and wrapping at the top if `high` is not above it,
`middle` is met before `high`. -/
def Between (low middle high : Address) : Prop :=
  (low < middle /\ middle < high) \/ (high <= low /\ (low < middle \/ middle < high))

instance (low middle high : Address) : Decidable (Between low middle high) :=
  inferInstanceAs (Decidable ((low < middle /\ middle < high) \/ (high <= low /\ (low < middle \/ middle < high))))

/-- A circular list with these entries, sorted, with a single wrap. -/
structure Circle (next : Address -> Address) (entries : Finset Address) : Prop where
  closed : forall entry, entry ∈ entries -> next entry ∈ entries
  empty : forall entry other, entry ∈ entries -> other ∈ entries -> ¬ Between entry other (next entry)

namespace Circle

variable {next : Address -> Address} {entries : Finset Address}

/-- Only the greatest entry wraps, and it wraps to the least. -/
theorem wraps (circle : Circle next entries) {entry : Address} (member : entry ∈ entries)
    (wrap : next entry <= entry) {other : Address} (found : other ∈ entries) :
    other <= entry /\ next entry <= other := by
  have empty := circle.empty _ _ member found
  unfold Between at empty
  grind

theorem injective (circle : Circle next entries) {entry other : Address} (member : entry ∈ entries)
    (found : other ∈ entries) (same : next entry = next other) : entry = other := by
  have first := circle.empty _ _ member found
  have second := circle.empty _ _ found member
  unfold Between at first second
  grind

/-- An entry that is its own successor is the only one. -/
theorem only (circle : Circle next entries) {entry other : Address} (member : entry ∈ entries)
    (found : other ∈ entries) (alone : next entry = entry) : other = entry := by
  have empty := circle.empty _ _ member found
  unfold Between at empty
  grind

theorem congr (circle : Circle next entries) {other : Address -> Address}
    (same : forall entry, entry ∈ entries -> other entry = next entry) : Circle other entries where
  closed := fun _ member => by
    rw [same _ member]
    exact circle.closed _ member
  empty := fun _ _ member found => by
    rw [same _ member]
    exact circle.empty _ _ member found

/-- Insertion after the entry whose gap the new one lies in. -/
theorem insert (circle : Circle next entries) {place new : Address} (member : place ∈ entries)
    (gap : Between place new (next place)) {other : Address -> Address}
    (toNew : other place = new) (fromNew : other new = next place)
    (same : forall entry, entry ∈ entries -> entry ≠ place -> other entry = next entry) :
    Circle other (insert new entries) where
  closed := fun entry found => by
    have after := circle.closed _ member
    have step := circle.closed entry
    have agree := same entry
    by_cases here : entry = place <;> grind
  empty := fun entry another found present => by
    have here := circle.empty place another member
    have there := circle.empty entry another
    have start := circle.empty entry place
    have finish := circle.empty entry (next place)
    have back := circle.empty place entry member
    have ahead := circle.empty place (next entry) member
    have after := circle.closed _ member
    have step := circle.closed entry
    have agree := same entry
    unfold Between at *
    by_cases first : entry = place <;> by_cases second : entry = new <;> grind

theorem unlink (circle : Circle next entries) {place : Address} (member : place ∈ entries)
    (several : next place ≠ place) {other : Address -> Address} (jump : other place = next (next place))
    (same : forall entry, entry ∈ entries -> entry ≠ place -> entry ≠ next place -> other entry = next entry) :
    Circle other (entries.erase (next place)) where
  closed := fun entry found => by
    have after := circle.closed _ member
    have far := circle.closed _ after
    have step := circle.closed entry
    have injective : entry ∈ entries -> next entry = next place -> entry = place :=
      fun found => circle.injective found member
    have stays : next (next place) ≠ next place := fun alone => several (circle.only after member alone).symm
    have agree := same entry
    by_cases here : entry = place <;> grind
  empty := fun entry another found present => by
    have here := circle.empty place another member
    have after := circle.closed _ member
    have beyond := circle.empty (next place) another after
    have there := circle.empty entry another
    have agree := same entry
    unfold Between at *
    by_cases here : entry = place <;> grind

/-! ## Walks -/

/-- The entries met before `stop` on the way up from `place`. -/
def ahead (entries : Finset Address) (place stop : Address) : Finset Address :=
  entries.filter (fun entry => Between place entry stop)

/-- A step that neither reaches `stop` nor passes it has fewer entries ahead. -/
theorem ahead_lt (circle : Circle next entries) {place stop : Address} (member : place ∈ entries)
    (unreached : next place ≠ stop) (unpassed : ¬ Between place stop (next place)) :
    (ahead entries (next place) stop).card < (ahead entries place stop).card := by
  apply Finset.card_lt_card
  rw [Finset.ssubset_iff_of_subset]
  · refine ⟨next place, Finset.mem_filter.mpr ⟨circle.closed _ member, ?_⟩, ?_⟩
    · unfold Between at *
      grind
    · intro found
      have self := (Finset.mem_filter.mp found).2
      unfold Between at self unpassed
      grind
  · intro entry found
    rcases Finset.mem_filter.mp found with ⟨present, between⟩
    refine Finset.mem_filter.mpr ⟨present, ?_⟩
    unfold Between at *
    grind

/-- What a step of a walk towards an entry leaves behind is where it arrives. -/
theorem ahead_step (circle : Circle next entries) {place stop entry : Address} (member : place ∈ entries)
    (found : entry ∈ ahead entries place stop) :
    entry = next place \/ entry ∈ ahead entries (next place) stop := by
  rcases Finset.mem_filter.mp found with ⟨present, between⟩
  have empty := circle.empty _ _ member present
  by_cases here : entry = next place
  · exact .inl here
  · refine .inr (Finset.mem_filter.mpr ⟨present, ?_⟩)
    unfold Between at *
    grind

/-- Every other entry is ahead on the way round. -/
theorem ahead_round {place entry : Address} (found : entry ∈ entries) (other : entry ≠ place) :
    entry ∈ ahead entries place place := by
  refine Finset.mem_filter.mpr ⟨found, .inr ⟨le_refl _, ?_⟩⟩
  exact (lt_or_gt_of_ne other).symm

theorem ahead_card_le (place stop : Address) : (ahead entries place stop).card <= entries.card :=
  Finset.card_filter_le _ _

/-- The entries from `place` on, up to the one before `stop`. -/
def upto (next : Address -> Address) (stop : Address) : Nat -> Address -> List Address
  | 0, _ => []
  | fuel + 1, place => place :: if next place = stop then [] else upto next stop fuel (next place)

theorem upto_subset (circle : Circle next entries) {stop place entry : Address} {fuel : Nat}
    (member : place ∈ entries) (read : entry ∈ upto next stop fuel place) : entry ∈ entries := by
  induction fuel generalizing place with
  | zero => cases read
  | succ fuel inductionHypothesis =>
      rw [upto, List.mem_cons] at read
      cases read with
      | inl here => exact here ▸ member
      | inr later =>
          split at later
          · cases later
          · exact inductionHypothesis (circle.closed _ member) later

theorem upto_reaches (circle : Circle next entries) {stop place entry : Address} {fuel : Nat}
    (member : place ∈ entries) (stopMember : stop ∈ entries)
    (enough : (ahead entries place stop).card < fuel) (found : entry ∈ ahead entries place stop) :
    entry ∈ upto next stop fuel place := by
  induction fuel generalizing place with
  | zero => omega
  | succ fuel inductionHypothesis =>
      rw [upto, List.mem_cons]
      refine .inr ?_
      have between := (Finset.mem_filter.mp found).2
      rw [if_neg ?_]
      · have unreached : next place ≠ stop := by
          intro reached
          exact circle.empty _ _ member (Finset.mem_filter.mp found).1 (reached ▸ between)
        have fewer := circle.ahead_lt member unreached (circle.empty _ _ member stopMember)
        cases circle.ahead_step member found with
        | inl here =>
            cases fuel with
            | zero => omega
            | succ fuel => exact here ▸ List.mem_cons_self
        | inr later => exact inductionHypothesis (circle.closed _ member) (by omega) later
      · intro reached
        exact circle.empty _ _ member (Finset.mem_filter.mp found).1 (reached ▸ between)

/-- The list read from one of its entries has all of them. -/
theorem mem_upto (circle : Circle next entries) {start entry : Address} {fuel : Nat} (member : start ∈ entries)
    (enough : entries.card < fuel) : entry ∈ upto next start fuel start <-> entry ∈ entries := by
  constructor
  · exact circle.upto_subset member
  · intro found
    by_cases here : entry = start
    · cases fuel with
      | zero => omega
      | succ fuel => exact here ▸ List.mem_cons_self
    · apply circle.upto_reaches member member _ (ahead_round found here)
      exact Nat.lt_of_le_of_lt (ahead_card_le start start) enough

end Circle

end Library
end Ucore
