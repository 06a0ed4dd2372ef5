import Mathlib.Data.List.Basic
import Mathlib.Data.List.Nodup

namespace Ucore
namespace Library

universe u

/-!
# Delta lists

A queue of keys that are due after so many ticks can store, for each key, the
ticks from the key before it.  A tick then changes the first entry only.  What
a key still has to wait is the sum of the entries up to it.
-/

/-- Keys with the ticks between them. -/
abbrev DeltaList (Key : Type u) := List (Key × Int)

namespace DeltaList

variable {Key : Type u}

/-- The ticks until a key is due. -/
def due [DecidableEq Key] : DeltaList Key -> Key -> Option Int
  | [], _ => none
  | entry :: rest, key => if key = entry.1 then some entry.2 else (due rest key).map (fun wait => entry.2 + wait)

def keys (list : DeltaList Key) : List Key := list.map Prod.fst

/-- Put a key where it is due after `wait` ticks, behind those due with it. -/
def insert (key : Key) : Int -> DeltaList Key -> DeltaList Key
  | wait, [] => [(key, wait)]
  | wait, next :: rest =>
      if wait < next.2 then (key, wait) :: (next.1, next.2 - wait) :: rest
      else next :: insert key (wait - next.2) rest

/-- Put off the first entry. -/
def delay (ticks : Int) : DeltaList Key -> DeltaList Key
  | [] => []
  | next :: rest => (next.1, next.2 + ticks) :: rest

/-- Take a key out. -/
def erase [DecidableEq Key] (key : Key) : DeltaList Key -> DeltaList Key
  | [] => []
  | entry :: rest => if entry.1 = key then delay entry.2 rest else entry :: erase key rest

/-- Move the first entry one tick closer. -/
def approach : DeltaList Key -> DeltaList Key
  | [] => []
  | first :: rest => (first.1, first.2 - 1) :: rest

/-- The entries at the front that are due. -/
def ripe (list : DeltaList Key) : DeltaList Key := list.takeWhile (fun entry => decide (entry.2 = 0))

def unripe (list : DeltaList Key) : DeltaList Key := list.dropWhile (fun entry => decide (entry.2 = 0))

/-- Every key is stored once, no wait is negative, and the first is positive. -/
structure Sound (list : DeltaList Key) : Prop where
  once : list.keys.Nodup
  nonneg : forall entry, entry ∈ list -> 0 <= entry.2
  head : forall entry, list.head? = some entry -> 0 < entry.2

/-! ## What a key waits -/

theorem due_eq_none [DecidableEq Key] {list : DeltaList Key} {key : Key} : due list key = none <-> key ∉ list.keys := by
  induction list with
  | nil => exact ⟨fun _ => List.not_mem_nil, fun _ => rfl⟩
  | cons entry rest inductionHypothesis =>
      rw [due, keys, List.map_cons, List.mem_cons, not_or]
      by_cases first : key = entry.1
      · rw [if_pos first]
        exact ⟨fun absent => absurd absent (Option.some_ne_none _), fun both => absurd first both.1⟩
      · rw [if_neg first, Option.map_eq_none_iff, inductionHypothesis]
        exact ⟨fun absent => ⟨first, absent⟩, fun both => both.2⟩

theorem due_nonneg [DecidableEq Key] {list : DeltaList Key} (nonneg : forall entry, entry ∈ list -> 0 <= entry.2)
    {key : Key}
    {wait : Int} (waits : due list key = some wait) : 0 <= wait := by
  induction list generalizing wait with
  | nil => cases waits
  | cons entry rest inductionHypothesis =>
      have first := nonneg entry (List.mem_cons_self ..)
      rw [due] at waits
      split at waits
      · exact Option.some.inj waits ▸ first
      · rcases Option.map_eq_some_iff.mp waits with ⟨later, inner, rfl⟩
        have positive := inductionHypothesis (fun other member => nonneg other (List.mem_cons_of_mem _ member)) inner
        omega

/-! ## Insertion -/

theorem mem_keys_insert {key other : Key} {wait : Int} {list : DeltaList Key} :
    other ∈ (insert key wait list).keys <-> other = key \/ other ∈ list.keys := by
  induction list generalizing wait with
  | nil => simp [insert, keys]
  | cons next rest inductionHypothesis =>
      rw [insert]
      split
      · simp [keys]
      · have inner := @inductionHypothesis (wait - next.2)
        unfold keys at *
        rw [List.map_cons, List.mem_cons, inner, List.map_cons, List.mem_cons]
        exact or_left_comm

theorem due_insert [DecidableEq Key] {key : Key} {wait : Int} {list : DeltaList Key} (absent : key ∉ list.keys)
    (other : Key) :
    due (insert key wait list) other = if other = key then some wait else due list other := by
  induction list generalizing wait with
  | nil =>
      rw [insert, due, due]
      rfl
  | cons next rest inductionHypothesis =>
      rw [keys, List.map_cons, List.mem_cons, not_or] at absent
      rw [insert]
      split
      · rw [due, due, due]
        split
        · rfl
        · split
          · refine congrArg some ?_
            change wait + (next.2 - wait) = next.2
            omega
          · rw [Option.map_map]
            refine congrFun (congrArg Option.map (funext fun later => ?_)) _
            change wait + (next.2 - wait + later) = next.2 + later
            omega
      · rw [due, due, inductionHypothesis absent.2]
        by_cases first : other = next.1
        · rw [if_pos first, if_pos first, if_neg (by rw [first]; exact Ne.symm absent.1)]
        · rw [if_neg first, if_neg first]
          split
          · refine congrArg some ?_
            change next.2 + (wait - next.2) = wait
            omega
          · rfl

theorem insert_nonneg {key : Key} {wait : Int} {list : DeltaList Key} (positive : 0 <= wait)
    (nonneg : forall entry, entry ∈ list -> 0 <= entry.2) : forall entry, entry ∈ insert key wait list ->
      0 <= entry.2 := by
  induction list generalizing wait with
  | nil =>
      intro entry member
      cases List.mem_singleton.mp member
      exact positive
  | cons next rest inductionHypothesis =>
      have first := nonneg next (List.mem_cons_self ..)
      have others : forall entry, entry ∈ rest -> 0 <= entry.2 :=
        fun entry member => nonneg entry (List.mem_cons_of_mem _ member)
      rw [insert]
      split
      · exact List.forall_mem_cons.mpr ⟨positive, List.forall_mem_cons.mpr ⟨by dsimp only; omega, others⟩⟩
      · exact List.forall_mem_cons.mpr ⟨first, inductionHypothesis (by omega) others⟩

theorem insert_once {key : Key} {wait : Int} {list : DeltaList Key} (absent : key ∉ list.keys)
    (once : list.keys.Nodup) : (insert key wait list).keys.Nodup := by
  induction list generalizing wait with
  | nil => exact List.nodup_singleton _
  | cons next rest inductionHypothesis =>
      have apart := List.nodup_cons.mp once
      rw [keys, List.map_cons, List.mem_cons, not_or] at absent
      rw [insert]
      split
      · refine List.nodup_cons.mpr ⟨?_, once⟩
        change key ∉ next.1 :: keys rest
        rw [List.mem_cons, not_or]
        exact absent
      · refine List.nodup_cons.mpr ⟨?_, inductionHypothesis absent.2 apart.2⟩
        change next.1 ∉ keys (insert key (wait - next.2) rest)
        rw [mem_keys_insert, not_or]
        exact ⟨Ne.symm absent.1, apart.1⟩

theorem Sound.insert {key : Key} {wait : Int} {list : DeltaList Key} (sound : list.Sound) (absent : key ∉ list.keys)
    (positive : 0 < wait) : (DeltaList.insert key wait list).Sound where
  once := insert_once absent sound.once
  nonneg := insert_nonneg (by omega) sound.nonneg
  head := by
    cases list with
    | nil =>
        rintro entry ⟨⟩
        exact positive
    | cons next rest =>
        rw [DeltaList.insert]
        split
        · rintro entry ⟨⟩
          exact positive
        · rintro entry ⟨⟩
          exact sound.head _ rfl

/-! ## Removal -/

theorem keys_delay (ticks : Int) (list : DeltaList Key) : (delay ticks list).keys = list.keys := by
  cases list <;> rfl

theorem due_delay [DecidableEq Key] (ticks : Int) (list : DeltaList Key) (key : Key) :
    due (delay ticks list) key = (due list key).map (fun wait => ticks + wait) := by
  cases list with
  | nil => rfl
  | cons next rest =>
      rw [delay, due, due]
      split
      · exact congrArg some (Int.add_comm ..)
      · rw [Option.map_map]
        refine congrFun (congrArg Option.map (funext fun later => ?_)) _
        change next.2 + ticks + later = ticks + (next.2 + later)
        omega

theorem keys_erase [DecidableEq Key] (key : Key) (list : DeltaList Key) :
    (erase key list).keys = list.keys.erase key := by
  induction list with
  | nil => rfl
  | cons entry rest inductionHypothesis =>
      rw [erase]
      by_cases here : entry.1 = key
      · rw [if_pos here, keys_delay]
        unfold keys
        rw [List.map_cons, here, List.erase_cons_head]
      · rw [if_neg here]
        have inner := inductionHypothesis
        unfold keys at *
        rw [List.map_cons, List.map_cons, inner, List.erase_cons_tail (by simpa using here)]

theorem due_erase [DecidableEq Key] {key : Key} {list : DeltaList Key} (once : list.keys.Nodup) (other : Key) :
    due (erase key list) other = if other = key then none else due list other := by
  induction list with
  | nil =>
      rw [erase, due]
      exact (ite_self _).symm
  | cons entry rest inductionHypothesis =>
      have apart := List.nodup_cons.mp once
      rw [erase]
      by_cases here : entry.1 = key
      · rw [if_pos here, due_delay, due, here]
        by_cases same : other = key
        · have absent : due rest other = none := due_eq_none.mpr (by rw [same, ← here]; exact apart.1)
          rw [if_pos same, absent]
          rfl
        · rw [if_neg same, if_neg same]
      · rw [if_neg here, due, due, inductionHypothesis apart.2]
        by_cases first : other = entry.1
        · rw [if_pos first, if_pos first, if_neg (by rw [first]; exact here)]
        · rw [if_neg first, if_neg first]
          split <;> rfl

theorem erase_nonneg [DecidableEq Key] {key : Key} {list : DeltaList Key}
    (nonneg : forall entry, entry ∈ list -> 0 <= entry.2) :
    forall entry, entry ∈ erase key list -> 0 <= entry.2 := by
  induction list with
  | nil => exact nonneg
  | cons entry rest inductionHypothesis =>
      have first := nonneg entry (List.mem_cons_self ..)
      have others : forall other, other ∈ rest -> 0 <= other.2 :=
        fun other member => nonneg other (List.mem_cons_of_mem _ member)
      rw [erase]
      split
      · cases rest with
        | nil => exact others
        | cons next later =>
            have second := others next (List.mem_cons_self ..)
            exact List.forall_mem_cons.mpr
              ⟨by dsimp only; omega, fun other member => others other (List.mem_cons_of_mem _ member)⟩
      · exact List.forall_mem_cons.mpr ⟨first, inductionHypothesis others⟩

theorem Sound.erase [DecidableEq Key] {list : DeltaList Key} (sound : list.Sound) (key : Key) :
    (DeltaList.erase key list).Sound where
  once := by
    rw [keys_erase]
    exact sound.once.erase key
  nonneg := erase_nonneg sound.nonneg
  head := by
    cases list with
    | nil => rintro entry ⟨⟩
    | cons first rest =>
        have positive := sound.head first rfl
        rw [DeltaList.erase]
        split
        · cases rest with
          | nil => rintro entry ⟨⟩
          | cons next later =>
              have second := sound.nonneg next (List.mem_cons_of_mem _ (List.mem_cons_self ..))
              rintro entry ⟨⟩
              dsimp only
              omega
        · rintro entry ⟨⟩
          exact positive

/-! ## Ticks -/

theorem keys_approach (list : DeltaList Key) : (approach list).keys = list.keys := by
  cases list <;> rfl

theorem due_approach [DecidableEq Key] (list : DeltaList Key) (key : Key) :
    due (approach list) key = (due list key).map (fun wait => wait - 1) := by
  cases list with
  | nil => rfl
  | cons first rest =>
      rw [approach, due, due]
      split
      · rfl
      · rw [Option.map_map]
        refine congrFun (congrArg Option.map (funext fun later => ?_)) _
        change first.2 - 1 + later = first.2 + later - 1
        omega

theorem approach_nonneg {list : DeltaList Key} (sound : list.Sound) :
    forall entry, entry ∈ approach list -> 0 <= entry.2 := by
  cases list with
  | nil => exact sound.nonneg
  | cons first rest =>
      have positive := sound.head first rfl
      exact List.forall_mem_cons.mpr
        ⟨by dsimp only; omega, fun other member => sound.nonneg other (List.mem_cons_of_mem _ member)⟩

section Ripening

variable {list : DeltaList Key} {key : Key}

theorem ripe_cons_zero {entry : Key × Int} {rest : DeltaList Key} (zero : entry.2 = 0) :
    ripe (entry :: rest) = entry :: ripe rest := List.takeWhile_cons_of_pos (by exact decide_eq_true zero)

theorem ripe_cons_of_ne {entry : Key × Int} {rest : DeltaList Key} (later : entry.2 ≠ 0) :
    ripe (entry :: rest) = [] := List.takeWhile_cons_of_neg (by rw [decide_eq_true_iff]; exact later)

theorem unripe_cons_zero {entry : Key × Int} {rest : DeltaList Key} (zero : entry.2 = 0) :
    unripe (entry :: rest) = unripe rest := List.dropWhile_cons_of_pos (by exact decide_eq_true zero)

theorem unripe_cons_of_ne {entry : Key × Int} {rest : DeltaList Key} (later : entry.2 ≠ 0) :
    unripe (entry :: rest) = entry :: rest := List.dropWhile_cons_of_neg (by rw [decide_eq_true_iff]; exact later)

/-- The ripe keys are those that are due now. -/
theorem mem_ripe [DecidableEq Key] (nonneg : forall entry, entry ∈ list -> 0 <= entry.2) (once : list.keys.Nodup) :
    key ∈ (ripe list).keys <-> due list key = some 0 := by
  induction list with
  | nil => exact ⟨fun member => absurd member List.not_mem_nil, fun absent => nomatch absent⟩
  | cons entry rest inductionHypothesis =>
      have apart := List.nodup_cons.mp once
      have first := nonneg entry (List.mem_cons_self ..)
      have others : forall other, other ∈ rest -> 0 <= other.2 :=
        fun other member => nonneg other (List.mem_cons_of_mem _ member)
      have inner := inductionHypothesis others apart.2
      rw [due]
      by_cases zero : entry.2 = 0
      · rw [ripe_cons_zero zero]
        change key ∈ entry.1 :: keys (ripe rest) <-> _
        rw [List.mem_cons, inner]
        by_cases same : key = entry.1
        · rw [if_pos same, zero]
          exact ⟨fun _ => rfl, fun _ => .inl same⟩
        · rw [if_neg same, zero]
          simp [same]
      · rw [ripe_cons_of_ne zero]
        constructor
        · exact fun member => absurd member List.not_mem_nil
        · intro now
          split at now
          · exact absurd (Option.some.inj now) zero
          · rcases Option.map_eq_some_iff.mp now with ⟨later, waits, total⟩
            have nonneg := due_nonneg others waits
            omega

/-- The other keys keep their waits. -/
theorem due_unripe [DecidableEq Key] (nonneg : forall entry, entry ∈ list -> 0 <= entry.2) (once : list.keys.Nodup) :
    due (unripe list) key = if due list key = some 0 then none else due list key := by
  induction list with
  | nil => rfl
  | cons entry rest inductionHypothesis =>
      have apart := List.nodup_cons.mp once
      have first := nonneg entry (List.mem_cons_self ..)
      have others : forall other, other ∈ rest -> 0 <= other.2 :=
        fun other member => nonneg other (List.mem_cons_of_mem _ member)
      by_cases zero : entry.2 = 0
      · rw [unripe_cons_zero zero, inductionHypothesis others apart.2, due]
        by_cases same : key = entry.1
        · have absent : due rest key = none := due_eq_none.mpr (by rw [same]; exact apart.1)
          rw [if_pos same, zero, absent]
          rfl
        · rw [if_neg same, zero]
          simp
      · rw [unripe_cons_of_ne zero, if_neg]
        intro now
        rw [due] at now
        split at now
        · exact zero (Option.some.inj now)
        · rcases Option.map_eq_some_iff.mp now with ⟨later, waits, total⟩
          have nonneg := due_nonneg others waits
          omega

theorem keys_split (list : DeltaList Key) : list.keys = (ripe list).keys ++ (unripe list).keys := by
  unfold keys
  rw [← List.map_append]
  exact congrArg _ List.takeWhile_append_dropWhile.symm

theorem unripe_nonneg (nonneg : forall entry, entry ∈ list -> 0 <= entry.2) :
    forall entry, entry ∈ unripe list -> 0 <= entry.2 :=
  fun entry member => nonneg entry ((List.dropWhile_sublist _).subset member)

theorem unripe_head (nonneg : forall entry, entry ∈ list -> 0 <= entry.2) :
    forall entry, (unripe list).head? = some entry -> 0 < entry.2 := by
  induction list with
  | nil => rintro entry ⟨⟩
  | cons first rest inductionHypothesis =>
      have here := nonneg first (List.mem_cons_self ..)
      by_cases zero : first.2 = 0
      · rw [unripe_cons_zero zero]
        exact inductionHypothesis fun other member => nonneg other (List.mem_cons_of_mem _ member)
      · rw [unripe_cons_of_ne zero]
        rintro entry ⟨⟩
        omega

end Ripening

/-- After a tick, without the keys that have become due. -/
theorem Sound.tick {list : DeltaList Key} (sound : list.Sound) : (unripe (approach list)).Sound where
  once := by
    have whole := keys_split (approach list)
    rw [keys_approach] at whole
    exact (List.nodup_append.mp (whole ▸ sound.once)).2.1
  nonneg := unripe_nonneg (approach_nonneg sound)
  head := unripe_head (approach_nonneg sound)

/-- A tick makes the keys due that had to wait for one more. -/
theorem Sound.mem_tick [DecidableEq Key] {list : DeltaList Key} (sound : list.Sound) {key : Key} :
    key ∈ (ripe (approach list)).keys <-> due list key = some 1 := by
  rw [mem_ripe (approach_nonneg sound) (by rw [keys_approach]; exact sound.once), due_approach]
  constructor
  · intro now
    rcases Option.map_eq_some_iff.mp now with ⟨wait, waits, zero⟩
    rw [waits]
    exact congrArg some (by omega)
  · intro next
    rw [next]
    rfl

/-- The others have to wait one tick less. -/
theorem Sound.due_tick [DecidableEq Key] {list : DeltaList Key} (sound : list.Sound) (key : Key) :
    due (unripe (approach list)) key =
      if due list key = some 1 then none else (due list key).map (fun wait => wait - 1) := by
  rw [due_unripe (approach_nonneg sound) (by rw [keys_approach]; exact sound.once), due_approach]
  refine if_congr ?_ rfl rfl
  cases due list key with
  | none => simp
  | some wait =>
      simp only [Option.map_some, Option.some.injEq]
      omega

end DeltaList
end Library
end Ucore
