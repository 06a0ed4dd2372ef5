import Ucore.Library.Chain
import Ucore.Sched.RunQueue
import Mathlib.Data.Int.Interval

namespace Ucore
namespace Process

open Library

/-!
# The family of processes

Every process but the idle one is on the process list and on the hash list of
its pid, and is linked with its siblings.  A process is known by the address of
its `struct proc_struct`, of which a family has the fields for these lists.
-/

def maxProcess : Int := 4096

def maxPid : Int := maxProcess * 2

def hash32 (val bits : UInt32) : UInt32 := (val * 0x9e370001) >>> (32 - bits)

/-- `pid_hashfn`, with `HASH_SHIFT` bits -/
def pidHashfn (pid : Int) : Nat := (hash32 (UInt32.ofInt pid) 10).toNat

structure Family where
  pid : Nat -> Int
  parent : Nat -> Option Nat
  cptr : Nat -> Option Nat
  yptr : Nat -> Option Nat
  optr : Nat -> Option Nat
  procList : List Nat
  hashList : Nat -> List Nat
  nrProcess : Int
  /-- The static variables of `get_pid` -/
  lastPid : Int
  nextSafe : Int

namespace Family

/-- `set_links`, where `parent` is `proc->parent` -/
def setLinks (family : Family) (proc parent : Nat) : Family :=
  let elder := family.cptr parent
  { family with
    procList := proc :: family.procList
    yptr := relink (Function.update family.yptr proc none) elder (some proc)
    optr := Function.update family.optr proc elder
    cptr := Function.update family.cptr parent (some proc)
    nrProcess := family.nrProcess + 1 }

/-- `remove_links`, where `parent` is `proc->parent` -/
def removeLinks (family : Family) (proc parent : Nat) : Family :=
  { family with
    procList := family.procList.erase proc
    yptr := relink family.yptr (family.optr proc) (family.yptr proc)
    optr := relink family.optr (family.yptr proc) (family.optr proc)
    cptr := if family.yptr proc = none then Function.update family.cptr parent (family.optr proc) else family.cptr
    nrProcess := family.nrProcess - 1 }

/-- The body of the loop of `do_exit`, which gives a child of `current` to
`initproc`. -/
def adopt (family : Family) (current initproc proc : Nat) : Family :=
  let elder := family.cptr initproc
  { family with
    cptr := Function.update (Function.update family.cptr current (family.optr proc)) initproc (some proc)
    yptr := relink (Function.update family.yptr proc none) elder (some proc)
    optr := Function.update family.optr proc elder
    parent := Function.update family.parent proc (some initproc) }

def hashProc (family : Family) (proc : Nat) : Family :=
  let bucket := pidHashfn (family.pid proc)
  { family with hashList := Function.update family.hashList bucket (proc :: family.hashList bucket) }

def unhashProc (family : Family) (proc : Nat) : Family :=
  { family with hashList := fun bucket => (family.hashList bucket).erase proc }

def allocProc (family : Family) (proc : Nat) : Family :=
  { family with
    pid := Function.update family.pid proc (-1)
    parent := Function.update family.parent proc none
    cptr := Function.update family.cptr proc none
    yptr := Function.update family.yptr proc none
    optr := Function.update family.optr proc none }

def findProc (family : Family) (pid : Int) : Option Nat :=
  if 0 < pid /\ pid < maxPid then
    (family.hashList (pidHashfn pid)).find? (fun proc => decide (family.pid proc = pid))
  else none

/-- The processes met from one on along `optr`, unless there are more than so
many. -/
def siblings (family : Family) : Nat -> Option Nat -> Option (List Nat)
  | _, none => some []
  | 0, some _ => none
  | fuel + 1, some proc => (family.siblings fuel (family.optr proc)).map (proc :: ·)

/-- The children of a process, unless the walk over them does not end. -/
def children (family : Family) (proc : Nat) : Option (List Nat) :=
  family.siblings family.procList.length (family.cptr proc)

/-! ## Pids -/

/-- One walk of `get_pid` over the process list: `last_pid` and `next_safe`
after it, and whether it has to be repeated. -/
def scanPids : List Int -> Int -> Int -> Int × Int × Bool
  | [], last, next => (last, next, false)
  | pid :: rest, last, next =>
      if pid = last then
        if last + 1 >= next then (if last + 1 >= maxPid then 1 else last + 1, maxPid, true)
        else scanPids rest (last + 1) next
      else if pid > last /\ next > pid then scanPids rest last pid
      else scanPids rest last next

/-- The walks of `get_pid`, unless there are more than so many. -/
def searchPid (pids : List Int) : Nat -> Int -> Int -> Option (Int × Int)
  | 0, _, _ => none
  | fuel + 1, last, next =>
      match scanPids pids last next with
      | (last, next, true) => searchPid pids fuel last next
      | (last, next, false) => some (last, next)

/-- `get_pid`, which leaves the pid in `last_pid` -/
def getPid (family : Family) : Option Family :=
  let last := if family.lastPid + 1 >= maxPid then 1 else family.lastPid + 1
  if family.lastPid + 1 >= maxPid \/ last >= family.nextSafe then
    (searchPid (family.procList.map family.pid) (2 * maxPid.toNat) last maxPid).map fun found =>
      { family with lastPid := found.1, nextSafe := found.2 }
  else some { family with lastPid := last }

end Family

/-! ## The pid found -/

namespace Family

/-- A walk that does not have to be repeated leaves `last_pid` free, and the
pids up to `next_safe` too. -/
theorem scanPids_free {pids seen : List Int} {last next finalLast finalNext : Int}
    (free : forall pid, pid ∈ seen -> pid < last \/ next <= pid) (less : last < next)
    (ended : scanPids pids last next = (finalLast, finalNext, false)) :
    forall pid, pid ∈ seen ++ pids -> pid < finalLast \/ finalNext <= pid := by
  induction pids generalizing seen last next with
  | nil =>
      cases ended
      rw [List.append_nil]
      exact free
  | cons pid rest inductionHypothesis =>
      rw [scanPids] at ended
      have onward : forall last' next', (forall other, other ∈ seen -> other < last' \/ next' <= other) ->
          (pid < last' \/ next' <= pid) -> last' < next' -> scanPids rest last' next' = (finalLast, finalNext, false) ->
          forall other, other ∈ seen ++ pid :: rest -> other < finalLast \/ finalNext <= other := by
        intro last' next' before here less ended
        have later := @inductionHypothesis (seen ++ [pid]) last' next'
          (fun other member => (List.mem_append.mp member).elim (before other)
            fun same => List.mem_singleton.mp same ▸ here) less ended
        rwa [List.append_assoc, List.singleton_append] at later
      split at ended
      · split at ended
        · simp only [Prod.mk.injEq, Bool.true_eq_false, and_false] at ended
        · rename_i room
          refine onward (last + 1) next (fun other member => ?_) (.inl (by omega)) (by omega) ended
          have kept := free other member
          omega
      · split at ended
        · rename_i between
          refine onward last pid (fun other member => ?_) (.inr (Int.le_refl _)) between.1 ended
          have kept := free other member
          omega
        · exact onward last next free (by omega) less ended

/-- The static variables of `get_pid` within their bounds. -/
def Bounded (last next : Int) : Prop := 0 < last /\ last < next /\ next <= maxPid

theorem Bounded.start {last : Int} (counter : 0 < last) :
    Bounded (if last + 1 >= maxPid then 1 else last + 1) maxPid := by
  split
  · exact ⟨by decide, by decide, Int.le_refl _⟩
  · exact ⟨by omega, by omega, Int.le_refl _⟩

theorem scanPids_bounded {pids : List Int} {last next finalLast finalNext : Int} {again : Bool}
    (bounded : Bounded last next) (ended : scanPids pids last next = (finalLast, finalNext, again)) :
    Bounded finalLast finalNext := by
  induction pids generalizing last next with
  | nil =>
      cases ended
      exact bounded
  | cons pid rest inductionHypothesis =>
      have positive := bounded.1
      have below := bounded.2.2
      rw [scanPids] at ended
      split at ended
      · split at ended
        · simp only [Prod.mk.injEq] at ended
          rcases ended with ⟨rfl, rfl, _⟩
          split
          · exact ⟨by decide, by decide, Int.le_refl _⟩
          · exact ⟨by omega, by omega, Int.le_refl _⟩
        · exact inductionHypothesis ⟨by omega, by omega, below⟩ ended
      · split at ended
        · rename_i between
          exact inductionHypothesis ⟨positive, between.1, by omega⟩ ended
        · exact inductionHypothesis bounded ended

theorem searchPid_free {pids : List Int} {fuel : Nat} {last next finalLast finalNext : Int}
    (bounded : Bounded last next)
    (ended : searchPid pids fuel last next = some (finalLast, finalNext)) :
    Bounded finalLast finalNext /\ forall pid, pid ∈ pids -> pid < finalLast \/ finalNext <= pid := by
  induction fuel generalizing last next with
  | zero => cases ended
  | succ fuel inductionHypothesis =>
      rw [searchPid] at ended
      split at ended
      · rename_i again
        exact inductionHypothesis (scanPids_bounded bounded again) ended
      · rename_i walked
        cases ended
        exact ⟨scanPids_bounded bounded walked,
          @scanPids_free pids [] last next finalLast finalNext (fun _ member => nomatch member) bounded.2.1 walked⟩

/-- What a call of `get_pid` does: it changes its static variables only.  The
pid is free, and so are those up to `next_safe`. -/
structure Numbers (family after : Family) : Prop where
  counters : after = { family with lastPid := after.lastPid, nextSafe := after.nextSafe }
  valid : 0 < after.lastPid /\ after.lastPid < maxPid
  less : after.lastPid < after.nextSafe
  free : forall proc, proc ∈ family.procList -> family.pid proc < after.lastPid \/ after.nextSafe <= family.pid proc

theorem getPid_free {family after : Family} (counter : 0 < family.lastPid)
    (safe : forall proc, proc ∈ family.procList -> family.pid proc <= family.lastPid \/
      family.nextSafe <= family.pid proc)
    (found : family.getPid = some after) : Numbers family after := by
  have bounded := Bounded.start counter
  unfold getPid at found
  dsimp only at found
  generalize start : (if family.lastPid + 1 >= maxPid then 1 else family.lastPid + 1) = last at found
  split at found
  · rcases Option.map_eq_some_iff.mp found with ⟨⟨finalLast, finalNext⟩, searched, rfl⟩
    rw [start] at bounded
    rcases searchPid_free bounded searched with ⟨⟨positive, less, below⟩, free⟩
    exact ⟨rfl, ⟨positive, by dsimp only; omega⟩, less,
      fun proc member => free (family.pid proc) (List.mem_map_of_mem member)⟩
  · rename_i room
    cases found
    have next : last = family.lastPid + 1 := by
      rw [← start]
      exact if_neg fun high => room (.inl high)
    have low := not_or.mp room
    refine ⟨rfl, ⟨?_, ?_⟩, Int.not_le.mp low.2, fun proc member => ?_⟩
    · dsimp only
      omega
    · dsimp only
      omega
    · have kept := safe proc member
      dsimp only
      omega

/-! ## The walks end -/

/-- How often `last_pid` is counted on from `last` until it is `free`. -/
def remaining (free last : Int) : Int := if last <= free then free - last else maxPid - last + free - 1

/-- Counting `last_pid` on from a pid that is taken brings it closer to a free
one, also where it starts again. -/
theorem remaining_next {free last : Int} (valid : 0 < free /\ free < maxPid) (less : last < maxPid)
    (taken : last ≠ free) :
    remaining free (if last + 1 >= maxPid then 1 else last + 1) = remaining free last - 1 := by
  have limit : maxPid = 8192 := by decide
  unfold remaining
  split
  · split
    · split <;> omega
    · omega
  · split
    · split <;> omega
    · split <;> omega

/-- A walk that has to be repeated comes closer to a free pid. -/
theorem scanPids_nearer {pids : List Int} {free last next finalLast finalNext : Int} {again : Bool}
    (valid : 0 < free /\ free < maxPid) (absent : free ∉ pids) (bounded : Bounded last next)
    (ended : scanPids pids last next = (finalLast, finalNext, again)) :
    remaining free finalLast <= remaining free last /\
      (again = true -> remaining free finalLast < remaining free last) := by
  induction pids generalizing last next with
  | nil =>
      cases ended
      exact ⟨Int.le_refl _, fun wrong => nomatch wrong⟩
  | cons pid rest inductionHypothesis =>
      have later :=
        fun {last next : Int} => @inductionHypothesis last next (fun member => absent (List.mem_cons_of_mem _ member))
      have positive := bounded.1
      have below := bounded.2.2
      rw [scanPids] at ended
      split at ended
      · rename_i same
        have taken : last ≠ free := by
          rintro rfl
          exact absent (same ▸ List.mem_cons_self ..)
        have nearer := remaining_next valid (Int.lt_of_lt_of_le bounded.2.1 below) taken
        split at ended
        · simp only [Prod.mk.injEq] at ended
          rcases ended with ⟨rfl, _, rfl⟩
          exact ⟨by omega, fun _ => by omega⟩
        · rename_i room
          rw [if_neg (by omega)] at nearer
          have further := later ⟨by omega, by omega, below⟩ ended
          exact ⟨by omega, fun again => by have strict := further.2 again; omega⟩
      · split at ended
        · rename_i between
          exact later ⟨positive, between.1, by omega⟩ ended
        · exact later bounded ended

theorem searchPid_ends {pids : List Int} {free last next : Int} {fuel : Nat} (valid : 0 < free /\ free < maxPid)
    (absent : free ∉ pids) (bounded : Bounded last next) (enough : remaining free last < fuel) :
    (searchPid pids fuel last next).isSome = true := by
  induction fuel generalizing last next with
  | zero =>
      have nonneg : 0 <= remaining free last := by
        have below := bounded.2.2
        have less := bounded.2.1
        unfold remaining
        split <;> omega
      omega
  | succ fuel inductionHypothesis =>
      rw [searchPid]
      split
      · rename_i walked
        have nearer := (scanPids_nearer valid absent bounded walked).2 rfl
        exact inductionHypothesis (scanPids_bounded bounded walked) (by omega)
      · rfl

/-- Where no more than `MAX_PROCESS` processes are listed, a pid is free. -/
theorem exists_free (pids : List Int) (few : (pids.length : Int) <= maxProcess) :
    Exists fun free => (0 < free /\ free < maxPid) /\ free ∉ pids := by
  have fewer : pids.toFinset.card < (Finset.Ico 1 maxPid).card := by
    have count : (Finset.Ico 1 maxPid).card = 8191 := Int.card_Ico 1 maxPid
    have bound := List.toFinset_card_le pids
    have limit : maxProcess = 4096 := rfl
    omega
  rcases Finset.exists_mem_notMem_of_card_lt_card fewer with ⟨free, valid, absent⟩
  have range := Finset.mem_Ico.mp valid
  exact ⟨free, ⟨by omega, range.2⟩, fun member => absent (List.mem_toFinset.mpr member)⟩

theorem getPid_ends {family : Family} (counter : 0 < family.lastPid)
    (few : (family.procList.length : Int) <= maxProcess) :
    family.getPid.isSome = true := by
  rcases exists_free (family.procList.map family.pid) (by rwa [List.length_map]) with ⟨free, valid, absent⟩
  have bounded := Bounded.start counter
  unfold getPid
  dsimp only
  generalize (if family.lastPid + 1 >= maxPid then 1 else family.lastPid + 1) = last at bounded ⊢
  split
  · rw [Option.isSome_map]
    refine searchPid_ends valid absent bounded ?_
    have limit : maxPid = 8192 := by decide
    have positive := bounded.1
    unfold remaining
    split <;> omega
  · rfl

end Family

end Process
end Ucore
