import Ucore.Process.FamilyTree
import Ucore.Process.Standing

namespace Ucore
namespace Process

open Library
open Scheduler

/-!
# Kinship

Every process but the idle one is listed, or is still being made by another.
A parent is a process that is there, and a zombie has no children.  A process
that sleeps in `do_wait` has no zombie child of those that it waits for.
-/

/-- A call of `do_fork` that is not at its end. -/
structure Unfinished (family : Family) (allocated : Nat -> Bool) (waits : Nat -> Option Wait) (state : Nat -> ProcState)
    (idleproc parent child : Nat) : Prop where
  there : allocated child = true
  unlisted : child ∉ family.procList
  other : child ≠ idleproc
  named : family.parent child = some parent
  uninit : state child = .uninit
  live : allocated parent = true
  elder : parent = idleproc \/ parent ∈ family.procList
  alive : state parent ≠ .zombie
  busy : waits parent = none \/ Exists fun sem => waits parent = some (.ksem sem)

/-- Who is whose child.  The process `leaving` gives its children away. -/
structure Kin (family : Family) (allocated : Nat -> Bool) (waits : Nat -> Option Wait) (state : Nat -> ProcState)
    (forking : Nat -> Option Nat) (idleproc initproc : Nat) (started : Prop) (leaving : Option Nat) : Prop where
  sound : family.Sound allocated leaving
  apart : idleproc ∉ family.procList
  orphan : family.parent idleproc = none
  init : started -> initproc ∈ family.procList /\ state initproc ≠ .zombie
  made : forall proc, allocated proc = true ->
    proc = idleproc \/ proc ∈ family.procList \/ Exists fun parent => forking parent = some proc
  elders : forall proc, proc ∈ family.procList -> forall parent, family.parent proc = some parent ->
    parent = idleproc \/ parent ∈ family.procList
  childless : forall proc, proc ∈ family.procList -> forall parent, family.parent proc = some parent ->
    state parent = .zombie -> leaving = some parent
  unfinished : forall parent child, forking parent = some child ->
    Unfinished family allocated waits state idleproc parent child

/-- No process sleeps in `do_wait` while a child that it waits for is a zombie,
except for one that is woken next. -/
def Attended (family : Family) (allocated : Nat -> Bool) (waits : Nat -> Option Wait) (state : Nat -> ProcState)
    (woken : Option Nat) : Prop :=
  forall proc pid codeStore, allocated proc = true -> woken ≠ some proc -> waits proc = some (.child pid codeStore) ->
    state proc = .sleeping -> forall child, child ∈ family.procList -> family.parent child = some proc ->
    state child = .zombie -> pid ≠ 0 /\ family.pid child ≠ pid

section Kinship

variable {family : Family} {allocated : Nat -> Bool} {waits : Nat -> Option Wait} {state : Nat -> ProcState}
  {forking : Nat -> Option Nat} {idleproc initproc current proc : Nat} {started : Prop} {leaving woken : Option Nat}

/-! ## Who is whose child -/

namespace Kin

/-- Only some states and waits change. -/
theorem congr {waits' : Nat -> Option Wait} {state' : Nat -> ProcState}
    (kin : Kin family allocated waits state forking idleproc initproc started leaving)
    (zombie : forall other, state' other = .zombie -> state other = .zombie)
    (uninit : forall parent child, forking parent = some child -> state child = .uninit -> state' child = .uninit)
    (busy : forall parent child, forking parent = some child ->
      waits' parent = waits parent \/ waits' parent = none \/ Exists fun sem => waits' parent = some (.ksem sem)) :
    Kin family allocated waits' state' forking idleproc initproc started leaving := by
  refine { kin with init := ?_, childless := ?_, unfinished := ?_ }
  · exact fun begun => ⟨(kin.init begun).1, fun dead => (kin.init begun).2 (zombie _ dead)⟩
  · exact fun child member parent named dead => kin.childless child member parent named (zombie _ dead)
  · intro parent child making
    have unfinished := kin.unfinished parent child making
    refine { unfinished with uninit := ?_, alive := ?_, busy := ?_ }
    · exact uninit parent child making unfinished.uninit
    · exact fun dead => unfinished.alive (zombie _ dead)
    · rcases busy parent child making with same | free
      · rw [same]
        exact unfinished.busy
      · exact free

/-- A process that runs is listed, unless it is the idle one. -/
theorem listed (kin : Kin family allocated waits state forking idleproc initproc started leaving)
    (there : allocated proc = true) (finished : state proc ≠ .uninit) : proc = idleproc \/ proc ∈ family.procList := by
  rcases kin.made proc there with idle | member | ⟨parent, making⟩
  · exact .inl idle
  · exact .inr member
  · exact absurd (kin.unfinished parent proc making).uninit finished

/-- Two calls of `do_fork` make different processes. -/
theorem maker (kin : Kin family allocated waits state forking idleproc initproc started leaving)
    {parent other child : Nat}
    (making : forking parent = some child) (too : forking other = some child) : parent = other :=
  Option.some.inj ((kin.unfinished parent child making).named.symm.trans (kin.unfinished other child too).named)

theorem alloc (kin : Kin family allocated waits state forking idleproc initproc started none)
    (fresh : allocated proc = false) (live : allocated current = true) (runnable : state current = .runnable)
    (outside : waits current = none) (idle : allocated idleproc = true) (free : forking current = none) :
    Kin { family.allocProc proc with parent := Function.update (family.allocProc proc).parent proc (some current) }
      (Function.update allocated proc true) (Function.update waits proc none) (Function.update state proc .uninit)
      (Function.update (Function.update forking proc none) current (some proc)) idleproc initproc started none := by
  have old : forall other, allocated other = true -> other ≠ proc := by
    rintro other there rfl
    exact Bool.false_ne_true (fresh.symm.trans there)
  have stays : forall other, allocated other = true -> Function.update allocated proc true other = true := by
    intro other there
    rw [Function.update_of_ne (old other there), there]
  have unlisted : proc ∉ family.procList := fun member => old proc (kin.sound.listed proc member) rfl
  have parents : forall other, other ≠ proc ->
      Function.update (family.allocProc proc).parent proc (some current) other = family.parent other := by
    intro other different
    rw [Function.update_of_ne different]
    exact Function.update_of_ne different _ _
  have listed : forall other, other ∈ family.procList -> other ≠ proc :=
    fun other member => ne_of_mem_of_not_mem member unlisted
  have elder := kin.listed live (by rw [runnable]; simp)
  refine ⟨(kin.sound.allocProc fresh).setParent unlisted (some current), kin.apart, ?_, fun begun => ?_,
    fun other there => ?_, fun other member parent named => ?_, fun other member parent named dead => ?_,
    fun parent child making => ?_⟩
  · exact (parents idleproc (old idleproc idle)).trans kin.orphan
  · have init := kin.init begun
    rw [Function.update_of_ne (listed initproc init.1)]
    exact init
  · by_cases same : other = proc
    · rw [same]
      exact .inr (.inr ⟨current, Function.update_self ..⟩)
    · rw [Function.update_of_ne same] at there
      rcases kin.made other there with idle | member | ⟨parent, making⟩
      · exact .inl idle
      · exact .inr (.inl member)
      · refine .inr (.inr ⟨parent, ?_⟩)
        have apart := old parent (kin.unfinished parent other making).live
        have differs : parent ≠ current := by
          rintro rfl
          rw [free] at making
          cases making
        rw [Function.update_of_ne differs, Function.update_of_ne apart, making]
  · exact kin.elders other member parent ((parents other (listed other member)).symm.trans named)
  · have named' : family.parent other = some parent := (parents other (listed other member)).symm.trans named
    have there : parent ≠ proc := by
      rcases kin.elders other member parent named' with rfl | elder
      · exact old _ idle
      · exact listed parent elder
    rw [Function.update_of_ne there] at dead
    exact kin.childless other member parent named' dead
  · by_cases mine : parent = current
    · subst mine
      rw [Function.update_self] at making
      cases making
      have apart := old parent live
      refine ⟨Function.update_self .., unlisted, (old idleproc idle).symm, Function.update_self ..,
        Function.update_self ..,
        stays parent live, elder, ?_, ?_⟩
      · rw [Function.update_of_ne apart, runnable]
        simp
      · rw [Function.update_of_ne apart]
        exact .inl outside
    · rw [Function.update_of_ne mine] at making
      have apart : parent ≠ proc := by
        rintro rfl
        rw [Function.update_self] at making
        cases making
      rw [Function.update_of_ne apart] at making
      have unfinished := kin.unfinished parent child making
      have different := old child unfinished.there
      refine ⟨stays child unfinished.there, unfinished.unlisted, unfinished.other,
        (parents child different).trans unfinished.named, ?_, stays parent unfinished.live, unfinished.elder, ?_, ?_⟩
      · rw [Function.update_of_ne different]
        exact unfinished.uninit
      · rw [Function.update_of_ne apart]
        exact unfinished.alive
      · rw [Function.update_of_ne apart]
        exact unfinished.busy

theorem abandon (kin : Kin family allocated waits state forking idleproc initproc started none)
    (making : forking current = some proc) :
    Kin family (Function.update allocated proc false) waits state (Function.update forking current none) idleproc
      initproc
      started none := by
  have mine := kin.unfinished current proc making
  have stays : forall other, other ≠ proc -> Function.update allocated proc false other = allocated other :=
    fun other different => Function.update_of_ne different _ _
  refine { kin with sound := ?_, made := ?_, unfinished := ?_ }
  · refine kin.sound.free mine.unlisted fun child member named => ?_
    rcases kin.elders child member proc named with idle | elder
    · exact mine.other idle
    · exact mine.unlisted elder
  · intro other there
    have different : other ≠ proc := by
      rintro rfl
      rw [Function.update_self] at there
      cases there
    rw [stays other different] at there
    rcases kin.made other there with idle | member | ⟨parent, makes⟩
    · exact .inl idle
    · exact .inr (.inl member)
    · refine .inr (.inr ⟨parent, ?_⟩)
      have elsewhere : parent ≠ current := by
        rintro rfl
        exact different (Option.some.inj (makes.symm.trans making))
      rw [Function.update_of_ne elsewhere, makes]
  · intro parent child makes
    have elsewhere : parent ≠ current := by
      rintro rfl
      rw [Function.update_self] at makes
      cases makes
    rw [Function.update_of_ne elsewhere] at makes
    have unfinished := kin.unfinished parent child makes
    have different : child ≠ proc := by
      rintro rfl
      exact elsewhere (kin.maker makes making)
    have apart : parent ≠ proc := by
      rintro rfl
      exact unfinished.elder.elim mine.other mine.unlisted
    refine { unfinished with there := ?_, live := ?_ }
    · rw [stays child different]
      exact unfinished.there
    · rw [stays parent apart]
      exact unfinished.live

/-- The end of `do_fork`: the child is listed, and runs. -/
theorem born {counters listed after : Family}
    (kin : Kin family allocated waits state forking idleproc initproc started none)
    (making : forking current = some proc)
    (numbers : family.Numbers counters)
    (numbered : listed = { counters with pid := Function.update counters.pid proc counters.lastPid })
    (linked : after = (listed.hashProc proc).setLinks proc current) :
    Kin after allocated waits (Function.update state proc .runnable) (Function.update forking current none) idleproc
      initproc started none := by
  have mine := kin.unfinished current proc making
  have counted := numbers.counters
  have free := numbers.free
  have fresh : forall other, other ∈ family.procList -> other ≠ proc :=
    fun other member => ne_of_mem_of_not_mem member mine.unlisted
  have pids : forall other, other ∈ family.procList -> listed.pid other = family.pid other := by
    intro other member
    rw [numbered, counted]
    exact Function.update_of_ne (fresh other member) _ _
  have procList : listed.procList = family.procList := by rw [numbered, counted]
  have parents : listed.parent = family.parent := by rw [numbered, counted]
  have last : listed.lastPid = counters.lastPid := by rw [numbered]
  have next : listed.nextSafe = counters.nextSafe := by rw [numbered]
  have own : listed.pid proc = counters.lastPid := by
    rw [numbered]
    exact Function.update_self ..
  have sound : listed.Sound allocated none := by
    have old := kin.sound
    refine ⟨by rw [procList]; exact old.once, fun other member => old.listed other (procList ▸ member), ?_, ?_,
      ?_, ?_, ?_, ?_, ?_, ?_, ?_⟩
    · rw [procList, numbered, counted]
      exact old.count
    · rw [numbered, counted]
      exact old.hashedOnce
    · intro bucket other
      rw [show listed.hashList = family.hashList by rw [numbered, counted], old.hashed, procList]
      exact and_congr_right fun member => by rw [pids other member]
    · intro other another member too same
      rw [procList] at member too
      rw [pids other member, pids another too] at same
      exact old.apart other another member too same
    · intro other member
      rw [procList] at member
      rw [pids other member, last, next]
      exact (free other member).imp_left Int.le_of_lt
    · intro other member
      rw [procList] at member
      rw [pids other member]
      exact old.valid other member
    · rw [last]
      exact numbers.valid.1
    · intro other member
      rw [parents]
      exact old.parents other (procList ▸ member)
    · intro other there
      rcases old.tree other there with ⟨before, members, tree, ends⟩
      refine ⟨before, members, tree.frame ?_ (fun _ _ => ⟨?_, ?_⟩) (fun child => ?_), ends⟩
      · rw [numbered, counted]
      · rw [numbered, counted]
      · rw [numbered, counted]
      · rw [procList, parents]
  have list : after.procList = proc :: family.procList := by
    rw [linked, ← procList]
    rfl
  have parentsToo : after.parent = family.parent := by
    rw [linked, ← parents]
    rfl
  have busy : current ≠ proc := by
    rintro rfl
    exact mine.elder.elim mine.other mine.unlisted
  have states : forall other, Function.update state proc .runnable other = .zombie -> state other = .zombie := by
    intro other dead
    by_cases same : other = proc
    · rw [same, Function.update_self] at dead
      cases dead
    · rwa [Function.update_of_ne same] at dead
  refine ⟨?_, ?_, ?_, fun begun => ⟨?_, fun dead => (kin.init begun).2 (states _ dead)⟩, fun other there => ?_,
    fun other member parent named => ?_, fun other member parent named dead => ?_, fun parent child makes => ?_⟩
  · rw [linked]
    refine sound.setLinks ?_ mine.there ?_ mine.live ?_ ?_ (by rw [own]; exact numbers.valid)
    · rw [procList]
      exact mine.unlisted
    · rw [parents]
      exact mine.named
    · intro other member
      rw [procList] at member
      rw [pids other member, own]
      have apart := free other member
      have less := numbers.less
      omega
    · rw [own, last]
      exact .inl (Int.le_refl _)
  · rw [list, List.mem_cons, not_or]
    exact ⟨Ne.symm mine.other, kin.apart⟩
  · rw [parentsToo]
    exact kin.orphan
  · rw [list]
    exact List.mem_cons_of_mem _ (kin.init begun).1
  · rw [list]
    rcases kin.made other there with idle | member | ⟨parent, makes⟩
    · exact .inl idle
    · exact .inr (.inl (List.mem_cons_of_mem _ member))
    · by_cases here : parent = current
      · subst here
        cases makes.symm.trans making
        exact .inr (.inl (List.mem_cons_self ..))
      · exact .inr (.inr ⟨parent, by rw [Function.update_of_ne here, makes]⟩)
  · rw [list, List.mem_cons] at member ⊢
    rw [parentsToo] at named
    rcases member with rfl | old
    · cases mine.named.symm.trans named
      exact mine.elder.imp_right .inr
    · exact (kin.elders other old parent named).imp_right .inr
  · rw [list, List.mem_cons] at member
    rw [parentsToo] at named
    rcases member with rfl | old
    · cases mine.named.symm.trans named
      exact absurd (states current dead) mine.alive
    · exact kin.childless other old parent named (states parent dead)
  · have elsewhere : parent ≠ current := by
      rintro rfl
      rw [Function.update_self] at makes
      cases makes
    rw [Function.update_of_ne elsewhere] at makes
    have unfinished := kin.unfinished parent child makes
    have different : child ≠ proc := by
      rintro rfl
      exact elsewhere (kin.maker makes making)
    refine { unfinished with unlisted := ?_, named := ?_, uninit := ?_, elder := ?_, alive := ?_ }
    · rw [list, List.mem_cons, not_or]
      exact ⟨different, unfinished.unlisted⟩
    · rw [parentsToo]
      exact unfinished.named
    · rw [Function.update_of_ne different]
      exact unfinished.uninit
    · rw [list]
      exact unfinished.elder.imp_right (List.mem_cons_of_mem _)
    · exact fun dead => unfinished.alive (states parent dead)

/-- `do_exit` makes the current process a zombie that has its children still. -/
theorem die (kin : Kin family allocated waits state forking idleproc initproc started none)
    (alive : state current = .runnable) (free : forking current = none) (other : current ≠ initproc)
    (wait : Option Wait) :
    Kin family allocated (Function.update waits current wait) (Function.update state current .zombie) forking idleproc
      initproc started (some current) := by
  have states : forall other, other ≠ current -> Function.update state current .zombie other = state other :=
    fun other different => Function.update_of_ne different _ _
  refine { kin with sound := kin.sound.leave current, init := ?_, childless := ?_, unfinished := ?_ }
  · intro begun
    rw [states initproc (Ne.symm other)]
    exact kin.init begun
  · intro child member parent named dead
    by_cases same : parent = current
    · rw [same]
    · rw [states parent same] at dead
      cases kin.childless child member parent named dead
  · intro parent child makes
    have unfinished := kin.unfinished parent child makes
    have elsewhere : parent ≠ current := by
      rintro rfl
      rw [free] at makes
      cases makes
    have different : child ≠ current := by
      rintro rfl
      cases unfinished.uninit.symm.trans alive
    refine { unfinished with uninit := ?_, alive := ?_, busy := ?_ }
    · rw [states child different]
      exact unfinished.uninit
    · rw [states parent elsewhere]
      exact unfinished.alive
    · rw [Function.update_of_ne elsewhere]
      exact unfinished.busy

/-- `do_exit` gives a child to `initproc`. -/
theorem adopt (kin : Kin family allocated waits state forking idleproc initproc started (some current))
    (begun : started)
    (live : allocated current = true) (other : initproc ≠ current) (listed : proc ∈ family.procList)
    (first : family.cptr current = some proc) :
    Kin (family.adopt current initproc proc) allocated waits state forking idleproc initproc started
      (some current) := by
  have init := kin.init begun
  have parents : forall other, other ≠ proc -> (family.adopt current initproc proc).parent other =
    family.parent other :=
    fun other different => Function.update_of_ne different _ _
  have own : (family.adopt current initproc proc).parent proc = some initproc := Function.update_self ..
  refine { kin with
    sound := kin.sound.adopt other (kin.sound.listed initproc init.1) live first
    orphan := ?_
    elders := ?_
    childless := ?_
    unfinished := ?_ }
  · rw [parents idleproc fun same => kin.apart (same ▸ listed)]
    exact kin.orphan
  · intro child member parent named
    by_cases same : child = proc
    · rw [same, own] at named
      cases named
      exact .inr init.1
    · rw [parents child same] at named
      exact kin.elders child member parent named
  · intro child member parent named dead
    by_cases same : child = proc
    · rw [same, own] at named
      cases named
      exact absurd dead init.2
    · rw [parents child same] at named
      exact kin.childless child member parent named dead
  · intro parent child makes
    have unfinished := kin.unfinished parent child makes
    refine { unfinished with named := ?_ }
    rw [parents child fun same => unfinished.unlisted (same ▸ listed)]
    exact unfinished.named

/-- `do_exit` has given all children away. -/
theorem left (kin : Kin family allocated waits state forking idleproc initproc started (some current))
    (live : allocated current = true) (alone : family.cptr current = none) :
    Kin family allocated waits state forking idleproc initproc started none := by
  refine { kin with sound := kin.sound.left alone, childless := ?_ }
  intro child member parent named dead
  cases kin.childless child member parent named dead
  rcases kin.sound.tree current live with ⟨before, members, tree, _⟩
  have present := (tree.2 child).mpr ⟨member, named⟩
  have none := tree.1.head_eq
  rw [alone, eq_comm, List.head?_eq_none_iff] at none
  rw [none] at present
  cases present

theorem reap (kin : Kin family allocated waits state forking idleproc initproc started none) {parent : Nat}
    (listed : proc ∈ family.procList) (dead : state proc = .zombie) (named : family.parent proc = some parent) :
    Kin ((family.unhashProc proc).removeLinks proc parent) (Function.update allocated proc false) waits state forking
      idleproc initproc started none := by
  have fewer : forall other, other ∈ family.procList.erase proc <-> other ≠ proc /\ other ∈ family.procList :=
    fun other => kin.sound.once.mem_erase_iff
  have stays : forall other, other ≠ proc -> Function.update allocated proc false other = allocated other :=
    fun other different => Function.update_of_ne different _ _
  have childless : forall child, child ∈ family.procList -> family.parent child ≠ some proc := by
    intro child member kinship
    cases kin.childless child member proc kinship dead
  have removed := kin.sound.removeLinks listed named
  refine ⟨removed.free (fun member => ((fewer proc).mp member).1 rfl)
      (fun child member => childless child ((fewer child).mp member).2),
        fun member => kin.apart ((fewer _).mp member).2,
    kin.orphan, fun begun => ⟨(fewer _).mpr ⟨?_, (kin.init begun).1⟩, (kin.init begun).2⟩, fun other there => ?_,
    fun other member grand kinship => ?_, fun other member => kin.childless other ((fewer other).mp member).2,
    fun maker child makes => ?_⟩
  · rintro rfl
    exact (kin.init begun).2 dead
  · have different : other ≠ proc := by
      rintro rfl
      rw [Function.update_self] at there
      cases there
    rw [stays other different] at there
    exact (kin.made other there).imp_right fun either => either.imp_left fun member =>
      (fewer other).mpr ⟨different, member⟩
  · have old := ((fewer other).mp member).2
    refine (kin.elders other old grand kinship).imp_right fun elder => (fewer grand).mpr ⟨?_, elder⟩
    rintro rfl
    exact childless other old kinship
  · have unfinished := kin.unfinished maker child makes
    have different : child ≠ proc := by
      rintro rfl
      cases unfinished.uninit.symm.trans dead
    have apart : maker ≠ proc := by
      rintro rfl
      exact unfinished.alive dead
    refine { unfinished with there := ?_, unlisted := ?_, live := ?_, elder := ?_ }
    · rw [stays child different]
      exact unfinished.there
    · exact fun member => unfinished.unlisted ((fewer child).mp member).2
    · rw [stays maker apart]
      exact unfinished.live
    · exact unfinished.elder.imp_right fun elder => (fewer maker).mpr ⟨apart, elder⟩

end Kin

/-! ## Who waits for whom -/

namespace Attended

/-- Nobody else falls asleep, and nobody else becomes a zombie child. -/
theorem congr {family' : Family} {allocated' : Nat -> Bool} {waits' : Nat -> Option Wait} {state' : Nat -> ProcState}
    {woken' : Option Nat} (attended : Attended family allocated waits state woken)
    (asleep : forall other pid codeStore, allocated' other = true -> woken' ≠ some other ->
      waits' other = some (.child pid codeStore) -> state' other = .sleeping ->
      allocated other = true /\ woken ≠ some other /\ waits other = some (.child pid codeStore) /\
        state other = .sleeping)
    (zombies : forall other child, woken' ≠ some other -> child ∈ family'.procList ->
      family'.parent child = some other ->
      state' child = .zombie -> child ∈ family.procList /\ family.parent child = some other /\ state child = .zombie /\
        family'.pid child = family.pid child) :
    Attended family' allocated' waits' state' woken' := by
  intro other pid codeStore there aware waiting sleeping child member kin dead
  rcases asleep other pid codeStore there aware waiting sleeping with
    ⟨thereBefore, awareBefore, waitingBefore, sleepingBefore⟩
  rcases zombies other child aware member kin dead with ⟨memberBefore, kinBefore, deadBefore, same⟩
  rw [same]
  exact attended other pid codeStore thereBefore awareBefore waitingBefore sleepingBefore child memberBefore kinBefore
    deadBefore

/-- The one that was not aware does not sleep in `do_wait`. -/
theorem aware (attended : Attended family allocated waits state (some proc))
    (awake : forall pid codeStore, waits proc = some (.child pid codeStore) -> state proc ≠ .sleeping) :
    Attended family allocated waits state none := by
  intro other pid codeStore there _ waiting sleeping
  refine attended other pid codeStore there (fun same => ?_) waiting sleeping
  cases same
  exact awake pid codeStore waiting sleeping

/-- A process falls asleep in `do_wait`, after a search that found no zombie. -/
theorem fall (attended : Attended family allocated waits state none) {pid : Int} {codeStore : Bool}
    (none : forall child, child ∈ family.procList -> family.parent child = some current -> state child = .zombie ->
      pid ≠ 0 /\ family.pid child ≠ pid) (alive : state current ≠ .zombie) :
    Attended family allocated (Function.update waits current (some (.child pid codeStore)))
      (Function.update state current .sleeping) Option.none := by
  intro other pid' codeStore' there aware waiting sleeping child member kin dead
  have different : child ≠ current := by
    rintro rfl
    rw [Function.update_self] at dead
    cases dead
  rw [Function.update_of_ne different] at dead
  by_cases same : other = current
  · subst same
    rw [Function.update_self] at waiting
    cases waiting
    exact none child member kin dead
  · rw [Function.update_of_ne same] at waiting sleeping
    exact attended other pid' codeStore' there aware waiting sleeping child member kin dead

end Attended

end Kinship

end Process
end Ucore
