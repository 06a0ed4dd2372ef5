import Ucore.Process.ForkCalls

namespace Ucore
namespace Process

open Library
open Program
open Scheduler

/-!
# Calls that end processes

`do_exit` and `do_wait` keep a kernel sound.
-/

namespace Kernel

variable {kernel : Kernel} {initial : Nat -> Int} {started : Prop} {proc : Nat}

namespace Sound

/-! ## `do_exit` -/

/-- The current process is a zombie, its parent not aware of it yet. -/
theorem die (sound : kernel.Sound initial started none none) (free : kernel.Free)
    (other : kernel.sched.current ≠ kernel.initproc) {parent : Nat}
    (named : kernel.family.parent kernel.sched.current = some parent) (errorCode : Int) :
    ({ (kernel.setState kernel.sched.current .zombie (kernel.waitState kernel.sched.current)).setPlace
      (.entering .exit) with
      exitCode := Function.update kernel.exitCode kernel.sched.current errorCode } : Kernel).Sound initial started
      (some kernel.sched.current) (some parent) := by
  generalize made : ({ (kernel.setState kernel.sched.current .zombie (kernel.waitState kernel.sched.current)).setPlace
    (.entering .exit) with exitCode := Function.update kernel.exitCode kernel.sched.current errorCode } :
      Kernel) = after
  have outside := free.1.1
  have runnable := sound.outside_runnable outside
  have state : after.state = Function.update kernel.state kernel.sched.current .zombie := by
    rw [← made]
    exact state_setState ..
  have waitState : after.waitState =
      Function.update kernel.waitState kernel.sched.current (kernel.waitState kernel.sched.current) := by
    rw [← made]
    exact waitState_setState ..
  have waits : after.waits = Function.update kernel.waits kernel.sched.current (some .exit) := by
    rw [← made]
    exact waits_setPlace ..
  have suits := sound.placed.suits _ sound.placed.running
  rw [runnable] at suits
  refine ⟨?_, ?_, ?_, ?_, ?_, ?_, ?_⟩
  · rw [state, waitState, ← made]
    exact sound.placed.enter ⟨rfl, suits.runnable⟩ free.1.2
  · rw [← made]
    exact sound.setState_held _ _
  · rw [waits, ← made]
    exact sound.sleep_timers outside
  · rw [waits, state, ← made]
    exact sound.sleep_waiting outside rfl _
  · rw [← made]
    exact sound.counted
  · rw [waits, state, ← made]
    exact sound.kin.die runnable free.2 other _
  · rw [waits, state, ← made]
    refine sound.attended.congr (fun other pid codeStore there aware waiting sleeping => ?_)
      (fun other child aware member named' dead => ?_)
    · have different : other ≠ kernel.sched.current := by
        rintro rfl
        rw [Function.update_self] at sleeping
        cases sleeping
      rw [Function.update_of_ne different] at waiting sleeping
      exact ⟨there, by simp, waiting, sleeping⟩
    · have different : child ≠ kernel.sched.current := by
        rintro rfl
        exact aware (named.symm.trans named')
      rw [Function.update_of_ne different] at dead
      exact ⟨member, named', dead, rfl⟩

/-- What stays while `do_exit` wakes processes and gives children away. -/
structure Stays (kernel after : Kernel) : Prop where
  current : after.sched.current = kernel.sched.current
  initproc : after.initproc = kernel.initproc
  allocated : after.allocated = kernel.allocated

/-- The process that is not aware of a zombie is woken if it waits for it. -/
theorem wakeupWaiting_meets {leaving : Option Nat} (sound : kernel.Sound initial started leaving (some proc))
    (there : kernel.allocated proc = true) :
    Meets (wakeupWaiting proc) kernel
      ⟨fun _ after => after.Sound initial started leaving none /\ Stays kernel after /\ after.family = kernel.family,
        fun _ _ => False, fun _ => False⟩ := by
  have suits := sound.placed.suits proc there
  unfold wakeupWaiting
  simp only [meets_bind, meets_get, meets_ite, meets_pure]
  split
  · rename_i waiting
    have asleep := suits.sleeping (show kernel.waitState proc ≠ 0 by rw [waiting]; decide)
    refine (wakeup_awakes sound.placed sound.queued there (by rw [asleep]; simp)).mono ?_ (fun _ _ failed => failed)
      (fun _ stopped => stopped)
    rintro _ after ⟨sched, rfl, awoken⟩
    have woken := sound.awoken awoken (by rw [asleep]; simp) (by rw [asleep]; simp) fun sem here => by
      rw [asleep] at suits
      rcases suits.asleep with ⟨wait, waits, _, code⟩
      cases waits.symm.trans here
      exact absurd (waiting.symm.trans code) (show wtChild ≠ wtKsem by decide)
    refine ⟨{ woken with attended := woken.attended.aware fun _ _ _ => ?_ }, ⟨awoken.current, rfl, rfl⟩, rfl⟩
    rw [show ({ kernel with sched } : Kernel).state proc = .runnable from
      (congrFun awoken.state proc).trans (Function.update_self ..)]
    simp
  · rename_i elsewhere
    refine ⟨{ sound with attended := sound.attended.aware fun pid codeStore here asleep => elsewhere ?_ },
      ⟨rfl, rfl, rfl⟩,
      trivial⟩
    rw [asleep] at suits
    rcases suits.asleep with ⟨wait, waits, _, code⟩
    cases waits.symm.trans here
    exact code

/-- The current process gives a child to `initproc`, which is not aware of it
when it is a zombie. -/
theorem adopt (sound : kernel.Sound initial started (some kernel.sched.current) none) (begun : started)
    (other : kernel.initproc ≠ kernel.sched.current) (listed : proc ∈ kernel.family.procList)
    (first : kernel.family.cptr kernel.sched.current = some proc) {woken : Option Nat}
    (aware : kernel.state proc = .zombie -> woken = some kernel.initproc) :
    (kernel.setFamily (kernel.family.adopt kernel.sched.current kernel.initproc proc)).Sound initial started
      (some kernel.sched.current) woken := by
  refine ⟨sound.placed, sound.queued, sound.timers, sound.waiting, sound.counted,
    sound.kin.adopt begun sound.placed.running other listed first, ?_⟩
  refine sound.attended.congr (fun other pid codeStore there _ waiting sleeping => ⟨there, by simp, waiting, sleeping⟩)
    (fun other child unaware member named dead => ?_)
  by_cases same : child = proc
  · subst same
    have named' : Function.update kernel.family.parent child (some kernel.initproc) child = some other := named
    rw [Function.update_self] at named'
    exact absurd ((aware dead).trans named') unaware
  · exact ⟨member, (Function.update_of_ne same _ _).symm.trans named, dead, rfl⟩

/-- The loop of `do_exit` ends, with all children given away. -/
theorem giveChildren_meets {fuel : Nat} (sound : kernel.Sound initial started (some kernel.sched.current) none)
    (begun : started) (other : kernel.initproc ≠ kernel.sched.current) {before : Option Nat} {members : List Nat}
    (tree : kernel.family.Tree kernel.sched.current before members) (enough : members.length <= fuel) :
    Meets (giveChildren fuel) kernel
      ⟨fun _ after => after.Sound initial started none none, fun _ _ => False, fun _ => False⟩ := by
  induction fuel generalizing kernel before members with
  | zero =>
      have first := tree.1.head_eq
      rw [List.length_eq_zero_iff.mp (Nat.le_zero.mp enough)] at first
      unfold giveChildren
      simp only [meets_bind, meets_get, meets_assert]
      exact ⟨fun alone => { sound with kin := sound.kin.left sound.placed.running alone }, fun some => some first⟩
  | succ fuel inductionHypothesis =>
      unfold giveChildren
      simp only [meets_bind, meets_get]
      cases first : kernel.family.cptr kernel.current with
      | none => exact { sound with kin := sound.kin.left sound.placed.running first }
      | some proc =>
          have start := tree.1.head_eq
          rw [show kernel.family.cptr kernel.sched.current = some proc from first] at start
          cases members with
          | nil => cases start
          | cons same rest =>
              cases start
              have listed := ((tree.2 proc).mp (List.mem_cons_self ..)).1
              have onward : forall after : Kernel, after.Sound initial started (some kernel.sched.current) none ->
                  Stays kernel after ->
                  after.family = kernel.family.adopt kernel.sched.current kernel.initproc proc ->
                  Meets (giveChildren fuel) after
                    ⟨fun _ after => after.Sound initial started none none, fun _ _ => False, fun _ => False⟩ := by
                intro after kept stays family
                rw [← stays.current] at kept
                have alive := kept.placed.running
                rcases kept.kin.sound.tree after.sched.current alive with ⟨behind, others, orphans, _⟩
                refine inductionHypothesis kept ?_ orphans ?_
                · rw [stays.initproc, stays.current]
                  exact other
                · have fewer : others ⊆ rest := by
                    intro child member
                    have both := (orphans.2 child).mp member
                    rw [family, stays.current] at both
                    have named : Function.update kernel.family.parent proc (some kernel.initproc) child =
                        some kernel.sched.current := both.2
                    have different : child ≠ proc := by
                      rintro rfl
                      rw [Function.update_self] at named
                      exact other (Option.some.inj named)
                    rw [Function.update_of_ne different] at named
                    exact (List.mem_cons.mp ((tree.2 child).mpr ⟨both.1, named⟩)).resolve_left different
                  have shorter := List.Subperm.length_le (List.subperm_of_subset orphans.1.nodup fewer)
                  rw [List.length_cons] at enough
                  omega
              simp only [meets_bind, meets_modify, meets_ite]
              split
              · rename_i dead
                have given := sound.adopt begun other listed first (fun _ => rfl)
                refine (wakeupWaiting_meets given (sound.kin.sound.listed _ (sound.kin.init begun).1)).mono ?_
                  (fun _ _ failed => failed) (fun _ stopped => stopped)
                rintro _ after ⟨kept, stays, family⟩
                exact onward after kept ⟨stays.current, stays.initproc, stays.allocated⟩ family
              · rename_i alive
                have given := @adopt _ _ _ proc sound begun other listed first none (fun dead => absurd dead alive)
                exact onward _ given ⟨rfl, rfl, rfl⟩ rfl

theorem doExit_meets (sound : kernel.Sound initial started none none) (begun : started) (free : kernel.Free)
    {errorCode : Int} :
    Meets (doExit errorCode) kernel
      ⟨fun _ after => after.Sound initial started none none, fun _ _ => False,
        fun fault => fault = .panic "initproc exit.\n"⟩ := by
  unfold doExit
  simp only [meets_bind, meets_get, meets_ite, meets_halt, meets_modify]
  split
  · rename_i idle
    exact absurd idle free.1.2
  · split
    · trivial
    · rename_i other
      have runnable := sound.outside_runnable free.1.1
      have listed := (sound.kin.listed sound.placed.running (by rw [runnable]; simp)).resolve_left free.1.2
      rcases sound.kin.sound.parents _ listed with ⟨parent, named, there⟩
      have died := sound.die free other named errorCode
      change Meets (follow (kernel.family.parent kernel.sched.current)) _ _
      rw [named]
      change Meets (wakeupWaiting parent) _ _
      refine (wakeupWaiting_meets died there).mono ?_ (fun _ _ failed => failed.elim) (fun _ stopped => stopped.elim)
      rintro _ after ⟨kept, stays, family⟩
      have here : after.sched.current = kernel.sched.current := stays.current
      change after.Sound initial started (some kernel.sched.current) none at kept
      rw [← here] at kept
      rcases kept.kin.sound.tree _ kept.placed.running with ⟨before, members, tree, _⟩
      have enough := tree.few
      rw [family] at enough
      refine (giveChildren_meets kept begun ?_ tree enough).mono (fun _ _ sound => sound) (fun _ _ failed => failed)
        (fun _ stopped => stopped.elim)
      rw [here, stays.initproc]
      exact Ne.symm other

/-! ## `do_wait` -/

/-- The end of `do_wait`, for a zombie child of the current process. -/
theorem reap_meets (sound : kernel.Sound initial started none none) (begun : started)
    (listed : proc ∈ kernel.family.procList) (dead : kernel.state proc = .zombie)
    (runnable : kernel.state kernel.sched.current = .runnable) {codeStore : Bool} :
    Meets (reap proc codeStore) kernel
      ⟨fun _ after => after.Sound initial started none none, fun _ _ => False, fun _ => False⟩ := by
  have there := sound.kin.sound.listed proc listed
  have waits := sound.zombie_waits there dead
  have still : kernel.state proc ≠ .runnable := by
    rw [dead]
    simp
  have elsewhere : proc ≠ kernel.sched.current := by
    rintro rfl
    exact still runnable
  have busy : proc ≠ kernel.sched.idleproc := by
    rintro rfl
    exact sound.kin.apart listed
  have other : proc ≠ kernel.initproc := by
    rintro rfl
    exact (sound.kin.init begun).2 dead
  rcases sound.kin.sound.parents proc listed with ⟨parent, named, _⟩
  unfold reap
  simp only [meets_bind, meets_get, meets_ite, meets_halt, meets_modify, meets_pure]
  rw [if_neg (not_or.mpr ⟨busy, other⟩)]
  rw [named]
  change Kernel.Sound _ _ _ _ _
  refine ⟨sound.placed.free elsewhere busy, sound.free_held still, sound.free_timers (by rw [waits]; simp),
    sound.free_waiting ?_, sound.counted, sound.kin.reap listed dead named,
    sound.free_attended (fun child member => List.mem_of_mem_erase member) rfl rfl⟩
  intro wait here
  cases waits.symm.trans here
  rfl

/-- What the search of `do_wait` finds. -/
theorem search_finds (sound : kernel.Sound initial started none none) (pid : Int) :
    Exists fun found : Bool × Option Nat => kernel.search pid = some found /\
      (forall proc, found.2 = some proc -> proc ∈ kernel.family.procList /\ kernel.state proc = .zombie) /\
      (found.2 = none -> forall child, child ∈ kernel.family.procList ->
        kernel.family.parent child = some kernel.sched.current -> kernel.state child = .zombie ->
        pid ≠ 0 /\ kernel.family.pid child ≠ pid) := by
  unfold Kernel.search
  dsimp only
  split
  · rename_i one
    cases found : kernel.family.findProc pid with
    | none =>
        refine ⟨_, rfl, fun proc wrong => (nomatch wrong), fun _ child member _ _ => ⟨one, fun same => ?_⟩⟩
        have present := sound.kin.sound.findProc_eq.mpr ⟨same ▸ sound.kin.sound.valid child member, member, same⟩
        cases found.symm.trans present
    | some proc =>
        have facts := sound.kin.sound.findProc_eq.mp found
        dsimp only
        split
        · rename_i mine
          refine ⟨_, rfl, fun other zombie => ?_, fun none child member _ dead => ⟨one, fun same => ?_⟩⟩
          · change [proc].find? (fun proc => decide (kernel.state proc = .zombie)) = some other at zombie
            have same : other = proc := List.mem_singleton.mp (List.mem_of_find?_eq_some zombie)
            have dead := List.find?_some zombie
            rw [same] at dead ⊢
            exact ⟨facts.2.1, of_decide_eq_true dead⟩
          · have same := sound.kin.sound.apart child proc member facts.2.1 (same.trans facts.2.2.symm)
            have alive := List.find?_eq_none.mp none proc (List.mem_singleton_self _)
            exact alive (decide_eq_true (same ▸ dead))
        · rename_i foreign
          refine ⟨_, rfl, fun other wrong => (nomatch wrong), fun _ child member named _ => ⟨one, fun same => ?_⟩⟩
          have same := sound.kin.sound.apart child proc member facts.2.1 (same.trans facts.2.2.symm)
          exact foreign (same ▸ named)
  · rcases sound.kin.sound.tree _ sound.placed.running with ⟨before, members, tree, _⟩
    rw [show kernel.current = kernel.sched.current from rfl, tree.children_eq]
    refine ⟨_, rfl, fun proc zombie => ?_, fun none child member named dead => ?_⟩
    · have dead := List.find?_some zombie
      exact ⟨((tree.2 proc).mp (List.mem_of_find?_eq_some zombie)).1, of_decide_eq_true dead⟩
    · have alive := List.find?_eq_none.mp none child ((tree.2 child).mpr ⟨member, named⟩)
      exact absurd (decide_eq_true dead) alive

theorem doWaitRepeat_meets (sound : kernel.Sound initial started none none) (begun : started) (free : kernel.Free)
    {pid : Int} {codeStore : Bool} :
    Meets (doWaitRepeat pid codeStore) kernel
      ⟨fun _ after => after.Sound initial started none none, fun _ after => after.Sound initial started none none,
        fun _ => False⟩ := by
  rcases sound.search_finds pid with ⟨⟨children, found⟩, searched, zombie, none⟩
  unfold doWaitRepeat
  simp only [meets_bind, meets_get]
  rw [searched]
  cases found with
  | some proc =>
      rcases zombie proc rfl with ⟨listed, dead⟩
      simp only [meets_bind, meets_pure]
      exact (sound.reap_meets begun listed dead (sound.outside_runnable free.1.1)).mono (fun _ _ sound => sound)
        (fun _ _ failed => failed.elim) (fun _ stopped => stopped)
  | none =>
      cases children with
      | true =>
          simp only [meets_bind, meets_modify, meets_pure]
          exact sound.sleep_child free.1.1 free.1.2 free.2 codeStore (none rfl)
      | false => exact sound

theorem doWait_meets (sound : kernel.Sound initial started none none) (begun : started) (free : kernel.Free)
    {pid : Int} {codeStore : Option Bool} :
    Meets (doWait pid codeStore) kernel
      ⟨fun _ after => after.Sound initial started none none, fun _ after => after.Sound initial started none none,
        fun _ => False⟩ := by
  unfold doWait
  simp only [meets_ite, meets_throw]
  split
  · exact sound
  · exact sound.doWaitRepeat_meets begun free

theorem doWaitWoken_meets (sound : kernel.Sound initial started none none) (begun : started) {pid : Int}
    {codeStore : Bool} (inside : kernel.place kernel.sched.current = .inside (.child pid codeStore)) :
    Meets (doWaitWoken pid codeStore) kernel
      ⟨fun _ after => after.Sound initial started none none, fun _ after => after.Sound initial started none none,
        fun fault => fault = .panic "initproc exit.\n"⟩ := by
  have here := inside_waits inside
  have left : (kernel.setPlace .outside).Sound initial started none none := by
    refine sound.leave (by rw [inside]; rfl) (sound.timers.absent ?_) fun name => ?_
    · rw [here]
      simp
    · refine sound.waiting.absent fun wait waits named => ?_
      cases here.symm.trans waits
      cases named
  have free : (kernel.setPlace .outside).Free :=
    ⟨⟨Function.update_self .., sound.inside_busy inside⟩, sound.inside_free inside (by simp)⟩
  unfold doWaitWoken
  simp only [meets_bind, meets_modify, meets_get, meets_ite, meets_pure]
  split
  · exact (left.doExit_meets begun free).mono (fun _ _ sound => sound) (fun _ _ failed => failed.elim)
      (fun _ stopped => stopped)
  · exact (left.doWaitRepeat_meets begun free).mono (fun _ _ sound => sound) (fun _ _ sound => sound)
      (fun _ stopped => stopped.elim)

end Sound

end Kernel

end Process
end Ucore
