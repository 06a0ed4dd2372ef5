import Mathlib.Algebra.Group.Int.Defs
import Ucore.Library.DeltaList
import Ucore.Sched.RunQueue

namespace Ucore
namespace Scheduler

open Library
open Program

/-!
# Timers

The timer list is a delta list.  So a call of `run_timer_list` fires the
timers that have one tick left, which wakes their processes, and brings all
others one tick closer.
-/

/-- The delta list that timers make. -/
def deltas (timers : List Timer) : DeltaList Nat := timers.map (fun timer => (timer.address, timer.expires))

/-- The ticks that a timer has left. -/
def Sched.remaining (sched : Sched) (address : Nat) : Option Int := (deltas sched.timerList).due address

theorem keys_deltas (timers : List Timer) : (deltas timers).keys = timers.map Timer.address := by
  unfold deltas DeltaList.keys
  rw [List.map_map]
  rfl

/-! ## The calls on the list -/

theorem deltas_insertTimer (timer : Timer) (timers : List Timer) :
    deltas (insertTimer timer timers) = (deltas timers).insert timer.address timer.expires := by
  induction timers generalizing timer with
  | nil =>
      rw [insertTimer]
      rfl
  | cons next rest inductionHypothesis =>
      have inner := inductionHypothesis { timer with expires := timer.expires - next.expires }
      rw [insertTimer]
      change _ = DeltaList.insert timer.address timer.expires ((next.address, next.expires) :: deltas rest)
      rw [DeltaList.insert]
      split
      · rfl
      · exact congrArg ((next.address, next.expires) :: ·) inner

theorem deltas_passOn (expires : Int) (timers : List Timer) :
    deltas (passOn expires timers) = (deltas timers).delay expires := by
  cases timers <;> rfl

theorem delay_zero (list : DeltaList Nat) : list.delay 0 = list := by
  cases list with
  | nil => rfl
  | cons next rest =>
      rw [DeltaList.delay, Int.add_zero]

theorem deltas_removeTimer (address : Nat) (timers : List Timer) :
    deltas (removeTimer address timers) = (deltas timers).erase address := by
  induction timers with
  | nil => rfl
  | cons timer rest inductionHypothesis =>
      rw [removeTimer]
      change _ = DeltaList.erase address ((timer.address, timer.expires) :: deltas rest)
      rw [DeltaList.erase]
      by_cases here : timer.address = address
      · rw [if_pos here, if_pos here]
        by_cases zero : timer.expires = 0
        · rw [if_neg (not_not.mpr zero), zero, delay_zero]
        · rw [if_pos zero, deltas_passOn]
      · rw [if_neg here, if_neg here, ← inductionHypothesis]
        rfl

/-! ## Waking -/

/-- No assertion that `run_timer_list` makes about a process fails.  That
shuts out a zombie, a process that waits for something it may not be
interrupted in, and one that is queued although it sleeps. -/
structure Sched.Wakeable (sched : Sched) (proc : Nat) : Prop where
  interrupted : (sched.task proc).waitState ≠ 0 -> (sched.task proc).waitState &&& wtInterrupted ≠ 0
  alive : (sched.task proc).state ≠ .zombie
  absent : (sched.task proc).state ≠ .runnable -> proc ≠ sched.current -> proc ≠ sched.idleproc -> proc ∉ sched.runList

/-- The processes have been woken, and nothing else has happened to the states
and the queue: one that was runnable stays as it was, any other is runnable,
waits for nothing and has entered the queue unless it runs or is idle. -/
structure Woke (procs : Nat -> Prop) (before after : Sched) : Prop where
  current : after.current = before.current
  idleproc : after.idleproc = before.idleproc
  same : forall proc, ¬ procs proc \/ (before.task proc).state = .runnable ->
    (after.task proc).state = (before.task proc).state /\ (after.task proc).waitState = (before.task proc).waitState
  woken : forall proc, procs proc -> (before.task proc).state ≠ .runnable ->
    (after.task proc).state = .runnable /\ (after.task proc).waitState = 0
  queued : forall proc, proc ∈ after.runList <-> proc ∈ before.runList \/
    (procs proc /\ (before.task proc).state ≠ .runnable /\ proc ≠ before.current /\ proc ≠ before.idleproc)

section Waking

variable {sched before middle after : Sched} {procs others : Nat -> Prop} {proc : Nat}

theorem Woke.refl (none : forall proc, ¬ procs proc) : Woke procs sched sched where
  current := rfl
  idleproc := rfl
  same := fun _ _ => ⟨rfl, rfl⟩
  woken := fun proc member => absurd member (none proc)
  queued := fun proc => ⟨.inl, fun either => either.resolve_right fun both => none proc both.1⟩

theorem Woke.trans (first : Woke procs before middle) (second : Woke others middle after) :
    Woke (fun proc => procs proc \/ others proc) before after where
  current := second.current.trans first.current
  idleproc := second.idleproc.trans first.idleproc
  same := by
    intro proc spared
    have here := first.same proc (spared.imp_left fun neither both => neither (.inl both))
    have there := second.same proc (spared.imp (fun neither both => neither (.inr both)) here.1.trans)
    exact ⟨there.1.trans here.1, there.2.trans here.2⟩
  woken := by
    intro proc either asleep
    by_cases early : procs proc
    · have here := first.woken proc early asleep
      have there := second.same proc (.inr here.1)
      exact ⟨there.1.trans here.1, there.2.trans here.2⟩
    · have here := first.same proc (.inl early)
      exact second.woken proc (either.resolve_left early) (fun runnable => asleep (here.1.symm.trans runnable))
  queued := by
    intro proc
    rw [second.queued, first.queued, first.current, first.idleproc]
    by_cases early : procs proc /\ (before.task proc).state ≠ .runnable
    · rw [(first.woken proc early.1 early.2).1]
      simp [early.1, early.2]
    · have spared : ¬ procs proc \/ (before.task proc).state = .runnable := by
        by_contra neither
        exact early ⟨not_not.mp fun absent => neither (.inl absent), fun runnable => neither (.inr runnable)⟩
      rw [(first.same proc spared).1]
      rcases spared with absent | runnable
      · simp [absent]
      · simp [runnable]

theorem Woke.mono (woke : Woke procs before after) (same : forall proc, others proc <-> procs proc) :
    Woke others before after := by
  rw [show others = procs from funext fun proc => propext (same proc)]
  exact woke

/-- A process that could be woken still can. -/
theorem Woke.wakeable (woke : Woke procs before after) (first : forall proc, procs proc -> before.Wakeable proc) :
    after.Wakeable proc <-> before.Wakeable proc := by
  by_cases early : procs proc /\ (before.task proc).state ≠ .runnable
  · have here := woke.woken proc early.1 early.2
    refine ⟨fun _ => first proc early.1,
      fun _ => ⟨fun set => absurd here.2 set, ?_, fun asleep => absurd here.1 asleep⟩⟩
    rw [here.1]
    exact nofun
  · have spared : ¬ procs proc \/ (before.task proc).state = .runnable := by
      by_contra neither
      exact early ⟨not_not.mp fun absent => neither (.inl absent), fun runnable => neither (.inr runnable)⟩
    have here := woke.same proc spared
    have queue : proc ∈ after.runList <-> proc ∈ before.runList := by
      rw [woke.queued]
      exact or_iff_left fun entered => early ⟨entered.1, entered.2.1⟩
    constructor
    · rintro ⟨interrupted, alive, absent⟩
      rw [here.2] at interrupted
      rw [here.1] at alive
      rw [here.1, woke.current, woke.idleproc, queue] at absent
      exact ⟨interrupted, alive, absent⟩
    · rintro ⟨interrupted, alive, absent⟩
      constructor
      · rw [here.2]
        exact interrupted
      · rw [here.1]
        exact alive
      · rw [here.1, woke.current, woke.idleproc, queue]
        exact absent

theorem woke_awaken (asleep : (sched.task proc).state ≠ .runnable)
    (aside : proc = sched.current \/ proc = sched.idleproc) :
    Woke (· = proc) sched (sched.awaken proc) where
  current := rfl
  idleproc := rfl
  same := by
    intro other spared
    have apart : other ≠ proc := by
      rintro rfl
      exact spared.elim (fun absent => absent rfl) asleep
    unfold Sched.awaken Sched.setTask
    dsimp only
    rw [Function.update_of_ne apart]
    exact ⟨rfl, rfl⟩
  woken := by
    rintro other rfl _
    unfold Sched.awaken Sched.setTask
    dsimp only
    rw [Function.update_self]
    exact ⟨rfl, rfl⟩
  queued := by
    intro other
    refine ⟨.inl, fun either => either.resolve_right ?_⟩
    rintro ⟨rfl, _, elsewhere, busy⟩
    exact aside.elim elsewhere busy

theorem woke_enqueue (asleep : (sched.task proc).state ≠ .runnable) (elsewhere : proc ≠ sched.current)
    (busy : proc ≠ sched.idleproc) : Woke (· = proc) sched ((sched.awaken proc).enqueue proc) where
  current := rfl
  idleproc := rfl
  same := by
    intro other spared
    have apart : other ≠ proc := by
      rintro rfl
      exact spared.elim (fun absent => absent rfl) asleep
    unfold Sched.enqueue Sched.awaken Sched.setTask
    dsimp only
    rw [Function.update_of_ne apart, Function.update_of_ne apart]
    exact ⟨rfl, rfl⟩
  woken := by
    rintro other rfl _
    unfold Sched.enqueue Sched.awaken Sched.setTask
    dsimp only
    rw [Function.update_self, Function.update_self]
    exact ⟨rfl, rfl⟩
  queued := by
    intro other
    change other ∈ sched.runList ++ [proc] <-> _
    rw [List.mem_append, List.mem_singleton]
    refine or_congr_right ⟨?_, fun both => both.1⟩
    rintro rfl
    exact ⟨rfl, asleep, elsewhere, busy⟩

/-- The assertions about the process of a timer. -/
def wakeFaults : List Fault :=
  [.assertion "proc->wait_state & WT_INTERRUPTED", .assertion "proc->state != PROC_ZOMBIE",
    .assertion "list_empty(&(proc->run_link))"]

/-- A timer that is due wakes its process and leaves the list, and there is no
way to stop but the assertions about the process. -/
theorem fireTimer_meets (timer : Timer) :
    Meets (fireTimer timer) sched
      ⟨fun _ after => sched.Wakeable timer.proc /\ Woke (· = timer.proc) sched after /\
          after.timerList = removeTimer timer.address sched.timerList, fun _ _ => False,
        fun fault => ¬ sched.Wakeable timer.proc /\ fault ∈ wakeFaults⟩ := by
  unfold fireTimer delTimer
  simp only [meets_ite, meets_bind, meets_get, meets_assert, meets_modify]
  have woken (interrupted : (sched.task timer.proc).waitState ≠ 0 ->
        (sched.task timer.proc).waitState &&& wtInterrupted ≠ 0) :
      Meets (wakeupProc timer.proc) sched
        ⟨fun _ after => sched.Wakeable timer.proc /\
            Woke (· = timer.proc) sched { after with timerList := removeTimer timer.address after.timerList } /\
            removeTimer timer.address after.timerList = removeTimer timer.address sched.timerList, fun _ _ => False,
          fun fault => ¬ sched.Wakeable timer.proc /\ fault ∈ wakeFaults⟩ := by
    apply wakeupProc_meets
    · exact fun dead => ⟨fun wakeable => wakeable.alive dead, by decide⟩
    · intro runnable
      have alive : (sched.task timer.proc).state ≠ .zombie := fun dead => by simp [runnable] at dead
      refine ⟨⟨interrupted, alive, fun asleep => absurd runnable asleep⟩, ?_, rfl⟩
      exact ⟨rfl, rfl, fun _ _ => ⟨rfl, rfl⟩, fun proc here asleep => absurd (here ▸ runnable) asleep,
        fun proc => ⟨.inl, fun either => either.resolve_right fun entered => entered.2.1 (entered.1 ▸ runnable)⟩⟩
    · exact fun queued asleep elsewhere busy =>
        ⟨fun wakeable => wakeable.absent asleep elsewhere busy queued, by decide⟩
    · intro alive asleep aside
      have woke := woke_awaken asleep aside
      exact ⟨⟨interrupted, alive, fun _ elsewhere busy => absurd aside (not_or.mpr ⟨elsewhere, busy⟩)⟩,
        ⟨woke.current, woke.idleproc, woke.same, woke.woken, woke.queued⟩, rfl⟩
    · intro alive asleep elsewhere busy absent
      have woke := woke_enqueue asleep elsewhere busy
      exact ⟨⟨interrupted, alive, fun _ _ _ => absent⟩,
        ⟨woke.current, woke.idleproc, woke.same, woke.woken, woke.queued⟩, rfl⟩
  split
  · rename_i set
    exact ⟨fun interrupted => woken fun _ => interrupted,
      fun deaf => ⟨fun wakeable => deaf (wakeable.interrupted set), by decide⟩⟩
  · rename_i unset
    exact woken fun set => absurd set unset

end Waking

/-! ## Firing -/

/-- The timers at the front that are due. -/
def dueTimers (timers : List Timer) : List Timer := timers.takeWhile (fun timer => decide (timer.expires = 0))

def laterTimers (timers : List Timer) : List Timer := timers.dropWhile (fun timer => decide (timer.expires = 0))

/-- The list after the count down. -/
def closer : List Timer -> List Timer
  | [] => []
  | timer :: rest => { timer with expires := timer.expires - 1 } :: rest

/-- What the calls on the list never change of a timer. -/
def Timer.key (timer : Timer) : Nat × Nat := (timer.address, timer.proc)

theorem deltas_dueTimers (timers : List Timer) : deltas (dueTimers timers) = (deltas timers).ripe := by
  unfold deltas dueTimers DeltaList.ripe
  rw [List.takeWhile_map]
  rfl

theorem deltas_laterTimers (timers : List Timer) : deltas (laterTimers timers) = (deltas timers).unripe := by
  unfold deltas laterTimers DeltaList.unripe
  rw [List.dropWhile_map]
  rfl

theorem deltas_closer (timers : List Timer) : deltas (closer timers) = (deltas timers).approach := by
  cases timers <;> rfl

theorem keys_closer (timers : List Timer) : (closer timers).map Timer.key = timers.map Timer.key := by
  cases timers <;> rfl

section Firing

variable {sched : Sched} {timers : List Timer}

/-- The processes of the timers that are due are woken and the others are
left; it ends so exactly if each of the processes may be woken. -/
def firing (sched : Sched) (due left : List Timer) : Post Sched Errno Fault Unit :=
  ⟨fun _ after => (forall timer, timer ∈ due -> sched.Wakeable timer.proc) /\
      Woke (fun proc => Exists fun timer => timer ∈ due /\ timer.proc = proc) sched after /\ after.timerList = left,
    fun _ _ => False,
    fun fault => ¬ (forall timer, timer ∈ due -> sched.Wakeable timer.proc) /\ fault ∈ wakeFaults⟩

theorem fireLoop_meets (here : sched.timerList = timers) :
    Meets (fireLoop timers) sched (firing sched (dueTimers timers) (laterTimers timers)) := by
  induction timers generalizing sched with
  | nil =>
      refine ⟨fun _ member => absurd member List.not_mem_nil, Woke.refl ?_, here⟩
      rintro proc ⟨timer, member, _⟩
      cases member
  | cons timer rest inductionHypothesis =>
      rw [fireLoop]
      simp only [meets_ite, meets_bind, meets_pure]
      split
      · rename_i zero
        have due : dueTimers (timer :: rest) = timer :: dueTimers rest :=
          List.takeWhile_cons_of_pos (by exact decide_eq_true zero)
        have later : laterTimers (timer :: rest) = laterTimers rest :=
          List.dropWhile_cons_of_pos (by exact decide_eq_true zero)
        rw [due, later]
        refine (fireTimer_meets timer).mono ?_ (fun _ _ failed => failed) ?_
        · rintro _ middle ⟨wakeable, woke, left⟩
          have onward : middle.timerList = rest := by
            rw [left, here, removeTimer, if_pos rfl, if_neg (not_not.mpr zero)]
          have still {proc : Nat} : middle.Wakeable proc <-> sched.Wakeable proc :=
            woke.wakeable (by rintro other rfl; exact wakeable)
          refine (inductionHypothesis onward).mono ?_ (fun _ _ failed => failed) ?_
          · rintro _ after ⟨others, next, list⟩
            refine ⟨List.forall_mem_cons.mpr ⟨wakeable, fun other member => still.mp (others other member)⟩, ?_, list⟩
            refine (woke.trans next).mono fun proc => ?_
            simp only [List.mem_cons, or_and_right, exists_or, exists_eq_left]
            exact or_congr_left eq_comm
          · rintro fault ⟨deaf, named⟩
            exact ⟨fun all => deaf fun other member => still.mpr (all other (List.mem_cons_of_mem _ member)), named⟩
        · rintro fault ⟨deaf, named⟩
          exact ⟨fun all => deaf (all timer (List.mem_cons_self ..)), named⟩
      · rename_i waits
        have due : dueTimers (timer :: rest) = [] :=
          List.takeWhile_cons_of_neg (by rw [decide_eq_true_iff]; exact waits)
        have later : laterTimers (timer :: rest) = timer :: rest :=
          List.dropWhile_cons_of_neg (by rw [decide_eq_true_iff]; exact waits)
        rw [due, later]
        refine ⟨fun _ member => absurd member List.not_mem_nil, Woke.refl ?_, here⟩
        rintro proc ⟨other, member, _⟩
        cases member

/-- A tick, from any list of sound deltas. -/
theorem runTimerList_meets (sound : (deltas sched.timerList).Sound) :
    Meets runTimerList sched
      (firing sched (dueTimers (closer sched.timerList)) (laterTimers (closer sched.timerList))) := by
  have counted : Meets (countDown sched.timerList) sched
      (firing sched (dueTimers (closer sched.timerList)) (laterTimers (closer sched.timerList))) := by
    cases list : sched.timerList with
    | nil =>
        refine ⟨nofun, Woke.refl ?_, list⟩
        rintro proc ⟨timer, member, _⟩
        cases member
    | cons timer rest =>
        rw [list] at sound
        have positive := sound.head (timer.address, timer.expires) rfl
        dsimp only at positive
        unfold countDown
        simp only [meets_bind, meets_assert, meets_modify]
        refine ⟨fun _ => ?_, fun zero => absurd (not_not.mp zero) (by omega)⟩
        have here : Sched.timerList { sched with timerList := closer (timer :: rest) } = closer (timer :: rest) := rfl
        refine (fireLoop_meets here).mono ?_
          (fun _ _ failed => failed) ?_
        · rintro _ after ⟨wakeable, woke, left⟩
          exact ⟨fun other member => ⟨(wakeable other member).interrupted, (wakeable other member).alive,
            (wakeable other member).absent⟩, ⟨woke.current, woke.idleproc, woke.same, woke.woken, woke.queued⟩, left⟩
        · rintro fault ⟨deaf, named⟩
          exact ⟨fun all => deaf fun other member => ⟨(all other member).interrupted, (all other member).alive,
            (all other member).absent⟩, named⟩
  unfold runTimerList
  simp only [meets_bind, meets_get]
  refine counted.mono ?_ (fun _ _ failed => failed) (fun _ stopped => stopped)
  rintro _ after ⟨wakeable, woke, left⟩
  refine schedClassProcTick_meets fun task ticked => ⟨wakeable, ?_, left⟩
  have state : forall proc, ((after.setTask sched.current task).task proc).state = (after.task proc).state := by
    intro proc
    unfold Sched.setTask
    dsimp only
    by_cases here : proc = sched.current
    · rw [here, Function.update_self, ticked.1]
    · rw [Function.update_of_ne here]
  have waitState : forall proc, ((after.setTask sched.current task).task proc).waitState =
    (after.task proc).waitState := by
    intro proc
    unfold Sched.setTask
    dsimp only
    by_cases here : proc = sched.current
    · rw [here, Function.update_self, ticked.2.1]
    · rw [Function.update_of_ne here]
  refine ⟨woke.current, woke.idleproc, fun proc => ?_, fun proc => ?_, woke.queued⟩
  · rw [state, waitState]
    exact woke.same proc
  · rw [state, waitState]
    exact woke.woken proc

/-- The timers that a tick fires are those that have one tick left. -/
theorem mem_due (sound : (deltas sched.timerList).Sound) {key : Nat × Nat} :
    key ∈ (dueTimers (closer sched.timerList)).map Timer.key <->
      key ∈ sched.timerList.map Timer.key /\ sched.remaining key.1 = some 1 := by
  have addresses : forall timers : List Timer, (timers.map Timer.key).map Prod.fst = timers.map Timer.address := by
    intro timers
    rw [List.map_map]
    rfl
  have ripe : forall address, address ∈ (dueTimers (closer sched.timerList)).map Timer.address <->
      sched.remaining address = some 1 := by
    intro address
    rw [← keys_deltas, deltas_dueTimers, deltas_closer]
    exact sound.mem_tick
  have front : forall entry, entry ∈ (dueTimers (closer sched.timerList)).map Timer.key ->
      entry ∈ sched.timerList.map Timer.key := by
    intro entry member
    rw [← keys_closer]
    exact (List.takeWhile_sublist _).map Timer.key |>.subset member
  constructor
  · intro member
    refine ⟨front key member, (ripe key.1).mp ?_⟩
    rw [← addresses]
    exact List.mem_map_of_mem member
  · rintro ⟨listed, one⟩
    have due := (ripe key.1).mpr one
    rw [← addresses] at due
    rcases List.mem_map.mp due with ⟨entry, member, same⟩
    have once := sound.once
    rw [keys_deltas, ← addresses] at once
    rw [← List.inj_on_of_nodup_map once (front entry member) listed same]
    exact member

end Firing

end Scheduler
end Ucore
