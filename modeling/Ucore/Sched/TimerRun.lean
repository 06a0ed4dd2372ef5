import Ucore.Library.Run
import Ucore.Sched.Timer

namespace Ucore
namespace Scheduler

open Library
open Program

/-!
# Runs of timer calls

Timers are added and deleted in any order, between calls of `run_timer_list`
and changes of everything but the timer list.  What is left of a timer that
no call names is then the ticks up to the one in which it fires.
-/

/-! ## Calls -/

/-- A call on the timers, or a change elsewhere. -/
inductive TimerCall where
  | add (timer : Timer)
  | del (address : Nat)
  | tick
  | other (elsewhere : Sched)

/-- One call of `run_timer_list`, by the states around it. -/
structure Tick where
  before : Sched
  after : Sched

/-- The timer is on the list before the tick and not after it. -/
def Tick.Fires (tick : Tick) (address : Nat) : Prop :=
  address ∈ tick.before.timerList.map Timer.address /\ address ∉ tick.after.timerList.map Timer.address

/-- The processes whose timers fire. -/
def Tick.Rouses (tick : Tick) (proc : Nat) : Prop :=
  Exists fun timer => timer ∈ tick.before.timerList /\ timer.proc = proc /\ tick.Fires timer.address

namespace TimerCall

/-- The call adds or deletes the timer. -/
def Names (address : Nat) : TimerCall -> Prop
  | add timer => timer.address = address
  | del deleted => deleted = address
  | tick => False
  | other .. => False

def isTick : TimerCall -> Bool
  | add _ => false
  | del _ => false
  | tick => true
  | other _ => false

def program : TimerCall -> Call Unit
  | add timer => addTimer timer
  | del address => delTimer address
  | tick => runTimerList
  | other elsewhere => modify (fun sched => { elsewhere with timerList := sched.timerList })

/-- What the code asks of a call.  A timer is added once and with ticks to wait,
and a tick finds no timer due whose process must not be woken.  The first is
asserted by `add_timer`, the second by `wakeup_proc` and `run_timer_list`. -/
def Allowed : TimerCall -> Sched -> Prop
  | add timer, sched => timer.expires > 0 /\ timer.address ∉ sched.timerList.map Timer.address
  | del _, _ => True
  | tick, sched => forall timer, timer ∈ sched.timerList -> sched.remaining timer.address = some 1 ->
      sched.Wakeable timer.proc
  | other _, _ => True

/-- The assertions of a call that can fail. -/
def faults : TimerCall -> List Fault
  | add _ => [.assertion "timer->expires > 0 && timer->proc != NULL", .assertion "list_empty(&(timer->timer_link))"]
  | del _ => []
  | tick => wakeFaults
  | other _ => []

/-- What is left of a timer after a call. -/
def leaves (call : TimerCall) (remaining : Nat -> Option Int) (address : Nat) : Option Int :=
  match call with
  | add timer => if address = timer.address then some timer.expires else remaining address
  | del deleted => if address = deleted then none else remaining address
  | tick => if remaining address = some 1 then none else (remaining address).map (fun left => left - 1)
  | other .. => remaining address

end TimerCall

/-- The scheduler with the ticks so far. -/
structure TimerHistory where
  sched : Sched
  ticks : List Tick

/-- Record a call. -/
def TimerHistory.after (history : TimerHistory) (call : TimerCall) (sched : Sched) : TimerHistory :=
  ⟨sched, if call.isTick then history.ticks ++ [⟨history.sched, sched⟩] else history.ticks⟩

/-- One call after the other; none leads on that stops the machine. -/
def timerMachine : Machine TimerHistory TimerCall where
  step history call := (call.program history.sched).state.map (history.after call)

/-- The deltas are sound, and what is left of a timer fits an `unsigned int`
when the timers were set so. -/
structure Sched.Timed (fits : Prop) (sched : Sched) : Prop where
  sound : (deltas sched.timerList).Sound
  fits : fits -> forall address left, sched.remaining address = some left -> left < 2 ^ 32

/-- What a call does: to the ticks that are left of each timer, to the keys on
the list, and, for a tick, to the processes whose timers fire. -/
structure TimerCall.Effect (call : TimerCall) (fits : Prop) (sched after : Sched) : Prop where
  timed : after.Timed fits
  remaining : after.remaining = call.leaves sched.remaining
  keys : forall key, key ∈ after.timerList.map Timer.key ->
    key ∈ sched.timerList.map Timer.key \/ Exists fun timer => call = .add timer /\ timer.key = key
  tick : call = .tick -> Woke (Tick.Rouses ⟨sched, after⟩) sched after

section Calls

variable {sched : Sched} {fits : Prop}

theorem mem_keys {address : Nat} :
    address ∈ sched.timerList.map Timer.address <-> sched.remaining address ≠ none := by
  unfold Sched.remaining
  rw [Ne, DeltaList.due_eq_none, not_not, keys_deltas]

theorem Tick.fires_iff {sched after : Sched} (remaining : after.remaining = TimerCall.tick.leaves sched.remaining)
    (address : Nat) : Tick.Fires ⟨sched, after⟩ address <-> sched.remaining address = some 1 := by
  unfold Tick.Fires
  rw [mem_keys, mem_keys, not_not, remaining]
  unfold TimerCall.leaves
  cases wait : sched.remaining address with
  | none => simp
  | some ticks => by_cases one : ticks = 1 <;> simp [one]

theorem mem_insertTimer {timer : Timer} {timers : List Timer} {key : Nat × Nat} :
    key ∈ (insertTimer timer timers).map Timer.key <-> key = timer.key \/ key ∈ timers.map Timer.key := by
  induction timers generalizing timer with
  | nil =>
      rw [insertTimer, List.map_singleton, List.mem_singleton]
      exact ⟨.inl, fun either => either.resolve_right List.not_mem_nil⟩
  | cons next rest inductionHypothesis =>
      rw [insertTimer]
      split
      · rw [List.map_cons, List.map_cons, List.map_cons, List.mem_cons]
        rfl
      · rw [List.map_cons, List.map_cons, List.mem_cons, List.mem_cons, inductionHypothesis]
        exact or_left_comm

theorem mem_removeTimer {address : Nat} {timers : List Timer} {key : Nat × Nat}
    (member : key ∈ (removeTimer address timers).map Timer.key) : key ∈ timers.map Timer.key := by
  induction timers with
  | nil => exact member
  | cons timer rest inductionHypothesis =>
      have passed : (passOn timer.expires rest).map Timer.key = rest.map Timer.key := by
        cases rest <;> rfl
      rw [removeTimer] at member
      split at member
      · split at member
        · rw [passed] at member
          exact List.mem_cons_of_mem _ member
        · exact List.mem_cons_of_mem _ member
      · rcases List.mem_cons.mp member with rfl | later
        · exact List.mem_cons_self ..
        · exact List.mem_cons_of_mem _ (inductionHypothesis later)

theorem addTimer_effect {timer : Timer} (timed : sched.Timed fits) (small : fits -> timer.expires < 2 ^ 32) :
    Meets (addTimer timer) sched
      ⟨fun _ after => (TimerCall.add timer).Allowed sched /\ (TimerCall.add timer).Effect fits sched after,
        fun _ _ => False,
        fun fault => ¬ (TimerCall.add timer).Allowed sched /\ fault ∈ (TimerCall.add timer).faults⟩ := by
  unfold addTimer
  simp only [meets_bind, meets_assert, meets_get, meets_modify]
  refine ⟨fun positive => ⟨fun absent => ⟨⟨positive, absent⟩, ?_⟩, fun listed => ?_⟩, fun late => ?_⟩
  · have fresh := absent
    rw [← keys_deltas] at fresh
    have remaining : Sched.remaining { sched with timerList := insertTimer timer sched.timerList } =
        (TimerCall.add timer).leaves sched.remaining := by
      funext address
      unfold Sched.remaining
      dsimp only
      rw [deltas_insertTimer, DeltaList.due_insert fresh]
      rfl
    refine ⟨⟨?_, ?_⟩, remaining, ?_, fun other => TimerCall.noConfusion other⟩
    · dsimp only
      rw [deltas_insertTimer]
      exact timed.sound.insert fresh positive
    · intro all address left
      rw [remaining]
      unfold TimerCall.leaves
      dsimp only
      split
      · exact fun same => Option.some.inj same ▸ small all
      · exact timed.fits all address left
    · intro key member
      exact (mem_insertTimer.mp member).symm.imp_right fun same => ⟨timer, rfl, same.symm⟩
  · exact ⟨fun allowed => listed allowed.2, List.mem_cons_of_mem _ (List.mem_cons_self ..)⟩
  · exact ⟨fun allowed => late allowed.1, List.mem_cons_self ..⟩

theorem delTimer_effect {address : Nat} (timed : sched.Timed fits) :
    Meets (delTimer address) sched
      ⟨fun _ after => (TimerCall.del address).Effect fits sched after, fun _ _ => False, fun _ => False⟩ := by
  unfold delTimer
  rw [meets_modify]
  have remaining : Sched.remaining { sched with timerList := removeTimer address sched.timerList } =
      (TimerCall.del address).leaves sched.remaining := by
    funext other
    unfold Sched.remaining
    dsimp only
    rw [deltas_removeTimer, DeltaList.due_erase timed.sound.once]
    rfl
  refine ⟨⟨?_, ?_⟩, remaining, fun key member => .inl (mem_removeTimer member),
    fun other => TimerCall.noConfusion other⟩
  · dsimp only
    rw [deltas_removeTimer]
    exact timed.sound.erase address
  · intro all other left
    rw [remaining]
    unfold TimerCall.leaves
    dsimp only
    split
    · rintro ⟨⟩
    · exact timed.fits all other left

theorem runTimerList_effect (timed : sched.Timed fits) :
    Meets runTimerList sched
      ⟨fun _ after => TimerCall.tick.Allowed sched /\ TimerCall.tick.Effect fits sched after, fun _ _ => False,
        fun fault => ¬ TimerCall.tick.Allowed sched /\ fault ∈ wakeFaults⟩ := by
  have due {timer : Timer} (member : timer ∈ sched.timerList) (one : sched.remaining timer.address = some 1) :
      Exists fun other => other ∈ dueTimers (closer sched.timerList) /\ other.proc = timer.proc := by
    rcases List.mem_map.mp ((mem_due timed.sound).mpr ⟨List.mem_map_of_mem member, one⟩) with ⟨other, there, same⟩
    exact ⟨other, there, congrArg Prod.snd same⟩
  have listed {timer : Timer} (member : timer ∈ dueTimers (closer sched.timerList)) :
      Exists fun other => other ∈ sched.timerList /\ other.proc = timer.proc /\
        sched.remaining other.address = some 1 := by
    rcases (mem_due timed.sound).mp (List.mem_map_of_mem member) with ⟨there, one⟩
    rcases List.mem_map.mp there with ⟨other, member, same⟩
    exact ⟨other, member, congrArg Prod.snd same, (congrArg (fun key => sched.remaining key.1) same).trans one⟩
  refine (runTimerList_meets timed.sound).mono ?_ (fun _ _ failed => failed) ?_
  · rintro _ after ⟨wakeable, woke, left⟩
    have unripe : deltas after.timerList = (deltas sched.timerList).approach.unripe := by
      rw [left, deltas_laterTimers, deltas_closer]
    have remaining : after.remaining = TimerCall.tick.leaves sched.remaining := by
      funext address
      unfold Sched.remaining
      rw [unripe, timed.sound.due_tick]
      rfl
    have fires (address : Nat) := Tick.fires_iff remaining address
    refine ⟨fun timer member one => ?_, ⟨?_, ?_⟩, remaining, fun key member => .inl ?_, fun _ => woke.mono fun proc =>
      ?_⟩
    · rcases due member one with ⟨other, there, same⟩
      exact same ▸ wakeable other there
    · rw [unripe]
      exact timed.sound.tick
    · intro all address left
      rw [remaining]
      unfold TimerCall.leaves
      dsimp only
      split
      · rintro ⟨⟩
      · intro next
        rcases Option.map_eq_some_iff.mp next with ⟨now, waits, rfl⟩
        have small := timed.fits all address now waits
        omega
    · rw [left] at member
      rw [← keys_closer]
      exact ((List.dropWhile_sublist _).map Timer.key).subset member
    · constructor
      · rintro ⟨timer, member, rfl, fired⟩
        exact due member ((fires timer.address).mp fired)
      · rintro ⟨timer, member, rfl⟩
        rcases listed member with ⟨other, there, same, one⟩
        exact ⟨other, there, same, (fires other.address).mpr one⟩
  · rintro fault ⟨deaf, named⟩
    refine ⟨fun allowed => deaf fun timer member => ?_, named⟩
    rcases listed member with ⟨other, there, same, one⟩
    exact same ▸ allowed other there one

/-- Every call that the code allows has its effect, and every other one fails
an assertion. -/
theorem TimerCall.program_effect (call : TimerCall) (timed : sched.Timed fits)
    (small : forall timer, call = .add timer -> fits -> timer.expires < 2 ^ 32) :
    Meets call.program sched
      ⟨fun _ after => call.Allowed sched /\ call.Effect fits sched after, fun _ _ => False,
        fun fault => ¬ call.Allowed sched /\ fault ∈ call.faults⟩ := by
  cases call with
  | add timer => exact addTimer_effect timed (small timer rfl)
  | del address =>
      exact (delTimer_effect timed).mono (fun _ _ effect => ⟨trivial, effect⟩) (fun _ _ failed => failed)
        (fun _ stopped => stopped.elim)
  | tick => exact runTimerList_effect timed
  | other elsewhere =>
      exact ⟨trivial, ⟨timed.sound, timed.fits⟩, rfl, fun _ member => .inl member,
        fun tick => TimerCall.noConfusion tick⟩

/-- A step is a call that the code allows, with its effect. -/
theorem timerMachine_step {history next : TimerHistory} {call : TimerCall} (timed : history.sched.Timed fits)
    (small : forall timer, call = .add timer -> fits -> timer.expires < 2 ^ 32)
    (stepped : timerMachine.step history call = some next) :
    call.Allowed history.sched /\ call.Effect fits history.sched next.sched /\
      next = history.after call next.sched := by
  have meets := call.program_effect timed small
  unfold Meets at meets
  change (call.program history.sched).state.map (history.after call) = some next at stepped
  cases outcome : call.program history.sched with
  | done value after =>
      rw [outcome] at meets stepped
      cases stepped
      exact ⟨meets.1, meets.2, rfl⟩
  | fail error after =>
      rw [outcome] at meets
      exact meets.elim
  | stop fault =>
      rw [outcome] at stepped
      cases stepped

theorem timerMachine_returns {history : TimerHistory} {call : TimerCall} (timed : history.sched.Timed fits)
    (small : forall timer, call = .add timer -> fits -> timer.expires < 2 ^ 32) :
    ((timerMachine.step history call).isSome <-> call.Allowed history.sched) /\
      forall fault, call.program history.sched = .stop fault -> fault ∈ call.faults := by
  have meets := call.program_effect timed small
  unfold Meets at meets
  change (((call.program history.sched).state.map (history.after call)).isSome <-> _) /\ _
  cases outcome : call.program history.sched with
  | done value after =>
      rw [outcome] at meets
      exact ⟨⟨fun _ => meets.1, fun _ => rfl⟩, nofun⟩
  | fail error after =>
      rw [outcome] at meets
      exact meets.elim
  | stop fault =>
      rw [outcome] at meets
      refine ⟨⟨nofun, fun allowed => absurd allowed meets.1⟩, ?_⟩
      rintro other ⟨⟩
      exact meets.2

end Calls

/-- What the ticks of some calls do, from a state on.  There is one for every
call of `run_timer_list`, and each wakes the processes of the timers that fire
in it and no other.  A timer that no call names fires when its ticks have run
out, for the process that it was set for. -/
structure Ticks (sched : Sched) (calls : List TimerCall) (ticks : List Tick) : Prop where
  count : ticks.length = (calls.filter TimerCall.isTick).length
  woke : forall tick, tick ∈ ticks -> Woke tick.Rouses tick.before tick.after
  fires : forall address, (forall call, call ∈ calls -> ¬ call.Names address) ->
    forall (later : Nat) (tick : Tick), ticks[later]? = some tick ->
      (tick.Fires address <-> sched.remaining address = some ((later : Int) + 1))
  rouses : forall address proc, (forall call, call ∈ calls -> ¬ call.Names address) ->
    (forall timer, timer ∈ sched.timerList -> timer.address = address -> timer.proc = proc) ->
    forall tick, tick ∈ ticks -> tick.Fires address -> tick.Rouses proc

/-! ## Runs -/

section Run

variable {fits : Prop}

/-- A call that does not name a timer takes one tick off what it has left if
it is a tick, and nothing otherwise. -/
theorem TimerCall.leaves_of_not_names {call : TimerCall} {remaining : Nat -> Option Int} {address : Nat}
    (apart : ¬ call.Names address) :
    call.leaves remaining address = if call.isTick then
        if remaining address = some 1 then none else (remaining address).map (fun left => left - 1)
      else remaining address := by
  cases call with
  | add timer => exact if_neg fun here => apart here.symm
  | del other => exact if_neg fun here => apart here.symm
  | tick => rfl
  | other elsewhere => rfl

/-- The ticks of some calls, with one call more before them. -/
theorem Ticks.cons {call : TimerCall} {calls : List TimerCall} {sched after : Sched} {ticks : List Tick}
    (effect : call.Effect fits sched after) (rest : Ticks after calls ticks) :
    Ticks sched (call :: calls) (if call.isTick then ⟨sched, after⟩ :: ticks else ticks) := by
  have owned {address proc : Nat} (apart : ¬ call.Names address)
      (own : forall timer, timer ∈ sched.timerList -> timer.address = address -> timer.proc = proc) :
      forall timer, timer ∈ after.timerList -> timer.address = address -> timer.proc = proc := by
    rintro timer member rfl
    rcases effect.keys timer.key (List.mem_map_of_mem member) with old | ⟨added, rfl, same⟩
    · rcases List.mem_map.mp old with ⟨other, there, same⟩
      exact (congrArg Prod.snd same).symm.trans (own other there (congrArg Prod.fst same))
    · exact absurd (congrArg Prod.fst same) apart
  have onward {address : Nat} (apart : ¬ call.Names address) :=
    (congrFun effect.remaining address).trans (TimerCall.leaves_of_not_names apart)
  cases counted : call.isTick with
  | false =>
      constructor
      · rw [List.filter_cons_of_neg (by rw [counted]; exact nofun)]
        exact rest.count
      · exact rest.woke
      · intro address untouched later tick there
        have same := onward (untouched call (List.mem_cons_self ..))
        rw [counted, if_neg Bool.false_ne_true] at same
        rw [← same]
        exact rest.fires address (fun other member => untouched other (List.mem_cons_of_mem _ member)) later tick there
      · intro address proc untouched own
        exact rest.rouses address proc (fun other member => untouched other (List.mem_cons_of_mem _ member))
          (owned (untouched call (List.mem_cons_self ..)) own)
  | true =>
      have tick : call = .tick := by
        cases call <;> first | rfl | cases counted
      subst tick
      have first := Tick.fires_iff effect.remaining
      constructor
      · rw [List.filter_cons_of_pos counted]
        exact congrArg Nat.succ rest.count
      · exact List.forall_mem_cons.mpr ⟨effect.tick rfl, rest.woke⟩
      · intro address untouched later tick there
        cases later with
        | zero =>
            cases there
            exact first address
        | succ later =>
            rw [rest.fires address (fun other member => untouched other (List.mem_cons_of_mem _ member)) later tick
              there,
              onward (untouched .tick (List.mem_cons_self ..)), if_pos counted]
            cases left : sched.remaining address with
            | none => simp
            | some wait =>
                by_cases one : wait = 1
                · rw [if_pos (congrArg some one), one]
                  simp only [reduceCtorEq, Option.some.injEq, false_iff]
                  omega
                · rw [if_neg fun same => one (Option.some.inj same)]
                  simp only [Option.map_some, Option.some.injEq]
                  omega
      · intro address proc untouched own
        refine List.forall_mem_cons.mpr ⟨fun fired => ?_, rest.rouses address proc
          (fun other member => untouched other (List.mem_cons_of_mem _ member))
          (owned (untouched .tick (List.mem_cons_self ..)) own)⟩
        rcases List.mem_map.mp fired.1 with ⟨timer, member, here⟩
        exact ⟨timer, member, own timer member here, here.symm ▸ fired⟩

/-- Every run keeps the deltas sound, and its ticks are those of its calls. -/
theorem timerMachine_run {calls : List TimerCall} {history last : TimerHistory} (timed : history.sched.Timed fits)
    (small : forall timer, .add timer ∈ calls -> fits -> timer.expires < 2 ^ 32)
    (ran : timerMachine.run history calls = some last) :
    last.sched.Timed fits /\ Exists fun ticks => last.ticks = history.ticks ++ ticks /\
      Ticks history.sched calls ticks := by
  induction calls generalizing history with
  | nil =>
      cases ran
      exact ⟨timed, [], (List.append_nil _).symm, rfl, nofun, nofun, nofun⟩
  | cons call rest inductionHypothesis =>
      rw [Machine.run_cons] at ran
      rcases Option.bind_eq_some_iff.mp ran with ⟨next, stepped, later⟩
      rcases timerMachine_step timed (fun timer same => small timer (same ▸ List.mem_cons_self ..)) stepped with
        ⟨_, effect, logged⟩
      rcases inductionHypothesis effect.timed (fun timer member => small timer (List.mem_cons_of_mem _ member))
        later with
        ⟨kept, ticks, log, holds⟩
      refine ⟨kept, _, ?_, holds.cons effect⟩
      rw [log, logged]
      unfold TimerHistory.after
      dsimp only
      split
      · exact List.append_assoc ..
      · rfl

/-- What a run does after a call that is no tick. -/
theorem timerMachine_run_split {before after : List TimerCall} {call : TimerCall} {history last : TimerHistory}
    (timed : history.sched.Timed False) (quiet : call.isTick = false) (none : history.ticks = [])
    (ran : timerMachine.run history (before ++ call :: after) = some last) :
    Exists fun sched => Exists fun next => Exists fun ticks =>
      call.Allowed sched /\ call.Effect False sched next /\ Ticks next after ticks /\
      forall later : Nat, last.ticks[(before.filter TimerCall.isTick).length + later]? = ticks[later]? := by
  have small {calls : List TimerCall} : forall timer, .add timer ∈ calls -> False -> timer.expires < 2 ^ 32 :=
    fun _ _ impossible => impossible.elim
  rw [Machine.run_append] at ran
  rcases Option.bind_eq_some_iff.mp ran with ⟨middle, early, onward⟩
  rw [Machine.run_cons] at onward
  rcases Option.bind_eq_some_iff.mp onward with ⟨next, stepped, late⟩
  rcases timerMachine_run timed small early with ⟨kept, first, log, ticks⟩
  rcases timerMachine_step kept (fun _ _ impossible => impossible.elim) stepped with
    ⟨allowed, effect, logged⟩
  rcases timerMachine_run effect.timed small late with ⟨_, second, whole, ticksLate⟩
  refine ⟨middle.sched, next.sched, second, allowed, effect, ticksLate, fun later => ?_⟩
  have same : next.ticks = first := by
    rw [logged]
    unfold TimerHistory.after
    rw [quiet, log, none]
    rfl
  rw [whole, same, ← ticks.count, List.getElem?_append_right (Nat.le_add_right ..), Nat.add_sub_cancel_left]

end Run

/-! ## Results -/

/-- The stored deltas are not negative, and the first is positive; none is
more than an `unsigned int` when the timers were set so. -/
structure Sched.Ordered (sched : Sched) (calls : List TimerCall) : Prop where
  nonneg : forall timer, timer ∈ sched.timerList -> 0 <= timer.expires
  head : forall timer, sched.timerList.head? = some timer -> 0 < timer.expires
  fits : (forall timer, .add timer ∈ calls -> timer.expires < 2 ^ 32) ->
    forall timer, timer ∈ sched.timerList -> timer.expires < 2 ^ 32

/-- No delta is more than what is left. -/
theorem delta_le_due {list : DeltaList Nat} (nonneg : forall entry, entry ∈ list -> 0 <= entry.2)
    (once : list.keys.Nodup)
    {entry : Nat × Int} (member : entry ∈ list) : Exists fun left => list.due entry.1 = some left /\
      entry.2 <= left := by
  induction list with
  | nil => cases member
  | cons first rest inductionHypothesis =>
      have apart := List.nodup_cons.mp once
      rw [DeltaList.due]
      rcases List.mem_cons.mp member with rfl | later
      · exact ⟨entry.2, if_pos rfl, Int.le_refl _⟩
      · have here := nonneg first (List.mem_cons_self ..)
        have other : entry.1 ≠ first.1 := fun same => apart.1 (same ▸ List.mem_map_of_mem later)
        rcases inductionHypothesis (fun other member => nonneg other (List.mem_cons_of_mem _ member)) apart.2 later with
          ⟨left, due, below⟩
        rw [if_neg other, due]
        exact ⟨first.2 + left, rfl, by omega⟩

theorem Sched.Timed.ordered {sched : Sched} {calls : List TimerCall}
    (timed : sched.Timed (forall timer, .add timer ∈ calls -> timer.expires < 2 ^ 32)) : sched.Ordered calls where
  nonneg := fun timer member => timed.sound.nonneg (timer.address, timer.expires) (List.mem_map_of_mem member)
  head := by
    intro timer first
    apply timed.sound.head (timer.address, timer.expires)
    unfold deltas
    rw [List.head?_map, first]
    rfl
  fits := by
    intro all timer member
    have entry : (timer.address, timer.expires) ∈ deltas sched.timerList := List.mem_map_of_mem member
    rcases delta_le_due timed.sound.nonneg timed.sound.once entry with ⟨left, due, below⟩
    have small := timed.fits all timer.address left due
    dsimp only at below
    omega

/-- In every run from `sched_init` the deltas stay ordered, a call returns
exactly if the code allows it and no call stops in `timer->expires != 0`.  The
ticks wake the processes of the timers that fire in them and no other.  A timer
that is added fires once, in the tick that it was set to, unless it is added or
deleted again before, and a timer that is deleted does not fire. -/
theorem timers_fire_on_time (sched start : Sched) (calls : List TimerCall) (last : TimerHistory)
    (booted : schedInit sched = .done () start) (ran : timerMachine.run ⟨start, []⟩ calls = some last) :
    last.sched.Ordered calls /\
    (forall call, ((timerMachine.step last call).isSome <-> call.Allowed last.sched) /\
      forall fault, call.program last.sched = .stop fault -> fault ∈ call.faults) /\
    last.ticks.length = (calls.filter TimerCall.isTick).length /\
    (forall tick, tick ∈ last.ticks -> Woke tick.Rouses tick.before tick.after) /\
    (forall before timer after, calls = before ++ .add timer :: after ->
      (forall call, call ∈ after -> ¬ call.Names timer.address) ->
      forall (later : Nat) (tick : Tick), last.ticks[(before.filter TimerCall.isTick).length + later]? = some tick ->
        (tick.Fires timer.address <-> timer.expires = (later : Int) + 1) /\
          (tick.Fires timer.address -> tick.Rouses timer.proc)) /\
    forall before address after, calls = before ++ .del address :: after ->
      (forall call, call ∈ after -> ¬ call.Names address) ->
      forall (later : Nat) (tick : Tick), last.ticks[(before.filter TimerCall.isTick).length + later]? = some tick ->
        ¬ tick.Fires address := by
  have fresh : forall fits, start.Timed fits := by
    intro fits
    cases booted
    constructor
    · exact ⟨List.nodup_nil, fun _ member => (nomatch member), fun _ first => (nomatch first)⟩
    · rintro _ address left ⟨⟩
  rcases timerMachine_run (fresh (forall timer, .add timer ∈ calls -> timer.expires < 2 ^ 32))
    (fun timer member all => all timer member) ran with ⟨timed, ticks, log, holds⟩
  rw [List.nil_append] at log
  rw [log]
  refine ⟨timed.ordered, fun call => ?_, holds.count, holds.woke, ?_, ?_⟩
  · have kept := (timerMachine_run (fresh False) (fun _ _ impossible => impossible.elim) ran).1
    exact timerMachine_returns kept fun _ _ impossible => impossible.elim
  · rintro before timer after rfl untouched later tick there
    rcases timerMachine_run_split (fresh False) rfl rfl ran with ⟨middle, next, late, allowed, effect, fires, same⟩
    rw [← log, same] at there
    have left : next.remaining timer.address = some timer.expires :=
      (congrFun effect.remaining timer.address).trans (if_pos rfl)
    refine ⟨?_, fires.rouses timer.address timer.proc untouched ?_ tick (List.mem_of_getElem? there)⟩
    · rw [fires.fires timer.address untouched later tick there, left]
      exact Option.some.injEq .. |>.to_iff
    · intro other member here
      rcases effect.keys other.key (List.mem_map_of_mem member) with old | ⟨added, same, key⟩
      · rcases List.mem_map.mp old with ⟨earlier, listed, key⟩
        have address : earlier.address = timer.address := (congrArg Prod.fst key).trans here
        exact absurd (address ▸ List.mem_map_of_mem listed) allowed.2
      · cases same
        exact (congrArg Prod.snd key).symm
  · rintro before address after rfl untouched later tick there
    rcases timerMachine_run_split (fresh False) rfl rfl ran with ⟨middle, next, late, allowed, effect, fires, same⟩
    rw [← log, same] at there
    rw [fires.fires address untouched later tick there, congrFun effect.remaining address]
    exact (if_pos rfl).trans_ne (Option.some_ne_none _).symm

/-- A process that sleeps on a timer -/
def sleeper : Task := ⟨.sleeping, wtTimer, false, 0, 0, false⟩

/-- Process 9 runs, 0 is idle, all others sleep. -/
def asleep : Sched :=
  { task := fun proc => if proc = 9 then ⟨.runnable, 0, false, 1, 5, true⟩ else sleeper
    current := 9, idleproc := 0, runList := [], procNum := 0, timerList := [], moves := [] }

/-- Timer 12 is due in the first tick, 10 and 11 in the second; 13 is deleted. -/
def fourTimers : List TimerCall :=
  [.add ⟨10, 2, 1⟩, .add ⟨13, 2, 4⟩, .add ⟨11, 2, 2⟩, .add ⟨12, 1, 3⟩, .tick, .del 13, .tick]

theorem fourTimers_fire : Exists fun last => timerMachine.run ⟨asleep, []⟩ fourTimers = some last /\
    last.ticks.length = 2 /\
    (forall tick, last.ticks[1]? = some tick -> tick.Fires 10 /\ tick.Rouses 1 /\
      Woke tick.Rouses tick.before tick.after) /\
    (forall tick, last.ticks[1]? = some tick -> ¬ tick.Fires 13) /\ last.sched.runList = [3, 1, 2] := by
  have runs : (timerMachine.run ⟨asleep, []⟩ fourTimers).isSome := by decide
  have ran := Option.some_get runs
  have results := timers_fire_on_time asleep asleep fourTimers _ rfl ran.symm
  rcases results with ⟨_, _, count, woke, added, deleted⟩
  refine ⟨_, ran.symm, count, fun tick there => ?_, fun tick there => ?_, ?_⟩
  · have fires := added [] ⟨10, 2, 1⟩ _ rfl (by simp [TimerCall.Names]) 1 tick there
    have fired := fires.1.mpr rfl
    exact ⟨fired, fires.2 fired, woke tick (List.mem_of_getElem? there)⟩
  · exact deleted [.add ⟨10, 2, 1⟩, .add ⟨13, 2, 4⟩, .add ⟨11, 2, 2⟩, .add ⟨12, 1, 3⟩, .tick] 13 [.tick] rfl
      (by simp [TimerCall.Names]) 0 tick there
  · rfl

end Scheduler
end Ucore
