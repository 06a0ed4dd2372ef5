import Ucore.Library.Run
import Mathlib.Algebra.BigOperators.Ring.Finset
import Mathlib.Algebra.Order.BigOperators.Group.Finset
import Mathlib.Data.Fintype.Basic
import Mathlib.Data.List.Nodup

namespace Ucore
namespace Library

/-!
# Threads and semaphores

Threads run in any interleaving on shared data and on semaphores.  A thread is
at a point of its code, where it does one thing: change the data, raise a
semaphore, or lower one, which may put it to sleep.  A raised semaphore with
sleeping threads is handed to the first of them and keeps its value; the thread
is then *woken*, and goes on when it is scheduled.

The rules of this theory are an invariant of the wait queues and an account.
Each unit of a semaphore has a worth, whether it is in the value of the
semaphore or under way to a woken thread; so has each point of the code, and
the data together with the numbers of calls.  If each step moves worth without
changing the total, then the total never changes.
-/

/-- What a thread does at a point of its code. -/
inductive Op (Sem Control Data : Type) where
  | down (sem : Sem) (after : Control)
  | up (sem : Sem) (after : Control)
  | act (effect : Data -> Data × Control)

structure Semaphore (Process : Type) where
  value : Int
  waitQueue : List Process

/-- A thread sleeps in a wait queue; it is woken once it is taken out of it. -/
inductive Sleep where
  | awake
  | asleep
  | woken
deriving DecidableEq, Repr

structure Thread (Control : Type) where
  control : Control
  sleep : Sleep
deriving DecidableEq, Repr

/-- The last two fields count the calls on each semaphore that have returned. -/
structure Threads (Process Sem Control Data : Type) where
  data : Data
  sem : Sem -> Semaphore Process
  thread : Process -> Thread Control
  ups : Sem -> Nat
  downs : Sem -> Nat

namespace Threads

variable {Process Sem Control Data : Type} [DecidableEq Process] [DecidableEq Sem]

def setThread (threads : Threads Process Sem Control Data) (process : Process) (control : Control) (sleep : Sleep) :
    Threads Process Sem Control Data :=
  { threads with thread := Function.update threads.thread process ⟨control, sleep⟩ }

def setSem (threads : Threads Process Sem Control Data) (sem : Sem) (semaphore : Semaphore Process) :
    Threads Process Sem Control Data :=
  { threads with sem := Function.update threads.sem sem semaphore }

def countDown (threads : Threads Process Sem Control Data) (sem : Sem) : Threads Process Sem Control Data :=
  { threads with downs := Function.update threads.downs sem (threads.downs sem + 1) }

def countUp (threads : Threads Process Sem Control Data) (sem : Sem) : Threads Process Sem Control Data :=
  { threads with ups := Function.update threads.ups sem (threads.ups sem + 1) }

/-- The thread has a unit of the semaphore and goes on. -/
def proceed (threads : Threads Process Sem Control Data) (process : Process) (sem : Sem) (after : Control) :
    Threads Process Sem Control Data :=
  (threads.setThread process after .awake).countDown sem

def down (threads : Threads Process Sem Control Data) (process : Process) (sem : Sem) (after : Control) :
    Threads Process Sem Control Data :=
  if 0 < (threads.sem sem).value then
    (threads.setSem sem { threads.sem sem with value := (threads.sem sem).value - 1 }).proceed process sem after
  else
    (threads.setSem sem { threads.sem sem with waitQueue := (threads.sem sem).waitQueue ++ [process] }).setThread
      process (threads.thread process).control .asleep

def up (threads : Threads Process Sem Control Data) (process : Process) (sem : Sem) (after : Control) :
    Threads Process Sem Control Data :=
  match (threads.sem sem).waitQueue with
  | [] =>
      ((threads.setSem sem { threads.sem sem with value := (threads.sem sem).value + 1 }).setThread
        process after .awake).countUp sem
  | first :: rest =>
      (((threads.setSem sem { threads.sem sem with waitQueue := rest }).setThread
        first (threads.thread first).control .woken).setThread process after .awake).countUp sem

variable (code : Process -> Control -> Op Sem Control Data)

/-- A step of a thread; one that sleeps has none. -/
def step (threads : Threads Process Sem Control Data) (process : Process) :
    Option (Threads Process Sem Control Data) :=
  match (threads.thread process).sleep, code process (threads.thread process).control with
  | .asleep, _ => none
  | .woken, .down sem after => some (threads.proceed process sem after)
  | .woken, _ => none
  | .awake, .down sem after => some (threads.down process sem after)
  | .awake, .up sem after => some (threads.up process sem after)
  | .awake, .act effect =>
      some ({ threads with data := (effect threads.data).1 }.setThread process (effect threads.data).2 .awake)

def machine : Machine (Threads Process Sem Control Data) Process where
  step := step code

variable {code}

/-- What a step can be. -/
inductive Stepped (code : Process -> Control -> Op Sem Control Data) (threads : Threads Process Sem Control Data)
    (process : Process) : Threads Process Sem Control Data -> Prop where
  | resume (sem : Sem) (after : Control) (sleep : (threads.thread process).sleep = .woken)
      (op : code process (threads.thread process).control = .down sem after) :
      Stepped code threads process (threads.proceed process sem after)
  | take (sem : Sem) (after : Control) (sleep : (threads.thread process).sleep = .awake)
      (op : code process (threads.thread process).control = .down sem after) (positive : 0 < (threads.sem sem).value) :
      Stepped code threads process
        ((threads.setSem sem { threads.sem sem with value := (threads.sem sem).value - 1 }).proceed process sem after)
  | block (sem : Sem) (after : Control) (sleep : (threads.thread process).sleep = .awake)
      (op : code process (threads.thread process).control = .down sem after)
      (empty : ¬ 0 < (threads.sem sem).value) :
      Stepped code threads process
        ((threads.setSem sem { threads.sem sem with waitQueue := (threads.sem sem).waitQueue ++ [process] }).setThread
          process (threads.thread process).control .asleep)
  | raise (sem : Sem) (after : Control) (sleep : (threads.thread process).sleep = .awake)
      (op : code process (threads.thread process).control = .up sem after)
      (alone : (threads.sem sem).waitQueue = []) :
      Stepped code threads process
        (((threads.setSem sem { threads.sem sem with value := (threads.sem sem).value + 1 }).setThread
          process after .awake).countUp sem)
  | hand (sem : Sem) (after : Control) (first : Process) (rest : List Process)
      (sleep : (threads.thread process).sleep = .awake)
      (op : code process (threads.thread process).control = .up sem after)
      (waiting : (threads.sem sem).waitQueue = first :: rest) :
      Stepped code threads process
        ((((threads.setSem sem { threads.sem sem with waitQueue := rest }).setThread
          first (threads.thread first).control .woken).setThread process after .awake).countUp sem)
  | act (effect : Data -> Data × Control) (sleep : (threads.thread process).sleep = .awake)
      (op : code process (threads.thread process).control = .act effect) :
      Stepped code threads process
        ({ threads with data := (effect threads.data).1 }.setThread process (effect threads.data).2 .awake)

theorem stepped {threads next : Threads Process Sem Control Data} {process : Process}
    (ran : step code threads process = some next) : Stepped code threads process next := by
  unfold step at ran
  cases sleep : (threads.thread process).sleep <;> cases op : code process (threads.thread process).control <;>
    simp only [sleep, op, Option.some.injEq, reduceCtorEq] at ran <;> subst ran
  case awake.down sem after =>
    unfold down
    split
    · rename_i positive
      exact .take sem after sleep op positive
    · rename_i empty
      exact .block sem after sleep op empty
  case awake.up sem after =>
    unfold up
    split
    · rename_i alone
      exact .raise sem after sleep op alone
    · rename_i first rest waiting
      exact .hand sem after first rest sleep op waiting
  case awake.act effect => exact .act effect sleep op
  case woken.down sem after => exact .resume sem after sleep op

/-- The points of the code of the other threads stay. -/
theorem step_other {threads next : Threads Process Sem Control Data} {process other : Process}
    (ran : step code threads process = some next) (different : other ≠ process) :
    (next.thread other).control = (threads.thread other).control := by
  cases stepped ran with
  | hand sem after first rest sleep op waiting =>
      change (Function.update (Function.update threads.thread first _) process _ other).control = _
      rw [Function.update_of_ne different]
      by_cases same : other = first
      · rw [same, Function.update_self]
      · rw [Function.update_of_ne same]
  | _ => exact congrArg Thread.control (Function.update_of_ne different _ _)

theorem step_self {threads next : Threads Process Sem Control Data} {process : Process}
    (ran : step code threads process = some next) :
    match code process (threads.thread process).control with
    | .down _ after =>
        (next.thread process).control = after \/ (next.thread process).control = (threads.thread process).control
    | .up _ after => (next.thread process).control = after
    | .act effect => (next.thread process).control = (effect threads.data).2 := by
  cases stepped ran with
  | resume sem after sleep op => simp [op, proceed, setThread, Threads.countDown]
  | take sem after sleep op positive => simp [op, proceed, setThread, Threads.countDown]
  | block sem after sleep op empty => simp [op, setThread]
  | raise sem after sleep op alone => simp [op, setThread, Threads.countUp]
  | hand sem after first rest sleep op waiting => simp [op, setThread, Threads.countUp]
  | act effect sleep op => simp [op, setThread]

/-- Only a thread at an `act` changes the data. -/
theorem step_data {threads next : Threads Process Sem Control Data} {process : Process}
    (ran : step code threads process = some next)
    (other : forall effect, code process (threads.thread process).control ≠ .act effect) :
    next.data = threads.data := by
  cases stepped ran with
  | act effect sleep op => exact absurd op (other effect)
  | _ => rfl

/-- Where a thread goes from an `act`. -/
theorem step_act {threads next : Threads Process Sem Control Data} {process : Process} {effect : Data -> Data × Control}
    (ran : step code threads process = some next) (op : code process (threads.thread process).control = .act effect) :
    next = { threads with data := (effect threads.data).1 }.setThread process (effect threads.data).2 .awake := by
  cases stepped ran with
  | act other sleep same =>
      rw [op] at same
      cases same
      rfl
  | resume _ _ _ same => cases op.symm.trans same
  | take _ _ _ same _ => cases op.symm.trans same
  | block _ _ _ same _ => cases op.symm.trans same
  | raise _ _ _ same _ => cases op.symm.trans same
  | hand _ _ _ _ _ same _ => cases op.symm.trans same

/-! ## The wait queues -/

/-- A wait queue has the threads that sleep at the semaphore, and there are
none while its value is positive. -/
structure Queued (code : Process -> Control -> Op Sem Control Data) (threads : Threads Process Sem Control Data) :
    Prop where
  distinct : forall sem, (threads.sem sem).waitQueue.Nodup
  member : forall sem process, process ∈ (threads.sem sem).waitQueue <->
    (threads.thread process).sleep = .asleep /\
      Exists fun after => code process (threads.thread process).control = .down sem after
  slept : forall process, (threads.thread process).sleep ≠ .awake ->
    Exists fun sem => Exists fun after => code process (threads.thread process).control = .down sem after
  nonnegative : forall sem, 0 <= (threads.sem sem).value
  drained : forall sem, 0 < (threads.sem sem).value -> (threads.sem sem).waitQueue = []

omit [DecidableEq Process] [DecidableEq Sem] in
/-- At the start all threads are awake. -/
theorem queued_start {threads : Threads Process Sem Control Data}
    (awake : forall process, (threads.thread process).sleep = .awake)
    (empty : forall sem, (threads.sem sem).waitQueue = []) (value : forall sem, 0 <= (threads.sem sem).value) :
    Queued code threads where
  distinct := fun sem => by
    rw [empty]
    exact List.nodup_nil
  member := fun sem process => by
    rw [empty, awake]
    exact ⟨fun found => (nomatch found), fun asleep => nomatch asleep.1⟩
  slept := fun process asleep => absurd (awake process) asleep
  nonnegative := value
  drained := fun sem _ => empty sem

omit [DecidableEq Sem] in
/-- A thread that goes on leaves the queues as they are. -/
theorem Queued.awaken {threads next : Threads Process Sem Control Data} {process : Process} {control : Control}
    (queued : Queued code threads) (absent : forall sem, process ∉ (threads.sem sem).waitQueue)
    (thread : next.thread = Function.update threads.thread process ⟨control, .awake⟩)
    (queues : forall sem, (next.sem sem).waitQueue = (threads.sem sem).waitQueue)
    (nonnegative : forall sem, 0 <= (next.sem sem).value)
    (drained : forall sem, 0 < (next.sem sem).value -> (next.sem sem).waitQueue = []) : Queued code next where
  distinct := fun sem => by
    rw [queues]
    exact queued.distinct sem
  member := fun sem other => by
    rw [queues, thread]
    by_cases same : other = process
    · rw [same, Function.update_self]
      exact ⟨fun found => absurd found (absent sem), fun asleep => nomatch asleep.1⟩
    · rw [Function.update_of_ne same]
      exact queued.member sem other
  slept := fun other asleep => by
    rw [thread] at asleep ⊢
    by_cases same : other = process
    · rw [same, Function.update_self] at asleep
      exact absurd rfl asleep
    · rw [Function.update_of_ne same] at asleep ⊢
      exact queued.slept other asleep
  nonnegative := nonnegative
  drained := drained

omit [DecidableEq Process] [DecidableEq Sem] in
theorem Queued.absent {threads : Threads Process Sem Control Data} {process : Process} (queued : Queued code threads)
    (up : (threads.thread process).sleep ≠ .asleep) (sem : Sem) : process ∉ (threads.sem sem).waitQueue :=
  fun found => up ((queued.member sem process).mp found).1

theorem Queued.block {threads : Threads Process Sem Control Data} {process : Process} {sem : Sem} {after : Control}
    (queued : Queued code threads) (sleep : (threads.thread process).sleep = .awake)
    (op : code process (threads.thread process).control = .down sem after) (empty : ¬ 0 < (threads.sem sem).value) :
    Queued code
      ((threads.setSem sem { threads.sem sem with waitQueue := (threads.sem sem).waitQueue ++ [process] }).setThread
        process (threads.thread process).control .asleep) := by
  have absent : forall other, process ∉ (threads.sem other).waitQueue := queued.absent (by rw [sleep]; decide)
  have distinct := queued.distinct
  have member := queued.member
  have slept := queued.slept
  have nonnegative := queued.nonnegative
  have drained := queued.drained
  constructor
  · intro other
    by_cases same : other = sem <;> simp only [setThread, setSem, Function.update_apply] <;> grind
  · intro other another
    by_cases same : other = sem <;> by_cases here : another = process <;>
      simp only [setThread, setSem, Function.update_apply] <;> grind
  · intro another asleep
    by_cases here : another = process <;> simp only [setThread, setSem, Function.update_apply] at * <;> grind
  · intro other
    by_cases same : other = sem <;> simp only [setThread, setSem, Function.update_apply] <;> grind
  · intro other positive
    by_cases same : other = sem <;> simp only [setThread, setSem, Function.update_apply] at * <;> grind

theorem Queued.hand {threads : Threads Process Sem Control Data} {sem : Sem} {first : Process} {rest : List Process}
    (queued : Queued code threads) (waiting : (threads.sem sem).waitQueue = first :: rest) :
    Queued code ((threads.setSem sem { threads.sem sem with waitQueue := rest }).setThread
      first (threads.thread first).control .woken) := by
  have distinct := queued.distinct
  have member := queued.member
  have slept := queued.slept
  have nonnegative := queued.nonnegative
  have drained := queued.drained
  rcases (member sem first).mp (by rw [waiting]; exact List.mem_cons_self) with ⟨asleep, after, op⟩
  have once : first ∉ rest /\ rest.Nodup := by
    rw [← List.nodup_cons, ← waiting]
    exact distinct sem
  constructor
  · intro other
    by_cases same : other = sem <;> simp only [setThread, setSem, Function.update_apply] <;> grind
  · intro other another
    have before := member other another
    have here := member sem another
    rw [waiting, List.mem_cons] at here
    by_cases same : other = sem <;> by_cases woken : another = first <;>
      simp only [setThread, setSem, Function.update_apply] <;> grind
  · intro another asleepToo
    by_cases woken : another = first <;> simp only [setThread, setSem, Function.update_apply] at * <;> grind
  · intro other
    by_cases same : other = sem <;> simp only [setThread, setSem, Function.update_apply] <;> grind
  · intro other positive
    by_cases same : other = sem <;> simp only [setThread, setSem, Function.update_apply] at * <;> grind

omit [DecidableEq Process] [DecidableEq Sem] in
/-- The first thread of a wait queue sleeps. -/
theorem Queued.first {threads : Threads Process Sem Control Data} {sem : Sem} {first : Process} {rest : List Process}
    (queued : Queued code threads) (waiting : (threads.sem sem).waitQueue = first :: rest) :
    (threads.thread first).sleep = .asleep /\
      Exists fun after => code first (threads.thread first).control = .down sem after :=
  (queued.member sem first).mp (by
    rw [waiting]
    exact List.mem_cons_self)

theorem Queued.step {threads next : Threads Process Sem Control Data} {process : Process}
    (queued : Queued code threads) (ran : step code threads process = some next) : Queued code next := by
  cases stepped ran with
  | resume sem after sleep op =>
      exact queued.awaken (queued.absent (by rw [sleep]; decide)) rfl (fun _ => rfl) queued.nonnegative queued.drained
  | take sem after sleep op positive =>
      apply queued.awaken (queued.absent (by rw [sleep]; decide)) rfl
      · intro other
        by_cases same : other = sem
        · simp [proceed, setThread, setSem, Threads.countDown, same]
        · simp [proceed, setThread, setSem, Threads.countDown, Function.update_of_ne same]
      · intro other
        have nonnegative := queued.nonnegative other
        by_cases same : other = sem
        · simp only [proceed, setThread, setSem, Threads.countDown, same, Function.update_self]
          omega
        · simpa [proceed, setThread, setSem, Threads.countDown, Function.update_of_ne same] using nonnegative
      · intro other
        have drained := queued.drained
        by_cases same : other = sem
        · simp only [proceed, setThread, setSem, Threads.countDown, same, Function.update_self]
          exact fun _ => drained sem positive
        · simpa [proceed, setThread, setSem, Threads.countDown, Function.update_of_ne same] using drained other
  | block sem after sleep op empty => exact queued.block sleep op empty
  | raise sem after sleep op alone =>
      apply queued.awaken (queued.absent (by rw [sleep]; decide)) rfl
      · intro other
        by_cases same : other = sem
        · simp [setThread, setSem, Threads.countUp, same]
        · simp [setThread, setSem, Threads.countUp, Function.update_of_ne same]
      · intro other
        have nonnegative := queued.nonnegative other
        by_cases same : other = sem
        · simp only [setThread, setSem, Threads.countUp, same, Function.update_self]
          have here := queued.nonnegative sem
          omega
        · simpa [setThread, setSem, Threads.countUp, Function.update_of_ne same] using nonnegative
      · intro other
        have drained := queued.drained
        by_cases same : other = sem
        · simp only [setThread, setSem, Threads.countUp, same, Function.update_self]
          exact fun _ => alone
        · simpa [setThread, setSem, Threads.countUp, Function.update_of_ne same] using drained other
  | hand sem after first rest sleep op waiting =>
      have asleep := (queued.first waiting).1
      have other : process ≠ first := by
        rintro rfl
        rw [sleep] at asleep
        cases asleep
      have handed := queued.hand waiting
      apply handed.awaken
      · apply handed.absent
        change (Function.update threads.thread first _ process).sleep ≠ .asleep
        rw [Function.update_of_ne other, sleep]
        decide
      · rfl
      · exact fun _ => rfl
      · exact handed.nonnegative
      · exact handed.drained
  | act effect sleep op =>
      exact queued.awaken (queued.absent (by rw [sleep]; decide)) rfl (fun _ => rfl) queued.nonnegative queued.drained

/-! ## Accounts -/

/-- What the units of the semaphores, the points of the code and the data are
worth.  The data count together with the numbers of calls on each semaphore. -/
structure Account (Process Sem Control Data : Type) where
  worth : Sem -> Int
  hold : Process -> Control -> Int
  stock : Data -> (Sem -> Nat) -> (Sem -> Nat) -> Int

/-- What is under way to a thread. -/
def flight (code : Process -> Control -> Op Sem Control Data) (worth : Sem -> Int) (process : Process)
    (thread : Thread Control) : Int :=
  match thread.sleep, code process thread.control with
  | .woken, .down sem _ => worth sem
  | _, _ => 0

omit [DecidableEq Process] [DecidableEq Sem] in
@[simp] theorem flight_awake (worth : Sem -> Int) (process : Process) (control : Control) :
    flight code worth process ⟨control, .awake⟩ = 0 := rfl

omit [DecidableEq Process] [DecidableEq Sem] in
@[simp] theorem flight_asleep (worth : Sem -> Int) (process : Process) (control : Control) :
    flight code worth process ⟨control, .asleep⟩ = 0 := rfl

omit [DecidableEq Process] [DecidableEq Sem] in
theorem flight_woken {worth : Sem -> Int} {process : Process} {control after : Control} {sem : Sem}
    (op : code process control = .down sem after) : flight code worth process ⟨control, .woken⟩ = worth sem := by
  unfold flight
  rw [op]

variable [Fintype Process] [Fintype Sem]

/-- What the semaphores hold. -/
def semaphores (worth : Sem -> Int) (sem : Sem -> Semaphore Process) : Int := ∑ index, worth index * (sem index).value

/-- What the threads hold, and what is under way to them. -/
def holdings (code : Process -> Control -> Op Sem Control Data) (worth : Sem -> Int) (hold : Process -> Control -> Int)
    (thread : Process -> Thread Control) : Int :=
  ∑ process, (hold process (thread process).control + flight code worth process (thread process))

/-- The total of an account. -/
def total (code : Process -> Control -> Op Sem Control Data) (account : Account Process Sem Control Data)
    (threads : Threads Process Sem Control Data) : Int :=
  account.stock threads.data threads.ups threads.downs + semaphores account.worth threads.sem +
    holdings code account.worth account.hold threads.thread

/-- The next step of the thread moves worth without changing the total. -/
def Balanced (code : Process -> Control -> Op Sem Control Data) (account : Account Process Sem Control Data)
    (threads : Threads Process Sem Control Data) (process : Process) : Prop :=
  match code process (threads.thread process).control with
  | .down sem after =>
      account.hold process (threads.thread process).control + account.worth sem +
          account.stock threads.data threads.ups threads.downs =
        account.hold process after +
          account.stock threads.data threads.ups (Function.update threads.downs sem (threads.downs sem + 1))
  | .up sem after =>
      account.hold process (threads.thread process).control + account.stock threads.data threads.ups threads.downs =
        account.hold process after + account.worth sem +
          account.stock threads.data (Function.update threads.ups sem (threads.ups sem + 1)) threads.downs
  | .act effect =>
      account.hold process (threads.thread process).control + account.stock threads.data threads.ups threads.downs =
        account.hold process (effect threads.data).2 +
          account.stock (effect threads.data).1 threads.ups threads.downs

omit [DecidableEq Process] [DecidableEq Sem] [Fintype Process] [Fintype Sem] in
theorem flight_nonneg {worth : Sem -> Int} (nonneg : forall sem, 0 <= worth sem) (process : Process)
    (thread : Thread Control) : 0 <= flight code worth process thread := by
  unfold flight
  split
  · exact nonneg _
  · exact Int.le_refl 0

theorem pair_le_sum {Index : Type} [DecidableEq Index] [Fintype Index] {terms : Index -> Int}
    (nonneg : forall index, 0 <= terms index) {first second : Index} (different : first ≠ second) :
    terms first + terms second <= ∑ index, terms index := by
  rw [← Finset.add_sum_erase _ terms (Finset.mem_univ first)]
  have rest := Finset.single_le_sum (fun index _ => nonneg index)
    (Finset.mem_erase.mpr ⟨different.symm, Finset.mem_univ second⟩)
  omega

/-- A sum of which one term changes. -/
theorem sum_change {Index : Type} [DecidableEq Index] [Fintype Index] (before after : Index -> Int) (place : Index)
    (same : forall index, index ≠ place -> after index = before index) :
    ∑ index, after index + before place = ∑ index, before index + after place := by
  rw [← Finset.add_sum_erase _ _ (Finset.mem_univ place), ← Finset.add_sum_erase _ before (Finset.mem_univ place)]
  have rest : ∑ index ∈ Finset.univ.erase place, after index = ∑ index ∈ Finset.univ.erase place, before index :=
    Finset.sum_congr rfl (fun index found => same index (Finset.ne_of_mem_erase found))
  rw [rest]
  omega

omit [DecidableEq Process] [Fintype Process] in
theorem semaphores_update (worth : Sem -> Int) (sem : Sem -> Semaphore Process) (place : Sem)
    (semaphore : Semaphore Process) :
    semaphores worth (Function.update sem place semaphore) + worth place * (sem place).value =
      semaphores worth sem + worth place * semaphore.value := by
  have change := sum_change (fun index => worth index * (sem index).value)
    (fun index => worth index * (Function.update sem place semaphore index).value) place
    (fun index other => by rw [Function.update_of_ne other])
  rw [Function.update_self] at change
  exact change

omit [DecidableEq Sem] [Fintype Sem] in
theorem holdings_update (code : Process -> Control -> Op Sem Control Data) (worth : Sem -> Int)
    (hold : Process -> Control -> Int) (thread : Process -> Thread Control) (process : Process)
    (next : Thread Control) :
    holdings code worth hold (Function.update thread process next) +
        (hold process (thread process).control + flight code worth process (thread process)) =
      holdings code worth hold thread + (hold process next.control + flight code worth process next) := by
  have change := sum_change
    (fun index => hold index (thread index).control + flight code worth index (thread index))
    (fun index => hold index (Function.update thread process next index).control +
      flight code worth index (Function.update thread process next index)) process
    (fun index other => by rw [Function.update_of_ne other])
  rw [Function.update_self] at change
  exact change

omit [DecidableEq Process] [DecidableEq Sem] [Fintype Process] [Fintype Sem] in
theorem flight_of_awake {worth : Sem -> Int} {process : Process} {thread : Thread Control}
    (sleep : thread.sleep ≠ .woken) : flight code worth process thread = 0 := by
  unfold flight
  split
  · rename_i woken _
    exact absurd woken sleep
  · rfl

omit [DecidableEq Sem] in
/-- An account of one unit in all has one holder at most. -/
theorem exclusive {account : Account Process Sem Control Data} {threads : Threads Process Sem Control Data}
    (queued : Queued code threads) (one : total code account threads = 1)
    (stock : account.stock threads.data threads.ups threads.downs = 0) (worth : forall sem, 0 <= account.worth sem)
    (hold : forall process control, 0 <= account.hold process control) {first second : Process}
    (holds : 0 < account.hold first (threads.thread first).control)
    (holdsToo : 0 < account.hold second (threads.thread second).control) : first = second := by
  by_contra different
  have shares : forall process, 0 <= account.hold process (threads.thread process).control +
      flight code account.worth process (threads.thread process) := fun process =>
    Int.add_nonneg (hold process _) (flight_nonneg worth process _)
  have pair := pair_le_sum shares different
  have firstFlight := @flight_nonneg _ _ _ _ code _ worth first (threads.thread first)
  have secondFlight := @flight_nonneg _ _ _ _ code _ worth second (threads.thread second)
  have values : 0 <= semaphores account.worth threads.sem :=
    Finset.sum_nonneg (fun sem _ => Int.mul_nonneg (worth sem) (queued.nonnegative sem))
  unfold total holdings at one
  omega

omit [DecidableEq Process] [DecidableEq Sem] in
/-- What one thread holds is at most the total, when nothing is owed elsewhere. -/
theorem hold_le {account : Account Process Sem Control Data} {threads : Threads Process Sem Control Data}
    (queued : Queued code threads) (worth : forall sem, 0 <= account.worth sem)
    (hold : forall process control, 0 <= account.hold process control) (process : Process) :
    account.stock threads.data threads.ups threads.downs + account.hold process (threads.thread process).control <=
      total code account threads := by
  have shares : forall process, 0 <= account.hold process (threads.thread process).control +
      flight code account.worth process (threads.thread process) := fun process =>
    Int.add_nonneg (hold process _) (flight_nonneg worth process _)
  have single := Finset.single_le_sum (fun process _ => shares process) (Finset.mem_univ process)
  have flying := @flight_nonneg _ _ _ _ code _ worth process (threads.thread process)
  have values : 0 <= semaphores account.worth threads.sem :=
    Finset.sum_nonneg (fun sem _ => Int.mul_nonneg (worth sem) (queued.nonnegative sem))
  unfold total holdings
  omega

omit [DecidableEq Process] [DecidableEq Sem] in
/-- The total of an account in which no thread holds anything. -/
theorem total_start {account : Account Process Sem Control Data} {threads : Threads Process Sem Control Data}
    (awake : forall process, (threads.thread process).sleep = .awake)
    (empty : forall process, account.hold process (threads.thread process).control = 0) :
    total code account threads =
      account.stock threads.data threads.ups threads.downs + semaphores account.worth threads.sem := by
  have none : holdings code account.worth account.hold threads.thread = 0 := by
    apply Finset.sum_eq_zero
    intro process _
    rw [empty, flight_of_awake (by rw [awake]; decide)]
    rfl
  unfold total
  rw [none, Int.add_zero]

omit [DecidableEq Process] [DecidableEq Sem] [Fintype Process] in
theorem semaphores_zero (sem : Sem -> Semaphore Process) : semaphores (fun _ => 0) sem = 0 :=
  Finset.sum_eq_zero (fun _ _ => Int.zero_mul _)

theorem total_step {account : Account Process Sem Control Data} {threads next : Threads Process Sem Control Data}
    {process : Process} (queued : Queued code threads) (balanced : Balanced code account threads process)
    (ran : step code threads process = some next) : total code account next = total code account threads := by
  have holds : forall control, _ := fun control : Control =>
    holdings_update code account.worth account.hold threads.thread process ⟨control, .awake⟩
  have values := semaphores_update account.worth threads.sem
  unfold Threads.Balanced at balanced
  cases stepped ran with
  | resume sem after sleep op =>
      have change := holds after
      have flying : flight code account.worth process (threads.thread process) = account.worth sem := by
        unfold flight
        rw [sleep, op]
      rw [op] at balanced
      rw [flight_awake, flying] at change
      change account.stock threads.data threads.ups (Function.update threads.downs sem (threads.downs sem + 1)) +
        semaphores account.worth threads.sem +
        holdings code account.worth account.hold (Function.update threads.thread process ⟨after, .awake⟩) = _
      unfold total
      dsimp only at *
      omega
  | take sem after sleep op positive =>
      have change := holds after
      have value := values sem { threads.sem sem with value := (threads.sem sem).value - 1 }
      rw [op] at balanced
      rw [flight_awake, flight_of_awake (by rw [sleep]; decide)] at change
      change account.stock threads.data threads.ups (Function.update threads.downs sem (threads.downs sem + 1)) +
        semaphores account.worth (Function.update threads.sem sem _) +
        holdings code account.worth account.hold (Function.update threads.thread process ⟨after, .awake⟩) = _
      unfold total
      dsimp only at *
      rw [Int.mul_sub] at value
      omega
  | block sem after sleep op empty =>
      have change := holdings_update code account.worth account.hold threads.thread process
        ⟨(threads.thread process).control, .asleep⟩
      have value := values sem { threads.sem sem with waitQueue := (threads.sem sem).waitQueue ++ [process] }
      rw [flight_asleep, flight_of_awake (by rw [sleep]; decide)] at change
      change account.stock threads.data threads.ups threads.downs +
        semaphores account.worth (Function.update threads.sem sem _) +
        holdings code account.worth account.hold (Function.update threads.thread process _) = _
      unfold total
      dsimp only at *
      omega
  | raise sem after sleep op alone =>
      have change := holds after
      have value := values sem { threads.sem sem with value := (threads.sem sem).value + 1 }
      rw [op] at balanced
      rw [flight_awake, flight_of_awake (by rw [sleep]; decide)] at change
      change account.stock threads.data (Function.update threads.ups sem (threads.ups sem + 1)) threads.downs +
        semaphores account.worth (Function.update threads.sem sem _) +
        holdings code account.worth account.hold (Function.update threads.thread process ⟨after, .awake⟩) = _
      unfold total
      dsimp only at *
      rw [Int.mul_add] at value
      omega
  | hand sem after first rest sleep op waiting =>
      rcases queued.first waiting with ⟨asleep, later, firstOp⟩
      have other : process ≠ first := by
        rintro rfl
        rw [sleep] at asleep
        cases asleep
      have woken := holdings_update code account.worth account.hold threads.thread first
        ⟨(threads.thread first).control, .woken⟩
      have change := holdings_update code account.worth account.hold
        (Function.update threads.thread first ⟨(threads.thread first).control, .woken⟩) process ⟨after, .awake⟩
      have value := values sem { threads.sem sem with waitQueue := rest }
      rw [op] at balanced
      rw [flight_woken firstOp, flight_of_awake (by rw [asleep]; decide)] at woken
      rw [flight_awake, Function.update_of_ne other, flight_of_awake (by rw [sleep]; decide)] at change
      change account.stock threads.data (Function.update threads.ups sem (threads.ups sem + 1)) threads.downs +
        semaphores account.worth (Function.update threads.sem sem _) +
        holdings code account.worth account.hold
          (Function.update (Function.update threads.thread first _) process ⟨after, .awake⟩) = _
      unfold total
      dsimp only at *
      omega
  | act effect sleep op =>
      have change := holds (effect threads.data).2
      rw [op] at balanced
      rw [flight_awake, flight_of_awake (by rw [sleep]; decide)] at change
      change account.stock (effect threads.data).1 threads.ups threads.downs +
        semaphores account.worth threads.sem +
        holdings code account.worth account.hold (Function.update threads.thread process _) = _
      unfold total
      dsimp only at *
      omega

/-- The account of one semaphore: the calls of `up` have raised its value, are
under way, or have been taken by a call of `down`. -/
def ledger (sem : Sem) : Account Process Sem Control Data where
  worth := fun other => if other = sem then 1 else 0
  hold := fun _ _ => 0
  stock := fun _ ups downs => downs sem - ups sem

omit [DecidableEq Process] [Fintype Process] [Fintype Sem] in
theorem ledger_balanced (sem : Sem) (threads : Threads Process Sem Control Data) (process : Process) :
    Balanced code (ledger sem) threads process := by
  unfold Threads.Balanced ledger
  split
  · rename_i other after op
    by_cases same : other = sem
    · simp only [same, Function.update_self, if_true]
      omega
    · simp only [if_neg same, Function.update_of_ne (Ne.symm same)]
      omega
  · rename_i other after op
    by_cases same : other = sem
    · simp only [same, Function.update_self, if_true]
      omega
    · simp only [if_neg same, Function.update_of_ne (Ne.symm same)]
      omega
  · rfl

/-- The units of a semaphore under way to threads. -/
def underWay (code : Process -> Control -> Op Sem Control Data) (sem : Sem)
    (threads : Threads Process Sem Control Data) : Int :=
  ∑ process, flight code (fun other => if other = sem then 1 else 0) process (threads.thread process)

omit [DecidableEq Process] in
theorem total_ledger (sem : Sem) (threads : Threads Process Sem Control Data) :
    total code (ledger sem) threads =
      (threads.sem sem).value + underWay code sem threads + threads.downs sem - threads.ups sem := by
  unfold total ledger semaphores holdings underWay
  simp only [ite_mul, one_mul, zero_mul, Finset.sum_ite_eq', Finset.mem_univ, if_true, zero_add]
  omega

omit [DecidableEq Process] [Fintype Sem] in
theorem underWay_nonneg (code : Process -> Control -> Op Sem Control Data) (sem : Sem)
    (threads : Threads Process Sem Control Data) :
    0 <= underWay code sem threads :=
  Finset.sum_nonneg (fun process _ => flight_nonneg (fun _ => by split <;> decide) process _)

omit [DecidableEq Process] in
/-- The total of an account in which only one semaphore is worth anything. -/
theorem total_single (sem : Sem) (hold : Process -> Control -> Int)
    (stock : Data -> (Sem -> Nat) -> (Sem -> Nat) -> Int)
    (threads : Threads Process Sem Control Data) :
    total code ⟨fun other => if other = sem then 1 else 0, hold, stock⟩ threads =
      stock threads.data threads.ups threads.downs + ((threads.sem sem).value + underWay code sem threads) +
        ∑ process, hold process (threads.thread process).control := by
  unfold total semaphores holdings underWay
  simp only [ite_mul, one_mul, zero_mul, Finset.sum_ite_eq', Finset.mem_univ, if_true, Finset.sum_add_distrib]
  omega

end Threads

end Library
end Ucore
