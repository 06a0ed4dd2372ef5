import Ucore.Files.DescriptorRun

namespace Ucore
namespace Files

open Library Library.Program

/-!
# The count of a `files_struct` over the lives of processes

`do_fork` takes a reference to a `files_struct` for the child, and `do_exit`
drops it, but only on the branch that gives up an address space.  A process
without one is a kernel thread, or has given its own up in `do_execve`, before
`load_icode`.
-/

/-- How far `do_execve` of a process is: it closes the files, opens the image,
or reads it. -/
inductive ExecPhase where
  | running
  | closing
  | opening
  | loading

/-- The processes: the address of the `files_struct` that `filesp` points to,
whether `do_exit` has been called, and whether `mm` is not `NULL`. -/
structure Procs (Process : Type) where
  tables : Tables Process
  filesp : Process -> Option Nat
  exited : Process -> Bool
  mm : Process -> Bool
  phase : Process -> ExecPhase

inductive ProcStep (Process : Type) where
  | invoke (process : Process) (call : FileCall)
  | resume (process : Process) (ret : Int) (value : Nat)
  | fork (parent child : Process) (copy : Option Nat)
  | forkFails (parent : Process) (stale : Option Nat)
  | execve (process : Process)
  | execOpen (process : Process) (copied : Bool)
  | execLoad (process : Process)
  | execEnd (process : Process) (loaded : Bool)
  | exit (process : Process)

variable {Process : Type} [DecidableEq Process]

/-- `put_files` of the process that `do_fork` gives up -/
def putStale (parent : Process) : Kernel Process Unit := do
  modify fun files => { files with filesCount := files.filesCount - 1 }
  let files <- get
  if files.filesCount = 0 then filesDestroy parent else pure ()

namespace Procs

/-- A table changes. -/
def set (procs : Procs Process) (id : Nat) (outcome : Except DescriptorFault (FilesStruct Process)) :
    Except DescriptorFault (Procs Process) :=
  outcome.map fun files => { procs with tables := Function.update procs.tables id (some files) }

def setPhase (procs : Procs Process) (process : Process) (phase : ExecPhase) : Procs Process :=
  { procs with phase := Function.update procs.phase process phase }

/-- The table of a process that runs in user mode or in `do_execve`. -/
def tableOf (procs : Procs Process) (process : Process) : Option (Nat × FilesStruct Process) :=
  (procs.filesp process).bind fun id =>
    (procs.tables id).bind fun files =>
      if procs.exited process = false /\ (files.stage process).isNone = true then some (id, files) else none

def doExit (procs : Procs Process) (process : Process) (id : Nat) (files : FilesStruct Process) :
    Except DescriptorFault (Procs Process) :=
  let gone := { procs with
    exited := Function.update procs.exited process true
    mm := Function.update procs.mm process false }
  if procs.mm process = true then gone.set id (files.runPart process (putFiles process)) else .ok gone

/-- What the last call of a process has returned. -/
def lastReturned (files : FilesStruct Process) (process : Process) : Int :=
  match files.returned.find? (fun entry => entry.1 = process) with
  | some entry => entry.2
  | none => 0

/-- `proc->filesp`, `proc->mm` of the child -/
def withChild (procs : Procs Process) (parent child : Process) (id : Nat) : Procs Process where
  tables := procs.tables
  filesp := Function.update procs.filesp child (some id)
  exited := Function.update procs.exited child false
  mm := Function.update procs.mm child (procs.mm parent)
  phase := Function.update procs.phase child .running

/-- `do_fork` with `CLONE_FS`, or with the address of the new `files_struct` -/
def fork (procs : Procs Process) (parent child : Process) (id : Nat) (files : FilesStruct Process) :
    Option Nat -> Option (Except DescriptorFault (Procs Process))
  | none => some ((procs.withChild parent child id).set id (.ok (files.join child)))
  | some copy =>
      if (procs.tables copy).isNone = true then
        some ((procs.withChild parent child copy).set copy
          ((filesCreate.runPart child (dupFiles files)).map fun made => made.join child))
      else none

/-- `do_fork` when `copy_files` fails: `alloc_proc` has left `filesp` as it was
in the memory it got, and `put_files` uses it. -/
def forkFails (procs : Procs Process) (parent : Process) : Option Nat -> Except DescriptorFault (Procs Process)
  | none => .ok procs
  | some stale =>
      match procs.tables stale with
      | none => .error "filesp is not a files_struct"
      | some files => procs.set stale (files.runPart parent (putStale parent))

end Procs

open Procs

namespace ProcStep

/-- A step, if it can be taken. -/
def run (procs : Procs Process) : ProcStep Process -> Option (Except DescriptorFault (Procs Process))
  | invoke process call =>
      (procs.tableOf process).bind fun table =>
        match procs.phase process with
        | .running => some (procs.set table.1 (table.2.runPart process (call.start process)))
        | .loading => some (procs.set table.1 (table.2.runPart process (call.start process)))
        | _ => none
  | resume process ret value =>
      (procs.filesp process).bind fun id =>
        (procs.tables id).bind fun files =>
          (files.stage process).map fun stage => procs.set id (files.runPart process (stage.resume process ret value))
  | fork parent child copy =>
      (procs.tableOf parent).bind fun table =>
        if (procs.filesp child).isNone = true then procs.fork parent child table.1 table.2 copy else none
  | forkFails parent stale => (procs.tableOf parent).map fun _ => procs.forkFails parent stale
  | execve process =>
      (procs.tableOf process).bind fun table =>
        match procs.phase process with
        | .running =>
            some ((procs.setPhase process .closing).set table.1 (table.2.runPart process (filesCloseall process)))
        | _ => none
  | execOpen process copied =>
      (procs.tableOf process).bind fun table =>
        match procs.phase process with
        | .closing =>
            if copied = true then
              some ((procs.setPhase process .opening).set table.1 (table.2.runPart process (fileOpen process 0)))
            else some (procs.doExit process table.1 table.2)
        | _ => none
  | execLoad process =>
      (procs.tableOf process).bind fun table =>
        match procs.phase process with
        | .opening =>
            if lastReturned table.2 process < 0 then some (procs.doExit process table.1 table.2)
            else some (.ok { procs.setPhase process .loading with mm := Function.update procs.mm process false })
        | _ => none
  | execEnd process loaded =>
      (procs.tableOf process).bind fun table =>
        match procs.phase process with
        | .loading =>
            if loaded = true then
              some (.ok { procs.setPhase process .running with mm := Function.update procs.mm process true })
            else some (procs.doExit process table.1 table.2)
        | _ => none
  | exit process => (procs.tableOf process).map fun table => procs.doExit process table.1 table.2

/-- The step calls no `do_exit` of a process without an address space, and no
`put_files` of what `alloc_proc` has left. -/
def Clean (procs : Procs Process) : ProcStep Process -> Prop
  | forkFails _ stale => stale = none
  | execOpen process copied => copied = true \/ procs.mm process = true
  | execLoad process =>
      procs.mm process = true \/ forall table, table ∈ procs.tableOf process -> 0 <= lastReturned table.2 process
  | execEnd process loaded => loaded = true \/ procs.mm process = true
  | exit process => procs.mm process = true
  | _ => True

instance (procs : Procs Process) (step : ProcStep Process) : Decidable (step.Clean procs) :=
  match step with
  | invoke .. => inferInstanceAs (Decidable True)
  | resume .. => inferInstanceAs (Decidable True)
  | fork .. => inferInstanceAs (Decidable True)
  | forkFails _ stale => inferInstanceAs (Decidable (stale = none))
  | execve .. => inferInstanceAs (Decidable True)
  | execOpen process copied => inferInstanceAs (Decidable (copied = true \/ procs.mm process = true))
  | execLoad process => inferInstanceAs (Decidable (procs.mm process = true \/
      forall table, table ∈ procs.tableOf process -> 0 <= lastReturned table.2 process))
  | execEnd process loaded => inferInstanceAs (Decidable (loaded = true \/ procs.mm process = true))
  | exit process => inferInstanceAs (Decidable (procs.mm process = true))

end ProcStep

/-- The machine; a fault ends its run. -/
def processMachine (Process : Type) [DecidableEq Process] :
    Machine (Except DescriptorFault (Procs Process)) (ProcStep Process) where
  step state step :=
    match state with
    | .error _ => none
    | .ok procs => step.run procs

/-- The condition of a step in a state without fault.  `do_exit` frees the files
only along with a memory map, and `alloc_proc` leaves `filesp` as it finds it. -/
def CleanStep (state : Except DescriptorFault (Procs Process)) (step : ProcStep Process) : Prop :=
  match state with
  | .error _ => True
  | .ok procs => step.Clean procs

instance (state : Except DescriptorFault (Procs Process)) (step : ProcStep Process) :
    Decidable (CleanStep state step) :=
  match state with
  | .error _ => inferInstanceAs (Decidable True)
  | .ok procs => inferInstanceAs (Decidable (step.Clean procs))

/-- `proc_init`: the first process is a kernel thread. -/
def bootProcs (first : Process) : Procs Process where
  tables := bootTables first
  filesp := Function.update (fun _ => none) first (some 0)
  exited := fun _ => false
  mm := fun _ => false
  phase := fun _ => .running

namespace Procs

/-- The processes that have not exited and whose `filesp` points to a table. -/
def users (procs : Procs Process) (id : Nat) : Set Process :=
  {process | procs.filesp process = some id /\ procs.exited process = false}

/-- The count of every `files_struct` is that of its users; it is destroyed,
and all its entries are closed, once it has no user left and the last one has
returned from `files_destroy`. -/
def Conserved (procs : Procs Process) : Prop :=
  forall id files, procs.tables id = some files ->
    (procs.users id).Finite /\ files.filesCount = (procs.users id).ncard /\
    (files.destroyed = true <-> procs.users id = ∅ /\ forall process, files.stage process = none) /\
    (files.destroyed = true -> forall fd, (files.fdArray fd).status = .fdNone)

/-- The tables are sound, and their sharers are their users. -/
structure Good (procs : Procs Process) : Prop where
  lasting : procs.tables.Lasting
  sharing : forall id files process, procs.tables id = some files ->
    (files.sharing process = true <-> procs.filesp process = some id /\ procs.exited process = false)
  known : forall process id, procs.filesp process = some id -> (procs.tables id).isSome = true

omit [DecidableEq Process] in
theorem Good.conserved {procs : Procs Process} (good : procs.Good) : procs.Conserved := by
  intro id files here
  have lasting := good.lasting id files here
  have sharers :
      referrers (fun process => if files.sharing process = true then some () else none) () = procs.users id := by
    ext process
    refine Iff.trans ?_ (good.sharing id files process here)
    constructor
    · intro points
      by_contra unshared
      cases (if_neg unshared).symm.trans points
    · exact fun shares => if_pos shares
  have counted := lasting.sound.sharers () (Set.mem_univ ())
  rw [sharers] at counted
  refine ⟨counted.1, counted.2, ?_, fun destroyed => (lasting.sound.gone destroyed).2.2⟩
  constructor
  · intro destroyed
    rcases lasting.sound.gone destroyed with ⟨none, stages, _⟩
    refine ⟨?_, stages⟩
    rw [none] at counted
    exact (Set.ncard_eq_zero counted.1).mp (Int.natCast_eq_zero.mp counted.2.symm)
  · rintro ⟨unused, stages⟩
    by_contra standing
    rcases lasting.shared (Bool.eq_false_iff.mpr standing) with ⟨process, shares | inside⟩
    · have used : process ∈ procs.users id := (good.sharing id files process here).mp shares
      rw [unused] at used
      exact used
    · rw [stages process] at inside
      cases inside

variable {procs : Procs Process} {process : Process} {id : Nat} {files : FilesStruct Process}

omit [DecidableEq Process] in
/-- Only the tables and the pointers count. -/
theorem Good.elsewhere (good : procs.Good) {other : Procs Process} (tables : other.tables = procs.tables)
    (filesp : other.filesp = procs.filesp) (exited : other.exited = procs.exited) : other.Good where
  lasting := tables ▸ good.lasting
  sharing := by
    rw [tables, filesp, exited]
    exact good.sharing
  known := by
    rw [tables, filesp]
    exact good.known

omit [DecidableEq Process] in
theorem tableOf_some {table : Nat × FilesStruct Process} (found : procs.tableOf process = some table) :
    procs.filesp process = some table.1 /\ procs.tables table.1 = some table.2 /\ procs.exited process = false /\
      table.2.stage process = none := by
  rcases Option.bind_eq_some_iff.mp found with ⟨id, points, more⟩
  rcases Option.bind_eq_some_iff.mp more with ⟨files, here, last⟩
  split at last
  · rename_i both
    cases last
    exact ⟨points, here, both.1, Option.isNone_iff_eq_none.mp both.2⟩
  · cases last

omit [DecidableEq Process] in
theorem Good.shares (good : procs.Good) {table : Nat × FilesStruct Process}
    (found : procs.tableOf process = some table) : table.2.sharing process = true := by
  rcases tableOf_some found with ⟨points, here, alive, _⟩
  exact (good.sharing table.1 table.2 process here).mpr ⟨points, alive⟩

omit [DecidableEq Process] in
/-- A table changes and keeps its sharers. -/
theorem Good.set (good : procs.Good) (here : procs.tables id = some files) {after : FilesStruct Process}
    (lasting : after.Lasting) (sharing : after.sharing = files.sharing) :
    Good { procs with tables := Function.update procs.tables id (some after) } where
  lasting := good.lasting.set id lasting
  sharing := by
    intro other found process there
    by_cases same : other = id
    · subst same
      cases (Function.update_self ..).symm.trans there
      rw [sharing]
      exact good.sharing other files process here
    · exact good.sharing other found process ((Function.update_of_ne same ..).symm.trans there)
  known := by
    intro process other points
    change (Function.update procs.tables id (some after) other).isSome = true
    by_cases same : other = id
    · rw [same, Function.update_self]
      rfl
    · rw [Function.update_of_ne same]
      exact good.known process other points

omit [DecidableEq Process] in
/-- A part of a call on the table of the process. -/
theorem Good.runPart (good : procs.Good) (here : procs.tables id = some files) {part : Kernel Process Unit}
    (meets : Meets part files (soundly files)) :
    Exists fun next => procs.set id (files.runPart process part) = .ok next /\ next.Good := by
  rcases runPart_lasting (good.lasting id files here) meets with ⟨after, ran, lasting, sharing⟩
  refine ⟨_, ?_, good.set here lasting sharing⟩
  unfold Procs.set
  rw [ran]
  rfl

/-- `do_exit` of a process with an address space -/
theorem Good.doExit (good : procs.Good) {table : Nat × FilesStruct Process}
    (found : procs.tableOf process = some table) (mm : procs.mm process = true) :
    Exists fun next => procs.doExit process table.1 table.2 = .ok next /\ next.Good := by
  rcases tableOf_some found with ⟨points, here, _, idle⟩
  have lasting := good.lasting table.1 table.2 here
  rcases exit_lasting lasting.sound (good.shares found) idle with ⟨after, ran, kept, sharing⟩
  unfold Procs.doExit
  dsimp only
  rw [if_pos mm, ran]
  refine ⟨_, rfl, good.lasting.set table.1 kept, ?_, ?_⟩
  · intro other found process' there
    change Function.update procs.tables table.1 (some after) other = some found at there
    change found.sharing process' = true <-> procs.filesp process' = some other /\
      Function.update procs.exited process true process' = false
    by_cases same : other = table.1
    · rw [same, Function.update_self] at there
      cases there
      rw [sharing, same]
      by_cases self : process' = process
      · rw [self, Function.update_self, Function.update_self]
        exact ⟨nofun, fun both => nomatch both.2⟩
      · rw [Function.update_of_ne self, Function.update_of_ne self]
        exact good.sharing table.1 table.2 process' here
    · rw [Function.update_of_ne same] at there
      refine (good.sharing other found process' there).trans ?_
      by_cases self : process' = process
      · rw [self, Function.update_self, points]
        exact ⟨fun both => absurd (Option.some.inj both.1).symm same, fun both => nomatch both.2⟩
      · rw [Function.update_of_ne self]
  · intro process' other points'
    change (Function.update procs.tables table.1 (some after) other).isSome = true
    by_cases same : other = table.1
    · rw [same, Function.update_self]
      rfl
    · rw [Function.update_of_ne same]
      exact good.known process' other points'

/-- A child points to a table that has it as a new sharer. -/
theorem Good.withChild (good : procs.Good) {parent child : Process} (unborn : procs.filesp child = none)
    (id : Nat) {after : FilesStruct Process} (lasting : after.Lasting)
    (sharing : forall process, after.sharing process = true <->
      process = child \/ (procs.filesp process = some id /\ procs.exited process = false)) :
    Good { procs.withChild parent child id with tables := Function.update procs.tables id (some after) } where
  lasting := good.lasting.set id lasting
  sharing := by
    intro other found process there
    change Function.update procs.tables id (some after) other = some found at there
    change found.sharing process = true <-> Function.update procs.filesp child (some id) process = some other /\
      Function.update procs.exited child false process = false
    by_cases self : process = child
    · rw [self, Function.update_self, Function.update_self]
      by_cases same : other = id
      · rw [same, Function.update_self] at there
        cases there
        rw [same]
        exact iff_of_true ((sharing child).mpr (.inl rfl)) ⟨rfl, rfl⟩
      · rw [Function.update_of_ne same] at there
        refine (good.sharing other found child there).trans ?_
        rw [unborn]
        exact ⟨fun both => absurd both.1 nofun, fun both => absurd (Option.some.inj both.1).symm same⟩
    · rw [Function.update_of_ne self, Function.update_of_ne self]
      by_cases same : other = id
      · rw [same, Function.update_self] at there
        cases there
        rw [same]
        exact (sharing process).trans ⟨fun either => either.resolve_left self, .inr⟩
      · rw [Function.update_of_ne same] at there
        exact good.sharing other found process there
  known := by
    intro process other points
    change Function.update procs.filesp child (some id) process = some other at points
    change (Function.update procs.tables id (some after) other).isSome = true
    by_cases same : other = id
    · rw [same, Function.update_self]
      rfl
    · rw [Function.update_of_ne same]
      by_cases self : process = child
      · rw [self, Function.update_self] at points
        exact absurd (Option.some.inj points).symm same
      · rw [Function.update_of_ne self] at points
        exact good.known process other points

theorem Good.fork (good : procs.Good) {parent child : Process} {table : Nat × FilesStruct Process}
    (found : procs.tableOf parent = some table) (unborn : procs.filesp child = none) {copy : Option Nat}
    {outcome : Except DescriptorFault (Procs Process)}
    (ran : procs.fork parent child table.1 table.2 copy = some outcome) :
    Exists fun next => outcome = .ok next /\ next.Good := by
  rcases tableOf_some found with ⟨points, here, _, idle⟩
  have lasting := good.lasting table.1 table.2 here
  have shares := good.shares found
  cases copy with
  | none =>
      cases ran
      have fresh : table.2.sharing child = false := by
        by_contra still
        cases ((good.sharing table.1 table.2 child here).mp (Bool.not_eq_false _ ▸ still)).1.symm.trans unborn
      have standing : table.2.destroyed = false := by
        by_contra destroyed
        have positive := lasting.sound.filesCount_pos shares
        have none := (lasting.sound.gone (Bool.not_eq_false _ ▸ destroyed)).1
        omega
      have joined : (table.2.join child).Lasting :=
        ⟨lasting.sound.join fresh (fun _ _ inside => lasting.sound.not_destroys shares inside) standing,
          fun _ => ⟨child, .inl (Function.update_self ..)⟩⟩
      refine ⟨_, rfl, good.withChild unborn table.1 joined ?_⟩
      intro process
      change Function.update table.2.sharing child true process = true <-> _
      by_cases self : process = child
      · rw [self, Function.update_self]
        exact iff_of_true rfl (.inl rfl)
      · rw [Function.update_of_ne self]
        exact (good.sharing table.1 table.2 process here).trans ⟨.inr, fun either => either.resolve_left self⟩
  | some copy =>
      rw [Procs.fork] at ran
      split at ran
      · rename_i vacant
        cases ran
        rcases copy_lasting lasting.sound.balanced (lasting.sound.filesCount_pos shares) child with
          ⟨after, made, kept, unshared⟩
        rw [made]
        refine ⟨_, rfl, good.withChild unborn copy kept ?_⟩
        intro process
        change Function.update after.sharing child true process = true <-> _
        rw [unshared]
        by_cases self : process = child
        · rw [self, Function.update_self]
          exact iff_of_true rfl (.inl rfl)
        · rw [Function.update_of_ne self]
          refine iff_of_false nofun ?_
          rintro (same | ⟨pointed, _⟩)
          · exact self same
          · have known := good.known process copy pointed
            rw [Option.isNone_iff_eq_none.mp vacant] at known
            cases known
      · cases ran

end Procs

/-- No fault so far. -/
def Orderly (state : Except DescriptorFault (Procs Process)) : Prop :=
  Exists fun procs => state = .ok procs /\ procs.Good

theorem ProcStep.run_good {procs : Procs Process} {step : ProcStep Process}
    {outcome : Except DescriptorFault (Procs Process)} (good : procs.Good) (clean : step.Clean procs)
    (ran : step.run procs = some outcome) : Orderly outcome := by
  cases step with
  | invoke process call =>
      rw [ProcStep.run] at ran
      rcases Option.bind_eq_some_iff.mp ran with ⟨table, found, more⟩
      rcases tableOf_some found with ⟨_, here, _, idle⟩
      have meets := start_meets (good.lasting _ _ here).sound (good.shares found) idle call
      split at more
      · cases more
        exact good.runPart here meets
      · cases more
        exact good.runPart here meets
      · cases more
  | resume process ret value =>
      rw [ProcStep.run] at ran
      rcases Option.bind_eq_some_iff.mp ran with ⟨id, _, more⟩
      rcases Option.bind_eq_some_iff.mp more with ⟨files, here, last⟩
      rcases Option.map_eq_some_iff.mp last with ⟨stage, inside, rfl⟩
      exact good.runPart here (resume_meets (good.lasting _ _ here).sound inside ret value)
  | fork parent child copy =>
      rw [ProcStep.run] at ran
      rcases Option.bind_eq_some_iff.mp ran with ⟨table, found, more⟩
      split at more
      · rename_i unborn
        exact good.fork found (Option.isNone_iff_eq_none.mp unborn) more
      · cases more
  | forkFails parent stale =>
      rw [ProcStep.run] at ran
      rcases Option.map_eq_some_iff.mp ran with ⟨_, _, rfl⟩
      have null : stale = none := clean
      rw [null]
      exact ⟨procs, rfl, good⟩
  | execve process =>
      rw [ProcStep.run] at ran
      rcases Option.bind_eq_some_iff.mp ran with ⟨table, found, more⟩
      rcases tableOf_some found with ⟨_, here, _, idle⟩
      have sound := (good.lasting _ _ here).sound
      have shares := good.shares found
      split at more
      · cases more
        have closing : (procs.setPhase process .closing).Good := good.elsewhere rfl rfl rfl
        exact closing.runPart here
          (answers_soundly sound shares
            (filesCloseall_meets (running_start sound.balanced idle) (sound.filesCount_pos shares)))
      · cases more
  | execOpen process copied =>
      rw [ProcStep.run] at ran
      rcases Option.bind_eq_some_iff.mp ran with ⟨table, found, more⟩
      rcases tableOf_some found with ⟨_, here, _, idle⟩
      have sound := (good.lasting _ _ here).sound
      have shares := good.shares found
      split at more
      · split at more
        · cases more
          have opening : (procs.setPhase process .opening).Good := good.elsewhere rfl rfl rfl
          exact opening.runPart here
            (answers_soundly sound shares
              (fileOpen_meets (running_start sound.balanced idle) (sound.filesCount_pos shares) 0))
        · rename_i uncopied
          cases more
          exact good.doExit found (Or.resolve_left clean uncopied)
      · cases more
  | execLoad process =>
      rw [ProcStep.run] at ran
      rcases Option.bind_eq_some_iff.mp ran with ⟨table, found, more⟩
      split at more
      · split at more
        · rename_i failed
          cases more
          refine good.doExit found (Or.resolve_right clean fun returned => ?_)
          exact absurd (returned table found) (Int.not_le.mpr failed)
        · cases more
          exact ⟨_, rfl, good.elsewhere rfl rfl rfl⟩
      · cases more
  | execEnd process loaded =>
      rw [ProcStep.run] at ran
      rcases Option.bind_eq_some_iff.mp ran with ⟨table, found, more⟩
      split at more
      · split at more
        · cases more
          exact ⟨_, rfl, good.elsewhere rfl rfl rfl⟩
        · rename_i failed
          cases more
          exact good.doExit found (Or.resolve_left clean failed)
      · cases more
  | exit process =>
      rw [ProcStep.run] at ran
      rcases Option.map_eq_some_iff.mp ran with ⟨table, found, rfl⟩
      exact good.doExit found clean

theorem bootProcs_good (first : Process) : (bootProcs first).Good where
  lasting := by
    intro id files here
    change bootTables first id = some files at here
    unfold bootTables at here
    split at here
    · cases here
      exact boot_lasting first
    · cases here
  sharing := by
    intro id files process here
    change bootTables first id = some files at here
    change files.sharing process = true <->
      Function.update (fun _ => none) first (some 0) process = some id /\ false = false
    unfold bootTables at here
    split at here
    · rename_i zero
      cases here
      rw [zero]
      change Function.update (fun _ => false) first true process = true <-> _
      by_cases self : process = first
      · rw [self, Function.update_self, Function.update_self]
        exact iff_of_true rfl ⟨rfl, rfl⟩
      · rw [Function.update_of_ne self, Function.update_of_ne self]
        exact iff_of_false nofun fun both => absurd both.1 nofun
    · cases here
  known := by
    intro process id points
    change Function.update (fun _ => none) first (some 0) process = some id at points
    by_cases self : process = first
    · rw [self, Function.update_self] at points
      cases points
      rfl
    · rw [Function.update_of_ne self] at points
      cases points

/-- In every state of a run in which only processes with an address space call
`do_exit`, and no failed `do_fork` finds a pointer in the memory of its child,
each `files_struct` counts its users and is destroyed when the last one has
gone. -/
theorem run_keeps_files_count (first : Process) (steps : List (ProcStep Process))
    {state : Except DescriptorFault (Procs Process)}
    (clean : (processMachine Process).Along CleanStep (.ok (bootProcs first)) steps)
    (ran : (processMachine Process).run (.ok (bootProcs first)) steps = some state) :
    Exists fun procs => state = .ok procs /\ procs.Conserved := by
  have start : Orderly (.ok (bootProcs first)) := ⟨_, rfl, bootProcs_good first⟩
  have kept : Orderly state := by
    refine Machine.run_invariant ?_ start clean ran
    rintro _ step next ⟨procs, rfl, good⟩ clean stepped
    exact step.run_good good clean stepped
  rcases kept with ⟨procs, rfl, good⟩
  exact ⟨procs, rfl, good.conserved⟩

/-- A process execs, its clone closes a file, and both exit. -/
def execAndExit : List (ProcStep Nat) :=
  [.fork 0 1 (some 1), .fork 1 2 (some 2), .execve 2, .execOpen 2 true, .resume 2 0 77, .execLoad 2, .execEnd 2 true,
    .fork 2 3 none, .invoke 3 (.close 0), .resume 3 0 0, .exit 2, .exit 3]

theorem execAndExit_returns : ((processMachine Nat).run (.ok (bootProcs 0)) execAndExit).isSome = true := by
  decide +kernel

theorem execAndExit_clean : (processMachine Nat).Along CleanStep (.ok (bootProcs 0)) execAndExit := by
  decide +kernel

theorem execAndExit_keeps_files_count :
    Exists fun state => (processMachine Nat).run (.ok (bootProcs 0)) execAndExit = some state /\
      Exists fun procs => state = .ok procs /\ procs.Conserved := by
  rcases Option.isSome_iff_exists.mp execAndExit_returns with ⟨state, ran⟩
  exact ⟨state, ran, run_keeps_files_count 0 execAndExit execAndExit_clean ran⟩

/-- A kernel thread cannot open the program that it is to run, and exits. -/
def execFails : List (ProcStep (Fin 3)) :=
  [.fork 0 1 (some 1), .fork 1 2 (some 2), .execve 2, .execOpen 2 true, .resume 2 (-16) 0, .execLoad 2]

/-- The table of the thread is counted once and has no user. -/
def Leaked : Except DescriptorFault (Procs (Fin 3)) -> Bool
  | .error _ => false
  | .ok procs =>
      decide ((procs.tables 2).map (fun files => files.filesCount) = some 1) &&
        decide (forall process, ¬ (procs.filesp process = some 2 /\ procs.exited process = false))

theorem execFails_leaked :
    ((processMachine (Fin 3)).run (.ok (bootProcs 0)) execFails).any Leaked = true := by
  decide +kernel

theorem execFails_breaks_files_count : ¬ forall (steps : List (ProcStep (Fin 3))) state,
    (processMachine (Fin 3)).run (.ok (bootProcs 0)) steps = some state ->
      Exists fun procs => state = .ok procs /\ procs.Conserved := by
  intro claim
  rcases (Option.any_eq_true _ _).mp execFails_leaked with ⟨state, ran, leaked⟩
  rcases claim execFails state ran with ⟨procs, rfl, conserved⟩
  rcases Bool.and_eq_true_iff.mp leaked with ⟨count, unused⟩
  rcases Option.map_eq_some_iff.mp (of_decide_eq_true count) with ⟨files, here, one⟩
  have nobody : forall process, ¬ (procs.filesp process = some 2 /\ procs.exited process = false) :=
    of_decide_eq_true unused
  have none : procs.users 2 = ∅ := Set.eq_empty_of_forall_notMem nobody
  have counted := (conserved 2 files here).2.1
  rw [one, none, Set.ncard_empty] at counted
  cases counted

end Files
end Ucore
