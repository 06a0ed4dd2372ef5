import Ucore.Files.DescriptorCalls

namespace Ucore
namespace Files

open Library Library.Program

/-!
# Runs of the processes that share files

A process calls one of the functions of `file.c`, or goes on with what the
inode has answered, and runs until it waits or returns.  Processes join a
`files_struct` when they are cloned with `CLONE_FS`, and the last one that
exits destroys it.  Without `CLONE_FS` the child gets a copy.
-/

variable {Process : Type} [DecidableEq Process]

/-- The functions of `file.c` that a process calls, and `files_closeall`. -/
inductive FileCall where
  | openFile (openFlags : Nat)
  | close (fd : Int)
  | read (fd : Int)
  | write (fd : Int)
  | seek (fd pos : Int) (whence : Nat)
  | fstat (fd : Int)
  | fsync (fd : Int)
  | getdirentry (fd : Int)
  | dup (fd1 fd2 : Int)
  | closeall

def FileCall.start (process : Process) : FileCall -> Kernel Process Unit
  | openFile openFlags => fileOpen process openFlags
  | close fd => fileClose process fd
  | read fd => fileIo process fd false
  | write fd => fileIo process fd true
  | seek fd pos whence => fileSeek process fd pos whence
  | fstat fd => fileStat process fd .fstat
  | fsync fd => fileStat process fd .fsync
  | getdirentry fd => fileStat process fd .getdirentry
  | dup fd1 fd2 => fileDup process fd1 fd2
  | closeall => filesCloseall process

/-- What follows on a wait; the inode has answered with a result and a number:
the inode that was opened, a size, or a number of bytes. -/
def Stage.resume (process : Process) (ret : Int) (value : Nat) : Stage -> Kernel Process Unit
  | opening fd openFlags => vfsOpened process fd openFlags ret value
  | sizing fd node openFlags => fileSized process fd node openFlags ret value
  | abandoning fd code => fileAbandoned process fd code
  | operating fd ticket op => answered process fd ticket ret value op
  | freeing fd next => freed process fd next
  | leaving => sweep process true filesStructNentry

/-- The table after a part of a call. -/
def FilesStruct.runPart (files : FilesStruct Process) (process : Process) (part : Kernel Process Unit) :
    Except DescriptorFault (FilesStruct Process) :=
  match part files with
  | .done _ after => .ok after
  | .fail code after => .ok { after with returned := (process, code) :: after.returned }
  | .stop fault => .error fault

/-- A step of a process on the table that it shares. -/
inductive TableStep (Process : Type) where
  | invoke (process : Process) (call : FileCall)
  | resume (process : Process) (ret : Int) (value : Nat)
  | clone (parent child : Process)
  | exit (process : Process)

/-- A process that may call. -/
def FilesStruct.Ready (files : FilesStruct Process) (process : Process) : Prop :=
  files.sharing process = true /\ (files.stage process).isNone = true

instance (files : FilesStruct Process) (process : Process) : Decidable (files.Ready process) :=
  inferInstanceAs (Decidable (_ /\ _))

def TableStep.run (files : FilesStruct Process) :
    TableStep Process -> Option (Except DescriptorFault (FilesStruct Process))
  | invoke process call => if files.Ready process then some (files.runPart process (call.start process)) else none
  | resume process ret value =>
      (files.stage process).map fun stage => files.runPart process (stage.resume process ret value)
  | clone parent child =>
      if files.Ready parent /\ files.sharing child = false then some (.ok (files.join child)) else none
  | exit process => if files.Ready process then some (files.runPart process (putFiles process)) else none

/-- A step of the system: one on a table, or the fork of a child with a table
of its own. -/
inductive DescriptorStep (Process : Type) where
  | table (id : Nat) (step : TableStep Process)
  | fork (id : Nat) (parent child : Process) (copy : Nat)

abbrev Tables (Process : Type) := Nat -> Option (FilesStruct Process)

def Tables.set (tables : Tables Process) (id : Nat) (outcome : Except DescriptorFault (FilesStruct Process)) :
    Except DescriptorFault (Tables Process) :=
  outcome.map fun files => Function.update tables id (some files)

def DescriptorStep.run (tables : Tables Process) :
    DescriptorStep Process -> Option (Except DescriptorFault (Tables Process))
  | table id step => (tables id).bind fun files => (step.run files).map fun outcome => tables.set id outcome
  | fork id parent child copy =>
      (tables id).bind fun files =>
        if files.Ready parent /\ (tables copy).isNone = true then
          some (tables.set copy ((filesCreate.runPart child (dupFiles files)).map fun made => made.join child))
        else none

/-- The machine; a fault ends its run. -/
def descriptorMachine (Process : Type) [DecidableEq Process] :
    Machine (Except DescriptorFault (Tables Process)) (DescriptorStep Process) where
  step state step :=
    match state with
    | .error _ => none
    | .ok tables => step.run tables

/-- The table of the first process. -/
def bootTables (first : Process) : Tables Process :=
  fun id => if id = 0 then some (filesCreate.join first) else none

/-! ## Every step keeps the tables sound -/

section Steps

variable {files : FilesStruct Process} {process : Process}

omit [DecidableEq Process] in
/-- An error only shows in the results. -/
theorem FilesStruct.Sound.answer (sound : files.Sound) (returned : List (Process × Int)) :
    FilesStruct.Sound { files with returned := returned } :=
  ⟨sound.balanced.elsewhere rfl rfl rfl, sound.sharers, sound.inside, sound.destroying, sound.swept, sound.gone⟩

omit [DecidableEq Process] in
theorem runPart_lasting (lasting : files.Lasting) {part : Kernel Process Unit}
    (meets : Meets part files (soundly files)) :
    Exists fun after => files.runPart process part = .ok after /\ after.Lasting /\ after.sharing = files.sharing := by
  unfold FilesStruct.runPart
  unfold Meets at meets
  cases ran : part files with
  | done value after =>
      rw [ran] at meets
      exact ⟨after, rfl, meets⟩
  | fail code after =>
      rw [ran] at meets
      cases meets
      exact ⟨_, rfl, ⟨lasting.sound.answer _, lasting.shared⟩, rfl⟩
  | stop fault =>
      rw [ran] at meets
      exact meets.elim

theorem exit_lasting (sound : files.Sound) (shares : files.sharing process = true) (idle : files.stage process = none) :
    Exists fun after => files.runPart process (putFiles process) = .ok after /\ after.Lasting /\
      after.sharing = Function.update files.sharing process false := by
  have meets := putFiles_meets sound shares idle
  unfold FilesStruct.runPart
  unfold Meets at meets
  cases ran : putFiles process files with
  | done value after =>
      rw [ran] at meets
      exact ⟨after, rfl, meets⟩
  | fail code after =>
      rw [ran] at meets
      exact meets.elim
  | stop fault =>
      rw [ran] at meets
      exact meets.elim

theorem start_meets (sound : files.Sound) (shares : files.sharing process = true) (idle : files.stage process = none)
    (call : FileCall) : Meets (call.start process) files (soundly files) := by
  have counted := sound.filesCount_pos shares
  have running := running_start sound.balanced idle
  refine answers_soundly sound shares ?_
  cases call with
  | openFile openFlags => exact fileOpen_meets running counted openFlags
  | close fd => exact fileClose_meets running counted fd
  | read fd => exact fileIo_meets running counted fd false
  | write fd => exact fileIo_meets running counted fd true
  | seek fd pos whence => exact fileSeek_meets running counted fd pos whence
  | fstat fd => exact fileStat_meets running counted fd .fstat
  | fsync fd => exact fileStat_meets running counted fd .fsync
  | getdirentry fd => exact fileStat_meets running counted fd .getdirentry
  | dup fd1 fd2 => exact fileDup_meets running counted fd1 fd2
  | closeall => exact filesCloseall_meets running counted

theorem resume_meets (sound : files.Sound) {stage : Stage} (inside : files.stage process = some stage) (ret : Int)
    (value : Nat) : Meets (stage.resume process ret value) files (soundly files) := by
  have running := running_resumed sound.balanced inside
  have whole : forall part : Kernel Process Unit, ¬ stage.Destroys -> Meets part files (leaves files process) ->
      Meets part files (soundly files) := by
    intro part calls meets
    exact answers_soundly sound ((sound.inside process stage inside).resolve_right calls) (leaves_answers meets)
  cases stage with
  | opening fd openFlags => exact whole _ (fun absurd => absurd) (running.vfsOpened_meets openFlags ret value)
  | sizing fd node openFlags => exact whole _ (fun absurd => absurd) (running.fileSized_meets node openFlags ret value)
  | abandoning fd code => exact whole _ (fun absurd => absurd) (running.fileAbandoned_meets code)
  | operating fd ticket op => exact whole _ (fun absurd => absurd) (running.answered_meets ret value op)
  | freeing fd next => exact freed_meets sound inside
  | leaving => exact leaving_meets sound inside

/-- A child gets a copy of a table. -/
theorem copy_lasting (balanced : Balanced files files.uses) (counted : 0 < files.filesCount) (child : Process) :
    Exists fun after => (filesCreate : FilesStruct Process).runPart child (dupFiles files) = .ok after /\
      (after.join child).Lasting /\ after.sharing = fun _ => false := by
  have made := dupFiles_meets balanced counted child
  unfold Meets at made
  unfold FilesStruct.runPart
  cases dup : dupFiles files (filesCreate : FilesStruct Process) with
  | done value after =>
      rw [dup] at made
      rcases made with ⟨kept, sharing, stage, standing⟩
      refine ⟨after, rfl, ⟨kept.join ?_ ?_ standing, fun _ => ⟨child, .inl (Function.update_self ..)⟩⟩, sharing⟩
      · rw [sharing]
      · intro other inside here
        rw [stage] at here
        cases here
  | fail code after =>
      rw [dup] at made
      exact made.elim
  | stop fault =>
      rw [dup] at made
      exact made.elim

theorem TableStep.run_lasting {step : TableStep Process} {outcome : Except DescriptorFault (FilesStruct Process)}
    (lasting : files.Lasting) (ran : step.run files = some outcome) :
    Exists fun after => outcome = .ok after /\ after.Lasting := by
  have sound := lasting.sound
  cases step with
  | invoke process call =>
      rw [TableStep.run] at ran
      split at ran
      · rename_i ready
        cases ran
        rcases runPart_lasting lasting (start_meets sound ready.1 (Option.isNone_iff_eq_none.mp ready.2) call) with
          ⟨after, same, kept, _⟩
        exact ⟨after, same, kept⟩
      · cases ran
  | resume process ret value =>
      rw [TableStep.run] at ran
      rcases Option.map_eq_some_iff.mp ran with ⟨stage, inside, rfl⟩
      rcases runPart_lasting lasting (resume_meets sound inside ret value) with ⟨after, same, kept, _⟩
      exact ⟨after, same, kept⟩
  | clone parent child =>
      rw [TableStep.run] at ran
      split at ran
      · rename_i both
        cases ran
        refine ⟨_, rfl, sound.join both.2 (fun _ _ inside => sound.not_destroys both.1.1 inside) ?_, ?_⟩
        · by_contra destroyed
          have positive := sound.filesCount_pos both.1.1
          have none := (sound.gone (Bool.not_eq_false _ ▸ destroyed)).1
          omega
        · exact fun _ => ⟨child, .inl (Function.update_self ..)⟩
      · cases ran
  | exit process =>
      rw [TableStep.run] at ran
      split at ran
      · rename_i ready
        cases ran
        rcases exit_lasting sound ready.1 (Option.isNone_iff_eq_none.mp ready.2) with ⟨after, same, kept, _⟩
        exact ⟨after, same, kept⟩
      · cases ran

end Steps

/-- Every table of the system is sound. -/
def Tables.Lasting (tables : Tables Process) : Prop :=
  forall id files, tables id = some files -> files.Lasting

omit [DecidableEq Process] in
theorem Tables.Lasting.set {tables : Tables Process} (lasting : tables.Lasting) (id : Nat)
    {files : FilesStruct Process} (new : files.Lasting) : Tables.Lasting (Function.update tables id (some files)) := by
  intro other found here
  by_cases same : other = id
  · subst same
    rw [Function.update_self] at here
    cases here
    exact new
  · rw [Function.update_of_ne same] at here
    exact lasting other found here

theorem boot_lasting (first : Process) : (filesCreate.join first : FilesStruct Process).Lasting :=
  ⟨(unshared_sound (running_created none first)).join rfl (fun _ _ absurd => by cases absurd) rfl,
    fun _ => ⟨first, .inl (Function.update_self ..)⟩⟩

/-- No fault so far. -/
def Faultless (state : Except DescriptorFault (Tables Process)) : Prop :=
  Exists fun tables => state = .ok tables /\ tables.Lasting

theorem DescriptorStep.run_lasting {tables : Tables Process} {step : DescriptorStep Process}
    {outcome : Except DescriptorFault (Tables Process)} (lasting : tables.Lasting)
    (ran : step.run tables = some outcome) :
    Faultless outcome := by
  cases step with
  | table id step =>
      rw [DescriptorStep.run] at ran
      rcases Option.bind_eq_some_iff.mp ran with ⟨files, found, more⟩
      rcases Option.map_eq_some_iff.mp more with ⟨result, stepped, rfl⟩
      rcases step.run_lasting (lasting id files found) stepped with ⟨after, rfl, kept⟩
      exact ⟨_, rfl, lasting.set id kept⟩
  | fork id parent child copy =>
      rw [DescriptorStep.run] at ran
      rcases Option.bind_eq_some_iff.mp ran with ⟨files, found, more⟩
      split at more
      · rename_i both
        cases more
        have parents := (lasting id files found).sound
        rcases copy_lasting parents.balanced (parents.filesCount_pos both.1.1) child with ⟨after, made, kept, _⟩
        rw [made]
        exact ⟨_, rfl, lasting.set copy kept⟩
      · cases more

/-- The processes with an operation in flight on an entry. -/
def FilesStruct.inFlight (files : FilesStruct Process) (fd : Nat) : Set Process :=
  {process | Exists fun ticket => Exists fun op => files.stage process = some (.operating fd ticket op)}

/-- The file with a ticket is still open in an entry. -/
def FilesStruct.Holds (files : FilesStruct Process) (ticket : Nat) : Prop :=
  Exists fun fd => (files.fdArray fd).ticket = ticket /\
    ((files.fdArray fd).status = .fdOpened \/
      ((files.fdArray fd).status = .fdClosed /\ (files.fdArray fd).openCount ≠ 0))

omit [DecidableEq Process] in
/-- The operations in flight on an entry are those that have acquired the file
it holds. -/
theorem inFlight_eq {files : FilesStruct Process} (balanced : Balanced files files.uses) (fd : Nat) :
    files.inFlight fd = referrers files.uses (.operating fd (files.fdArray fd).ticket) := by
  ext process
  constructor
  · rintro ⟨ticket, op, inside⟩
    have used : files.uses process = some (.operating fd ticket) := by
      unfold FilesStruct.uses
      rw [inside]
      rfl
    rw [← (balanced.operating used).1]
    exact used
  · intro used
    rcases Option.bind_eq_some_iff.mp used with ⟨stage, inside, same⟩
    cases stage with
    | opening fd openFlags => cases same
    | sizing fd node openFlags => cases same
    | abandoning fd code => cases same
    | operating place ticket op =>
        cases same
        exact ⟨_, op, inside⟩
    | freeing fd next => cases same
    | leaving => cases same

omit [DecidableEq Process] in
theorem inFlight_counted {files : FilesStruct Process} (balanced : Balanced files files.uses) (fd : Nat) :
    (files.inFlight fd).Finite /\ (files.fdArray fd).inFlight = (files.inFlight fd).ncard := by
  rw [inFlight_eq balanced]
  have counted := balanced.counted (.operating fd (files.fdArray fd).ticket) (Set.mem_univ _)
  dsimp only [Use.fd] at counted
  rw [OpenFile.uses_operating, if_pos rfl] at counted
  exact counted

omit [DecidableEq Process] in
theorem holds_iff {files : FilesStruct Process} {ticket : Nat} :
    files.Holds ticket <-> Exists fun fd => (files.fdArray fd).holds = some ticket := by
  constructor
  · rintro ⟨fd, same, status⟩
    refine ⟨fd, ?_⟩
    unfold OpenFile.holds
    rw [if_pos status, same]
  · rintro ⟨fd, held⟩
    unfold OpenFile.holds at held
    split at held
    · rename_i status
      exact ⟨fd, Option.some.inj held, status⟩
    · cases held

/-- In every state of every run no assertion has failed; the open count of
each entry is that of the operations in flight on it, with one for the open
file itself; and `vfs_close` has been started once for each file that was
opened or duplicated and is not open any more, and for no other: not for one
that an operation in flight has acquired. -/
theorem run_keeps_descriptors (first : Process) (steps : List (DescriptorStep Process))
    {state : Except DescriptorFault (Tables Process)}
    (ran : (descriptorMachine Process).run (.ok (bootTables first)) steps = some state) :
    Exists fun tables => state = .ok tables /\ forall id files, tables id = some files ->
      (forall fd, (files.inFlight fd).Finite /\
        (files.fdArray fd).openCount =
          match (files.fdArray fd).status with
          | .fdNone => 0
          | .fdInit => 0
          | .fdOpened => 1 + (files.inFlight fd).ncard
          | .fdClosed => (files.inFlight fd).ncard) /\
      files.closings.Nodup /\
      (forall ticket, ticket ∈ files.closings <-> ticket < files.issued /\ ¬ files.Holds ticket) /\
      (forall process fd ticket op, files.stage process = some (.operating fd ticket op) ->
        (files.fdArray fd).ticket = ticket /\ files.Holds ticket) := by
  have start : Faultless (.ok (bootTables first)) := by
    refine ⟨_, rfl, ?_⟩
    intro id files here
    unfold bootTables at here
    split at here
    · cases here
      exact boot_lasting first
    · cases here
  have kept : Faultless state := by
    refine Machine.run_invariant_always ?_ start ran
    rintro _ step next ⟨tables, rfl, lasting⟩ stepped
    exact step.run_lasting lasting stepped
  rcases kept with ⟨tables, rfl, lasting⟩
  refine ⟨tables, rfl, ?_⟩
  intro id files here
  have balanced := (lasting id files here).sound.balanced
  refine ⟨?_, balanced.tickets.once, ?_, ?_⟩
  · intro fd
    rcases inFlight_counted balanced fd with ⟨finite, counted⟩
    have idle := (balanced.fine fd).idle
    unfold OpenFile.inFlight at counted
    refine ⟨finite, ?_⟩
    cases status : (files.fdArray fd).status with
    | fdNone => exact idle (.inl status)
    | fdInit => exact idle (.inr status)
    | fdOpened =>
        rw [status] at counted
        have others : (files.fdArray fd).openCount - 1 = (files.inFlight fd).ncard := counted
        exact Int.sub_eq_iff_eq_add'.mp others
    | fdClosed =>
        rw [status] at counted
        exact counted
  · intro ticket
    rw [holds_iff]
    constructor
    · intro closed
      refine ⟨balanced.tickets.old ticket closed, ?_⟩
      rintro ⟨fd, held⟩
      exact balanced.tickets.exclusive.inUse fd ticket held (.inr closed)
    · rintro ⟨issued, unheld⟩
      by_contra still
      exact unheld (balanced.tickets.held ticket issued still)
  · intro process fd ticket op inside
    have used : files.uses process = some (.operating fd ticket) := by
      unfold FilesStruct.uses
      rw [inside]
      rfl
    rcases balanced.operating used with ⟨rfl, flight⟩
    refine ⟨rfl, fd, rfl, ?_⟩
    unfold OpenFile.inFlight at flight
    cases status : (files.fdArray fd).status with
    | fdNone =>
        rw [status] at flight
        cases flight
    | fdInit =>
        rw [status] at flight
        cases flight
    | fdOpened => exact .inl rfl
    | fdClosed =>
        rw [status] at flight
        exact .inr ⟨rfl, Int.ne_of_gt flight⟩

/-- A close overtakes a read, the entry is freed by the reader, and another
open meanwhile takes the next entry; a child with a copy exits. -/
def closeDuringRead : List (DescriptorStep Nat) :=
  [.table 0 (.clone 0 1), .table 0 (.invoke 0 (.openFile 2)), .table 0 (.resume 0 0 77),
    .table 0 (.invoke 1 (.read 0)), .table 0 (.invoke 0 (.close 0)), .table 0 (.invoke 0 (.openFile 34)),
    .table 0 (.resume 0 0 78), .table 0 (.resume 0 0 500), .table 0 (.resume 1 0 10), .table 0 (.resume 1 0 0),
    .table 0 (.invoke 0 (.dup 1 noFd)), .fork 0 0 2 1, .table 1 (.exit 2), .table 1 (.resume 2 0 0),
    .table 1 (.resume 2 0 0)]

theorem closeDuringRead_returns :
    ((descriptorMachine Nat).run (.ok (bootTables 0)) closeDuringRead).isSome = true := by
  decide +kernel

theorem closeDuringRead_keeps_descriptors :
    Exists fun state => (descriptorMachine Nat).run (.ok (bootTables 0)) closeDuringRead = some state /\
      Exists fun tables => state = .ok tables /\ forall id files, tables id = some files ->
        (forall fd, (files.inFlight fd).Finite /\
          (files.fdArray fd).openCount =
            match (files.fdArray fd).status with
            | .fdNone => 0
            | .fdInit => 0
            | .fdOpened => 1 + (files.inFlight fd).ncard
            | .fdClosed => (files.inFlight fd).ncard) /\
        files.closings.Nodup /\
        (forall ticket, ticket ∈ files.closings <-> ticket < files.issued /\ ¬ files.Holds ticket) /\
        (forall process fd ticket op, files.stage process = some (.operating fd ticket op) ->
          (files.fdArray fd).ticket = ticket /\ files.Holds ticket) := by
  rcases Option.isSome_iff_exists.mp closeDuringRead_returns with ⟨state, ran⟩
  exact ⟨state, ran, run_keeps_descriptors 0 closeDuringRead ran⟩

end Files
end Ucore
