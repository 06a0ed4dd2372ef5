import Ucore.Files.FdArray
import Ucore.Library.Ownership
import Ucore.Library.ReferenceCount

namespace Ucore
namespace Files

open Library Library.Program

/-!
# What the counts of an entry mean

A process in a `vop_*` call uses an entry in one of three ways: it sets it up,
it operates on its file, or it frees it.  The status and the open count of an
entry say exactly how many processes use it, and how.  The operations on a
file also know its ticket, so that an entry that counts them still holds the
file they have acquired.
-/

/-- How a process uses an entry while it waits. -/
inductive Use where
  | setting (fd : Nat)
  | operating (fd ticket : Nat)
  | freeing (fd : Nat)
deriving DecidableEq

def Use.fd : Use -> Nat
  | .setting fd => fd
  | .operating fd _ => fd
  | .freeing fd => fd

def Stage.use : Stage -> Option Use
  | .opening fd _ => some (.setting fd)
  | .sizing fd _ _ => some (.setting fd)
  | .abandoning fd _ => some (.setting fd)
  | .operating fd ticket _ => some (.operating fd ticket)
  | .freeing fd _ => some (.freeing fd)
  | .leaving => none

namespace OpenFile

/-- The operations in flight that the open count counts. -/
def inFlight (file : OpenFile) : Int :=
  match file.status with
  | .fdNone => 0
  | .fdInit => 0
  | .fdOpened => file.openCount - 1
  | .fdClosed => file.openCount

/-- How many processes use the entry in some way. -/
def uses (file : OpenFile) : Use -> Int
  | .setting _ => if file.status = .fdInit then 1 else 0
  | .operating _ ticket => if ticket = file.ticket then file.inFlight else 0
  | .freeing _ => if file.status = .fdClosed /\ file.openCount = 0 then 1 else 0

@[simp] theorem uses_setting (file : OpenFile) (fd : Nat) :
    file.uses (.setting fd) = if file.status = .fdInit then 1 else 0 := rfl

@[simp] theorem uses_operating (file : OpenFile) (fd ticket : Nat) :
    file.uses (.operating fd ticket) = if ticket = file.ticket then file.inFlight else 0 := rfl

@[simp] theorem uses_freeing (file : OpenFile) (fd : Nat) :
    file.uses (.freeing fd) = if file.status = .fdClosed /\ file.openCount = 0 then 1 else 0 := rfl

/-- The file that the entry still holds open. -/
def holds (file : OpenFile) : Option Nat :=
  if file.status = .fdOpened \/ (file.status = .fdClosed /\ file.openCount ≠ 0) then some file.ticket else none

/-- What an entry is at any time: it knows its number, has a node while it is
open, and no uses before that. -/
structure Fine (file : OpenFile) (fd : Nat) : Prop where
  number : file.fd = fd
  idle : file.status = .fdNone \/ file.status = .fdInit -> file.openCount = 0
  node : file.status = .fdOpened -> file.node ≠ none
  bound : filesStructNentry <= fd -> file.status = .fdNone

end OpenFile

/-- An entry changes while a process changes its use of it. -/
structure Turn (fd : Nat) (was : OpenFile) (use : Option Use) (file : OpenFile) (next : Option Use) : Prop where
  own : forall used, use = some used -> used.fd = fd
  its : forall used, next = some used -> used.fd = fd
  setting : file.uses (.setting fd) + (if use = some (.setting fd) then 1 else 0) =
    was.uses (.setting fd) + (if next = some (.setting fd) then 1 else 0)
  operating : forall ticket, file.uses (.operating fd ticket) + (if use = some (.operating fd ticket) then 1 else 0) =
    was.uses (.operating fd ticket) + (if next = some (.operating fd ticket) then 1 else 0)
  freeing : file.uses (.freeing fd) + (if use = some (.freeing fd) then 1 else 0) =
    was.uses (.freeing fd) + (if next = some (.freeing fd) then 1 else 0)
  fine : file.Fine fd

theorem Turn.balance {fd : Nat} {was file : OpenFile} {use next : Option Use} (turn : Turn fd was use file next)
    {used : Use} (here : used.fd = fd) : file.uses used + (if use = some used then 1 else 0) =
      was.uses used + (if next = some used then 1 else 0) := by
  subst here
  cases used with
  | setting fd => exact turn.setting
  | operating fd ticket => exact turn.operating ticket
  | freeing fd => exact turn.freeing

/-! ## Tickets -/

/-- Each ticket that was handed out is held by one entry or closed, once. -/
structure Tickets (holds : Nat -> Option Nat) (issued : Nat) (closings : List Nat) : Prop where
  exclusive : Exclusive holds fun ticket => issued <= ticket \/ ticket ∈ closings
  held : forall ticket, ticket < issued -> ticket ∉ closings -> Exists fun fd => holds fd = some ticket
  once : closings.Nodup
  old : forall ticket, ticket ∈ closings -> ticket < issued

namespace Tickets

variable {holds : Nat -> Option Nat} {issued : Nat} {closings : List Nat}

/-- An entry gets the next ticket. -/
theorem issue (tickets : Tickets holds issued closings) {fd : Nat} (vacant : holds fd = none) :
    Tickets (Function.update holds fd (some issued)) (issued + 1) closings where
  exclusive := by
    refine tickets.exclusive.take (.inl (Nat.le_refl _)) ?_
    rintro other (later | closed)
    · exact ⟨.inl (by omega), by omega⟩
    · exact ⟨.inr closed, Nat.ne_of_lt (tickets.old other closed)⟩
  held := by
    intro ticket before open_
    by_cases last : ticket = issued
    · subst last
      exact ⟨fd, Function.update_self ..⟩
    · rcases tickets.held ticket (by omega) open_ with ⟨place, here⟩
      have other : place ≠ fd := by
        rintro rfl
        rw [vacant] at here
        cases here
      exact ⟨place, (Function.update_of_ne other ..).trans here⟩
  once := tickets.once
  old := fun ticket closed => Nat.lt_succ_of_lt (tickets.old ticket closed)

/-- The file of an entry is closed. -/
theorem close (tickets : Tickets holds issued closings) {fd ticket : Nat} (here : holds fd = some ticket) :
    Tickets (Function.update holds fd none) issued (ticket :: closings) where
  exclusive := by
    refine tickets.exclusive.release here ?_
    rintro other (later | closed)
    · exact .inl (.inl later)
    · exact (List.mem_cons.mp closed).elim .inr fun before => .inl (.inr before)
  held := by
    intro other before open_
    rcases tickets.held other before (fun closed => open_ (List.mem_cons_of_mem _ closed)) with ⟨place, there⟩
    have different : place ≠ fd := by
      rintro rfl
      rw [here] at there
      cases there
      exact open_ List.mem_cons_self
    exact ⟨place, (Function.update_of_ne different ..).trans there⟩
  once := by
    rw [List.nodup_cons]
    exact ⟨fun closed => tickets.exclusive.inUse fd ticket here (.inr closed), tickets.once⟩
  old := by
    intro other closed
    rcases List.mem_cons.mp closed with rfl | before
    · by_contra late
      exact tickets.exclusive.inUse fd other here (.inl (by omega))
    · exact tickets.old other before

end Tickets

/-! ## The balance of a table -/

variable {Process : Type}

/-- What each process uses while it waits. -/
def FilesStruct.uses (files : FilesStruct Process) : Process -> Option Use :=
  fun process => (files.stage process).bind Stage.use

/-- The entries are fine and agree with the uses: `open_count` counts the uses
of an entry, and each node that an opening got is held or was closed. -/
structure Balanced (files : FilesStruct Process) (uses : Process -> Option Use) : Prop where
  counted : Counted uses (fun use => (files.fdArray use.fd).uses use) Set.univ
  fine : forall fd, (files.fdArray fd).Fine fd
  tickets : Tickets (fun fd => (files.fdArray fd).holds) files.issued files.closings

namespace Balanced

variable {files : FilesStruct Process} {uses : Process -> Option Use} {process : Process}

/-- Only the entries and the tickets count. -/
theorem elsewhere (balanced : Balanced files uses) {other : FilesStruct Process}
    (fdArray : other.fdArray = files.fdArray)
    (issued : other.issued = files.issued) (closings : other.closings = files.closings) : Balanced other uses where
  counted := fdArray ▸ balanced.counted
  fine := fdArray ▸ balanced.fine
  tickets := by
    rw [fdArray, issued, closings]
    exact balanced.tickets

theorem uses_pos (balanced : Balanced files uses) {use : Use} (used : uses process = some use) :
    0 < (files.fdArray use.fd).uses use :=
  balanced.counted.pos (Set.mem_univ use) used

/-- An entry that is set up is `FD_INIT`. -/
theorem setting (balanced : Balanced files uses) {fd : Nat} (used : uses process = some (.setting fd)) :
    (files.fdArray fd).status = .fdInit := by
  have positive := balanced.uses_pos used
  rw [OpenFile.uses_setting] at positive
  split at positive
  · assumption
  · exact absurd positive (Int.lt_irrefl 0)

/-- An operation in flight finds the file it has acquired. -/
theorem operating (balanced : Balanced files uses) {fd ticket : Nat}
    (used : uses process = some (.operating fd ticket)) :
    ticket = (files.fdArray fd).ticket /\ 0 < (files.fdArray fd).inFlight := by
  have positive := balanced.uses_pos used
  rw [OpenFile.uses_operating] at positive
  split at positive
  · exact ⟨by assumption, positive⟩
  · exact absurd positive (Int.lt_irrefl 0)

/-- An entry that is freed is closed and nobody operates on it. -/
theorem freeing (balanced : Balanced files uses) {fd : Nat} (used : uses process = some (.freeing fd)) :
    (files.fdArray fd).status = .fdClosed /\ (files.fdArray fd).openCount = 0 := by
  have positive := balanced.uses_pos used
  rw [OpenFile.uses_freeing] at positive
  split at positive
  · assumption
  · exact absurd positive (Int.lt_irrefl 0)

theorem inFlight_nonneg (balanced : Balanced files uses) (fd : Nat) : 0 <= (files.fdArray fd).inFlight := by
  have counted : (files.fdArray fd).uses (.operating fd (files.fdArray fd).ticket) = _ :=
    (balanced.counted (.operating fd (files.fdArray fd).ticket) (Set.mem_univ _)).2
  rw [OpenFile.uses_operating, if_pos rfl] at counted
  rw [counted]
  exact Int.natCast_nonneg _

variable [DecidableEq Process]

/-- The uses and the counts of one entry change together. -/
theorem recount (balanced : Balanced files uses) {fd : Nat} {file : OpenFile} {next : Option Use}
    (turn : Turn fd (files.fdArray fd) (uses process) file next) :
    Counted (Function.update uses process next)
      (fun use => (Function.update files.fdArray fd file use.fd).uses use) Set.univ := by
  refine balanced.counted.move process next ?_
  intro use
  by_cases here : use.fd = fd
  · rw [here, Function.update_self]
    exact turn.balance here
  · rw [Function.update_of_ne here, if_neg fun used => here (turn.own use used),
      if_neg fun used => here (turn.its use used)]

omit [DecidableEq Process] in
theorem fine_update (balanced : Balanced files uses) {fd : Nat} {file : OpenFile} (fine : file.Fine fd) (other : Nat) :
    (Function.update files.fdArray fd file other).Fine other := by
  by_cases here : other = fd
  · subst here
    rw [Function.update_self]
    exact fine
  · rw [Function.update_of_ne here]
    exact balanced.fine other

omit [DecidableEq Process] in
theorem holds_update (files : FilesStruct Process) (fd : Nat) (file : OpenFile) :
    (fun other => (Function.update files.fdArray fd file other).holds) =
      Function.update (fun other => (files.fdArray other).holds) fd file.holds := by
  funext other
  by_cases here : other = fd
  · rw [here, Function.update_self, Function.update_self]
  · rw [Function.update_of_ne here, Function.update_of_ne here]

/-- The entry changes and holds what it held. -/
theorem keep (balanced : Balanced files uses) {fd : Nat} {file : OpenFile} {next : Option Use}
    (turn : Turn fd (files.fdArray fd) (uses process) file next)
    (holds : file.holds = (files.fdArray fd).holds) :
    Balanced (files.setFile fd file) (Function.update uses process next) where
  counted := balanced.recount turn
  fine := balanced.fine_update turn.fine
  tickets := by
    have same := holds_update files fd file
    rw [holds, Function.update_eq_self_iff.mpr rfl] at same
    exact same ▸ balanced.tickets

/-- A file is opened in the entry. -/
theorem issue (balanced : Balanced files uses) {fd : Nat} {file : OpenFile} {next : Option Use}
    (turn : Turn fd (files.fdArray fd) (uses process) file next)
    (vacant : (files.fdArray fd).holds = none) (holds : file.holds = some files.issued) :
    Balanced { files.setFile fd file with issued := files.issued + 1 } (Function.update uses process next) where
  counted := balanced.recount turn
  fine := balanced.fine_update turn.fine
  tickets := by
    have opened := balanced.tickets.issue vacant
    rw [← holds, ← holds_update] at opened
    exact opened

/-- The file of the entry is closed. -/
theorem close (balanced : Balanced files uses) {fd ticket : Nat} {file : OpenFile} {next : Option Use}
    (turn : Turn fd (files.fdArray fd) (uses process) file next)
    (held : (files.fdArray fd).holds = some ticket) (holds : file.holds = none) :
    Balanced { files.setFile fd file with closings := ticket :: files.closings }
      (Function.update uses process next) where
  counted := balanced.recount turn
  fine := balanced.fine_update turn.fine
  tickets := by
    have closed := balanced.tickets.close held
    rw [← holds, ← holds_update] at closed
    exact closed

end Balanced

/-! ## The functions on one entry -/

variable [DecidableEq Process]

/-- A process runs in a call: the table is balanced for what the process
would use if it waited now, and the rest of the `files_struct` is as it was. -/
structure Running (files : FilesStruct Process) (process : Process) (use : Option Use) (now : FilesStruct Process) :
    Prop where
  same : now = { files with fdArray := now.fdArray, issued := now.issued, closings := now.closings }
  balanced : Balanced now (Function.update files.uses process use)

theorem Turn.at {fd : Nat} {was file : OpenFile} {use next : Option Use} (turn : Turn fd was use file next)
    (files : FilesStruct Process) (process : Process) :
    Turn fd was (Function.update files.uses process use process) file next := by
  rw [Function.update_self]
  exact turn

namespace Running

variable {files now : FilesStruct Process} {process : Process} {use : Option Use} {fd : Nat}

/-- The entry changes in the same use. -/
theorem setFile (running : Running files process use now) {file : OpenFile} {next : Option Use}
    (turn : Turn fd (now.fdArray fd) use file next) (holds : file.holds = (now.fdArray fd).holds) :
    Running files process next (now.setFile fd file) where
  same := by
    rw [running.same]
    rfl
  balanced := by
    have kept := running.balanced.keep (turn.at files process) holds
    rw [Function.update_idem] at kept
    exact kept

/-- A file is opened in the entry. -/
theorem issue (running : Running files process use now) {file : OpenFile} {next : Option Use}
    (turn : Turn fd (now.fdArray fd) use file next) (vacant : (now.fdArray fd).holds = none)
    (holds : file.holds = some now.issued) :
    Running files process next { now.setFile fd file with issued := now.issued + 1 } where
  same := by
    rw [running.same]
    rfl
  balanced := by
    have opened := running.balanced.issue (turn.at files process) vacant holds
    rw [Function.update_idem] at opened
    exact opened

/-- The file of the entry is closed. -/
theorem close (running : Running files process use now) {file : OpenFile} {next : Option Use} {ticket : Nat}
    (turn : Turn fd (now.fdArray fd) use file next) (held : (now.fdArray fd).holds = some ticket)
    (holds : file.holds = none) :
    Running files process next { now.setFile fd file with closings := ticket :: now.closings } where
  same := by
    rw [running.same]
    rfl
  balanced := by
    have closed := running.balanced.close (turn.at files process) held holds
    rw [Function.update_idem] at closed
    exact closed

theorem setting (running : Running files process (some (.setting fd)) now) : (now.fdArray fd).status = .fdInit :=
  running.balanced.setting (Function.update_self ..)

/-- `fd_array_free` of an entry that was being set up -/
theorem fdArrayFree_init (running : Running files process (some (.setting fd)) now) :
    Meets (fdArrayFree fd) now
      ⟨fun waits after => waits = false /\ Running files process none after, fun _ _ => False, fun _ => False⟩ := by
  have init := running.setting
  have fine := running.balanced.fine fd
  have none := fine.idle (.inr init)
  unfold fdArrayFree getFile Files.setFile
  simp only [meets_bind, meets_get, meets_pure, meets_assert, meets_ite, meets_modify]
  refine ⟨fun _ => ⟨fun _ => ?_, fun positive => positive none⟩, fun other => other (.inl init)⟩
  rw [if_neg (by rw [init]; decide)]
  refine ⟨trivial, running.setFile ⟨?_, by rintro _ ⟨⟩, ?_, ?_, ?_, ?_⟩ ?_⟩
  · rintro used ⟨⟩
    rfl
  · simp [init]
  · simp [OpenFile.inFlight, init]
  · simp [init]
  · exact ⟨fine.number, fun _ => none, by rintro ⟨⟩, fun _ => rfl⟩
  · simp [OpenFile.holds, init]

theorem fdArrayAlloc_meets (running : Running files process none now) (counted : 0 < now.filesCount) (number : Int) :
    Meets (fdArrayAlloc number) now
      ⟨fun fd after => Running files process (some (.setting fd)) after /\
          (forall other, other ≠ fd -> after.fdArray other = now.fdArray other) /\ (now.fdArray fd).status = .fdNone,
        fun _ after => after = now, fun _ => False⟩ := by
  unfold fdArrayAlloc getFdArray getFile Files.setFile
  simp only [meets_bind, meets_get, meets_pure, meets_assert]
  refine ⟨fun _ => ?_, fun absent => absent counted⟩
  cases found : fdArrayFind now number with
  | error code => exact (meets_throw _).mpr rfl
  | ok fd =>
      have inside : (now.fdArray fd).status = .fdNone /\ fd < filesStructNentry := by
        unfold fdArrayFind at found
        split at found
        · split at found
          · rename_i search
            cases found
            have status := List.find?_some search
            exact ⟨of_decide_eq_true status, List.mem_range.mp (List.mem_of_find?_eq_some search)⟩
          · cases found
        · split at found
          · rename_i _ valid
            split at found
            · cases found
              have low : 0 <= number := valid.1
              have high : number < filesStructNentry := valid.2
              exact ⟨by assumption, by omega⟩
            · cases found
          · cases found
      have fine := running.balanced.fine fd
      have zero := fine.idle (.inl inside.1)
      simp only [meets_bind, meets_get, meets_pure, meets_assert, meets_modify]
      refine ⟨fun _ => ⟨running.setFile ⟨by rintro _ ⟨⟩, ?_, ?_, ?_, ?_, ?_⟩ ?_, ?_, inside.1⟩,
        fun positive => positive zero⟩
      · rintro used ⟨⟩
        rfl
      · simp [inside.1]
      · simp [OpenFile.inFlight, inside.1]
      · simp [inside.1]
      · exact ⟨fine.number, fun _ => zero, by rintro ⟨⟩, fun beyond => by have := inside.2; omega⟩
      · simp [OpenFile.holds, inside.1]
      · exact fun other different => Function.update_of_ne different ..

theorem fdArrayAcquire_meets (running : Running files process none now) (opened : (now.fdArray fd).status = .fdOpened) :
    Meets (fdArrayAcquire fd) now
      ⟨fun _ after => Running files process (some (.operating fd (after.fdArray fd).ticket)) after,
        fun _ _ => False, fun _ => False⟩ := by
  unfold fdArrayAcquire getFile Files.setFile
  simp only [meets_bind, meets_get, meets_pure, meets_assert, meets_modify]
  refine ⟨fun _ => ?_, fun other => other opened⟩
  have fine := running.balanced.fine fd
  have ticket :
    ((now.setFile fd { now.fdArray fd with openCount := (now.fdArray fd).openCount + 1 }).fdArray fd).ticket =
      (now.fdArray fd).ticket := by
    rw [FilesStruct.setFile_self]
  rw [ticket]
  refine running.setFile ⟨by rintro _ ⟨⟩, ?_, ?_, ?_, ?_, ?_⟩ ?_
  · rintro used ⟨⟩
    rfl
  · simp [opened]
  · intro number
    by_cases same : number = (now.fdArray fd).ticket
    · simp [OpenFile.inFlight, opened, same]
    · simp [same, Ne.symm same]
  · simp [opened]
  · refine ⟨fine.number, ?_, fine.node, fine.bound⟩
    rintro (absurd | absurd)
    · cases opened.symm.trans absurd
    · cases opened.symm.trans absurd
  · simp [OpenFile.holds, opened]

theorem fdArrayOpen_meets (running : Running files process (some (.setting fd)) now)
    (node : (now.fdArray fd).node ≠ none) :
    Meets (fdArrayOpen fd) now
      ⟨fun _ after => Running files process none after /\
          (forall other, other ≠ fd -> after.fdArray other = now.fdArray other),
        fun _ _ => False, fun _ => False⟩ := by
  have init := running.setting
  have fine := running.balanced.fine fd
  have zero := fine.idle (.inr init)
  unfold fdArrayOpen getFile Files.setFile
  simp only [meets_bind, meets_get, meets_pure, meets_assert, meets_modify]
  refine ⟨fun _ => ⟨running.issue ⟨?_, by rintro _ ⟨⟩, ?_, ?_, ?_, ?_⟩ ?_ ?_, ?_⟩, fun other => other ⟨init, node⟩⟩
  · rintro used ⟨⟩
    rfl
  · simp [init]
  · simp [OpenFile.inFlight, init, zero]
  · simp [init]
  · refine ⟨fine.number, ?_, fun _ => node, fun beyond => ?_⟩
    · rintro (absurd | absurd) <;> cases absurd
    · cases init.symm.trans (fine.bound beyond)
  · simp [OpenFile.holds, init]
  · simp [OpenFile.holds]
  · exact fun other different => Function.update_of_ne different ..

theorem fdArrayFreed_meets (running : Running files process (some (.freeing fd)) now) :
    Meets (fdArrayFreed fd) now
      ⟨fun _ after => Running files process none after /\ (after.fdArray fd).status = .fdNone /\
          (forall other, other ≠ fd -> after.fdArray other = now.fdArray other),
        fun _ _ => False, fun _ => False⟩ := by
  have closed := running.balanced.freeing (Function.update_self ..)
  have fine := running.balanced.fine fd
  unfold fdArrayFreed getFile Files.setFile
  simp only [meets_bind, meets_get, meets_pure, meets_modify]
  refine ⟨running.setFile ⟨?_, by rintro _ ⟨⟩, ?_, ?_, ?_, ?_⟩ ?_, ?_, ?_⟩
  · rintro used ⟨⟩
    rfl
  · simp [closed.1]
  · simp [OpenFile.inFlight, closed.1, closed.2]
  · simp [closed]
  · exact ⟨fine.number, fun _ => closed.2, by rintro ⟨⟩, fun _ => rfl⟩
  · simp [OpenFile.holds, closed]
  · rw [FilesStruct.setFile_self]
  · exact fun other different => Function.update_of_ne different ..

/-- The open count goes down by one; at zero a closed entry is freed. -/
theorem fdArrayDrop_meets (running : Running files process use now) {file : OpenFile} {ticket : Nat}
    (stays : file.openCount - 1 ≠ 0 -> Turn fd (now.fdArray fd) use { file with openCount := file.openCount - 1 } none)
    (goes : file.openCount - 1 = 0 -> file.status = .fdClosed /\
      Turn fd (now.fdArray fd) use { file with openCount := file.openCount - 1 } (some (.freeing fd)))
    (held : (now.fdArray fd).holds = some ticket) (same : file.ticket = ticket)
    (status : file.status = .fdOpened \/ file.status = .fdClosed) :
    Meets (fdArrayDrop fd file) now
      ⟨fun waits after => Running files process (if waits = true then some (.freeing fd) else none) after /\
          (forall other, other ≠ fd -> after.fdArray other = now.fdArray other) /\
          (waits = false -> file.openCount - 1 ≠ 0),
        fun _ _ => False, fun _ => False⟩ := by
  unfold fdArrayDrop Files.setFile
  simp only [meets_bind, meets_modify, meets_ite, meets_pure]
  split
  · rename_i zero
    rcases goes zero with ⟨closed, turn⟩
    unfold fdArrayFree getFile
    simp only [meets_bind, meets_get, meets_pure, meets_assert, meets_ite, meets_modify, FilesStruct.setFile_self]
    refine ⟨fun _ => ⟨fun _ => ?_, fun positive => positive zero⟩, fun other => other (.inr closed)⟩
    subst same
    rw [if_pos closed, if_pos trivial]
    refine ⟨running.close turn held ?_, ?_, by rintro ⟨⟩⟩
    · simp [OpenFile.holds, closed, zero]
    · exact fun other different => Function.update_of_ne different ..
  · rename_i positive
    refine ⟨running.setFile (stays positive) ?_, ?_, fun _ => positive⟩
    · rw [held]
      rcases status with opened | closed
      · simp [OpenFile.holds, opened, same]
      · simp [OpenFile.holds, closed, positive, same]
    · exact fun other different => Function.update_of_ne different ..

theorem fdArrayRelease_meets {ticket : Nat} (running : Running files process (some (.operating fd ticket)) now) :
    Meets (fdArrayRelease fd) now
      ⟨fun waits after => Running files process (if waits = true then some (.freeing fd) else none) after,
        fun _ _ => False, fun _ => False⟩ := by
  rcases running.balanced.operating (Function.update_self ..) with ⟨rfl, flight⟩
  have fine := running.balanced.fine fd
  have status : (now.fdArray fd).status = .fdOpened \/ (now.fdArray fd).status = .fdClosed := by
    unfold OpenFile.inFlight at flight
    cases here : (now.fdArray fd).status with
    | fdNone => simp [here] at flight
    | fdInit => simp [here] at flight
    | fdOpened => exact .inl rfl
    | fdClosed => exact .inr rfl
  have positive : 0 < (now.fdArray fd).openCount := by
    unfold OpenFile.inFlight at flight
    rcases status with here | here
    · rw [here] at flight
      dsimp only at flight
      omega
    · rw [here] at flight
      exact flight
  have fineAfter : forall count, ({ now.fdArray fd with openCount := count } : OpenFile).Fine fd := by
    intro count
    refine ⟨fine.number, ?_, fine.node, fine.bound⟩
    rintro (absurd | absurd)
    · rcases status with here | here <;> cases here.symm.trans absurd
    · rcases status with here | here <;> cases here.symm.trans absurd
  have held : (now.fdArray fd).holds = some (now.fdArray fd).ticket := by
    unfold OpenFile.holds
    rw [if_pos (status.imp id fun closed => ⟨closed, by omega⟩)]
  unfold fdArrayRelease getFile
  simp only [meets_bind, meets_get, meets_pure, meets_assert]
  refine ⟨fun _ => ⟨fun _ => ?_, fun absent => absent positive⟩, fun absent => absent status⟩
  refine (running.fdArrayDrop_meets ?_ ?_ held rfl status).mono (fun _ _ both => both.1) (fun _ _ fails => fails)
    (fun _ stops => stops)
  · -- others operate on the file, or it has not been closed
    intro more
    refine ⟨?_, by rintro _ ⟨⟩, ?_, ?_, ?_, fineAfter _⟩
    · rintro used ⟨⟩
      rfl
    · rcases status with here | here <;> simp [here]
    · intro number
      by_cases same : number = (now.fdArray fd).ticket
      · rcases status with here | here <;> simp [OpenFile.inFlight, here, same]
      · simp [same, Ne.symm same]
    · rcases status with here | here
      · simp [here]
      · simp [here, more, show (now.fdArray fd).openCount ≠ 0 by omega]
  · intro last
    have closed : (now.fdArray fd).status = .fdClosed := by
      refine status.resolve_left fun opened => ?_
      unfold OpenFile.inFlight at flight
      rw [opened] at flight
      dsimp only at flight
      omega
    refine ⟨closed, ?_, ?_, ?_, ?_, ?_, fineAfter _⟩
    · rintro used ⟨⟩
      rfl
    · rintro used ⟨⟩
      rfl
    · simp [closed]
    · intro number
      by_cases same : number = (now.fdArray fd).ticket
      · simp [OpenFile.inFlight, closed, same]
      · simp [same, Ne.symm same]
    · simp [closed, last, show (now.fdArray fd).openCount ≠ 0 by omega]

theorem fdArrayClose_meets (running : Running files process none now) (opened : (now.fdArray fd).status = .fdOpened) :
    Meets (fdArrayClose fd) now
      ⟨fun waits after => Running files process (if waits = true then some (.freeing fd) else none) after /\
          (forall other, other ≠ fd -> after.fdArray other = now.fdArray other) /\
          (waits = false -> (now.fdArray fd).openCount - 1 ≠ 0),
        fun _ _ => False, fun _ => False⟩ := by
  have flight := running.balanced.inFlight_nonneg fd
  have fine := running.balanced.fine fd
  have positive : 0 < (now.fdArray fd).openCount := by
    unfold OpenFile.inFlight at flight
    rw [opened] at flight
    dsimp only at flight
    omega
  have fineAfter : forall count,
      ({ now.fdArray fd with status := .fdClosed, openCount := count } : OpenFile).Fine fd := by
    intro count
    refine ⟨fine.number, ?_, by rintro ⟨⟩, fun beyond => ?_⟩
    · rintro (absurd | absurd) <;> cases absurd
    · cases opened.symm.trans (fine.bound beyond)
  have held : (now.fdArray fd).holds = some (now.fdArray fd).ticket := by
    unfold OpenFile.holds
    rw [if_pos (.inl opened)]
  unfold fdArrayClose getFile
  simp only [meets_bind, meets_get, meets_pure, meets_assert]
  refine ⟨fun _ => ⟨fun _ => ?_, fun absent => absent positive⟩, fun absent => absent opened⟩
  refine running.fdArrayDrop_meets ?_ ?_ held rfl (.inr rfl)
  · intro more
    refine ⟨by rintro _ ⟨⟩, by rintro _ ⟨⟩, ?_, ?_, ?_, fineAfter _⟩
    · simp [opened]
    · intro number
      by_cases same : number = (now.fdArray fd).ticket
      · simp [OpenFile.inFlight, opened, same]
      · simp [same]
    · have here : (now.fdArray fd).openCount - 1 ≠ 0 := more
      simp [opened, here]
  · intro last
    have here : (now.fdArray fd).openCount - 1 = 0 := last
    refine ⟨rfl, by rintro _ ⟨⟩, ?_, ?_, ?_, ?_, fineAfter _⟩
    · rintro used ⟨⟩
      rfl
    · simp [opened]
    · intro number
      by_cases same : number = (now.fdArray fd).ticket
      · simp [OpenFile.inFlight, opened, same, here]
      · simp [same]
    · simp [opened, here]

end Running

end Files
end Ucore
