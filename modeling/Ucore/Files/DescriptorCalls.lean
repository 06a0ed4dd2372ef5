import Ucore.Files.FdBalance

namespace Ucore
namespace Files

open Library Library.Program

/-!
# The calls keep the balance

Each function of `file.c` and `fs.c` takes a sound table to a sound table:
when its process waits, the use that it leaves behind is the one the entry
counts, and no assertion of the `fd_array_*` functions fails on the way.
-/

section Calls

variable {Process : Type} [DecidableEq Process]

/-- The stages of `files_destroy`, which nobody shares any more. -/
def Stage.Destroys : Stage -> Prop
  | .leaving => True
  | .freeing _ (.sweep true _) => True
  | _ => False

/-- What holds of a table between two steps, whoever is in the middle of a call.
The uses that the calls have of an entry are counted; only the last process to
leave destroys the table. -/
structure FilesStruct.Sound (files : FilesStruct Process) : Prop where
  balanced : Balanced files files.uses
  sharers : Counted (fun process => if files.sharing process = true then some () else none)
    (fun _ => files.filesCount) Set.univ
  inside : forall process stage, files.stage process = some stage -> files.sharing process = true \/ stage.Destroys
  destroying : forall process stage, files.stage process = some stage -> stage.Destroys ->
    files.filesCount = 0 /\ forall other, other ≠ process -> files.stage other = none
  swept : forall process fd remaining, files.stage process = some (.freeing fd (.sweep true remaining)) ->
    forall other, other < filesStructNentry - remaining -> other ≠ fd -> (files.fdArray other).status = .fdNone
  gone : files.destroyed = true -> files.filesCount = 0 /\ (forall process, files.stage process = none) /\
    forall fd, (files.fdArray fd).status = .fdNone

/-- A table that some process has a hold on until it is destroyed: the process
shares it, or it is about to destroy it. -/
structure FilesStruct.Lasting (files : FilesStruct Process) : Prop where
  sound : files.Sound
  shared : files.destroyed = false -> Exists fun process =>
    files.sharing process = true \/ (files.stage process).isSome = true

/-- A process has left the table for the time being: it waits or has returned. -/
structure Left (files : FilesStruct Process) (process : Process) (after : FilesStruct Process) : Prop where
  stage : Exists fun stage => after.stage = Function.update files.stage process stage /\
    forall inside, stage = some inside -> ¬ inside.Destroys
  filesCount : after.filesCount = files.filesCount
  sharing : after.sharing = files.sharing
  destroyed : after.destroyed = files.destroyed
  balanced : Balanced after after.uses

/-- How the part of a call ends that has changed the table. -/
def leaves (files : FilesStruct Process) (process : Process) : Post (FilesStruct Process) Int DescriptorFault Unit :=
  ⟨fun _ after => Left files process after, fun _ _ => False, fun _ => False⟩

/-- How a call ends; an error leaves the table as it was. -/
def answers (files : FilesStruct Process) (process : Process) : Post (FilesStruct Process) Int DescriptorFault Unit :=
  ⟨fun _ after => Left files process after, fun _ after => after = files, fun _ => False⟩

theorem leaves_answers {files now : FilesStruct Process} {process : Process} {program : Kernel Process Unit}
    (meets : Meets program now (leaves files process)) : Meets program now (answers files process) :=
  meets.mono (fun _ _ left => left) (fun _ _ fails => False.elim fails) (fun _ stops => stops)

/-- A process that has left returns to the table and leaves it again. -/
theorem Left.trans {files middle after : FilesStruct Process} {process : Process} (first : Left files process middle)
    (second : Left middle process after) : Left files process after where
  stage := by
    rcases first.stage with ⟨_, same, _⟩
    rcases second.stage with ⟨stage, again, calls⟩
    refine ⟨stage, ?_, calls⟩
    rw [again, same, Function.update_idem]
  filesCount := second.filesCount.trans first.filesCount
  sharing := second.sharing.trans first.sharing
  destroyed := second.destroyed.trans first.destroyed
  balanced := second.balanced

theorem uses_update {files after : FilesStruct Process} {process : Process} {stage : Option Stage}
    (same : after.stage = Function.update files.stage process stage) :
    after.uses = Function.update files.uses process (stage.bind Stage.use) := by
  funext other
  unfold FilesStruct.uses
  rw [same]
  by_cases here : other = process
  · rw [here, Function.update_self, Function.update_self]
  · rw [Function.update_of_ne here, Function.update_of_ne here]

namespace Running

variable {files now : FilesStruct Process} {process : Process} {use : Option Use} {fd : Nat}

omit [DecidableEq Process] in
theorem stage_eq [DecidableEq Process] (running : Running files process use now) : now.stage = files.stage := by
  rw [running.same]

theorem count_eq (running : Running files process use now) : now.filesCount = files.filesCount := by
  rw [running.same]

theorem sharing_eq (running : Running files process use now) : now.sharing = files.sharing := by
  rw [running.same]

theorem left (running : Running files process use now) {stage : Option Stage} (uses : stage.bind Stage.use = use)
    (calls : forall inside, stage = some inside -> ¬ inside.Destroys) (returned : List (Process × Int)) :
    Left files process { now with stage := Function.update now.stage process stage, returned := returned } := by
  have stages : Function.update now.stage process stage = Function.update files.stage process stage := by
    rw [running.stage_eq]
  have changed : FilesStruct.uses { now with stage := Function.update now.stage process stage, returned := returned } =
      Function.update files.uses process use := uses ▸ uses_update stages
  refine ⟨⟨stage, stages, calls⟩, ?_, ?_, ?_, ?_⟩
  · exact running.count_eq
  · change now.sharing = files.sharing
    rw [running.same]
  · change now.destroyed = files.destroyed
    rw [running.same]
  · rw [changed]
    exact running.balanced.elsewhere rfl rfl rfl

theorem wait_meets {stage : Stage} (running : Running files process stage.use now) (calls : ¬ stage.Destroys) :
    Meets (wait process stage) now (leaves files process) := by
  refine (meets_modify _).mpr (running.left rfl ?_ now.returned)
  rintro inside ⟨⟩
  exact calls

theorem finish_meets (running : Running files process none now) (code : Int) :
    Meets (finish process code) now (leaves files process) := by
  have returned : Left files process { now with
      stage := Function.update now.stage process none, returned := (process, code) :: now.returned } :=
    running.left rfl (fun _ absurd => by cases absurd) _
  exact (meets_modify _).mpr returned

theorem settle_meets {waits : Bool} (code : Int)
    (running : Running files process (if waits = true then some (.freeing fd) else none) now) :
    Meets (settle process fd code waits) now (leaves files process) := by
  unfold settle
  cases waits with
  | true => exact running.wait_meets (fun absurd => absurd)
  | false => exact running.finish_meets code

/-- Only data of the file changes. -/
theorem data (running : Running files process use now) {file : OpenFile}
    (own : forall used, use = some used -> used.fd = fd) (status : file.status = (now.fdArray fd).status)
    (number : file.fd = (now.fdArray fd).fd) (openCount : file.openCount = (now.fdArray fd).openCount)
    (ticket : file.ticket = (now.fdArray fd).ticket) (node : file.status = .fdOpened -> file.node ≠ none) :
    Running files process use (now.setFile fd file) := by
  have fine := running.balanced.fine fd
  have flight : file.inFlight = (now.fdArray fd).inFlight := by
    unfold OpenFile.inFlight
    rw [status, openCount]
  refine running.setFile ⟨own, own, ?_, ?_, ?_, ?_⟩ ?_
  · rw [OpenFile.uses_setting, OpenFile.uses_setting, status]
  · intro given
    rw [OpenFile.uses_operating, OpenFile.uses_operating, ticket, flight]
  · rw [OpenFile.uses_freeing, OpenFile.uses_freeing, status, openCount]
  · exact ⟨number.trans fine.number, fun idle => openCount.trans (fine.idle (status ▸ idle)), node,
      fun beyond => status.trans (fine.bound beyond)⟩
  · unfold OpenFile.holds
    rw [status, openCount, ticket]

theorem not_opened (running : Running files process (some (.setting fd)) now) {file : OpenFile}
    (status : file.status = (now.fdArray fd).status) : file.status = .fdOpened -> file.node ≠ none := by
  intro opened
  cases (status.trans running.setting).symm.trans opened

/-! ## `file_open` -/

theorem fileAbandoned_meets (running : Running files process (some (.setting fd)) now) (code : Int) :
    Meets (fileAbandoned process fd code) now (leaves files process) := by
  unfold fileAbandoned
  rw [meets_bind]
  refine running.fdArrayFree_init.mono ?_ (fun _ _ fails => fails) (fun _ stops => stops)
  rintro waits after ⟨same, freed⟩
  rw [same]
  exact freed.finish_meets code

theorem fileOpened_meets (running : Running files process (some (.setting fd)) now) (node openFlags : Nat) :
    Meets (fileOpened process fd node openFlags) now (leaves files process) := by
  unfold fileOpened getFile Files.setFile
  simp only [meets_bind, meets_get, meets_pure, meets_modify]
  have set : Running files process (some (.setting fd)) (now.setFile fd { now.fdArray fd with
      node := some node, readable := accmode openFlags ≠ 1, writable := accmode openFlags ≠ 0 }) := by
    refine running.data ?_ rfl rfl rfl rfl (fun _ => Option.some_ne_none node)
    rintro used ⟨⟩
    rfl
  refine (set.fdArrayOpen_meets ?_).mono ?_ (fun _ _ fails => fails) (fun _ stops => stops)
  · rw [FilesStruct.setFile_self]
    exact Option.some_ne_none node
  · exact fun _ after opened => opened.1.finish_meets _

theorem vfsOpened_meets (running : Running files process (some (.setting fd)) now) (openFlags : Nat) (ret : Int)
    (node : Nat) : Meets (vfsOpened process fd openFlags ret node) now (leaves files process) := by
  unfold vfsOpened
  split
  · exact running.fileAbandoned_meets ret
  · have set : Running files process (some (.setting fd)) (now.setFile fd { now.fdArray fd with pos := 0 }) := by
      refine running.data ?_ rfl rfl rfl rfl (running.not_opened rfl)
      rintro used ⟨⟩
      rfl
    unfold getFile Files.setFile
    simp only [meets_bind, meets_get, meets_pure, meets_modify, meets_ite]
    split
    · exact set.wait_meets (fun absurd => absurd)
    · exact set.fileOpened_meets node openFlags

theorem fileSized_meets (running : Running files process (some (.setting fd)) now) (node openFlags : Nat) (ret : Int)
    (size : Nat) : Meets (fileSized process fd node openFlags ret size) now (leaves files process) := by
  unfold fileSized
  split
  · exact running.wait_meets (fun absurd => absurd)
  · have set : Running files process (some (.setting fd)) (now.setFile fd { now.fdArray fd with pos := size }) := by
      refine running.data ?_ rfl rfl rfl rfl (running.not_opened rfl)
      rintro used ⟨⟩
      rfl
    unfold getFile Files.setFile
    simp only [meets_bind, meets_get, meets_pure, meets_modify]
    exact set.fileOpened_meets node openFlags

/-! ## Operations -/

omit [DecidableEq Process] in
theorem fd2file_meets (counted : 0 < now.filesCount) (number : Int) :
    Meets (fd2file number) now
      ⟨fun fd after => after = now /\ (now.fdArray fd).status = .fdOpened, fun _ after => after = now,
        fun _ => False⟩ := by
  unfold fd2file getFdArray
  rw [meets_ite]
  split
  · simp only [meets_bind, meets_get, meets_pure, meets_assert, meets_ite, meets_throw]
    refine ⟨fun _ => ?_, fun absent => absent counted⟩
    split
    · rename_i opened
      exact ⟨trivial, opened.1⟩
    · trivial
  · exact (meets_throw _).mpr rfl

theorem startOp_meets (running : Running files process none now) (opened : (now.fdArray fd).status = .fdOpened)
    (op : FileOp) :
    Meets (startOp process fd op) now
      ⟨fun _ after => Left files process after /\
          Exists fun ticket => after.stage process = some (.operating fd ticket op),
        fun _ _ => False, fun _ => False⟩ := by
  unfold startOp
  rw [meets_bind]
  refine (running.fdArrayAcquire_meets opened).mono ?_ (fun _ _ fails => fails) (fun _ stops => stops)
  intro _ after acquired
  unfold getFile wait
  simp only [meets_bind, meets_get, meets_pure, meets_modify]
  refine ⟨acquired.left rfl ?_ after.returned, _, Function.update_self ..⟩
  rintro inside ⟨⟩
  exact fun absurd => absurd

theorem endOp_meets {ticket : Nat} (running : Running files process (some (.operating fd ticket)) now) (code : Int) :
    Meets (endOp process fd code) now (leaves files process) := by
  unfold endOp
  rw [meets_bind]
  exact running.fdArrayRelease_meets.mono (fun _ _ released => released.settle_meets code)
    (fun _ _ fails => fails) (fun _ stops => stops)

theorem movePos_meets {ticket : Nat} (running : Running files process (some (.operating fd ticket)) now)
    (copied : Nat) :
    Meets (movePos fd copied) now
      ⟨fun _ after => Running files process (some (.operating fd ticket)) after, fun _ _ => False, fun _ => False⟩ := by
  unfold movePos getFile Files.setFile
  simp only [meets_bind, meets_get, meets_pure, meets_modify, meets_ite]
  split
  · refine running.data ?_ rfl rfl rfl rfl (running.balanced.fine fd).node
    rintro used ⟨⟩
    rfl
  · exact running

theorem answered_meets {ticket : Nat} (running : Running files process (some (.operating fd ticket)) now) (ret : Int)
    (value : Nat) (op : FileOp) : Meets (answered process fd ticket ret value op) now (leaves files process) := by
  cases op with
  | read =>
      unfold answered
      rw [meets_bind]
      exact (running.movePos_meets value).mono (fun _ _ moved => moved.endOp_meets ret) (fun _ _ fails => fails)
        (fun _ stops => stops)
  | write =>
      unfold answered
      rw [meets_bind]
      exact (running.movePos_meets value).mono (fun _ _ moved => moved.endOp_meets ret) (fun _ _ fails => fails)
        (fun _ stops => stops)
  | seekEnd pos =>
      unfold answered
      rw [meets_ite]
      split
      · exact running.wait_meets (fun absurd => absurd)
      · exact running.endOp_meets ret
  | seek pos =>
      unfold answered
      rw [meets_ite]
      split
      · have set : Running files process (some (.operating fd ticket))
          (now.setFile fd { now.fdArray fd with pos := pos }) := by
          refine running.data ?_ rfl rfl rfl rfl (running.balanced.fine fd).node
          rintro used ⟨⟩
          rfl
        unfold getFile Files.setFile
        simp only [meets_bind, meets_get, meets_pure, meets_modify]
        exact set.endOp_meets ret
      · exact running.endOp_meets ret
  | fstat => exact running.endOp_meets ret
  | fsync => exact running.endOp_meets ret
  | getdirentry => exact running.endOp_meets ret

theorem fdArrayDup_meets (running : Running files process (some (.setting fd)) now) {file : OpenFile}
    (opened : file.status = .fdOpened) (node : file.node ≠ none) :
    Meets (fdArrayDup fd file) now
      ⟨fun _ after => Running files process none after /\
          (forall other, other ≠ fd -> after.fdArray other = now.fdArray other),
        fun _ _ => False, fun _ => False⟩ := by
  unfold fdArrayDup getFile Files.setFile
  simp only [meets_bind, meets_get, meets_pure, meets_assert, meets_modify]
  refine ⟨fun _ => ?_, fun absent => absent ⟨running.setting, opened⟩⟩
  have copied : Running files process (some (.setting fd)) (now.setFile fd { now.fdArray fd with
      pos := file.pos, readable := file.readable, writable := file.writable, node := file.node }) := by
    refine running.data ?_ rfl rfl rfl rfl (fun _ => node)
    rintro used ⟨⟩
    rfl
  refine (copied.fdArrayOpen_meets ?_).mono ?_ (fun _ _ fails => fails) (fun _ stops => stops)
  · rw [FilesStruct.setFile_self]
    exact node
  · rintro _ after ⟨done, others⟩
    refine ⟨done, ?_⟩
    intro other different
    rw [others other different]
    exact Function.update_of_ne different ..

theorem closeall_meets (remaining : Nat) (running : Running files process none now) :
    Meets (sweep process false remaining) now (leaves files process) := by
  induction remaining generalizing now with
  | zero => exact running.finish_meets 0
  | succ remaining inductionHypothesis =>
      unfold sweep getFile
      simp only [meets_bind, meets_get, meets_pure, meets_ite]
      split
      · rename_i opened
        refine (running.fdArrayClose_meets opened).mono ?_ (fun _ _ fails => fails) (fun _ stops => stops)
        rintro waits after ⟨closed, _⟩
        cases waits with
        | true => exact closed.wait_meets (fun absurd => absurd)
        | false =>
            simp only [Bool.false_eq_true, if_false, meets_assert]
            exact ⟨fun _ => inductionHypothesis closed, fun absent => absent (by rintro ⟨⟩)⟩
      · simp only [Bool.false_eq_true, if_false, meets_assert]
        exact ⟨fun _ => inductionHypothesis running, fun absent => absent (by rintro ⟨⟩)⟩

theorem startOp_answers (running : Running files process none now) (opened : (now.fdArray fd).status = .fdOpened)
    (op : FileOp) : Meets (startOp process fd op) now (answers files process) :=
  (running.startOp_meets opened op).mono (fun _ _ both => both.1) (fun _ _ fails => fails.elim) (fun _ stops => stops)

end Running

/-! ## A call as a whole -/

section Start

variable {files : FilesStruct Process} {process : Process}

theorem running_start (balanced : Balanced files files.uses) (idle : files.stage process = none) :
    Running files process none files where
  same := rfl
  balanced := by
    have none : files.uses process = none := by
      unfold FilesStruct.uses
      rw [idle]
      rfl
    rw [← none, Function.update_eq_self]
    exact balanced

theorem running_resumed (balanced : Balanced files files.uses) {stage : Stage}
    (inside : files.stage process = some stage) : Running files process stage.use files where
  same := rfl
  balanced := by
    have here : files.uses process = stage.use := by
      unfold FilesStruct.uses
      rw [inside]
      rfl
    rw [← here, Function.update_eq_self]
    exact balanced

variable (running : Running files process none files) (counted : 0 < files.filesCount)

include running counted

theorem fileOpen_meets (openFlags : Nat) : Meets (fileOpen process openFlags) files (answers files process) := by
  unfold fileOpen
  rw [meets_ite]
  split
  · exact (meets_throw _).mpr rfl
  · rw [meets_bind]
    refine (running.fdArrayAlloc_meets counted noFd).mono ?_ (fun _ _ fails => fails) (fun _ stops => stops)
    intro fd after found
    have waits : Meets (wait process (.opening fd openFlags)) after (leaves files process) :=
      found.1.wait_meets (fun absurd => absurd)
    exact leaves_answers waits

theorem fileClose_meets (number : Int) : Meets (fileClose process number) files (answers files process) := by
  unfold fileClose
  rw [meets_bind]
  refine (Running.fd2file_meets counted number).mono ?_ (fun _ _ fails => fails) (fun _ stops => stops)
  rintro fd after ⟨rfl, opened⟩
  dsimp only
  rw [meets_bind]
  refine (running.fdArrayClose_meets opened).mono ?_ (fun _ _ fails => fails.elim) (fun _ stops => stops)
  exact fun waits later closed => leaves_answers (closed.1.settle_meets 0)

theorem fileIo_meets (number : Int) (write : Bool) :
    Meets (fileIo process number write) files (answers files process) := by
  unfold fileIo
  rw [meets_bind]
  refine (Running.fd2file_meets counted number).mono ?_ (fun _ _ fails => fails) (fun _ stops => stops)
  rintro fd after ⟨rfl, opened⟩
  unfold getFile
  simp only [meets_bind, meets_get, meets_pure]
  by_cases allowed : (if write = true then (after.fdArray fd).writable else (after.fdArray fd).readable) = true
  · rw [if_pos allowed]
    exact running.startOp_answers opened _
  · rw [if_neg allowed]
    exact (meets_throw _).mpr rfl

theorem fileStat_meets (number : Int) (op : FileOp) :
    Meets (fileStat process number op) files (answers files process) := by
  unfold fileStat
  rw [meets_bind]
  refine (Running.fd2file_meets counted number).mono ?_ (fun _ _ fails => fails) (fun _ stops => stops)
  rintro fd after ⟨rfl, opened⟩
  exact running.startOp_answers opened op

theorem fileSeek_meets (number pos : Int) (whence : Nat) :
    Meets (fileSeek process number pos whence) files (answers files process) := by
  unfold fileSeek
  rw [meets_bind]
  refine (Running.fd2file_meets counted number).mono ?_ (fun _ _ fails => fails) (fun _ stops => stops)
  rintro fd after ⟨rfl, opened⟩
  unfold getFile
  simp only [meets_bind, meets_get, meets_pure]
  split
  · exact running.startOp_answers opened _
  · exact running.startOp_answers opened _
  · exact running.startOp_answers opened _
  · -- the file is acquired and released at once
    rw [meets_bind]
    refine (running.startOp_meets opened (.seek pos)).mono ?_ (fun _ _ fails => fails.elim) (fun _ stops => stops)
    rintro _ middle ⟨left, ticket, inside⟩
    have resumed : Running middle process (some (.operating fd ticket)) middle := running_resumed left.balanced inside
    exact (resumed.endOp_meets (-eInval)).mono (fun _ _ again => left.trans again) (fun _ _ fails => fails.elim)
      (fun _ stops => stops)

theorem fileDup_meets (number other : Int) : Meets (fileDup process number other) files (answers files process) := by
  unfold fileDup
  rw [meets_bind]
  refine (Running.fd2file_meets counted number).mono ?_ (fun _ _ fails => fails) (fun _ stops => stops)
  rintro source after ⟨rfl, opened⟩
  dsimp only
  rw [meets_bind]
  refine (running.fdArrayAlloc_meets counted other).mono ?_ (fun _ _ fails => fails) (fun _ stops => stops)
  rintro target middle ⟨setting, others, vacant⟩
  have different : source ≠ target := by
    rintro rfl
    cases opened.symm.trans vacant
  have still : (middle.fdArray source).status = .fdOpened := by
    rw [others source different]
    exact opened
  have node := (setting.balanced.fine source).node still
  unfold getFile
  simp only [meets_bind, meets_get, meets_pure]
  refine (setting.fdArrayDup_meets still node).mono ?_ (fun _ _ fails => fails.elim) (fun _ stops => stops)
  exact fun _ last done => leaves_answers (done.1.finish_meets _)

theorem filesCloseall_meets : Meets (filesCloseall process) files (answers files process) := by
  unfold filesCloseall
  simp only [meets_bind, meets_get, meets_assert]
  exact ⟨fun _ => leaves_answers (running.closeall_meets _), fun absent => absent counted⟩

end Start

/-! ## The end of a table -/

/-- Nobody shares the table, and one process destroys it.  No other call can be
in the middle then, so its sweep meets no entry in use. -/
structure Ending (files : FilesStruct Process) (process : Process) : Prop where
  filesCount : files.filesCount = 0
  sharing : forall other, files.sharing other = false
  others : forall other, other ≠ process -> files.stage other = none
  standing : files.destroyed = false

namespace FilesStruct.Sound

variable {files after : FilesStruct Process} {process : Process}

omit [DecidableEq Process] in
theorem filesCount_pos (sound : files.Sound) (shares : files.sharing process = true) : 0 < files.filesCount := by
  have points : (if files.sharing process = true then some () else none) = some () := if_pos shares
  exact sound.sharers.pos (Set.mem_univ ()) points

omit [DecidableEq Process] in
/-- While somebody shares the table nobody destroys it. -/
theorem not_destroys (sound : files.Sound) (shares : files.sharing process = true)
    {other : Process} {stage : Stage} (inside : files.stage other = some stage) : ¬ stage.Destroys := by
  intro destroys
  have positive := sound.filesCount_pos shares
  have none := (sound.destroying other stage inside destroys).1
  omega

/-- A process that shares the table makes a step. -/
theorem left (sound : files.Sound) (shares : files.sharing process = true) (left : Left files process after) :
    after.Sound := by
  rcases left.stage with ⟨stage, stages, calls⟩
  -- the stage of each process is not one of `files_destroy`
  have staged : forall other inside, after.stage other = some inside ->
      after.sharing other = true /\ ¬ inside.Destroys := by
    intro other inside here
    rw [stages] at here
    rw [left.sharing]
    by_cases same : other = process
    · subst same
      rw [Function.update_self] at here
      exact ⟨shares, calls inside here⟩
    · rw [Function.update_of_ne same] at here
      have normal := sound.not_destroys shares here
      exact ⟨(sound.inside other inside here).resolve_right normal, normal⟩
  refine ⟨left.balanced, ?_, ?_, ?_, ?_, ?_⟩
  · rw [left.sharing, left.filesCount]
    exact sound.sharers
  · exact fun other inside here => .inl (staged other inside here).1
  · exact fun other inside here destroys => absurd destroys (staged other inside here).2
  · exact fun other fd remaining here => absurd trivial (staged other _ here).2
  · intro destroyed
    have positive := sound.filesCount_pos shares
    have none := (sound.gone (left.destroyed.symm.trans destroyed)).1
    omega

end FilesStruct.Sound

namespace Ending

variable {files now : FilesStruct Process} {process : Process}

/-- No entry is used by anybody else. -/
theorem entry (ending : Ending files process) (running : Running files process none now) (fd : Nat) :
    (now.fdArray fd).status = .fdNone \/
      ((now.fdArray fd).status = .fdOpened /\ (now.fdArray fd).openCount - 1 = 0) := by
  have unused : Function.update files.uses process none = fun _ => none := by
    funext other
    by_cases same : other = process
    · rw [same, Function.update_self]
    · rw [Function.update_of_ne same]
      unfold FilesStruct.uses
      rw [ending.others other same]
      rfl
  have zero : forall use, (now.fdArray use.fd).uses use = 0 := by
    intro use
    refine (running.balanced.counted.eq_zero_iff (Set.mem_univ use)).mpr ?_
    rw [unused]
    exact fun _ absurd => by cases absurd
  have setting : (now.fdArray fd).uses (.setting fd) = 0 := zero (.setting fd)
  have operating : (now.fdArray fd).uses (.operating fd (now.fdArray fd).ticket) = 0 := zero (.operating fd _)
  have freeing : (now.fdArray fd).uses (.freeing fd) = 0 := zero (.freeing fd)
  rw [OpenFile.uses_setting] at setting
  rw [OpenFile.uses_operating, if_pos rfl] at operating
  rw [OpenFile.uses_freeing] at freeing
  unfold OpenFile.inFlight at operating
  cases status : (now.fdArray fd).status with
  | fdNone => exact .inl rfl
  | fdInit =>
      rw [status, if_pos rfl] at setting
      cases setting
  | fdOpened =>
      rw [status] at operating
      exact .inr ⟨rfl, operating⟩
  | fdClosed =>
      rw [status] at operating freeing
      rw [if_pos ⟨rfl, operating⟩] at freeing
      cases freeing

theorem sharers {use : Option Use} (ending : Ending files process) (running : Running files process use now) :
    Counted (fun process => if now.sharing process = true then some () else none) (fun _ => now.filesCount)
      Set.univ := by
  have nobody : (fun process => if now.sharing process = true then some () else none) = fun _ : Process => none := by
    funext other
    rw [running.same]
    exact if_neg (by rw [ending.sharing other]; decide)
  intro sharer _
  have empty : referrers (fun _ : Process => none) sharer = ∅ := Set.eq_empty_of_forall_notMem fun _ => nofun
  rw [nobody, empty, running.count_eq, ending.filesCount]
  exact ⟨Set.finite_empty, by rw [Set.ncard_empty]; rfl⟩

/-- The process that destroys the table waits. -/
theorem waits (ending : Ending files process) {stage : Stage} (running : Running files process stage.use now)
    (destroys : stage.Destroys)
    (swept : forall fd remaining, stage = .freeing fd (.sweep true remaining) ->
      forall other, other < filesStructNentry - remaining -> other ≠ fd -> (now.fdArray other).status = .fdNone) :
    Meets (wait process stage) now
      ⟨fun _ after => after.Lasting /\ after.sharing = files.sharing, fun _ _ => False, fun _ => False⟩ := by
  refine (meets_modify _).mpr ?_
  have stages : Function.update now.stage process (some stage) = Function.update files.stage process (some stage) := by
    rw [running.stage_eq]
  have only : forall other inside, Function.update now.stage process (some stage) other = some inside ->
      other = process /\ inside = stage := by
    intro other inside here
    rw [stages] at here
    by_cases same : other = process
    · subst same
      rw [Function.update_self] at here
      exact ⟨rfl, (Option.some.inj here).symm⟩
    · rw [Function.update_of_ne same, ending.others other same] at here
      cases here
  have filesCount : now.filesCount = 0 := running.count_eq.trans ending.filesCount
  have changed : FilesStruct.uses { now with stage := Function.update now.stage process (some stage) } =
      Function.update files.uses process ((some stage).bind Stage.use) := uses_update stages
  have waiting : (Function.update now.stage process (some stage) process).isSome = true := by
    rw [Function.update_self]
    rfl
  refine ⟨⟨⟨?_, ?_, ?_, ?_, ?_, ?_⟩, fun _ => ⟨process, .inr waiting⟩⟩, running.sharing_eq⟩
  · rw [changed]
    exact running.balanced.elsewhere rfl rfl rfl
  · have nobody := ending.sharers running
    exact nobody
  · intro other inside here
    rcases only other inside here with ⟨_, rfl⟩
    exact .inr destroys
  · intro other inside here _
    rcases only other inside here with ⟨rfl, rfl⟩
    refine ⟨filesCount, ?_⟩
    intro another different
    exact (Function.update_of_ne different ..).trans (by rw [running.stage_eq]; exact ending.others another different)
  · intro other fd remaining here
    rcases only other _ here with ⟨_, same⟩
    exact swept fd remaining same.symm
  · intro destroyed
    have standing : now.destroyed = files.destroyed := by rw [running.same]
    cases (standing.symm.trans destroyed).symm.trans ending.standing

theorem done (ending : Ending files process) (running : Running files process none now)
    (swept : forall fd, (now.fdArray fd).status = .fdNone) :
    FilesStruct.Lasting { now with stage := Function.update now.stage process none, destroyed := true } := by
  have stages : Function.update now.stage process none = fun _ => none := by
    rw [running.stage_eq]
    funext other
    by_cases same : other = process
    · rw [same, Function.update_self]
    · rw [Function.update_of_ne same]
      exact ending.others other same
  have filesCount : now.filesCount = 0 := running.count_eq.trans ending.filesCount
  have same : Function.update now.stage process none = Function.update files.stage process none := by
    rw [running.stage_eq]
  have changed : FilesStruct.uses { now with stage := Function.update now.stage process none, destroyed := true } =
      Function.update files.uses process ((none : Option Stage).bind Stage.use) := uses_update same
  have nobody := ending.sharers running
  refine ⟨⟨?_, nobody, ?_, ?_, ?_, ?_⟩, nofun⟩
  · rw [changed]
    exact running.balanced.elsewhere rfl rfl rfl
  · intro other inside here
    rw [stages] at here
    cases here
  · intro other inside here
    rw [stages] at here
    cases here
  · intro other fd remaining here
    rw [stages] at here
    cases here
  · exact fun _ => ⟨filesCount, congrFun stages, swept⟩

theorem destroy_meets (ending : Ending files process) (remaining : Nat) (running : Running files process none now)
    (swept : forall other, other < filesStructNentry - remaining -> (now.fdArray other).status = .fdNone) :
    Meets (sweep process true remaining) now
      ⟨fun _ after => after.Lasting /\ after.sharing = files.sharing, fun _ _ => False, fun _ => False⟩ := by
  induction remaining with
  | zero =>
      unfold sweep
      rw [if_pos rfl, meets_modify]
      refine ⟨ending.done running ?_, running.sharing_eq⟩
      intro fd
      by_cases inside : fd < filesStructNentry
      · exact swept fd inside
      · exact (running.balanced.fine fd).bound (Nat.le_of_not_lt inside)
  | succ remaining inductionHypothesis =>
      unfold sweep getFile
      simp only [meets_bind, meets_get, meets_pure, meets_ite]
      split
      · rename_i opened
        refine (running.fdArrayClose_meets opened).mono ?_ (fun _ _ fails => fails) (fun _ stops => stops)
        rintro waits after ⟨closed, others, more⟩
        have last := ((ending.entry running _).resolve_left fun absurd => by cases opened.symm.trans absurd).2
        cases waits with
        | false => exact absurd last (more rfl)
        | true =>
            refine ending.waits closed trivial ?_
            rintro fd left ⟨⟩ other before different
            rw [others other different]
            exact swept other (by omega)
      · rename_i idle
        have none := (ending.entry running _).resolve_right fun absurd => idle absurd.1
        simp only [Bool.false_eq_true, if_false, meets_assert]
        refine ⟨fun _ => inductionHypothesis ?_, fun absent => absent fun _ => none⟩
        intro other before
        by_cases here : other = filesStructNentry - (remaining + 1)
        · rw [here]
          exact none
        · exact swept other (by omega)

end Ending

/-! ## The steps of one table -/

section Steps

variable {files : FilesStruct Process} {process : Process}

/-- How a step of a table ends. -/
def soundly (files : FilesStruct Process) : Post (FilesStruct Process) Int DescriptorFault Unit :=
  ⟨fun _ after => after.Lasting /\ after.sharing = files.sharing, fun _ after => after = files, fun _ => False⟩

theorem left_lasting {after : FilesStruct Process} (sound : files.Sound) (shares : files.sharing process = true)
    (left : Left files process after) : after.Lasting :=
  ⟨sound.left shares left, fun _ => ⟨process, .inl (left.sharing ▸ shares)⟩⟩

theorem answers_soundly {program : Kernel Process Unit} (sound : files.Sound) (shares : files.sharing process = true)
    (meets : Meets program files (answers files process)) : Meets program files (soundly files) :=
  meets.mono (fun _ _ left => ⟨left_lasting sound shares left, left.sharing⟩) (fun _ _ same => same)
    (fun _ stops => stops)

omit [DecidableEq Process] in
/-- The process in `files_destroy` is alone with the table. -/
theorem FilesStruct.Sound.ending (sound : files.Sound) {stage : Stage} (inside : files.stage process = some stage)
    (destroys : stage.Destroys) : Ending files process := by
  have alone := sound.destroying process stage inside destroys
  refine ⟨alone.1, ?_, alone.2, ?_⟩
  · intro other
    by_contra shares
    have positive := sound.filesCount_pos (Bool.not_eq_false _ ▸ shares)
    omega
  · by_contra destroyed
    have none := (sound.gone (Bool.not_eq_false _ ▸ destroyed)).2.1 process
    cases inside.symm.trans none

theorem freed_meets (sound : files.Sound) {fd : Nat} {next : Next}
    (inside : files.stage process = some (.freeing fd next)) : Meets (freed process fd next) files (soundly files) := by
  have running : Running files process (some (.freeing fd)) files := running_resumed sound.balanced inside
  unfold freed
  rw [meets_bind]
  refine running.fdArrayFreed_meets.mono ?_ (fun _ _ fails => fails.elim) (fun _ stops => stops)
  rintro _ after ⟨now, vacant, others⟩
  cases next with
  | result code =>
      have shares := (sound.inside process _ inside).resolve_right fun absurd => absurd
      change Meets (finish process code) after (soundly files)
      exact (now.finish_meets code).mono (fun _ _ left => ⟨left_lasting sound shares left, left.sharing⟩)
        (fun _ _ fails => fails.elim)
        (fun _ stops => stops)
  | sweep destroy remaining =>
      unfold getFile
      simp only [meets_bind, meets_get, meets_pure, meets_assert]
      refine ⟨fun _ => ?_, fun absent => absent fun _ => vacant⟩
      cases destroy with
      | false =>
          have shares := (sound.inside process _ inside).resolve_right fun absurd => absurd
          exact (now.closeall_meets remaining).mono (fun _ _ left => ⟨left_lasting sound shares left, left.sharing⟩)
            (fun _ _ fails => fails.elim) (fun _ stops => stops)
      | true =>
          have ending := sound.ending inside trivial
          refine (ending.destroy_meets remaining now ?_).mono (fun _ _ sound => sound) (fun _ _ fails => fails.elim)
            (fun _ stops => stops)
          intro other before
          by_cases here : other = fd
          · rw [here]
            exact vacant
          · rw [others other here]
            exact sound.swept process fd remaining inside other before here

/-- A process that shares the table exits. -/
theorem FilesStruct.Sound.exit (sound : files.Sound) (shares : files.sharing process = true)
    (idle : files.stage process = none) :
    FilesStruct.Sound { files with
      sharing := Function.update files.sharing process false, filesCount := files.filesCount - 1 } := by
  have positive := sound.filesCount_pos shares
  have moved : Counted
    (Function.update (fun other => if files.sharing other = true then some () else none) process none)
      (fun _ => files.filesCount - 1) Set.univ := by
    refine sound.sharers.move process none ?_
    intro _
    rw [if_pos (if_pos shares), if_neg nofun]
    omega
  refine ⟨sound.balanced.elsewhere rfl rfl rfl, ?_, ?_, ?_, ?_, ?_⟩
  · have same : (fun other => if Function.update files.sharing process false other = true then some () else none) =
        Function.update (fun other => if files.sharing other = true then some () else none) process none := by
      funext other
      by_cases here : other = process
      · rw [here, Function.update_self, Function.update_self, if_neg Bool.false_ne_true]
      · rw [Function.update_of_ne here, Function.update_of_ne here]
    rw [← same] at moved
    exact moved
  · intro other stage inside
    have different : other ≠ process := by
      rintro rfl
      cases idle.symm.trans inside
    exact (sound.inside other stage inside).imp_left ((Function.update_of_ne different ..).trans ·)
  · exact fun other stage inside destroys => absurd destroys (sound.not_destroys shares inside)
  · exact fun other fd remaining inside => absurd trivial (sound.not_destroys shares inside)
  · intro destroyed
    have none := (sound.gone destroyed).1
    omega

theorem putFiles_meets (sound : files.Sound) (shares : files.sharing process = true)
    (idle : files.stage process = none) :
    Meets (putFiles process) files
      ⟨fun _ after => after.Lasting /\ after.sharing = Function.update files.sharing process false,
        fun _ _ => False, fun _ => False⟩ := by
  have rest := sound.exit shares idle
  unfold putFiles
  simp only [meets_bind, meets_get, meets_modify, meets_ite, meets_pure]
  split
  · rename_i last
    have ending : Ending { files with
        sharing := Function.update files.sharing process false, filesCount := files.filesCount - 1 } process := by
      have nobody : forall other, Function.update files.sharing process false other = false := by
        intro other
        by_contra still
        have counted := rest.filesCount_pos (Bool.not_eq_false _ ▸ still)
        exact absurd last (Int.ne_of_gt counted)
      refine ⟨last, nobody, ?_, ?_⟩
      · intro other different
        by_contra some
        rcases Option.ne_none_iff_exists'.mp some with ⟨stage, inside⟩
        rcases rest.inside other stage inside with absurd_ | destroys
        · exact Bool.false_ne_true ((nobody other).symm.trans absurd_)
        · exact sound.not_destroys shares inside destroys
      · by_contra destroyed
        have positive := sound.filesCount_pos shares
        have none := (sound.gone (Bool.not_eq_false _ ▸ destroyed)).1
        omega
    have running : Running _ process none _ := running_start rest.balanced idle
    unfold filesDestroy
    simp only [meets_bind, meets_get, meets_assert]
    refine ⟨fun _ => ?_, fun absent => absent last⟩
    split
    · have leaving : Running _ process (Stage.use .leaving) _ := running
      refine (ending.waits leaving trivial ?_).mono (fun _ _ sound => sound) (fun _ _ fails => fails)
        (fun _ stops => stops)
      rintro fd remaining ⟨⟩
    · refine (ending.destroy_meets _ running ?_).mono (fun _ _ sound => sound) (fun _ _ fails => fails)
        (fun _ stops => stops)
      intro other before
      omega
  · rename_i more
    refine ⟨⟨rest, fun _ => ?_⟩, trivial⟩
    by_contra nobody
    push Not at nobody
    refine more ((rest.sharers.eq_zero_iff (Set.mem_univ ())).mpr ?_)
    intro other
    rw [if_neg (nobody other).1]
    rintro ⟨⟩

/-- `files_destroy` after `vop_ref_dec` of the working directory -/
theorem leaving_meets (sound : files.Sound) (inside : files.stage process = some .leaving) :
    Meets (sweep process true filesStructNentry) files (soundly files) := by
  have ending := sound.ending inside trivial
  have running : Running files process (Stage.use .leaving) files := running_resumed sound.balanced inside
  refine (ending.destroy_meets _ running ?_).mono (fun _ _ sound => sound) (fun _ _ fails => fails.elim)
    (fun _ stops => stops)
  intro other before
  omega

/-! ## Joining and copying a table -/

theorem FilesStruct.Sound.join (sound : files.Sound) {child : Process} (fresh : files.sharing child = false)
    (calm : forall other stage, files.stage other = some stage -> ¬ stage.Destroys)
    (standing : files.destroyed = false) : (files.join child).Sound where
  balanced := sound.balanced.elsewhere rfl rfl rfl
  sharers := by
    have moved : Counted (Function.update (fun other => if files.sharing other = true then some () else none) child
        (some ())) (fun _ => files.filesCount + 1) Set.univ := by
      refine sound.sharers.move child (some ()) ?_
      intro _
      rw [if_neg (by rw [fresh]; nofun), if_pos rfl]
      omega
    have same : (fun other => if Function.update files.sharing child true other = true then some () else none) =
        Function.update (fun other => if files.sharing other = true then some () else none) child (some ()) := by
      funext other
      by_cases here : other = child
      · rw [here, Function.update_self, Function.update_self, if_pos rfl]
      · rw [Function.update_of_ne here, Function.update_of_ne here]
    rw [← same] at moved
    exact moved
  inside := by
    intro other stage inside
    refine (sound.inside other stage inside).imp_left fun shares => ?_
    have different : other ≠ child := by
      rintro rfl
      cases fresh.symm.trans shares
    exact (Function.update_of_ne different ..).trans shares
  destroying := fun other stage inside destroys => absurd destroys (calm other stage inside)
  swept := fun other fd remaining inside => absurd trivial (calm other _ inside)
  gone := fun destroyed => by cases standing.symm.trans destroyed

omit [DecidableEq Process] in
theorem filesCreate_balanced (pwd : Option Nat) :
    Balanced ({ filesCreate with pwd := pwd } : FilesStruct Process) (fun _ => none) where
  counted := by
    intro use _
    have empty : referrers (fun _ : Process => none) use = ∅ := Set.eq_empty_of_forall_notMem fun _ => by rintro ⟨⟩
    rw [empty, Set.ncard_empty]
    refine ⟨Set.finite_empty, ?_⟩
    cases use <;> simp [filesCreate, OpenFile.inFlight]
  fine := fun fd => ⟨rfl, fun _ => rfl, by rintro ⟨⟩, fun _ => rfl⟩
  tickets := by
    constructor
    · constructor
      · intro first second resource absurd
        simp [filesCreate, OpenFile.holds] at absurd
      · intro place resource absurd
        simp [filesCreate, OpenFile.holds] at absurd
    · exact fun ticket before => (Nat.not_lt_zero ticket before).elim
    · exact List.nodup_nil
    · exact fun ticket absurd => by cases absurd

theorem running_created (pwd : Option Nat) (process : Process) :
    Running ({ filesCreate with pwd := pwd } : FilesStruct Process) process none { filesCreate with pwd := pwd } where
  same := rfl
  balanced := by
    have none : Function.update (FilesStruct.uses ({ filesCreate with pwd := pwd } : FilesStruct Process)) process
      none =
        fun _ => none := by
      funext other
      by_cases here : other = process
      · rw [here, Function.update_self]
      · rw [Function.update_of_ne here]
        rfl
    rw [none]
    exact filesCreate_balanced pwd

/-- A table that has just been made, before any process shares it. -/
theorem unshared_sound {pwd : Option Nat}
    (running : Running ({ filesCreate with pwd := pwd } : FilesStruct Process) process none files) : files.Sound := by
  have stage : files.stage = fun _ => none := running.stage_eq
  have filesCount : files.filesCount = 0 := running.count_eq
  have sharing : files.sharing = fun _ => false := by rw [running.same]; rfl
  have destroyed : files.destroyed = false := by rw [running.same]; rfl
  have uses : files.uses = Function.update (FilesStruct.uses ({ filesCreate with pwd := pwd } : FilesStruct Process))
    process none := by
    funext other
    unfold FilesStruct.uses
    rw [stage]
    by_cases here : other = process
    · rw [here, Function.update_self]
      rfl
    · rw [Function.update_of_ne here]
      rfl
  refine ⟨?_, ?_, ?_, ?_, ?_, ?_⟩
  · rw [uses]
    exact running.balanced
  · intro sharer _
    rw [sharing, filesCount]
    have empty : referrers (fun _ : Process => if false = true then some () else none) sharer = ∅ :=
      Set.eq_empty_of_forall_notMem fun _ => nofun
    rw [empty, Set.ncard_empty]
    exact ⟨Set.finite_empty, rfl⟩
  · intro other inside here
    rw [stage] at here
    cases here
  · intro other inside here
    rw [stage] at here
    cases here
  · intro other fd remaining here
    rw [stage] at here
    cases here
  · intro gone
    cases destroyed.symm.trans gone

theorem dupFiles_meets (balanced : Balanced files files.uses) (counted : 0 < files.filesCount)
    (child : Process) :
    Meets (dupFiles files) (filesCreate : FilesStruct Process)
      ⟨fun _ after => after.Sound /\ after.sharing = (fun _ => false) /\ after.stage = (fun _ => none) /\
          after.destroyed = false,
        fun _ _ => False, fun _ => False⟩ := by
  unfold dupFiles
  simp only [meets_bind, meets_get, meets_assert, meets_modify]
  refine ⟨fun _ => ?_, fun absent => absent ⟨rfl, counted⟩⟩
  -- the entries that the loop has not come to are empty
  refine meets_forRange (fun number now =>
    Running ({ filesCreate with pwd := files.pwd } : FilesStruct Process) child none now /\
      forall other, number <= other -> (now.fdArray other).status = .fdNone) 0 filesStructNentry ?_ ?_ ?_
  · rintro number now _ _ ⟨running, rest⟩
    rw [meets_ite]
    split
    · rename_i opened
      have vacant := rest number (Nat.le_refl number)
      have fine := running.balanced.fine number
      have zero := fine.idle (.inl vacant)
      unfold getFile Files.setFile
      simp only [meets_bind, meets_get, meets_pure, meets_modify]
      have set : Running ({ filesCreate with pwd := files.pwd } : FilesStruct Process) child (some (.setting number))
        (now.setFile number { now.fdArray number with status := .fdInit }) := by
        refine running.setFile ⟨by rintro _ ⟨⟩, ?_, ?_, ?_, ?_, ?_⟩ ?_
        · rintro used ⟨⟩
          rfl
        · simp [vacant]
        · simp [OpenFile.inFlight, vacant]
        · simp [vacant]
        · exact ⟨fine.number, fun _ => zero, by rintro ⟨⟩, fun beyond => by omega⟩
        · simp [OpenFile.holds, vacant]
      refine (set.fdArrayDup_meets opened ((balanced.fine number).node opened)).mono ?_ (fun _ _ fails => fails)
        (fun _ stops => stops)
      rintro _ after ⟨done, others⟩
      refine ⟨done, ?_⟩
      intro other later
      rw [others other (by omega)]
      exact (congrArg OpenFile.status (Function.update_of_ne (by omega) ..)).trans (rest other (by omega))
    · exact ⟨running, fun other later => rest other (by omega)⟩
  · rintro now ⟨running, _⟩
    refine ⟨unshared_sound running, ?_, running.stage_eq, ?_⟩
    · rw [running.same]
      rfl
    · rw [running.same]
      rfl
  · exact ⟨running_created files.pwd child, fun _ _ => rfl⟩

end Steps

end Calls

end Files
end Ucore
