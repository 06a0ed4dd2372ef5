import Ucore.Files.SysfileIo
import Ucore.Sfs.Extent
import Ucore.Sfs.VolumeRun

namespace Ucore
namespace Sysfile

open Library
open Program
open Files (OpenFile FdStatus Testfd)
open Sfs (SfsFs Bytes Errno Fault Transfer maxFileSize)
open Vm (Mm SortedAreas userMemCheck userMemCheck_eq userMemCheck_areas userBase userTop)

/-!
# Transfers in chunks

A call that returns a number has moved so many bytes, and the position with
them; one that fails has moved none.  For a write this always holds.  A read
takes a chunk from the file before it knows whether the user may have it, and
so it holds exactly if the user may have all that the file delivers.
-/

/-- The user may access `count` bytes from `base` on. -/
def Allows (mm : Mm) (write : Bool) (base count : Nat) : Prop :=
  count = 0 \/ (userBase <= base /\ base + count <= userTop /\ mm.Accessible base (base + count) write)

/-- What the file delivers in chunks, if the user takes them all -/
def available (sin : Nat) : Nat -> SfsFs -> Bytes -> Int -> Nat -> Nat
  | 0, _, _, _, _ => 0
  | fuel + 1, fs, buffer, pos, len =>
      if len = 0 then 0
      else
        match Sfs.io sin buffer pos (min iobufSize len) false fs with
        | .done done after =>
            if done.alen = 0 then 0
            else if done.ret ≠ none then done.alen
            else done.alen + available sin fuel after done.buf (pos + done.alen) (len - done.alen)
        | _ => 0

/-- The descriptor is open on a file with these bytes. -/
structure Caller.Opened (caller : Caller) (fd : Int) (sin : Nat) (files : List Nat) (bytes : Nat -> UInt8) : Prop where
  testfd : Testfd fd
  counted : 0 < caller.filesCount
  opened : (caller.fdArray fd.toNat).status = .fdOpened
  self : ((caller.fdArray fd.toNat).fd : Int) = fd
  node : (caller.fdArray fd.toNat).node = some sin
  held : 0 < (caller.fdArray fd.toNat).openCount
  shown : SfsFs.Shows files sin bytes caller.fs

/-- The file system has done its part, and the position has moved. -/
def Caller.moved (caller : Caller) (fd : Int) (fs : SfsFs) (count : Nat) : Caller :=
  { caller with
    fs := fs
    fdArray := Function.update caller.fdArray fd.toNat
      { caller.fdArray fd.toNat with pos := (caller.fdArray fd.toNat).pos + count } }

theorem Caller.pos_moved (caller : Caller) (fd : Int) (fs : SfsFs) (count : Nat) :
    ((caller.moved fd fs count).fdArray fd.toNat).pos = (caller.fdArray fd.toNat).pos + count := by
  unfold Caller.moved
  dsimp only
  rw [Function.update_self]

/-- `count` bytes have been moved between the file and the user. -/
structure Advanced (write : Bool) (start after : Caller) (fd : Int) (sin : Nat) (base : UInt64) (count : Nat) :
    Prop where
  fdArray : after.fdArray = (start.moved fd after.fs count).fdArray
  bytes : after.fs.fileByte sin =
    if write = true then
      paste (start.fdArray fd.toNat).pos.toNat count (fun k => start.memory (base.toNat + k)) (start.fs.fileByte sin)
    else start.fs.fileByte sin
  memory : after.memory =
    if write = true then start.memory
    else paste base.toNat count (fun k => start.fs.fileByte sin ((start.fdArray fd.toNat).pos.toNat + k)) start.memory

theorem Advanced.nothing (start : Caller) (fd : Int) (sin : Nat) (base : UInt64) (write : Bool) :
    Advanced write start start fd sin base 0 where
  fdArray := by
    unfold Caller.moved
    dsimp only
    rw [Int.natCast_zero, Int.add_zero, Function.update_eq_self]
  bytes := by
    rw [paste_zero]
    exact (ite_self _).symm
  memory := by
    rw [paste_zero]
    exact (ite_self _).symm

section Calls

variable {caller start : Caller} {fd : Int} {sin : Nat} {files : List Nat} {bytes : Nat -> UInt8}

/-- The ending of a program, as a postcondition -/
theorem meets_outcome {State Error Stop Value : Type} (program : Program State Error Stop Value) (state : State) :
    Meets program state ⟨fun value after => program state = .done value after,
      fun error after => program state = .fail error after, fun fault => program state = .stop fault⟩ := by
  unfold Meets
  cases program state <;> rfl

theorem fd2file_meets {post : Post Caller Errno Fault (Option OpenFile)} (opened : caller.Opened fd sin files bytes)
    (found : post.done (some (caller.fdArray fd.toNat)) caller) : Meets (fd2file fd) caller post := by
  unfold fd2file
  rw [if_pos opened.testfd]
  simp only [meets_bind, meets_get, meets_assert, meets_pure]
  rw [if_pos ⟨opened.opened, opened.self⟩]
  exact ⟨fun _ => found, fun none_counted => absurd opened.counted none_counted⟩

theorem fileTestfd_meets (opened : caller.Opened fd sin files bytes) (readable writable : Bool) :
    Meets (fileTestfd fd readable writable) caller
      ⟨fun found after => after = caller /\
          (found = true <-> (readable = true -> (caller.fdArray fd.toNat).readable = true) /\
            (writable = true -> (caller.fdArray fd.toNat).writable = true)),
        fun _ _ => False, fun _ => False⟩ := by
  unfold fileTestfd
  rw [meets_bind]
  apply fd2file_meets opened
  dsimp only
  rw [meets_pure]
  refine ⟨rfl, ?_⟩
  cases readable <;> cases writable <;> cases (caller.fdArray fd.toNat).readable <;>
    cases (caller.fdArray fd.toNat).writable <;> decide

/-- One transfer moves the position by the bytes it counts. -/
theorem fileIo_meets {allowed : OpenFile -> Bool} {write : Bool} {base : Bytes} {len : Nat}
    (opened : caller.Opened fd sin files bytes) (permitted : allowed (caller.fdArray fd.toNat) = true) :
    Meets (fileIo allowed write fd base len) caller
      ⟨fun done after => Exists fun fs =>
        Sfs.io sin base (caller.fdArray fd.toNat).pos len write caller.fs = .done done fs /\
          after = caller.moved fd fs done.alen /\
          Sfs.Transferred files sin write base bytes (caller.fdArray fd.toNat).pos len done fs,
        fun _ _ => False, fun _ => True⟩ := by
  unfold fileIo
  rw [meets_bind]
  apply fd2file_meets opened
  dsimp only
  rw [if_neg (by rw [permitted]; decide)]
  unfold fdArrayAcquire fdArrayRelease vopIo
  rw [opened.node]
  simp only [meets_bind, meets_get, meets_assert, meets_modify, meets_zoom, meets_ite, meets_pure]
  refine ⟨fun _ => ?_, fun _ => trivial⟩
  have transfer := @Sfs.io_transfers caller.fs files sin bytes write base (caller.fdArray fd.toNat).pos len opened.shown
  refine (transfer.and (meets_outcome _ _)).mono ?_ (fun _ _ both => both.1) (fun _ _ => trivial)
  rintro done fs ⟨transferred, ran⟩
  unfold Caller.setFile
  dsimp only
  simp only [Function.update_self, Function.update_idem]
  rw [if_pos opened.opened]
  refine ⟨fun _ => ⟨fun _ => ?_, fun _ => trivial⟩, fun _ => trivial⟩
  rw [Int.add_sub_cancel, if_neg (ne_of_gt opened.held)]
  exact ⟨fs, ran, rfl, transferred⟩

theorem fileIo_refused {allowed : OpenFile -> Bool} {write : Bool} {base : Bytes} {len : Nat}
    (opened : caller.Opened fd sin files bytes) (refused : allowed (caller.fdArray fd.toNat) = false) :
    Meets (fileIo allowed write fd base len) caller
      ⟨fun done after => done = ⟨some .inval, 0, base⟩ /\ after = caller, fun _ _ => False, fun _ => False⟩ := by
  unfold fileIo
  rw [meets_bind]
  apply fd2file_meets opened
  dsimp only
  rw [if_pos refused]
  exact ⟨rfl, rfl⟩

theorem checkUser_meets {addr : UInt64} {len : Nat} {write : Bool} (sorted : SortedAreas caller.mm.mmapList)
    (cached : caller.mm.Cached) (positive : 0 < len) (word : len < 2 ^ 64) :
    Meets (checkUser addr len write) caller
      ⟨fun result after => Exists fun mm => after = { caller with mm := mm } /\ mm.mmapList = caller.mm.mmapList /\
          mm.Cached /\ (result = true <-> Allows caller.mm write addr.toNat len),
        fun _ _ => False, fun _ => False⟩ := by
  have length : (UInt64.ofNat len).toNat = len := UInt64.toNat_ofNat_of_lt' word
  have some_byte : 0 < UInt64.ofNat len := by
    rw [UInt64.lt_iff_toNat_lt, length]
    exact positive
  obtain ⟨mm, result, ran, exact_⟩ := userMemCheck_eq sorted cached addr some_byte write (Nat.lt_succ_self _)
  have areas := userMemCheck_areas ran
  unfold checkUser
  rw [meets_bind, meets_get]
  dsimp only
  rw [ran]
  refine ⟨mm, rfl, areas.2.1, areas.2.2 cached, exact_.trans ?_⟩
  rw [length]
  unfold Allows
  constructor
  · exact fun all => .inr all.2
  · rintro (none_ | all)
    · omega
    · have top : userTop < 2 ^ 64 := by decide
      exact ⟨by omega, all⟩

/-- A range is allowed if both of its parts are. -/
theorem allows_add {mm : Mm} {write : Bool} {base first second : Nat} :
    Allows mm write base (first + second) <-> Allows mm write base first /\ Allows mm write (base + first) second := by
  unfold Allows
  constructor
  · rintro (none_ | ⟨low, high, all⟩)
    · exact ⟨.inl (by omega), .inl (by omega)⟩
    · refine ⟨.inr ⟨low, by omega, fun byte from_ below => all byte from_ (by omega)⟩, ?_⟩
      refine .inr ⟨by omega, by omega, ?_⟩
      exact fun byte from_ below => all byte (by omega) (by omega)
  · rintro ⟨left, right⟩
    by_cases nothing : first = 0
    · rw [nothing] at right ⊢
      rw [Nat.add_zero, ← Nat.zero_add second] at right
      exact right
    · obtain ⟨low, high, before⟩ := left.resolve_left nothing
      rcases right with none_ | ⟨_, top, later⟩
      · rw [none_]
        exact .inr ⟨low, high, before⟩
      · refine .inr ⟨low, by omega, fun byte from_ below => ?_⟩
        by_cases earlier : byte < base + first
        · exact before byte from_ earlier
        · exact later byte (by omega) (by omega)

theorem allows_congr {mm other : Mm} {write : Bool} {base count : Nat} (same : mm.mmapList = other.mmapList) :
    Allows mm write base count <-> Allows other write base count := by
  unfold Allows Mm.Accessible
  rw [same]

end Calls

/-! ## The loops -/

/-- So much of a transfer is done at the head of the loop. -/
structure Progress (write : Bool) (start now : Caller) (fd : Int) (sin : Nat) (files : List Nat) (base : UInt64)
    (copied : Nat) : Prop where
  advanced : Advanced write start now fd sin base copied
  shown : SfsFs.Shows files sin (now.fs.fileByte sin) now.fs
  filesCount : now.filesCount = start.filesCount
  areas : now.mm.mmapList = start.mm.mmapList
  cached : now.mm.Cached
  inFile : copied ≠ 0 -> 0 <= (start.fdArray fd.toNat).pos /\ (start.fdArray fd.toNat).pos + copied <= maxFileSize

namespace Progress

variable {write : Bool} {start now : Caller} {fd : Int} {sin : Nat} {files : List Nat} {bytes : Nat -> UInt8}
  {base : UInt64} {copied : Nat}

theorem file (progress : Progress write start now fd sin files base copied) : now.fdArray fd.toNat =
    { start.fdArray fd.toNat with pos := (start.fdArray fd.toNat).pos + copied } := by
  rw [progress.advanced.fdArray]
  exact Function.update_self ..

theorem opened (progress : Progress write start now fd sin files base copied)
    (opened : start.Opened fd sin files bytes) : now.Opened fd sin files (now.fs.fileByte sin) where
  testfd := opened.testfd
  counted := progress.filesCount ▸ opened.counted
  opened := progress.file ▸ opened.opened
  self := progress.file ▸ opened.self
  node := progress.file ▸ opened.node
  held := progress.file ▸ opened.held
  shown := progress.shown

theorem nothing (opened : start.Opened fd sin files bytes) (cached : start.mm.Cached) :
    Progress write start start fd sin files base 0 where
  advanced := Advanced.nothing start fd sin base write
  shown := opened.shown.bytes ▸ opened.shown
  filesCount := rfl
  areas := rfl
  cached := cached
  inFile some_ := absurd rfl some_

/-- The result is what has been copied, unless that is nothing. -/
theorem returned (progress : Progress write start now fd sin files base copied) (ret : Option Errno) :
    (out copied ret).toNat = copied := by
  unfold out
  by_cases nothing : copied = 0
  · rw [if_neg (by omega), nothing]
    cases ret with
    | none => rfl
    | some error => cases error <;> rfl
  · rw [if_pos nothing]
    have bound := progress.inFile nothing
    have small : (maxFileSize : Int) = 134217728 := by decide
    unfold toSigned
    rw [Int.bmod_eq_of_le (by omega) (by omega)]
    exact Int.toNat_natCast copied

/-- A chunk that the file system has moved, and the user has given or got -/
theorem next {buffer : Bytes} {len : Nat} {done : Transfer} {fs : SfsFs} {mm : Mm} {memory : Nat -> UInt8}
    (progress : Progress write start now fd sin files base copied)
    (transferred : Sfs.Transferred files sin write buffer (now.fs.fileByte sin) (now.fdArray fd.toNat).pos len done fs)
    (areas : mm.mmapList = start.mm.mmapList) (cached : mm.Cached)
    (user : if write = true then
        memory = now.memory /\ forall k, k < done.alen -> buffer k = start.memory (base.toNat + copied + k)
      else memory = paste (base.toNat + copied) done.alen done.buf now.memory) :
    Progress write start { now.moved fd fs done.alen with mm := mm, memory := memory } fd sin files base
      (copied + done.alen) := by
  have position : (now.fdArray fd.toNat).pos = (start.fdArray fd.toNat).pos + copied :=
    congrArg OpenFile.pos progress.file
  have before := progress.inFile
  have here := transferred.inFile
  have moved := transferred.moved
  have content := moved.1.bytes
  have place : (now.fdArray fd.toNat).pos.toNat = (start.fdArray fd.toNat).pos.toNat + copied := by
    by_cases nothing : copied = 0
    · rw [position, nothing, Int.natCast_zero, Int.add_zero, Nat.add_zero]
    · have nonneg := (before nothing).1
      omega
  have length : (start.fdArray fd.toNat).pos.toNat + copied + done.alen -
      ((start.fdArray fd.toNat).pos.toNat + copied) = done.alen := Nat.add_sub_cancel_left ..
  unfold Sfs.Moved Sfs.movedTo Sfs.filledTo at moved
  unfold Sfs.movedTo at content
  rw [place, length] at moved content
  constructor
  · constructor
    · unfold Caller.moved
      dsimp only
      rw [progress.file, progress.advanced.fdArray]
      unfold Caller.moved
      dsimp only
      rw [Function.update_idem, Int.add_assoc, ← Int.natCast_add]
    · change fs.fileByte sin = _
      rw [content, progress.advanced.bytes]
      cases write with
      | false => rfl
      | true =>
          rw [if_pos rfl, if_pos rfl, if_pos rfl, ← paste_append]
          rw [if_pos rfl] at user
          apply paste_congr
          intro k below
          rw [user.2 k below, Nat.add_assoc]
    · change memory = _
      cases write with
      | true =>
          rw [if_pos rfl] at user ⊢
          have before := progress.advanced.memory
          rw [if_pos rfl] at before
          rw [user.1, before]
      | false =>
          rw [if_neg Bool.false_ne_true] at user ⊢
          have before := progress.advanced.memory
          have kept := progress.advanced.bytes
          rw [if_neg Bool.false_ne_true] at before kept
          rw [user, before, ← paste_append]
          apply paste_congr
          intro k below
          rw [moved.2, if_neg Bool.false_ne_true, paste_inside (Nat.zero_le _) (by omega), kept, Nat.sub_zero]
          congr 1
          exact Nat.add_assoc ..
  · have shown := moved.1
    rw [shown.bytes.symm] at shown
    exact shown
  · exact progress.filesCount
  · exact areas
  · exact cached
  · intro some_byte
    by_cases silent : done.alen = 0
    · rw [silent] at some_byte ⊢
      exact before some_byte
    · have inside := here silent
      by_cases nothing : copied = 0
      · omega
      · have nonneg := (before nothing).1
        omega

theorem still {buffer : Bytes} {len : Nat} {done : Transfer} {fs : SfsFs}
    (progress : Progress write start now fd sin files base copied)
    (transferred : Sfs.Transferred files sin write buffer (now.fs.fileByte sin) (now.fdArray fd.toNat).pos len done fs)
    (silent : done.alen = 0) : Progress write start (now.moved fd fs done.alen) fd sin files base copied := by
  have user : if write = true then
        now.memory = now.memory /\ forall k, k < done.alen -> buffer k = start.memory (base.toNat + copied + k)
      else now.memory = paste (base.toNat + copied) done.alen done.buf now.memory := by
    rw [silent, paste_zero]
    split
    · exact ⟨rfl, fun k below => absurd below (Nat.not_lt_zero k)⟩
    · rfl
  have after := progress.next transferred progress.areas progress.cached user
  rw [silent] at after ⊢
  exact after

end Progress

section Loops

variable {start : Caller} {fd : Int} {sin : Nat} {files : List Nat} {bytes : Nat -> UInt8} {base : UInt64}

theorem word_advanced {addr : UInt64} {copied more : Nat} (place : addr.toNat = base.toNat + copied)
    (below : addr.toNat + more <= userTop) : (addr + UInt64.ofNat more).toNat = base.toNat + (copied + more) := by
  have top : userTop < UInt64.size := by decide
  have size : UInt64.size = 2 ^ 64 := rfl
  rw [UInt64.toNat_add, UInt64.toNat_ofNat_of_lt' (by omega), Nat.mod_eq_of_lt (by omega), place, Nat.add_assoc]

/-- What the loop of `sysfile_read` has done when it returns -/
theorem readLoop_meets (opened : start.Opened fd sin files bytes) (sorted : SortedAreas start.mm.mmapList)
    (readable : (start.fdArray fd.toNat).readable = true) (fuel : Nat) :
    forall (now : Caller) (addr : UInt64) (len copied : Nat) (buffer : Bytes),
      Progress false start now fd sin files base copied -> addr.toNat = base.toNat + copied ->
      Meets (readLoop fd fuel addr len copied buffer) now
        ⟨fun r after =>
          (Allows start.mm true addr.toNat (available sin fuel now.fs buffer (now.fdArray fd.toNat).pos len) ->
            Advanced false start after fd sin base r.toNat) /\
          (¬ Allows start.mm true addr.toNat (available sin fuel now.fs buffer (now.fdArray fd.toNat).pos len) ->
            (after.fdArray fd.toNat).pos ≠ (start.fdArray fd.toNat).pos + r.toNat),
          fun _ _ => False, fun _ => True⟩ := by
  induction fuel with
  | zero => exact fun _ _ _ _ _ _ _ => trivial
  | succ fuel inductionHypothesis =>
      intro now addr len copied buffer progress place
      have nothing_left : Allows start.mm true addr.toNat 0 := .inl rfl
      rw [readLoop, available]
      by_cases finished : len = 0
      · rw [if_pos finished, if_pos finished, meets_pure]
        refine ⟨fun _ => ?_, fun refused => absurd nothing_left refused⟩
        rw [progress.returned]
        exact progress.advanced
      · rw [if_neg finished, if_neg finished, meets_bind]
        have isOpen := progress.opened opened
        have permitted : (now.fdArray fd.toNat).readable = true := progress.file ▸ readable
        refine (fileIo_meets isOpen permitted).mono ?_ (fun _ _ failed => failed) fun _ _ => trivial
        rintro done after ⟨fs, ran, rfl, transferred⟩
        rw [ran]
        dsimp only
        by_cases silent : done.alen = 0
        · rw [if_pos silent, if_pos silent, meets_pure]
          refine ⟨fun _ => ?_, fun refused => absurd nothing_left refused⟩
          rw [progress.returned]
          exact (progress.still transferred silent).advanced
        · rw [if_neg silent, if_neg silent, meets_bind]
          unfold copyToUser
          rw [meets_bind]
          have chunk : 0 < done.alen /\ done.alen < 2 ^ 64 := by
            have short := transferred.short
            have size : min iobufSize len <= 4096 := Nat.min_le_left ..
            omega
          refine (@checkUser_meets (now.moved fd fs done.alen) addr done.alen true (progress.areas ▸ sorted)
            progress.cached chunk.1 chunk.2).mono ?_ (fun _ _ failed => failed) fun _ _ => trivial
          rintro stored checked ⟨mm, rfl, areas, cached, allowed⟩
          have same : Allows now.mm true addr.toNat done.alen <-> Allows start.mm true addr.toNat done.alen :=
            allows_congr progress.areas
          cases stored with
          | false =>
              have refused : ¬ Allows start.mm true addr.toNat done.alen :=
                fun allows => Bool.false_ne_true (allowed.mpr (same.mpr allows))
              have position : (now.fdArray fd.toNat).pos = (start.fdArray fd.toNat).pos + copied :=
                congrArg OpenFile.pos progress.file
              simp only [if_true, meets_pure]
              rw [progress.returned]
              refine ⟨fun allows => absurd ?_ refused, fun _ => ?_⟩
              · split at allows
                · exact allows
                · exact (allows_add.mp allows).1
              · rw [Caller.pos_moved, position]
                omega
          | true =>
              have allows := same.mp (allowed.mp rfl)
              have top := (allows.resolve_left silent).2.1
              have user : paste addr.toNat done.alen done.buf now.memory =
                  paste (base.toNat + copied) done.alen done.buf now.memory := by rw [place]
              have progressed := progress.next transferred (areas.trans progress.areas) cached user
              simp only [Bool.true_eq_false, if_false, meets_bind, meets_modify, meets_pure, meets_assert]
              refine ⟨fun _ => ?_, fun _ => trivial⟩
              by_cases complete : done.ret = none
              · rw [if_neg (not_not.mpr complete), if_neg (not_not.mpr complete)]
                have result := inductionHypothesis _ (addr + UInt64.ofNat done.alen) (len - done.alen)
                  (copied + done.alen) done.buf progressed (word_advanced place top)
                have following : (addr + UInt64.ofNat done.alen).toNat = addr.toNat + done.alen := by
                  rw [word_advanced place top, place, Nat.add_assoc]
                rw [following] at result
                dsimp only at result
                rw [Caller.pos_moved] at result
                refine result.mono ?_ (fun _ _ failed => failed) fun _ _ => trivial
                rintro r after ⟨told, untold⟩
                rw [allows_add]
                exact ⟨fun both => told both.2, fun refused => untold fun rest => refused ⟨allows, rest⟩⟩
              · rw [if_pos complete, if_pos complete, meets_pure]
                refine ⟨fun _ => ?_, fun refused => absurd allows refused⟩
                rw [progressed.returned]
                exact progressed.advanced

/-- What the loop of `sysfile_write` has done when it returns -/
theorem writeLoop_meets (opened : start.Opened fd sin files bytes) (sorted : SortedAreas start.mm.mmapList)
    (writable : (start.fdArray fd.toNat).writable = true) (fuel : Nat) :
    forall (now : Caller) (addr : UInt64) (len copied : Nat) (buffer : Bytes),
      Progress true start now fd sin files base copied -> addr.toNat = base.toNat + copied ->
      Meets (writeLoop fd fuel addr len copied buffer) now
        ⟨fun r after => Advanced true start after fd sin base r.toNat, fun _ _ => False, fun _ => True⟩ := by
  induction fuel with
  | zero => exact fun _ _ _ _ _ _ _ => trivial
  | succ fuel inductionHypothesis =>
      intro now addr len copied buffer progress place
      rw [writeLoop]
      by_cases finished : len = 0
      · rw [if_pos finished, meets_pure]
        dsimp only
        rw [progress.returned]
        exact progress.advanced
      · rw [if_neg finished, meets_bind]
        unfold copyFromUser
        rw [meets_bind]
        have chunk : 0 < min iobufSize len /\ min iobufSize len < 2 ^ 64 := by
          have size : min iobufSize len <= 4096 := Nat.min_le_left ..
          have some_byte : 0 < iobufSize := by decide
          omega
        refine (@checkUser_meets now addr _ false (progress.areas ▸ sorted) progress.cached chunk.1 chunk.2).mono ?_
          (fun _ _ failed => failed) fun _ _ => trivial
        rintro loaded checked ⟨mm, rfl, areas, cached, allowed⟩
        have looked : Progress true start { now with mm := mm } fd sin files base copied :=
          ⟨⟨progress.advanced.fdArray, progress.advanced.bytes, progress.advanced.memory⟩, progress.shown,
            progress.filesCount, areas.trans progress.areas, cached, progress.inFile⟩
        cases loaded with
        | false =>
            simp only [if_true, meets_pure]
            rw [looked.returned]
            exact looked.advanced
        | true =>
            have top := ((allowed.mp rfl).resolve_left (by omega)).2.1
            simp only [Bool.true_eq_false, if_false, meets_bind, meets_get, meets_pure]
            have permitted : (now.fdArray fd.toNat).writable = true := progress.file ▸ writable
            refine (fileIo_meets (looked.opened opened) permitted).mono ?_ (fun _ _ failed => failed) fun _ _ => trivial
            rintro done after ⟨fs, ran, rfl, transferred⟩
            dsimp only
            by_cases silent : done.alen = 0
            · rw [if_pos silent, meets_pure]
              dsimp only
              rw [looked.returned]
              exact (looked.still transferred silent).advanced
            · rw [if_neg silent, meets_bind, meets_assert]
              refine ⟨fun _ => ?_, fun _ => trivial⟩
              have short := transferred.short
              have memory := progress.advanced.memory
              rw [if_pos rfl] at memory
              have given : forall k, k < done.alen ->
                  paste 0 (min iobufSize len) (fun k => now.memory (addr.toNat + k)) buffer k =
                  start.memory (base.toNat + copied + k) := by
                intro k below
                rw [paste_inside (Nat.zero_le _) (by omega), Nat.sub_zero, memory, place]
              have progressed := looked.next transferred looked.areas looked.cached ⟨rfl, given⟩
              dsimp only
              by_cases complete : done.ret = none
              · rw [if_neg (not_not.mpr complete)]
                exact inductionHypothesis _ _ _ _ _ progressed (word_advanced place (by omega))
              · rw [if_pos complete, meets_pure]
                dsimp only
                rw [progressed.returned]
                exact progressed.advanced

end Loops

/-! ## The calls -/

/-- `file_read` or `file_write` -/
def fileMove (write : Bool) (fd : Int) (buffer : Bytes) (len : Nat) : Call Transfer :=
  if write = true then fileWrite fd buffer len else fileRead fd buffer len

/-- One transfer that moves the same bytes in one piece ends in the same way. -/
def AsOne (write : Bool) (start after : Caller) (fd : Int) (sin : Nat) (base : UInt64) (count : Nat) : Prop :=
  forall (buffer : Bytes) (done : Transfer) (alone : Caller),
    (write = true -> forall k, k < count -> buffer k = start.memory (base.toNat + k)) ->
    fileMove write fd buffer count start = .done done alone -> done.alen = count ->
    after.fdArray = alone.fdArray /\ after.fs.fileByte sin = alone.fs.fileByte sin /\
      (write = false -> forall k, k < count -> after.memory (base.toNat + k) = done.buf k)

/-- The result of a call tells what it has done. -/
structure Tells (write : Bool) (start after : Caller) (fd : Int) (sin : Nat) (base : UInt64) (r : Int) : Prop where
  moved : 0 <= r -> Advanced write start after fd sin base r.toNat /\ AsOne write start after fd sin base r.toNat
  failed : r < 0 -> (after.fdArray fd.toNat).pos = (start.fdArray fd.toNat).pos

/-- The user may have all the bytes that the file delivers.  If a chunk is
refused after it was read, the position has moved past bytes that nobody got. -/
def ReadAllowed (start : Caller) (fd : Int) (sin : Nat) (buffer : Option Bytes) (base len : UInt64) : Prop :=
  (start.fdArray fd.toNat).readable = true -> forall kernel, buffer = some kernel ->
    Allows start.mm true base.toNat
      (available sin (len.toNat + 1) start.fs kernel (start.fdArray fd.toNat).pos len.toNat)

/-- What a regular file delivers on a device that works: what is asked for, up to
the end of the file. -/
theorem available_eq {fs : SfsFs} {sin : Nat} {files : List Nat} (regular : SfsFs.Regular files sin fs) {fuel : Nat}
    (buffer : Bytes) {pos : Int} {len : Nat} (low : 0 <= pos) (enough : len < fuel) :
    available sin fuel fs buffer pos len = min len ((fs.inode sin).din.size - pos.toNat) := by
  induction fuel generalizing fs buffer pos len with
  | zero => exact absurd enough (Nat.not_lt_zero len)
  | succ fuel inductionHypothesis =>
      rw [available]
      by_cases empty : len = 0
      · rw [if_pos empty, empty, Nat.zero_min]
      · rw [if_neg empty]
        have whole : iobufSize = 4096 := rfl
        have limit : maxFileSize = 134217728 := rfl
        have small : (fs.inode sin).din.size <= maxFileSize := regular.size_le.trans (by decide)
        have extent : Meets (Sfs.io sin buffer pos (min iobufSize len) false) fs _ :=
          Sfs.io_extent regular fun writes => Bool.noConfusion writes
        obtain ⟨done, after, ran, result, sized⟩ := extent.returned
        rw [ran]
        dsimp only
        have chunk : min iobufSize len <= 4096 := Nat.min_le_left ..
        have within : pos < maxFileSize -> pos + (min iobufSize len : Nat) < 2 ^ 63 := fun below => by omega
        cases result with
        | refused bad same =>
            rw [same, if_pos rfl]
            by_contra more
            have below : pos < maxFileSize := by omega
            rcases bad with negative | past | overflows
            · omega
            · omega
            · rw [Sfs.span_eq low (within below)] at overflows
              omega
        | short _ writes => cases writes
        | whole good ret alen =>
            have below : pos < maxFileSize := by
              by_contra past
              exact good (.inr (.inl (Int.not_lt.mp past)))
            have ends : done.alen = min (min iobufSize len) ((fs.inode sin).din.size - pos.toNat) := by
              rw [alen, Sfs.ioEnd, if_pos rfl, Sfs.span_eq low (within below)]
              omega
            have size : (after.inode sin).din.size = (fs.inode sin).din.size :=
              sized.size.trans (if_neg fun both => Bool.false_ne_true both.1)
            by_cases nothing : done.alen = 0
            · rw [if_pos nothing]
              omega
            · rw [if_neg nothing, if_neg (not_not.mpr ret),
                inductionHypothesis sized.regular done.buf (by omega) (by omega), size]
              omega

/-- There the condition on a read is one on the size of the file. -/
theorem readAllowed_iff {start : Caller} {fd : Int} {sin : Nat} {files : List Nat}
    (regular : SfsFs.Regular files sin start.fs) (low : 0 <= (start.fdArray fd.toNat).pos) (buffer : Option Bytes)
    (base len : UInt64) : ReadAllowed start fd sin buffer base len <->
      ((start.fdArray fd.toNat).readable = true -> buffer ≠ none -> Allows start.mm true base.toNat
        (min len.toNat ((start.fs.inode sin).din.size - (start.fdArray fd.toNat).pos.toNat))) := by
  have delivered (kernel : Bytes) := available_eq regular kernel low (Nat.lt_succ_self len.toNat)
  constructor
  · intro allowed may present
    obtain ⟨kernel, same⟩ := Option.ne_none_iff_exists'.mp present
    exact delivered kernel ▸ allowed may kernel same
  · intro allowed may kernel same
    rw [delivered kernel]
    exact allowed may (same ▸ Option.some_ne_none kernel)

section Told

variable {start after : Caller} {fd : Int} {sin : Nat} {files : List Nat} {bytes : Nat -> UInt8} {base len : UInt64}
  {write : Bool} {count : Nat}

theorem Advanced.asOne (opened : start.Opened fd sin files bytes)
    (advanced : Advanced write start after fd sin base count) : AsOne write start after fd sin base count := by
  intro buffer done alone given ran whole
  have alike : forall allowed : OpenFile -> Bool, fileIo allowed write fd buffer count start = .done done alone ->
      after.fdArray = alone.fdArray /\ after.fs.fileByte sin = alone.fs.fileByte sin /\
        (write = false -> forall k, k < count -> after.memory (base.toNat + k) = done.buf k) := by
    intro allowed ran
    cases may : allowed (start.fdArray fd.toNat) with
    | false =>
        obtain ⟨rfl, rfl⟩ := (fileIo_refused opened may).of_done ran
        rw [← whole] at advanced ⊢
        refine ⟨?_, ?_, fun _ k below => absurd below (Nat.not_lt_zero k)⟩
        · exact advanced.fdArray.trans (Advanced.nothing alone fd sin base write).fdArray.symm
        · exact advanced.bytes.trans (Advanced.nothing alone fd sin base write).bytes.symm
    | true =>
        obtain ⟨fs, _, rfl, transferred⟩ := (fileIo_meets opened may).of_done ran
        have moved := transferred.moved
        have content := moved.1.bytes
        have start_bytes := opened.shown.bytes
        have length : (start.fdArray fd.toNat).pos.toNat + count - (start.fdArray fd.toNat).pos.toNat = count :=
          Nat.add_sub_cancel_left ..
        unfold Sfs.Moved Sfs.movedTo Sfs.filledTo at moved
        unfold Sfs.movedTo at content
        rw [whole, length] at moved content
        refine ⟨?_, ?_, ?_⟩
        · rw [advanced.fdArray, whole]
          rfl
        · change _ = fs.fileByte sin
          rw [advanced.bytes, content, start_bytes]
          cases write with
          | false => rfl
          | true =>
              rw [if_pos rfl, if_pos rfl]
              exact paste_congr fun k below => (given rfl k below).symm
        · rintro rfl k below
          rw [advanced.memory, moved.2, if_neg Bool.false_ne_true, if_neg Bool.false_ne_true,
            paste_inside (Nat.le_add_right ..) (by omega), paste_inside (Nat.zero_le _) (by omega), start_bytes]
          congr 2
          omega
  unfold fileMove at ran
  cases write with
  | true =>
      rw [if_pos rfl] at ran
      exact alike _ ran
  | false =>
      rw [if_neg Bool.false_ne_true] at ran
      exact alike _ ran

theorem Advanced.tells {r : Int} (opened : start.Opened fd sin files bytes)
    (advanced : Advanced write start after fd sin base r.toNat) : Tells write start after fd sin base r where
  moved _ := ⟨advanced, advanced.asOne opened⟩
  failed negative := by
    rw [advanced.fdArray, Caller.pos_moved]
    omega

theorem Tells.position {r : Int} (tells : Tells write start after fd sin base r) :
    (after.fdArray fd.toNat).pos = (start.fdArray fd.toNat).pos + r.toNat := by
  by_cases positive : 0 <= r
  · rw [(tells.moved positive).1.fdArray, Caller.pos_moved]
  · rw [tells.failed (by omega)]
    omega

theorem sysfileRead_meets (opened : start.Opened fd sin files bytes) (sorted : SortedAreas start.mm.mmapList)
    (cached : start.mm.Cached) (buffer : Option Bytes) (base len : UInt64) :
    Meets (sysfileRead buffer fd base len) start
      ⟨fun r after => Tells false start after fd sin base r <-> ReadAllowed start fd sin buffer base len,
        fun _ _ => False, fun _ => True⟩ := by
  have early : forall r : Int, r <= 0 -> Tells false start start fd sin base r := by
    intro r negative
    have none_ : r.toNat = 0 := by omega
    exact Advanced.tells opened (none_ ▸ Advanced.nothing start fd sin base false)
  unfold sysfileRead
  by_cases empty : len = 0
  · rw [if_pos empty, meets_pure]
    refine ⟨fun _ _ _ _ => ?_, fun _ => early 0 (Int.le_refl 0)⟩
    rw [empty]
    exact .inl rfl
  · rw [if_neg empty, meets_bind]
    refine (fileTestfd_meets opened true false).mono ?_ (fun _ _ failed => failed) fun _ _ => trivial
    rintro found after ⟨rfl, tested⟩
    have readable : found = true <-> (after.fdArray fd.toNat).readable = true :=
      tested.trans ⟨fun both => both.1 rfl, fun may => ⟨fun _ => may, fun never =>
        absurd never Bool.false_ne_true⟩⟩
    cases found with
    | false =>
        refine ⟨fun _ may => absurd (readable.mpr may) Bool.false_ne_true, fun _ => early _ (by decide)⟩
    | true =>
        cases buffer with
        | none =>
            refine ⟨fun _ _ _ absent => ?_, fun _ => early _ (by decide)⟩
            exact absurd absent (Option.some_ne_none _).symm
        | some kernel =>
            refine (readLoop_meets opened sorted (readable.mp rfl) (len.toNat + 1) after base len.toNat 0 kernel
              (Progress.nothing opened cached) rfl).mono ?_ (fun _ _ failed => failed) fun _ _ => trivial
            rintro r final ⟨told, untold⟩
            constructor
            · rintro tells may other ⟨⟩
              by_contra refused
              exact untold refused tells.position
            · exact fun allowed => (told (allowed (readable.mp rfl) kernel rfl)).tells opened

theorem sysfileWrite_meets (opened : start.Opened fd sin files bytes) (sorted : SortedAreas start.mm.mmapList)
    (cached : start.mm.Cached) (buffer : Option Bytes) (base len : UInt64) :
    Meets (sysfileWrite buffer fd base len) start
      ⟨fun r after => Tells true start after fd sin base r, fun _ _ => False, fun _ => True⟩ := by
  have early : forall r : Int, r <= 0 -> Tells true start start fd sin base r := by
    intro r negative
    have none_ : r.toNat = 0 := by omega
    exact Advanced.tells opened (none_ ▸ Advanced.nothing start fd sin base true)
  unfold sysfileWrite
  by_cases empty : len = 0
  · rw [if_pos empty, meets_pure]
    exact early 0 (Int.le_refl 0)
  · rw [if_neg empty, meets_bind]
    refine (fileTestfd_meets opened false true).mono ?_ (fun _ _ failed => failed) fun _ _ => trivial
    rintro found after ⟨rfl, tested⟩
    cases found with
    | false => exact early _ (by decide)
    | true =>
        cases buffer with
        | none => exact early _ (by decide)
        | some kernel =>
            refine (writeLoop_meets opened sorted ((tested.mp rfl).2 rfl) (len.toNat + 1) after base len.toNat 0 kernel
              (Progress.nothing opened cached) rfl).mono ?_ (fun _ _ failed => failed) fun _ _ => trivial
            exact fun r final advanced => advanced.tells opened

/-- The result of `sysfile_write` always tells what the call has done.  That of
`sysfile_read` does if and only if the user may have what the file delivers. -/
theorem sysfile_results (opened : start.Opened fd sin files bytes) (sorted : SortedAreas start.mm.mmapList)
    (cached : start.mm.Cached) (buffer : Option Bytes) (base len : UInt64) :
    (forall r after, sysfileRead buffer fd base len start = .done r after ->
      (Tells false start after fd sin base r <-> ReadAllowed start fd sin buffer base len)) /\
    (forall r after, sysfileWrite buffer fd base len start = .done r after ->
      Tells true start after fd sin base r) :=
  ⟨fun _ _ ran => (sysfileRead_meets opened sorted cached buffer base len).of_done ran,
    fun _ _ ran => (sysfileWrite_meets opened sorted cached buffer base len).of_done ran⟩

end Told

/-! ## A file of eight bytes -/

def eightBytesCalls : List Sfs.VolumeCall := [.load 3 true true, .io 3 (fun k => UInt8.ofNat (k + 65)) 0 8 true]

/-- A volume with a file of eight bytes, which is open as descriptor 0 -/
def eightBytes : Caller where
  fs := Sfs.volumeAfter 64 (fun _ => none) eightBytesCalls
  filesCount := 1
  fdArray := fun fd => ⟨.fdOpened, true, true, fd, 0, some 3, 1, 0⟩
  mm := Vm.CountedMm.twoAreas.toMm
  memory := fun _ => 0

theorem eightBytes_opened : eightBytes.Opened 0 3 Sfs.formattedFiles (eightBytes.fs.fileByte 3) := by
  have owned : eightBytes.fs.Owned Sfs.formattedFiles := by
    unfold eightBytes
    dsimp only
    exact Sfs.volumeAfter_owned (by decide) (by decide) rfl rfl (by decide +kernel)
  exact ⟨by decide, by decide, rfl, rfl, rfl, by decide, owned, by decide +kernel, rfl⟩

theorem eightBytes_sorted : SortedAreas eightBytes.mm.mmapList := Vm.CountedMm.twoAreas_wellFormed.sorted

theorem eightBytes_cached : eightBytes.mm.Cached := Vm.CountedMm.twoAreas_wellFormed.cached

/-- A volume with a file of five thousand bytes, and a user who may write two
pages -/
def longFile : Caller where
  fs := Sfs.volumeAfter 64 (fun _ => none) [.load 3 true true, .io 3 (fun k => UInt8.ofNat k) 0 5000 true]
  filesCount := 1
  fdArray := fun fd => ⟨.fdOpened, true, true, fd, 0, some 3, 1, 0⟩
  mm := { eightBytes.mm with mmapList := [⟨0x403000, 0x405000, { read := true, write := true }⟩] }
  memory := fun _ => 0

theorem longFile_opened : longFile.Opened 0 3 Sfs.formattedFiles (longFile.fs.fileByte 3) := by
  have owned : longFile.fs.Owned Sfs.formattedFiles := by
    unfold longFile
    dsimp only
    exact Sfs.volumeAfter_owned (by decide) (by decide) rfl rfl (by decide +kernel)
  exact ⟨by decide, by decide, rfl, rfl, rfl, by decide, owned, by decide +kernel, rfl⟩

theorem longFile_sorted : SortedAreas longFile.mm.mmapList := ⟨by decide, by decide⟩

theorem longFile_cached : longFile.mm.Cached := by
  intro vma cached
  cases cached

/-- A read and a write of two chunks each tell what they have done. -/
theorem sysfile_results_twoChunks :
    (Exists fun after => sysfileRead (some fun _ => 0) 0 0x403000 0x2000 longFile = .done 5000 after /\
      Tells false longFile after 0 3 0x403000 5000) /\
    (Exists fun after => sysfileWrite (some fun _ => 0) 0 0x403000 0x1800 longFile = .done 0x1800 after /\
      Tells true longFile after 0 3 0x403000 0x1800) := by
  have results (len : UInt64) :=
    sysfile_results longFile_opened longFile_sorted longFile_cached (some fun _ => 0) 0x403000 len
  have reads : (sysfileRead (some fun _ => 0) 0 0x403000 0x2000 longFile).value = some 5000 := by decide +kernel
  have writes : (sysfileWrite (some fun _ => 0) 0 0x403000 0x1800 longFile).value = some 0x1800 := by decide +kernel
  obtain ⟨read, reads⟩ := Outcome.of_value reads
  obtain ⟨wrote, writes⟩ := Outcome.of_value writes
  refine ⟨⟨read, reads, ((results 0x2000).1 5000 read reads).mpr ?_⟩, wrote, writes, ?_⟩
  case refine_2 => exact (results 0x1800).2 0x1800 wrote writes
  rintro _ kernel ⟨⟩
  have all : available 3 (0x2000 + 1) longFile.fs (fun _ => 0) 0 0x2000 = 5000 := by decide +kernel
  change Allows _ true 0x403000 (available 3 (0x2000 + 1) longFile.fs (fun _ => 0) 0 0x2000)
  rw [all]
  refine .inr ⟨by decide, by decide, fun byte low high => ?_⟩
  exact ⟨⟨0x403000, 0x405000, { read := true, write := true }⟩, by decide,
    ⟨low, Nat.lt_of_lt_of_le high (by decide)⟩, rfl, fun guard => Bool.noConfusion guard.2.1⟩

/-- A read to the first area, which the user may only read, is an error that
moves the position. -/
theorem sysfileRead_loses_bytes : eightBytes.Opened 0 3 Sfs.formattedFiles (eightBytes.fs.fileByte 3) /\
    SortedAreas eightBytes.mm.mmapList /\ eightBytes.mm.Cached /\
    (Exists fun after => sysfileRead (some fun _ => 0) 0 0x400000 5 eightBytes = .done (-3) after /\
      (eightBytes.fdArray 0).pos = 0 /\ (after.fdArray 0).pos = 5 /\
      ¬ Tells false eightBytes after 0 3 0x400000 (-3)) := by
  have reads : (sysfileRead (some fun _ => 0) 0 0x400000 5 eightBytes).value = some (-3) := by decide +kernel
  have moves : (sysfileRead (some fun _ => 0) 0 0x400000 5 eightBytes).state.map
      (fun after => (after.fdArray 0).pos) = some 5 := by decide +kernel
  obtain ⟨after, reads⟩ := Outcome.of_value reads
  rw [reads] at moves
  have position : (after.fdArray 0).pos = 5 := Option.some.inj moves
  refine ⟨eightBytes_opened, eightBytes_sorted, eightBytes_cached, after, reads, rfl, position, fun tells => ?_⟩
  have same : (after.fdArray 0).pos = 0 := tells.failed (by decide)
  rw [position] at same
  cases same

end Sysfile
end Ucore
