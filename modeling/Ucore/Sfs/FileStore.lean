import Mathlib.Algebra.Group.Int.Defs
import Mathlib.Algebra.Group.Nat.Defs
import Ucore.Library.Contents
import Ucore.Library.Run
import Ucore.Sfs.Remount

namespace Ucore
namespace Sfs

open Library
open Program
open SfsFs

/-!
# A volume is a store of files

To its callers a volume is a list of bytes for each of its files.  Transfers,
seeks and truncations act on the list of one file, and loading, dropping,
writing back, unmounting and rebooting act on none.  Whatever the calls are,
the replies of the volume are those of the store.
-/

/-- What a call is answered: its error, and the bytes that were moved. -/
structure Reply where
  error : Option Errno
  bytes : List UInt8
deriving DecidableEq

/-- A call on a mounted volume; the last two mount it again. -/
inductive StoreCall where
  | load (ino : Nat) (dinAlloc nodeAlloc : Bool)
  | hold (ino : Nat)
  | drop (ino : Nat)
  | io (ino : Nat) (buf : Bytes) (offset : Int) (resid : Nat) (write : Bool)
  | seek (ino : Nat) (pos : Int)
  | truncate (ino : Nat) (len : Int)
  | fsync (ino : Nat)
  | sync
  | remount
  | reboot

/-! ## The store -/

/-- The bytes of each file -/
abbrev Store := Nat -> List UInt8

/-- A place where no transfer starts, or an end that no number reaches -/
def Denied (offset : Int) (resid : Nat) : Prop :=
  offset < 0 \/ (maxFileSize : Int) <= offset \/ 2 ^ 63 <= offset + resid

instance (offset : Int) (resid : Nat) : Decidable (Denied offset resid) := by
  unfold Denied
  infer_instance

namespace Store

/-- The file with zeros up to a length -/
def extend (store : Store) (ino len : Nat) : Store := Function.update store ino ((store ino).rightpad len 0)

/-- The file cut, or filled up with zeros, to a length -/
def resize (store : Store) (ino len : Nat) : Store :=
  Function.update store ino (((store ino).take len).rightpad len 0)

theorem resize_eq_extend {store : Store} {ino len : Nat} (grows : (store ino).length <= len) :
    store.resize ino len = store.extend ino len := by
  unfold resize extend
  rw [List.take_of_length_le grows]

/-- Whether a store may answer a transfer like this.  A write may be short. -/
def AnswersIo (store : Store) (ino : Nat) (buf : Bytes) (offset : Int) (resid : Nat) (write : Bool) (reply : Reply) :
    Prop :=
  if Denied offset resid then reply = ⟨some .inval, []⟩
  else if write = false then reply = ⟨none, readFrom (store ino) offset.toNat resid⟩
  else reply.bytes = (List.range reply.bytes.length).map buf /\
    ((reply.error = none /\ reply.bytes.length = resid) \/
      (reply.error = some .noMem /\ reply.bytes.length < resid))

instance (store : Store) (ino : Nat) (buf : Bytes) (offset : Int) (resid : Nat) (write : Bool) (reply : Reply) :
    Decidable (store.AnswersIo ino buf offset resid write reply) := by
  unfold AnswersIo
  infer_instance

/-- Whether a store may answer a call like this -/
def Answers (store : Store) : StoreCall -> Reply -> Prop
  | .load _ dinAlloc nodeAlloc, reply =>
      reply = ⟨none, []⟩ \/ (reply = ⟨some .noMem, []⟩ /\ (dinAlloc && nodeAlloc) = false)
  | .io ino buf offset resid write, reply => store.AnswersIo ino buf offset resid write reply
  | .seek _ pos, reply =>
      reply = ⟨if pos < 0 \/ (maxFileSize : Int) <= pos then some .inval else none, []⟩
  | .truncate _ len, reply =>
      reply = ⟨if len < 0 \/ (maxFileSize : Int) < len then some .inval else none, []⟩
  | .remount, reply => reply = ⟨none, []⟩ \/ reply = ⟨some .busy, []⟩
  | _, reply => reply = ⟨none, []⟩

instance (store : Store) (call : StoreCall) (reply : Reply) : Decidable (store.Answers call reply) := by
  cases call <;> unfold Answers <;> infer_instance

/-- The files after a call and its answer -/
def next (store : Store) : StoreCall -> Reply -> Store
  | .io ino _ offset _ true, reply => Function.update store ino (overwrite (store ino) offset.toNat reply.bytes)
  | .seek ino pos, reply => if reply.error = none then store.extend ino pos.toNat else store
  | .truncate ino len, reply => if reply.error = none then store.resize ino len.toNat else store
  | _, _ => store

end Store

/-- The store, step by step -/
def storeMachine : Machine Store (StoreCall × Reply) where
  step store event := if store.Answers event.1 event.2 then some (store.next event.1 event.2) else none

/-! ## The volume -/

/-- The answer of a call that moves no bytes -/
def answer : Outcome SfsFs Errno Fault Unit -> Option (Reply × SfsFs)
  | .done _ after => some (⟨none, []⟩, after)
  | .fail error after => some (⟨some error, []⟩, after)
  | .stop _ => none

/-- The device is mounted again once the volume has been left. -/
def mountAgain : Outcome SfsFs Errno Fault Unit -> Option (Reply × SfsFs)
  | .done _ after =>
      match doMount after.device with
      | some (.ok fresh) => some (⟨none, []⟩, fresh)
      | _ => none
  | .fail error after => some (⟨some error, []⟩, after)
  | .stop _ => none

/-- The answer of a transfer -/
def answerIo : Outcome SfsFs Errno Fault Transfer -> Option (Reply × SfsFs)
  | .done now after => some (⟨now.ret, (List.range now.alen).map now.buf⟩, after)
  | .fail error after => some (⟨some error, []⟩, after)
  | .stop _ => none

namespace StoreCall

/-- The answer of the volume and what it leaves, unless the system stops -/
def run (fs : SfsFs) : StoreCall -> Option (Reply × SfsFs)
  | load ino dinAlloc nodeAlloc => answer (loadInode ino dinAlloc nodeAlloc fs)
  | hold ino => answer (refInc ino fs)
  | drop ino => answer (refDec ino fs)
  | io ino buf offset resid write => answerIo (Sfs.io ino buf offset resid write fs)
  | seek ino pos => answer (tryseek ino pos fs)
  | truncate ino len => answer (truncfile ino len fs)
  | fsync ino => answer (Sfs.fsync ino fs)
  | sync => answer (Sfs.sync fs)
  | remount => mountAgain (vfsUnmount fs)
  | reboot => mountAgain (cleanup fs)

/-- A call that is about a loaded file, and that has room for the blocks that
it adds before it knows whether there are any.  Two kinds of call are left
out, on which the volume is no store: a truncation to a length between zero
and the size, which keeps the bytes that it cuts off, so that a later seek
past them shows them again; and a write from past the size, which stops at an
assertion of the block map when it leaves out a block. -/
def Admitted (files : List Nat) (fs : SfsFs) : StoreCall -> Prop
  | load ino _ _ => ino ∈ files
  | hold ino => ino ∈ fs.inodeList
  | drop ino => ino ∈ fs.inodeList
  | fsync ino => ino ∈ fs.inodeList
  | io ino _ offset resid write => ino ∈ fs.inodeList /\ (fs.inode ino).din.type = typeFile /\ resid < 2 ^ 64 /\
      (write = true -> ¬ Denied offset resid -> fs.Fits ino offset resid)
  | seek ino pos => ino ∈ fs.inodeList /\ (fs.inode ino).din.type = typeFile /\
      (((fs.inode ino).din.size : Int) < pos -> pos < maxFileSize -> fs.Room ino pos.toNat)
  | truncate ino len => ino ∈ fs.inodeList /\ (fs.inode ino).din.type = typeFile /\
      (0 <= len -> len <= maxFileSize ->
        len = 0 \/ (((fs.inode ino).din.size : Int) <= len /\ fs.Room ino len.toNat))
  | _ => True

end StoreCall

instance (fs : SfsFs) (sin : Nat) (offset : Int) (resid : Nat) : Decidable (fs.Fits sin offset resid) := by
  unfold SfsFs.Fits
  infer_instance

instance (fs : SfsFs) (sin len : Nat) : Decidable (fs.Room sin len) := by
  unfold SfsFs.Room
  infer_instance

instance (files : List Nat) (fs : SfsFs) (call : StoreCall) : Decidable (call.Admitted files fs) := by
  cases call <;> unfold StoreCall.Admitted <;> infer_instance

/-- The volume, step by step, with the answers it gives -/
def observedMachine : Machine SfsFs (StoreCall × Reply) where
  step fs event := (event.1.run fs).bind (fun result => if result.1 = event.2 then some result.2 else none)

/-- The volume, step by step -/
def callMachine : Machine SfsFs StoreCall where
  step fs call := (call.run fs).map Prod.snd

/-- A write that gets no more blocks is one that needs more than there are: the
store has no count of blocks that could say so. -/
def ShortOnlyWhenFull (fs : SfsFs) (event : StoreCall × Reply) : Prop :=
  forall ino buf offset resid, event.1 = .io ino buf offset resid true -> event.2.error = some .noMem ->
    fs.budget ino < footprint (roundupDiv (offset.toNat + resid) blksize)

/-! ## Each call -/

/-- The files of a volume are those of a store. -/
def SfsFs.Holds (files : List Nat) (fs : SfsFs) (store : Store) : Prop :=
  forall ino, ino ∈ files -> (fs.dinOf ino).type = typeFile ->
    (fs.dinOf ino).size = (store ino).length /\ fs.byteIn (fs.dinOf ino) = ((store ino).getD · 0)

variable {fs after : SfsFs} {files : List Nat} {store : Store} {ino : Nat} {reply : Reply} {call : StoreCall}

theorem SfsFs.Holds.same {other : Store} (holds : fs.Holds files store) (member : ino ∈ files)
    (same : Same fs ino after) (kind : (after.dinOf ino).type = typeFile) (unchanged : other ino = store ino) :
    (after.dinOf ino).size = (other ino).length /\ after.byteIn (after.dinOf ino) = ((other ino).getD · 0) := by
  rw [same.din] at kind
  have held := holds ino member kind
  rw [same.din, unchanged]
  exact ⟨held.1, same.bytes.trans held.2⟩

theorem SfsFs.Holds.still (holds : fs.Holds files store) (still : Still files fs after) : after.Holds files store :=
  fun ino member kind => holds.same member (still.same ino member) kind rfl

theorem SfsFs.Holds.update {contents : List UInt8} (holds : fs.Holds files store)
    (others : forall other, other ∈ files -> other ≠ ino -> Same fs other after)
    (loaded : ino ∈ after.inodeList) (size : (after.inode ino).din.size = contents.length)
    (bytes : after.fileByte ino = (contents.getD · 0)) : after.Holds files (Function.update store ino contents) := by
  intro other member kind
  by_cases here : other = ino
  · subst here
    rw [Function.update_self, dinOf_loaded loaded]
    exact ⟨size, bytes⟩
  · exact holds.same member (others other member here) kind (Function.update_of_ne here ..)

/-- What the store has of a loaded file -/
theorem SfsFs.Holds.loaded (holds : fs.Holds files store) (orderly : Orderly files fs) (loaded : ino ∈ fs.inodeList)
    (kind : (fs.inode ino).din.type = typeFile) :
    (fs.inode ino).din.size = (store ino).length /\ fs.byteIn (fs.inode ino).din = ((store ino).getD · 0) := by
  have held := holds ino (orderly.owned.loaded ino loaded)
  rw [dinOf_loaded loaded] at held
  exact held kind

theorem refusedIo_iff {offset : Int} {resid : Nat} (small : resid < 2 ^ 64) :
    RefusedIo offset resid <-> Denied offset resid := by
  unfold RefusedIo Denied span maxFileSize
  rw [Int.bmod_def]
  omega

/-- The volume answers as the store may, and holds the files of the store
afterwards. -/
structure Serves (files : List Nat) (fs : SfsFs) (store : Store) (call : StoreCall) (reply : Reply) (after : SfsFs) :
    Prop where
  ran : call.run fs = some (reply, after)
  answers : store.Answers call reply
  orderly : Orderly files after
  holds : after.Holds files (store.next call reply)
  short : ShortOnlyWhenFull fs (call, reply)

theorem answer_still {program : Kernel Unit}
    (meets : Meets program fs ⟨fun _ after => Still files fs after, fun _ _ => False, fun _ => False⟩) :
    Exists fun after => answer (program fs) = some (⟨none, []⟩, after) /\ Still files fs after := by
  rcases meets.returned with ⟨_, after, ran, still⟩
  exact ⟨after, by rw [ran]; rfl, still⟩

/-- A volume that has been left is mounted again. -/
theorem mountAgain_still (orderly : Orderly files fs) (clean : fs.Clean) :
    Exists fun after => mountAgain (.done () fs) = some (⟨none, []⟩, after) /\ Still files fs after := by
  rcases orderly.mounts clean with ⟨after, mounted, still, _⟩
  refine ⟨after, ?_, still⟩
  unfold mountAgain
  dsimp only
  rw [mounted]

section Io

variable {buf : Bytes} {offset : Int} {resid : Nat} {write : Bool} {now : Transfer}

theorem ioEnd_of_write (good : ¬ Denied offset resid) (reached : offset + resid <= maxMapped) (din : DiskInode) :
    ioEnd din offset resid true = offset.toNat + resid := by
  have low : 0 <= offset := Int.not_lt.mp fun negative => good (.inl negative)
  have small : offset + resid < 2 ^ 63 := Int.not_le.mp fun beyond => good (.inr (.inr beyond))
  have mapped : maxMapped < maxFileSize := by decide
  unfold ioEnd
  rw [if_neg Bool.noConfusion, span_eq low small]
  omega

theorem ioEnd_of_read (good : ¬ Denied offset resid) {din : DiskInode} (mapped : din.size <= maxMapped) :
    ioEnd din offset resid false - offset.toNat = min resid (din.size - offset.toNat) := by
  have low : 0 <= offset := Int.not_lt.mp fun negative => good (.inl negative)
  have small : offset + resid < 2 ^ 63 := Int.not_le.mp fun beyond => good (.inr (.inr beyond))
  have limit : maxMapped < maxFileSize := by decide
  unfold ioEnd
  rw [if_pos rfl, span_eq low small]
  omega

theorem SfsFs.Holds.moved {ret : Option Errno} (holds : fs.Holds files store) (orderly : Orderly files fs)
    (loaded : ino ∈ fs.inodeList) (kind : (fs.inode ino).din.type = typeFile)
    (others : forall other, other ∈ files -> other ≠ ino -> Same fs other after)
    (sized : Sized files ino fs (fs.sizeAfter ino offset write now.alen) after)
    (moved : Moved files ino write buf ((store ino).getD · 0) offset.toNat (offset.toNat + now.alen) now after)
    (start : write = true -> 0 < now.alen -> offset.toNat <= (store ino).length) :
    after.Holds files (store.next (.io ino buf offset resid write) ⟨ret, (List.range now.alen).map now.buf⟩) := by
  have held := holds.loaded orderly loaded kind
  have size := sized.size
  have bytes := moved.1.bytes
  have listed := sized.regular.extent.loaded
  unfold sizeAfter at size
  cases write with
  | false =>
      rw [if_neg fun both => Bool.noConfusion both.1] at size
      have updated := holds.update others listed (size.trans held.1) bytes
      rwa [Function.update_eq_self] at updated
  | true =>
      have same : now.buf = buf := moved.2
      have length : ((List.range now.alen).map buf).length = now.alen := by
        rw [List.length_map, List.length_range]
      rw [same]
      refine holds.update others listed ?_ ?_
      · by_cases some_ : 0 < now.alen
        · rw [size, if_pos ⟨rfl, some_⟩, length_overwrite (start rfl some_), length, held.1]
        · have none : now.alen = 0 := Nat.eq_zero_of_not_pos some_
          rw [size, if_neg fun both => some_ both.2, none, List.range_zero, List.map_nil, overwrite_nil, held.1]
      · unfold movedTo at bytes
        rw [if_pos rfl, Nat.add_sub_cancel_left] at bytes
        rw [bytes]
        by_cases some_ : 0 < now.alen
        · rw [getD_overwrite (start rfl some_), length]
          exact paste_congr fun index low => (getD_map_range low).symm
        · have none : now.alen = 0 := Nat.eq_zero_of_not_pos some_
          rw [none, List.range_zero, List.map_nil, overwrite_nil, paste_zero]

/-- The answer to a transfer is one of the store. -/
theorem answers_of_result (result : IoResult fs ino buf offset resid write now) (small : resid < 2 ^ 64)
    (size : (fs.inode ino).din.size = (store ino).length) (mapped : (fs.inode ino).din.size <= maxMapped)
    (fits : write = true -> ¬ Denied offset resid -> fs.Fits ino offset resid)
    (buffer : now.buf = filledTo write offset.toNat (offset.toNat + now.alen) buf ((store ino).getD · 0)) :
    store.AnswersIo ino buf offset resid write ⟨now.ret, (List.range now.alen).map now.buf⟩ := by
  have denied : RefusedIo offset resid <-> Denied offset resid := refusedIo_iff small
  have length : ((List.range now.alen).map now.buf).length = now.alen := by
    rw [List.length_map, List.length_range]
  unfold Store.AnswersIo
  cases result with
  | refused bad same =>
      rw [if_pos (denied.mp bad), same]
      rfl
  | short good writes ret alen few =>
      have allowed : ¬ Denied offset resid := fun bad => good (denied.mpr bad)
      subst writes
      rw [ioEnd_of_write allowed (fits rfl allowed).2, Nat.add_sub_cancel_left] at alen
      rw [if_neg allowed, if_neg Bool.noConfusion, length, buffer]
      exact ⟨rfl, .inr ⟨ret, alen⟩⟩
  | whole good ret alen =>
      have allowed : ¬ Denied offset resid := fun bad => good (denied.mpr bad)
      rw [if_neg allowed]
      cases write with
      | true =>
          rw [ioEnd_of_write allowed (fits rfl allowed).2, Nat.add_sub_cancel_left] at alen
          rw [if_neg Bool.noConfusion, length, buffer]
          exact ⟨rfl, .inl ⟨ret, alen⟩⟩
      | false =>
          rw [ioEnd_of_read allowed mapped, size] at alen
          have within : now.alen <= (store ino).length - offset.toNat := by omega
          have part : (List.range now.alen).map now.buf = readFrom (store ino) offset.toNat resid := by
            rw [← readFrom_min, ← alen, ← map_getD_eq_readFrom 0 within]
            refine List.map_congr_left fun k listed => ?_
            have low := List.mem_range.mp listed
            have filled : now.buf = paste 0 now.alen (fun k => (store ino).getD (offset.toNat + k) 0) buf := by
              rw [buffer]
              unfold filledTo
              rw [if_neg Bool.noConfusion, Nat.add_sub_cancel_left]
            rw [filled, paste_inside (Nat.zero_le k) (by omega), Nat.sub_zero]
          rw [if_pos rfl, part, ret]

theorem io_serves (orderly : Orderly files fs) (holds : fs.Holds files store)
    (admitted : StoreCall.Admitted files fs (.io ino buf offset resid write)) :
    Exists fun reply => Exists fun after => Serves files fs store (.io ino buf offset resid write) reply after := by
  rcases admitted with ⟨loaded, kind, small, fits⟩
  have regular := orderly.regular loaded kind
  have denied : RefusedIo offset resid <-> Denied offset resid := refusedIo_iff small
  have held := holds.loaded orderly loaded kind
  have shown : Shows files ino ((store ino).getD · 0) fs := ⟨orderly.owned, loaded, held.2⟩
  have extent : Meets (io ino buf offset resid write) fs _ :=
    io_extent regular fun writes good => fits writes fun bad => good (denied.mpr bad)
  rcases extent.returned with ⟨now, after, ran, result, sized⟩
  have transferred := (io_transfers shown).of_done ran
  have changed := (io_edits orderly.owned loaded).of_done ran
  have geometry := ((fixes_io ino buf offset resid write).meets fs).of_done ran
  have next := orderly.changed loaded changed sized geometry
  refine ⟨⟨now.ret, (List.range now.alen).map now.buf⟩, after, ?_, ?_, next.1, ?_, ?_⟩
  · change answerIo (io ino buf offset resid write fs) = _
    rw [ran]
    rfl
  · exact answers_of_result result small held.1 regular.size_le fits transferred.moved.2
  · refine holds.moved orderly loaded kind next.2 sized transferred.moved fun writes some_ => ?_
    have good : ¬ Denied offset resid := by
      intro bad
      cases result with
      | refused _ same =>
          rw [same] at some_
          exact Nat.lt_irrefl 0 some_
      | whole good => exact good (denied.mpr bad)
      | short good => exact good (denied.mpr bad)
    have first := (fits writes good).1
    rw [← held.1]
    omega
  · intro other source position count same short
    cases same
    cases result with
    | refused _ same =>
        rw [same] at short
        cases short
    | whole _ ret =>
        rw [ret] at short
        cases short
    | short good _ _ _ few =>
        have allowed : ¬ Denied offset resid := fun bad => good (denied.mpr bad)
        rw [ioEnd_of_write allowed (fits rfl allowed).2] at few
        exact few

end Io

/-- A call that sets the size of a file -/
theorem SfsFs.Cut.serves {allowed : Nat -> Prop} {size : Nat} {bytes : Nat -> UInt8} {contents : List UInt8}
    (orderly : Orderly files fs) (holds : fs.Holds files store) (loaded : ino ∈ fs.inodeList)
    (cut : Cut files ino fs bytes size after) (changed : Changed files ino allowed fs after)
    (geometry : after.geometry = fs.geometry) (length : size = contents.length) (same : bytes = (contents.getD · 0)) :
    Orderly files after /\ after.Holds files (Function.update store ino contents) := by
  have next := orderly.changed loaded changed cut.sized geometry
  refine ⟨next.1, holds.update next.2 cut.sized.regular.extent.loaded ?_ (cut.bytes.trans same)⟩
  exact cut.sized.size.trans length

theorem seek_serves {pos : Int} (orderly : Orderly files fs) (holds : fs.Holds files store)
    (admitted : StoreCall.Admitted files fs (.seek ino pos)) :
    Exists fun reply => Exists fun after => Serves files fs store (.seek ino pos) reply after := by
  rcases admitted with ⟨loaded, kind, room⟩
  have held := holds.loaded orderly loaded kind
  have meets := tryseek_extent (orderly.regular loaded kind) room
  have edits : Meets (tryseek ino pos) fs _ := tryseek_edits orderly.owned loaded
  have fixes := (fixes_tryseek ino pos).meets fs
  cases ran : tryseek ino pos fs with
  | done _ after =>
      rcases meets.of_done ran with ⟨low, high, cut⟩
      have accepted : ¬ (pos < 0 \/ (maxFileSize : Int) <= pos) := by omega
      have length : max (fs.inode ino).din.size pos.toNat = ((store ino).rightpad pos.toNat 0).length := by
        rw [List.length_rightpad, held.1, Nat.max_comm]
      have next := cut.serves orderly holds loaded (edits.of_done ran) (fixes.of_done ran) length
        (held.2.trans getD_rightpad.symm)
      refine ⟨⟨none, []⟩, after, ?_, ?_, next.1, next.2, fun _ _ _ _ other => by cases other⟩
      · exact congrArg answer ran
      · change (⟨none, []⟩ : Reply) = ⟨if pos < 0 \/ (maxFileSize : Int) <= pos then some .inval else none, []⟩
        rw [if_neg accepted]
  | fail error after =>
      rcases meets.of_fail ran with ⟨outside, rfl, rfl⟩
      refine ⟨⟨some .inval, []⟩, after, ?_, ?_, orderly, holds, fun _ _ _ _ other => by cases other⟩
      · exact congrArg answer ran
      · change (⟨some .inval, []⟩ : Reply) = ⟨if pos < 0 \/ (maxFileSize : Int) <= pos then some .inval else none, []⟩
        rw [if_pos outside]
  | stop fault => exact (meets.of_stop ran).elim

theorem truncate_serves {len : Int} (orderly : Orderly files fs) (holds : fs.Holds files store)
    (admitted : StoreCall.Admitted files fs (.truncate ino len)) :
    Exists fun reply => Exists fun after => Serves files fs store (.truncate ino len) reply after := by
  rcases admitted with ⟨loaded, kind, allowed⟩
  have held := holds.loaded orderly loaded kind
  have meets := truncfile_extent (orderly.regular loaded kind) allowed
  have edits : Meets (truncfile ino len) fs _ := truncfile_edits orderly.owned loaded
  have fixes := (fixes_truncfile ino len).meets fs
  cases ran : truncfile ino len fs with
  | done _ after =>
      rcases meets.of_done ran with ⟨low, high, cut⟩
      have accepted : ¬ (len < 0 \/ (maxFileSize : Int) < len) := by omega
      have next : Orderly files after /\ after.Holds files (store.next (.truncate ino len) ⟨none, []⟩) := by
        change _ /\ after.Holds files (store.resize ino len.toNat)
        by_cases zero : len = 0
        · rw [if_pos zero] at cut
          rw [zero]
          exact cut.serves orderly holds loaded (edits.of_done ran) (fixes.of_done ran) (by rw [zero]; rfl) rfl
        · rw [if_neg zero] at cut
          have grows : (fs.inode ino).din.size <= len.toNat := by
            rcases allowed low high with same | ⟨grows, _⟩
            · exact absurd same zero
            · omega
          rw [Store.resize_eq_extend (held.1 ▸ grows)]
          refine cut.serves orderly holds loaded (edits.of_done ran) (fixes.of_done ran) ?_
            (held.2.trans getD_rightpad.symm)
          rw [List.length_rightpad, ← held.1, Nat.max_eq_left grows]
      refine ⟨⟨none, []⟩, after, ?_, ?_, next.1, next.2, fun _ _ _ _ other => by cases other⟩
      · exact congrArg answer ran
      · change (⟨none, []⟩ : Reply) = ⟨if len < 0 \/ (maxFileSize : Int) < len then some .inval else none, []⟩
        rw [if_neg accepted]
  | fail error after =>
      rcases meets.of_fail ran with ⟨outside, rfl, rfl⟩
      refine ⟨⟨some .inval, []⟩, after, ?_, ?_, orderly, holds, fun _ _ _ _ other => by cases other⟩
      · exact congrArg answer ran
      · change (⟨some .inval, []⟩ : Reply) = ⟨if len < 0 \/ (maxFileSize : Int) < len then some .inval else none, []⟩
        rw [if_pos outside]
  | stop fault => exact (meets.of_stop ran).elim

/-- A call that leaves all files -/
theorem still_serves (holds : fs.Holds files store) (ran : call.run fs = some (reply, after))
    (answers : store.Answers call reply) (still : Still files fs after) (same : store.next call reply = store)
    (short : ShortOnlyWhenFull fs (call, reply)) :
    Exists fun reply => Exists fun after => Serves files fs store call reply after := by
  refine ⟨reply, after, ran, answers, still.orderly, ?_, short⟩
  rw [same]
  exact holds.still still

/-- One call: the volume does not stop, and answers as the store may. -/
theorem call_serves (orderly : Orderly files fs) (holds : fs.Holds files store) (admitted : call.Admitted files fs) :
    Exists fun reply => Exists fun after => Serves files fs store call reply after := by
  cases call with
  | load ino dinAlloc nodeAlloc =>
      have meets : Meets (loadInode ino dinAlloc nodeAlloc) fs _ := loadInode_orderly orderly admitted
      cases ran : loadInode ino dinAlloc nodeAlloc fs with
      | done _ after =>
          have facts := meets.of_done ran
          exact still_serves holds (congrArg answer ran) (.inl rfl) facts.1 rfl fun _ _ _ _ other => by cases other
      | fail error after =>
          rcases meets.of_fail ran with ⟨rfl, none, still, _⟩
          exact still_serves holds (congrArg answer ran) (.inr ⟨rfl, none⟩) still rfl
            fun _ _ _ _ other => by cases other
      | stop fault => exact (meets.of_stop ran).elim
  | hold ino =>
      rcases answer_still ((refInc_orderly orderly admitted).mono (fun _ _ facts => facts.1)
        (fun _ _ failed => failed) (fun _ stopped => stopped)) with ⟨after, ran, still⟩
      exact still_serves holds ran rfl still rfl fun _ _ _ _ other => by cases other
  | drop ino =>
      rcases answer_still (refDec_orderly orderly admitted) with ⟨after, ran, still⟩
      exact still_serves holds ran rfl still rfl fun _ _ _ _ other => by cases other
  | fsync ino =>
      rcases answer_still ((fsync_orderly orderly admitted).mono (fun _ _ facts => facts.1.still)
        (fun _ _ failed => failed) (fun _ stopped => stopped)) with ⟨after, ran, still⟩
      exact still_serves holds ran rfl still rfl fun _ _ _ _ other => by cases other
  | sync =>
      rcases answer_still ((sync_orderly orderly).mono (fun _ _ facts => facts.1)
        (fun _ _ failed => failed) (fun _ stopped => stopped)) with ⟨after, ran, still⟩
      exact still_serves holds ran rfl still rfl fun _ _ _ _ other => by cases other
  | io ino buf offset resid write => exact io_serves orderly holds admitted
  | seek ino pos => exact seek_serves orderly holds admitted
  | truncate ino len => exact truncate_serves orderly holds admitted
  | remount =>
      have meets := vfsUnmount_orderly orderly
      cases ran : vfsUnmount fs with
      | done _ left =>
          rcases meets.of_done ran with ⟨_, still, clean⟩
          rcases mountAgain_still still.orderly clean with ⟨after, mounted, again⟩
          exact still_serves holds ((congrArg mountAgain ran).trans mounted) (.inl rfl) (still.trans again) rfl
            fun _ _ _ _ other => by cases other
      | fail error after =>
          rcases meets.of_fail ran with ⟨rfl, _, still, _⟩
          exact still_serves holds (congrArg mountAgain ran) (.inr rfl) still rfl fun _ _ _ _ other => by cases other
      | stop fault => exact (meets.of_stop ran).elim
  | reboot =>
      rcases (cleanup_orderly orderly).returned with ⟨_, left, ran, still, clean⟩
      rcases mountAgain_still still.orderly clean with ⟨after, mounted, again⟩
      exact still_serves holds ((congrArg mountAgain ran).trans mounted) rfl (still.trans again) rfl
        fun _ _ _ _ other => by cases other

/-! ## Runs -/

/-- The calls are answered as by the store, without a stop, a write is short
only when the blocks run out, and what is left is again in order and holds what
the store then holds. -/
def RunsAs (files : List Nat) (fs : SfsFs) (store : Store) (calls : List StoreCall) : Prop :=
  Exists fun replies : List Reply => Exists fun last : SfsFs => Exists fun final : Store =>
    replies.length = calls.length /\ observedMachine.run fs (calls.zip replies) = some last /\
      storeMachine.run store (calls.zip replies) = some final /\
      observedMachine.Along ShortOnlyWhenFull fs (calls.zip replies) /\
      Orderly files last /\ last.Holds files final

/-- The induction over the calls, in which the order of the volume and its hold
on the store are the invariant. -/
theorem runsAs (orderly : Orderly files fs) (holds : fs.Holds files store) (calls : List StoreCall)
    (admitted : callMachine.Along (fun fs call => call.Admitted files fs) fs calls) : RunsAs files fs store calls := by
  induction calls generalizing fs store with
  | nil => exact ⟨[], fs, store, rfl, rfl, rfl, trivial, orderly, holds⟩
  | cons call rest inductionHypothesis =>
      rcases call_serves orderly holds admitted.1 with ⟨reply, after, served⟩
      have stepped : callMachine.step fs call = some after := congrArg (Option.map Prod.snd) served.ran
      rcases inductionHypothesis served.orderly served.holds (admitted.2 after stepped) with
        ⟨replies, last, final, length, ran, stored, short, orderlyLast, holdsLast⟩
      have observed : observedMachine.step fs (call, reply) = some after := by
        unfold observedMachine
        dsimp only
        rw [served.ran, Option.bind_some, if_pos rfl]
      have answered : storeMachine.step store (call, reply) = some (store.next call reply) := if_pos served.answers
      refine ⟨reply :: replies, last, final, congrArg (· + 1) length, ?_, ?_, ⟨served.short, fun next found => ?_⟩,
        orderlyLast, holdsLast⟩
      · rw [List.zip_cons_cons, Machine.run_cons, observed]
        exact ran
      · rw [List.zip_cons_cons, Machine.run_cons, answered]
        exact stored
      · cases observed.symm.trans found
        exact short

/-- Whatever is called, in whatever order, as long as each call is one that a
volume admits: the volume does not stop, its answers are those of a store of
byte lists, also across unmounts and reboots, and a write is short only when
the blocks run out. -/
theorem volume_refines_store (orderly : Orderly files fs) (holds : fs.Holds files store) (calls : List StoreCall)
    (admitted : callMachine.Along (fun fs call => call.Admitted files fs) fs calls) :
    Exists fun replies : List Reply => Exists fun last : SfsFs => Exists fun final : Store =>
      replies.length = calls.length /\ observedMachine.run fs (calls.zip replies) = some last /\
      storeMachine.run store (calls.zip replies) = some final /\
      observedMachine.Along ShortOnlyWhenFull fs (calls.zip replies) /\
      Orderly files last /\ last.Holds files final :=
  runsAs orderly holds calls admitted

/-! ## A formatted volume -/

section Formatted

variable {blocks : Nat} {error : Nat -> Option Errno}

theorem formatted_orderly (room : 5 <= blocks) (small : blocks <= blkbits) :
    Orderly formattedFiles (mountedVolume blocks fun _ => none) where
  owned := ((doMount_fresh (formatted_mounts room small rfl rfl)).kept (formatted_consistent room small)).owned
  works := fun _ => rfl
  medium := by
    have map : freemapBlocks (mountedVolume blocks fun _ => none).super = 1 := freemapBlocks_formatted room small
    refine ⟨rfl, rfl, ?_, Nat.le_refl _, rfl, fun _ => ⟨?_, fun index low => ?_⟩⟩
    · rw [map]
      exact (Nat.one_mul _).symm
    · have super : decodeSuper (formattedBlock blocks 0) = formattedSuper blocks :=
        decode_super (formattedSuper_fits small) _
      change (decodeSuper (formattedBlock blocks 0)).terminate = formattedSuper blocks
      rw [super]
      exact Super.ext rfl rfl rfl (Function.update_eq_self_iff.mpr rfl)
    · have first : index / blkbits = 0 := Nat.div_eq_of_lt low
      have same : index % blkbits = index := Nat.mod_eq_of_lt low
      rw [first, same]
      exact bit_freemapBytes _ index
  tracked := fun _ listed => by cases listed
  sorted := by
    intro ino member
    rcases List.mem_cons.mp member with rfl | file
    · rw [dinOf_root]
      exact ⟨by decide, .inr rfl, fun absurd => by cases absurd⟩
    · rw [List.mem_singleton.mp file, dinOf_file]
      refine ⟨by decide, .inl rfl, fun _ => ⟨⟨by decide, fun index => ?_⟩, by decide⟩⟩
      have empty : (mountedVolume blocks fun _ => none).blockOf {} index = 0 := by
        unfold blockOf
        split
        · rfl
        · exact if_neg fun both => both.2 rfl
      rw [empty]
      exact iff_of_false (fun absurd => absurd rfl) (Nat.not_lt_zero index)

/-- The file of a formatted volume is empty. -/
def formattedStore : Store := fun _ => []

theorem formatted_holds : (mountedVolume blocks error).Holds formattedFiles formattedStore := by
  intro ino member kind
  rcases List.mem_cons.mp member with rfl | file
  · rw [dinOf_root] at kind
    cases kind
  · rw [List.mem_singleton.mp file, dinOf_file]
    refine ⟨rfl, funext fun k => if_pos ?_⟩
    unfold blockOf
    split
    · rfl
    · exact if_neg fun both => both.2 rfl

end Formatted

/-- A file is written, extended, read, written back and dropped. -/
def writtenAndDropped : List StoreCall :=
  [.load 3 true true, .io 3 (fun k => UInt8.ofNat k) 0 5000 true, .seek 3 9000, .io 3 (fun _ => 7) 4000 1000 true,
    .io 3 (fun _ => 0) 3998 6 false, .truncate 3 9000, .fsync 3, .drop 3]

/-- Then the volume is mounted again twice. -/
def mountedTwice : List StoreCall :=
  writtenAndDropped ++ [.remount, .load 3 true false, .load 3 true true, .reboot, .load 3 true true]

theorem mountedTwice_admitted : callMachine.Along (fun fs call => call.Admitted formattedFiles fs)
    (mountedVolume 64 fun _ => none) mountedTwice := by
  refine Machine.Along.append (by decide +kernel) fun _ _ => ?_
  have file : 3 ∈ formattedFiles := by decide
  refine ⟨trivial, fun _ _ => ⟨file, fun _ _ => ⟨file, fun _ _ => ⟨trivial, fun _ _ => ⟨file, fun _ _ => ?_⟩⟩⟩⟩⟩
  trivial

theorem mountedTwice_refines : Exists fun replies : List Reply => Exists fun last : SfsFs =>
    Exists fun final : Store => replies.length = mountedTwice.length /\
      observedMachine.run (mountedVolume 64 fun _ => none) (mountedTwice.zip replies) = some last /\
      storeMachine.run (formattedStore) (mountedTwice.zip replies) = some final /\
      observedMachine.Along ShortOnlyWhenFull (mountedVolume 64 fun _ => none) (mountedTwice.zip replies) /\
      Orderly formattedFiles last /\ last.Holds formattedFiles final :=
  volume_refines_store (formatted_orderly (by decide) (by decide)) formatted_holds mountedTwice mountedTwice_admitted

end Sfs
end Ucore
