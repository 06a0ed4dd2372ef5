import Ucore.Exec.LoadBudget

namespace Ucore
namespace Exec

open Library
open Program
open Vm

/-!
# The arguments of a program

`load_icode` either fails and has cleaned up, or leaves the arguments on the
stack, unless something does not fit in memory.  A block of arguments that does
not fit in the four pages of the stack makes the kernel access a page that is
not mapped.  A page that is refused after a read of the same segment leaves
`ret` at zero, so that the caller takes the failure for a success.  And a page
of the stack that is refused fails an assertion, as an area does that overlaps
one before it.  The condition that shuts these out is one on the headers of the
program, the sizes of the arguments and the number of free frames.
-/

variable {M : PmmManager} {File : Type} {d : Nat}

/-- `load_icode` has the arguments in place, or fails in a way that its caller
sees.  A stop of the kernel is neither, nor is a failure that returns
zero. -/
inductive ArgumentsSound (d : Nat) (kargv : List (List UInt8)) : Outcome (Loader M File) Int Fault Unit -> Prop
  | placed {value : Unit} {after : Loader M File} (layout : Layout d kargv after) :
      ArgumentsSound d kargv (.done value after)
  | failed {ret : Int} {after : Loader M File} (seen : ret ≠ 0) : ArgumentsSound d kargv (.fail ret after)

theorem ArgumentsSound.not_stop {kargv : List (List UInt8)} {fault : Fault} :
    ¬ @ArgumentsSound M File d kargv (.stop fault) := by
  intro sound
  cases sound

theorem ArgumentsSound.fail_iff {kargv : List (List UInt8)} {ret : Int} {after : Loader M File} :
    ArgumentsSound d kargv (.fail ret after) <-> ret ≠ 0 := by
  refine ⟨fun sound => ?_, .failed⟩
  cases sound with
  | failed seen => exact seen

section Whole

variable {calls : FileCalls File} {kargv : List (List UInt8)} {start : Loader M File}

/-- How `load_icode` ends is told by the condition, where a failure of the file
or of `kmalloc` comes first in no run that is read `whole`. -/
theorem loadIcode_judged {whole : Prop} {content : Nat -> UInt8} {isOpen : File -> Prop} {size : Nat}
    (serves : Serves calls isOpen content) (opened : isOpen start.file) (vacant : start.mm = none)
    (used : start.sys.Used)
    (uncounted : forall frame, start.sys.frames.IsFree frame -> start.sys.frames.ref frame = 0)
    (arguments : Arguments kargv) (complete : whole -> Complete calls isOpen content size start.grants) :
    Meets (loadIcode calls d kargv) start
      ⟨fun _ after => Layout d kargv after /\ (whole -> LoadFits (M.nrFreePages start.sys.frames.pool) content kargv),
        fun ret _ => Judged (LoadFits (M.nrFreePages start.sys.frames.pool) content kargv) whole ret,
        fun _ => ¬ LoadFits (M.nrFreePages start.sys.frames.pool) content kargv⟩ := by
  apply loadIcode_meets vacant used arguments
  have placed : Meets (prepare calls d) start
      ⟨fun _ ready => Ready d ready /\ Exists fun loaded => True /\ Stacked d 4 loaded ready,
        fun ret after => ret = 0 -> Refused after.events, fun _ => True⟩ :=
    prepare_meets used (fun _ _ _ _ _ _ => .any _ _) (fun _ _ _ => .any _ _)
  refine ((prepare_spends serves opened used uncounted complete kargv).and placed).mono ?_ ?_ (fun _ fails => fails.1)
  · rintro elf ready ⟨known, _, loaded, _, stacked⟩ _
    rcases known with ⟨fails, cut⟩ | ⟨decides, fifth⟩
    · exact ⟨fun _ after passed => ⟨passed.layout, fun read => absurd read cut⟩, fun _ _ => fails⟩
    · refine ⟨fun mapped after passed => ⟨passed.layout, fun _ => decides.mpr ?_⟩, fun unmapped _ holds => ?_⟩
      · exact arguments.fits_of_mapped fifth mapped
      · exact unmapped (stacked.fits arguments (decides.mp holds))
  · rintro ret after ⟨judged, _⟩ _ _
    exact judged

/-- A block that does not fit stops the kernel. -/
theorem loadIcode_stops (vacant : start.mm = none) (used : start.sys.Used) (arguments : Arguments kargv) {elf : Elfhdr}
    {ready : Loader M File} (ran : prepare calls d start = .done elf ready)
    (unmapped : ready.sys.mapping (d, pageNumber (ustackTop - 5 * pgSize)) = none)
    (large : 4 * pgSize < blockSize kargv) :
    Exists fun addr => loadIcode calls d kargv start = .stop (.pageFault addr) := by
  have stops : Meets (loadIcode calls d kargv) start
      ⟨fun _ _ => False, fun _ _ => False, fun fault => Exists fun addr => fault = .pageFault addr⟩ := by
    apply loadIcode_meets vacant used arguments
    unfold Meets
    rw [ran]
    refine fun _ => ⟨fun mapped => ?_, fun _ addr => ⟨addr, rfl⟩⟩
    exact absurd (arguments.fits_of_mapped unmapped mapped) (Nat.not_le.mpr large)
  obtain ⟨fault, stopped, addr, rfl⟩ := stops.stopped
  exact ⟨addr, stopped⟩

theorem loadIcode_told {whole : Prop} {content : Nat -> UInt8} {isOpen : File -> Prop} {size : Nat}
    (serves : Serves calls isOpen content) (opened : isOpen start.file) (vacant : start.mm = none)
    (used : start.sys.Used)
    (uncounted : forall frame, start.sys.frames.IsFree frame -> start.sys.frames.ref frame = 0)
    (arguments : Arguments kargv) (complete : whole -> Complete calls isOpen content size start.grants) :
    (LoadFits (M.nrFreePages start.sys.frames.pool) content kargv ->
      ArgumentsSound d kargv (loadIcode calls d kargv start)) /\
      (whole -> ArgumentsSound d kargv (loadIcode calls d kargv start) ->
        LoadFits (M.nrFreePages start.sys.frames.pool) content kargv) := by
  have judged : Meets (loadIcode calls d kargv) start _ :=
    loadIcode_judged serves opened vacant used uncounted arguments complete
  unfold Meets at judged
  cases ran : loadIcode calls d kargv start with
  | done value after =>
      rw [ran] at judged
      exact ⟨fun _ => .placed judged.1, fun read _ => judged.2 read⟩
  | fail ret after =>
      rw [ran] at judged
      rw [ArgumentsSound.fail_iff]
      exact judged
  | stop fault =>
      rw [ran] at judged
      exact ⟨fun fits => absurd fits judged, fun _ sound => absurd sound ArgumentsSound.not_stop⟩

end Whole

/-! ## Runs of one program -/

/-- Two strings, of two letters and of one -/
def twoArguments : List (List UInt8) := [[97, 98], [99]]

theorem twoArguments_accepted : Arguments twoArguments where
  filled := by decide
  few := by decide
  short := by decide
  strings := by decide

theorem twoPages_complete : Complete (positionCalls twoPages) (fun _ => True) twoPages 0x1000 [true, true, true] where
  serves := by
    refine ⟨fun file offset _ positive _ => ?_, fun _ _ _ _ _ _ => rfl⟩
    change (if offset < 0 then (eInval, file) else (0, offset.toNat)).1 = 0
    rw [if_neg (Int.not_lt.mpr positive)]
  small := by decide
  header := by decide
  table := by decide +kernel
  segments := by
    rintro ph ⟨i, below, rfl, _⟩
    have first : i = 0 := Nat.lt_one_iff.mp (Nat.lt_of_lt_of_eq below (by decide +kernel))
    subst first
    decide +kernel
  ends := fun ph => twoPages_ends
  granted := by
    have count : (elfhdrOf twoPages).ePhnum.toNat = 1 := by decide +kernel
    rw [count]
    exact (by decide : forall i, i < 3 -> [true, true, true].getD i false = true)

/-- Four strings of the greatest length -/
def longArguments : List (List UInt8) := List.replicate 4 (List.replicate execMaxArgLen 97)

theorem longArguments_accepted : Arguments longArguments where
  filled := by decide
  few := by decide
  short := by
    intro arg member
    rw [List.eq_of_mem_replicate member, List.length_replicate]
  strings := by
    intro arg member zero
    rw [List.eq_of_mem_replicate member] at zero
    exact absurd (List.eq_of_mem_replicate zero) (by decide)

theorem argsSize_replicate (count : Nat) (arg : List UInt8) :
    argsSize (List.replicate count arg) = count * (arg.length + 1) := by
  induction count with
  | zero => exact (Nat.zero_mul _).symm
  | succ count inductionHypothesis =>
      rw [List.replicate_succ, argsSize, inductionHypothesis, Nat.succ_mul, Nat.add_comm]

theorem longArguments_size : 4 * pgSize < blockSize longArguments := by
  unfold blockSize longArguments
  rw [argsSize_replicate, List.length_replicate, List.length_replicate]
  decide

/-- An error that is passed on -/
def errorOf : Outcome (Loader M File) Int Fault Unit -> Option Int
  | .done _ _ => none
  | .fail ret _ => some ret
  | .stop _ => none

theorem errorOf_eq {outcome : Outcome (Loader M File) Int Fault Unit} {ret : Int} (error : errorOf outcome = some ret) :
    Exists fun after => outcome = .fail ret after := by
  cases outcome with
  | done value after => cases error
  | fail other after =>
      cases error
      exact ⟨after, rfl⟩
  | stop fault => cases error

/-- The steps before the arguments, where the segment has no bytes in the file -/
theorem prepare_zeros : Exists fun elf => Exists fun ready =>
    prepare (positionCalls (oneSegment 0x800800 0 0x10)) 0 (freshLoader 20) = .done elf ready /\
      ready.sys.mapping (0, pageNumber (ustackTop - 5 * pgSize)) = none := by
  have value : (prepare (positionCalls (oneSegment 0x800800 0 0x10)) 0 (freshLoader 20)).value =
      some ⟨elfMagic, 0, 64, 1⟩ := by decide +kernel
  have mapping : (prepare (positionCalls (oneSegment 0x800800 0 0x10)) 0 (freshLoader 20)).state.map
      (fun ready => ready.sys.mapping (0, pageNumber (ustackTop - 5 * pgSize))) = some none := by decide +kernel
  obtain ⟨ready, ran⟩ := Outcome.of_value value
  rw [ran] at mapping
  exact ⟨_, ready, ran, Option.some.inj mapping⟩

end Exec
end Ucore
