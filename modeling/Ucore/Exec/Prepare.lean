import Ucore.Exec.Arguments
import Ucore.Exec.Teardown

namespace Ucore
namespace Exec

open Library
open Program
open Vm

/-!
# Up to the arguments

Before the arguments are stored, the address space is made, the segments and
the stack are mapped, and the address space is installed.  When one of these
steps fails the labels clean up and the error is passed on.
-/

variable {M : PmmManager} {File : Type} {d : Nat}

/-- What `load_icode` does before the arguments, without the labels -/
def prepare (calls : FileCalls File) (d : Nat) : Load M File Elfhdr := do
  mmCreate d
  setupPgdir d
  let elf <- readElf calls
  build calls d elf
  pure elf

/-! ## The address space -/

/-- An address space without areas or tables, as `mm_create` leaves it for
`load_icode` to fill. -/
structure Created (d : Nat) (loader : Loader M File) : Prop where
  used : loader.sys.Used
  empty : loader.sys.mm d = emptyMm
  idle : loader.mmCount = 0

section Emptied

variable {sys next : AddressSpaces M} {ppn : Option Nat}

theorem mapping_blank (blank : next.pgdir d = PageDirectory.blank ppn) (page : PageNumber) :
    next.mapping (d, page) = none := by
  unfold AddressSpaces.mapping AddressSpaces.entry
  rw [blank, PageDirectory.pte_blank]
  rfl

/-- An address space is emptied, and the others stay as they are. -/
theorem emptied (used : sys.Used) (blank : next.pgdir d = PageDirectory.blank ppn) (sound : next.frames.Sound)
    (others : forall e, e ≠ d -> next.pgdir e = sys.pgdir e)
    (free : forall frame, next.frames.IsFree frame -> sys.frames.IsFree frame) :
    next.Used /\ next.Lowest d /\ next.Private d := by
  have unmapped : forall page, next.mapped (d, page) = none := fun page => by
    rw [AddressSpaces.mapped_eq_map, mapping_blank blank]
    rfl
  refine ⟨⟨sound, ?_⟩, AddressSpaces.lowest_of_unmapped unmapped, ?_⟩
  · intro slot frame points unused
    by_cases same : slot.1 = d
    · rw [show slot = (d, slot.2) from Prod.ext same rfl, unmapped] at points
      cases points
    · have kept : next.mapped slot = sys.mapped slot := by
        unfold AddressSpaces.mapped AddressSpaces.entry
        rw [others _ same]
      exact used.mapped slot frame (kept ▸ points) (free frame unused)
  · intro slot page frame _ points
    rw [unmapped] at points
    cases points

end Emptied

theorem mmCreate_meets (start : Loader M File) (used : start.sys.Used) :
    Meets (mmCreate d) start
      ⟨fun _ after => Created d after /\ after.events = start.events /\ after.file = start.file,
        fun ret _ => ret ≠ 0, fun _ => False⟩ := by
  have create : forall grants : List Bool,
    (({ start with grants := grants } : Loader M File).setMm d emptyMm).sys.Used := by
    intro grants
    have blank : (({ start with grants := grants } : Loader M File).setMm d emptyMm).sys.pgdir d =
      PageDirectory.blank none := by
      change (Function.update start.sys.mm d emptyMm d).pgdir = _
      rw [Function.update_self]
      rfl
    refine (emptied used blank used.sound (fun e other => ?_) (fun _ => id)).1
    change (Function.update start.sys.mm d emptyMm e).pgdir = _
    rw [Function.update_of_ne other]
    rfl
  unfold mmCreate kmalloc
  rw [meets_bind, meets_bind, meets_get]
  dsimp only
  rw [meets_bind, meets_modify]
  dsimp only
  rw [meets_pure]
  dsimp only
  rw [meets_ite]
  split
  · exact ⟨⟨create _, Function.update_self .., rfl⟩, rfl, rfl⟩
  · exact (by decide : eNoMem ≠ 0)

theorem setupPgdir_meets (loader : Loader M File) (created : Created d loader) :
    Meets (setupPgdir d) loader
      ⟨fun _ after => (Steady d after.sys /\ after.mmCount = 0) /\ ((after.sys.mm d).mmapList = [] /\
          forall page, after.sys.mapping (d, page) = none) /\ after.events = loader.events /\ after.file = loader.file,
        fun ret after => ret ≠ 0 /\ after.mmCount = 0 /\ after.events = loader.events, fun _ => False⟩ := by
  unfold setupPgdir
  rw [meets_bind, meets_get]
  dsimp only
  cases allocated : loader.sys.frames.allocPage with
  | none => exact ⟨by decide, created.idle, rfl⟩
  | some taken =>
      rcases taken with ⟨page, frames⟩
      have takes := Frames.allocPage_takes created.used.sound allocated
      unfold pgdirPage
      rw [meets_modify]
      have blank : ((loader.sys.setFrames frames).setPgdir d (PageDirectory.blank (some page))).pgdir d =
          PageDirectory.blank (some page) := AddressSpaces.pgdir_setPgdir ..
      have apart := emptied created.used blank takes.sound
        (fun e other => AddressSpaces.pgdir_setPgdir_of_ne _ other _) (fun frame free => takes.shrinks free)
      have mm : ((loader.sys.setFrames frames).setPgdir d (PageDirectory.blank (some page))).mm d =
          ⟨PageDirectory.blank (some page), [], none⟩ := by
        change (Function.update loader.sys.mm d { loader.sys.mm d with pgdir := PageDirectory.blank (some page) }) d = _
        rw [Function.update_self, created.empty]
        rfl
      refine ⟨⟨⟨apart.1, apart.2.1, apart.2.2, ?_, ?_, ?_, ?_⟩, created.idle⟩,
        ⟨congrArg Mm.mmapList mm, mapping_blank blank⟩, rfl, rfl⟩
      · unfold AddressSpaces.HasTop AddressSpaces.nodes
        dsimp only
        rw [blank]
        rfl
      · dsimp only
        rw [mm]
        exact ⟨.nil, fun vma member => absurd member List.not_mem_nil⟩
      · dsimp only
        rw [mm]
        exact fun vma cached => by cases cached
      · dsimp only
        rw [mm]
        exact fun vma member => absurd member List.not_mem_nil

/-! ## The segments and the stack -/

theorem keeps_readElf (calls : FileCalls File) : Keeps d (readElf calls : Load M File Elfhdr) :=
  (keeps_loadIcodeRead keeps_noPut _ _).bind fun _ => .ite _ (keeps_throw (by decide)) (keeps_pure _)

/-- When the segments have been loaded, the stack is mapped and the address
space installed. -/
theorem build_meets {calls : FileCalls File} {elf : Elfhdr} {loader : Loader M File} (steady : Steady d loader.sys)
    {segments : Loader M File -> Prop}
    (loads : Meets (loadSegments calls d elf) loader ⟨fun _ after => segments after, fun _ _ => True, fun _ => True⟩) :
    Meets (build calls d elf) loader
      ⟨fun _ ready => Ready d ready /\ Exists fun loaded => segments loaded /\ Stacked d 4 loaded ready,
        fun ret after => Kept d loader after /\ (ret = 0 -> Refused after.events), fun _ => True⟩ := by
  unfold build
  rw [meets_bind]
  refine (loads.and (keeps_loadSegments calls elf loader steady)).mono ?_ (fun _ _ failed => failed.2)
    (fun _ _ => trivial)
  rintro _ loaded ⟨done, kept⟩
  dsimp only
  rw [meets_bind]
  refine ((mapStack_stacked loaded kept.steady).and (keeps_mapStack loaded kept.steady)).mono ?_ ?_ (fun _ _ => trivial)
  · rintro _ mapped ⟨stacked, _⟩
    refine ⟨⟨stacked.steady, rfl, stacked.areas.mem_iff.mpr (List.mem_cons_self ..)⟩, loaded, done, ?_⟩
    exact ⟨stacked.steady, ⟨stacked.changes.bytes, stacked.changes.mapping, stacked.changes.allocated⟩, stacked.file,
      stacked.contained, stacked.areas, stacked.apart, stacked.pages⟩
  · rintro ret after ⟨_, failed⟩
    exact ⟨⟨failed.1.steady, failed.1.mmCount.trans kept.mmCount⟩, failed.2⟩

/-! ## The whole function -/

section Whole

variable {calls : FileCalls File} {kargv : List (List UInt8)} {start : Loader M File}

/-- What is asked of the segments and the stack, after the file's header is
read. -/
theorem prepare_meets (used : start.sys.Used) {header : Elfhdr -> Loader M File -> Prop}
    {segments : Elfhdr -> Loader M File -> Prop}
    (reads : forall loader : Loader M File, Steady d loader.sys -> (loader.sys.mm d).mmapList = [] ->
      (forall page, loader.sys.mapping (d, page) = none) -> loader.events = start.events -> loader.file = start.file ->
        Meets (readElf calls) loader ⟨header, fun _ _ => True, fun _ => True⟩)
    (loads : forall elf loader, header elf loader ->
      Meets (loadSegments calls d elf) loader ⟨fun _ after => segments elf after, fun _ _ => True, fun _ => True⟩) :
    Meets (prepare calls d) start
      ⟨fun elf ready => Ready d ready /\ Exists fun loaded => segments elf loaded /\ Stacked d 4 loaded ready,
        fun ret after => ret = 0 -> Refused after.events, fun _ => True⟩ := by
  unfold prepare
  rw [meets_bind]
  refine (mmCreate_meets start used).mono ?_ (fun _ _ failed zero => absurd zero failed) (fun _ => False.elim)
  rintro _ made ⟨created, madeEvents, madeFile⟩
  dsimp only
  rw [meets_bind]
  refine (setupPgdir_meets made created).mono ?_ (fun _ _ failed zero => absurd zero failed.1) (fun _ => False.elim)
  rintro _ loader ⟨⟨steady, _⟩, ⟨none_yet, blank⟩, events, file⟩
  dsimp only
  rw [meets_bind]
  have read := reads loader steady none_yet blank (events.trans madeEvents) (file.trans madeFile)
  refine (read.and (keeps_readElf calls loader steady)).mono ?_ (fun _ _ failed => failed.2.2) (fun _ _ => trivial)
  rintro elf loader ⟨found, kept⟩
  dsimp only
  rw [meets_bind]
  refine (build_meets kept.steady (loads elf loader found)).mono ?_ (fun _ _ failed => failed.2) (fun _ _ => trivial)
  exact fun _ ready built => built

/-- After a failure the labels clean up, and the error is passed on. -/
theorem loadIcode_meets (vacant : start.mm = none) (used : start.sys.Used) (arguments : Arguments kargv)
    {done : Unit -> Loader M File -> Prop} {fail : Int -> Loader M File -> Prop} {stop : Fault -> Prop}
    (prepared : Meets (prepare calls d) start
      ⟨fun _ ready => Ready d ready ->
        (BlockMapped ready.sys d kargv -> forall after, Passed d kargv ready after -> done () after) /\
          (¬ BlockMapped ready.sys d kargv -> forall addr, stop (.pageFault addr)),
        fun ret after => forall cleaned : Loader M File, cleaned.events = after.events -> fail ret cleaned, stop⟩) :
    Meets (loadIcode calls d kargv) start ⟨done, fail, stop⟩ := by
  unfold prepare at prepared
  rw [meets_bind] at prepared
  unfold loadIcode
  rw [meets_bind, meets_get]
  dsimp only
  rw [if_neg (fun occupied => occupied vacant), meets_bind]
  refine (prepared.and (mmCreate_meets start used)).mono ?_ (fun ret after failed => failed.1 after rfl)
    (fun _ stopped => stopped.1)
  rintro _ made ⟨prepared, created, _⟩
  dsimp only at prepared ⊢
  rw [meets_bind] at prepared
  rw [meets_onError, meets_bind]
  refine (prepared.and (setupPgdir_meets made created)).mono ?_ ?_ (fun _ stopped => stopped.1)
  case refine_2 =>
    rintro ret after ⟨failed, _, idle, _⟩
    refine (mmDestroy_meets idle).mono (fun _ cleaned events => failed cleaned events) (fun _ _ => False.elim)
      (fun _ => False.elim)
  rintro _ loader ⟨prepared, ⟨steady, idle⟩, _⟩
  dsimp only at prepared ⊢
  rw [meets_bind] at prepared
  rw [meets_onError, meets_bind]
  refine (prepared.and (keeps_readElf calls loader steady)).mono ?_ ?_ (fun _ stopped => stopped.1)
  case refine_2 =>
    rintro ret after ⟨failed, kept, _⟩
    refine (putPgdir_meets kept.steady.top (kept.mmCount.trans idle)).mono ?_ (fun _ _ => False.elim)
      (fun _ => False.elim)
    rintro _ put ⟨count, events⟩
    refine (mmDestroy_meets count).mono ?_ (fun _ _ => False.elim) (fun _ => False.elim)
    exact fun _ cleaned same => failed cleaned (same.trans events)
  rintro elf loader ⟨prepared, kept⟩
  dsimp only at prepared ⊢
  rw [meets_bind] at prepared
  rw [meets_onError, meets_bind]
  have loads : Meets (loadSegments calls d elf) loader ⟨fun _ _ => True, fun _ _ => True, fun _ => True⟩ := .any _ _
  have built := build_meets kept.steady loads
  refine (prepared.and built).mono ?_ ?_ (fun _ stopped => stopped.1)
  case refine_2 =>
    rintro ret after ⟨failed, left, _⟩
    refine (exitMmap_meets left.steady (left.mmCount.trans (kept.mmCount.trans idle))).mono ?_ (fun _ _ => False.elim)
      (fun _ => False.elim)
    rintro _ emptied ⟨top, count, first⟩
    refine (putPgdir_meets top count).mono ?_ (fun _ _ => False.elim) (fun _ => False.elim)
    rintro _ put ⟨count, events⟩
    refine (mmDestroy_meets count).mono ?_ (fun _ _ => False.elim) (fun _ => False.elim)
    exact fun _ cleaned same => failed cleaned (same.trans (events.trans first))
  rintro _ ready ⟨after_build, installed, _⟩
  refine (passArguments_meets arguments elf installed).mono ?_ (fun _ _ => False.elim) ?_
  · rintro _ after ⟨mapped, passed⟩
    exact (after_build installed).1 mapped after passed
  · rintro fault ⟨unmapped, addr, rfl⟩
    exact (after_build installed).2 unmapped addr

end Whole

end Exec
end Ucore
