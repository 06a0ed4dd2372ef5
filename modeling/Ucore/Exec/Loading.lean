import Ucore.Exec.Prepare

namespace Ucore
namespace Exec

open Library
open Program
open Vm

/-!
# The segments of a program

When `load_icode` returns and no page was refused, the segments of the file are
in place, if the end of each of them is a machine word.  `mm_map` does not
notice that `p_va + p_memsz` overflows, where the sum lies in the first page of
the segment.  The loops then do nothing, and nothing is mapped.
-/

variable {M : PmmManager} {File : Type} {d : Nat}

/-- A segment that the loader should load -/
def IsLoaded (content : Nat -> UInt8) (ph : Proghdr) : Prop :=
  IsSegment content (elfhdrOf content) (elfhdrOf content).ePhnum.toNat ph

/-- All segments are in place, and every store was to the page allocated last. -/
def SegmentsPlaced (content : Nat -> UInt8) (d : Nat) (loader : Loader M File) : Prop :=
  Contained loader.events /\ forall ph, IsLoaded content ph -> Placed content d ph loader

section Load

variable {content : Nat -> UInt8} {isOpen : File -> Prop} {done : Proghdr -> Prop} {calls : FileCalls File}
  {kargv : List (List UInt8)} {start loaded ready after : Loader M File}

theorem readElf_loading (serves : Serves calls isOpen content) {loader : Loader M File}
    (loading : Loading content isOpen d done loader) :
    Meets (readElf calls) loader
      ⟨fun elf after => elf = elfhdrOf content /\ Loading content isOpen d done after, fun _ _ => True,
        fun _ => True⟩ := by
  unfold readElf
  rw [meets_bind]
  refine (loadIcodeRead_noPut serves loading.opened elfhdrSize 0).mono ?_ (fun _ _ _ => trivial) (fun _ _ => trivial)
  rintro bytes after ⟨read, file, opened, rfl⟩
  have same : elfhdrOf bytes = elfhdrOf content := by
    apply elfhdrOf_congr
    intro index below
    exact (read index below).trans (congrArg content (Nat.zero_add index))
  dsimp only
  rw [meets_ite, same]
  split
  · trivial
  · exact ⟨rfl, loading.setFile opened⟩

/-- The stack and the arguments leave the segments in place. -/
theorem Loading.stays (loading : Loading content isOpen d done loaded) (stacked : Stacked d 4 loaded ready)
    (arguments : Arguments kargv) (passed : Passed d kargv ready after) :
    Contained after.events /\ forall ph, done ph -> Placed content d ph after := by
  have place := arguments.place
  have events : after.events = ready.events := by rw [passed.rest]
  have stack : Changes d (ustackTop - ustackSize) ustackTop loaded ready :=
    stacked.changes.mono (by decide) (Nat.le_refl _)
  have block : Changes d (ustackTop - ustackSize) ustackTop ready after := by
    refine ⟨fun addr outside => passed.frame addr ?_,
      fun addr _ _ => by rw [passed.mapping], fun la _ => by rw [events]⟩
    unfold ustackTop ustackSize userTop pgSize at *
    omega
  refine ⟨events ▸ stacked.contained loading.contained, fun ph which => ?_⟩
  obtain ⟨placed, vma, member, starts, ends⟩ := loading.placed ph which
  have apart := stacked.apart vma member
  have user := (loading.steady.user vma member).2.2
  have bound := ph.le_lastEnd
  refine (stack.trans block).placed placed passed.ready.steady.single ?_ (by decide) ?_
  · unfold UserAccess at user
    omega
  · unfold Vma.Apart stackArea at apart
    dsimp only at apart
    omega

/-- A segment that ends beyond the machine words is never in place. -/
theorem Placed.ends {ph : Proghdr} {loader : Loader M File} (placed : Placed content d ph loader) (loads : ph.Loaded) :
    ph.Ends := by
  have positive : 0 < ph.pMemsz.toNat := Nat.pos_of_ne_zero fun zero => loads.2 (UInt64.toNat_inj.mp zero)
  have byte := placed.bytes (ph.pMemsz.toNat - 1) (by omega)
  unfold AddressSpaces.userByte at byte
  split at byte
  · unfold Proghdr.Ends
    unfold userTop at *
    omega
  · cases byte

theorem loadIcode_occupied (occupied : start.mm ≠ none) :
    loadIcode calls d kargv start = .stop (.panic "load_icode: current->mm must be empty.\n") := by
  change (if start.mm ≠ none then halt (.panic "load_icode: current->mm must be empty.\n") else _ : Load M File Unit)
    start = _
  rw [if_pos occupied]
  rfl

/-- The steps before the arguments put the segments in place. -/
theorem prepare_loading (serves : Serves calls isOpen content) (used : start.sys.Used) (opened : isOpen start.file)
    (silent : start.events = []) (ends : forall ph, IsLoaded content ph -> ph.Ends) :
    Meets (prepare calls d) start
      ⟨fun _ ready => Ready d ready /\ Exists fun loaded => Loading content isOpen d (IsLoaded content) loaded /\
          Stacked d 4 loaded ready,
        fun ret after => ret = 0 -> Refused after.events, fun _ => True⟩ := by
  have reads : forall loader : Loader M File, Steady d loader.sys -> (loader.sys.mm d).mmapList = [] ->
      (forall page, loader.sys.mapping (d, page) = none) -> loader.events = start.events -> loader.file = start.file ->
        Meets (readElf calls) loader
          ⟨fun elf after => elf = elfhdrOf content /\ Loading content isOpen d (fun _ => False) after, fun _ _ => True,
            fun _ => True⟩ := by
    intro loader steady _ blank events file
    apply readElf_loading serves
    exact
      { steady := steady
        opened := file ▸ opened
        contained := by
          rw [events, silent]
          trivial
        fresh := by
          intro la _
          rw [events, silent]
          rfl
        unmapped := fun addr _ _ => blank (pageNumber addr)
        placed := fun _ => False.elim }
  have loads : forall (elf : Elfhdr) (loader : Loader M File),
      elf = elfhdrOf content /\ Loading content isOpen d (fun _ => False) loader ->
        Meets (loadSegments calls d elf) loader
        ⟨fun _ loaded => Loading content isOpen d (IsLoaded content) loaded, fun _ _ => True, fun _ => True⟩ := by
    rintro elf loader ⟨rfl, loading⟩
    exact (loadSegments_loading serves (elfhdrOf content) loading ends).mono (fun _ _ => id) (fun _ _ => id)
      (fun _ _ => trivial)
  exact prepare_meets used reads loads

/-- When `load_icode` returns zero and every page was allocated, the segments
are in place exactly if their ends are machine words. -/
theorem loadIcode_places (serves : Serves calls isOpen content) (arguments : Arguments kargv) (used : start.sys.Used)
    (opened : isOpen start.file) (silent : start.events = [])
    (returned : loadIcode calls d kargv start = .done () after \/ loadIcode calls d kargv start = .fail 0 after)
    (allocated : ¬ Refused after.events) :
    SegmentsPlaced content d after <-> forall ph, IsLoaded content ph -> ph.Ends := by
  constructor
  · rintro placed ph which
    exact (placed.2 ph which).ends (by obtain ⟨_, _, _, loads⟩ := which; exact loads)
  intro ends
  have vacant : start.mm = none := by
    by_contra occupied
    rw [loadIcode_occupied occupied] at returned
    rcases returned with done | failed
    · cases done
    · cases failed
  have whole : Meets (loadIcode calls d kargv) start
      ⟨fun _ after => SegmentsPlaced content d after, fun ret after => ret = 0 -> Refused after.events,
        fun _ => True⟩ := by
    refine loadIcode_meets vacant used arguments
      ((prepare_loading serves used opened silent ends).mono ?_ ?_ (fun _ _ => trivial))
    · rintro elf ready ⟨_, loaded, loading, stacked⟩ _
      exact ⟨fun _ after passed => loading.stays stacked arguments passed, fun _ _ => trivial⟩
    · intro ret failed refused cleaned events zero
      rw [events]
      exact refused zero
  rcases returned with done | failed
  · exact whole.of_done done
  · exact absurd (whole.of_fail failed rfl) allocated

end Load

/-! ## Two programs -/

/-- A file with one program header -/
def oneSegment (pVa pFilesz pMemsz index : Nat) : UInt8 :=
  if index < 64 then
    if index < 4 then UInt8.ofNat (elfMagic.toNat / 256 ^ index)
    else if index = 32 then 64
    else if index = 56 then 1
    else 0
  else if index = 64 then 1
  else if index = 68 then 6
  else if index < 80 then 0
  else if index < 88 then UInt8.ofNat (pVa / 256 ^ (index - 80))
  else if index < 96 then 0
  else if index < 104 then UInt8.ofNat (pFilesz / 256 ^ (index - 96))
  else if index < 112 then UInt8.ofNat (pMemsz / 256 ^ (index - 104))
  else 0

/-- Files that are read to any length; the state is the position. -/
def positionCalls (content : Nat -> UInt8) : FileCalls Nat where
  seek place offset := if offset < 0 then (eInval, place) else (0, offset.toNat)
  read place len := (len, fun index => content (place + index), place + len)

theorem positionCalls_serves (content : Nat -> UInt8) : Serves (positionCalls content) (fun _ => True) content where
  seeks := fun _ _ _ => trivial
  reads := fun _ _ _ => trivial
  negative := by
    intro place offset _ negative
    change (if offset < 0 then (eInval, place) else (0, offset.toNat)).1 ≠ 0
    rw [if_pos negative]
    exact (by decide : eInval ≠ 0)
  bounded := fun _ len _ => Int.le_refl len
  bytes := by
    intro place offset len _ found _ index _
    change (if offset < 0 then (eInval, place) else (0, offset.toNat)).1 = 0 at found
    change content ((if offset < 0 then (eInval, place) else (0, offset.toNat)).2 + index) = _
    split at found
    · exact absurd found (by decide : eInval ≠ 0)
    · rename_i positive
      rw [if_neg positive]

/-- A process without an address space, and free pages from the tenth on -/
def freshLoader (pages : Nat) : Loader (defaultPmm 10 pages) Nat where
  sys := ⟨⟨bootPool 10 pages, fun _ => 0, fun _ => false, fun _ _ => 0⟩, fun _ => emptyMm⟩
  file := 0
  grants := [true, true, true]
  mapCount := 0
  mmCount := 0
  mm := none
  satp := none
  tf := ⟨0, 0, 0, 0, 0, fun _ => 0⟩
  events := []

theorem freshLoader_used {pages : Nat} (booted : (bootPool 10 pages).isSome = true) (small : pages < 2 ^ 32) :
    (freshLoader pages).sys.Used where
  sound := (bootPool_sound booted small).1
  mapped := fun _ _ points => by cases points

theorem emptyArgument : Arguments [[]] where
  filled := by decide
  few := by decide
  short := by decide
  strings := by decide

def PageEvent.isRefused : PageEvent -> Bool
  | .refused _ => true
  | _ => false

/-- A run that returns, without a refusal -/
theorem returns_allocated {outcome : Outcome (Loader M File) Int Fault Unit} (value : outcome.value = some ())
    (events : outcome.state.map (fun loader => loader.events.any PageEvent.isRefused) = some false) :
    Exists fun after => outcome = .done () after /\ ¬ Refused after.events := by
  obtain ⟨after, ran⟩ := Outcome.of_value value
  rw [ran] at events
  refine ⟨after, ran, ?_⟩
  rintro ⟨la, member⟩
  have kept : after.events.any PageEvent.isRefused = false := Option.some.inj events
  have found : after.events.any PageEvent.isRefused = true := List.any_eq_true.mpr ⟨_, member, rfl⟩
  exact Bool.false_ne_true (kept.symm.trans found)

/-- A program with sixteen bytes in its file, that needs two pages -/
def twoPages : Nat -> UInt8 := oneSegment 0x800800 0x10 0x1000

theorem twoPages_ends {ph : Proghdr} (loaded : IsLoaded twoPages ph) : ph.Ends := by
  rcases loaded with ⟨i, below, rfl, _⟩
  have first : i = 0 := Nat.lt_one_iff.mp (Nat.lt_of_lt_of_eq below (by decide +kernel))
  subst first
  unfold Proghdr.Ends
  decide +kernel

/-- The bytes are in place, and zeros after them up to the second page. -/
theorem loadIcode_places_twoPages : Exists fun after =>
    loadIcode (positionCalls twoPages) 0 [[]] (freshLoader 20) = .done () after /\ SegmentsPlaced twoPages 0 after := by
  have run : Exists fun after => loadIcode (positionCalls twoPages) 0 [[]] (freshLoader 20) = .done () after /\
      ¬ Refused after.events := returns_allocated (by decide +kernel) (by decide +kernel)
  obtain ⟨after, ran, allocated⟩ := run
  have exact := loadIcode_places (positionCalls_serves twoPages) emptyArgument
    (freshLoader_used (by decide) (by decide)) trivial rfl (.inl ran) allocated
  exact ⟨after, ran, exact.mpr fun ph => twoPages_ends⟩

/-- A segment whose end overflows into its first page is accepted, and nothing
is mapped for it. -/
theorem loadIcode_overflow : Exists fun after =>
    loadIcode (positionCalls (oneSegment 0x800800 0 (2 ^ 64 - 0x100))) 0 [[]] (freshLoader 20) = .done () after /\
      ¬ Refused after.events /\ after.sys.mapping (0, pageNumber 0x800800) = none /\
        ¬ SegmentsPlaced (oneSegment 0x800800 0 (2 ^ 64 - 0x100)) 0 after := by
  have run : Exists fun after =>
      loadIcode (positionCalls (oneSegment 0x800800 0 (2 ^ 64 - 0x100))) 0 [[]] (freshLoader 20) = .done () after /\
        ¬ Refused after.events := returns_allocated (by decide +kernel) (by decide +kernel)
  obtain ⟨after, ran, allocated⟩ := run
  have unmapped : (loadIcode (positionCalls (oneSegment 0x800800 0 (2 ^ 64 - 0x100))) 0 [[]] (freshLoader 20)).state.map
      (fun loader => loader.sys.mapping (0, pageNumber 0x800800)) = some none := by decide +kernel
  rw [ran] at unmapped
  refine ⟨after, ran, allocated, Option.some.inj unmapped, fun placed => ?_⟩
  have loads : (headerAt (oneSegment 0x800800 0 (2 ^ 64 - 0x100)) (elfhdrOf (oneSegment 0x800800 0 (2 ^ 64 - 0x100)))
    0).Loaded := by
    unfold Proghdr.Loaded
    decide +kernel
  have ends := (placed.2 _ ⟨0, by decide +kernel, rfl, loads⟩).ends loads
  have overflow :
    ¬ (headerAt (oneSegment 0x800800 0 (2 ^ 64 - 0x100)) (elfhdrOf (oneSegment 0x800800 0 (2 ^ 64 - 0x100)))
      0).Ends := by
    unfold Proghdr.Ends
    decide +kernel
  exact overflow ends

end Exec
end Ucore
