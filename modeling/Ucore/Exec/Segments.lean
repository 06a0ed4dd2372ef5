import Ucore.Exec.SegmentPages

namespace Ucore
namespace Exec

open Library
open Program
open Vm

/-!
# Loading the segments

Each segment gets an area of its own, which is apart from the ones before it.
So a segment that is in place stays in place while the next ones are loaded.
-/

variable {M : PmmManager} {File : Type} {d : Nat}

/-! ## A new area -/

/-- What `mm_map` does when it succeeds: there is one more area, apart from
those that were there, and no page is mapped yet. -/
structure Maps (d : Nat) (addr len : UInt64) (vmFlags : VmFlags) (before after : Loader M File) : Prop where
  steady : Steady d after.sys
  mapping : after.sys.mapping = before.sys.mapping
  frames : after.sys.frames = before.sys.frames
  pgdir : after.sys.pgdir d = before.sys.pgdir d
  grants : after.grants = before.grants.tail
  events : after.events = before.events
  file : after.file = before.file
  access : UserAccess (firstPage addr) (Vm.roundUp (addr + len) 4096)
  areas : (after.sys.mm d).mmapList.Perm
    (⟨firstPage addr, Vm.roundUp (addr + len) 4096, vmFlags⟩ :: (before.sys.mm d).mmapList)
  apart : forall other, other ∈ (before.sys.mm d).mmapList ->
    (Vma.mk (firstPage addr) (Vm.roundUp (addr + len) 4096) vmFlags).Apart other

theorem mmMap_maps (addr len : UInt64) (vmFlags : VmFlags) (loader : Loader M File) (steady : Steady d loader.sys) :
    Meets (mmMap d addr len vmFlags) loader
      ⟨fun _ after => Maps d addr len vmFlags loader after, fun _ _ => True, fun fault => fault ≠ .endless⟩ := by
  have keeps := (keeps_mmMap addr len vmFlags loader steady)
  unfold mmMap kmalloc at keeps ⊢
  rw [meets_bind, meets_bind, meets_get] at keeps ⊢
  dsimp only at keeps ⊢
  rw [meets_bind, meets_modify] at keeps ⊢
  dsimp only at keeps ⊢
  rw [meets_pure] at keeps ⊢
  dsimp only at keeps ⊢
  rw [meets_bind, meets_get] at keeps ⊢
  dsimp only at keeps ⊢
  cases ran : CountedMm.mmMap ⟨loader.sys.mm d, loader.mapCount⟩ addr len vmFlags (loader.grants.headD false) with
  | none => exact Fault.noConfusion
  | some result =>
      rcases result with ⟨error, mm⟩
      rw [ran] at keeps
      have left := CountedMm.mmMap_cases steady.sorted steady.cached ran
      cases error with
      | some error =>
          unfold mapped
          rw [meets_bind, meets_modify]
          trivial
      | none =>
          unfold mapped at keeps ⊢
          rw [meets_modify] at keeps ⊢
          rcases left with ⟨pgdir, _, access, _, order, apart⟩
          have here : (Function.update loader.sys.mm d mm.toMm) d = mm.toMm := Function.update_self ..
          refine ⟨keeps.steady, mapping_updateMm pgdir, rfl, pgdir_updateMm pgdir d, rfl, rfl, rfl, access, ?_,
            apart⟩
          change ((Function.update loader.sys.mm d mm.toMm) d).mmapList.Perm _
          rw [here]
          exact order

/-! ## All segments -/

/-- No area holds the address. -/
def Outside (d : Nat) (loader : Loader M File) (addr : Nat) : Prop :=
  forall vma, vma ∈ (loader.sys.mm d).mmapList -> ¬ vma.Holds addr

/-- The segments loaded so far are in place, each in an area of its own, and
nothing else is mapped. -/
structure Loading (content : Nat -> UInt8) (isOpen : File -> Prop) (d : Nat) (done : Proghdr -> Prop)
    (loader : Loader M File) : Prop where
  steady : Steady d loader.sys
  opened : isOpen loader.file
  contained : Contained loader.events
  fresh : forall la, Outside d loader la -> allocations la loader.events = 0
  unmapped : forall addr, addr < userTop -> Outside d loader addr -> loader.sys.mapping (d, pageNumber addr) = none
  placed : forall ph, done ph -> Placed content d ph loader /\ Exists fun vma => vma ∈ (loader.sys.mm d).mmapList /\
    vma.vmStart = ph.firstLa /\ vma.vmEnd = ph.lastEnd

section Load

variable {content : Nat -> UInt8} {isOpen : File -> Prop} {done : Proghdr -> Prop} {ph : Proghdr}
  {before after : Loader M File}

theorem Outside.of_areas {lo hi addr : Nat} {vmFlags : VmFlags} (free : Outside d after addr)
    (areas : (after.sys.mm d).mmapList.Perm (⟨lo, hi, vmFlags⟩ :: (before.sys.mm d).mmapList)) :
    (addr < lo \/ hi <= addr) /\ Outside d before addr := by
  have new := free ⟨lo, hi, vmFlags⟩ (areas.mem_iff.mpr (List.mem_cons_self ..))
  refine ⟨?_, fun vma member => free vma (areas.mem_iff.mpr (List.mem_cons_of_mem _ member))⟩
  unfold Vma.Holds at new
  dsimp only at new
  omega

/-- A change in a new area leaves the segments in place. -/
theorem Loading.changes (loading : Loading content isOpen d done before) {lo hi : Nat} {vmFlags : VmFlags}
    (changes : Changes d lo hi before after) (steady : Steady d after.sys) (opened : isOpen after.file)
    (contained : Contained after.events) (aligned : lo % pgSize = 0)
    (areas : (after.sys.mm d).mmapList.Perm (⟨lo, hi, vmFlags⟩ :: (before.sys.mm d).mmapList))
    (apart : forall other, other ∈ (before.sys.mm d).mmapList -> (Vma.mk lo hi vmFlags).Apart other) :
    Loading content isOpen d done after where
  steady := steady
  opened := opened
  contained := contained
  fresh := by
    intro la free
    obtain ⟨range, old⟩ := free.of_areas areas
    rw [changes.allocated la range]
    exact loading.fresh la old
  unmapped := by
    intro addr top free
    obtain ⟨range, old⟩ := free.of_areas areas
    rw [changes.mapping addr top range]
    exact loading.unmapped addr top old
  placed := by
    intro ph loaded
    obtain ⟨placed, vma, member, starts, ends⟩ := loading.placed ph loaded
    have separate := apart vma member
    have user := (loading.steady.user vma member).2.2
    have bound : ph.pVa.toNat + ph.pMemsz.toNat <= ph.lastEnd := by
      unfold Proghdr.lastEnd lastPage pgSize
      omega
    refine ⟨changes.placed placed steady.single ?_ aligned ?_, vma, areas.mem_iff.mpr (List.mem_cons_of_mem _ member),
      starts, ends⟩
    · unfold UserAccess at user
      omega
    · unfold Vma.Apart at separate
      dsimp only at separate
      omega

/-- The pages of a new area have not been allocated. -/
theorem Loading.vacant (loading : Loading content isOpen d done before) {vmFlags : VmFlags} {base : Loader M File}
    (maps : Maps d ph.pVa ph.pMemsz vmFlags before base) (top : ph.lastEnd <= userTop)
    (apart : forall other, other ∈ (before.sys.mm d).mmapList -> (Vma.mk ph.firstLa ph.lastEnd vmFlags).Apart other) :
    Vacant d ph base where
  top := top
  fresh := by
    intro la low high
    rw [maps.events]
    apply loading.fresh
    intro vma member holds
    have separate := apart vma member
    unfold Vma.Apart Vma.Holds at *
    dsimp only at separate
    omega

theorem loadSegment_loading {calls : FileCalls File} (serves : Serves calls isOpen content)
    (loading : Loading content isOpen d done before) (ends : ph.Ends) (file : ph.pFilesz <= ph.pMemsz)
    (filled : ph.pMemsz ≠ 0) :
    Meets (loadSegment calls d ph) before
      ⟨fun _ after => Loading content isOpen d (fun other => done other \/ other = ph) after, fun _ _ => True,
        fun fault => fault ≠ .endless⟩ := by
  have smaller : ph.pFilesz.toNat <= ph.pMemsz.toNat := UInt64.le_iff_toNat_le.mp file
  have positive : 0 < ph.pMemsz.toNat := Nat.pos_of_ne_zero fun zero => filled (UInt64.toNat_inj.mp zero)
  have memory := ph.endAt_eq ends
  have stored : ph.endAt ph.pFilesz = ph.pVa.toNat + ph.pFilesz.toNat := by
    unfold Proghdr.Ends at ends
    unfold Proghdr.endAt
    rw [UInt64.toNat_add, Nat.mod_eq_of_lt (by omega)]
  unfold loadSegment
  rw [meets_bind]
  refine (mmMap_maps ph.pVa ph.pMemsz ph.vmFlags before loading.steady).mono ?_ (fun _ _ _ => trivial) (fun _ => id)
  intro _ base maps
  have access := maps.access
  have areas := maps.areas
  have apart := maps.apart
  have rounded := ph.lastEnd_eq ends access
  rw [rounded] at access areas apart
  have vacant := loading.vacant maps access.2.2 apart
  have top := vacant.top
  have within : ph.pVa.toNat + ph.pMemsz.toNat <= ph.lastEnd := ph.le_lastEnd
  have begun : Building content isOpen d ph base ph.pVa.toNat ph.firstLa base :=
    { steady := maps.steady
      opened := maps.file ▸ loading.opened
      areas := rfl
      changes := .refl base
      contained := maps.events ▸ loading.contained
      aligned := Nat.mul_mod_left _ _
      low := Nat.le_refl _
      high := Nat.le_of_lt access.2.1
      begun := Nat.le_refl _
      bytes := fun _ low high => absurd low (Nat.not_le.mpr high)
      pages := fun _ _ low high => absurd low (Nat.not_le.mpr high) }
  dsimp only
  rw [roundDown_eq, memory, stored, meets_bind]
  have first := ph.firstLa_le
  have start : Positioned d ph ⟨ph.pVa.toNat, ph.firstLa, offT ph.pOffset.toNat, none, eNoMem⟩ base :=
    ⟨fun open_ => absurd first (Nat.not_le.mpr open_), fun _ => .inl (Nat.le_refl _)⟩
  refine (filePages_builds serves vacant rfl (by omega) _
    ⟨ph.pVa.toNat, ph.firstLa, offT ph.pOffset.toNat, none, eNoMem⟩
    begun start ?_ (Nat.le_add_right _ _) (fun open_ => absurd first (Nat.not_le.mpr open_)) (enough_turns _ _)).mono ?_
    (fun _ _ _ => trivial) (fun _ => id)
  · dsimp only
    exact .first ph
  rintro cursor middle ⟨⟨pages, positioned⟩, same⟩
  dsimp only
  rw [meets_bind]
  refine (zeroBoundary_builds vacant within cursor pages positioned (by omega) (by omega)).mono ?_
    (fun _ _ _ => trivial)
    (fun _ => id)
  rintro cursor next ⟨⟨boundary, positioned⟩, ⟨covered, ahead⟩, closed⟩
  dsimp only
  refine (bssPages_builds vacant (by omega) within _ cursor boundary positioned covered ahead closed
    (enough_turns _ _)).mono ?_
    (fun _ _ _ => trivial) (fun _ => id)
  rintro _ after ⟨la, built, made⟩
  have changes : Changes d ph.firstLa ph.lastEnd before after :=
    (Changes.of_eq maps.mapping (congrArg Frames.content maps.frames) maps.events).trans
      (built.changes.mono (Nat.le_refl _) built.high)
  have member := areas.mem_iff.mpr (List.mem_cons_self ..)
  rw [← built.areas] at areas member
  have loaded := loading.changes changes built.steady built.opened built.contained (Nat.mul_mod_left _ _) areas apart
  refine { loaded with placed := fun other which => ?_ }
  rcases which with earlier | rfl
  · exact loaded.placed other earlier
  · exact ⟨built.placed (Nat.le_refl _) made, _, member, rfl, rfl⟩

/-! ## The program headers -/

/-- The header at a place of the file -/
def headerAt (content : Nat -> UInt8) (elf : Elfhdr) (i : Nat) : Proghdr :=
  proghdrOf fun index => content ((offT (elf.ePhoff.toNat + proghdrSize * i : Nat)).toNat + index)

/-- A segment of one of the headers before the given one -/
def IsSegment (content : Nat -> UInt8) (elf : Elfhdr) (i : Nat) (ph : Proghdr) : Prop :=
  Exists fun j => j < i /\ ph = headerAt content elf j /\ ph.Loaded

theorem isSegment_succ (content : Nat -> UInt8) (elf : Elfhdr) (i : Nat) (ph : Proghdr) :
    IsSegment content elf (i + 1) ph <-> IsSegment content elf i ph \/ ph = headerAt content elf i /\ ph.Loaded := by
  constructor
  · rintro ⟨j, below, same⟩
    rcases Nat.lt_succ_iff_lt_or_eq.mp below with before | rfl
    · exact .inl ⟨j, before, same⟩
    · exact .inr same
  · rintro (⟨j, before, same⟩ | same)
    · exact ⟨j, Nat.lt_succ_of_lt before, same⟩
    · exact ⟨i, Nat.lt_succ_self i, same⟩

theorem Loading.congr (loading : Loading content isOpen d done before) {more : Proghdr -> Prop}
    (same : forall ph, more ph -> done ph) : Loading content isOpen d more before :=
  { loading with placed := fun ph which => loading.placed ph (same ph which) }

theorem loadProghdr_loading {calls : FileCalls File} (serves : Serves calls isOpen content)
    (loading : Loading content isOpen d done before) (ends : ph.Loaded -> ph.Ends) :
    Meets (loadProghdr calls d ph) before
      ⟨fun _ after => Loading content isOpen d (fun other => done other \/ other = ph /\ ph.Loaded) after,
        fun _ _ => True,
        fun fault => fault ≠ .endless⟩ := by
  have idle : ¬ ph.Loaded -> Loading content isOpen d (fun other => done other \/ other = ph /\ ph.Loaded) before :=
    fun skipped => loading.congr fun _ which => which.resolve_right fun both => skipped both.2
  unfold loadProghdr
  rw [meets_ite]
  split
  case isTrue other => exact idle fun loaded => other loaded.1
  case isFalse load =>
    rw [meets_ite]
    split
    · trivial
    rename_i file
    rw [meets_ite]
    split
    case isTrue empty => exact idle fun loaded => loaded.2 empty
    case isFalse filled =>
      have loaded : ph.Loaded := ⟨of_not_not load, filled⟩
      refine (loadSegment_loading serves loading (ends loaded) (UInt64.not_lt.mp file) filled).mono ?_
        (fun _ _ _ => trivial)
        (fun _ => id)
      exact fun _ after built => built.congr fun _ which => which.imp id And.left

/-- A file that is moved or read leaves the rest as it is. -/
theorem Loading.setFile (loading : Loading content isOpen d done before) {file : File} (opened : isOpen file) :
    Loading content isOpen d done { before with file := file } :=
  ⟨loading.steady, opened, loading.contained, loading.fresh, loading.unmapped, fun ph which =>
    have placed := loading.placed ph which
    ⟨⟨placed.1.bytes, placed.1.pages⟩, placed.2⟩⟩

theorem loadHeader_loading {calls : FileCalls File} (serves : Serves calls isOpen content) {elf : Elfhdr} (i : Nat)
    (loading : Loading content isOpen d (IsSegment content elf i) before)
    (ends : (headerAt content elf i).Loaded -> (headerAt content elf i).Ends) :
    Meets (loadHeader calls d elf i) before
      ⟨fun _ after => Loading content isOpen d (IsSegment content elf (i + 1)) after, fun _ _ => True,
        fun fault => fault ≠ .endless⟩ := by
  unfold loadHeader
  rw [meets_bind]
  refine (loadIcodeRead_noPut serves loading.opened proghdrSize _).mono ?_ (fun _ _ _ => trivial) (fun _ => False.elim)
  rintro bytes after ⟨read, file, opened, rfl⟩
  have same : proghdrOf bytes = headerAt content elf i := proghdrOf_congr read
  dsimp only
  rw [same]
  refine (loadProghdr_loading serves (loading.setFile opened) ends).mono ?_ (fun _ _ _ => trivial) (fun _ => id)
  intro _ next built
  refine built.congr fun ph which => ?_
  rcases (isSegment_succ content elf i ph).mp which with earlier | ⟨rfl, loaded⟩
  · exact .inl earlier
  · exact .inr ⟨rfl, loaded⟩

/-- After the loop over the headers every segment is in place. -/
theorem loadSegments_loading {calls : FileCalls File} (serves : Serves calls isOpen content) (elf : Elfhdr)
    (loading : Loading content isOpen d (fun _ => False) before)
    (ends : forall ph, IsSegment content elf elf.ePhnum.toNat ph -> ph.Ends) :
    Meets (loadSegments calls d elf) before
      ⟨fun _ after => Loading content isOpen d (IsSegment content elf elf.ePhnum.toNat) after, fun _ _ => True,
        fun fault => fault ≠ .endless⟩ := by
  apply meets_forRange (fun i loader => Loading content isOpen d (IsSegment content elf i) loader)
  · intro i current _ below invariant
    rw [Nat.zero_add] at below
    exact loadHeader_loading serves i invariant fun loaded => ends _ ⟨i, below, rfl, loaded⟩
  · intro current invariant
    rwa [Nat.zero_add] at invariant
  · exact loading.congr fun ph which => by
      obtain ⟨j, below, _⟩ := which
      exact absurd below (Nat.not_lt_zero j)

end Load

end Exec
end Ucore
