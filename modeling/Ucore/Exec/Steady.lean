import Ucore.Exec.LoadIcode

namespace Ucore
namespace Exec

open Library
open Program
open Vm

/-!
# What the loader keeps

Frames that are mapped are in use, those of the new address space are mapped
once, and its areas are sorted ranges of whole user pages.  Every step up to
the arguments keeps this, and an error with code zero comes from a page that
was refused.  The labels can then clean up.
-/

variable {M : PmmManager} {File : Type} {d : Nat}

section UpdateMm

variable {sys : AddressSpaces M} {mm : Mm}

/-- The tables stay when only the areas change. -/
theorem pgdir_updateMm (pgdir : mm.pgdir = (sys.mm d).pgdir) (e : Nat) :
    ({ sys with mm := Function.update sys.mm d mm } : AddressSpaces M).pgdir e = sys.pgdir e := by
  unfold AddressSpaces.pgdir
  dsimp only
  by_cases same : e = d
  · rw [same, Function.update_self, pgdir]
  · rw [Function.update_of_ne same]

theorem mapping_updateMm (pgdir : mm.pgdir = (sys.mm d).pgdir) :
    ({ sys with mm := Function.update sys.mm d mm } : AddressSpaces M).mapping = sys.mapping := by
  funext slot
  unfold AddressSpaces.mapping AddressSpaces.entry
  rw [pgdir_updateMm pgdir]

end UpdateMm

/-- What holds of the new address space at every point of `load_icode`, once it
has a page directory: its frames are its own, and its areas are whole pages of
the user. -/
structure Steady (d : Nat) (sys : AddressSpaces M) : Prop where
  used : sys.Used
  lowest : sys.Lowest d
  single : sys.Private d
  top : sys.HasTop d
  sorted : SortedAreas (sys.mm d).mmapList
  cached : (sys.mm d).Cached
  user : forall vma, vma ∈ (sys.mm d).mmapList ->
    vma.vmStart % pgSize = 0 /\ vma.vmEnd % pgSize = 0 /\ UserAccess vma.vmStart vma.vmEnd

namespace Steady

variable {sys next : AddressSpaces M} {la page : Nat} {perm : Pte}

/-- The same areas over tables that keep the frames apart. -/
theorem over_areas (steady : Steady d sys) (used : next.Used) (lowest : next.Lowest d) (single : next.Private d)
    (top : next.HasTop d)
    (areas : (next.mm d).mmapList = (sys.mm d).mmapList /\ (next.mm d).mmapCache = (sys.mm d).mmapCache) :
    Steady d next where
  used := used
  lowest := lowest
  single := single
  top := top
  sorted := by
    rw [areas.1]
    exact steady.sorted
  cached := by
    unfold Mm.Cached
    rw [areas.1, areas.2]
    exact steady.cached
  user := by
    rw [areas.1]
    exact steady.user

theorem addsPage (steady : Steady d sys) (adds : AddressSpaces.AddsPage sys next d la page perm) : Steady d next :=
  steady.over_areas (adds.keepsUsed steady.used steady.single) adds.lowest (adds.keepsPrivate steady.used steady.single)
    (adds.top d steady.top) (adds.areas d)

/-- The tables map the same, and no more frames are free. -/
theorem same_mapping (steady : Steady d sys) (sound : next.frames.Sound) (lowest : next.Lowest d)
    (mapping : next.mapping = sys.mapping)
    (free : forall frame, next.frames.IsFree frame -> sys.frames.IsFree frame) (top : sys.HasTop d -> next.HasTop d)
    (areas : (next.mm d).mmapList = (sys.mm d).mmapList /\ (next.mm d).mmapCache = (sys.mm d).mmapCache) :
    Steady d next := by
  have mapped : next.mapped = sys.mapped := by
    funext slot
    rw [AddressSpaces.mapped_eq_map, mapping]
    exact (AddressSpaces.mapped_eq_map sys slot).symm
  refine steady.over_areas ⟨sound, fun slot frame points => ?_⟩ lowest ?_ (top steady.top) areas
  · rw [mapped] at points
    exact fun unused => steady.used.mapped slot frame points (free frame unused)
  · unfold AddressSpaces.Private
    rw [mapped]
    exact steady.single

theorem storePage (steady : Steady d sys) (off count : Nat) (bytes : Nat -> UInt8) :
    Steady d (sys.storePage page off count bytes) :=
  steady.same_mapping steady.used.sound ⟨steady.lowest.manages, steady.lowest.order⟩ rfl (fun _ => id) id ⟨rfl, rfl⟩

/-- Other areas for the same tables -/
theorem setMm (steady : Steady d sys) {mm : Mm} (pgdir : mm.pgdir = (sys.mm d).pgdir) (sorted : SortedAreas mm.mmapList)
    (cached : mm.Cached) (user : forall vma, vma ∈ mm.mmapList ->
      vma.vmStart % pgSize = 0 /\ vma.vmEnd % pgSize = 0 /\ UserAccess vma.vmStart vma.vmEnd) :
    Steady d { sys with mm := Function.update sys.mm d mm } := by
  have mapped : ({ sys with mm := Function.update sys.mm d mm } : AddressSpaces M).mapped = sys.mapped := by
    funext slot
    rw [AddressSpaces.mapped_eq_map, mapping_updateMm pgdir]
    exact (AddressSpaces.mapped_eq_map sys slot).symm
  have here : ({ sys with mm := Function.update sys.mm d mm } : AddressSpaces M).mm d = mm := Function.update_self ..
  constructor
  · refine ⟨steady.used.sound, ?_⟩
    rw [mapped]
    exact steady.used.mapped
  · refine ⟨?_, ?_⟩
    · rw [mapped]
      exact steady.lowest.manages
    · rw [mapped]
      exact steady.lowest.order
  · unfold AddressSpaces.Private
    rw [mapped]
    exact steady.single
  · unfold AddressSpaces.HasTop AddressSpaces.nodes
    rw [pgdir_updateMm pgdir]
    exact steady.top
  · rw [here]
    exact sorted
  · rw [here]
    exact cached
  · rw [here]
    exact user

end Steady

/-! ## The steps -/

def Refused (events : List PageEvent) : Prop := Exists fun la => .refused la ∈ events

/-- From one state to another, the address space stays in order. -/
structure Kept (d : Nat) (before after : Loader M File) : Prop where
  steady : Steady d after.sys
  mmCount : after.mmCount = before.mmCount

/-- An error with code zero comes from a page that was refused. -/
def Keeps {Value : Type} (d : Nat) (program : Load M File Value) : Prop :=
  forall loader : Loader M File, Steady d loader.sys -> Meets program loader
    ⟨fun _ after => Kept d loader after, fun ret after => Kept d loader after /\ (ret = 0 -> Refused after.events),
      fun _ => True⟩

section Rules

variable {Value Next : Type} {program other : Load M File Value} {next : Value -> Load M File Next}

theorem Keeps.bind (keeps : Keeps d program) (later : forall value, Keeps d (next value)) :
    Keeps d (program >>= next) := by
  intro loader steady
  rw [meets_bind]
  refine (keeps loader steady).mono ?_ (fun _ _ failed => failed) (fun _ _ => trivial)
  intro value middle kept
  refine (later value middle kept.steady).mono ?_ ?_ (fun _ _ => trivial)
  · exact fun _ after rest => ⟨rest.steady, rest.mmCount.trans kept.mmCount⟩
  · exact fun _ after failed => ⟨⟨failed.1.steady, failed.1.mmCount.trans kept.mmCount⟩, failed.2⟩

theorem Keeps.ite (condition : Prop) [Decidable condition] (keeps : Keeps d program) (otherwise : Keeps d other) :
    Keeps d (if condition then program else other) := by
  split
  · exact keeps
  · exact otherwise

theorem keeps_pure (value : Value) : Keeps d (pure value : Load M File Value) := fun _ steady => ⟨steady, rfl⟩

theorem keeps_halt (fault : Fault) : Keeps d (halt fault : Load M File Value) := fun _ _ => trivial

theorem keeps_throw {ret : Int} (nonzero : ret ≠ 0) : Keeps d (throw ret : Load M File Value) := fun _ steady =>
  ⟨⟨steady, rfl⟩, fun zero => absurd zero nonzero⟩

/-- A change of the other fields -/
theorem keeps_modify {change : Loader M File -> Loader M File} (sys : forall loader, (change loader).sys = loader.sys)
    (count : forall loader, (change loader).mmCount = loader.mmCount) : Keeps d (modify change) := by
  intro loader steady
  rw [meets_modify]
  exact ⟨by rw [sys]; exact steady, count loader⟩

theorem keeps_get_bind {body : Loader M File -> Load M File Next}
    (later : forall loader : Loader M File, Steady d loader.sys -> Meets (body loader) loader
      ⟨fun _ after => Kept d loader after, fun ret after => Kept d loader after /\ (ret = 0 -> Refused after.events),
        fun _ => True⟩) : Keeps d (get >>= body) := by
  intro loader steady
  rw [meets_bind, meets_get]
  exact later loader steady

end Rules

theorem errno_ne_zero (error : Errno) : errno error ≠ 0 := by
  cases error <;> decide

theorem keeps_kmalloc : Keeps d (kmalloc : Load M File Bool) :=
  keeps_get_bind fun loader steady => by
    rw [meets_bind, meets_modify]
    exact ⟨steady, rfl⟩

theorem keeps_loadIcodeRead {calls : FileCalls File} {put : Nat -> (Nat -> UInt8) -> Load M File Unit}
    (puts : forall count bytes, Keeps d (put count bytes)) (len : Nat) (offset : Int) :
    Keeps d (loadIcodeRead calls put len offset) := by
  unfold loadIcodeRead
  apply keeps_get_bind
  intro loader steady
  have file : forall file : File, Keeps d (modify (fun loader : Loader M File => { loader with file := file })) :=
    fun file => keeps_modify (fun _ => rfl) (fun _ => rfl)
  refine (file _).bind (fun _ => ?_) loader steady
  split
  · rename_i nonzero
    exact keeps_throw nonzero
  · refine (file _).bind fun _ => (puts _ _).bind fun _ => .ite _ (keeps_throw ?_) (keeps_pure _)
    split
    · rename_i negative
      exact Int.ne_of_lt negative
    · decide

theorem keeps_noPut (count : Nat) (bytes : Nat -> UInt8) : Keeps d (noPut count bytes : Load M File Unit) :=
  keeps_pure ()

theorem keeps_mmMap (addr len : UInt64) (vmFlags : VmFlags) :
    Keeps d (mmMap d addr len vmFlags : Load M File Unit) := by
  unfold mmMap
  apply keeps_kmalloc.bind
  intro created
  apply keeps_get_bind
  intro loader steady
  cases ran : CountedMm.mmMap ⟨loader.sys.mm d, loader.mapCount⟩ addr len vmFlags created with
  | none => trivial
  | some result =>
      rcases result with ⟨error, mm⟩
      have left := CountedMm.mmMap_cases steady.sorted steady.cached ran
      cases error with
      | some error =>
          unfold mapped
          rw [meets_bind, meets_modify]
          refine ⟨⟨?_, rfl⟩, fun zero => absurd zero (errno_ne_zero error)⟩
          have listed : mm.mmapList = (loader.sys.mm d).mmapList := left.2.2
          exact steady.setMm left.1 (listed ▸ steady.sorted) left.2.1 (listed ▸ steady.user)
      | none =>
          unfold mapped
          rw [meets_modify]
          refine ⟨?_, rfl⟩
          rcases left with ⟨pgdir, cached, access, sorted, order, _⟩
          refine steady.setMm pgdir sorted cached fun vma member => ?_
          rcases List.mem_cons.mp (order.mem_iff.mp member) with rfl | old
          · refine ⟨?_, ?_, access⟩
            · unfold firstPage
              exact Nat.mul_mod_left _ _
            · rw [Vm.roundUp_eq]
              exact Nat.mul_mod_left _ _
          · exact steady.user vma old

/-- A page that is refused is on record. -/
theorem pgdirAllocPage_meets (la : Nat) (perm : Pte) (loader : Loader M File) (steady : Steady d loader.sys) :
    Meets (pgdirAllocPage d la perm) loader
      ⟨fun result after => Kept d loader after /\ (result = none -> Refused after.events), fun _ _ => False,
        fun _ => True⟩ := by
  unfold pgdirAllocPage
  rw [meets_bind, meets_get]
  dsimp only
  cases ran : loader.sys.pgdirAllocPage d la perm with
  | none => trivial
  | some outcome =>
      rcases outcome with ⟨result, sys⟩
      have left := AddressSpaces.pgdirAllocPage_cases steady.used steady.lowest ran
      cases result with
      | none =>
          unfold pageResult
          rw [meets_bind, meets_modify]
          refine ⟨⟨?_, rfl⟩, fun _ => ⟨la, List.mem_cons_self ..⟩⟩
          exact steady.same_mapping left.sound left.lowest left.mapping left.pool (left.top d) (left.areas d)
      | some page =>
          unfold pageResult
          rw [meets_bind, meets_modify]
          exact ⟨⟨steady.addsPage left, rfl⟩, fun wrong => absurd wrong (Option.some_ne_none page)⟩

theorem keeps_takePage (la : Nat) (perm : Pte) (ret : Int) : Keeps d (takePage d la perm ret : Load M File Nat) := by
  intro loader steady
  unfold takePage
  rw [meets_bind]
  refine (pgdirAllocPage_meets la perm loader steady).mono ?_ (fun _ _ => False.elim) (fun _ _ => trivial)
  rintro (_ | page) after ⟨kept, refused⟩
  · exact ⟨kept, fun _ => refused rfl⟩
  · exact kept

theorem keeps_storePage (page off size : Nat) (bytes : Nat -> UInt8) :
    Keeps d (storePage page off size bytes : Load M File Unit) := fun _ steady =>
  ⟨steady.storePage off size bytes, rfl⟩

theorem keeps_filePages (calls : FileCalls File) (perm : Pte) (last turns : Nat) (cursor : Cursor) :
    Keeps d (filePages calls d perm last turns cursor : Load M File Cursor) := by
  induction turns generalizing cursor with
  | zero => exact keeps_halt _
  | succ turns inductionHypothesis =>
      rw [filePages]
      exact .ite _ ((keeps_takePage _ _ _).bind fun page =>
        (keeps_loadIcodeRead (fun count bytes => keeps_storePage _ _ _ _) _ _).bind fun _ =>
          inductionHypothesis _) (keeps_pure _)

theorem keeps_zeroBoundary (last : Nat) (cursor : Cursor) :
    Keeps d (zeroBoundary last cursor : Load M File Cursor) := by
  have zeroes : forall off size page, Keeps d (zeroPage off size page : Load M File Unit) := by
    intro off size page
    cases page with
    | none => exact keeps_halt _
    | some page => exact keeps_storePage _ _ _ _
  exact .ite _ (.ite _ ((zeroes _ _ _).bind fun _ => keeps_pure _) (keeps_pure _)) (keeps_pure _)

theorem keeps_bssPages (perm : Pte) (last turns : Nat) (cursor : Cursor) :
    Keeps d (bssPages d perm last turns cursor : Load M File Unit) := by
  induction turns generalizing cursor with
  | zero => exact keeps_halt _
  | succ turns inductionHypothesis =>
      rw [bssPages]
      exact .ite _ ((keeps_takePage _ _ _).bind fun page => (keeps_storePage _ _ _ _).bind fun _ =>
        inductionHypothesis _)
        (keeps_pure _)

theorem keeps_loadSegment (calls : FileCalls File) (ph : Proghdr) :
    Keeps d (loadSegment calls d ph : Load M File Unit) :=
  (keeps_mmMap _ _ _).bind fun _ => (keeps_filePages _ _ _ _ _).bind fun _ => (keeps_zeroBoundary _ _).bind fun _ =>
    keeps_bssPages _ _ _ _

theorem keeps_loadProghdr (calls : FileCalls File) (ph : Proghdr) :
    Keeps d (loadProghdr calls d ph : Load M File Unit) :=
  .ite _ (keeps_pure _) (.ite _ (keeps_throw (by decide)) (.ite _ (keeps_pure _) (keeps_loadSegment calls ph)))

theorem keeps_loadHeader (calls : FileCalls File) (elf : Elfhdr) (i : Nat) :
    Keeps d (loadHeader calls d elf i : Load M File Unit) :=
  (keeps_loadIcodeRead keeps_noPut _ _).bind fun _ => keeps_loadProghdr calls _

theorem keeps_forRange {body : Nat -> Load M File Unit} (keeps : forall i, Keeps d (body i)) (start count : Nat) :
    Keeps d (forRange body start count) := by
  induction count generalizing start with
  | zero => exact keeps_pure ()
  | succ count inductionHypothesis => exact (keeps start).bind fun _ => inductionHypothesis (start + 1)

theorem keeps_loadSegments (calls : FileCalls File) (elf : Elfhdr) :
    Keeps d (loadSegments calls d elf : Load M File Unit) := keeps_forRange (keeps_loadHeader calls elf) _ _

theorem keeps_stackPage (la : Nat) (text : String) : Keeps d (stackPage d la text : Load M File Unit) := by
  intro loader steady
  unfold stackPage
  rw [meets_bind]
  refine (pgdirAllocPage_meets la pteUser loader steady).mono ?_ (fun _ _ => False.elim) (fun _ _ => trivial)
  rintro (_ | page) after ⟨kept, _⟩
  · trivial
  · exact kept

theorem keeps_mapStack : Keeps d (mapStack d : Load M File Unit) :=
  (keeps_mmMap _ _ _).bind fun _ => (keeps_stackPage _ _).bind fun _ => (keeps_stackPage _ _).bind fun _ =>
    (keeps_stackPage _ _).bind fun _ => keeps_stackPage _ _

end Exec
end Ucore
