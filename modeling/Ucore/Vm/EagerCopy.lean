import Ucore.Vm.PageMap
import Ucore.Vm.UserAreas

namespace Ucore
namespace Vm

/-!
# Fork by copying

The `copy_range` that copies every page at once.  It gives each page a new
frame, so that the two address spaces have nothing in common afterwards.

A result `none` is a failed assertion, as before; the frame for a copy is
asserted to be there.
-/

namespace Eager

open AddressSpaces

variable {M : PmmManager}

/-- The part of `copy_range` for one valid entry, from the allocation of the
frame on. -/
def copyPage (sys : AddressSpaces M) (toDir fromDir la : Nat) : Option (AddressSpaces M) :=
  let pte := sys.loadPte fromDir la
  match sys.frames.allocPage with
  | none => none
  | some (npage, frames) =>
      let inserted := (sys.setFrames (frames.fill npage (frames.content pte.ppn))).pageInsert toDir npage la pte
      if inserted.1 = none then some inserted.2 else none

/-- One turn of the loop of `copy_range`; the inner `none` is a failed
`get_pte`. -/
def copyStep (sys : AddressSpaces M) (toDir fromDir start : Nat) : Option (Option Nat × AddressSpaces M) :=
  if (sys.getPte fromDir start false).1 = true then
    if (sys.loadPte fromDir start).v = true then
      match sys.getPte toDir start true with
      | (false, grown) => some (none, grown)
      | (true, grown) => (copyPage grown toDir fromDir start).map fun copied => (some (start + pgSize), copied)
    else some (some (start + pgSize), sys)
  else some (some (roundDown (start + ptSize) ptSize), sys)

/-- The loop of `copy_range`. -/
def copyLoop (toDir fromDir last : Nat) : Nat -> Nat -> AddressSpaces M -> Option (Option Errno × AddressSpaces M)
  | 0, _, sys => some (none, sys)
  | fuel + 1, start, sys =>
      match copyStep sys toDir fromDir start with
      | none => none
      | some (none, failed) => some (some .noMem, failed)
      | some (some next, copied) =>
          if next ≠ 0 /\ next < last then copyLoop toDir fromDir last fuel next copied else some (none, copied)

def copyRange (sys : AddressSpaces M) (toDir fromDir start last : Nat) : Option (Option Errno × AddressSpaces M) :=
  if start % pgSize = 0 /\ last % pgSize = 0 /\ UserAccess start last then
    copyLoop toDir fromDir last (pageSteps start last) start sys
  else none

/-- The address space with one more area. -/
def withArea (sys : AddressSpaces M) (d : Nat) (list : List Vma) : AddressSpaces M :=
  { sys with mm := Function.update sys.mm d { sys.mm d with mmapList := list } }

/-- The loop of `dup_mmap`.  `vma_create` succeeds as often as the count
says. -/
def dupMmapLoop (toDir fromDir : Nat) : List Vma -> Nat -> AddressSpaces M -> Option (Option Errno × AddressSpaces M)
  | [], _, sys => some (none, sys)
  | _ :: _, 0, sys => some (some .noMem, sys)
  | vma :: rest, creatable + 1, sys =>
      match insertVmaStruct (sys.mm toDir).mmapList vma with
      | none => none
      | some list =>
          match copyRange (withArea sys toDir list) toDir fromDir vma.vmStart vma.vmEnd with
          | none => none
          | some (some _, failed) => some (some .noMem, failed)
          | some (none, copied) => dupMmapLoop toDir fromDir rest creatable copied

/-- `dup_mmap`, from the last area to the first. -/
def dupMmap (sys : AddressSpaces M) (toDir fromDir creatable : Nat) : Option (Option Errno × AddressSpaces M) :=
  dupMmapLoop toDir fromDir (sys.mm fromDir).mmapList.reverse creatable sys

/-! ## The invariant -/

variable {sys cur grown after : AddressSpaces M} {toDir fromDir start last la : Nat} {done : Set PageNumber}

/-- The page manager is in order, and mapped frames and frames of nodes are in
use: the copy gets frames that nothing else refers to. -/
structure Separated (sys : AddressSpaces M) : Prop where
  sound : sys.frames.Sound
  mapped : forall slot frame, sys.mapped slot = some frame -> ¬ sys.frames.IsFree frame
  nodes : forall frame, sys.IsNode frame -> ¬ sys.frames.IsFree frame

/-- The frame of the destination is a copy of that of the source, and no other
page is mapped to it. -/
structure CopyOf (sys cur : AddressSpaces M) (toDir fromDir : Nat) (page : PageNumber) (frame : Nat) : Prop where
  entry : cur.entry toDir page = { sys.entry fromDir page with ppn := frame }
  content : cur.frames.content frame = sys.frames.content (sys.entry fromDir page).ppn
  alone : forall slot, cur.mapped slot = some frame -> slot = (toDir, page)

/-- The pages that are done are copied, and nothing else has changed. -/
structure Copied (sys cur : AddressSpaces M) (toDir fromDir : Nat) (done : Set PageNumber) : Prop where
  source : forall page, cur.entry fromDir page = sys.entry fromDir page
  copies : forall page, page ∈ done -> (sys.entry fromDir page).v = true ->
    Exists fun frame => CopyOf sys cur toDir fromDir page frame
  rest : forall page, ¬ (page ∈ done /\ (sys.entry fromDir page).v = true) -> (cur.entry toDir page).v = false
  content : forall frame, ¬ sys.frames.IsFree frame -> cur.frames.content frame = sys.frames.content frame
  ref : forall frame, ¬ sys.frames.IsFree frame -> cur.frames.ref frame = sys.frames.ref frame
  pool : forall frame, cur.frames.IsFree frame -> sys.frames.IsFree frame
  separated : Separated cur

namespace Copied

theorem addsNode (copied : Copied sys cur toDir fromDir done) {place : Nat × PageDirectory.Node} {ppn : Nat}
    (adds : AddsNode cur grown place ppn) : Copied sys grown toDir fromDir done where
  source page := (adds.entries fromDir page).trans (copied.source page)
  copies page member valid := by
    obtain ⟨frame, entry, content, alone⟩ := copied.copies page member valid
    exact ⟨frame, (adds.entries toDir page).trans entry,
      by rw [adds.content]; exact content, by rw [adds.mapped]; exact alone⟩
  rest page undone := by
    rw [adds.entries]
    exact copied.rest page undone
  content frame used := by
    rw [adds.content]
    exact copied.content frame used
  ref frame used := by
    have wasFree := (adds.takes copied.separated.sound).wasFree
    have different : frame ≠ ppn := fun same => used (same ▸ copied.pool ppn wasFree)
    rw [adds.ref, Function.update_of_ne different]
    exact copied.ref frame used
  pool frame free := copied.pool frame ((adds.takes copied.separated.sound).shrinks free)
  separated := by
    have takes := adds.takes copied.separated.sound
    refine ⟨takes.sound, fun slot frame points free => ?_, fun frame node free => ?_⟩
    · rw [adds.mapped] at points
      exact copied.separated.mapped slot frame points (takes.shrinks free)
    · rcases (adds.isNode frame).mp node with old | new
      · exact copied.separated.nodes frame old (takes.shrinks free)
      · exact takes.taken (new ▸ free)

theorem getPte (copied : Copied sys cur toDir fromDir done) (d la : Nat) :
    Copied sys (cur.getPte d la true).2 toDir fromDir done :=
  getPte_preserves (fun next => Copied sys next toDir fromDir done) (fun _ _ _ _ holds adds => holds.addsNode adds)
    copied d la

/-- Only the pages that the source maps matter. -/
theorem congr {other : Set PageNumber} (copied : Copied sys cur toDir fromDir done)
    (same : forall page, (sys.entry fromDir page).v = true -> (page ∈ done <-> page ∈ other)) :
    Copied sys cur toDir fromDir other :=
  { copied with
    copies := fun page member valid => copied.copies page ((same page valid).mpr member) valid
    rest := fun page undone => copied.rest page fun both => undone ⟨(same page both.2).mp both.1, both.2⟩ }

end Copied

/-! ## The other address spaces -/

/-- Only the tables of one directory have changed: the areas are the same, and
the rest of the address spaces. -/
structure Confined (sys cur : AddressSpaces M) (toDir : Nat) : Prop where
  others : forall d, d ≠ toDir -> cur.mm d = sys.mm d
  areas : (cur.mm toDir).mmapList = (sys.mm toDir).mmapList

namespace Confined

theorem refl (sys : AddressSpaces M) (toDir : Nat) : Confined sys sys toDir := ⟨fun _ _ => rfl, rfl⟩

theorem trans (first : Confined sys cur toDir) (second : Confined cur after toDir) : Confined sys after toDir :=
  ⟨fun d other => (second.others d other).trans (first.others d other), second.areas.trans first.areas⟩

theorem setPgdir (sys : AddressSpaces M) (toDir : Nat) (frames : Frames M) (pgdir : PageDirectory) :
    Confined sys ((sys.setFrames frames).setPgdir toDir pgdir) toDir :=
  ⟨fun _ other => Function.update_of_ne other .., (areas_setPgdir (sys.setFrames frames) toDir toDir pgdir).1⟩

theorem getPte0 (sys : AddressSpaces M) (toDir la : Nat) (create : Bool) :
    Confined sys (sys.getPte0 toDir la create).2 toDir := by
  unfold AddressSpaces.getPte0
  split
  · exact refl sys toDir
  · split
    · exact refl sys toDir
    · split
      · split
        · exact refl sys toDir
        · exact setPgdir sys toDir _ _
      · exact refl sys toDir

theorem getPte (sys : AddressSpaces M) (toDir la : Nat) (create : Bool) :
    Confined sys (sys.getPte toDir la create).2 toDir := by
  unfold AddressSpaces.getPte
  split
  · exact getPte0 sys toDir la create
  · split
    · split
      · exact refl sys toDir
      · exact (setPgdir sys toDir _ _).trans (getPte0 _ toDir la create)
    · exact refl sys toDir

end Confined

/-! ## One page -/

/-- A page gets a copy of the frame that the source has there. -/
structure AddsCopy (cur after : AddressSpaces M) (toDir fromDir la npage : Nat) : Prop where
  entries : forall d page, after.entry d page =
    if d = toDir /\ page = pageNumber la then { cur.loadPte fromDir la with ppn := npage } else cur.entry d page
  wasFree : cur.frames.IsFree npage
  sound : after.frames.Sound
  nodes : after.nodes = cur.nodes
  free : forall frame, after.frames.IsFree frame <-> cur.frames.IsFree frame /\ frame ≠ npage
  ref : after.frames.ref = Function.update cur.frames.ref npage (cur.frames.ref npage + 1)
  content : after.frames.content = Function.update cur.frames.content npage
    (cur.frames.content (cur.loadPte fromDir la).ppn)
  confined : Confined cur after toDir

/-- What `copyPage` does where the table exists and the entry is vacant. -/
theorem copyPage_addsCopy (sound : cur.frames.Sound) (present : ((cur.pgdir toDir).find la).isSome = true)
    (vacant : (cur.loadPte toDir la).v = false) (valid : (cur.loadPte fromDir la).v = true)
    (ran : copyPage cur toDir fromDir la = some after) :
    Exists fun npage => AddsCopy cur after toDir fromDir la npage := by
  rw [copyPage] at ran
  cases allocated : cur.frames.allocPage with
  | none =>
      rw [allocated] at ran
      exact nomatch ran
  | some result =>
      rcases result with ⟨npage, frames⟩
      have takes := Frames.allocPage_takes sound allocated
      obtain ⟨ref, cow, content⟩ := Frames.allocPage_keeps allocated
      simp only [allocated] at ran
      generalize made : frames.fill npage (frames.content (cur.loadPte fromDir la).ppn) = filled at ran
      have table : (((cur.setFrames filled).pgdir toDir).find la).isSome = true := present
      rw [pageInsert, getPte_present table] at ran
      simp only [if_true] at ran
      have entryVacant : ¬ ((cur.setFrames filled).loadPte toDir la).v = true := Bool.eq_false_iff.mp vacant
      rw [insertAt, if_neg entryVacant] at ran
      have counted :
        ((((cur.setFrames filled).setFrames ((cur.setFrames filled).frames.pageRefInc npage)).pgdir toDir).find
          la).isSome = true := present
      have stored : { cur.loadPte fromDir la with ppn := npage } =
        { cur.loadPte fromDir la with ppn := npage, v := true } := by
        rw [← valid]
      subst made
      rw [← Option.some.inj ran]
      refine ⟨npage, fun d page => ?_, takes.wasFree, takes.sound, ?_, takes.free, ?_, ?_,
        Confined.setPgdir cur toDir _ _⟩
      · rw [entry_storePte counted, stored]
        rfl
      · exact nodes_storePte _ toDir la _
      · change Function.update frames.ref npage (frames.ref npage + 1) = _
        rw [ref]
      · change Function.update frames.content npage (frames.content (cur.loadPte fromDir la).ppn) = _
        rw [content]

namespace Copied

theorem addsCopy (separated : Separated sys) (copied : Copied sys cur toDir fromDir done) (different : fromDir ≠ toDir)
    (valid : (cur.loadPte fromDir la).v = true) {npage : Nat} (adds : AddsCopy cur after toDir fromDir la npage) :
    Copied sys after toDir fromDir (insert (pageNumber la) done) := by
  have source : cur.loadPte fromDir la = sys.entry fromDir (pageNumber la) := copied.source (pageNumber la)
  have unmapped : forall slot, cur.mapped slot ≠ some npage := fun slot points =>
    copied.separated.mapped slot npage points adds.wasFree
  have mapped : forall slot, after.mapped slot = if slot = (toDir, pageNumber la) then some npage
    else cur.mapped slot := by
    intro slot
    have entry := adds.entries slot.1 slot.2
    rw [AddressSpaces.mapped]
    by_cases same : slot = (toDir, pageNumber la)
    · rw [if_pos ⟨congrArg Prod.fst same, congrArg Prod.snd same⟩] at entry
      rw [if_pos same, entry]
      exact if_pos valid
    · rw [if_neg fun both => same (Prod.ext both.1 both.2)] at entry
      rw [if_neg same, entry]
      rfl
  have fresh : forall frame, ¬ sys.frames.IsFree frame -> frame ≠ npage := fun frame used same =>
    used (copied.pool frame (same ▸ adds.wasFree))
  refine ⟨fun page => ?_, fun page member known => ?_, fun page absent => ?_, fun frame used => ?_,
    fun frame used => ?_,
    fun frame free => copied.pool frame ((adds.free frame).mp free).1, ⟨adds.sound, fun slot frame points free => ?_,
    fun frame node free => ?_⟩⟩
  · rw [adds.entries, if_neg fun both => different both.1]
    exact copied.source page
  · by_cases new : page = pageNumber la
    · subst new
      refine ⟨npage, ?_, ?_, fun slot points => ?_⟩
      · rw [adds.entries, if_pos ⟨rfl, rfl⟩, source]
      · have backward : ¬ sys.frames.IsFree (sys.entry fromDir (pageNumber la)).ppn := by
          rw [source] at valid
          exact separated.mapped (fromDir, pageNumber la) _ (mapped_eq_some.mpr ⟨valid, rfl⟩)
        rw [adds.content, Function.update_self, source]
        exact copied.content _ backward
      · by_contra other
        rw [mapped, if_neg other] at points
        exact unmapped slot points
    · obtain ⟨frame, entry, content, alone⟩ := copied.copies page (member.resolve_left new) known
      have used : frame ≠ npage := fun same => unmapped (toDir, page) (mapped_eq_some.mpr (by
        rw [entry]
        exact ⟨known, same⟩))
      refine ⟨frame, ?_, ?_, fun slot points => ?_⟩
      · rw [adds.entries, if_neg fun both => new both.2]
        exact entry
      · rw [adds.content, Function.update_of_ne used]
        exact content
      · rw [mapped] at points
        split at points
        · exact absurd (Option.some.inj points).symm used
        · exact alone slot points
  · have undonePage : page ≠ pageNumber la := fun same => absent ⟨.inl same, by
      rw [same, ← source]
      exact valid⟩
    rw [adds.entries, if_neg fun both => undonePage both.2]
    exact copied.rest page fun both => absent ⟨.inr both.1, both.2⟩
  · rw [adds.content, Function.update_of_ne (fresh frame used)]
    exact copied.content frame used
  · rw [adds.ref, Function.update_of_ne (fresh frame used)]
    exact copied.ref frame used
  · rw [mapped] at points
    split at points
    · exact ((adds.free frame).mp free).2 (Option.some.inj points).symm
    · exact copied.separated.mapped slot frame points ((adds.free frame).mp free).1
  · obtain ⟨place, found⟩ := node
    rw [adds.nodes] at found
    exact copied.separated.nodes frame ⟨place, found⟩ ((adds.free frame).mp free).1

end Copied

/-! ## The loop -/

/-- The pages of a range of addresses. -/
def pagesFrom (start last : Nat) : Set PageNumber := { page | start <= page.val * pgSize /\ page.val * pgSize < last }

theorem pagesFrom_pageNumber {page : PageNumber} (aligned : start % pgSize = 0) (low : start <= page.val * pgSize)
    (high : page.val * pgSize < start + pgSize) : page = pageNumber start := by
  have same : page.val * pgSize = start := by
    unfold pgSize at *
    omega
  rw [← same, PageDirectory.pageNumber_page]

/-- Where the next turn starts, no page of the source has been passed over. -/
structure Advances (sys : AddressSpaces M) (fromDir start next : Nat) : Prop where
  less : start < next
  aligned : next % pgSize = 0
  passed : forall page, page ∈ pagesFrom start next -> (sys.entry fromDir page).v = true -> page = pageNumber start

theorem advances_page (sys : AddressSpaces M) (fromDir : Nat) (aligned : start % pgSize = 0) :
    Advances sys fromDir start (start + pgSize) where
  less := Nat.lt_add_of_pos_right (by decide)
  aligned := by
    rw [Nat.add_mod_right]
    exact aligned
  passed page inside _ := pagesFrom_pageNumber aligned inside.1 inside.2

/-- No page of the range of a missing table is valid. -/
theorem advances_table (missing : (sys.pgdir fromDir).find start = none) :
    Advances sys fromDir start (roundDown (start + ptSize) ptSize) where
  less := by
    unfold roundDown ptSize
    omega
  aligned := by
    unfold roundDown ptSize pgSize
    omega
  passed page inside valid := by
    have low : start <= page.val * pgSize := inside.1
    have high : page.val * pgSize < roundDown (start + ptSize) ptSize := inside.2
    unfold roundDown ptSize at high
    have entry : sys.entry fromDir page = {} := by
      apply PageDirectory.pte_of_find_none missing
      · unfold pdx1 pdSize
        omega
      · unfold pdx0 ptSize
        omega
    rw [entry] at valid
    exact nomatch valid

/-- One turn copies the page of its start, where the source has one. -/
theorem Copied.copyStep {next : Nat} (separated : Separated sys) (copied : Copied sys cur toDir fromDir done)
    (different : fromDir ≠ toDir) (aligned : start % pgSize = 0) (undone : pageNumber start ∉ done)
    (ran : copyStep cur toDir fromDir start = some (some next, after)) :
    Copied sys after toDir fromDir (insert (pageNumber start) done) /\ Advances sys fromDir start next /\
      Confined cur after toDir := by
  have skipped : (sys.entry fromDir (pageNumber start)).v ≠ true ->
      Copied sys cur toDir fromDir (insert (pageNumber start) done) := fun invalid => by
    apply copied.congr
    intro page valid
    have other : page ≠ pageNumber start := fun same => invalid (same ▸ valid)
    exact ⟨.inr, fun member => member.resolve_left other⟩
  have source : cur.loadPte fromDir start = sys.entry fromDir (pageNumber start) := copied.source (pageNumber start)
  rw [Eager.copyStep, getPte_lookup] at ran
  by_cases present : ((cur.pgdir fromDir).find start).isSome = true
  · rw [if_pos present] at ran
    by_cases valid : (cur.loadPte fromDir start).v = true
    · rw [if_pos valid] at ran
      have grown := copied.getPte toDir start
      have table := getPte_success cur toDir start
      have confined := Confined.getPte cur toDir start true
      cases result : cur.getPte toDir start true with
      | mk found tables =>
          rw [result] at ran grown table confined
          cases found with
          | false => exact nomatch ran
          | true =>
              obtain ⟨last, made, same⟩ := Option.map_eq_some_iff.mp ran
              cases same
              have stillValid : (tables.loadPte fromDir start).v = true := by
                rw [source] at valid
                rw [loadPte_eq_entry, grown.source]
                exact valid
              obtain ⟨npage, adds⟩ :=
                copyPage_addsCopy grown.separated.sound (table rfl) (grown.rest _ fun both => undone both.1) stillValid
                  made
              exact ⟨grown.addsCopy separated different stillValid adds, advances_page sys fromDir aligned,
                confined.trans adds.confined⟩
    · rw [if_neg valid] at ran
      cases ran
      rw [source] at valid
      exact ⟨skipped valid, advances_page sys fromDir aligned, Confined.refl cur toDir⟩
  · rw [if_neg present] at ran
    have missing := Option.not_isSome_iff_eq_none.mp present
    have advances := @advances_table M cur fromDir start missing
    generalize roundDown (start + ptSize) ptSize = far at ran advances
    cases ran
    refine ⟨skipped fun valid => ?_, ⟨advances.less, advances.aligned, fun page inside valid => ?_⟩,
      Confined.refl cur toDir⟩
    · rw [← source] at valid
      exact present (present_of_valid valid)
    · rw [← copied.source] at valid
      exact advances.passed page inside valid

/-- The loop copies the pages of its range.  The induction is on the turns,
which suffice for a range of that many pages. -/
theorem Copied.copyLoop (separated : Separated sys) (different : fromDir ≠ toDir) (lastAligned : last % pgSize = 0)
    (fuel : Nat) : forall {start : Nat} {cur : AddressSpaces M} {done : Set PageNumber},
      Copied sys cur toDir fromDir done -> start % pgSize = 0 -> start < last -> last <= userTop ->
      (forall page, page ∈ pagesFrom start last -> page ∉ done) -> last - start <= fuel * pgSize ->
      copyLoop toDir fromDir last fuel start cur = some (none, after) ->
        Copied sys after toDir fromDir (done ∪ pagesFrom start last) /\ Confined cur after toDir := by
  induction fuel with
  | zero => exact fun _ _ less _ _ bound => absurd less (by omega)
  | succ fuel inductionHypothesis =>
      intro start cur done copied aligned less top fresh bound ran
      have number : (pageNumber start).val * pgSize = start := by
        unfold pageNumber pgSize
        unfold pgSize at aligned
        unfold userTop at top
        dsimp only
        omega
      have first : pageNumber start ∈ pagesFrom start last := ⟨number.ge, number.trans_lt less⟩
      rw [Eager.copyLoop] at ran
      cases turn : Eager.copyStep cur toDir fromDir start with
      | none =>
          rw [turn] at ran
          exact nomatch ran
      | some result =>
          rcases result with ⟨next, copies⟩
          cases next with
          | none =>
              rw [turn] at ran
              exact nomatch ran
          | some next =>
              obtain ⟨stepped, advances, confined⟩ := copied.copyStep separated different aligned (fresh _ first) turn
              have passed := advances.passed
              have forward := advances.less
              rw [turn] at ran
              dsimp only at ran
              by_cases more : next ≠ 0 /\ next < last
              · rw [if_pos more] at ran
                have nextAligned := advances.aligned
                have left : last - next <= fuel * pgSize := by
                  unfold pgSize at *
                  omega
                have stillFresh : forall page, page ∈ pagesFrom next last -> page ∉ insert (pageNumber start) done := by
                  rintro page inside (same | old)
                  · have low : next <= page.val * pgSize := inside.1
                    rw [same, number] at low
                    omega
                  · exact fresh page ⟨forward.le.trans inside.1, inside.2⟩ old
                obtain ⟨all, rest⟩ := inductionHypothesis stepped nextAligned more.2 top stillFresh left ran
                refine ⟨all.congr fun page valid => ⟨?_, ?_⟩, confined.trans rest⟩
                · rintro ((rfl | old) | inside)
                  · exact .inr first
                  · exact .inl old
                  · exact .inr ⟨forward.le.trans inside.1, inside.2⟩
                · rintro (old | inside)
                  · exact .inl (.inr old)
                  · by_cases early : page.val * pgSize < next
                    · exact .inl (.inl (passed page ⟨inside.1, early⟩ valid))
                    · exact .inr ⟨Nat.le_of_not_lt early, inside.2⟩
              · rw [if_neg more] at ran
                cases ran
                have beyond : last <= next := by omega
                refine ⟨stepped.congr fun page valid => ⟨?_, ?_⟩, confined⟩
                · rintro (rfl | old)
                  · exact .inr first
                  · exact .inl old
                · rintro (old | inside)
                  · exact .inr old
                  · exact .inl (passed page ⟨inside.1, inside.2.trans_le beyond⟩ valid)

/-- `copy_range` copies the pages of its range. -/
theorem Copied.copyRange (separated : Separated sys) (copied : Copied sys cur toDir fromDir done)
    (different : fromDir ≠ toDir) (fresh : forall page, page ∈ pagesFrom start last -> page ∉ done)
    (ran : copyRange cur toDir fromDir start last = some (none, after)) :
    Copied sys after toDir fromDir (done ∪ pagesFrom start last) /\ Confined cur after toDir := by
  unfold Eager.copyRange at ran
  split at ran
  case isFalse => exact nomatch ran
  case isTrue checks =>
    obtain ⟨startAligned, lastAligned, _, less, top⟩ := checks
    apply Copied.copyLoop separated different lastAligned _ copied startAligned less top fresh _ ran
    unfold pageSteps pgSize
    omega

/-! ## All areas -/

theorem pgdir_withArea (cur : AddressSpaces M) (toDir d : Nat) (list : List Vma) :
    (withArea cur toDir list).pgdir d = cur.pgdir d := by
  simp only [withArea, AddressSpaces.pgdir, Function.update_apply]
  by_cases same : d = toDir
  · rw [if_pos same, same]
  · rw [if_neg same]

theorem mmapList_withArea (cur : AddressSpaces M) (toDir : Nat) (list : List Vma) :
    ((withArea cur toDir list).mm toDir).mmapList = list := by
  simp only [withArea, Function.update_self]

theorem Copied.withArea (copied : Copied sys cur toDir fromDir done) (list : List Vma) :
    Copied sys (withArea cur toDir list) toDir fromDir done := by
  have entry : forall d page, (Eager.withArea cur toDir list).entry d page = cur.entry d page := fun d page => by
    rw [AddressSpaces.entry, pgdir_withArea]
    rfl
  have mapped : (Eager.withArea cur toDir list).mapped = cur.mapped := by
    funext slot
    rw [AddressSpaces.mapped, entry]
    rfl
  have nodes : (Eager.withArea cur toDir list).nodes = cur.nodes := by
    funext place
    rw [AddressSpaces.nodes, pgdir_withArea]
    rfl
  refine ⟨fun page => (entry fromDir page).trans (copied.source page), fun page member valid => ?_,
    fun page absent => ?_,
    copied.content, copied.ref, copied.pool,
      ⟨copied.separated.sound, fun slot frame points => ?_, fun frame node => ?_⟩⟩
  · obtain ⟨frame, same, content, alone⟩ := copied.copies page member valid
    exact ⟨frame, (entry toDir page).trans same, content, mapped ▸ alone⟩
  · rw [entry]
    exact copied.rest page absent
  · rw [mapped] at points
    exact copied.separated.mapped slot frame points
  · obtain ⟨place, found⟩ := node
    rw [nodes] at found
    exact copied.separated.nodes frame ⟨place, found⟩

/-- The pages of areas. -/
def held (areas : List Vma) : Set PageNumber :=
  { page | Exists fun vma => vma ∈ areas /\ vma.Holds (page.val * pgSize) }

/-- The areas that are in the list of the destination are copied. -/
structure Progress (sys cur : AddressSpaces M) (toDir fromDir : Nat) : Prop where
  copied : Copied sys cur toDir fromDir (held (cur.mm toDir).mmapList)
  sorted : SortedAreas (cur.mm toDir).mmapList
  others : forall d, d ≠ toDir -> cur.mm d = sys.mm d

theorem Progress.step {vma : Vma} {list : List Vma} (separated : Separated sys) (different : fromDir ≠ toDir)
    (progress : Progress sys cur toDir fromDir) (inserted : insertVmaStruct (cur.mm toDir).mmapList vma = some list)
    (ran : copyRange (withArea cur toDir list) toDir fromDir vma.vmStart vma.vmEnd = some (none, after)) :
    Progress sys after toDir fromDir /\ (after.mm toDir).mmapList.Perm (vma :: (cur.mm toDir).mmapList) := by
  have order := insertVmaStruct_perm inserted
  have fresh : forall page, page ∈ pagesFrom vma.vmStart vma.vmEnd -> page ∉ held (cur.mm toDir).mmapList := by
    rintro page ⟨low, high⟩ ⟨other, member, holds⟩
    unfold Vma.Holds at holds
    rcases progress.sorted.apart_inserted inserted member with before | beyond <;> omega
  obtain ⟨copied, confined⟩ := (progress.copied.withArea list).copyRange separated different fresh ran
  have areas : (after.mm toDir).mmapList = list := confined.areas.trans (mmapList_withArea cur toDir list)
  rw [← areas] at order
  refine ⟨⟨copied.congr fun page _ => ?_, ?_, fun d other => ?_⟩, order⟩
  · constructor
    · rintro (⟨other, member, holds⟩ | inside)
      · exact ⟨other, order.mem_iff.mpr (List.mem_cons_of_mem _ member), holds⟩
      · exact ⟨vma, order.mem_iff.mpr (List.mem_cons_self ..), inside⟩
    · rintro ⟨other, member, holds⟩
      rcases List.mem_cons.mp (order.mem_iff.mp member) with rfl | old
      · exact .inr holds
      · exact .inl ⟨other, old, holds⟩
  · rw [areas]
    exact progress.sorted.insert inserted
  · rw [confined.others d other]
    exact (Function.update_of_ne other ..).trans (progress.others d other)

theorem Progress.dupMmapLoop (separated : Separated sys) (different : fromDir ≠ toDir) (areas : List Vma) :
    forall {cur : AddressSpaces M} {creatable : Nat}, Progress sys cur toDir fromDir ->
      dupMmapLoop toDir fromDir areas creatable cur = some (none, after) ->
        Progress sys after toDir fromDir /\ (after.mm toDir).mmapList.Perm (areas ++ (cur.mm toDir).mmapList) := by
  induction areas with
  | nil =>
      intro cur creatable progress ran
      cases ran
      exact ⟨progress, .refl _⟩
  | cons vma rest inductionHypothesis =>
      intro cur creatable progress ran
      cases creatable with
      | zero => exact nomatch ran
      | succ creatable =>
          rw [Eager.dupMmapLoop] at ran
          cases inserted : insertVmaStruct (cur.mm toDir).mmapList vma with
          | none =>
              rw [inserted] at ran
              exact nomatch ran
          | some list =>
              rw [inserted] at ran
              dsimp only at ran
              cases copies : Eager.copyRange (withArea cur toDir list) toDir fromDir vma.vmStart vma.vmEnd with
              | none =>
                  rw [copies] at ran
                  exact nomatch ran
              | some result =>
                  rcases result with ⟨error, next⟩
                  rw [copies] at ran
                  cases error with
                  | some code => exact nomatch ran
                  | none =>
                      obtain ⟨further, order⟩ := progress.step separated different inserted copies
                      obtain ⟨all, arranged⟩ := inductionHypothesis further ran
                      refine ⟨all, arranged.trans ?_⟩
                      exact (order.append_left rest).trans List.perm_middle

/-- The destination has the areas of the source, and copies of the pages in
them, and the rest of the system is as it was. -/
structure Duplicated (sys after : AddressSpaces M) (toDir fromDir : Nat) : Prop where
  areas : (after.mm toDir).mmapList.Perm (sys.mm fromDir).mmapList
  order : SortedAreas (sys.mm fromDir).mmapList -> (after.mm toDir).mmapList = (sys.mm fromDir).mmapList
  copies : forall page vma, vma ∈ (sys.mm fromDir).mmapList -> vma.Holds (page.val * pgSize) ->
    (sys.entry fromDir page).v = true -> Exists fun frame => CopyOf sys after toDir fromDir page frame
  onlyCopies : forall page, (after.entry toDir page).v = true -> (sys.entry fromDir page).v = true /\
    Exists fun vma => vma ∈ (sys.mm fromDir).mmapList /\ vma.Holds (page.val * pgSize)
  others : forall d, d ≠ toDir -> after.mm d = sys.mm d
  content : forall frame, ¬ sys.frames.IsFree frame -> after.frames.content frame = sys.frames.content frame
  ref : forall frame, ¬ sys.frames.IsFree frame -> after.frames.ref frame = sys.frames.ref frame

/-- `dup_mmap` into an address space without areas and pages duplicates the
address space of the parent. -/
theorem dupMmap_duplicates {creatable : Nat} (separated : Separated sys) (different : fromDir ≠ toDir)
    (noAreas : (sys.mm toDir).mmapList = []) (noPages : forall page, (sys.entry toDir page).v = false)
    (ran : dupMmap sys toDir fromDir creatable = some (none, after)) : Duplicated sys after toDir fromDir := by
  have initial : Progress sys sys toDir fromDir := by
    have none : held (sys.mm toDir).mmapList = ∅ := by
      rw [noAreas]
      exact Set.eq_empty_iff_forall_notMem.mpr fun page ⟨vma, member, _⟩ => nomatch member
    refine ⟨?_, ?_, fun _ _ => rfl⟩
    · rw [none]
      exact ⟨fun _ => rfl, fun _ member _ => (nomatch member), fun page _ => noPages page, fun _ _ => rfl,
        fun _ _ => rfl,
        fun _ free => free, separated⟩
    · rw [noAreas]
      exact ⟨.nil, fun vma member => nomatch member⟩
  obtain ⟨done, order⟩ := Progress.dupMmapLoop separated different _ initial ran
  rw [noAreas, List.append_nil] at order
  have areas : (after.mm toDir).mmapList.Perm (sys.mm fromDir).mmapList := order.trans (List.reverse_perm _)
  have copied := done.copied
  refine ⟨areas, fun sorted => done.sorted.eq_of_perm sorted areas, fun page vma member holds valid =>
    copied.copies page ⟨vma, areas.mem_iff.mpr member, holds⟩ valid, fun page valid => ?_, done.others, copied.content,
    copied.ref⟩
  by_contra absent
  have invalid := copied.rest page fun both => by
    obtain ⟨⟨vma, member, holds⟩, known⟩ := both
    exact absent ⟨known, vma, areas.mem_iff.mp member, holds⟩
  rw [invalid] at valid
  exact nomatch valid

/-! ## A run -/

/-- States of page tables with counted entries are separated. -/
theorem separated_of_refCounted {managed : Set Nat} {fresh : List Nat} (exact : RefCounted managed sys fresh) :
    Separated sys where
  sound := exact.sound
  mapped slot frame points := (exact.mappedUser slot frame points).2.2
  nodes := exact.nodesUsed

/-- Two directories, an area of two pages for the first one, and eight free
pages. -/
def oneArea : AddressSpaces (defaultPmm 10 8) where
  frames := ⟨bootPool 10 8, fun _ => 0, fun _ => false, fun _ _ => 0⟩
  mm := fun d => ⟨PageDirectory.blank (if d < 2 then some (5 + d) else none),
    if d = 0 then [⟨0x400000, 0x402000, { read := true, write := true }⟩] else [], none⟩

theorem oneArea_booted : oneArea.Booted := by
  have booted := twoDirectories_booted (n := 8) (by decide) (by decide)
  exact ⟨booted.unmapped, booted.nodesUsed, booted.uncounted, booted.sound⟩

/-- The second page of the area, with its frame. -/
def onePage : Option Nat × AddressSpaces (defaultPmm 10 8) :=
  (oneArea.pgdirAllocPage 0 0x401000 { r := true, w := true, u := true }).get (by decide +kernel)

/-- The result of `dup_mmap` from the first directory to the second one. -/
def onePageCopied : Option Errno × AddressSpaces (defaultPmm 10 8) := (dupMmap onePage.2 1 0 1).get (by decide +kernel)

theorem dupMmap_duplicates_onePage : onePage.2.mapped (0, pageNumber 0x401000) = some 10 /\
    dupMmap onePage.2 1 0 1 = some onePageCopied /\ Duplicated onePage.2 onePageCopied.2 1 0 := by
  have allocated : oneArea.pgdirAllocPage 0 0x401000 { r := true, w := true, u := true } = some onePage :=
    (Option.some_get _).symm
  have clean : oneArea.AllocatesCleanly 0 0x401000 := by decide +kernel
  have counted := oneArea_booted.refCounted.pgdirAllocPage clean allocated
  have returns : onePageCopied.1 = none := by decide +kernel
  have ran : dupMmap onePage.2 1 0 1 = some onePageCopied := (Option.some_get _).symm
  have succeeded : dupMmap onePage.2 1 0 1 = some (none, onePageCopied.2) := by rw [ran, ← returns]
  have child : onePage.2.mm 1 = oneArea.mm 1 := rfl
  have noAreas : (onePage.2.mm 1).mmapList = [] := by rw [child]; rfl
  have noPages : forall page, (onePage.2.entry 1 page).v = false := fun page => by
    rw [AddressSpaces.entry, AddressSpaces.pgdir, child]
    rfl
  exact ⟨by decide +kernel, ran,
    dupMmap_duplicates (separated_of_refCounted counted) (by decide) noAreas noPages succeeded⟩

end Eager

end Vm
end Ucore
