import Ucore.Library.ReferenceCount
import Ucore.Library.Run
import Ucore.Vm.Mapping

namespace Ucore
namespace Vm

open Library

/-!
# Reference counts of user pages

The count of a user page is exact when it is the number of valid entries
that map it, over all address spaces.  Every page the allocator started with
is then in one of four places: in the pool, in a table, behind some entry, or
fresh, that is, handed to a caller and never mapped since.

Both places where `do_pgfault` installs a new page store the entry without
`page_ref_inc`, and `copy_range` overwrites what its destination maps.  These
are the steps that the run theorem has to exclude.
-/

namespace AddressSpaces

variable {M : PmmManager}

/-- The page holds a node of some table. -/
def IsNode (sys : AddressSpaces M) (page : Nat) : Prop := Exists fun place => sys.nodes place = some page

/-- The pages whose count is the number of their entries. -/
def userPages (managed : Set Nat) (sys : AddressSpaces M) : Set Nat :=
  {page | page ∈ managed /\ ¬ sys.IsNode page}

/-- `managed` are the pages the allocator started with, and `fresh` those that
a caller has got and not mapped yet. -/
structure RefCounted (managed : Set Nat) (sys : AddressSpaces M) (fresh : List Nat) : Prop where
  counted : Counted sys.mapped sys.frames.ref (userPages managed sys)
  mappedUser : forall slot page, sys.mapped slot = some page ->
    page ∈ managed /\ ¬ sys.IsNode page /\ ¬ sys.frames.IsFree page
  nodesUsed : forall page, sys.IsNode page -> ¬ sys.frames.IsFree page
  pool : forall page, sys.frames.IsFree page -> page ∈ managed
  freshUser : forall page, page ∈ fresh -> page ∈ managed /\ ¬ sys.IsNode page /\ ¬ sys.frames.IsFree page /\
    forall slot, sys.mapped slot ≠ some page
  accounted : forall page, page ∈ managed -> sys.frames.IsFree page \/ sys.IsNode page \/
    (Exists fun slot => sys.mapped slot = some page) \/ page ∈ fresh
  sound : sys.frames.Sound
  manages : forall page, page ∈ managed -> M.Manages page

theorem AddsNode.isNode {sys next : AddressSpaces M} {place : Nat × PageDirectory.Node} {ppn : Nat}
    (adds : AddsNode sys next place ppn) (page : Nat) : next.IsNode page <-> sys.IsNode page \/ page = ppn := by
  simp only [IsNode, adds.nodes]
  constructor
  · rintro ⟨other, found⟩
    by_cases same : other = place
    · rw [same, Function.update_self] at found
      exact .inr (Option.some.inj found).symm
    · rw [Function.update_of_ne same] at found
      exact .inl ⟨other, found⟩
  · rintro (⟨other, found⟩ | same)
    · refine ⟨other, ?_⟩
      have different : other ≠ place := by
        intro equal
        rw [equal, adds.vacant] at found
        cases found
      rw [Function.update_of_ne different]
      exact found
    · exact ⟨place, by rw [Function.update_self, same]⟩

namespace RefCounted

variable {managed : Set Nat} {sys next : AddressSpaces M} {fresh : List Nat}

/-- A new node takes a page from the pool. -/
theorem addsNode (exact : RefCounted managed sys fresh) {place : Nat × PageDirectory.Node} {ppn : Nat}
    (adds : AddsNode sys next place ppn) :
    RefCounted managed next fresh := by
  have takes := adds.takes exact.sound
  have kept : forall page, ¬ sys.frames.IsFree page -> (page ∈ managed /\ ¬ sys.IsNode page) ->
      page ∈ managed /\ ¬ next.IsNode page := by
    intro page notFree user
    refine ⟨user.1, fun node => ?_⟩
    rcases (adds.isNode page).mp node with old | new
    · exact user.2 old
    · exact notFree (new ▸ takes.wasFree)
  have stays : forall page, ¬ sys.frames.IsFree page -> ¬ next.frames.IsFree page :=
    fun page notFree free => notFree (takes.shrinks free)
  refine ⟨?_, ?_, ?_, ?_, ?_, ?_, takes.sound, exact.manages⟩
  · rw [adds.mapped]
    apply exact.counted.congr
    · exact fun page member => ⟨member.1, fun node => member.2 ((adds.isNode page).mpr (.inl node))⟩
    · intro page member
      have different : page ≠ ppn := fun same => member.2 ((adds.isNode page).mpr (.inr same))
      rw [adds.ref, Function.update_of_ne different]
  · intro slot page found
    rw [adds.mapped] at found
    have old := exact.mappedUser slot page found
    have user := kept page old.2.2 ⟨old.1, old.2.1⟩
    exact ⟨user.1, user.2, stays page old.2.2⟩
  · intro page node free
    have wasFree := (takes.free page).mp free
    rcases (adds.isNode page).mp node with old | new
    · exact exact.nodesUsed page old wasFree.1
    · exact wasFree.2 new
  · exact fun page free => exact.pool page (takes.shrinks free)
  · intro page member
    have old := exact.freshUser page member
    have user := kept page old.2.2.1 ⟨old.1, old.2.1⟩
    exact ⟨user.1, user.2, stays page old.2.2.1, by rw [adds.mapped]; exact old.2.2.2⟩
  · intro page member
    rw [adds.mapped, takes.free, adds.isNode]
    have old := exact.accounted page member
    by_cases new : page = ppn
    · exact .inr (.inl (.inr new))
    · tauto

theorem getPte (exact : RefCounted managed sys fresh) (d la : Nat) :
    RefCounted managed (sys.getPte d la true).2 fresh :=
  getPte_preserves (fun next => RefCounted managed next fresh)
    (fun _ _ _ _ holds adds => holds.addsNode adds) exact d la

/-- A change that keeps mapping, counts, nodes and pool. -/
theorem same (exact : RefCounted managed sys fresh) (mapped : next.mapped = sys.mapped)
    (nodes : next.nodes = sys.nodes) (ref : next.frames.ref = sys.frames.ref)
    (pool : next.frames.pool = sys.frames.pool) : RefCounted managed next fresh := by
  have free : forall page, next.frames.IsFree page <-> sys.frames.IsFree page := fun page => by
    unfold Frames.IsFree
    rw [pool]
  have isNode : forall page, next.IsNode page <-> sys.IsNode page := fun page => by
    rw [IsNode, IsNode, nodes]
  have users : userPages managed next = userPages managed sys := by
    ext page
    exact and_congr_right fun _ => not_congr (isNode page)
  refine ⟨?_, ?_, ?_, ?_, ?_, ?_, ?_, exact.manages⟩
  · rw [mapped, ref, users]
    exact exact.counted
  · intro slot page found
    rw [isNode, free]
    exact exact.mappedUser slot page (mapped ▸ found)
  · intro page
    rw [isNode, free]
    exact exact.nodesUsed page
  · intro page
    rw [free]
    exact exact.pool page
  · intro page
    rw [isNode, free, mapped]
    exact exact.freshUser page
  · intro page
    rw [isNode, free, mapped]
    exact exact.accounted page
  · unfold Frames.Sound
    rw [pool]
    exact exact.sound

/-- A user page is mapped at an empty slot and counted once more. -/
theorem point (exact : RefCounted managed sys fresh) {slot : Nat × PageNumber} {page : Nat}
    (vacant : sys.mapped slot = none)
    (user : page ∈ managed /\ ¬ sys.IsNode page /\ ¬ sys.frames.IsFree page)
    (mapped : next.mapped = Function.update sys.mapped slot (some page)) (nodes : next.nodes = sys.nodes)
    (ref : next.frames.ref = Function.update sys.frames.ref page (sys.frames.ref page + 1))
    (pool : next.frames.pool = sys.frames.pool) :
    RefCounted managed next (fresh.filter (fun other => other ≠ page)) := by
  have free : forall page, next.frames.IsFree page <-> sys.frames.IsFree page := fun page => by
    unfold Frames.IsFree
    rw [pool]
  have isNode : forall page, next.IsNode page <-> sys.IsNode page := fun page => by
    rw [IsNode, IsNode, nodes]
  have users : userPages managed next = userPages managed sys := by
    ext page
    exact and_congr_right fun _ => not_congr (isNode page)
  have reads : forall other found, next.mapped other = some found ->
      sys.mapped other = some found \/ found = page := by
    intro other found points
    rw [mapped] at points
    by_cases atSlot : other = slot
    · rw [atSlot, Function.update_self] at points
      exact .inr (Option.some.inj points).symm
    · rw [Function.update_of_ne atSlot] at points
      exact .inl points
  refine ⟨?_, ?_, ?_, ?_, ?_, ?_, ?_, exact.manages⟩
  · rw [mapped, ref, users]
    exact exact.counted.point vacant page
  · intro other found points
    rw [isNode, free]
    rcases reads other found points with old | new
    · exact exact.mappedUser other found old
    · exact new ▸ user
  · intro other
    rw [isNode, free]
    exact exact.nodesUsed other
  · intro other
    rw [free]
    exact exact.pool other
  · intro other member
    rw [isNode, free]
    have parts := List.mem_filter.mp member
    have old := exact.freshUser other parts.1
    refine ⟨old.1, old.2.1, old.2.2.1, fun candidate points => ?_⟩
    rcases reads candidate other points with before | new
    · exact old.2.2.2 candidate before
    · exact of_decide_eq_true parts.2 new
  · intro other member
    rw [isNode, free, mapped]
    rcases exact.accounted other member with inPool | node | ⟨candidate, points⟩ | unmapped
    · exact .inl inPool
    · exact .inr (.inl node)
    · refine .inr (.inr (.inl ⟨candidate, ?_⟩))
      have different : candidate ≠ slot := by
        intro equal
        rw [equal, vacant] at points
        cases points
      rw [Function.update_of_ne different]
      exact points
    · by_cases isPage : other = page
      · exact .inr (.inr (.inl ⟨slot, by rw [Function.update_self, isPage]⟩))
      · exact .inr (.inr (.inr (List.mem_filter.mpr ⟨unmapped, decide_eq_true isPage⟩)))
  · unfold Frames.Sound
    rw [pool]
    exact exact.sound

/-- A slot is cleared; the page goes back to the pool with its last entry. -/
theorem clear (exact : RefCounted managed sys fresh) {slot : Nat × PageNumber} {page : Nat}
    (points : sys.mapped slot = some page) (mapped : next.mapped = Function.update sys.mapped slot none)
    (nodes : next.nodes = sys.nodes)
    (ref : next.frames.ref = Function.update sys.frames.ref page (sys.frames.ref page - 1))
    (sound : next.frames.Sound)
    (free : forall other, next.frames.IsFree other <->
      sys.frames.IsFree other \/ (other = page /\ sys.frames.ref page = 1)) :
    RefCounted managed next fresh := by
  have isNode : forall page, next.IsNode page <-> sys.IsNode page := fun page => by
    rw [IsNode, IsNode, nodes]
  have users : userPages managed next = userPages managed sys := by
    ext page
    exact and_congr_right fun _ => not_congr (isNode page)
  have user := exact.mappedUser slot page points
  have counted : Counted next.mapped next.frames.ref (userPages managed next) := by
    rw [mapped, ref, users]
    exact exact.counted.clear points
  have member : page ∈ userPages managed next := users ▸ ⟨user.1, user.2.1⟩
  have gone : sys.frames.ref page = 1 <-> forall candidate, next.mapped candidate ≠ some page := by
    rw [← counted.eq_zero_iff member, ref, Function.update_self]
    omega
  have reads : forall other found, next.mapped other = some found -> sys.mapped other = some found := by
    intro other found still
    rw [mapped] at still
    by_cases atSlot : other = slot
    · rw [atSlot, Function.update_self] at still
      cases still
    · rw [Function.update_of_ne atSlot] at still
      exact still
  refine ⟨counted, ?_, ?_, ?_, ?_, ?_, sound, exact.manages⟩
  · intro other found still
    have old := exact.mappedUser other found (reads other found still)
    rw [isNode, free]
    refine ⟨old.1, old.2.1, ?_⟩
    rintro (wasFree | ⟨same, last⟩)
    · exact old.2.2 wasFree
    · exact gone.mp last other (same ▸ still)
  · intro other
    rw [isNode, free]
    rintro node (wasFree | ⟨same, _⟩)
    · exact exact.nodesUsed other node wasFree
    · exact user.2.1 (same ▸ node)
  · intro other
    rw [free]
    rintro (wasFree | ⟨same, _⟩)
    · exact exact.pool other wasFree
    · exact same ▸ user.1
  · intro other inFresh
    have old := exact.freshUser other inFresh
    rw [isNode, free]
    refine ⟨old.1, old.2.1, ?_, fun candidate still => old.2.2.2 candidate (reads candidate other still)⟩
    rintro (wasFree | ⟨same, _⟩)
    · exact old.2.2.1 wasFree
    · exact old.2.2.2 slot (same ▸ points)
  · intro other inManaged
    rw [isNode, free]
    rcases exact.accounted other inManaged with inPool | node | ⟨candidate, before⟩ | unmapped
    · exact .inl (.inl inPool)
    · exact .inr (.inl node)
    · by_cases isPage : other = page
      · by_cases last : sys.frames.ref page = 1
        · exact .inl (.inr ⟨isPage, last⟩)
        · have remains := mt gone.mpr last
          push Not at remains
          exact .inr (.inr (.inl (isPage ▸ remains)))
      · refine .inr (.inr (.inl ⟨candidate, ?_⟩))
        have different : candidate ≠ slot := by
          intro equal
          rw [equal, points] at before
          exact isPage (Option.some.inj before).symm
        rw [mapped, Function.update_of_ne different]
        exact before
    · exact .inr (.inr (.inr unmapped))

/-- A page from the pool is handed to a caller. -/
theorem handOut (exact : RefCounted managed sys fresh) {page : Nat} {frames : Frames M}
    (allocated : sys.frames.allocPage = some (page, frames)) :
    RefCounted managed (sys.setFrames frames) (page :: fresh) := by
  have takes := Frames.allocPage_takes exact.sound allocated
  have wasFree := takes.wasFree
  have free := takes.free
  have unmapped : forall slot, sys.mapped slot ≠ some page :=
    fun slot points => (exact.mappedUser slot page points).2.2 wasFree
  have notNode : ¬ sys.IsNode page := fun node => exact.nodesUsed page node wasFree
  have stays : forall other, ¬ sys.frames.IsFree other -> ¬ frames.IsFree other :=
    fun other notFree isFree => notFree (takes.shrinks isFree)
  have taken := takes.taken
  refine ⟨?_, ?_, ?_, ?_, ?_, ?_, takes.sound, exact.manages⟩
  · change Counted sys.mapped frames.ref _
    rw [(Frames.allocPage_keeps allocated).1]
    exact exact.counted
  · intro slot other points
    have old := exact.mappedUser slot other points
    exact ⟨old.1, old.2.1, stays other old.2.2⟩
  · exact fun other node => stays other (exact.nodesUsed other node)
  · exact fun other isFree => exact.pool other ((free other).mp isFree).1
  · intro other member
    rcases List.mem_cons.mp member with new | old
    · exact new ▸ ⟨exact.pool page wasFree, notNode, taken, unmapped⟩
    · have user := exact.freshUser other old
      exact ⟨user.1, user.2.1, stays other user.2.2.1, user.2.2.2⟩
  · intro other member
    rcases exact.accounted other member with inPool | node | mapped | unmapped
    · by_cases isPage : other = page
      · exact .inr (.inr (.inr (List.mem_cons.mpr (.inl isPage))))
      · exact .inl ((free other).mpr ⟨inPool, isPage⟩)
    · exact .inr (.inl node)
    · exact .inr (.inr (.inl mapped))
    · exact .inr (.inr (.inr (List.mem_cons_of_mem _ unmapped)))

/-- A page that was never mapped goes back to the pool. -/
theorem giveBack (exact : RefCounted managed sys fresh) {page : Nat} (inFresh : page ∈ fresh)
    (clean : sys.frames.Clean page) : RefCounted managed (sys.setFrames (sys.frames.freePage page))
      (fresh.filter (fun other => other ≠ page)) := by
  have user := exact.freshUser page inFresh
  have freed := Frames.freePage_spec exact.sound (exact.manages page user.1) user.2.2.1 clean
  have free := freed.2
  have zero : sys.frames.ref page = 0 := (exact.counted.eq_zero_iff ⟨user.1, user.2.1⟩).mpr user.2.2.2
  refine ⟨?_, ?_, ?_, ?_, ?_, ?_, freed.1, exact.manages⟩
  · apply exact.counted.congr (fun _ member => member)
    intro other _
    change Function.update sys.frames.ref page 0 other = _
    by_cases isPage : other = page
    · rw [isPage, Function.update_self, zero]
    · rw [Function.update_of_ne isPage]
  · intro slot other points
    have old := exact.mappedUser slot other points
    refine ⟨old.1, old.2.1, fun isFree => ?_⟩
    rcases (free other).mp isFree with wasFree | same
    · exact old.2.2 wasFree
    · exact user.2.2.2 slot (same ▸ points)
  · intro other node isFree
    rcases (free other).mp isFree with wasFree | same
    · exact exact.nodesUsed other node wasFree
    · exact user.2.1 (same ▸ node)
  · intro other isFree
    rcases (free other).mp isFree with wasFree | same
    · exact exact.pool other wasFree
    · exact same ▸ user.1
  · intro other member
    have parts := List.mem_filter.mp member
    have old := exact.freshUser other parts.1
    refine ⟨old.1, old.2.1, fun isFree => ?_, old.2.2.2⟩
    rcases (free other).mp isFree with wasFree | same
    · exact old.2.2.1 wasFree
    · exact of_decide_eq_true parts.2 same
  · intro other member
    rcases exact.accounted other member with inPool | node | mapped | unmapped
    · exact .inl ((free other).mpr (.inl inPool))
    · exact .inr (.inl node)
    · exact .inr (.inr (.inl mapped))
    · by_cases isPage : other = page
      · exact .inl ((free other).mpr (.inr isPage))
      · exact .inr (.inr (.inr (List.mem_filter.mpr ⟨unmapped, decide_eq_true isPage⟩)))

end RefCounted

/-! ## The operations -/

section Operations

variable {managed : Set Nat} {sys : AddressSpaces M} {fresh : List Nat}

/-- What `page_remove_pte` does to a valid entry. -/
theorem pageRemovePte_eq {d la page : Nat} (points : sys.mapped (d, pageNumber la) = some page) :
    sys.pageRemovePte d la = (sys.setFrames (sys.frames.dropReference page)).storePte d la {} := by
  rcases mapped_eq_some.mp points with ⟨valid, ppn⟩
  rw [pageRemovePte, loadPte_eq_entry, if_pos valid, ppn]

theorem loadPte_invalid {d la : Nat} (vacant : sys.mapped (d, pageNumber la) = none) :
    (sys.loadPte d la).v = false := by
  apply Bool.eq_false_iff.mpr
  intro valid
  have points := mapped_of_valid valid
  rw [vacant] at points
  cases points

theorem pageRemovePte_of_unmapped {d la : Nat} (vacant : sys.mapped (d, pageNumber la) = none) :
    sys.pageRemovePte d la = sys := by
  rw [pageRemovePte, if_neg]
  exact Bool.eq_false_iff.mp (loadPte_invalid vacant)

theorem present_of_mapped {d la page : Nat} (points : sys.mapped (d, pageNumber la) = some page) :
    ((sys.pgdir d).find la).isSome = true :=
  present_of_valid (mapped_eq_some.mp points).1

theorem mapped_pageRemovePte (sys : AddressSpaces M) (d la : Nat) :
    (sys.pageRemovePte d la).mapped = Function.update sys.mapped (d, pageNumber la) none := by
  cases points : sys.mapped (d, pageNumber la) with
  | none => rw [pageRemovePte_of_unmapped points, Function.update_eq_self_iff.mpr points.symm]
  | some page =>
      have present : (((sys.setFrames (sys.frames.dropReference page)).pgdir d).find la).isSome = true :=
        present_of_mapped points
      rw [pageRemovePte_eq points, mapped_storePte present]
      rfl

/-- If the entry is the last one of its frame, the release of the frame is
clean. -/
def DropsCleanly (sys : AddressSpaces M) (d la : Nat) : Prop :=
  forall page, page ∈ sys.mapped (d, pageNumber la) -> sys.frames.DropsCleanly page

instance (sys : AddressSpaces M) (d la : Nat) : Decidable (sys.DropsCleanly d la) :=
  inferInstanceAs (Decidable (forall page, page ∈ sys.mapped (d, pageNumber la) -> sys.frames.DropsCleanly page))

theorem RefCounted.pageRemovePte {d la : Nat} (exact : RefCounted managed sys fresh) (clean : sys.DropsCleanly d la) :
    RefCounted managed (sys.pageRemovePte d la) fresh := by
  cases points : sys.mapped (d, pageNumber la) with
  | none =>
      rw [pageRemovePte_of_unmapped points]
      exact exact
  | some page =>
      have user := exact.mappedUser _ page points
      have dropped := Frames.dropReference_spec exact.sound (exact.manages page user.1) user.2.2 (clean page points)
      have removed := mapped_pageRemovePte sys d la
      rw [pageRemovePte_eq points] at removed ⊢
      exact exact.clear points removed (nodes_storePte _ d la {}) (Frames.dropReference_keeps _ page).1 dropped.1
        dropped.2

theorem RefCounted.unmapStep {d start : Nat} (exact : RefCounted managed sys fresh) (clean : sys.DropsCleanly d start) :
    RefCounted managed (sys.unmapStep d start).2 fresh := by
  rw [AddressSpaces.unmapStep]
  split
  · by_cases blank : sys.loadPte d start ≠ {}
    · rw [if_pos blank]
      exact exact.pageRemovePte clean
    · rw [if_neg blank]
      exact exact
  · exact exact

/-- Every turn of the loop of `unmap_range` finds its release clean. -/
def LoopsCleanly (d last : Nat) : Nat -> Nat -> AddressSpaces M -> Prop
  | 0, _, _ => True
  | fuel + 1, start, sys =>
      sys.DropsCleanly d start /\
        ((sys.unmapStep d start).1 ≠ 0 /\ (sys.unmapStep d start).1 < last ->
          LoopsCleanly d last fuel (sys.unmapStep d start).1 (sys.unmapStep d start).2)

instance decidableLoopsCleanly (d last : Nat) :
    (fuel start : Nat) -> (sys : AddressSpaces M) -> Decidable (LoopsCleanly d last fuel start sys)
  | 0, _, _ => .isTrue trivial
  | fuel + 1, start, sys =>
      have := decidableLoopsCleanly d last fuel (sys.unmapStep d start).1 (sys.unmapStep d start).2
      inferInstanceAs (Decidable (_ /\ (_ -> _)))

theorem RefCounted.unmapLoop {d last : Nat} (fuel : Nat) {start : Nat} (exact : RefCounted managed sys fresh)
    (clean : LoopsCleanly d last fuel start sys) : RefCounted managed (unmapLoop d last fuel start sys) fresh := by
  induction fuel generalizing start sys with
  | zero => exact exact
  | succ fuel inductionHypothesis =>
      rw [AddressSpaces.unmapLoop]
      split
      · rename_i more
        exact inductionHypothesis (exact.unmapStep clean.1) (clean.2 more)
      · exact exact.unmapStep clean.1

/-- The pages that the range gives back are given back cleanly, one after the
other. -/
def UnmapsCleanly (sys : AddressSpaces M) (d start last : Nat) : Prop :=
  LoopsCleanly d last (pageSteps start last) start sys

instance (sys : AddressSpaces M) (d start last : Nat) : Decidable (sys.UnmapsCleanly d start last) :=
  decidableLoopsCleanly d last _ start sys

theorem RefCounted.unmapRange {d start last : Nat} {next : AddressSpaces M}
    (exact : RefCounted managed sys fresh) (clean : sys.UnmapsCleanly d start last)
    (ran : sys.unmapRange d start last = some next) : RefCounted managed next fresh := by
  rw [AddressSpaces.unmapRange] at ran
  split at ran
  · cases ran
    exact exact.unmapLoop _ clean
  · cases ran

theorem RefCounted.pageRemove {d la : Nat} (exact : RefCounted managed sys fresh) (clean : sys.DropsCleanly d la) :
    RefCounted managed (sys.pageRemove d la) fresh := by
  rw [AddressSpaces.pageRemove]
  split
  · exact exact.pageRemovePte clean
  · exact exact

/-- If the entry is the last one of its frame, and is not stored for the same
frame again, the release of the frame is clean. -/
def ReplacesCleanly (sys : AddressSpaces M) (d page la : Nat) : Prop :=
  forall old, old ∈ sys.mapped (d, pageNumber la) -> old ≠ page -> sys.frames.DropsCleanly old

instance (sys : AddressSpaces M) (d page la : Nat) : Decidable (sys.ReplacesCleanly d page la) :=
  inferInstanceAs (Decidable (forall old, old ∈ sys.mapped (d, pageNumber la) -> old ≠ page ->
    sys.frames.DropsCleanly old))

/-- The new page is counted, the old one dropped, and the entry stored. -/
theorem RefCounted.replaceAt {d page la old : Nat} (exact : RefCounted managed sys fresh)
    (points : sys.mapped (d, pageNumber la) = some old) (different : old ≠ page)
    (user : page ∈ managed /\ ¬ sys.IsNode page /\ ¬ sys.frames.IsFree page) (clean : sys.frames.DropsCleanly old)
    (perm : Pte) :
    RefCounted managed (((sys.setFrames (sys.frames.pageRefInc page)).pageRemovePte d la).storePte d la
        { perm with ppn := page, v := true }) (fresh.filter (fun other => other ≠ page)) := by
  have present := present_of_mapped points
  have countedPoints : (sys.setFrames (sys.frames.pageRefInc page)).mapped (d, pageNumber la) = some old := points
  have oldUser := exact.mappedUser _ old points
  -- The entry is cleared in the state before and in the state after the new page is counted.
  have dropped := Frames.dropReference_spec exact.sound (exact.manages old oldUser.1) oldUser.2.2 clean
  have counted : (sys.frames.pageRefInc page).ref old = sys.frames.ref old := Function.update_of_ne different ..
  have dropsCleanly : sys.DropsCleanly d la := fun other mapped => Option.some.inj (points.symm.trans mapped) ▸ clean
  have removed := exact.pageRemovePte dropsCleanly
  have removedMapped := mapped_pageRemovePte sys d la
  have countedMapped := mapped_pageRemovePte (sys.setFrames (sys.frames.pageRefInc page)) d la
  rw [pageRemovePte_eq points] at removed removedMapped
  rw [pageRemovePte_eq countedPoints] at countedMapped ⊢
  have newUser : page ∈ managed /\ ¬ IsNode ((sys.setFrames (sys.frames.dropReference old)).storePte d la {}) page /\
      ¬ (sys.frames.dropReference old).IsFree page := by
    refine ⟨user.1, ?_, ?_⟩
    · rw [IsNode, nodes_storePte]
      exact user.2.1
    · rw [dropped.2]
      rintro (wasFree | ⟨equal, _⟩)
      · exact user.2.2 wasFree
      · exact different equal.symm
  have vacant : ((sys.setFrames (sys.frames.dropReference old)).storePte d la {}).mapped
      (d, pageNumber la) = none := by
    rw [removedMapped, Function.update_self]
  refine removed.point vacant newUser ?_ ?_ ?_ ?_
  · rw [mapped_storePte, countedMapped, removedMapped]
    · rfl
    · exact present_storePte {} present
  · rw [nodes_storePte, nodes_storePte, nodes_storePte]
    rfl
  · change ((sys.frames.pageRefInc page).dropReference old).ref = Function.update (Frames.dropReference _ old).ref
      page ((Frames.dropReference _ old).ref page + 1)
    rw [(Frames.dropReference_keeps _ old).1, (Frames.dropReference_keeps _ old).1, counted,
      Function.update_of_ne (Ne.symm different)]
    exact (Function.update_comm different _ _ _).symm
  · change ((sys.frames.pageRefInc page).dropReference old).pool = (sys.frames.dropReference old).pool
    rw [Frames.dropReference_pool, Frames.dropReference_pool, counted]
    rfl

/-- Mapping a user page through `page_insert` keeps the counts exact, whatever
the entry held before. -/
theorem RefCounted.insertAt {d page la : Nat} (exact : RefCounted managed sys fresh)
    (present : ((sys.pgdir d).find la).isSome = true)
    (user : page ∈ managed /\ ¬ sys.IsNode page /\ ¬ sys.frames.IsFree page) (clean : sys.ReplacesCleanly d page la)
    (perm : Pte) : RefCounted managed (sys.insertAt d page la perm) (fresh.filter (fun other => other ≠ page)) := by
  have stillPresent : (((sys.setFrames (sys.frames.pageRefInc page)).pgdir d).find la).isSome = true := present
  have incremented : (sys.frames.pageRefInc page).ref = Function.update sys.frames.ref page
      (sys.frames.ref page + 1) := rfl
  rw [AddressSpaces.insertAt]
  cases points : sys.mapped (d, pageNumber la) with
  | none =>
      have invalid := loadPte_invalid points
      simp only [invalid]
      refine exact.point points user ?_ (nodes_storePte _ d la _) incremented rfl
      exact mapped_storePte stillPresent _
  | some old =>
      have valid : (sys.loadPte d la).v = true := (mapped_eq_some.mp points).1
      have ppn : (sys.loadPte d la).ppn = old := (mapped_eq_some.mp points).2
      simp only [valid, if_true, ppn]
      by_cases same : old = page
      · subst same
        rw [if_pos rfl]
        have unlisted : fresh.filter (fun other => other ≠ old) = fresh := by
          rw [List.filter_eq_self]
          exact fun other member => decide_eq_true fun equal =>
            (exact.freshUser other member).2.2.2 _ (equal ▸ points)
        rw [unlisted]
        refine exact.same ?_ (nodes_storePte _ d la _) ?_ rfl
        · refine (mapped_storePte stillPresent _).trans ?_
          exact Function.update_eq_self_iff.mpr points.symm
        · change Function.update (Function.update sys.frames.ref old _) old
            (Function.update sys.frames.ref old _ old - 1) = _
          rw [Function.update_idem, Function.update_self, Int.add_sub_cancel, Function.update_eq_self]
      · rw [if_neg same]
        exact exact.replaceAt points same user (clean old points same) perm

end Operations

end AddressSpaces

end Vm
end Ucore
