import Ucore.Library.Paste
import Ucore.Vm.PageMap

namespace Ucore
namespace Vm

open Library

/-!
# The bytes of a user

A byte of the user lies in the frame that its page is mapped to.  The kernel
stores to a page through its own mapping, at the page's physical address, and
to user addresses through the tables that are installed.

Where no frame of an address space is mapped anywhere else, a store changes
the bytes of the user at its own addresses only.
-/

namespace Frames

variable {M : PmmManager}

/-- Store `size` bytes from `off` on in the page of a frame, and on in the
frames after it if they do not fit. -/
def storeAt (frames : Frames M) (page off size : Nat) (bytes : Nat -> UInt8) : Frames M :=
  { frames with
    content := fun frame place =>
      if place < pgSize /\ page * pgSize + off <= frame * pgSize + place /\
          frame * pgSize + place < page * pgSize + off + size then
        bytes (frame * pgSize + place - (page * pgSize + off))
      else frames.content frame place }

/-- A store that fits changes its own frame. -/
theorem content_storeAt_of_ne (frames : Frames M) {page off size frame : Nat} (fits : off + size <= pgSize)
    (other : frame ≠ page) (bytes : Nat -> UInt8) :
    (frames.storeAt page off size bytes).content frame = frames.content frame := by
  funext place
  unfold storeAt pgSize at *
  dsimp only
  rw [if_neg (by omega)]

theorem content_storeAt_self (frames : Frames M) {page off size place : Nat} (inside : place < pgSize)
    (bytes : Nat -> UInt8) : (frames.storeAt page off size bytes).content page place =
      paste off size bytes (frames.content page) place := by
  unfold storeAt
  dsimp only
  by_cases stored : off <= place /\ place < off + size
  · rw [if_pos (by omega), paste_inside stored.1 stored.2]
    congr 1
    omega
  · rw [if_neg (by omega), paste_outside (by omega)]

end Frames

namespace AddressSpaces

variable {M : PmmManager} {sys next : AddressSpaces M} {d la page : Nat} {perm : Pte}

/-- The byte at an address of the user, if its page is mapped. -/
def userByte (sys : AddressSpaces M) (d addr : Nat) : Option UInt8 :=
  if addr < userTop then (sys.mapping (d, pageNumber addr)).map (fun pte => sys.frames.content pte.ppn (addr % pgSize))
  else none

/-- The page manager is in order, and frames that are mapped are in use:
`alloc_page` hands out no frame of a process. -/
structure Used (sys : AddressSpaces M) : Prop where
  sound : sys.frames.Sound
  mapped : forall slot frame, sys.mapped slot = some frame -> ¬ sys.frames.IsFree frame

/-- No frame of the address space is mapped a second time. -/
def Private (sys : AddressSpaces M) (d : Nat) : Prop :=
  forall slot page frame, sys.mapped slot = some frame -> sys.mapped (d, page) = some frame -> slot = (d, page)

theorem mapped_eq_of_mapping {slot : Nat × PageNumber} {pte : Pte} (found : sys.mapping slot = some pte) :
    sys.mapped slot = some pte.ppn := by
  rw [mapped_eq_map, found]
  rfl

theorem userByte_eq {addr : Nat} {pte : Pte} (low : addr < userTop)
    (found : sys.mapping (d, pageNumber addr) = some pte) :
    sys.userByte d addr = some (sys.frames.content pte.ppn (addr % pgSize)) := by
  unfold userByte
  rw [if_pos low, found]
  rfl

/-- Bytes whose entries and frames stay are the same. -/
theorem userByte_congr {addr : Nat} (mapping : next.mapping (d, pageNumber addr) = sys.mapping (d, pageNumber addr))
    (content : forall pte, sys.mapping (d, pageNumber addr) = some pte ->
      next.frames.content pte.ppn (addr % pgSize) = sys.frames.content pte.ppn (addr % pgSize)) :
    next.userByte d addr = sys.userByte d addr := by
  unfold userByte
  rw [mapping]
  cases found : sys.mapping (d, pageNumber addr) with
  | none => rfl
  | some pte =>
      dsimp only [Option.map_some]
      rw [content pte found]

/-! ## A new page -/

/-- The address space has its page directory. -/
def HasTop (sys : AddressSpaces M) (e : Nat) : Prop := (sys.nodes (e, .top)).isSome = true

/-- An address space that only grows has its frames below the pool, because an
allocation takes the lowest page; one page that it gave back may lie between.
So whatever it gives back next, it gives back cleanly. -/
structure Lowest (sys : AddressSpaces M) (d : Nat) : Prop where
  manages : forall page frame, sys.mapped (d, page) = some frame -> M.Manages frame
  order : Exists fun spare => forall frame, sys.frames.IsFree frame ->
    frame = spare \/ spare < frame /\ forall page other, sys.mapped (d, page) = some other -> other < frame

/-- A page that was taken from the pool and the frames of an address space lie
below the pool. -/
structure Below (sys : AddressSpaces M) (d page : Nat) : Prop where
  taken : M.Manages page
  manages : forall number frame, sys.mapped (d, number) = some frame -> M.Manages frame
  order : forall frame, sys.frames.IsFree frame ->
    page < frame /\ forall number other, sys.mapped (d, number) = some other -> other < frame

theorem lowest_of_unmapped (unmapped : forall page, sys.mapped (d, page) = none) : sys.Lowest d where
  manages := fun page _ points => nomatch (unmapped page).symm.trans points
  order := ⟨0, fun frame _ => (Nat.eq_zero_or_pos frame).imp_right fun positive =>
    ⟨positive, fun page _ points => nomatch (unmapped page).symm.trans points⟩⟩

/-- The allocated page is the lowest one, so it is the spare page, or all frames
lie below the pool already. -/
theorem Lowest.handOut (lowest : sys.Lowest d) (sound : sys.frames.Sound) {frames : Frames M}
    (allocated : sys.frames.allocPage = some (page, frames)) : (sys.setFrames frames).Below d page := by
  have takes := Frames.allocPage_takes sound allocated
  obtain ⟨spare, order⟩ := lowest.order
  refine ⟨M.free_manages _ page sound takes.wasFree, lowest.manages, fun frame free => ?_⟩
  obtain ⟨before, other⟩ := (takes.free frame).mp free
  have least := takes.least frame before
  refine ⟨by omega, ?_⟩
  rcases order page takes.wasFree with same | ⟨higher, _⟩
  · rcases order frame before with equal | ⟨_, below⟩
    · exact absurd (equal.trans same.symm) other
    · exact below
  · rcases order frame before with equal | ⟨_, below⟩
    · omega
    · exact below

/-- Nothing is given back out of order. -/
theorem Below.clean (below : sys.Below d page) (sound : sys.frames.Sound) {number : PageNumber} {frame : Nat}
    (points : sys.mapped (d, number) = some frame) : sys.frames.Clean frame :=
  Frames.clean_lowest sound (below.manages number frame points) fun _ free => (below.order _ free).2 number frame points

/-- One page is mapped to a frame from the pool. -/
structure AddsPage (sys next : AddressSpaces M) (d la page : Nat) (perm : Pte) : Prop where
  wasFree : sys.frames.IsFree page
  sound : next.frames.Sound
  lowest : next.Lowest d
  mapping : next.mapping = Function.update sys.mapping (d, pageNumber la) (some (insertedPte page perm))
  content : next.frames.content = sys.frames.content
  areas : forall e, (next.mm e).mmapList = (sys.mm e).mmapList /\ (next.mm e).mmapCache = (sys.mm e).mmapCache
  pool : forall frame, next.frames.IsFree frame -> frame ≠ page /\
    (sys.frames.IsFree frame \/ sys.mapped (d, pageNumber la) = some frame)
  top : forall e, sys.HasTop e -> next.HasTop e

/-- What `get_pte` leaves alone: it may take frames for tables, and nothing is
mapped by it that was not. -/
structure Reserves (sys next : AddressSpaces M) : Prop where
  sound : next.frames.Sound
  mapping : next.mapping = sys.mapping
  content : next.frames.content = sys.frames.content
  areas : forall e, (next.mm e).mmapList = (sys.mm e).mmapList /\ (next.mm e).mmapCache = (sys.mm e).mmapCache
  pool : forall frame, next.frames.IsFree frame -> sys.frames.IsFree frame
  top : forall e, sys.HasTop e -> next.HasTop e

theorem reserves_getPte (sound : sys.frames.Sound) (d la : Nat) : Reserves sys (sys.getPte d la true).2 := by
  apply getPte_preserves (fun next => Reserves sys next)
  · intro middle next place ppn kept adds
    have takes := adds.takes kept.sound
    constructor
    · exact takes.sound
    · rw [← kept.mapping]
      funext slot
      unfold mapping
      rw [adds.entries]
    · exact adds.content.trans kept.content
    · exact fun e => ⟨(adds.areas e).1.trans (kept.areas e).1, (adds.areas e).2.trans (kept.areas e).2⟩
    · exact fun frame free => kept.pool frame (takes.shrinks free)
    · intro e has
      have held := kept.top e has
      unfold HasTop at held ⊢
      rw [adds.nodes, Function.update_of_ne]
      · exact held
      · rintro rfl
        rw [adds.vacant] at held
        cases held
  · exact ⟨sound, rfl, rfl, fun _ => ⟨rfl, rfl⟩, fun _ => id, fun _ => id⟩

theorem Reserves.mapped (reserves : Reserves sys next) : next.mapped = sys.mapped := by
  funext slot
  rw [mapped_eq_map, reserves.mapping]
  exact (mapped_eq_map sys slot).symm

theorem Reserves.below (reserves : Reserves sys next) (below : sys.Below d page) : next.Below d page where
  taken := below.taken
  manages := reserves.mapped ▸ below.manages
  order := fun frame free => reserves.mapped ▸ below.order frame (reserves.pool frame free)

theorem Reserves.used (reserves : Reserves sys next) (used : sys.Used) : next.Used where
  sound := reserves.sound
  mapped := fun slot frame points free => used.mapped slot frame (reserves.mapped ▸ points) (reserves.pool frame free)

theorem content_pageRemovePte (sys : AddressSpaces M) (d la : Nat) :
    (sys.pageRemovePte d la).frames.content = sys.frames.content := by
  rw [pageRemovePte]
  split
  · change (sys.frames.dropReference _).content = _
    unfold Frames.dropReference
    dsimp only
    split <;> rfl
  · rfl

theorem areas_pageRemovePte (sys : AddressSpaces M) (d la e : Nat) :
    ((sys.pageRemovePte d la).mm e).mmapList = (sys.mm e).mmapList /\
      ((sys.pageRemovePte d la).mm e).mmapCache = (sys.mm e).mmapCache := by
  rw [pageRemovePte]
  split
  · exact areas_storePte (sys.setFrames _) d la e {}
  · exact ⟨rfl, rfl⟩

theorem insertAt_keeps (sys : AddressSpaces M) (d la page : Nat) (perm : Pte) :
    (sys.insertAt d page la perm).frames.content = sys.frames.content /\
      forall e, ((sys.insertAt d page la perm).mm e).mmapList = (sys.mm e).mmapList /\
        ((sys.insertAt d page la perm).mm e).mmapCache = (sys.mm e).mmapCache := by
  unfold insertAt
  dsimp only
  split
  · split
    · exact ⟨rfl, fun e => areas_storePte _ d la e _⟩
    · refine ⟨content_pageRemovePte _ d la, fun e => ?_⟩
      have stored := areas_storePte ((sys.setFrames (sys.frames.pageRefInc page)).pageRemovePte d la) d la e
        { perm with ppn := page, v := true }
      have removed := areas_pageRemovePte (sys.setFrames (sys.frames.pageRefInc page)) d la e
      exact ⟨stored.1.trans removed.1, stored.2.trans removed.2⟩
  · exact ⟨rfl, fun e => areas_storePte _ d la e _⟩

/-- The frame that was mapped before is all that may be given back. -/
theorem insertAt_pool (used : sys.Used) (below : sys.Below d page) (la : Nat) (perm : Pte) :
    (sys.insertAt d page la perm).frames.Sound /\ forall frame, (sys.insertAt d page la perm).frames.IsFree frame ->
      sys.frames.IsFree frame \/ frame ≠ page /\ sys.mapped (d, pageNumber la) = some frame := by
  unfold insertAt
  dsimp only
  by_cases valid : (sys.loadPte d la).v = true
  · rw [if_pos valid]
    have points := mapped_of_valid valid
    split
    · exact ⟨used.sound, fun _ free => .inl free⟩
    · rename_i other
      have removed : (sys.setFrames (sys.frames.pageRefInc page)).pageRemovePte d la =
          ((sys.setFrames (sys.frames.pageRefInc page)).setFrames
            ((sys.frames.pageRefInc page).dropReference (sys.loadPte d la).ppn)).storePte d la {} := by
        rw [pageRemovePte]
        exact if_pos valid
      have counted : (sys.frames.pageRefInc page).Sound := used.sound
      have managed := below.manages _ _ points
      have unused : ¬ (sys.frames.pageRefInc page).IsFree (sys.loadPte d la).ppn := used.mapped _ _ points
      have dropped := Frames.dropReference_spec counted managed unused fun _ => below.clean used.sound points
      rw [removed]
      refine ⟨dropped.1, fun frame free => ?_⟩
      rcases (dropped.2 frame).mp free with old | ⟨same, _⟩
      · exact .inl old
      · exact .inr ⟨same ▸ other, same ▸ points⟩
  · rw [if_neg valid]
    exact ⟨used.sound, fun _ free => .inl free⟩

/-- After the insertion the frame that was mapped before is the spare page. -/
theorem Below.insertAt (below : sys.Below d page) (used : sys.Used) (present : ((sys.pgdir d).find la).isSome = true)
    (perm : Pte) : (sys.insertAt d page la perm).Lowest d := by
  have pool := (insertAt_pool used below la perm).2
  have mapped : forall number frame, (sys.insertAt d page la perm).mapped (d, number) = some frame ->
      frame = page \/ sys.mapped (d, number) = some frame := by
    intro number frame points
    rw [mapped_eq_map, mapping_insertAt present] at points
    by_cases here : ((d, number) : Nat × PageNumber) = (d, pageNumber la)
    · rw [here, Function.update_self] at points
      exact .inl (Option.some.inj points).symm
    · rw [Function.update_of_ne here, ← mapped_eq_map] at points
      exact .inr points
  constructor
  · intro number frame points
    rcases mapped number frame points with rfl | old
    · exact below.taken
    · exact below.manages number frame old
  · have above : forall frame, sys.frames.IsFree frame -> forall number other,
        (sys.insertAt d page la perm).mapped (d, number) = some other -> other < frame := by
      intro frame free number other points
      rcases mapped number other points with rfl | old
      · exact (below.order frame free).1
      · exact (below.order frame free).2 number other old
    cases points : sys.mapped (d, pageNumber la) with
    | none =>
        refine ⟨0, fun frame free => (Nat.eq_zero_or_pos frame).imp_right fun positive => ⟨positive, ?_⟩⟩
        rcases pool frame free with old | ⟨_, mapped⟩
        · exact above frame old
        · cases points.symm.trans mapped
    | some old =>
        refine ⟨old, fun frame free => ?_⟩
        rcases pool frame free with free | ⟨_, mapped⟩
        · exact .inr ⟨(below.order frame free).2 _ old points, above frame free⟩
        · exact .inl (Option.some.inj (mapped.symm.trans points))

/-- What `pgdir_alloc_page` leaves alone when it fails.  It may keep frames for
tables, so the pool can be smaller. -/
structure Refuses (sys next : AddressSpaces M) (d : Nat) : Prop where
  sound : next.frames.Sound
  lowest : next.Lowest d
  mapping : next.mapping = sys.mapping
  content : next.frames.content = sys.frames.content
  areas : forall e, (next.mm e).mmapList = (sys.mm e).mmapList /\ (next.mm e).mmapCache = (sys.mm e).mmapCache
  pool : forall frame, next.frames.IsFree frame -> sys.frames.IsFree frame
  top : forall e, sys.HasTop e -> next.HasTop e

/-- The page that could not be mapped is given back, and is the spare page. -/
theorem Below.refuses (below : sys.Below d page) (sound : sys.frames.Sound) (used : ¬ sys.frames.IsFree page) :
    (sys.setFrames (sys.frames.freePage page)).frames.Sound /\
      (sys.setFrames (sys.frames.freePage page)).Lowest d /\
      forall frame, (sys.frames.freePage page).IsFree frame <-> sys.frames.IsFree frame \/ frame = page := by
  have clean := Frames.clean_lowest sound below.taken fun frame free => (below.order frame free).1
  have freed := Frames.freePage_spec sound below.taken used clean
  refine ⟨freed.1, ⟨below.manages, page, fun frame free => ?_⟩, freed.2⟩
  rcases (freed.2 frame).mp free with old | same
  · exact .inr (below.order frame old)
  · exact .inl same

/-- What `pgdir_alloc_page` does when it returns. -/
theorem pgdirAllocPage_cases {result : Option Nat} (used : sys.Used) (lowest : sys.Lowest d)
    (ran : sys.pgdirAllocPage d la perm = some (result, next)) :
    match result with
    | some page => AddsPage sys next d la page perm
    | none => Refuses sys next d := by
  unfold pgdirAllocPage at ran
  cases allocated : sys.frames.allocPage with
  | none =>
      rw [allocated] at ran
      cases ran
      exact ⟨used.sound, lowest, rfl, rfl, fun _ => ⟨rfl, rfl⟩, fun _ => id, fun _ => id⟩
  | some taken =>
      rcases taken with ⟨page, frames⟩
      rw [allocated] at ran
      have takes := Frames.allocPage_takes used.sound allocated
      have handedUsed : (sys.setFrames frames).Used :=
        ⟨takes.sound, fun slot frame points free => used.mapped slot frame points (takes.shrinks free)⟩
      have reserves := reserves_getPte handedUsed.sound d la
      have success := getPte_success (sys.setFrames frames) d la
      unfold pageInsert at ran
      dsimp only at ran
      cases looked : (sys.setFrames frames).getPte d la true with
      | mk found grown =>
          rw [looked] at ran reserves success
          have content : grown.frames.content = sys.frames.content :=
            reserves.content.trans (Frames.allocPage_keeps allocated).2.2
          have below := reserves.below (lowest.handOut used.sound allocated)
          cases found with
          | false =>
              cases ran
              have still : ¬ grown.frames.IsFree page := fun free => takes.taken (reserves.pool page free)
              obtain ⟨sound, lowest, freed⟩ := below.refuses reserves.sound still
              refine ⟨sound, lowest, reserves.mapping, content, reserves.areas, fun frame free => ?_, reserves.top⟩
              rcases (freed frame).mp free with old | same
              · exact takes.shrinks (reserves.pool frame old)
              · exact same ▸ takes.wasFree
          | true =>
              have present := success rfl
              have mapped : grown.mapped = sys.mapped := reserves.mapped
              have stillUsed := reserves.used handedUsed
              have inserted := insertAt_keeps grown d la page perm
              have pool := insertAt_pool stillUsed below la perm
              have mapping := mapping_insertAt present page perm
              dsimp only at ran
              split at ran
              · cases ran
                rw [reserves.mapping] at mapping
                refine ⟨takes.wasFree, pool.1, below.insertAt stillUsed present perm, mapping, inserted.1.trans content,
                  fun e => ?_, fun frame free => ?_, fun e has => ?_⟩
                · exact ⟨(inserted.2 e).1.trans (reserves.areas e).1, (inserted.2 e).2.trans (reserves.areas e).2⟩
                · rcases pool.2 frame free with old | ⟨other, points⟩
                  · have was := (takes.free frame).mp (reserves.pool frame old)
                    exact ⟨was.2, .inl was.1⟩
                  · exact ⟨other, .inr (mapped ▸ points)⟩
                · unfold HasTop
                  rw [nodes_insertAt]
                  exact reserves.top e has
              · cases ran

namespace AddsPage

variable (adds : AddsPage sys next d la page perm)

include adds

theorem mapping_other {slot : Nat × PageNumber} (other : slot ≠ (d, pageNumber la)) :
    next.mapping slot = sys.mapping slot := by
  rw [adds.mapping, Function.update_of_ne other]

theorem mapping_here : next.mapping (d, pageNumber la) = some (insertedPte page perm) := by
  rw [adds.mapping, Function.update_self]

/-- The frame was not mapped before. -/
theorem alone (used : sys.Used) {slot : Nat × PageNumber} (points : next.mapped slot = some page) :
    slot = (d, pageNumber la) := by
  by_contra other
  rw [mapped_eq_map, adds.mapping_other other, ← mapped_eq_map] at points
  exact used.mapped slot page points adds.wasFree

theorem mapped_here : next.mapped (d, pageNumber la) = some page := mapped_eq_of_mapping adds.mapping_here

/-- The frame that was mapped before is mapped nowhere else. -/
theorem keepsUsed (used : sys.Used) (single : sys.Private d) : next.Used := by
  refine ⟨adds.sound, fun slot frame points free => ?_⟩
  have freed := adds.pool frame free
  by_cases here : slot = (d, pageNumber la)
  · rw [here, adds.mapped_here] at points
    exact freed.1 (Option.some.inj points).symm
  · rw [mapped_eq_map, adds.mapping_other here, ← mapped_eq_map] at points
    rcases freed.2 with old | was
    · exact used.mapped slot frame points old
    · exact here (single slot (pageNumber la) frame points was)

theorem keepsPrivate (used : sys.Used) (single : sys.Private d) : next.Private d := by
  intro slot number frame first second
  have here := adds.mapped_here
  by_cases same : slot = (d, pageNumber la)
  · rw [same, here] at first
    cases first
    rw [same, adds.alone used second]
  · by_cases too : ((d, number) : Nat × PageNumber) = (d, pageNumber la)
    · rw [too, here] at second
      cases second
      exact absurd (adds.alone used first) same
    · rw [mapped_eq_map, adds.mapping_other same, ← mapped_eq_map] at first
      rw [mapped_eq_map, adds.mapping_other too, ← mapped_eq_map] at second
      exact single slot number frame first second

end AddsPage

/-! ## Stores -/

/-- A store to a page. -/
def storePage (sys : AddressSpaces M) (page off size : Nat) (bytes : Nat -> UInt8) : AddressSpaces M :=
  sys.setFrames (sys.frames.storeAt page off size bytes)

/-- Two addresses below the top with one page number lie in one page. -/
theorem pageNumber_eq_iff {addr other : Nat} (low : addr < userTop) (below : other < userTop) :
    pageNumber addr = pageNumber other <-> addr / pgSize = other / pgSize := by
  unfold pageNumber
  rw [Fin.mk.injEq]
  unfold userTop pgSize at *
  omega

/-- A store that fits in the frame of a page changes the bytes of the user from
its place on. -/
theorem userByte_storePage (single : sys.Private d) {pte : Pte} (found : sys.mapping (d, pageNumber la) = some pte)
    (aligned : la % pgSize = 0) (top : la < userTop) {off size : Nat} (fits : off + size <= pgSize)
    (bytes : Nat -> UInt8) (addr : Nat) :
    (sys.storePage pte.ppn off size bytes).userByte d addr =
      if la + off <= addr /\ addr < la + off + size then some (bytes (addr - (la + off))) else sys.userByte d addr := by
  have top_page : userTop % pgSize = 0 := by decide
  by_cases same : addr / pgSize = la / pgSize
  · have low : addr < userTop := by
      unfold pgSize at *
      omega
    have number : pageNumber addr = pageNumber la := (pageNumber_eq_iff low top).mpr same
    have entry : sys.mapping (d, pageNumber addr) = some pte := number ▸ found
    have after : (sys.storePage pte.ppn off size bytes).mapping (d, pageNumber addr) = some pte := entry
    rw [userByte_eq low after, userByte_eq low entry]
    have place : addr % pgSize < pgSize := Nat.mod_lt _ (by decide)
    change some ((sys.frames.storeAt pte.ppn off size bytes).content pte.ppn (addr % pgSize)) = _
    rw [Frames.content_storeAt_self _ place]
    have offset : addr = la + addr % pgSize := by
      unfold pgSize at *
      omega
    by_cases stored : la + off <= addr /\ addr < la + off + size
    · rw [if_pos stored, paste_inside (by omega) (by omega)]
      congr 2
      omega
    · rw [if_neg stored, paste_outside (by omega)]
  · rw [if_neg (by unfold pgSize at *; omega)]
    unfold userByte
    by_cases low : addr < userTop
    · rw [if_pos low, if_pos low]
      change (sys.mapping (d, pageNumber addr)).map _ = _
      cases entry : sys.mapping (d, pageNumber addr) with
      | none => rfl
      | some other =>
          have different : other.ppn ≠ pte.ppn := by
            intro equal
            have first := mapped_eq_of_mapping entry
            rw [equal] at first
            have slots := single _ _ _ first (mapped_eq_of_mapping found)
            exact same ((pageNumber_eq_iff low top).mp (Prod.mk.inj slots).2)
          change some ((sys.frames.storeAt pte.ppn off size bytes).content other.ppn (addr % pgSize)) = _
          rw [Frames.content_storeAt_of_ne _ fits different]
          rfl
    · rw [if_neg low, if_neg low]

end AddressSpaces

end Vm
end Ucore
