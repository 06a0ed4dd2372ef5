import Ucore.Library.Run
import Ucore.Vm.DefaultManager
import Ucore.Vm.ReferenceCounts

namespace Ucore
namespace Vm

open Library

/-!
# Runs that keep the reference counts

The steps of the previous module are composed to the operations of the memory
manager, and these to runs over any set of page directories.
-/

namespace AddressSpaces

variable {M : PmmManager} {managed : Set Nat} {sys : AddressSpaces M} {fresh : List Nat}

/-- The page is one of those the counts are about, and in use. -/
def IsUser (managed : Set Nat) (sys : AddressSpaces M) (page : Nat) : Prop :=
  page ∈ managed /\ ¬ sys.IsNode page /\ ¬ sys.frames.IsFree page

theorem RefCounted.isUser_of_fresh (exact : RefCounted managed sys fresh) {page : Nat} (inFresh : page ∈ fresh) :
    IsUser managed sys page :=
  have facts := exact.freshUser page inFresh
  ⟨facts.1, facts.2.1, facts.2.2.1⟩

/-- An added node never takes a page that is in use. -/
theorem IsUser.getPte {page : Nat} (sound : sys.frames.Sound) (user : IsUser managed sys page) (d la : Nat) :
    IsUser managed (sys.getPte d la true).2 page := by
  suffices kept : (sys.getPte d la true).2.frames.Sound /\ IsUser managed (sys.getPte d la true).2 page from kept.2
  apply getPte_preserves (fun next => next.frames.Sound /\ IsUser managed next page) _ ⟨sound, user⟩
  rintro before after place ppn ⟨sound, holds⟩ adds
  have takes := adds.takes sound
  refine ⟨takes.sound, holds.1, fun node => ?_, fun free => holds.2.2 (takes.shrinks free)⟩
  rcases (adds.isNode page).mp node with old | new
  · exact holds.2.1 old
  · exact holds.2.2 (new ▸ takes.wasFree)

/-! ## Insertion -/

/-- Where the slot is mapped, `get_pte` adds nothing. -/
theorem ReplacesCleanly.getPte {d page la : Nat} (clean : sys.ReplacesCleanly d page la) :
    (sys.getPte d la true).2.ReplacesCleanly d page la := by
  intro old points
  have entry := getPte_entry sys d la d (pageNumber la)
  have before : sys.mapped (d, pageNumber la) = some old := by
    rw [← Option.mem_def.mp points]
    unfold mapped
    rw [entry]
  rw [getPte_present (present_of_mapped before)]
  exact clean old before

/-- `page_insert` of a page in use. -/
theorem RefCounted.pageInsert {d page la : Nat} (exact : RefCounted managed sys fresh)
    (user : IsUser managed sys page) (clean : sys.ReplacesCleanly d page la) (perm : Pte) :
    RefCounted managed (sys.pageInsert d page la perm).2
      (if (sys.pageInsert d page la perm).1 = none then fresh.filter (fun other => other ≠ page) else fresh) := by
  have grown := exact.getPte d la
  have stillUser := user.getPte exact.sound d la
  have stillClean := clean.getPte
  have success := getPte_success sys d la
  rw [AddressSpaces.pageInsert]
  cases result : sys.getPte d la true with
  | mk found next =>
      rw [result] at grown stillUser stillClean success
      cases found with
      | false => exact grown
      | true => exact grown.insertAt (success rfl) stillUser stillClean perm

/-- A failed `page_insert` has found the pool empty. -/
theorem pageInsert_spent {d page la : Nat} {perm : Pte} {code : Errno} {next : AddressSpaces M}
    (sound : sys.frames.Sound)
    (failed : sys.pageInsert d page la perm = (some code, next)) : M.nrFreePages next.frames.pool = 0 := by
  have grows := getPte_grows sound d la
  rw [AddressSpaces.pageInsert] at failed
  cases result : sys.getPte d la true with
  | mk found grown =>
      rw [result] at failed grows
      cases found with
      | false =>
          cases failed
          exact grows.spent rfl
      | true => cases failed

/-- In the pool that the allocation leaves, the frame that was mapped before is
given back cleanly. -/
def AllocatesCleanly (sys : AddressSpaces M) (d la : Nat) : Prop :=
  forall taken, taken ∈ sys.frames.allocPage -> (sys.setFrames taken.2).ReplacesCleanly d taken.1 la

instance (sys : AddressSpaces M) (d la : Nat) : Decidable (sys.AllocatesCleanly d la) :=
  inferInstanceAs (Decidable (forall taken, taken ∈ sys.frames.allocPage ->
    (sys.setFrames taken.2).ReplacesCleanly d taken.1 la))

theorem RefCounted.pgdirAllocPage {d la : Nat} {perm : Pte} {page : Option Nat} {next : AddressSpaces M}
    (exact : RefCounted managed sys fresh) (clean : sys.AllocatesCleanly d la)
    (ran : sys.pgdirAllocPage d la perm = some (page, next)) : RefCounted managed next fresh := by
  rw [AddressSpaces.pgdirAllocPage] at ran
  cases allocated : sys.frames.allocPage with
  | none =>
      rw [allocated] at ran
      cases ran
      exact exact
  | some result =>
      rcases result with ⟨taken, frames⟩
      rw [allocated] at ran
      have handed := exact.handOut allocated
      have head : taken ∈ taken :: fresh := List.mem_cons_self
      have user := handed.isUser_of_fresh head
      have inserted := handed.pageInsert user (clean _ allocated) perm
      have unlisted : (taken :: fresh).filter (fun other => other ≠ taken) = fresh := by
        rw [List.filter_cons_of_neg (by simp), List.filter_eq_self]
        intro other member
        refine decide_eq_true fun equal => ?_
        exact (exact.freshUser other member).2.2.1 (equal ▸ (Frames.allocPage_takes exact.sound allocated).wasFree)
      cases result : (sys.setFrames frames).pageInsert d taken la perm with
      | mk error after =>
          simp only [result] at ran inserted
          cases error with
          | some code =>
              cases ran
              rw [if_neg (Option.some_ne_none code)] at inserted
              have empty := pageInsert_spent handed.sound result
              have clean := Frames.clean_of_empty inserted.sound (exact.manages taken user.1) empty
              have returned := inserted.giveBack head clean
              rw [unlisted] at returned
              exact returned
          | none =>
              rw [if_pos rfl, unlisted] at inserted
              simp only at ran
              split at ran
              · cases ran
                exact inserted
              · cases ran

/-! ## Copying -/

theorem start_le_nextTable (start : Nat) : start <= roundDown (start + ptSize) ptSize := by
  have remainder := Nat.mod_lt (start + ptSize) (show ptSize > 0 by decide)
  rw [roundDown]
  omega

/-- The pages from `start` on that are mapped in the source are not mapped in
the destination. -/
def CopiesToVacant (sys : AddressSpaces M) (toDir fromDir start last : Nat) : Prop :=
  forall la, start <= la -> la < last -> sys.mapped (fromDir, pageNumber la) ≠ none ->
    sys.mapped (toDir, pageNumber la) = none

/-- One valid entry is copied to an empty one. -/
theorem mapped_copyPage {toDir fromDir la page : Nat} (points : sys.mapped (fromDir, pageNumber la) = some page)
    (vacant : sys.mapped (toDir, pageNumber la) = none) (present : ((sys.pgdir toDir).find la).isSome = true)
    (share : Bool) :
    (sys.copyPage toDir fromDir la share).mapped =
      Function.update sys.mapped (toDir, pageNumber la) (some page) := by
  have valid : (sys.loadPte fromDir la).v = true := (mapped_eq_some.mp points).1
  have ppn : (sys.loadPte fromDir la).ppn = page := (mapped_eq_some.mp points).2
  have different : fromDir ≠ toDir := by
    intro same
    rw [same, vacant] at points
    cases points
  have otherSlot : (fromDir, pageNumber la) ≠ (toDir, pageNumber la) :=
    fun same => different (congrArg Prod.fst same)
  rw [copyPage]
  split
  · rw [mapped_storePte, mapped_storePte]
    · simp only [valid, if_true, ppn, mapped_setFrames]
      rw [Function.update_eq_self_iff, Function.update_of_ne otherSlot]
      exact points.symm
    · exact present
    · exact present_storePte _ (present_of_mapped points)
  · rw [mapped_storePte, valid, if_pos rfl, ppn]
    · rfl
    · exact present

theorem copyPage_effect (sys : AddressSpaces M) (toDir fromDir la : Nat) (share : Bool) :
    (sys.copyPage toDir fromDir la share).nodes = sys.nodes /\
      (sys.copyPage toDir fromDir la share).frames.ref = Function.update sys.frames.ref
        (sys.loadPte fromDir la).ppn (sys.frames.ref (sys.loadPte fromDir la).ppn + 1) /\
      (sys.copyPage toDir fromDir la share).frames.pool = sys.frames.pool := by
  rw [copyPage]
  split
  · refine ⟨?_, rfl, rfl⟩
    rw [nodes_storePte, nodes_storePte]
    rfl
  · refine ⟨?_, rfl, rfl⟩
    rw [nodes_storePte]
    rfl

theorem RefCounted.copyPage {toDir fromDir la page : Nat} (exact : RefCounted managed sys fresh)
    (points : sys.mapped (fromDir, pageNumber la) = some page)
    (vacant : sys.mapped (toDir, pageNumber la) = none) (present : ((sys.pgdir toDir).find la).isSome = true)
    (share : Bool) : RefCounted managed (sys.copyPage toDir fromDir la share) fresh := by
  have ppn : (sys.loadPte fromDir la).ppn = page := (mapped_eq_some.mp points).2
  have unlisted : fresh.filter (fun other => other ≠ page) = fresh := by
    rw [List.filter_eq_self]
    exact fun other member => decide_eq_true fun equal =>
      (exact.freshUser other member).2.2.2 _ (equal ▸ points)
  rcases sys.copyPage_effect toDir fromDir la share with ⟨nodes, ref, pool⟩
  rw [ppn] at ref
  rw [← unlisted]
  exact exact.point vacant (exact.mappedUser _ page points) (mapped_copyPage points vacant present share)
    nodes ref pool

/-- One turn of the loop copies at most the page at `start`. -/
theorem RefCounted.copyStep {toDir fromDir start last : Nat} (exact : RefCounted managed sys fresh)
    (vacant : sys.CopiesToVacant toDir fromDir start last) (inRange : start < last) (bound : last <= userTop)
    (share : Bool) :
    RefCounted managed (sys.copyStep toDir fromDir start share).2 fresh /\
      forall next, (sys.copyStep toDir fromDir start share).1 = some next ->
        (sys.copyStep toDir fromDir start share).2.CopiesToVacant toDir fromDir next last := by
  rw [AddressSpaces.copyStep, getPte_lookup]
  split
  · split
    · rename_i present valid
      have points := mapped_of_valid valid
      have empty := vacant start (Nat.le_refl _) inRange (by rw [points]; exact Option.some_ne_none _)
      have grown := exact.getPte toDir start
      have success := getPte_success sys toDir start
      have kept := getPte_preserves (fun next => next.mapped = sys.mapped)
        (fun _ _ _ _ held adds => adds.mapped.trans held) rfl toDir start
      cases result : sys.getPte toDir start true with
      | mk found next =>
          rw [result] at grown success kept
          cases found with
          | false => exact ⟨grown, fun _ absurd => nomatch absurd⟩
          | true =>
              have present := success rfl
              rw [← kept] at points empty
              refine ⟨grown.copyPage points empty present share, ?_⟩
              intro after equal la low high still
              cases equal
              have otherPage : pageNumber la ≠ pageNumber start := by
                intro same
                have values := congrArg Fin.val same
                simp only [pageNumber, pgSize, userTop] at values low bound
                omega
              simp only at still ⊢
              rw [mapped_copyPage points empty present share] at still ⊢
              rw [Function.update_of_ne (fun same => otherPage (congrArg Prod.snd same))] at still ⊢
              rw [kept] at still ⊢
              exact vacant la (by omega) high still
    · exact ⟨exact, fun next equal la low high => vacant la (by cases equal; omega) high⟩
  · refine ⟨exact, fun next equal la low high => vacant la ?_ high⟩
    rw [← Option.some.inj equal] at low
    exact Nat.le_trans (start_le_nextTable start) low

theorem RefCounted.copyLoop {toDir fromDir last : Nat} (bound : last <= userTop) (share : Bool) (fuel : Nat)
    {start : Nat} (exact : RefCounted managed sys fresh)
    (vacant : sys.CopiesToVacant toDir fromDir start last) (inRange : start < last) :
    RefCounted managed (copyLoop toDir fromDir last share fuel start sys).2 fresh := by
  induction fuel generalizing start sys with
  | zero => exact exact
  | succ fuel inductionHypothesis =>
      have step := exact.copyStep vacant inRange bound share
      rw [AddressSpaces.copyLoop]
      cases result : sys.copyStep toDir fromDir start share with
      | mk found copied =>
          rw [result] at step
          cases found with
          | none => exact step.1
          | some next =>
              simp only
              split
              · rename_i more
                exact inductionHypothesis step.1 (step.2 next rfl) more.2
              · exact step.1

/-- `copy_range` to addresses where nothing is mapped. -/
theorem RefCounted.copyRange {toDir fromDir start last : Nat} {share : Bool}
    {result : Option Errno × AddressSpaces M} (exact : RefCounted managed sys fresh)
    (vacant : forall page, page ∈ pagesIn start last ->
      sys.mapped (fromDir, page) ≠ none -> sys.mapped (toDir, page) = none)
    (ran : sys.copyRange toDir fromDir start last share = some result) :
    RefCounted managed result.2 fresh := by
  rw [AddressSpaces.copyRange] at ran
  split at ran
  · rename_i checked
    rcases checked with ⟨startAligned, lastAligned, access⟩
    cases ran
    refine exact.copyLoop access.2.2 share _ (fun la low high => vacant _ ?_) access.2.1
    rw [mem_pagesIn startAligned lastAligned access.2.2]
    have bound := access.2.2
    simp only [pageNumber, pgSize, userTop] at *
    omega
  · cases ran

/-! ## Page faults -/

/-- The fault would be answered with a new page. -/
def InstallsFrame (sys : AddressSpaces M) (d : Nat) (isWrite : Bool) (addr : Nat) : Prop :=
  UserAccess addr (addr + 1) /\ Exists fun vma => vma ∈ (sys.mm d).findVma addr /\ vma.Holds addr /\
    if (sys.loadPte d addr).v = true then
      isWrite = true /\ (sys.loadPte d addr).w = false /\ vma.vmFlags.write = true /\
        sys.frames.cow (sys.loadPte d addr).ppn = true /\ 1 < sys.frames.ref (sys.loadPte d addr).ppn /\
        0 < M.nrFreePages sys.frames.pool
    else (vma.vmFlags.write = true \/ isWrite = false) /\ sys.missingNodes d addr < M.nrFreePages sys.frames.pool

instance (sys : AddressSpaces M) (d : Nat) (isWrite : Bool) (addr : Nat) :
    Decidable (sys.InstallsFrame d isWrite addr) :=
  inferInstanceAs (Decidable (_ /\ _))

/-- Storing an entry for the page that is mapped already. -/
theorem RefCounted.restore {d la : Nat} (exact : RefCounted managed sys fresh)
    (valid : (sys.loadPte d la).v = true) {pte : Pte} (stillValid : pte.v = true)
    (ppn : pte.ppn = (sys.loadPte d la).ppn) : RefCounted managed (sys.storePte d la pte) fresh := by
  refine exact.same ?_ (nodes_storePte _ _ _ _) rfl rfl
  rw [mapped_storePte (present_of_valid valid), stillValid, if_pos rfl, Function.update_eq_self_iff, ppn]
  exact (mapped_of_valid valid).symm

theorem allocPage_of_noFree {frames : Frames M} (sound : frames.Sound) (noFree : ¬ 0 < M.nrFreePages frames.pool) :
    frames.allocPage = none := by
  rw [Frames.allocPage_eq_none_iff sound]
  omega

/-- The write fault that finds the page unshared or memory exhausted. -/
theorem RefCounted.copyOnWrite {d addr : Nat} (exact : RefCounted managed sys fresh)
    (valid : (sys.loadPte d addr).v = true)
    (guard : ¬ (sys.frames.cow (sys.loadPte d addr).ppn = true /\ 1 < sys.frames.ref (sys.loadPte d addr).ppn /\
      0 < M.nrFreePages sys.frames.pool)) : RefCounted managed (sys.copyOnWrite d addr).2 fresh := by
  rw [AddressSpaces.copyOnWrite]
  split
  · split
    · rename_i cow shared
      rw [allocPage_of_noFree exact.sound (fun free => guard ⟨cow, shared, free⟩)]
      exact exact
    · have uncovered : RefCounted managed
          (sys.setFrames (sys.frames.setPageCow (sys.loadPte d addr).ppn false)) fresh :=
        exact.same rfl rfl rfl rfl
      exact uncovered.restore valid valid rfl
  · exact exact

/-- A fault that installs no new page keeps the counts exact. -/
theorem RefCounted.doPgfault {d addr : Nat} {isWrite : Bool} (exact : RefCounted managed sys fresh)
    (guard : ¬ sys.InstallsFrame d isWrite addr) : RefCounted managed (sys.doPgfault d isWrite addr).2 fresh := by
  rw [AddressSpaces.doPgfault]
  split
  · rename_i access
    have looked : RefCounted managed (sys.cacheVma d addr) fresh :=
      exact.same (mapped_cacheVma sys d addr) (nodes_cacheVma sys d addr) rfl rfl
    have loaded : (sys.cacheVma d addr).loadPte d addr = sys.loadPte d addr := entry_cacheVma ..
    have missing : (sys.cacheVma d addr).missingNodes d addr = sys.missingNodes d addr := by
      rw [missingNodes, missingNodes, pgdir_cacheVma]
    cases found : (sys.mm d).findVma addr with
    | none => exact looked
    | some vma =>
        simp only
        split
        · rename_i holds
          have refused := fun reason => guard ⟨access, vma, found, holds, reason⟩
          by_cases valid : (sys.loadPte d addr).v = true
          · have lookedValid := loaded ▸ valid
            rw [getPte_present (present_of_valid lookedValid)]
            simp only [if_pos lookedValid]
            split
            · rename_i write
              apply looked.copyOnWrite lookedValid
              rintro ⟨cow, shared, free⟩
              rw [loaded] at cow shared write
              apply refused
              rw [if_pos valid]
              exact ⟨write.1, write.2.1, write.2.2, cow, shared, free⟩
            · exact looked
          · have grown := looked.getPte d addr
            have grows := getPte_grows looked.sound d addr
            have reloaded : ((sys.cacheVma d addr).getPte d addr true).2.loadPte d addr = sys.loadPte d addr :=
              (getPte_entry _ d addr d _).trans loaded
            cases result : (sys.cacheVma d addr).getPte d addr true with
            | mk found next =>
                rw [result] at grown grows reloaded
                cases found with
                | false => exact grown
                | true =>
                    simp only [reloaded, if_neg valid]
                    split
                    · exact grown
                    · rename_i writable
                      rw [demandPage, allocPage_of_noFree grown.sound]
                      · exact grown
                      · intro free
                        apply refused
                        rw [if_neg valid]
                        have counted := grows.taken rfl
                        rw [missing] at counted
                        refine ⟨?_, ?_⟩
                        · revert writable
                          cases vma.vmFlags.write <;> cases isWrite <;> simp
                        · change _ = M.nrFreePages next.frames.pool + _ at counted
                          change 0 < M.nrFreePages next.frames.pool at free
                          have sum : M.nrFreePages sys.frames.pool = _ := counted
                          omega
        · exact looked
  · exact exact

/-! ## Booting -/

/-- Nothing is mapped yet, the free pages are not counted, and the page manager
is in order: the state after `pmm_init`. -/
structure Booted (sys : AddressSpaces M) : Prop where
  unmapped : forall slot, sys.mapped slot = none
  nodesUsed : forall page, sys.IsNode page -> ¬ sys.frames.IsFree page
  uncounted : forall page, sys.frames.IsFree page -> sys.frames.ref page = 0
  sound : sys.frames.Sound

theorem Booted.refCounted (booted : sys.Booted) : RefCounted {page | sys.frames.IsFree page} sys [] where
  counted := by
    intro page member
    have none : referrers sys.mapped page = ∅ := by
      apply Set.eq_empty_iff_forall_notMem.mpr
      intro slot points
      change sys.mapped slot = some page at points
      rw [booted.unmapped] at points
      cases points
    rw [none, Set.ncard_empty]
    exact ⟨Set.finite_empty, booted.uncounted page member.1⟩
  mappedUser := fun slot page points => by
    rw [booted.unmapped] at points
    cases points
  nodesUsed := booted.nodesUsed
  pool := fun _ free => free
  freshUser := fun _ member => by cases member
  accounted := fun _ member => .inl member
  sound := booted.sound
  manages := fun page free => M.free_manages _ page booted.sound free

/-- Every user page is counted by its entries, and is in the pool exactly when
it has none and no caller has it. -/
structure CountsExact (managed : Set Nat) (sys : AddressSpaces M) (fresh : List Nat) : Prop where
  counted : Counted sys.mapped sys.frames.ref (userPages managed sys)
  mappedUser : forall slot page, sys.mapped slot = some page -> page ∈ userPages managed sys
  pooled : forall page, page ∈ userPages managed sys ->
    (sys.frames.IsFree page <-> (forall slot, sys.mapped slot ≠ some page) /\ page ∉ fresh)

theorem RefCounted.exact (exact : RefCounted managed sys fresh) : CountsExact managed sys fresh where
  counted := exact.counted
  mappedUser := fun slot page points =>
    have user := exact.mappedUser slot page points
    ⟨user.1, user.2.1⟩
  pooled := by
    intro page member
    constructor
    · intro free
      exact ⟨fun slot points => (exact.mappedUser slot page points).2.2 free,
        fun inFresh => (exact.freshUser page inFresh).2.2.1 free⟩
    · rintro ⟨unmapped, notFresh⟩
      rcases exact.accounted page member.1 with free | node | ⟨slot, points⟩ | inFresh
      · exact free
      · exact absurd node member.2
      · exact absurd points (unmapped slot)
      · exact absurd inFresh notFresh

end AddressSpaces

/-! ## Runs -/

/-- The calls of the memory manager. -/
inductive PageAction where
  | allocPage
  | pageInsert (d page la : Nat) (perm : Pte)
  | pgdirAllocPage (d la : Nat) (perm : Pte)
  | copyRange (toDir fromDir start last : Nat) (share : Bool)
  | pgfault (d : Nat) (isWrite : Bool) (addr : Nat)
  | pageRemove (d la : Nat)
  | unmapRange (d start last : Nat)
deriving DecidableEq

/-- The address spaces, and the pages that callers have and never mapped. -/
structure PageHistory (M : PmmManager) where
  sys : AddressSpaces M
  fresh : List Nat

namespace PageHistory

variable {M : PmmManager}

def step (history : PageHistory M) : PageAction -> Option (PageHistory M)
  | .allocPage =>
      match history.sys.frames.allocPage with
      | none => some history
      | some (page, frames) => some ⟨history.sys.setFrames frames, page :: history.fresh⟩
  | .pageInsert d page la perm =>
      let inserted := history.sys.pageInsert d page la perm
      some ⟨inserted.2,
        if inserted.1 = none then history.fresh.filter (fun other => other ≠ page) else history.fresh⟩
  | .pgdirAllocPage d la perm =>
      (history.sys.pgdirAllocPage d la perm).map (fun result => ⟨result.2, history.fresh⟩)
  | .copyRange toDir fromDir start last share =>
      (history.sys.copyRange toDir fromDir start last share).map (fun result => ⟨result.2, history.fresh⟩)
  | .pgfault d isWrite addr => some ⟨(history.sys.doPgfault d isWrite addr).2, history.fresh⟩
  | .pageRemove d la => some ⟨history.sys.pageRemove d la, history.fresh⟩
  | .unmapRange d start last => (history.sys.unmapRange d start last).map (fun sys => ⟨sys, history.fresh⟩)

/-- `page_insert` is called with a page that the caller has, or that some entry
maps; it does not look whether the page is free. -/
def Called (history : PageHistory M) : PageAction -> Prop
  | .pageInsert _ page _ _ => page ∈ history.fresh \/ Exists fun slot => history.sys.mapped slot = some page
  | _ => True

/-- `page_insert` is called with a page that was never mapped. -/
def Fresh (history : PageHistory M) : PageAction -> Prop
  | .pageInsert _ page _ _ => page ∈ history.fresh
  | _ => True

instance (history : PageHistory M) : forall action, Decidable (history.Fresh action)
  | .pageInsert .. => inferInstanceAs (Decidable (_ ∈ _))
  | .allocPage | .pgfault .. | .pgdirAllocPage .. | .pageRemove .. | .unmapRange .. | .copyRange .. =>
      inferInstanceAs (Decidable True)

theorem Fresh.called {history : PageHistory M} {action : PageAction} (fresh : history.Fresh action) :
    history.Called action := by
  cases action with
  | pageInsert => exact .inl fresh
  | _ => trivial

/-- The steps that keep the counts.  No fault installs a page, since `do_pgfault`
does not count it.  Pages are copied to unmapped addresses, since `copy_range`
writes over an entry without counting it down.  A page that loses its last entry
is given back where that keeps the page manager in order. -/
def KeepsCounts (history : PageHistory M) : PageAction -> Prop
  | .allocPage => True
  | .pageInsert d page la _ => history.sys.ReplacesCleanly d page la
  | .pgdirAllocPage d la _ => history.sys.AllocatesCleanly d la
  | .copyRange toDir fromDir start last _ => forall page, page ∈ AddressSpaces.pagesIn start last ->
      history.sys.mapped (fromDir, page) ≠ none -> history.sys.mapped (toDir, page) = none
  | .pgfault d isWrite addr => ¬ history.sys.InstallsFrame d isWrite addr
  | .pageRemove d la => history.sys.DropsCleanly d la
  | .unmapRange d start last => history.sys.UnmapsCleanly d start last

instance (history : PageHistory M) : forall action, Decidable (history.KeepsCounts action)
  | .allocPage => inferInstanceAs (Decidable True)
  | .pageInsert d page la _ => inferInstanceAs (Decidable (history.sys.ReplacesCleanly d page la))
  | .pgdirAllocPage d la _ => inferInstanceAs (Decidable (history.sys.AllocatesCleanly d la))
  | .pageRemove d la => inferInstanceAs (Decidable (history.sys.DropsCleanly d la))
  | .unmapRange d start last => inferInstanceAs (Decidable (history.sys.UnmapsCleanly d start last))
  | .pgfault .. => inferInstanceAs (Decidable (¬ _))
  -- Not by running through all pages.
  | .copyRange .. => List.decidableBAll _ _

/-- The invariant of histories. -/
def WellCounted (managed : Set Nat) (history : PageHistory M) : Prop :=
  AddressSpaces.RefCounted managed history.sys history.fresh

theorem step_counted {managed : Set Nat} {history next : PageHistory M} {action : PageAction}
    (counted : history.WellCounted managed) (condition : history.Called action /\ history.KeepsCounts action)
    (stepped : history.step action = some next) : next.WellCounted managed := by
  have exact : AddressSpaces.RefCounted managed history.sys history.fresh := counted
  cases action with
  | allocPage =>
      rw [step] at stepped
      cases allocated : history.sys.frames.allocPage with
      | none =>
          rw [allocated] at stepped
          exact Option.some.inj stepped ▸ counted
      | some result =>
          rw [allocated] at stepped
          exact Option.some.inj stepped ▸ exact.handOut allocated
  | pageInsert d page la perm =>
      have user : AddressSpaces.IsUser managed history.sys page := by
        rcases condition.1 with inFresh | ⟨slot, points⟩
        · exact exact.isUser_of_fresh inFresh
        · exact exact.mappedUser slot page points
      exact Option.some.inj stepped ▸ exact.pageInsert user condition.2 perm
  | pgdirAllocPage d la perm =>
      rcases Option.map_eq_some_iff.mp stepped with ⟨result, ran, equal⟩
      exact equal ▸ exact.pgdirAllocPage condition.2 ran
  | copyRange toDir fromDir start last share =>
      rcases Option.map_eq_some_iff.mp stepped with ⟨result, ran, equal⟩
      exact equal ▸ exact.copyRange condition.2 ran
  | pgfault d isWrite addr => exact Option.some.inj stepped ▸ exact.doPgfault condition.2
  | pageRemove d la => exact Option.some.inj stepped ▸ exact.pageRemove condition.2
  | unmapRange d start last =>
      rcases Option.map_eq_some_iff.mp stepped with ⟨result, ran, equal⟩
      exact equal ▸ exact.unmapRange condition.2 ran

end PageHistory

def pageMachine (M : PmmManager) : Machine (PageHistory M) PageAction := ⟨PageHistory.step⟩

/-- The run lemma, for every page manager -/
theorem counted_run {M : PmmManager} {start : AddressSpaces M} (booted : start.Booted) {actions : List PageAction}
    (called : (pageMachine M).Along PageHistory.Called ⟨start, []⟩ actions)
    (keeps : (pageMachine M).Along PageHistory.KeepsCounts ⟨start, []⟩ actions) {last : PageHistory M}
    (ran : (pageMachine M).run ⟨start, []⟩ actions = some last) :
    AddressSpaces.CountsExact {page | start.frames.IsFree page} last.sys last.fresh := by
  have initial : PageHistory.WellCounted {page | start.frames.IsFree page} ⟨start, []⟩ := booted.refCounted
  have final := Machine.run_invariant (fun _ _ _ => PageHistory.step_counted) initial (called.and keeps) ran
  exact AddressSpaces.RefCounted.exact final

/-- From boot on, over the page manager of the kernel, a run in which no fault
installs a page, nothing is copied over a mapped address and every page is given
back below the last listed block, has exact counts in every state. -/
theorem run_keeps_counts {low n : Nat} {start : AddressSpaces (defaultPmm low n)} (booted : start.Booted)
    {actions : List PageAction}
    (called : (pageMachine (defaultPmm low n)).Along PageHistory.Called ⟨start, []⟩ actions)
    (keeps : (pageMachine (defaultPmm low n)).Along PageHistory.KeepsCounts ⟨start, []⟩ actions)
    {last : PageHistory (defaultPmm low n)}
    (ran : (pageMachine (defaultPmm low n)).run ⟨start, []⟩ actions = some last) :
    AddressSpaces.CountsExact {page | start.frames.IsFree page} last.sys last.fresh :=
  counted_run booted called keeps ran

/-! ## A demand fault -/

/-- One writable area of three pages in every address space, and ten free
pages. -/
def threePages : AddressSpaces (defaultPmm 10 10) where
  frames := ⟨bootPool 10 10, fun _ => 0, fun _ => false, fun _ _ => 0⟩
  mm := fun _ => ⟨PageDirectory.blank none, [⟨0x200000, 0x203000, { read := true, write := true }⟩], none⟩

theorem threePages_booted : threePages.Booted where
  unmapped := fun _ => rfl
  nodesUsed := by
    rintro page ⟨place, node⟩
    have blank : threePages.nodes place = none := (PageDirectory.nodeFrame_blank none place.2).trans (ite_self _)
    rw [blank] at node
    cases node
  uncounted := fun _ _ => rfl
  sound := (bootPool_sound (by decide) (by decide)).1

/-- Two pages are mapped, shared with a second address space, and unmapped
from the first; the second then writes and gives up a page. -/
def shareAndLeave : List PageAction :=
  [.pgdirAllocPage 0 0x200000 { r := true, w := true, u := true }, .allocPage,
    .pageInsert 0 13 0x201000 { r := true, u := true }, .copyRange 1 0 0x200000 0x203000 false,
    .unmapRange 0 0x200000 0x203000, .pgfault 1 true 0x200000, .pageRemove 1 0x201000]

theorem shareAndLeave_keeps_counts :
    Exists fun last => (pageMachine (defaultPmm 10 10)).run ⟨threePages, []⟩ shareAndLeave = some last /\
      AddressSpaces.CountsExact {page | threePages.frames.IsFree page} last.sys last.fresh := by
  have returns : ((pageMachine (defaultPmm 10 10)).run ⟨threePages, []⟩ shareAndLeave).isSome = true := by
    decide +kernel
  have keeps : (pageMachine (defaultPmm 10 10)).Along PageHistory.KeepsCounts ⟨threePages, []⟩ shareAndLeave := by
    decide +kernel
  have called : (pageMachine (defaultPmm 10 10)).Along PageHistory.Called ⟨threePages, []⟩ shareAndLeave := by
    have fresh : (pageMachine (defaultPmm 10 10)).Along PageHistory.Fresh ⟨threePages, []⟩ shareAndLeave := by
      decide +kernel
    exact fresh.mono fun history action => PageHistory.Fresh.called
  rcases Option.isSome_iff_exists.mp returns with ⟨last, ran⟩
  exact ⟨last, ran, run_keeps_counts threePages_booted called keeps ran⟩

/-- The page of a first access is mapped and not counted. -/
theorem demandFault_breaks_counts :
    Exists fun last => threePages.Booted /\
      (pageMachine (defaultPmm 10 10)).run ⟨threePages, []⟩ [.pgfault 0 true 0x200000] = some last /\
      ¬ AddressSpaces.CountsExact {page | threePages.frames.IsFree page} last.sys last.fresh := by
  have read : ((pageMachine (defaultPmm 10 10)).run ⟨threePages, []⟩ [.pgfault 0 true 0x200000]).map
      (fun last => (last.sys.mapped (0, pageNumber 0x200000), last.sys.frames.ref 12)) = some (some 12, 0) := by
    decide +kernel
  rcases Option.map_eq_some_iff.mp read with ⟨last, ran, facts⟩
  refine ⟨last, threePages_booted, ran, fun exact => ?_⟩
  have points : last.sys.mapped (0, pageNumber 0x200000) = some 12 := congrArg Prod.fst facts
  have uncounted : last.sys.frames.ref 12 = 0 := congrArg Prod.snd facts
  have positive := exact.counted.pos (exact.mappedUser _ _ points) points
  omega

end Vm
end Ucore
