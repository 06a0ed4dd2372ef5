import Ucore.Exec.Steady

namespace Ucore
namespace Exec

open Library
open Program
open Vm

/-!
# Cleaning up

The labels at the end undo what was made, the newest first.  From an address
space in order none of their assertions fails: the areas are ranges of whole
user pages, the page directory is still there, and the address space is not in
use.
-/

variable {M : PmmManager} {File : Type} {d : Nat}

/-! ## Emptying the tables -/

/-- The page directory lies in the same frame. -/
def SameTop (d : Nat) (before after : AddressSpaces M) : Prop := (after.pgdir d).ppn = (before.pgdir d).ppn

/-- What one turn of the inner loop of `exit_range` does -/
def tableStep (d d1start d0start : Nat) (freePd0 : Bool) (sys : AddressSpaces M) : Bool × AddressSpaces M :=
  match ((sys.pgdir d).entry (pdx1 d1start)).bind (fun directory => directory.entry (pdx0 d0start)) with
  | none => (false, sys)
  | some table =>
      if AddressSpaces.tableUnused table = true then
        (freePd0, (sys.setFrames (sys.frames.freePage table.ppn)).setPgdir d
          ((sys.pgdir d).removeTable d1start d0start))
      else (freePd0, sys)

theorem exitTables_succ (d1start last fuel d0start : Nat) (freePd0 : Bool) (sys : AddressSpaces M) :
    AddressSpaces.exitTables d d1start last (fuel + 1) d0start freePd0 sys =
      if d0start + ptSize ≠ 0 /\ d0start + ptSize < d1start + pdSize /\ d0start + ptSize < last then
        AddressSpaces.exitTables d d1start last fuel (d0start + ptSize) (tableStep d d1start d0start freePd0 sys).1
          (tableStep d d1start d0start freePd0 sys).2
      else tableStep d d1start d0start freePd0 sys := rfl

/-- What one turn of the outer loop does, with the turns of the inner one -/
def directoryStep (d last turns d1start d0start : Nat) (sys : AddressSpaces M) : AddressSpaces M :=
  match (sys.pgdir d).entry (pdx1 d1start) with
  | none => sys
  | some directory =>
      let tables := AddressSpaces.exitTables d d1start last turns d0start true sys
      if tables.1 = true then
        (tables.2.setFrames (tables.2.frames.freePage directory.ppn)).setPgdir d
          ((tables.2.pgdir d).removeDirectory0 d1start)
      else tables.2

theorem exitDirectories_succ (last fuel d1start d0start : Nat) (sys : AddressSpaces M) :
    AddressSpaces.exitDirectories d last (fuel + 1) d1start d0start sys =
      if d1start + pdSize ≠ 0 /\ d1start + pdSize < last then
        AddressSpaces.exitDirectories d last fuel (d1start + pdSize) (d1start + pdSize)
          (directoryStep d last 512 d1start d0start sys)
      else directoryStep d last 512 d1start d0start sys := rfl

namespace SameTop

variable {sys middle after : AddressSpaces M}

theorem trans (first : SameTop d sys middle) (second : SameTop d middle after) : SameTop d sys after :=
  Eq.trans second first

theorem of_nodes (same : after.nodes = sys.nodes) : SameTop d sys after := congrFun same (d, .top)

theorem setPgdir (frames : Frames M) {pgdir : PageDirectory} (ppn : pgdir.ppn = (sys.pgdir d).ppn) :
    SameTop d sys ((sys.setFrames frames).setPgdir d pgdir) := by
  unfold SameTop
  rw [AddressSpaces.pgdir_setPgdir, ppn]

theorem unmapLoop (last fuel start : Nat) (sys : AddressSpaces M) :
    SameTop d sys (AddressSpaces.unmapLoop d last fuel start sys) := by
  induction fuel generalizing start sys with
  | zero => exact rfl
  | succ fuel inductionHypothesis =>
      have turn : SameTop d sys (sys.unmapStep d start).2 := by
        unfold AddressSpaces.unmapStep
        split
        · dsimp only
          split
          · exact of_nodes (AddressSpaces.nodes_pageRemovePte sys d start)
          · exact rfl
        · exact rfl
      unfold AddressSpaces.unmapLoop
      dsimp only
      split
      · exact turn.trans (inductionHypothesis _ _)
      · exact turn

theorem tableStep (d1start d0start : Nat) (freePd0 : Bool) (sys : AddressSpaces M) :
    SameTop d sys (Exec.tableStep d d1start d0start freePd0 sys).2 := by
  unfold Exec.tableStep
  split
  · exact rfl
  · split
    · apply setPgdir
      unfold PageDirectory.removeTable
      split <;> rfl
    · exact rfl

theorem exitTables (d1start last fuel d0start : Nat) (freePd0 : Bool) (sys : AddressSpaces M) :
    SameTop d sys (AddressSpaces.exitTables d d1start last fuel d0start freePd0 sys).2 := by
  induction fuel generalizing d0start freePd0 sys with
  | zero => exact rfl
  | succ fuel inductionHypothesis =>
      have turn : SameTop d sys (Exec.tableStep d d1start d0start freePd0 sys).2 := tableStep _ _ _ _
      rw [exitTables_succ]
      split
      · exact turn.trans (inductionHypothesis _ _ _)
      · exact turn

theorem directoryStep (last turns d1start d0start : Nat) (sys : AddressSpaces M) :
    SameTop d sys (Exec.directoryStep d last turns d1start d0start sys) := by
  unfold Exec.directoryStep
  split
  · exact rfl
  · have tables : SameTop d sys (AddressSpaces.exitTables d d1start last turns d0start true sys).2 :=
      exitTables _ _ _ _ _ _
    dsimp only
    generalize AddressSpaces.exitTables d d1start last turns d0start true sys = result at tables ⊢
    split
    · exact tables.trans (setPgdir _ rfl)
    · exact tables

theorem exitDirectories (last fuel d1start d0start : Nat) (sys : AddressSpaces M) :
    SameTop d sys (AddressSpaces.exitDirectories d last fuel d1start d0start sys) := by
  induction fuel generalizing d1start d0start sys with
  | zero => exact rfl
  | succ fuel inductionHypothesis =>
      have turn : SameTop d sys (Exec.directoryStep d last 512 d1start d0start sys) := directoryStep _ _ _ _ _
      rw [exitDirectories_succ]
      split
      · exact turn.trans (inductionHypothesis _ _ _)
      · exact turn

end SameTop

/-- A loop over areas that the body accepts -/
theorem forAreas_returns {body : AddressSpaces M -> Nat -> Nat -> Option (AddressSpaces M)} {list : List Vma}
    (returns : forall vma, vma ∈ list -> forall sys, Exists fun next =>
      body sys vma.vmStart vma.vmEnd = some next /\ SameTop d sys next) (sys : AddressSpaces M) :
    Exists fun next => AddressSpaces.forAreas body list sys = some next /\ SameTop d sys next := by
  induction list generalizing sys with
  | nil => exact ⟨sys, rfl, rfl⟩
  | cons vma rest inductionHypothesis =>
      obtain ⟨middle, first, same⟩ := returns vma (List.mem_cons_self ..) sys
      obtain ⟨next, others, still⟩ :=
        inductionHypothesis (fun other member => returns other (List.mem_cons_of_mem _ member)) middle
      refine ⟨next, ?_, same.trans still⟩
      unfold AddressSpaces.forAreas
      rw [first, Option.bind_some]
      exact others

theorem Steady.exitMmap {sys : AddressSpaces M} (steady : Steady d sys) :
    Exists fun next => sys.exitMmap d = some next /\ SameTop d sys next := by
  have unmaps : forall vma, vma ∈ (sys.mm d).mmapList -> forall middle : AddressSpaces M, Exists fun next =>
      middle.unmapRange d vma.vmStart vma.vmEnd = some next /\ SameTop d middle next := by
    intro vma member middle
    refine ⟨AddressSpaces.unmapLoop d vma.vmEnd (AddressSpaces.pageSteps vma.vmStart vma.vmEnd) vma.vmStart middle, ?_,
      .unmapLoop _ _ _ _⟩
    unfold AddressSpaces.unmapRange
    rw [if_pos (steady.user vma member)]
  have exits : forall vma, vma ∈ (sys.mm d).mmapList -> forall middle : AddressSpaces M, Exists fun next =>
      middle.exitRange d vma.vmStart vma.vmEnd = some next /\ SameTop d middle next := by
    intro vma member middle
    refine ⟨AddressSpaces.exitDirectories d vma.vmEnd (vma.vmEnd / pdSize + 1) (roundDown vma.vmStart pdSize)
      (roundDown vma.vmStart ptSize) middle, ?_, .exitDirectories _ _ _ _ _⟩
    unfold AddressSpaces.exitRange
    rw [if_pos (steady.user vma member)]
  obtain ⟨middle, unmapped, same⟩ := forAreas_returns unmaps sys
  obtain ⟨next, emptied, still⟩ := forAreas_returns exits middle
  refine ⟨next, ?_, same.trans still⟩
  unfold AddressSpaces.exitMmap
  rw [unmapped, Option.bind_some]
  exact emptied

/-! ## The labels -/

section Labels

variable {loader : Loader M File}

theorem exitMmap_meets (steady : Steady d loader.sys) (idle : loader.mmCount = 0) :
    Meets (exitMmap d) loader
      ⟨fun _ after => after.sys.HasTop d /\ after.mmCount = 0 /\ after.events = loader.events, fun _ _ => False,
        fun _ => False⟩ := by
  obtain ⟨next, ran, same⟩ := steady.exitMmap
  unfold exitMmap
  rw [meets_bind, meets_get]
  dsimp only
  rw [meets_bind, meets_assert]
  refine ⟨fun _ => ?_, fun busy => busy idle⟩
  rw [ran]
  refine ⟨?_, idle, rfl⟩
  have top := steady.top
  unfold AddressSpaces.HasTop at top ⊢
  change ((next.pgdir d).ppn).isSome = true
  rw [same]
  exact top

theorem putPgdir_meets (top : loader.sys.HasTop d) (idle : loader.mmCount = 0) :
    Meets (putPgdir d) loader
      ⟨fun _ after => after.mmCount = 0 /\ after.events = loader.events, fun _ _ => False, fun _ => False⟩ := by
  obtain ⟨page, found⟩ := Option.isSome_iff_exists.mp top
  unfold putPgdir
  rw [meets_bind, meets_get]
  change Meets (freeTop (loader.sys.nodes (d, .top))) loader _
  rw [found]
  exact ⟨idle, rfl⟩

theorem mmDestroy_meets (idle : loader.mmCount = 0) :
    Meets (mmDestroy d) loader ⟨fun _ after => after.events = loader.events, fun _ _ => False, fun _ => False⟩ := by
  unfold mmDestroy
  rw [meets_bind, meets_get]
  dsimp only
  rw [meets_bind, meets_assert]
  exact ⟨fun _ => rfl, fun busy => busy idle⟩

end Labels

end Exec
end Ucore
