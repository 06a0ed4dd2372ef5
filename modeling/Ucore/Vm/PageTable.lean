import Mathlib.Algebra.Group.Nat.Defs
import Mathlib.Logic.Function.Basic
import Mathlib.Data.Fin.Basic

namespace Ucore
namespace Vm

/-!
# Three-level page tables

The user half of an Sv39 address space is a tree: the page directory, the
page directories of level zero, and the page tables.  Every node carries the
number of the frame it lives in.  The kernel half is shared by all
directories and no user address reaches it.

A tree is read through its *pages*: every page number has an entry, which is
zero where a node is missing.  A new node is all zero, so building nodes
leaves this view alone.
-/

/-- `PGSIZE`, `PTSIZE` and `PDSIZE` -/
def pgSize : Nat := 2 ^ 12

def ptSize : Nat := 2 ^ 21

def pdSize : Nat := 2 ^ 30

def pdx1 (la : Nat) : Nat := la / pdSize % 512

def pdx0 (la : Nat) : Nat := la / ptSize % 512

def ptx (la : Nat) : Nat := la / pgSize % 512

def roundDown (value size : Nat) : Nat := value - value % size

/-- A page table entry: the frame and the bits `V`, `R`, `W`, `X` and `U`. -/
structure Pte where
  ppn : Nat := 0
  v : Bool := false
  r : Bool := false
  w : Bool := false
  x : Bool := false
  u : Bool := false
deriving DecidableEq, Repr

structure PageTable where
  ppn : Nat
  entry : Nat -> Pte

structure PageDirectory0 where
  ppn : Nat
  entry : Nat -> Option PageTable

/-- The frame of the top node is `none` before `setup_pgdir`. -/
structure PageDirectory where
  ppn : Option Nat
  entry : Nat -> Option PageDirectory0

/-- The page of a linear address, as far as the tables tell addresses apart. -/
abbrev PageNumber := Fin (2 ^ 27)

def pageNumber (la : Nat) : PageNumber := ⟨la / pgSize % 2 ^ 27, Nat.mod_lt _ (by decide)⟩

namespace PageDirectory

/-- No nodes below the top. -/
def blank (ppn : Option Nat) : PageDirectory := ⟨ppn, fun _ => none⟩

/-- Where `get_pte` finds an entry, when all nodes on the way exist. -/
def find (pgdir : PageDirectory) (la : Nat) : Option Pte :=
  (pgdir.entry (pdx1 la)).bind (fun directory =>
    (directory.entry (pdx0 la)).map (fun table => table.entry (ptx la)))

/-- The entry of a page, zero where a node is missing. -/
def pte (pgdir : PageDirectory) (page : PageNumber) : Pte := (pgdir.find (page.val * pgSize)).getD {}

/-- Store through the pointer that `get_pte` returned. -/
def setPte (pgdir : PageDirectory) (la : Nat) (value : Pte) : PageDirectory :=
  match pgdir.entry (pdx1 la) with
  | none => pgdir
  | some directory =>
      match directory.entry (pdx0 la) with
      | none => pgdir
      | some table =>
          let newTable := { table with entry := Function.update table.entry (ptx la) value }
          let newDirectory := { directory with entry := Function.update directory.entry (pdx0 la) (some newTable) }
          { pgdir with entry := Function.update pgdir.entry (pdx1 la) (some newDirectory) }

/-- Hang an empty node of level zero below the top. -/
def addDirectory0 (pgdir : PageDirectory) (la ppn : Nat) : PageDirectory :=
  { pgdir with entry := Function.update pgdir.entry (pdx1 la) (some ⟨ppn, fun _ => none⟩) }

/-- Hang an empty page table below a node of level zero. -/
def addTable (pgdir : PageDirectory) (la ppn : Nat) : PageDirectory :=
  match pgdir.entry (pdx1 la) with
  | none => pgdir
  | some directory =>
      let newDirectory :=
        { directory with entry := Function.update directory.entry (pdx0 la) (some ⟨ppn, fun _ => {}⟩) }
      { pgdir with entry := Function.update pgdir.entry (pdx1 la) (some newDirectory) }

/-- Clear the entry of a node of level zero. -/
def removeTable (pgdir : PageDirectory) (la1 la0 : Nat) : PageDirectory :=
  match pgdir.entry (pdx1 la1) with
  | none => pgdir
  | some directory =>
      let newDirectory := { directory with entry := Function.update directory.entry (pdx0 la0) none }
      { pgdir with entry := Function.update pgdir.entry (pdx1 la1) (some newDirectory) }

/-- Clear the entry of the top node. -/
def removeDirectory0 (pgdir : PageDirectory) (la : Nat) : PageDirectory :=
  { pgdir with entry := Function.update pgdir.entry (pdx1 la) none }

/-! ## Addresses and pages -/

theorem pdx1_pageNumber (la : Nat) : pdx1 ((pageNumber la).val * pgSize) = pdx1 la := by
  simp only [pdx1, pageNumber, pgSize, pdSize]
  omega

theorem pdx0_pageNumber (la : Nat) : pdx0 ((pageNumber la).val * pgSize) = pdx0 la := by
  simp only [pdx0, pageNumber, pgSize, ptSize]
  omega

theorem ptx_pageNumber (la : Nat) : ptx ((pageNumber la).val * pgSize) = ptx la := by
  simp only [ptx, pageNumber, pgSize]
  omega

/-- The three indices determine the page. -/
theorem page_eq_of_indices {first second : PageNumber}
    (same1 : pdx1 (first.val * pgSize) = pdx1 (second.val * pgSize))
    (same0 : pdx0 (first.val * pgSize) = pdx0 (second.val * pgSize))
    (same : ptx (first.val * pgSize) = ptx (second.val * pgSize)) : first = second := by
  have firstLt := first.isLt
  have secondLt := second.isLt
  simp only [pdx1, pdx0, ptx, pgSize, ptSize, pdSize] at same1 same0 same
  apply Fin.ext
  omega

theorem pageNumber_page (page : PageNumber) : pageNumber (page.val * pgSize) = page := by
  have bound := page.isLt
  apply Fin.ext
  simp only [pageNumber, pgSize]
  omega

theorem find_pageNumber (pgdir : PageDirectory) (la : Nat) :
    pgdir.find ((pageNumber la).val * pgSize) = pgdir.find la := by
  rw [find, find, pdx1_pageNumber, pdx0_pageNumber, ptx_pageNumber]

/-! ## The view under the edits -/

theorem pte_eq (pgdir : PageDirectory) (page : PageNumber) :
    pgdir.pte page = ((pgdir.entry (pdx1 (page.val * pgSize))).bind (fun directory =>
      (directory.entry (pdx0 (page.val * pgSize))).map
        (fun table => table.entry (ptx (page.val * pgSize))))).getD {} := rfl

theorem pte_blank (ppn : Option Nat) (page : PageNumber) : (blank ppn).pte page = {} := rfl

theorem find_isSome {pgdir : PageDirectory} {la : Nat} (present : (pgdir.find la).isSome = true) :
    Exists fun directory => Exists fun table => pgdir.entry (pdx1 la) = some directory /\
      directory.entry (pdx0 la) = some table := by
  rw [find] at present
  cases first : pgdir.entry (pdx1 la) with
  | none =>
      rw [first] at present
      cases present
  | some directory =>
      cases second : directory.entry (pdx0 la) with
      | none =>
          rw [first, Option.bind_some, second] at present
          cases present
      | some table => exact ⟨directory, table, rfl, second⟩

/-- Storing an entry changes the view at its page only. -/
theorem pte_setPte {pgdir : PageDirectory} {la : Nat} (present : (pgdir.find la).isSome = true) (value : Pte)
    (page : PageNumber) :
    (pgdir.setPte la value).pte page = if page = pageNumber la then value else pgdir.pte page := by
  rcases find_isSome present with ⟨directory, table, first, second⟩
  rw [setPte, first]
  simp only [second]
  rw [pte_eq, pte_eq]
  simp only [Function.update_apply]
  by_cases same : page = pageNumber la
  · subst same
    rw [pdx1_pageNumber, pdx0_pageNumber, ptx_pageNumber]
    simp
  · rw [if_neg same]
    by_cases same1 : pdx1 (page.val * pgSize) = pdx1 la
    · rw [if_pos same1, same1, first]
      by_cases same0 : pdx0 (page.val * pgSize) = pdx0 la
      · have different : ptx (page.val * pgSize) ≠ ptx la := by
          intro equal
          apply same
          apply page_eq_of_indices
          · rw [same1, pdx1_pageNumber]
          · rw [same0, pdx0_pageNumber]
          · rw [equal, ptx_pageNumber]
        simp only [Option.bind_some, same0, if_true, second, Option.map_some, Function.update_apply,
          if_neg different]
      · simp only [Option.bind_some]
        rw [Function.update_of_ne same0]
    · rw [if_neg same1]

theorem find_setPte_isSome (pgdir : PageDirectory) (la : Nat) (value : Pte) (other : Nat)
    (present : (pgdir.find other).isSome = true) : ((pgdir.setPte la value).find other).isSome = true := by
  rw [setPte]
  cases first : pgdir.entry (pdx1 la) with
  | none => exact present
  | some directory =>
      cases second : directory.entry (pdx0 la) with
      | none =>
          simp only
          rw [second]
          exact present
      | some table =>
          simp only [second]
          rcases find_isSome present with ⟨otherDirectory, otherTable, otherFirst, otherSecond⟩
          rw [find]
          simp only [Function.update_apply]
          by_cases same1 : pdx1 other = pdx1 la
          · rw [same1, first] at otherFirst
            cases otherFirst
            rw [if_pos same1, Option.bind_some]
            simp only [Function.update_apply]
            by_cases same0 : pdx0 other = pdx0 la
            · rw [if_pos same0]
              rfl
            · rw [if_neg same0, otherSecond]
              rfl
          · rw [if_neg same1, otherFirst, Option.bind_some, otherSecond]
            rfl

theorem pte_addDirectory0 {pgdir : PageDirectory} {la : Nat} (missing : pgdir.entry (pdx1 la) = none)
    (ppn : Nat) (page : PageNumber) : (pgdir.addDirectory0 la ppn).pte page = pgdir.pte page := by
  rw [pte_eq, pte_eq, addDirectory0]
  simp only [Function.update_apply]
  by_cases same : pdx1 (page.val * pgSize) = pdx1 la
  · rw [if_pos same, same, missing]
    rfl
  · rw [if_neg same]

theorem pte_addTable {pgdir : PageDirectory} {la : Nat} {directory : PageDirectory0}
    (present : pgdir.entry (pdx1 la) = some directory) (missing : directory.entry (pdx0 la) = none)
    (ppn : Nat) (page : PageNumber) : (pgdir.addTable la ppn).pte page = pgdir.pte page := by
  rw [pte_eq, pte_eq, addTable, present]
  simp only [Function.update_apply]
  by_cases same1 : pdx1 (page.val * pgSize) = pdx1 la
  · rw [if_pos same1, same1, present, Option.bind_some, Option.bind_some]
    simp only [Function.update_apply]
    by_cases same0 : pdx0 (page.val * pgSize) = pdx0 la
    · rw [if_pos same0, same0, missing]
      rfl
    · rw [if_neg same0]
  · rw [if_neg same1]

/-- Where `get_pte` finds nothing, no page with the same two upper indices has
an entry. -/
theorem pte_of_find_none {pgdir : PageDirectory} {la : Nat} (missing : pgdir.find la = none)
    {page : PageNumber} (same1 : pdx1 (page.val * pgSize) = pdx1 la)
    (same0 : pdx0 (page.val * pgSize) = pdx0 la) : pgdir.pte page = {} := by
  rw [pte_eq, same1, same0]
  rw [find] at missing
  cases first : pgdir.entry (pdx1 la) with
  | none => rfl
  | some directory =>
      cases second : directory.entry (pdx0 la) with
      | none =>
          rw [Option.bind_some, second]
          rfl
      | some table =>
          rw [first, Option.bind_some, second] at missing
          cases missing

/-! ## Frames of the nodes -/

/-- A node of a tree. -/
inductive Node where
  | top
  | directory0 (index1 : Nat)
  | table (index1 index0 : Nat)
deriving DecidableEq, Repr

/-- The frame a node lives in. -/
def nodeFrame (pgdir : PageDirectory) : Node -> Option Nat
  | .top => pgdir.ppn
  | .directory0 index1 => (pgdir.entry index1).map PageDirectory0.ppn
  | .table index1 index0 =>
      (pgdir.entry index1).bind (fun directory => (directory.entry index0).map PageTable.ppn)

theorem nodeFrame_blank (ppn : Option Nat) (node : Node) :
    (blank ppn).nodeFrame node = if node = .top then ppn else none := by
  cases node <;> rfl

theorem nodeFrame_setPte (pgdir : PageDirectory) (la : Nat) (value : Pte) (node : Node) :
    (pgdir.setPte la value).nodeFrame node = pgdir.nodeFrame node := by
  rw [setPte]
  cases first : pgdir.entry (pdx1 la) with
  | none => rfl
  | some directory =>
      cases second : directory.entry (pdx0 la) with
      | none =>
          simp only
          rw [second]
      | some table =>
          simp only [second]
          cases node with
          | top => rfl
          | directory0 index1 =>
              simp only [nodeFrame, Function.update_apply]
              by_cases same1 : index1 = pdx1 la
              · rw [if_pos same1, same1, first]
                rfl
              · rw [if_neg same1]
          | table index1 index0 =>
              simp only [nodeFrame, Function.update_apply]
              by_cases same1 : index1 = pdx1 la
              · rw [if_pos same1, same1, first, Option.bind_some, Option.bind_some]
                simp only [Function.update_apply]
                by_cases same0 : index0 = pdx0 la
                · rw [if_pos same0, same0, second]
                  rfl
                · rw [if_neg same0]
              · rw [if_neg same1]

theorem nodeFrame_addDirectory0 {pgdir : PageDirectory} {la : Nat} (missing : pgdir.entry (pdx1 la) = none)
    (ppn : Nat) : (pgdir.addDirectory0 la ppn).nodeFrame =
      Function.update pgdir.nodeFrame (.directory0 (pdx1 la)) (some ppn) := by
  funext node
  cases node with
  | top => rfl
  | directory0 index1 =>
      simp only [nodeFrame, addDirectory0, Function.update_apply, Node.directory0.injEq]
      by_cases same1 : index1 = pdx1 la
      · rw [if_pos same1, if_pos same1]
        rfl
      · rw [if_neg same1, if_neg same1]
  | table index1 index0 =>
      simp only [nodeFrame, addDirectory0, Function.update_apply, reduceCtorEq, if_false]
      by_cases same1 : index1 = pdx1 la
      · rw [if_pos same1, same1, missing]
        rfl
      · rw [if_neg same1]

theorem nodeFrame_addTable {pgdir : PageDirectory} {la : Nat} {directory : PageDirectory0}
    (present : pgdir.entry (pdx1 la) = some directory) (ppn : Nat) :
    (pgdir.addTable la ppn).nodeFrame =
      Function.update pgdir.nodeFrame (.table (pdx1 la) (pdx0 la)) (some ppn) := by
  rw [addTable, present]
  funext node
  cases node with
  | top => rfl
  | directory0 index1 =>
      simp only [nodeFrame, Function.update_apply, reduceCtorEq, if_false]
      by_cases same1 : index1 = pdx1 la
      · rw [if_pos same1, same1, present]
        rfl
      · rw [if_neg same1]
  | table index1 index0 =>
      simp only [nodeFrame, Function.update_apply, Node.table.injEq]
      by_cases same1 : index1 = pdx1 la
      · rw [if_pos same1, same1, present, Option.bind_some, Option.bind_some]
        simp only [Function.update_apply, true_and]
        by_cases same0 : index0 = pdx0 la
        · rw [if_pos same0, if_pos same0]
          rfl
        · rw [if_neg same0, if_neg same0]
      · rw [if_neg same1, if_neg (fun both => same1 both.1)]

end PageDirectory

end Vm
end Ucore
