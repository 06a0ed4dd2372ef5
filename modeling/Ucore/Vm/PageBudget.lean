import Mathlib.Data.Finset.Card
import Mathlib.Data.Finset.Image
import Ucore.Vm.UserMemory

namespace Ucore
namespace Vm

/-!
# What the pages of an address space cost

A page that is mapped takes a frame for itself, and the first page of a range
takes frames for the nodes of the table above it as well.  So the frames that
an address space has taken can be read off the addresses of its pages, and
`pgdir_alloc_page` fails exactly when they would be more than there are.

This holds while free frames have no references.  Otherwise the assertion on
the count of the new page could fail.
-/

variable {M : PmmManager}

/-- The table that has the entry of an address -/
def tableOf (la : Nat) : Nat × Nat := (pdx1 la, pdx0 la)

/-- The frames of the pages at these addresses: one for each page, for each
table, and for each directory of the second level -/
def footprint (pages : Finset Nat) : Nat := pages.card + (pages.image tableOf).card + (pages.image pdx1).card

/-- The nodes that a further page takes -/
def nodesFor (pages : Finset Nat) (la : Nat) : Nat :=
  (if tableOf la ∈ pages.image tableOf then 0 else 1) + (if pdx1 la ∈ pages.image pdx1 then 0 else 1)

theorem footprint_insert {pages : Finset Nat} {la : Nat} (fresh : la ∉ pages) :
    footprint (insert la pages) = footprint pages + (1 + nodesFor pages la) := by
  unfold footprint nodesFor
  rw [Finset.card_insert_of_notMem fresh, Finset.image_insert, Finset.image_insert, Finset.card_insert_eq_ite,
    Finset.card_insert_eq_ite]
  split <;> split <;> omega

theorem footprint_mono {pages more : Finset Nat} (subset : pages ⊆ more) : footprint pages <= footprint more :=
  Nat.add_le_add (Nat.add_le_add (Finset.card_le_card subset) (Finset.card_le_card (Finset.image_subset_image subset)))
    (Finset.card_le_card (Finset.image_subset_image subset))

namespace AddressSpaces

variable {sys next : AddressSpaces M} {d la page : Nat} {perm : Pte} {pages : Finset Nat}

/-! ## The nodes of a table -/

theorem nodes_getPte0 {directory : PageDirectory0} (found : (sys.pgdir d).entry (pdx1 la) = some directory)
    (success : (sys.getPte0 d la true).1 = true) (place : Nat × PageDirectory.Node) :
    ((sys.getPte0 d la true).2.nodes place).isSome = true <->
      (sys.nodes place).isSome = true \/ place = (d, .table (pdx1 la) (pdx0 la)) := by
  rcases getPte0_spec found true with ⟨kept, _⟩ | ⟨next, ppn, _, result, adds, _⟩
  · rw [kept] at success ⊢
    refine (or_iff_left_of_imp ?_).symm
    rintro rfl
    rcases PageDirectory.find_isSome success with ⟨first, table, one, two⟩
    unfold nodes PageDirectory.nodeFrame
    dsimp only
    rw [one, Option.bind_some, two]
    rfl
  · rw [result]
    dsimp only
    rw [adds.nodes, Function.update_apply]
    by_cases here : place = (d, .table (pdx1 la) (pdx0 la))
    · rw [if_pos here]
      exact iff_of_true rfl (.inr here)
    · rw [if_neg here]
      exact (or_iff_left here).symm

/-- After `get_pte` the nodes above the entry exist, and no others are new. -/
theorem nodes_getPte (success : (sys.getPte d la true).1 = true) (place : Nat × PageDirectory.Node) :
    ((sys.getPte d la true).2.nodes place).isSome = true <-> (sys.nodes place).isSome = true \/
      place = (d, .directory0 (pdx1 la)) \/ place = (d, .table (pdx1 la) (pdx0 la)) := by
  rw [getPte] at success ⊢
  cases found : (sys.pgdir d).entry (pdx1 la) with
  | some directory =>
      have old : place = (d, .directory0 (pdx1 la)) -> (sys.nodes place).isSome = true := by
        rintro rfl
        unfold nodes PageDirectory.nodeFrame
        dsimp only
        rw [found]
        rfl
      simp only [found] at success ⊢
      rw [nodes_getPte0 found success, ← or_assoc]
      exact or_congr_left (or_iff_left_of_imp old).symm
  | none =>
      simp only [found] at success ⊢
      cases allocated : allocNode sys.frames with
      | none =>
          rw [allocated] at success
          cases success
      | some result =>
          rcases result with ⟨ppn, frames⟩
          simp only [allocated, if_true] at success ⊢
          refine (nodes_getPte0 (entry_hang sys d la ppn frames) success place).trans ?_
          rw [(hang_adds found allocated).nodes, Function.update_apply, ← or_assoc]
          refine or_congr_left ?_
          by_cases here : place = (d, .directory0 (pdx1 la))
          · rw [if_pos here]
            exact iff_of_true rfl (.inr here)
          · rw [if_neg here]
            exact (or_iff_left here).symm

/-! ## The pages of an address space -/

/-- The pages of the address space are these, its nodes are those above them,
and free frames have no references. -/
structure Populated (sys : AddressSpaces M) (d : Nat) (pages : Finset Nat) : Prop where
  uncounted : forall frame, sys.frames.IsFree frame -> sys.frames.ref frame = 0
  unmapped : forall la, la < userTop -> la % pgSize = 0 -> la ∉ pages -> sys.mapping (d, pageNumber la) = none
  directories : forall index, (sys.nodes (d, .directory0 index)).isSome = true <-> index ∈ pages.image pdx1
  tables : forall first second, (sys.nodes (d, .table first second)).isSome = true <->
    (first, second) ∈ pages.image tableOf

namespace Populated

theorem missingNodes (populated : sys.Populated d pages) (la : Nat) : sys.missingNodes d la = nodesFor pages la := by
  have directory := populated.directories (pdx1 la)
  have table : (sys.nodes (d, .table (pdx1 la) (pdx0 la))).isSome = true <-> tableOf la ∈ pages.image tableOf :=
    populated.tables (pdx1 la) (pdx0 la)
  unfold nodes PageDirectory.nodeFrame at directory table
  dsimp only at directory table
  unfold AddressSpaces.missingNodes nodesFor
  cases first : (sys.pgdir d).entry (pdx1 la) with
  | none =>
      rw [first] at directory table
      rw [if_neg fun member => Bool.false_ne_true (table.mpr member),
        if_neg fun member => Bool.false_ne_true (directory.mpr member)]
  | some node =>
      rw [first] at directory table
      rw [if_pos (directory.mp rfl), Nat.add_zero]
      rw [Option.bind_some] at table
      dsimp only
      cases second : node.entry (pdx0 la) with
      | none =>
          rw [second] at table
          rw [if_neg fun member => Bool.false_ne_true (table.mpr member)]
      | some entries =>
          rw [second] at table
          rw [if_pos (table.mp rfl)]

/-- The tables stay as they are, and no frame is given back. -/
theorem congr (populated : sys.Populated d pages)
    (ref : forall frame, next.frames.IsFree frame -> next.frames.ref frame = 0)
    (mapping : next.mapping = sys.mapping) (nodes : forall node, next.nodes (d, node) = sys.nodes (d, node)) :
    next.Populated d pages where
  uncounted := ref
  unmapped := mapping ▸ populated.unmapped
  directories := fun index => nodes (.directory0 index) ▸ populated.directories index
  tables := fun first second => nodes (.table first second) ▸ populated.tables first second

/-- A new directory has no pages. -/
theorem blank {ppn : Option Nat} (empty : sys.pgdir d = PageDirectory.blank ppn)
    (uncounted : forall frame, sys.frames.IsFree frame -> sys.frames.ref frame = 0) : sys.Populated d ∅ where
  uncounted := uncounted
  unmapped := fun la _ _ _ => by
    unfold mapping entry
    rw [empty, PageDirectory.pte_blank]
    rfl
  directories := fun index => by
    unfold nodes
    dsimp only
    rw [empty, PageDirectory.nodeFrame_blank, if_neg PageDirectory.Node.noConfusion]
    exact iff_of_false Bool.false_ne_true (Finset.notMem_empty index)
  tables := fun first second => by
    unfold nodes
    dsimp only
    rw [empty, PageDirectory.nodeFrame_blank, if_neg PageDirectory.Node.noConfusion]
    exact iff_of_false Bool.false_ne_true (Finset.notMem_empty _)

/-- The frame has been handed out and is mapped nowhere yet; free frames have
no references. -/
structure Fresh (sys : AddressSpaces M) (page : Nat) : Prop where
  sound : sys.frames.Sound
  uncounted : forall frame, sys.frames.IsFree frame -> sys.frames.ref frame = 0
  used : ¬ sys.frames.IsFree page
  ref : sys.frames.ref page = 0

theorem Fresh.getPte (fresh : Fresh sys page) (d la : Nat) : Fresh (sys.getPte d la true).2 page := by
  apply getPte_preserves (fun next => Fresh next page) _ fresh
  intro before after place ppn held adds
  have takes := adds.takes held.sound
  refine ⟨takes.sound, fun frame free => ?_, fun free => held.used (takes.shrinks free), ?_⟩
  · obtain ⟨old, other⟩ := (takes.free frame).mp free
    rw [adds.ref, Function.update_of_ne other]
    exact held.uncounted frame old
  · have other : page ≠ ppn := fun same => held.used (same ▸ takes.wasFree)
    rw [adds.ref, Function.update_of_ne other]
    exact held.ref

/-- A page that has not been mapped replaces nothing. -/
theorem insertAt_of_unmapped (unmapped : sys.mapping (d, pageNumber la) = none) (page : Nat) (perm : Pte) :
    (sys.insertAt d page la perm).frames = sys.frames.pageRefInc page := by
  have invalid : ¬ (sys.loadPte d la).v = true := by
    intro valid
    rw [loadPte_eq_entry] at valid
    rw [mapping, if_pos valid] at unmapped
    cases unmapped
  rw [insertAt, if_neg invalid]
  rfl

/-- One more page is mapped, and its nodes exist. -/
theorem insertAt (populated : sys.Populated d pages) (fresh : Fresh next page)
    (success : (sys.getPte d la true).1 = true)
    (grown : next = (sys.getPte d la true).2) (low : la < userTop) (aligned : la % pgSize = 0) (new : la ∉ pages)
    (perm : Pte) : (next.insertAt d page la perm).Populated d (insert la pages) := by
  have present : ((next.pgdir d).find la).isSome = true := grown ▸ getPte_success sys d la success
  have same : next.mapping = sys.mapping := grown ▸ mapping_getPte sys d la
  have unmapped : next.mapping (d, pageNumber la) = none := same ▸ populated.unmapped la low aligned new
  have nodes (node : PageDirectory.Node) : (((next.insertAt d page la perm).nodes (d, node)).isSome = true <->
      (sys.nodes (d, node)).isSome = true \/ node = .directory0 (pdx1 la) \/ node = .table (pdx1 la) (pdx0 la)) := by
    rw [nodes_insertAt, grown, nodes_getPte success]
    exact or_congr_right (or_congr Prod.mk_right_inj Prod.mk_right_inj)
  constructor
  · intro frame free
    rw [insertAt_of_unmapped unmapped] at free ⊢
    have other : frame ≠ page := fun same => fresh.used (same ▸ free)
    exact (Function.update_of_ne other _ _).trans (fresh.uncounted frame free)
  · intro other below starts absent
    rw [mapping_insertAt present, Function.update_of_ne, same]
    · exact populated.unmapped other below starts fun member => absent (Finset.mem_insert_of_mem member)
    · intro equal
      have numbers := (pageNumber_eq_iff below low).mp (Prod.mk.inj equal).2
      refine absent (Finset.mem_insert.mpr (.inl ?_))
      unfold pgSize at *
      omega
  · intro index
    rw [nodes, populated.directories, Finset.image_insert, Finset.mem_insert, or_comm]
    refine or_congr_left ?_
    constructor
    · rintro (directory | table)
      · exact PageDirectory.Node.directory0.inj directory
      · cases table
    · rintro rfl
      exact .inl rfl
  · intro first second
    rw [nodes, populated.tables, Finset.image_insert, Finset.mem_insert, or_comm]
    refine or_congr_left ?_
    constructor
    · rintro (directory | table)
      · cases directory
      · exact Prod.ext (PageDirectory.Node.table.inj table).1 (PageDirectory.Node.table.inj table).2
    · intro equal
      cases equal
      exact .inr rfl

/-- `pgdir_alloc_page` at an address without a page fails exactly when the pool
has fewer frames than it takes, and its assertion holds. -/
theorem pgdirAllocPage (populated : sys.Populated d pages) (used : sys.Used) (low : la < userTop)
    (aligned : la % pgSize = 0) (new : la ∉ pages) (perm : Pte) :
    Exists fun result => Exists fun next => sys.pgdirAllocPage d la perm = some (result, next) /\
      match result with
      | none => M.nrFreePages sys.frames.pool < 1 + nodesFor pages la
      | some _ => next.Populated d (insert la pages) /\
          M.nrFreePages sys.frames.pool = M.nrFreePages next.frames.pool + (1 + nodesFor pages la) := by
  unfold AddressSpaces.pgdirAllocPage
  cases allocated : sys.frames.allocPage with
  | none =>
      refine ⟨none, sys, rfl, ?_⟩
      rw [(Frames.allocPage_eq_none_iff used.sound).mp allocated]
      omega
  | some taken =>
      rcases taken with ⟨page, frames⟩
      have takes := Frames.allocPage_takes used.sound allocated
      have keeps := Frames.allocPage_keeps allocated
      have handed : (sys.setFrames frames).Populated d pages := by
        refine populated.congr (fun frame free => ?_) rfl (fun _ => rfl)
        exact (congrFun keeps.1 frame).trans (populated.uncounted frame (takes.shrinks free))
      have fresh : Fresh (sys.setFrames frames) page :=
        ⟨takes.sound, handed.uncounted, takes.taken,
          (congrFun keeps.1 page).trans (populated.uncounted page takes.wasFree)⟩
      have grows := getPte_grows fresh.sound d la
      have unmapped := handed.unmapped la low aligned new
      have counted : M.nrFreePages sys.frames.pool = M.nrFreePages (sys.setFrames frames).frames.pool + 1 :=
        takes.nrFree
      have grown := fresh.getPte d la
      have kept := mapping_getPte (sys.setFrames frames) d la
      rw [← handed.missingNodes la]
      dsimp only
      unfold pageInsert
      cases looked : (sys.setFrames frames).getPte d la true with
      | mk found next =>
          rw [looked] at grows grown kept
          cases found with
          | false =>
              refine ⟨none, _, rfl, ?_⟩
              have short := grows.short rfl
              dsimp only
              omega
          | true =>
              have stored := insertAt_of_unmapped ((congrFun kept _).trans unmapped) page perm
              have ref : (next.insertAt d page la perm).frames.ref page = 1 := by
                rw [stored]
                exact (Function.update_self ..).trans (congrArg (· + 1) grown.ref)
              have success : ((sys.setFrames frames).getPte d la true).1 = true := congrArg Prod.fst looked
              have same : next = ((sys.setFrames frames).getPte d la true).2 := (congrArg Prod.snd looked).symm
              refine ⟨some page, _, if_pos ref, handed.insertAt grown success same low aligned new perm, ?_⟩
              have taken := grows.taken rfl
              have pool : (next.insertAt d page la perm).frames.pool = next.frames.pool := by
                rw [stored]
                rfl
              rw [pool]
              dsimp only at taken
              omega

end Populated

end AddressSpaces

end Vm
end Ucore
