import Ucore.Vm.ReferenceRun

namespace Ucore
namespace Vm

open Library

/-!
# The map that the page tables realise

`page_insert`, `page_remove` and `pgdir_alloc_page` are operations on a map
from pages to frames with permissions.  The history of a run carries that map,
changed by what the operations return and at their own page only, and the
tables agree with it in every state.
-/

namespace AddressSpaces

variable {M : PmmManager} {managed : Set Nat} {sys next : AddressSpaces M} {fresh : List Nat} {d la page : Nat}

/-- `get_page`; `none` is `NULL`. -/
def getPage (sys : AddressSpaces M) (d la : Nat) : Option Nat :=
  if (sys.getPte d la false).1 = true /\ (sys.loadPte d la).v = true then some (sys.loadPte d la).ppn else none

/-- The valid entry of a page. -/
def mapping (sys : AddressSpaces M) (slot : Nat × PageNumber) : Option Pte :=
  if (sys.entry slot.1 slot.2).v = true then some (sys.entry slot.1 slot.2) else none

theorem mapped_eq_map (sys : AddressSpaces M) (slot : Nat × PageNumber) :
    sys.mapped slot = (sys.mapping slot).map Pte.ppn := by
  rw [mapped, mapping]
  split <;> rfl

theorem getPage_eq (sys : AddressSpaces M) (d la : Nat) : sys.getPage d la = sys.mapped (d, pageNumber la) := by
  rw [getPage, getPte_lookup]
  by_cases valid : (sys.loadPte d la).v = true
  · rw [if_pos ⟨present_of_valid valid, valid⟩, mapped_of_valid valid]
  · rw [if_neg fun both => valid both.2]
    exact (if_neg valid).symm

theorem mapping_storePte (present : ((sys.pgdir d).find la).isSome = true) (pte : Pte) :
    (sys.storePte d la pte).mapping =
      Function.update sys.mapping (d, pageNumber la) (if pte.v = true then some pte else none) := by
  funext slot
  rw [mapping, entry_storePte present, Function.update_apply]
  by_cases same : slot = (d, pageNumber la)
  · subst same
    simp
  · have other : ¬ (slot.1 = d /\ slot.2 = pageNumber la) := fun both => same (Prod.ext both.1 both.2)
    rw [if_neg other, if_neg same]
    rfl

theorem mapping_getPte (sys : AddressSpaces M) (d la : Nat) : (sys.getPte d la true).2.mapping = sys.mapping := by
  funext slot
  rw [mapping, mapping, getPte_entry]

theorem mapping_pageRemovePte (sys : AddressSpaces M) (d la : Nat) :
    (sys.pageRemovePte d la).mapping = Function.update sys.mapping (d, pageNumber la) none := by
  rw [pageRemovePte]
  by_cases valid : (sys.loadPte d la).v = true
  · rw [if_pos valid]
    exact mapping_storePte (present_of_valid valid) {}
  · rw [if_neg valid, eq_comm, Function.update_eq_self_iff, mapping]
    exact (if_neg valid).symm

theorem mapping_pageRemove (sys : AddressSpaces M) (d la : Nat) :
    (sys.pageRemove d la).mapping = Function.update sys.mapping (d, pageNumber la) none := by
  rw [pageRemove, getPte_lookup]
  by_cases present : ((sys.pgdir d).find la).isSome = true
  · rw [if_pos present]
    exact mapping_pageRemovePte sys d la
  · rw [if_neg present, eq_comm, Function.update_eq_self_iff, mapping]
    exact (if_neg fun valid => present (present_of_valid valid)).symm

theorem present_pageRemovePte (present : ((sys.pgdir d).find la).isSome = true) :
    (((sys.pageRemovePte d la).pgdir d).find la).isSome = true := by
  rw [pageRemovePte]
  split
  · exact present_storePte {} present
  · exact present

/-- The entry that `page_insert` stores. -/
def insertedPte (page : Nat) (perm : Pte) : Pte := { perm with ppn := page, v := true }

theorem mapping_insertAt (present : ((sys.pgdir d).find la).isSome = true) (page : Nat) (perm : Pte) :
    (sys.insertAt d page la perm).mapping =
      Function.update sys.mapping (d, pageNumber la) (some (insertedPte page perm)) := by
  have counted : (((sys.setFrames (sys.frames.pageRefInc page)).pgdir d).find la).isSome = true := present
  rw [insertAt]
  split
  · split
    · exact mapping_storePte counted _
    · rw [mapping_storePte (present_pageRemovePte counted), mapping_pageRemovePte]
      exact Function.update_idem ..
  · exact mapping_storePte counted _

/-- `page_insert` sets its page, unless it fails. -/
theorem mapping_pageInsert (sys : AddressSpaces M) (d page la : Nat) (perm : Pte) :
    (sys.pageInsert d page la perm).2.mapping =
      if (sys.pageInsert d page la perm).1 = none then
        Function.update sys.mapping (d, pageNumber la) (some (insertedPte page perm))
      else sys.mapping := by
  have grown := mapping_getPte sys d la
  have success := getPte_success sys d la
  rw [pageInsert]
  cases result : sys.getPte d la true with
  | mk found next =>
      rw [result] at grown success
      cases found with
      | false => exact grown
      | true =>
          rw [← grown]
          exact mapping_insertAt (success rfl) page perm

/-! ## The nodes -/

/-- No frame holds two nodes. -/
def OneNode (sys : AddressSpaces M) : Prop :=
  forall place other frame, sys.nodes place = some frame -> sys.nodes other = some frame -> place = other

theorem OneNode.addsNode (single : sys.OneNode) (sound : sys.frames.Sound)
    (used : forall frame, sys.IsNode frame -> ¬ sys.frames.IsFree frame) {place : Nat × PageDirectory.Node} {ppn : Nat}
    (adds : AddsNode sys next place ppn) : next.OneNode := by
  have unused : forall other, sys.nodes other ≠ some ppn := fun other found =>
    used ppn ⟨other, found⟩ (adds.takes sound).wasFree
  intro first second frame found too
  rw [adds.nodes, Function.update_apply] at found too
  split at found <;> split at too
  · next left right => rw [left, right]
  · next left right =>
      cases found
      exact absurd too (unused second)
  · next left right =>
      cases too
      exact absurd found (unused first)
  · exact single first second frame found too

theorem RefCounted.oneNode_getPte (exact : RefCounted managed sys fresh) (single : sys.OneNode) (d la : Nat) :
    (sys.getPte d la true).2.OneNode :=
  (getPte_preserves (fun next => RefCounted managed next fresh /\ next.OneNode)
    (fun _ _ _ _ holds adds => ⟨holds.1.addsNode adds, holds.2.addsNode holds.1.sound holds.1.nodesUsed adds⟩)
      ⟨exact, single⟩ d la).2

theorem nodes_pageRemovePte (sys : AddressSpaces M) (d la : Nat) : (sys.pageRemovePte d la).nodes = sys.nodes := by
  rw [pageRemovePte]
  split
  · exact nodes_storePte _ d la {}
  · rfl

theorem nodes_pageRemove (sys : AddressSpaces M) (d la : Nat) : (sys.pageRemove d la).nodes = sys.nodes := by
  rw [pageRemove]
  split
  · exact nodes_pageRemovePte sys d la
  · rfl

theorem nodes_insertAt (sys : AddressSpaces M) (d page la : Nat) (perm : Pte) :
    (sys.insertAt d page la perm).nodes = sys.nodes := by
  rw [insertAt]
  split
  · split
    · exact nodes_storePte _ d la _
    · exact (nodes_storePte _ d la _).trans (nodes_pageRemovePte _ d la)
  · exact nodes_storePte _ d la _

theorem RefCounted.oneNode_pageInsert (exact : RefCounted managed sys fresh) (single : sys.OneNode) (d page la : Nat)
    (perm : Pte) : (sys.pageInsert d page la perm).2.OneNode := by
  have grown := exact.oneNode_getPte single d la
  rw [AddressSpaces.pageInsert]
  cases result : sys.getPte d la true with
  | mk found next =>
      rw [result] at grown
      cases found with
      | false => exact grown
      | true =>
          rw [OneNode, nodes_insertAt]
          exact grown

/-! ## Allocation of a mapped page -/

/-- A page that was mapped nowhere has one entry after its insertion. -/
theorem RefCounted.ref_pageInsert (exact : RefCounted managed sys fresh) (member : page ∈ fresh)
    (clean : sys.ReplacesCleanly d page la) (perm : Pte) (done : (sys.pageInsert d page la perm).1 = none) :
    (sys.pageInsert d page la perm).2.frames.ref page = 1 := by
  have inserted := exact.pageInsert (exact.isUser_of_fresh member) clean perm
  have mapping := mapping_pageInsert sys d page la perm
  rw [if_pos done] at mapping
  have points : forall slot, (sys.pageInsert d page la perm).2.mapped slot = some page <->
    slot = (d, pageNumber la) := by
    intro slot
    rw [mapped_eq_map, mapping, Function.update_apply]
    by_cases same : slot = (d, pageNumber la)
    · rw [if_pos same]
      exact iff_of_true rfl same
    · rw [if_neg same, ← mapped_eq_map]
      exact iff_of_false ((exact.freshUser page member).2.2.2 slot) same
  have user := inserted.mappedUser _ _ ((points _).mpr rfl)
  have single : referrers (sys.pageInsert d page la perm).2.mapped page = {(d, pageNumber la)} := by
    ext slot
    exact points slot
  have counted := (inserted.counted page ⟨user.1, user.2.1⟩).2
  rw [single, Set.ncard_singleton] at counted
  exact counted

end AddressSpaces

/-! ## Histories -/

/-- The operations on page tables, and `alloc_page` for a page to insert. -/
inductive MapAction where
  | allocPage
  | pageInsert (d page la : Nat) (perm : Pte)
  | pageRemove (d la : Nat)
  | pgdirAllocPage (d la : Nat) (perm : Pte)
deriving DecidableEq

/-- The address spaces, the pages that callers have and never mapped, and the
map that the operations describe. -/
structure MapHistory (M : PmmManager) where
  sys : AddressSpaces M
  fresh : List Nat
  map : Nat × PageNumber -> Option Pte

namespace MapHistory

variable {M : PmmManager} {managed : Set Nat} {history next : MapHistory M} {action : MapAction}

open AddressSpaces

/-- The map changes at the page of the operation only, by what it returns. -/
def step (history : MapHistory M) : MapAction -> Option (MapHistory M)
  | .allocPage =>
      match history.sys.frames.allocPage with
      | none => some history
      | some (page, frames) => some { history with sys := history.sys.setFrames frames, fresh := page :: history.fresh }
  | .pageInsert d page la perm =>
      let inserted := history.sys.pageInsert d page la perm
      if inserted.1 = none then
        some ⟨inserted.2, history.fresh.filter (fun other => other ≠ page),
          Function.update history.map (d, pageNumber la) (some (insertedPte page perm))⟩
      else some { history with sys := inserted.2 }
  | .pageRemove d la =>
      some ⟨history.sys.pageRemove d la, history.fresh, Function.update history.map (d, pageNumber la) none⟩
  | .pgdirAllocPage d la perm =>
      (history.sys.pgdirAllocPage d la perm).map fun result =>
        ⟨result.2, history.fresh, match result.1 with
          | none => history.map
          | some page => Function.update history.map (d, pageNumber la) (some (insertedPte page perm))⟩

/-- `page_insert` is called with a page that the caller has, or that some entry
maps; it does not look whether the page is free. -/
def Called (history : MapHistory M) : MapAction -> Prop
  | .pageInsert _ page _ _ => page ∈ history.fresh \/ Exists fun slot => history.sys.mapped slot = some page
  | _ => True

/-- A page that the operation takes the last entry from is given back where that
keeps the page manager in order.  `default_free_pages` does not do so for every
page. -/
def FreesCleanly (history : MapHistory M) : MapAction -> Prop
  | .allocPage => True
  | .pageInsert d page la _ => history.sys.ReplacesCleanly d page la
  | .pageRemove d la => history.sys.DropsCleanly d la
  | .pgdirAllocPage d la _ => history.sys.AllocatesCleanly d la

instance (history : MapHistory M) : forall action, Decidable (history.FreesCleanly action)
  | .allocPage => inferInstanceAs (Decidable True)
  | .pageInsert d page la _ => inferInstanceAs (Decidable (history.sys.ReplacesCleanly d page la))
  | .pageRemove d la => inferInstanceAs (Decidable (history.sys.DropsCleanly d la))
  | .pgdirAllocPage d la _ => inferInstanceAs (Decidable (history.sys.AllocatesCleanly d la))

/-- The tables agree with the map, and the counts with the entries. -/
structure Realised (managed : Set Nat) (history : MapHistory M) : Prop where
  counted : RefCounted managed history.sys history.fresh
  single : history.sys.OneNode
  agrees : history.sys.mapping = history.map

theorem Realised.user (realised : history.Realised managed) {page : Nat}
    (called : page ∈ history.fresh \/ Exists fun slot => history.sys.mapped slot = some page) :
    IsUser managed history.sys page := by
  rcases called with inFresh | ⟨slot, points⟩
  · exact realised.counted.isUser_of_fresh inFresh
  · exact realised.counted.mappedUser slot page points

/-- `pgdir_alloc_page` does not fail its assertion, and maps the page that it
returns. -/
theorem Realised.pgdirAllocPage (realised : history.Realised managed) {d la : Nat}
    (clean : history.sys.AllocatesCleanly d la) (perm : Pte) :
    Exists fun page => Exists fun sys => history.sys.pgdirAllocPage d la perm = some (page, sys) /\ sys.OneNode /\
      sys.mapping = match page with
        | none => history.sys.mapping
        | some page => Function.update history.sys.mapping (d, pageNumber la) (some (insertedPte page perm)) := by
  rw [AddressSpaces.pgdirAllocPage]
  cases allocated : history.sys.frames.allocPage with
  | none => exact ⟨none, _, rfl, realised.single, rfl⟩
  | some result =>
      rcases result with ⟨page, frames⟩
      have handed := realised.counted.handOut allocated
      have single : (history.sys.setFrames frames).OneNode := realised.single
      have inserted := handed.oneNode_pageInsert single d page la perm
      have ref := handed.ref_pageInsert (List.mem_cons_self ..) (clean _ allocated) perm
      have mapping := mapping_pageInsert (history.sys.setFrames frames) d page la perm
      dsimp only
      cases result : (history.sys.setFrames frames).pageInsert d page la perm with
      | mk error after =>
          rw [result] at inserted ref mapping
          cases error with
          | some code => exact ⟨none, _, rfl, inserted, mapping⟩
          | none => exact ⟨some page, after, if_pos (ref rfl), inserted, mapping⟩

/-- The step lemma: an operation that is called rightly and frees cleanly
returns. -/
theorem Realised.step (realised : history.Realised managed)
    (condition : history.Called action /\ history.FreesCleanly action) :
    Exists fun next => history.step action = some next /\ next.Realised managed := by
  cases action with
  | allocPage =>
      rw [MapHistory.step]
      cases allocated : history.sys.frames.allocPage with
      | none => exact ⟨history, rfl, realised⟩
      | some result => exact ⟨_, rfl, realised.counted.handOut allocated, realised.single, realised.agrees⟩
  | pageInsert d page la perm =>
      have counted := realised.counted.pageInsert (realised.user condition.1) condition.2 perm
      have single := realised.counted.oneNode_pageInsert realised.single d page la perm
      have mapping := mapping_pageInsert history.sys d page la perm
      rw [realised.agrees] at mapping
      by_cases done : (history.sys.pageInsert d page la perm).1 = none
      · rw [if_pos done] at counted mapping
        exact ⟨_, if_pos done, counted, single, mapping⟩
      · rw [if_neg done] at counted mapping
        exact ⟨_, if_neg done, counted, single, mapping⟩
  | pageRemove d la =>
      refine ⟨_, rfl, realised.counted.pageRemove condition.2, ?_, ?_⟩
      · rw [OneNode, nodes_pageRemove]
        exact realised.single
      · rw [mapping_pageRemove, realised.agrees]
  | pgdirAllocPage d la perm =>
      obtain ⟨page, sys, ran, single, mapping⟩ := realised.pgdirAllocPage condition.2 perm
      rw [realised.agrees] at mapping
      have counted := realised.counted.pgdirAllocPage condition.2 ran
      exact ⟨_, Option.map_eq_some_iff.mpr ⟨_, ran, rfl⟩, counted, single, mapping⟩

/-! ## Freed pages -/

/-- The nodes and the pool of a state come from those of an earlier one. -/
structure GrownFrom (earlier sys : AddressSpaces M) : Prop where
  nodes : forall page, sys.IsNode page -> earlier.IsNode page \/ earlier.frames.IsFree page
  pool : forall page, sys.frames.IsFree page -> earlier.frames.IsFree page
  sound : sys.frames.Sound

theorem GrownFrom.getPte {earlier sys : AddressSpaces M} (grown : GrownFrom earlier sys) (d la : Nat) :
    GrownFrom earlier (sys.getPte d la true).2 := by
  apply getPte_preserves (fun next => GrownFrom earlier next) _ grown
  intro before after place ppn holds adds
  have takes := adds.takes holds.sound
  refine ⟨fun page node => ?_, fun page free => holds.pool page (takes.shrinks free), takes.sound⟩
  rcases (adds.isNode page).mp node with old | new
  · exact holds.nodes page old
  · exact .inr (holds.pool page (new ▸ takes.wasFree))

/-- The nodes after `page_insert` are old ones, or were in the pool. -/
theorem nodes_pageInsert {earlier sys : AddressSpaces M} (grown : GrownFrom earlier sys) (d page la : Nat)
    (perm : Pte) :
    forall frame, (sys.pageInsert d page la perm).2.IsNode frame ->
      earlier.IsNode frame \/ earlier.frames.IsFree frame := by
  have more := grown.getPte d la
  rw [AddressSpaces.pageInsert]
  cases result : sys.getPte d la true with
  | mk found next =>
      rw [result] at more
      cases found with
      | false => exact more.nodes
      | true =>
          simp only [IsNode, nodes_insertAt]
          exact more.nodes

theorem step_nodes (sound : history.sys.frames.Sound) (stepped : history.step action = some next) (page : Nat)
    (node : next.sys.IsNode page) : history.sys.IsNode page \/ history.sys.frames.IsFree page := by
  have grown : GrownFrom history.sys history.sys := ⟨fun _ node => .inl node, fun _ free => free, sound⟩
  cases action with
  | allocPage =>
      rw [step] at stepped
      split at stepped <;> cases stepped <;> exact .inl node
  | pageInsert d inserted la perm =>
      have nodes := nodes_pageInsert grown d inserted la perm
      rw [step] at stepped
      split at stepped <;> cases stepped <;> exact nodes page node
  | pageRemove d la =>
      cases stepped
      rw [IsNode, nodes_pageRemove] at node
      exact .inl node
  | pgdirAllocPage d la perm =>
      obtain ⟨result, ran, rfl⟩ := Option.map_eq_some_iff.mp stepped
      rw [AddressSpaces.pgdirAllocPage] at ran
      cases allocated : history.sys.frames.allocPage with
      | none =>
          rw [allocated] at ran
          cases ran
          exact .inl node
      | some taken =>
          rcases taken with ⟨taken, frames⟩
          have takes := Frames.allocPage_takes sound allocated
          have handed : GrownFrom history.sys (history.sys.setFrames frames) :=
            ⟨fun _ node => .inl node, fun other free => takes.shrinks free, takes.sound⟩
          have nodes := nodes_pageInsert handed d taken la perm
          rw [allocated] at ran
          dsimp only at ran
          cases inserted : (history.sys.setFrames frames).pageInsert d taken la perm with
          | mk error after =>
              rw [inserted] at ran nodes
              cases error with
              | some code =>
                  cases ran
                  exact nodes page node
              | none =>
                  dsimp only at ran
                  split at ran <;> cases ran
                  exact nodes page node

/-- A page that a caller has stays with it, or is mapped. -/
theorem step_fresh (stepped : history.step action = some next) {page : Nat} (member : page ∈ history.fresh) :
    page ∈ next.fresh \/ Exists fun slot => (next.map slot).map Pte.ppn = some page := by
  cases action with
  | allocPage =>
      rw [step] at stepped
      split at stepped
      · cases stepped
        exact .inl member
      · cases stepped
        exact .inl (List.mem_cons_of_mem _ member)
  | pageInsert d inserted la perm =>
      rw [step] at stepped
      split at stepped
      · cases stepped
        by_cases same : page = inserted
        · refine .inr ⟨(d, pageNumber la), ?_⟩
          dsimp only
          rw [Function.update_self, same]
          rfl
        · exact .inl (List.mem_filter.mpr ⟨member, decide_eq_true same⟩)
      · cases stepped
        exact .inl member
  | pageRemove d la =>
      cases stepped
      exact .inl member
  | pgdirAllocPage d la perm =>
      obtain ⟨result, _, rfl⟩ := Option.map_eq_some_iff.mp stepped
      exact .inl member

/-- A page that a caller has got was in the pool. -/
theorem step_fresh_old (sound : history.sys.frames.Sound) (stepped : history.step action = some next) {page : Nat}
    (member : page ∈ next.fresh) : page ∈ history.fresh \/ history.sys.frames.IsFree page := by
  cases action with
  | allocPage =>
      rw [step] at stepped
      split at stepped
      · cases stepped
        exact .inl member
      · next taken frames allocated =>
          cases stepped
          rcases List.mem_cons.mp member with same | old
          · exact .inr (same ▸ (Frames.allocPage_takes sound allocated).wasFree)
          · exact .inl old
  | pageInsert d inserted la perm =>
      rw [step] at stepped
      split at stepped
      · cases stepped
        exact .inl (List.mem_filter.mp member).1
      · cases stepped
        exact .inl member
  | pageRemove d la =>
      cases stepped
      exact .inl member
  | pgdirAllocPage d la perm =>
      obtain ⟨result, _, rfl⟩ := Option.map_eq_some_iff.mp stepped
      exact .inl member

/-- What the tables and the counts say about the map. -/
structure RealisesMap (managed : Set Nat) (history : MapHistory M) : Prop where
  pages : forall d la, history.sys.getPage d la = (history.map (d, pageNumber la)).map Pte.ppn
  permissions : forall d la pte, history.map (d, pageNumber la) = some pte -> history.sys.loadPte d la = pte
  counted : Counted (fun slot => (history.map slot).map Pte.ppn) history.sys.frames.ref (userPages managed history.sys)
  pooled : forall page, page ∈ userPages managed history.sys ->
    (history.sys.frames.IsFree page <->
      (forall slot, (history.map slot).map Pte.ppn ≠ some page) /\ page ∉ history.fresh)
  mappedUser : forall slot page, (history.map slot).map Pte.ppn = some page -> page ∈ userPages managed history.sys
  single : history.sys.OneNode

/-- The step frees the user pages that lose their last entry, and no other
ones. -/
def FreesLast (managed : Set Nat) (history next : MapHistory M) : Prop :=
  forall page, page ∈ userPages managed history.sys ->
    (¬ history.sys.frames.IsFree page /\ next.sys.frames.IsFree page <->
      (Exists fun slot => (history.map slot).map Pte.ppn = some page) /\
        forall slot, (next.map slot).map Pte.ppn ≠ some page)

theorem Realised.mapped_eq (realised : history.Realised managed) :
    history.sys.mapped = fun slot => (history.map slot).map Pte.ppn := by
  funext slot
  rw [mapped_eq_map, realised.agrees]

theorem Realised.realisesMap (realised : history.Realised managed) : history.RealisesMap managed := by
  have exact := realised.counted.exact
  have mapped := realised.mapped_eq
  refine ⟨fun d la => ?_, fun d la pte found => ?_, ?_, ?_, ?_, realised.single⟩
  · rw [getPage_eq, mapped]
  · rw [← realised.agrees, mapping] at found
    split at found
    · exact Option.some.inj found
    · exact nomatch found
  · rw [← mapped]
    exact exact.counted
  · intro page member
    rw [exact.pooled page member, mapped]
  · intro slot page points
    exact exact.mappedUser slot page (mapped ▸ points)

theorem Realised.freesLast (realised : history.Realised managed) (after : next.Realised managed)
    (stepped : history.step action = some next) : FreesLast managed history next := by
  intro page user
  have before := realised.realisesMap
  have later := after.realisesMap
  have still : ¬ history.sys.frames.IsFree page -> page ∈ userPages managed next.sys := fun used =>
    ⟨user.1, fun node => (step_nodes realised.counted.sound stepped page node).elim user.2 used⟩
  constructor
  · rintro ⟨used, free⟩
    obtain ⟨unmapped, unheld⟩ := (later.pooled page (still used)).mp free
    refine ⟨?_, unmapped⟩
    by_contra none
    push Not at none
    have held : page ∈ history.fresh := by
      by_contra absent
      exact used ((before.pooled page user).mpr ⟨none, absent⟩)
    rcases step_fresh stepped held with kept | ⟨slot, points⟩
    · exact unheld kept
    · exact unmapped slot points
  · rintro ⟨⟨slot, points⟩, unmapped⟩
    have used : ¬ history.sys.frames.IsFree page := fun free => ((before.pooled page user).mp free).1 slot points
    refine ⟨used, (later.pooled page (still used)).mpr ⟨unmapped, fun held => ?_⟩⟩
    rcases step_fresh_old realised.counted.sound stepped held with old | free
    · refine (realised.counted.freshUser page old).2.2.2 slot ?_
      rw [realised.mapped_eq]
      exact points
    · exact used free

end MapHistory

def mapMachine (M : PmmManager) : Machine (MapHistory M) MapAction := ⟨MapHistory.step⟩

/-- The run lemma, for every page manager -/
theorem realised_run {M : PmmManager} {start : AddressSpaces M} (booted : start.Booted) (single : start.OneNode)
    {actions : List MapAction} (called : (mapMachine M).Along MapHistory.Called ⟨start, [], fun _ => none⟩ actions)
    (clean : (mapMachine M).Along MapHistory.FreesCleanly ⟨start, [], fun _ => none⟩ actions) :
    Exists fun last => (mapMachine M).run ⟨start, [], fun _ => none⟩ actions = some last /\
      last.Realised {page | start.frames.IsFree page} := by
  have initial : MapHistory.Realised {page | start.frames.IsFree page} ⟨start, [], fun _ => none⟩ := by
    refine ⟨booted.refCounted, single, ?_⟩
    funext slot
    have unmapped := booted.unmapped slot
    rw [AddressSpaces.mapped_eq_map, Option.map_eq_none_iff] at unmapped
    exact unmapped
  exact Machine.run_returns (fun _ _ => MapHistory.Realised.step) initial (called.and clean)

/-- From boot on, over the page manager of the kernel, every run of the
operations whose releases lie below the last listed block returns, and in its
last state the tables realise the map; whatever is called next in this way
frees exactly the pages that lose their last entry. -/
theorem run_realises_map {low n : Nat} {start : AddressSpaces (defaultPmm low n)} (booted : start.Booted)
    (single : start.OneNode) {actions : List MapAction}
    (called : (mapMachine (defaultPmm low n)).Along MapHistory.Called ⟨start, [], fun _ => none⟩ actions)
    (clean : (mapMachine (defaultPmm low n)).Along MapHistory.FreesCleanly ⟨start, [], fun _ => none⟩ actions) :
    Exists fun last => (mapMachine (defaultPmm low n)).run ⟨start, [], fun _ => none⟩ actions = some last /\
      last.RealisesMap {page | start.frames.IsFree page} /\
      forall action, last.Called action -> last.FreesCleanly action -> Exists fun next =>
        last.step action = some next /\ MapHistory.FreesLast {page | start.frames.IsFree page} last next := by
  obtain ⟨last, ran, realised⟩ := realised_run booted single called clean
  refine ⟨last, ran, realised.realisesMap, fun action called clean => ?_⟩
  obtain ⟨next, stepped, after⟩ := realised.step ⟨called, clean⟩
  exact ⟨next, stepped, realised.freesLast after stepped⟩

/-- Two address spaces with directories in the frames 5 and 6, and `n` free
pages from frame 10 on. -/
def twoDirectories (n : Nat) : AddressSpaces (defaultPmm 10 n) where
  frames := ⟨bootPool 10 n, fun _ => 0, fun _ => false, fun _ _ => 0⟩
  mm := fun d => ⟨PageDirectory.blank (if d < 2 then some (5 + d) else none), [], none⟩

theorem twoDirectories_nodes (n : Nat) (place : Nat × PageDirectory.Node) : (twoDirectories n).nodes place =
    if place.2 = .top /\ place.1 < 2 then some (5 + place.1) else none := by
  change (PageDirectory.blank _).nodeFrame place.2 = _
  rw [PageDirectory.nodeFrame_blank]
  by_cases top : place.2 = .top
  · by_cases low : place.1 < 2
    · rw [if_pos top, if_pos low, if_pos ⟨top, low⟩]
    · rw [if_pos top, if_neg low, if_neg fun both => low both.2]
  · rw [if_neg top, if_neg fun both => top both.1]

theorem twoDirectories_booted {n : Nat} (booted : (bootPool 10 n).isSome = true) (small : n < 2 ^ 32) :
    (twoDirectories n).Booted where
  unmapped := fun _ => rfl
  nodesUsed := by
    rintro page ⟨place, node⟩ free
    rw [twoDirectories_nodes] at node
    split at node
    · next both =>
        have bounds := ((bootPool_sound booted small).2 page).mp free
        have same := Option.some.inj node
        omega
    · exact nomatch node
  uncounted := fun _ _ => rfl
  sound := (bootPool_sound booted small).1

theorem twoDirectories_single (n : Nat) : (twoDirectories n).OneNode := by
  intro place other frame found too
  rw [twoDirectories_nodes] at found too
  split at found
  · next left =>
      split at too
      · next right =>
          have first := Option.some.inj found
          have second := Option.some.inj too
          exact Prod.ext (by omega) (left.1.trans right.1.symm)
      · exact nomatch too
  · exact nomatch found

/-- A page that is freed is taken again, and mapped at addresses of both
directories.  The last allocation finds the pool empty. -/
def sharedPage : List MapAction :=
  [.pgdirAllocPage 0 0x200000 { r := true, w := true, u := true }, .pageRemove 0 0x200000, .allocPage,
    .pageInsert 0 10 0x200000 { r := true, u := true }, .pageInsert 0 10 0x201000 { r := true, u := true },
    .pageInsert 0 10 0x201000 { r := true, w := true, u := true }, .pageInsert 1 10 0x200000 { r := true, u := true },
    .pageRemove 0 0x201000, .pgdirAllocPage 1 0x40000000 { r := true, u := true }]

/-- `page_insert` is called with a page that the caller has, or with the one
that a given entry maps. -/
def MapHistory.CalledWith {M : PmmManager} (slot : Nat × PageNumber) (history : MapHistory M) : MapAction -> Prop
  | .pageInsert _ page _ _ => page ∈ history.fresh \/ history.sys.mapped slot = some page
  | _ => True

instance {M : PmmManager} (slot : Nat × PageNumber) (history : MapHistory M) :
    forall action, Decidable (history.CalledWith slot action)
  | .pageInsert .. => inferInstanceAs (Decidable (_ \/ _))
  | .allocPage | .pageRemove .. | .pgdirAllocPage .. => inferInstanceAs (Decidable True)

theorem MapHistory.CalledWith.called {M : PmmManager} {slot : Nat × PageNumber} {history : MapHistory M}
    {action : MapAction} (called : history.CalledWith slot action) : history.Called action := by
  cases action with
  | pageInsert => exact called.imp id fun points => ⟨slot, points⟩
  | _ => trivial

theorem run_realises_map_sharedPage : Exists fun last =>
    (mapMachine (defaultPmm 10 5)).run ⟨twoDirectories 5, [], fun _ => none⟩ sharedPage = some last /\
      last.RealisesMap {page | (twoDirectories 5).frames.IsFree page} := by
  have visible : (mapMachine (defaultPmm 10 5)).Along (MapHistory.CalledWith (0, pageNumber 0x200000))
      ⟨twoDirectories 5, [], fun _ => none⟩ sharedPage := by decide +kernel
  have clean : (mapMachine (defaultPmm 10 5)).Along MapHistory.FreesCleanly ⟨twoDirectories 5, [], fun _ => none⟩
      sharedPage := by decide +kernel
  obtain ⟨last, ran, realises, _⟩ := run_realises_map (twoDirectories_booted (by decide) (by decide))
    (twoDirectories_single 5) (visible.mono fun _ _ => MapHistory.CalledWith.called) clean
  exact ⟨last, ran, realises⟩

/-- Five pages are mapped, and four of them given back, the second one above the
only listed block.  Then three are mapped again. -/
def releaseAbove : List MapAction :=
  [.pgdirAllocPage 0 0x200000 { r := true, u := true }, .pgdirAllocPage 0 0x201000 { r := true, u := true },
    .pgdirAllocPage 0 0x202000 { r := true, u := true }, .pgdirAllocPage 0 0x203000 { r := true, u := true },
    .pgdirAllocPage 0 0x204000 { r := true, u := true }, .pageRemove 0 0x201000, .pageRemove 0 0x203000,
    .pageRemove 0 0x204000, .pageRemove 0 0x202000, .pgdirAllocPage 0 0x201000 { r := true, u := true },
    .pgdirAllocPage 0 0x202000 { r := true, u := true }, .pgdirAllocPage 0 0x400000 { r := true, u := true }]

/-- The release above the last listed block runs the list in a circle, and
frame 15 is handed out twice: it is the page at `0x202000`, and the table over
`0x400000`. -/
theorem releaseAbove_breaks_map : Exists fun last => (twoDirectories 7).Booted /\ (twoDirectories 7).OneNode /\
    (mapMachine (defaultPmm 10 7)).Along MapHistory.Called ⟨twoDirectories 7, [], fun _ => none⟩ releaseAbove /\
      (mapMachine (defaultPmm 10 7)).run ⟨twoDirectories 7, [], fun _ => none⟩ releaseAbove = some last /\
        ¬ last.RealisesMap {page | (twoDirectories 7).frames.IsFree page} := by
  have booted : (twoDirectories 7).Booted := twoDirectories_booted (by decide) (by decide)
  have visible : (mapMachine (defaultPmm 10 7)).Along (MapHistory.CalledWith (0, pageNumber 0x200000))
      ⟨twoDirectories 7, [], fun _ => none⟩ releaseAbove := by decide +kernel
  have read : ((mapMachine (defaultPmm 10 7)).run ⟨twoDirectories 7, [], fun _ => none⟩ releaseAbove).map
      (fun last => ((last.map (0, pageNumber 0x202000)).map Pte.ppn,
        last.sys.nodes (0, .table (pdx1 0x400000) (pdx0 0x400000)))) = some (some 15, some 15) := by decide +kernel
  rcases Option.map_eq_some_iff.mp read with ⟨last, ran, facts⟩
  refine ⟨last, booted, twoDirectories_single 7, visible.mono fun _ _ => MapHistory.CalledWith.called, ran, ?_⟩
  intro realises
  rcases Prod.mk.inj facts with ⟨mapped, node⟩
  exact (realises.mappedUser _ _ mapped).2 ⟨_, node⟩

end Vm
end Ucore
