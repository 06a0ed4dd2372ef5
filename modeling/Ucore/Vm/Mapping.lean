import Ucore.Library.Ownership
import Ucore.Vm.AddressSpace

namespace Ucore
namespace Vm

open Library

/-!
# What the tables map

The operations are described by what they do to three things: the entry of
each page of each address space, the frames of the table nodes, and the
frames.  `get_pte` only adds nodes, and any property that survives one added
node survives it.
-/

namespace AddressSpaces

variable {M : PmmManager}

/-- The entry of a page of an address space. -/
def entry (sys : AddressSpaces M) (d : Nat) (page : PageNumber) : Pte := (sys.pgdir d).pte page

/-- The frame that a page is mapped to. -/
def mapped (sys : AddressSpaces M) (slot : Nat × PageNumber) : Option Nat :=
  if (sys.entry slot.1 slot.2).v = true then some (sys.entry slot.1 slot.2).ppn else none

/-- The frames of the table nodes. -/
def nodes (sys : AddressSpaces M) (place : Nat × PageDirectory.Node) : Option Nat :=
  (sys.pgdir place.1).nodeFrame place.2

theorem mapped_eq_some {sys : AddressSpaces M} {slot : Nat × PageNumber} {page : Nat} :
    sys.mapped slot = some page <->
      (sys.entry slot.1 slot.2).v = true /\ (sys.entry slot.1 slot.2).ppn = page := by
  rw [mapped]
  by_cases valid : (sys.entry slot.1 slot.2).v = true
  · rw [if_pos valid, Option.some.injEq]
    exact ⟨fun same => ⟨valid, same⟩, fun both => both.2⟩
  · rw [if_neg valid]
    exact iff_of_false (fun same => Option.some_ne_none page same.symm) (fun both => valid both.1)

theorem loadPte_eq_entry (sys : AddressSpaces M) (d la : Nat) :
    sys.loadPte d la = sys.entry d (pageNumber la) := rfl

theorem mapped_of_valid {sys : AddressSpaces M} {d la : Nat} (valid : (sys.loadPte d la).v = true) :
    sys.mapped (d, pageNumber la) = some (sys.loadPte d la).ppn :=
  mapped_eq_some.mpr ⟨valid, rfl⟩

/-! ## Stores -/

@[simp] theorem pgdir_setPgdir (sys : AddressSpaces M) (d : Nat) (pgdir : PageDirectory) :
    (sys.setPgdir d pgdir).pgdir d = pgdir := by
  simp only [setPgdir, AddressSpaces.pgdir, Function.update_self]

theorem pgdir_setPgdir_of_ne (sys : AddressSpaces M) {d other : Nat} (different : other ≠ d)
    (pgdir : PageDirectory) : (sys.setPgdir d pgdir).pgdir other = sys.pgdir other := by
  simp only [setPgdir, AddressSpaces.pgdir, Function.update_of_ne different]

@[simp] theorem frames_setPgdir (sys : AddressSpaces M) (d : Nat) (pgdir : PageDirectory) :
    (sys.setPgdir d pgdir).frames = sys.frames := rfl

@[simp] theorem frames_storePte (sys : AddressSpaces M) (d la : Nat) (pte : Pte) :
    (sys.storePte d la pte).frames = sys.frames := rfl

@[simp] theorem frames_setFrames (sys : AddressSpaces M) (frames : Frames M) :
    (sys.setFrames frames).frames = frames := rfl

@[simp] theorem entry_setFrames (sys : AddressSpaces M) (frames : Frames M) (d : Nat) (page : PageNumber) :
    (sys.setFrames frames).entry d page = sys.entry d page := rfl

@[simp] theorem pgdir_setFrames (sys : AddressSpaces M) (frames : Frames M) (d : Nat) :
    (sys.setFrames frames).pgdir d = sys.pgdir d := rfl

@[simp] theorem mapped_setFrames (sys : AddressSpaces M) (frames : Frames M) :
    (sys.setFrames frames).mapped = sys.mapped := rfl

@[simp] theorem nodes_setFrames (sys : AddressSpaces M) (frames : Frames M) :
    (sys.setFrames frames).nodes = sys.nodes := rfl

/-- The areas and the cache stay when a directory is replaced. -/
theorem areas_setPgdir (sys : AddressSpaces M) (d other : Nat) (pgdir : PageDirectory) :
    ((sys.setPgdir d pgdir).mm other).mmapList = (sys.mm other).mmapList /\
      ((sys.setPgdir d pgdir).mm other).mmapCache = (sys.mm other).mmapCache := by
  simp only [setPgdir, Function.update_apply]
  by_cases same : other = d
  · subst same
    simp
  · simp [same]

theorem areas_storePte (sys : AddressSpaces M) (d la other : Nat) (pte : Pte) :
    ((sys.storePte d la pte).mm other).mmapList = (sys.mm other).mmapList /\
      ((sys.storePte d la pte).mm other).mmapCache = (sys.mm other).mmapCache :=
  sys.areas_setPgdir d other _

theorem entry_storePte {sys : AddressSpaces M} {d la : Nat}
    (present : ((sys.pgdir d).find la).isSome = true) (pte : Pte) (other : Nat) (page : PageNumber) :
    (sys.storePte d la pte).entry other page =
      if other = d /\ page = pageNumber la then pte else sys.entry other page := by
  rw [entry, storePte]
  by_cases same : other = d
  · subst same
    rw [pgdir_setPgdir, PageDirectory.pte_setPte present]
    simp [entry]
  · rw [pgdir_setPgdir_of_ne sys same, if_neg (fun both => same both.1)]
    rfl

theorem nodes_storePte (sys : AddressSpaces M) (d la : Nat) (pte : Pte) :
    (sys.storePte d la pte).nodes = sys.nodes := by
  funext place
  rw [nodes, nodes, storePte]
  by_cases same : place.1 = d
  · subst same
    rw [pgdir_setPgdir, PageDirectory.nodeFrame_setPte]
  · rw [pgdir_setPgdir_of_ne sys same]

theorem present_storePte {sys : AddressSpaces M} {d la : Nat} (pte : Pte) {other otherLa : Nat}
    (present : ((sys.pgdir other).find otherLa).isSome = true) :
    (((sys.storePte d la pte).pgdir other).find otherLa).isSome = true := by
  rw [storePte]
  by_cases same : other = d
  · subst same
    rw [pgdir_setPgdir]
    exact PageDirectory.find_setPte_isSome _ _ _ _ present
  · rw [pgdir_setPgdir_of_ne sys same]
    exact present

/-- Storing a valid entry maps its page. -/
theorem mapped_storePte {sys : AddressSpaces M} {d la : Nat}
    (present : ((sys.pgdir d).find la).isSome = true) (pte : Pte) :
    (sys.storePte d la pte).mapped =
      Function.update sys.mapped (d, pageNumber la) (if pte.v = true then some pte.ppn else none) := by
  funext slot
  rw [mapped, entry_storePte present, Function.update_apply]
  by_cases same : slot = (d, pageNumber la)
  · subst same
    simp
  · have different : ¬ (slot.1 = d /\ slot.2 = pageNumber la) :=
      fun both => same (Prod.ext both.1 both.2)
    rw [if_neg different, if_neg same]
    rfl

@[simp] theorem pgdir_cacheVma (sys : AddressSpaces M) (d addr other : Nat) :
    (sys.cacheVma d addr).pgdir other = sys.pgdir other := by
  rw [pgdir, pgdir, cacheVma]
  by_cases same : other = d
  · subst same
    simp only [Function.update_self, Mm.cacheVma]
    cases (sys.mm other).findVma addr <;> rfl
  · simp only [Function.update_of_ne same]

theorem entry_cacheVma (sys : AddressSpaces M) (d addr other : Nat) (page : PageNumber) :
    (sys.cacheVma d addr).entry other page = sys.entry other page := by
  rw [entry, entry, pgdir_cacheVma]

@[simp] theorem mapped_cacheVma (sys : AddressSpaces M) (d addr : Nat) :
    (sys.cacheVma d addr).mapped = sys.mapped := by
  funext slot
  rw [mapped, mapped, entry_cacheVma]

@[simp] theorem nodes_cacheVma (sys : AddressSpaces M) (d addr : Nat) :
    (sys.cacheVma d addr).nodes = sys.nodes := by
  funext place
  rw [nodes, nodes, pgdir_cacheVma]

/-- A valid entry lies in an existing table. -/
theorem present_of_valid {sys : AddressSpaces M} {d la : Nat} (valid : (sys.loadPte d la).v = true) :
    ((sys.pgdir d).find la).isSome = true := by
  cases found : (sys.pgdir d).find la with
  | none =>
      rw [loadPte, PageDirectory.pte, PageDirectory.find_pageNumber, found] at valid
      cases valid
  | some pte => rfl

/-! ## Added nodes -/

/-- One node of a table has been added, in a frame that a manager in order
takes from its pool. -/
structure AddsNode (sys next : AddressSpaces M) (place : Nat × PageDirectory.Node) (ppn : Nat) : Prop where
  entries : forall d page, next.entry d page = sys.entry d page
  areas : forall d, (next.mm d).mmapList = (sys.mm d).mmapList /\ (next.mm d).mmapCache = (sys.mm d).mmapCache
  vacant : sys.nodes place = none
  nodes : next.nodes = Function.update sys.nodes place (some ppn)
  takes : sys.frames.Sound -> sys.frames.Takes next.frames ppn
  ref : next.frames.ref = Function.update sys.frames.ref ppn 1
  cow : next.frames.cow = sys.frames.cow
  content : next.frames.content = sys.frames.content

theorem AddsNode.mapped {sys next : AddressSpaces M} {place : Nat × PageDirectory.Node} {ppn : Nat}
    (adds : AddsNode sys next place ppn) : next.mapped = sys.mapped := by
  funext slot
  rw [AddressSpaces.mapped, AddressSpaces.mapped, adds.entries]

theorem allocNode_takes {frames next : Frames M} {ppn : Nat} (sound : frames.Sound)
    (allocated : allocNode frames = some (ppn, next)) : frames.Takes next ppn := by
  rcases Option.map_eq_some_iff.mp allocated with ⟨result, taken, equal⟩
  cases equal
  have takes := Frames.allocPage_takes sound taken
  exact ⟨takes.wasFree, takes.free, takes.nrFree, takes.least, takes.sound⟩

theorem allocNode_keeps {frames next : Frames M} {ppn : Nat} (allocated : allocNode frames = some (ppn, next)) :
    next.ref = Function.update frames.ref ppn 1 /\ next.cow = frames.cow /\ next.content = frames.content := by
  rcases Option.map_eq_some_iff.mp allocated with ⟨result, taken, equal⟩
  cases equal
  rcases Frames.allocPage_keeps taken with ⟨ref, cow, content⟩
  refine ⟨?_, cow, content⟩
  change Function.update result.2.ref result.1 1 = _
  rw [ref]

theorem allocNode_eq_none {frames : Frames M} (sound : frames.Sound) (refused : allocNode frames = none) :
    M.nrFreePages frames.pool = 0 :=
  (Frames.allocPage_eq_none_iff sound).mp (Option.map_eq_none_iff.mp refused)

/-- Replacing a directory by one with one more node. -/
theorem addsNode_of_pgdir {sys : AddressSpaces M} {frames : Frames M} {d ppn : Nat} {pgdir : PageDirectory}
    {node : PageDirectory.Node} (allocated : allocNode sys.frames = some (ppn, frames))
    (vacant : (sys.pgdir d).nodeFrame node = none)
    (pte : forall page, pgdir.pte page = (sys.pgdir d).pte page)
    (nodeFrame : pgdir.nodeFrame = Function.update (sys.pgdir d).nodeFrame node (some ppn)) :
    AddsNode sys ((sys.setFrames frames).setPgdir d pgdir) (d, node) ppn := by
  rcases allocNode_keeps allocated with ⟨ref, cow, content⟩
  refine ⟨?_, ?_, vacant, ?_, fun sound => allocNode_takes sound allocated, ref, cow, content⟩
  · intro other page
    rw [entry, entry]
    by_cases same : other = d
    · subst same
      rw [pgdir_setPgdir]
      exact pte page
    · rw [pgdir_setPgdir_of_ne _ same]
      rfl
  · exact fun other => (sys.setFrames frames).areas_setPgdir d other pgdir
  · funext place
    rw [nodes]
    by_cases same : place.1 = d
    · rw [same, pgdir_setPgdir, nodeFrame, Function.update_apply, Function.update_apply]
      by_cases sameNode : place.2 = node
      · rw [if_pos sameNode, if_pos (Prod.ext same sameNode)]
      · rw [if_neg sameNode, if_neg (fun equal => sameNode (congrArg Prod.snd equal)), nodes, same]
    · rw [pgdir_setPgdir_of_ne _ same, Function.update_of_ne (fun equal => same (congrArg Prod.fst equal))]
      rfl

/-- The nodes that `get_pte` would have to add. -/
def missingNodes (sys : AddressSpaces M) (d la : Nat) : Nat :=
  match (sys.pgdir d).entry (pdx1 la) with
  | none => 2
  | some directory =>
      match directory.entry (pdx0 la) with
      | none => 1
      | some _ => 0

theorem getPte0_spec {sys : AddressSpaces M} {d la : Nat} {directory : PageDirectory0}
    (found : (sys.pgdir d).entry (pdx1 la) = some directory) (create : Bool) :
    (sys.getPte0 d la create = (((sys.pgdir d).find la).isSome, sys) /\
        (create = true -> ((sys.pgdir d).find la).isSome = false -> allocNode sys.frames = none)) \/
      Exists fun next => Exists fun ppn => create = true /\ sys.getPte0 d la create = (true, next) /\
        AddsNode sys next (d, .table (pdx1 la) (pdx0 la)) ppn /\
        directory.entry (pdx0 la) = none /\ ((next.pgdir d).find la).isSome = true := by
  rw [getPte0, PageDirectory.find, found]
  cases second : directory.entry (pdx0 la) with
  | some table =>
      left
      simp only [second, Option.bind_some, Option.map_some, Option.isSome_some]
      exact ⟨trivial, fun _ missing => Bool.noConfusion missing⟩
  | none =>
      simp only [second, Option.bind_some, Option.map_none, Option.isSome_none]
      cases create with
      | false => exact .inl ⟨rfl, fun creates => Bool.noConfusion creates⟩
      | true =>
          cases allocated : allocNode sys.frames with
          | none => exact .inl ⟨rfl, fun _ _ => rfl⟩
          | some result =>
              rcases result with ⟨ppn, frames⟩
              right
              refine ⟨(sys.setFrames frames).setPgdir d ((sys.pgdir d).addTable la ppn), ppn, rfl, rfl, ?_,
                trivial, ?_⟩
              · apply addsNode_of_pgdir allocated
                · rw [PageDirectory.nodeFrame, found, Option.bind_some, second]
                  rfl
                · exact fun page => PageDirectory.pte_addTable found second ppn page
                · exact PageDirectory.nodeFrame_addTable found ppn
              · rw [pgdir_setPgdir, PageDirectory.find, PageDirectory.addTable, found]
                simp

/-- Without `create` nothing changes, and the entry is found when its table
exists. -/
theorem getPte_lookup (sys : AddressSpaces M) (d la : Nat) :
    sys.getPte d la false = (((sys.pgdir d).find la).isSome, sys) := by
  rw [getPte]
  cases found : (sys.pgdir d).entry (pdx1 la) with
  | none =>
      rw [PageDirectory.find, found]
      rfl
  | some directory =>
      rcases getPte0_spec found false with ⟨kept, _⟩ | ⟨_, _, create, _⟩
      · exact kept
      · cases create

/-- The tables with a new directory of the second level. -/
def hang (sys : AddressSpaces M) (d la ppn : Nat) (frames : Frames M) : AddressSpaces M :=
  (sys.setFrames frames).setPgdir d ((sys.pgdir d).addDirectory0 la ppn)

theorem entry_hang (sys : AddressSpaces M) (d la ppn : Nat) (frames : Frames M) :
    ((sys.hang d la ppn frames).pgdir d).entry (pdx1 la) = some ⟨ppn, fun _ => none⟩ := by
  rw [hang, pgdir_setPgdir, PageDirectory.addDirectory0]
  exact Function.update_self ..

theorem hang_adds {sys : AddressSpaces M} {d la ppn : Nat} {frames : Frames M}
    (missing : (sys.pgdir d).entry (pdx1 la) = none) (allocated : allocNode sys.frames = some (ppn, frames)) :
    AddsNode sys (sys.hang d la ppn frames) (d, .directory0 (pdx1 la)) ppn := by
  apply addsNode_of_pgdir allocated
  · rw [PageDirectory.nodeFrame, missing]
    rfl
  · exact fun page => PageDirectory.pte_addDirectory0 missing ppn page
  · exact PageDirectory.nodeFrame_addDirectory0 missing ppn

/-- What survives an added node survives `get_pte`. -/
theorem getPte_preserves (property : AddressSpaces M -> Prop)
    (survives : forall sys next place ppn, property sys -> AddsNode sys next place ppn -> property next)
    {sys : AddressSpaces M} (holds : property sys) (d la : Nat) : property (sys.getPte d la true).2 := by
  have second : forall {sys : AddressSpaces M} {directory : PageDirectory0}, property sys ->
      (sys.pgdir d).entry (pdx1 la) = some directory -> property (sys.getPte0 d la true).2 := by
    intro sys directory holds found
    rcases getPte0_spec found true with ⟨kept, _⟩ | ⟨next, ppn, _, result, adds, _⟩
    · rw [kept]
      exact holds
    · rw [result]
      exact survives sys next _ ppn holds adds
  rw [getPte]
  cases found : (sys.pgdir d).entry (pdx1 la) with
  | some directory => exact second holds found
  | none =>
      cases allocated : allocNode sys.frames with
      | none => exact holds
      | some result =>
          rcases result with ⟨ppn, frames⟩
          have adds := hang_adds found allocated
          exact second (survives sys _ _ ppn holds adds) (entry_hang sys d la ppn frames)

/-- A successful `get_pte` returns a pointer into an existing table. -/
theorem getPte_success (sys : AddressSpaces M) (d la : Nat) (success : (sys.getPte d la true).1 = true) :
    (((sys.getPte d la true).2.pgdir d).find la).isSome = true := by
  have second : forall {sys : AddressSpaces M} {directory : PageDirectory0},
      (sys.pgdir d).entry (pdx1 la) = some directory -> (sys.getPte0 d la true).1 = true ->
        (((sys.getPte0 d la true).2.pgdir d).find la).isSome = true := by
    intro sys directory found success
    rcases getPte0_spec found true with ⟨kept, _⟩ | ⟨next, ppn, _, result, adds, missing, present⟩
    · rw [kept] at success ⊢
      exact success
    · rw [result]
      exact present
  rw [getPte] at success ⊢
  cases found : (sys.pgdir d).entry (pdx1 la) with
  | some directory =>
      simp only [found] at success ⊢
      exact second found success
  | none =>
      simp only [found] at success ⊢
      cases allocated : allocNode sys.frames with
      | none =>
          rw [allocated] at success
          cases success
      | some result =>
          rcases result with ⟨ppn, frames⟩
          simp only [allocated, if_true] at success ⊢
          exact second (entry_hang sys d la ppn frames) success

/-- What `get_pte` takes from a pool in order: a page for each missing node, or
all pages that there are. -/
structure GrowsTable (sys next : AddressSpaces M) (d la : Nat) (found : Bool) : Prop where
  sound : next.frames.Sound
  taken : found = true -> M.nrFreePages sys.frames.pool = M.nrFreePages next.frames.pool + sys.missingNodes d la
  spent : found = false -> M.nrFreePages next.frames.pool = 0
  short : found = false -> M.nrFreePages sys.frames.pool < sys.missingNodes d la

theorem getPte0_grows {sys : AddressSpaces M} {d la : Nat} {directory : PageDirectory0} (sound : sys.frames.Sound)
    (found : (sys.pgdir d).entry (pdx1 la) = some directory) :
    GrowsTable sys (sys.getPte0 d la true).2 d la (sys.getPte0 d la true).1 := by
  have missing : sys.missingNodes d la = if (directory.entry (pdx0 la)).isSome = true then 0 else 1 := by
    rw [missingNodes, found]
    dsimp only
    cases directory.entry (pdx0 la) <;> rfl
  have looked : ((sys.pgdir d).find la).isSome = (directory.entry (pdx0 la)).isSome := by
    rw [PageDirectory.find, found, Option.bind_some, Option.isSome_map]
  rcases getPte0_spec found true with ⟨kept, refused⟩ | ⟨next, ppn, _, result, adds, absent, _⟩
  · rw [kept]
    have empty (failed : ((sys.pgdir d).find la).isSome = false) : M.nrFreePages sys.frames.pool = 0 :=
      allocNode_eq_none sound (refused rfl failed)
    refine ⟨sound, fun success => ?_, empty, fun failed => ?_⟩
    · rw [missing, if_pos (looked ▸ success), Nat.add_zero]
    · have absent : ¬ (directory.entry (pdx0 la)).isSome = true :=
        Bool.eq_false_iff.mp (looked.symm.trans failed)
      rw [missing, if_neg absent, empty failed]
      exact Nat.one_pos
  · rw [result]
    refine ⟨(adds.takes sound).sound, fun _ => ?_, fun failed => ?_, fun failed => ?_⟩
    · rw [missing, absent]
      exact (adds.takes sound).nrFree
    · cases failed
    · cases failed

theorem getPte_grows {sys : AddressSpaces M} (sound : sys.frames.Sound) (d la : Nat) :
    GrowsTable sys (sys.getPte d la true).2 d la (sys.getPte d la true).1 := by
  rw [getPte]
  cases found : (sys.pgdir d).entry (pdx1 la) with
  | some directory => exact getPte0_grows sound found
  | none =>
      have missing : sys.missingNodes d la = 2 := by
        rw [missingNodes, found]
      cases allocated : allocNode sys.frames with
      | none =>
          have empty := allocNode_eq_none sound allocated
          refine ⟨sound, fun success => ?_, fun _ => empty, fun _ => ?_⟩
          · cases success
          · rw [missing, empty]
            exact Nat.two_pos
      | some result =>
          rcases result with ⟨ppn, frames⟩
          have takes := allocNode_takes sound allocated
          have hungSound : (sys.hang d la ppn frames).frames.Sound := takes.sound
          have grown := getPte0_grows hungSound (entry_hang sys d la ppn frames)
          have left : (sys.hang d la ppn frames).missingNodes d la = 1 := by
            rw [missingNodes, entry_hang]
          have all : M.nrFreePages sys.frames.pool =
              M.nrFreePages (sys.hang d la ppn frames).frames.pool + 1 := takes.nrFree
          refine ⟨grown.sound, fun success => ?_, grown.spent, fun failed => ?_⟩
          · have counted := grown.taken success
            rw [left] at counted
            rw [missing, all, counted]
            rfl
          · have short := grown.short failed
            rw [left] at short
            rw [missing, all]
            exact Nat.succ_lt_succ short

theorem getPte_entry (sys : AddressSpaces M) (d la other : Nat) (page : PageNumber) :
    (sys.getPte d la true).2.entry other page = sys.entry other page :=
  getPte_preserves (fun next => next.entry other page = sys.entry other page)
    (fun _ _ _ _ held adds => (adds.entries other page).trans held) rfl d la

/-- Nothing is added when the table exists. -/
theorem getPte_present {sys : AddressSpaces M} {d la : Nat} (present : ((sys.pgdir d).find la).isSome = true) :
    sys.getPte d la true = (true, sys) := by
  rcases PageDirectory.find_isSome present with ⟨directory, table, first, second⟩
  rw [getPte, first]
  simp only
  rw [getPte0, first]
  simp only [second]

/-! ## Address ranges -/

/-- The pages of an aligned range. -/
def pagesIn (start last : Nat) : List PageNumber :=
  (List.range' (start / pgSize) ((last - start) / pgSize)).map (fun number => pageNumber (number * pgSize))

theorem mem_pagesIn {start last : Nat} (startAligned : start % pgSize = 0) (lastAligned : last % pgSize = 0)
    (bound : last <= userTop) (page : PageNumber) :
    page ∈ pagesIn start last <-> start <= page.val * pgSize /\ page.val * pgSize < last := by
  have pageLt := page.isLt
  simp only [pagesIn, List.mem_map, List.mem_range'_1]
  simp only [pgSize, userTop] at *
  constructor
  · rintro ⟨number, range, same⟩
    have value : page.val = number := by
      rw [← same]
      simp only [pageNumber, pgSize]
      omega
    omega
  · intro range
    refine ⟨page.val, by omega, ?_⟩
    exact PageDirectory.pageNumber_page page

end AddressSpaces

end Vm
end Ucore
