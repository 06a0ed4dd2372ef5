import Ucore.Memory.SlubSound

namespace Ucore
namespace Memory

open Library
open Program

/-!
# What a cache conserves

As long as nothing is released, every slab has its objects either held or on
its list, and the cache can reach every slab.  An object that is released is
lost to the cache.  Slabs that are full go on the list of the node, from which
an allocation takes them later: whatever the state, further allocations end in
a load from `NULL`.
-/

namespace Slub

variable {cache : Cache} {slub before after : Slub} {free : Nat -> List Nat} {page other object start : Nat}
  {host : Option (Nat × Nat)} {memory : Nat -> Nat} {pages : Nat -> Slab} {events : List Event}

/-- The accounts of the slabs.  An object that was released can be allocated
again without a new slab. -/
structure Conserved (cache : Cache) (slub : Slub) : Prop where
  inuse : forall page, page ∈ slub.slabs -> (slub.page page).inuse = liveIn cache slub page
  lists : forall page, page ∈ slub.slabs -> Exists fun addresses => Exists fun processor =>
    Linked slub.memory (slub.page page).freelist addresses /\ Linked slub.memory slub.cpuFreelist processor /\
      (addresses.length + (if slub.cpuPage = some page then processor.length else 0 : Nat) : Int) =
        (slub.page page).objects - (slub.page page).inuse
  again : forall object, object ∈ slub.freed -> Exists fun count => Exists fun last =>
    (machine cache).run slub (List.replicate count (.alloc none)) = some last /\ object ∈ last.live
  reachable : forall page, page ∈ slub.slabs -> (holding slub).count page = 1 \/ Full slub page
  counted : slub.nrPartial = slub.nodePartial.length

/-! ## Without releases -/

/-- The objects of the slabs while none is released: each is held or on the list
of its slab, and the list of the processor is empty. -/
structure Clean (cache : Cache) (free : Nat -> List Nat) (slub : Slub) : Prop where
  inuse : forall page, page ∈ slub.slabs -> (slub.page page).inuse = liveIn cache slub page
  room : forall page, page ∈ slub.slabs -> (slub.page page).inuse + (free page).length = cache.objects
  processor : slub.cpuFreelist = 0
  freed : slub.freed = []

/-- Every slab is within reach once: it is the current one, on a list of partial
ones, or full. -/
structure Reached (slub : Slub) : Prop where
  single : forall page, page ∈ slub.slabs -> (holding slub).count page = 1
  counted : slub.nrPartial = slub.nodePartial.length

theorem empty_clean (memory : Nat -> Nat) (page : Nat -> Slab) : Clean cache free (empty memory page) where
  inuse _ member := nomatch member
  room _ member := nomatch member
  processor := rfl
  freed := rfl

theorem empty_reached (memory : Nat -> Nat) (page : Nat -> Slab) : Reached (empty memory page) where
  single _ member := nomatch member
  counted := rfl

namespace Clean

theorem conserved (clean : Clean cache free slub) (sound : Sound cache free slub) (reached : Reached slub) :
    Conserved cache slub where
  inuse := clean.inuse
  lists page member := by
    refine ⟨free page, [], sound.linked page member, clean.processor, ?_⟩
    have room := clean.room page member
    rw [sound.objects page member, List.length_nil, ite_self]
    push_cast
    omega
  again object released := by
    rw [clean.freed] at released
    exact nomatch released
  reachable page member := .inl (reached.single page member)
  counted := reached.counted

/-- An exhausted page is full, so that it goes on the list of the node. -/
theorem full (clean : Clean cache free slub) (sound : Sound cache free slub) (exhausted : Exhausted slub)
    (current : slub.cpuPage = some page) : Full slub page := by
  have member : page ∈ slub.slabs := Ready.member ⟨sound, current⟩
  have none := (sound.linked page member).eq_nil_iff.mpr (exhausted page current)
  have room := clean.room page member
  rw [none, List.length_nil] at room
  rw [Full, sound.objects page member]
  exact (Int.add_zero _).symm.trans room

theorem relisted (clean : Clean cache free before) (relisted : Relisted before after) : Clean cache free after where
  inuse page member := by
    rw [relisted.slabs] at member
    rw [liveIn, relisted.live, relisted.page]
    exact clean.inuse page member
  room page member := by
    rw [relisted.slabs] at member
    rw [relisted.page]
    exact clean.room page member
  processor := by rw [relisted.cpuFreelist]; exact clean.processor
  freed := by rw [relisted.freed]; exact clean.freed

theorem newSlab (clean : Clean cache free slub) (sound : Sound cache free slub) (fresh : page ∉ slub.slabs)
    (apart : forall other, other ∈ slub.slabs -> Disjoint cache start (slub.page other).sMem) {all : List Nat}
    (long : all.length = cache.objects) :
    Clean cache (Function.update free page all) (newSlab cache page start slub) where
  inuse other member := by
    rcases List.mem_cons.mp member with rfl | older
    · rw [sound.liveIn_newSlab_self apart, newSlab_page_self]
      rfl
    · have different := ne_of_mem_of_not_mem older fresh
      rw [liveIn_newSlab_other start different, newSlab_page_other start different]
      exact clean.inuse other older
  room other member := by
    rcases List.mem_cons.mp member with rfl | older
    · rw [newSlab_page_self, Function.update_self, long]
      exact Int.zero_add _
    · have different := ne_of_mem_of_not_mem older fresh
      rw [newSlab_page_other start different, Function.update_of_ne different]
      exact clean.room other older
  processor := clean.processor
  freed := clean.freed

theorem taken (clean : Clean cache free slub) (sound : Sound cache free slub) (member : page ∈ slub.slabs)
    {rest : List Nat} (first : free page = object :: rest) :
    Clean cache (Function.update free page rest) (taken page object slub) := by
  have placed := (sound.listed page object member (by rw [first]; exact List.mem_cons_self ..)).1
  constructor
  case inuse =>
    intro other found
    by_cases same : other = page
    · rw [same, liveIn_taken_self placed, taken_page_self]
      have counted := clean.inuse page member
      push_cast
      omega
    · rw [sound.liveIn_taken_other member found same placed, taken_page_other slub object same]
      exact clean.inuse other found
  case room =>
    intro other found
    by_cases same : other = page
    · rw [same, Function.update_self, taken_page_self]
      have room := clean.room page member
      rw [first, List.length_cons] at room
      push_cast at room
      dsimp only
      omega
    · rw [taken_page_other slub object same, Function.update_of_ne same]
      exact clean.room other found
  case processor => exact clean.processor
  case freed => exact clean.freed

end Clean

namespace Reached

/-- The pages within reach after a switch, where the former current page is
full. -/
theorem select (full : forall page, slub.cpuPage = some page -> Full slub page) {rest : List Nat}
    (single : forall other, other ∈ slub.slabs ->
      (page :: (slub.cpuPage.toList ++ (rest ++ slub.nodePartial))).count other = 1)
    (counted : slub.nrPartial = slub.nodePartial.length) :
    Reached { retired slub with cpuPage := some page, cpuPartial := rest } := by
  obtain ⟨_, node, number⟩ := retired_lists slub
  have all : slub.cpuPage.toList.filter (fun page => Full slub page) = slub.cpuPage.toList := by
    rw [List.filter_eq_self]
    intro page member
    exact decide_eq_true (full page (Option.mem_toList.mp member))
  rw [all] at node number
  constructor
  · intro other member
    have same : holding { retired slub with cpuPage := some page, cpuPartial := rest } =
        page :: (rest ++ (slub.cpuPage.toList ++ slub.nodePartial)) := by
      rw [holding, node]
      rfl
    have before := single other (by rw [← (retired_relisted slub).slabs]; exact member)
    rw [same]
    simp only [List.count_append, List.count_cons] at before ⊢
    omega
  · change (retired slub).nrPartial = (retired slub).nodePartial.length
    rw [node, number, List.length_append]
    push_cast
    omega

theorem refilled (reached : Reached slub) (cache : Cache) : Reached (refilled cache slub) := by
  obtain ⟨current, counts, number, _⟩ := refilled_lists cache slub
  constructor
  · intro page member
    rw [(refilled_relisted cache slub).slabs] at member
    have before := reached.single page member
    rw [holding, List.count_append] at before ⊢
    rw [current, counts]
    exact before
  · have before := reached.counted
    omega

end Reached

theorem prepared_clean (sound : Sound cache free slub) (clean : Clean cache free slub) (reached : Reached slub)
    (allowed : Allows cache slub (.alloc host)) {prepared : Slub} (prepares : Prepares cache host slub page prepared) :
    Exists fun next => Ready cache next prepared page /\ Clean cache next prepared /\ Reached prepared := by
  cases prepares with
  | current current some => exact ⟨free, ⟨sound, current⟩, clean, reached⟩
  | @listed rest exhausted first =>
      have moved := (refilled_relisted cache slub).trans (retired_relisted (refilled cache slub))
      have ready := clean.relisted (refilled_relisted cache slub)
      have within := reached.refilled cache
      refine ⟨free, sound.listed_ready first, clean.relisted
        ⟨moved.memory, moved.page, moved.cpuFreelist, moved.slabs, moved.regions, moved.live, moved.freed⟩,
        .select (fun page current => ready.full sound.refilled (refilled_exhausted cache exhausted) current)
          (fun other member => ?_) within.counted⟩
      have before := within.single other member
      rw [holding, first] at before
      simp only [List.count_append, List.count_cons] at before ⊢
      omega
  | @fresh start exhausted processor node given =>
      subst given
      obtain ⟨all, long, _, _, ready⟩ := sound.fresh_ready allowed.1 allowed.2.1 allowed.2.2
      have moved := retired_relisted (newSlab cache page start slub)
      have unheld : page ∉ holding slub := fun wrong => allowed.1 (sound.given page wrong)
      refine ⟨_, ready, (clean.newSlab sound allowed.1 allowed.2.2 long).relisted
        ⟨moved.memory, moved.page, moved.cpuFreelist, moved.slabs, moved.regions, moved.live, moved.freed⟩, ?_⟩
      rw [retired_cpuPartial]
      refine .select (fun former current => ?_) (fun other member => ?_) reached.counted
      · have older : former ∈ slub.slabs := Ready.member ⟨sound, current⟩
        rw [Full, newSlab_page_other start (ne_of_mem_of_not_mem older allowed.1)]
        exact clean.full sound exhausted current
      · change (page :: holding slub).count other = 1
        rcases List.mem_cons.mp member with rfl | older
        · rw [List.count_cons_self, List.count_eq_zero_of_not_mem unheld]
        · rw [List.count_cons_of_ne (ne_of_mem_of_not_mem older allowed.1).symm]
          exact reached.single other older

/-- Nothing is released.  `kmem_cache_free` puts an object on a list that no
allocation takes it from. -/
def Keeps : Event -> Prop
  | .alloc _ => True
  | .free object => object = 0
  | .write _ _ => True

instance : forall event, Decidable (Keeps event)
  | .alloc _ => inferInstanceAs (Decidable True)
  | .free _ => inferInstanceAs (Decidable (_ = _))
  | .write _ _ => inferInstanceAs (Decidable True)

theorem free_zero (slub : Slub) : kmemCacheFree cache 0 slub = .done () slub := by
  unfold kmemCacheFree
  rw [if_pos rfl]
  rfl

theorem step_eq (cache : Cache) (slub : Slub) (event : Event) : (machine cache).step slub event =
    if Allows cache slub event then (perform cache event slub).state else none := rfl

/-- The accounts of a state with nothing released. -/
structure Accounted (cache : Cache) (free : Nat -> List Nat) (slub : Slub) : Prop where
  sound : Sound cache free slub
  clean : Clean cache free slub
  reached : Reached slub

theorem Accounted.step (accounted : Accounted cache free before) {event : Event} (keeps : Keeps event)
    (stepped : (machine cache).step before event = some after) : Exists fun next => Accounted cache next after := by
  rw [step_eq] at stepped
  split at stepped
  case isFalse => exact nomatch stepped
  case isTrue allowed =>
    cases event with
    | alloc host =>
        rcases alloc_cases stepped with ⟨_, _, _, _, same⟩ | ⟨page, prepared, prepares, some, same⟩
        · rw [same]
          exact ⟨free, accounted⟩
        · obtain ⟨next, ready, clean, reached⟩ :=
            prepared_clean accounted.sound accounted.clean accounted.reached allowed prepares
          obtain ⟨rest, shape, _⟩ := (ready.sound.linked page ready.member).exists_cons some
          rw [same]
          exact ⟨_, ready.sound.taken ready.member shape, clean.taken ready.sound ready.member shape,
            reached.single, reached.counted⟩
    | free object =>
        cases keeps
        have same : perform cache (.free 0) before = .done () before := free_zero before
        rw [same] at stepped
        cases stepped
        exact ⟨free, accounted⟩
    | write object change =>
        cases stepped
        exact ⟨free, accounted.sound.written allowed change,
          ⟨accounted.clean.inuse, accounted.clean.room, accounted.clean.processor, accounted.clean.freed⟩,
          accounted.reached.single, accounted.reached.counted⟩

theorem run_accounted (keeps : forall event, event ∈ events -> Keeps event)
    (ran : (machine cache).run (empty memory pages) events = some after) :
    Exists fun free => Accounted cache free after := by
  have along : (machine cache).Along (fun _ event => Keeps event) (empty memory pages) events :=
    Machine.along_of_forall _ keeps _
  have kept : (fun state => Exists fun free => Accounted cache free state) after := by
    apply Machine.run_invariant _ _ along ran
    · intro state event next accounted keeps stepped
      obtain ⟨free, accounted⟩ := accounted
      exact accounted.step keeps stepped
    · exact ⟨fun _ => [], empty_sound memory pages, empty_clean memory pages, empty_reached memory pages⟩
  exact kept

/-! ## After a release -/

/-- The object is neither held nor on the list of a slab. -/
structure Lost (cache : Cache) (object : Nat) (free : Nat -> List Nat) (slub : Slub) : Prop where
  sound : Sound cache free slub
  unheld : object ∉ slub.live
  unlisted : forall page, page ∈ slub.slabs -> object ∉ free page

/-- Without a new slab, a lost object stays lost. -/
theorem Lost.step (lost : Lost cache object free before)
    (stepped : (machine cache).step before (.alloc none) = some after) :
    Exists fun next => Lost cache object next after := by
  rw [step_eq] at stepped
  split at stepped
  case isFalse forbidden => exact absurd trivial forbidden
  have taken : forall {page prepared}, Ready cache free prepared page -> prepared.live = before.live ->
      prepared.slabs = before.slabs -> (prepared.page page).freelist ≠ 0 ->
      Exists fun next => Lost cache object next (Slub.taken page (prepared.page page).freelist prepared) := by
    intro page prepared ready live slabs some
    obtain ⟨rest, shape, _⟩ := (ready.sound.linked page ready.member).exists_cons some
    have unlisted : forall page, page ∈ prepared.slabs -> object ∉ free page := by
      rw [slabs]
      exact lost.unlisted
    have absent := unlisted page ready.member
    rw [shape] at absent
    refine ⟨_, ready.sound.taken ready.member shape, fun held => ?_, fun other found present => ?_⟩
    · rcases List.mem_cons.mp held with same | older
      · exact absent (same ▸ List.mem_cons_self ..)
      · exact lost.unheld (live ▸ older)
    · by_cases same : other = page
      · rw [same, Function.update_self] at present
        exact absent (List.mem_cons_of_mem _ present)
      · rw [Function.update_of_ne same] at present
        exact unlisted other found present
  rcases alloc_cases stepped with ⟨_, _, _, _, same⟩ | ⟨page, prepared, prepares, some, same⟩
  · rw [same]
    exact ⟨free, lost⟩
  · rw [same]
    cases prepares with
    | current current first => exact taken ⟨lost.sound, current⟩ rfl rfl some
    | listed exhausted first =>
        have moved := (refilled_relisted cache before).trans (retired_relisted (refilled cache before))
        exact taken (lost.sound.listed_ready first) moved.live moved.slabs some
    | fresh exhausted processor node given => exact nomatch given

theorem lost_of_free (sound : Sound cache free before) (real : object ≠ 0)
    (stepped : (machine cache).step before (.free object) = some after) :
    Lost cache object free after /\ object ∈ after.freed := by
  rw [step_eq] at stepped
  split at stepped
  case isFalse => exact nomatch stepped
  case isTrue allowed =>
    have held : object ∈ before.live := allowed.resolve_left real
    have gone : object ∉ before.live.erase object := sound.once.not_mem_erase
    have listed : forall page, page ∈ before.slabs -> object ∉ free page := fun page member present =>
      (sound.listed page object member present).2 held
    rcases free_cases real with same | ⟨page, current, inside, same⟩
    · cases same.symm.trans stepped
      exact ⟨⟨sound.put held, gone, listed⟩, List.mem_cons_self ..⟩
    · cases same.symm.trans stepped
      have member : page ∈ before.slabs := Ready.member ⟨sound, current⟩
      have fewer := liveIn_put_self held inside
      have counted := sound.inuse page member
      have less : (liveIn cache (put object before) page : Int) <= (before.page page).inuse - 1 := by omega
      have result := ((sound.put held).lowered less).released current
      refine ⟨⟨result, ?_, fun other found => ?_⟩, ?_⟩
      · rw [released_live]
        exact gone
      · have kept := released_slabs found
        exact listed other kept
      · rw [released_freed]
        exact List.mem_cons_self ..

/-- What was released can not be allocated again. -/
theorem Lost.not_again (lost : Lost cache object free slub) (count : Nat) {last : Slub}
    (ran : (machine cache).run slub (List.replicate count (.alloc none)) = some last) : object ∉ last.live := by
  have along : (machine cache).Along (fun _ event => event = .alloc none) slub (List.replicate count (.alloc none)) :=
    Machine.along_of_forall _ (fun event member => (List.mem_replicate.mp member).2) _
  have kept : (fun state => Exists fun free => Lost cache object free state) last := by
    apply Machine.run_invariant _ _ along ran
    · intro state event next lost same stepped
      obtain ⟨free, lost⟩ := lost
      rw [same] at stepped
      exact lost.step stepped
    · exact ⟨free, lost⟩
  obtain ⟨_, lost⟩ := kept
  exact lost.unheld

/-- After a release the accounts do not hold. -/
theorem not_conserved_of_free {middle : Slub} (ran : (machine cache).run (empty memory pages) events = some middle)
    (real : object ≠ 0) (stepped : (machine cache).step middle (.free object) = some after) :
    ¬ Conserved cache after := by
  obtain ⟨free, sound⟩ := run_sound ran
  obtain ⟨lost, released⟩ := lost_of_free sound real stepped
  intro conserved
  obtain ⟨count, last, again, live⟩ := conserved.again object released
  exact lost.not_again count again live

/-- In a run that ends, the accounts hold in every state exactly when nothing
is released. -/
theorem conserved_iff_nothing_released (ran : (machine cache).run (empty memory pages) events = some after) :
    (forall front back middle, events = front ++ back ->
      (machine cache).run (empty memory pages) front = some middle -> Conserved cache middle) <->
    forall object, Event.free object ∈ events -> object = 0 := by
  constructor
  · intro conserved object member
    by_contra real
    obtain ⟨front, back, split⟩ := List.append_of_mem member
    rw [split, Machine.run_append] at ran
    obtain ⟨middle, reached, ran⟩ := Option.bind_eq_some_iff.mp ran
    rw [Machine.run_cons] at ran
    obtain ⟨next, stepped, _⟩ := Option.bind_eq_some_iff.mp ran
    have whole : (machine cache).run (empty memory pages) (front ++ [.free object]) = some next := by
      rw [Machine.run_concat, reached]
      exact stepped
    exact not_conserved_of_free reached real stepped
      (conserved (front ++ [.free object]) back next (by rw [split, List.append_assoc]; rfl) whole)
  · intro nothing front back middle split reached
    have keeps : forall event, event ∈ front -> Keeps event := by
      intro event member
      cases event with
      | alloc host => trivial
      | free object => exact nothing object (by rw [split]; exact List.mem_append_left _ member)
      | write object change => trivial
    obtain ⟨free, accounted⟩ := run_accounted keeps reached
    exact accounted.clean.conserved accounted.sound accounted.reached

theorem conserved_iff_nothing_released_holds : Exists fun after =>
    (machine testObjects).run created twoAllocs = some after /\ Conserved testObjects after := by
  have ran := (Option.some_get (by decide +kernel :
    ((machine testObjects).run created twoAllocs).isSome)).symm
  have nothing : forall object, Event.free object ∈ twoAllocs -> object = 0 := by
    intro object member
    simp [twoAllocs] at member
  exact ⟨_, ran, (conserved_iff_nothing_released ran).mpr nothing _ [] _ (List.append_nil _).symm ran⟩

theorem release_not_conserved : Exists fun after =>
    (machine testObjects).run created allocAllocFree = some after /\ ¬ Conserved testObjects after := by
  have ran := (Option.some_get (by decide +kernel : ((machine testObjects).run created allocAllocFree).isSome)).symm
  have split := ((machine testObjects).run_concat created twoAllocs (.free 8064)).symm.trans ran
  obtain ⟨middle, reached, stepped⟩ := Option.bind_eq_some_iff.mp split
  exact ⟨_, ran, not_conserved_of_free reached (by decide) stepped⟩

end Slub

end Memory
end Ucore
