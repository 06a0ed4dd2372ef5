import Ucore.Process.Family
import Mathlib.Data.List.Perm.Subperm

namespace Ucore
namespace Process

open Library

/-!
# The links of a family

The children of a process are a chain from its `cptr` on, and are those on the
process list that have it as their parent.  The operations on the lists and
links keep this.
-/

namespace Family

/-- The children of a process are these, in the order of their links. -/
def Tree (family : Family) (proc : Nat) (before : Option Nat) (members : List Nat) : Prop :=
  Chain family.optr family.yptr (family.cptr proc) before members /\
    forall child, child ∈ members <-> child ∈ family.procList /\ family.parent child = some proc

/-- The lists and links are as they have to be.  The links of the children of
a process that is `leaving` may have a loose end. -/
structure Sound (family : Family) (allocated : Nat -> Bool) (leaving : Option Nat) : Prop where
  once : family.procList.Nodup
  listed : forall proc, proc ∈ family.procList -> allocated proc = true
  count : family.nrProcess = 1 + family.procList.length
  hashedOnce : forall bucket, (family.hashList bucket).Nodup
  hashed : forall bucket proc, proc ∈ family.hashList bucket <->
    proc ∈ family.procList /\ pidHashfn (family.pid proc) = bucket
  apart : forall proc other, proc ∈ family.procList -> other ∈ family.procList ->
    family.pid proc = family.pid other -> proc = other
  /-- The pids between `last_pid` and `next_safe` are free. -/
  safe : forall proc, proc ∈ family.procList -> family.pid proc <= family.lastPid \/ family.nextSafe <= family.pid proc
  valid : forall proc, proc ∈ family.procList -> 0 < family.pid proc /\ family.pid proc < maxPid
  counter : 0 < family.lastPid
  parents : forall proc, proc ∈ family.procList -> Exists fun parent => family.parent proc = some parent /\
    allocated parent = true
  tree : forall proc, allocated proc = true -> Exists fun before => Exists fun members =>
    family.Tree proc before members /\ (leaving ≠ some proc -> before = none)

variable {family after : Family} {allocated : Nat -> Bool} {leaving before : Option Nat} {proc parent : Nat}
  {members : List Nat}

/-- The children of a process stay when none of them, and no link of theirs,
is touched. -/
theorem Tree.frame (tree : family.Tree proc before members) (head : after.cptr proc = family.cptr proc)
    (links : forall child, child ∈ members -> after.optr child = family.optr child /\
      after.yptr child = family.yptr child)
    (kin : forall child, (child ∈ after.procList /\ after.parent child = some proc) <->
      (child ∈ family.procList /\ family.parent child = some proc)) : after.Tree proc before members := by
  constructor
  · rw [head]
    exact tree.1.congr (fun child member => (links child member).1) (fun child member => (links child member).2)
  · exact fun child => (tree.2 child).trans (kin child).symm

/-! ## A new process -/

theorem Sound.allocProc (sound : family.Sound allocated none) (fresh : allocated proc = false) :
    (family.allocProc proc).Sound (Function.update allocated proc true) none := by
  have unlisted : forall child, child ∈ family.procList -> child ≠ proc := by
    rintro child member rfl
    exact absurd (sound.listed child member) (by rw [fresh]; exact Bool.false_ne_true)
  have stays : forall other, allocated other = true -> Function.update allocated proc true other = true := by
    intro other there
    by_cases same : other = proc
    · rw [same, Function.update_self]
    · rw [Function.update_of_ne same, there]
  have pids : forall child, child ∈ family.procList -> (family.allocProc proc).pid child = family.pid child :=
    fun child member => Function.update_of_ne (unlisted child member) _ _
  have kin : forall child, child ∈ family.procList -> (family.allocProc proc).parent child = family.parent child :=
    fun child member => Function.update_of_ne (unlisted child member) _ _
  refine ⟨sound.once, fun child member => stays child (sound.listed child member), sound.count, sound.hashedOnce, ?_,
    ?_,
    ?_, ?_, sound.counter, ?_, ?_⟩
  · intro bucket child
    rw [show (family.allocProc proc).hashList = family.hashList from rfl, sound.hashed]
    exact and_congr_right fun member => by rw [pids child member]
  · intro child other member too same
    rw [pids child member, pids other too] at same
    exact sound.apart child other member too same
  · intro child member
    rw [pids child member]
    exact sound.safe child member
  · intro child member
    rw [pids child member]
    exact sound.valid child member
  · intro child member
    rcases sound.parents child member with ⟨parent, named, there⟩
    exact ⟨parent, (kin child member).trans named, stays parent there⟩
  · intro other there
    by_cases same : other = proc
    · subst same
      refine ⟨none, [], ⟨Function.update_self .., fun child => ?_⟩, fun _ => rfl⟩
      refine ⟨fun member => (nomatch member), fun both => ?_⟩
      rcases sound.parents child both.1 with ⟨parent, named, live⟩
      have named' : family.parent child = some other := (kin child both.1).symm.trans both.2
      rw [named] at named'
      rw [Option.some.inj named', fresh] at live
      cases live
    · rw [Function.update_of_ne same] at there
      rcases sound.tree other there with ⟨before, members, tree, ends⟩
      refine ⟨before, members, tree.frame (Function.update_of_ne same _ _) (fun child member => ?_) (fun child => ?_),
        ends⟩
      · have distinct := unlisted child ((tree.2 child).mp member).1
        exact ⟨Function.update_of_ne distinct _ _, Function.update_of_ne distinct _ _⟩
      · exact and_congr_right fun member => by rw [kin child member]

/-- The parent of a process that is not listed yet is set. -/
theorem Sound.setParent (sound : family.Sound allocated none) (fresh : proc ∉ family.procList) (parent : Option Nat) :
    ({ family with parent := Function.update family.parent proc parent } : Family).Sound allocated none := by
  have kin : forall child, child ∈ family.procList ->
      Function.update family.parent proc parent child = family.parent child := by
    intro child member
    exact Function.update_of_ne (ne_of_mem_of_not_mem member fresh) _ _
  refine { sound with parents := ?_, tree := ?_ }
  · intro child member
    rcases sound.parents child member with ⟨parent, named, there⟩
    exact ⟨parent, (kin child member).trans named, there⟩
  · intro other there
    rcases sound.tree other there with ⟨before, members, tree, ends⟩
    refine ⟨before, members, tree.frame rfl (fun _ _ => ⟨rfl, rfl⟩) (fun child => ?_), ends⟩
    exact and_congr_right fun member => by dsimp only; rw [kin child member]

/-- A process that is not listed is freed. -/
theorem Sound.free (sound : family.Sound allocated none) (fresh : proc ∉ family.procList)
    (childless : forall child, child ∈ family.procList -> family.parent child ≠ some proc) :
    family.Sound (Function.update allocated proc false) none := by
  have stays : forall other, other ≠ proc -> Function.update allocated proc false other = allocated other :=
    fun other distinct => Function.update_of_ne distinct _ _
  refine { sound with listed := ?_, parents := ?_, tree := ?_ }
  · intro child member
    rw [stays child fun same => fresh (same ▸ member)]
    exact sound.listed child member
  · intro child member
    rcases sound.parents child member with ⟨parent, named, there⟩
    refine ⟨parent, named, ?_⟩
    rw [stays parent fun same => childless child member (same ▸ named)]
    exact there
  · intro other there
    by_cases same : other = proc
    · rw [same, Function.update_self] at there
      cases there
    · rw [stays other same] at there
      exact sound.tree other there

/-! ## Linking -/

/-- A node that the links of one process's children name is no child of
another process. -/
theorem Tree.apart {other : Nat} {others : List Nat} {behind : Option Nat} (tree : family.Tree proc before members)
    (elsewhere : family.Tree other behind others) (distinct : other ≠ proc) {child : Nat} (member : child ∈ members) :
    child ∉ others := by
  intro present
  have first := ((tree.2 child).mp member).2
  have second := ((elsewhere.2 child).mp present).2
  exact distinct (Option.some.inj (second.symm.trans first))

theorem Sound.setLinks (sound : family.Sound allocated none) (fresh : proc ∉ family.procList)
    (there : allocated proc = true) (named : family.parent proc = some parent) (live : allocated parent = true)
    (free : forall other, other ∈ family.procList -> family.pid other ≠ family.pid proc)
    (safe : family.pid proc <= family.lastPid \/ family.nextSafe <= family.pid proc)
    (valid : 0 < family.pid proc /\ family.pid proc < maxPid) :
    ((family.hashProc proc).setLinks proc parent).Sound allocated none := by
  have unlisted : forall child, child ∈ family.procList -> child ≠ proc :=
    fun child member => ne_of_mem_of_not_mem member fresh
  have unhashed : forall bucket, proc ∉ family.hashList bucket :=
    fun bucket member => fresh ((sound.hashed bucket proc).mp member).1
  refine ⟨List.nodup_cons.mpr ⟨fresh, sound.once⟩, List.forall_mem_cons.mpr ⟨there, sound.listed⟩, ?_, ?_, ?_, ?_,
    List.forall_mem_cons.mpr ⟨safe, sound.safe⟩, List.forall_mem_cons.mpr ⟨valid, sound.valid⟩, sound.counter,
    List.forall_mem_cons.mpr ⟨⟨parent, named, live⟩, sound.parents⟩, ?_⟩
  · have count := sound.count
    change family.nrProcess + 1 = 1 + ((proc :: family.procList).length : Int)
    rw [List.length_cons]
    omega
  · intro bucket
    change (Function.update family.hashList _ _ bucket).Nodup
    by_cases here : bucket = pidHashfn (family.pid proc)
    · subst here
      rw [Function.update_self]
      exact List.nodup_cons.mpr ⟨unhashed _, sound.hashedOnce _⟩
    · rw [Function.update_of_ne here]
      exact sound.hashedOnce bucket
  · intro bucket child
    change child ∈ Function.update family.hashList _ _ bucket <->
      child ∈ proc :: family.procList /\ pidHashfn (family.pid child) = bucket
    by_cases here : bucket = pidHashfn (family.pid proc)
    · subst here
      rw [Function.update_self, List.mem_cons, List.mem_cons, sound.hashed]
      constructor
      · rintro (rfl | both)
        · exact ⟨.inl rfl, rfl⟩
        · exact ⟨.inr both.1, both.2⟩
      · rintro ⟨rfl | member, hash⟩
        · exact .inl rfl
        · exact .inr ⟨member, hash⟩
    · rw [Function.update_of_ne here, sound.hashed, List.mem_cons]
      constructor
      · exact fun both => ⟨.inr both.1, both.2⟩
      · rintro ⟨rfl | member, hash⟩
        · exact absurd hash.symm here
        · exact ⟨member, hash⟩
  · intro child other member too same
    change family.pid child = family.pid other at same
    rcases List.mem_cons.mp member with rfl | old
    · rcases List.mem_cons.mp too with rfl | oldToo
      · rfl
      · exact absurd same.symm (free other oldToo)
    · rcases List.mem_cons.mp too with rfl | oldToo
      · exact absurd same (free child old)
      · exact sound.apart child other old oldToo same
  · intro other exists_
    rcases sound.tree parent live with ⟨none_, brood, tree, ends⟩
    have closed := ends (by simp)
    subst closed
    by_cases same : other = parent
    · subst same
      have absent : proc ∉ brood := fun member => fresh ((tree.2 proc).mp member).1
      refine ⟨none, proc :: brood, ⟨?_, fun child => ?_⟩, fun _ => rfl⟩
      · change Chain _ _ (Function.update family.cptr other (some proc) other) none (proc :: brood)
        rw [Function.update_self]
        exact tree.1.push absent
      · change child ∈ proc :: brood <-> child ∈ proc :: family.procList /\ family.parent child = some other
        rw [List.mem_cons, List.mem_cons, tree.2]
        constructor
        · rintro (rfl | both)
          · exact ⟨.inl rfl, named⟩
          · exact ⟨.inr both.1, both.2⟩
        · rintro ⟨rfl | member, kin⟩
          · exact .inl rfl
          · exact .inr ⟨member, kin⟩
    · rcases sound.tree other exists_ with ⟨before, members, elsewhere, endsToo⟩
      refine ⟨before, members, elsewhere.frame (Function.update_of_ne same _ _) (fun child member => ?_)
        (fun child => ?_),
        endsToo⟩
      · have distinct := unlisted child ((elsewhere.2 child).mp member).1
        refine ⟨Function.update_of_ne distinct _ _,
          (relink_other fun elder => ?_).trans (Function.update_of_ne distinct _ _)⟩
        change family.cptr parent = some child at elder
        rw [tree.1.head_eq] at elder
        exact tree.apart elsewhere same (List.mem_of_mem_head? elder) member
      · change (child ∈ proc :: family.procList /\ family.parent child = some other) <-> _
        rw [List.mem_cons]
        constructor
        · rintro ⟨rfl | member, kin⟩
          · exact absurd (Option.some.inj (kin.symm.trans named)) same
          · exact ⟨member, kin⟩
        · exact fun both => ⟨.inr both.1, both.2⟩

theorem Sound.removeLinks (sound : family.Sound allocated none) (listed : proc ∈ family.procList)
    (named : family.parent proc = some parent) :
    ((family.unhashProc proc).removeLinks proc parent).Sound allocated none := by
  have fewer : forall child, child ∈ family.procList.erase proc <-> child ≠ proc /\ child ∈ family.procList :=
    fun child => sound.once.mem_erase_iff
  refine ⟨sound.once.erase proc, fun child member => sound.listed child ((fewer child).mp member).2, ?_, ?_, ?_, ?_,
    fun child member => sound.safe child ((fewer child).mp member).2,
    fun child member => sound.valid child ((fewer child).mp member).2, sound.counter,
    fun child member => sound.parents child ((fewer child).mp member).2, ?_⟩
  · have count := sound.count
    have length := List.length_erase_of_mem listed
    have positive := List.length_pos_of_mem listed
    change family.nrProcess - 1 = 1 + ((family.procList.erase proc).length : Int)
    rw [length]
    omega
  · exact fun bucket => (sound.hashedOnce bucket).erase proc
  · intro bucket child
    change child ∈ (family.hashList bucket).erase proc <->
      child ∈ family.procList.erase proc /\ pidHashfn (family.pid child) = bucket
    rw [(sound.hashedOnce bucket).mem_erase_iff, fewer, sound.hashed, and_assoc]
  · exact fun child other member too =>
      sound.apart child other ((fewer child).mp member).2 ((fewer other).mp too).2
  · intro other exists_
    rcases sound.parents proc listed with ⟨parent', named', live⟩
    cases Option.some.inj (named.symm.trans named')
    rcases sound.tree parent live with ⟨none_, brood, tree, ends⟩
    have closed := ends (by simp)
    subst closed
    have present := (tree.2 proc).mpr ⟨listed, named⟩
    by_cases same : other = parent
    · subst same
      refine ⟨none, brood.erase proc, ⟨?_, fun child => ?_⟩, fun _ => rfl⟩
      · have removed := tree.1.remove present
        change Chain _ _ ((if family.yptr proc = none then Function.update family.cptr other (family.optr proc)
          else family.cptr) other) none _
        by_cases first : family.yptr proc = none
        · rw [if_pos first, Function.update_self]
          rw [if_pos first] at removed
          exact removed
        · rw [if_neg first]
          rw [if_neg first] at removed
          exact removed
      · change _ <-> child ∈ family.procList.erase proc /\ _
        rw [tree.1.nodup.mem_erase_iff, fewer, tree.2, and_assoc]
        rfl
    · rcases sound.tree other exists_ with ⟨before, members, elsewhere, endsToo⟩
      refine ⟨before, members, elsewhere.frame ?_ (fun child member => ?_) (fun child => ?_), endsToo⟩
      · change (if family.yptr proc = none then Function.update family.cptr parent (family.optr proc)
          else family.cptr) other = _
        split
        · exact Function.update_of_ne same _ _
        · rfl
      · constructor
        · exact relink_other fun behind => tree.apart elsewhere same (tree.1.back_mem present behind) member
        · exact relink_other fun onward => tree.apart elsewhere same (tree.1.next_mem present onward) member
      · change (child ∈ family.procList.erase proc /\ _) <-> _
        rw [fewer]
        constructor
        · exact fun both => ⟨both.1.2, both.2⟩
        · refine fun both => ⟨⟨fun here => same ?_, both.1⟩, both.2⟩
          have kin : family.parent child = some other := both.2
          rw [here, named] at kin
          exact (Option.some.inj kin).symm

/-- A child of the leaving process goes to `initproc`. -/
theorem Sound.adopt {current initproc : Nat} (sound : family.Sound allocated (some current))
    (distinct : initproc ≠ current) (live : allocated initproc = true) (alive : allocated current = true)
    (first : family.cptr current = some proc) :
    (family.adopt current initproc proc).Sound allocated (some current) := by
  rcases sound.tree initproc live with ⟨none_, brood, tree, ends⟩
  have closed := ends fun same => distinct (Option.some.inj same).symm
  subst closed
  rcases sound.tree current alive with ⟨before, members, orphans, _⟩
  have start := orphans.1.head_eq
  rw [first] at start
  cases members with
  | nil => cases start
  | cons same rest =>
      cases start
      have listed := ((orphans.2 proc).mp (List.mem_cons_self ..)).1
      have apart : forall child, child ∈ rest -> child ≠ proc :=
        fun child member => ne_of_mem_of_not_mem member (List.nodup_cons.mp orphans.1.nodup).1
      have absent : proc ∉ brood := orphans.apart tree distinct (List.mem_cons_self ..)
      have kin : forall child other,
        (child ∈ family.procList /\ Function.update family.parent proc (some initproc) child =
          some other) <-> if child = proc then other = initproc else child ∈ family.procList /\
            family.parent child = some other := by
        intro child other
        by_cases here : child = proc
        · rw [here, Function.update_self, if_pos rfl]
          exact ⟨fun both => (Option.some.inj both.2).symm, fun same => ⟨listed, congrArg some same.symm⟩⟩
        · rw [Function.update_of_ne here, if_neg here]
      refine { sound with parents := ?_, tree := ?_ }
      · intro child member
        by_cases here : child = proc
        · exact ⟨initproc, by rw [here]; exact Function.update_self .., live⟩
        · rcases sound.parents child member with ⟨parent, named, there⟩
          exact ⟨parent, (Function.update_of_ne here _ _).trans named, there⟩
      · intro other there
        by_cases here : other = initproc
        · subst here
          refine ⟨none, proc :: brood, ⟨?_, fun child => ?_⟩, fun _ => rfl⟩
          · change Chain _ _ (Function.update (Function.update family.cptr current (family.optr proc)) other
              (some proc) other) none (proc :: brood)
            rw [Function.update_self]
            exact tree.1.push absent
          · refine Iff.trans ?_ (kin child other).symm
            rw [List.mem_cons, tree.2]
            split
            · rename_i same
              exact ⟨fun _ => rfl, fun _ => .inl same⟩
            · rename_i differs
              exact ⟨fun either => either.resolve_left differs, .inr⟩
        · have elder : forall child, child ∉ brood -> family.cptr initproc ≠ some child := by
            intro child outside same
            rw [tree.1.head_eq] at same
            exact outside (List.mem_of_mem_head? same)
          by_cases mine : other = current
          · subst mine
            refine ⟨some proc, rest, ⟨?_, fun child => ?_⟩, fun absurd_ => absurd rfl absurd_⟩
            · change Chain _ _ (Function.update (Function.update family.cptr other (family.optr proc)) initproc
                (some proc) other) (some proc) rest
              rw [Function.update_of_ne here, Function.update_self]
              refine orphans.1.2.2.congr (fun child member => Function.update_of_ne (apart child member) _ _)
                (fun child member => ?_)
              have outside : child ∉ brood := orphans.apart tree distinct (List.mem_cons_of_mem _ member)
              exact (relink_other (elder child outside)).trans (Function.update_of_ne (apart child member) _ _)
            · refine Iff.trans ?_ (kin child other).symm
              have whole := orphans.2 child
              rw [List.mem_cons] at whole
              split
              · rename_i same
                rw [same]
                exact ⟨fun member => absurd rfl (apart proc member), fun same => absurd same here⟩
              · rename_i differs
                exact ⟨fun member => whole.mp (.inr member), fun both => (whole.mpr both).resolve_left differs⟩
          · rcases sound.tree other there with ⟨behind, others, elsewhere, endsToo⟩
            have outside : proc ∉ others := orphans.apart elsewhere mine (List.mem_cons_self ..)
            refine ⟨behind, others, elsewhere.frame ?_ (fun child member => ?_) (fun child => ?_), endsToo⟩
            · exact (Function.update_of_ne here _ _).trans (Function.update_of_ne mine _ _)
            · have differs : child ≠ proc := ne_of_mem_of_not_mem member outside
              have aside : child ∉ brood := elsewhere.apart tree (Ne.symm here) member
              exact ⟨Function.update_of_ne differs _ _,
                (relink_other (elder child aside)).trans (Function.update_of_ne differs _ _)⟩
            · refine (kin child other).trans ?_
              split
              · rename_i same
                rw [same]
                refine ⟨fun same => absurd same here, fun both => absurd ((elsewhere.2 proc).mpr both) outside⟩
              · rfl

theorem Sound.left {current : Nat} (sound : family.Sound allocated (some current))
    (alone : family.cptr current = none) :
    family.Sound allocated none := by
  refine { sound with tree := ?_ }
  intro other there
  rcases sound.tree other there with ⟨before, members, tree, ends⟩
  by_cases same : other = current
  · subst same
    cases members with
    | nil => exact ⟨none, [], tree, fun _ => rfl⟩
    | cons child rest => exact absurd (alone.symm.trans tree.1.1) (by simp)
  · exact ⟨before, members, tree, fun _ => ends fun here => same (Option.some.inj here).symm⟩

/-- A process that leaves may have all links of its children in order. -/
theorem Sound.leave (sound : family.Sound allocated none) (current : Nat) : family.Sound allocated (some current) := by
  refine { sound with tree := ?_ }
  intro other there
  rcases sound.tree other there with ⟨before, members, tree, ends⟩
  exact ⟨before, members, tree, fun _ => ends (by simp)⟩

/-! ## Looking up -/

/-- `find_proc` finds the listed process with the pid. -/
theorem Sound.findProc_eq (sound : family.Sound allocated leaving) {pid : Int} :
    family.findProc pid = some proc <->
      (0 < pid /\ pid < maxPid) /\ proc ∈ family.procList /\ family.pid proc = pid := by
  unfold findProc
  split
  · rename_i valid
    constructor
    · intro found
      have same := List.find?_some found
      have member := (sound.hashed _ proc).mp (List.mem_of_find?_eq_some found)
      exact ⟨valid, member.1, of_decide_eq_true same⟩
    · rintro ⟨_, listed, rfl⟩
      have member := (sound.hashed _ proc).mpr ⟨listed, rfl⟩
      have somewhere : ((family.hashList (pidHashfn (family.pid proc))).find?
          (fun other => decide (family.pid other = family.pid proc))).isSome = true :=
        List.find?_isSome.mpr ⟨proc, member, decide_eq_true rfl⟩
      rcases Option.isSome_iff_exists.mp somewhere with ⟨other, found⟩
      have same : family.pid other = family.pid proc := by simpa using List.find?_some found
      have listedToo := ((sound.hashed _ other).mp (List.mem_of_find?_eq_some found)).1
      rw [found, sound.apart other proc listedToo listed same]
  · rename_i invalid
    exact ⟨fun found => (nomatch found), fun all => absurd all.1 invalid⟩

theorem siblings_eq {head : Option Nat} {fuel : Nat} (chain : Chain family.optr family.yptr head before members)
    (enough : members.length <= fuel) : family.siblings fuel head = some members := by
  induction members generalizing head before fuel with
  | nil =>
      rw [show head = none from chain]
      cases fuel <;> rfl
  | cons child rest inductionHypothesis =>
      rw [chain.1]
      cases fuel with
      | zero => exact absurd enough (Nat.not_succ_le_zero _)
      | succ fuel =>
          rw [siblings, inductionHypothesis chain.2.2 (Nat.le_of_succ_le_succ enough)]
          rfl

/-- A process has no more children than there are processes. -/
theorem Tree.few (tree : family.Tree proc before members) :
    members.length <= family.procList.length :=
  List.Subperm.length_le (List.subperm_of_subset tree.1.nodup fun child member => ((tree.2 child).mp member).1)

/-- The walk over the children meets them all, and ends. -/
theorem Tree.children_eq (tree : family.Tree proc before members) : family.children proc = some members :=
  siblings_eq tree.1 tree.few

end Family

end Process
end Ucore
