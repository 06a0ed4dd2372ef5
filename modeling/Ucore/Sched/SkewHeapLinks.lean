import Ucore.Library.TreeLinks
import Ucore.Sched.Stride

namespace Ucore
namespace SkewHeapLinks

open Library
open TreeMemory

/-!
# The skew heap in memory

The functions of `skew_heap.h` work on entries that have pointers to their
parent and their children.  They do on the entries what the operations of the
heaps do on trees, and the pointers to the parents stay right.
-/

variable {Node : Type}

/-! ## `skew_heap.h` -/

section Source

variable [DecidableEq Node]

def skewHeapInit (a : Node) (memory : TreeMemory Node) : TreeMemory Node := Function.update memory a ⟨none, none, none⟩

/-- `if (entry) entry->parent = parent` -/
def setParent (entry parent : Option Node) (memory : TreeMemory Node) : TreeMemory Node :=
  match entry with
  | none => memory
  | some entry => Function.update memory entry { memory entry with parent := parent }

/-- `a->left = l; a->right = r; if (l) l->parent = a` -/
def attach (a : Node) (l r : Option Node) (memory : TreeMemory Node) : TreeMemory Node :=
  setParent l (some a) (Function.update memory a { memory a with left := l, right := r })

/-- `skew_heap_merge`; `none` when the calls are nested too deep. -/
def skewHeapMerge (comp : Node -> Node -> Int) : Nat -> Option Node -> Option Node -> TreeMemory Node ->
    Option (Option Node × TreeMemory Node)
  | _, none, b, memory => some (b, memory)
  | _, some a, none, memory => some (some a, memory)
  | 0, some _, some _, _ => none
  | depth + 1, some a, some b, memory =>
      if comp a b = -1 then do
        let r := (memory a).left
        let (l, memory) <- skewHeapMerge comp depth (memory a).right (some b) memory
        some (some a, attach a l r memory)
      else do
        let r := (memory b).left
        let (l, memory) <- skewHeapMerge comp depth (some a) (memory b).right memory
        some (some b, attach b l r memory)

def skewHeapInsert (comp : Node -> Node -> Int) (depth : Nat) (a : Option Node) (b : Node) (memory : TreeMemory Node) :
    Option (Option Node × TreeMemory Node) := skewHeapMerge comp depth a (some b) (skewHeapInit b memory)

/-- `if (p->left == b) p->left = rep; else p->right = rep` -/
def replaceChild (p b : Node) (rep : Option Node) (memory : TreeMemory Node) : TreeMemory Node :=
  Function.update memory p
    (if (memory p).left = some b then { memory p with left := rep } else { memory p with right := rep })

def skewHeapRemove (comp : Node -> Node -> Int) (depth : Nat) (a : Option Node) (b : Node) (memory : TreeMemory Node) :
    Option (Option Node × TreeMemory Node) := do
  let p := (memory b).parent
  let (rep, memory) <- skewHeapMerge comp depth (memory b).left (memory b).right memory
  let memory := setParent rep p memory
  match p with
  | some p => some (a, replaceChild p b rep memory)
  | none => some (rep, memory)

end Source

/-- The test of `skew_heap_merge` -/
def before (comp : Node -> Node -> Int) (a b : Node) : Bool := decide (comp a b = -1)

/-! ## Merging -/

section Merging

variable [DecidableEq Node] {comp : Node -> Node -> Int} {memory : TreeMemory Node}
  {first second merged kept : SkewHeap Node}
  {a : Node} {l r p q root : Option Node}

theorem setParent_other {entry parent : Option Node} {node : Node} (different : entry ≠ some node) :
    setParent entry parent memory node = memory node := by
  cases entry with
  | none => rfl
  | some entry =>
      apply Function.update_of_ne
      rintro rfl
      exact different rfl

theorem setParent_children (entry parent : Option Node) (node : Node) :
    (setParent entry parent memory node).left = (memory node).left /\
      (setParent entry parent memory node).right = (memory node).right := by
  by_cases here : entry = some node
  · subst here
    unfold setParent
    dsimp only
    rw [Function.update_self]
    exact ⟨rfl, rfl⟩
  · rw [setParent_other here]
    exact ⟨rfl, rfl⟩

theorem setParent_parent {entry parent : Option Node} : HasParent (setParent entry parent memory) entry parent := by
  rintro node rfl
  unfold setParent
  dsimp only
  rw [Function.update_self]

theorem setParent_holds (holds : Holds memory first root) (nodup : first.toList.Nodup) (parent : Option Node) :
    Holds (setParent root parent memory) first root :=
  holds.congr nodup (fun node _ => setParent_children root parent node)
    fun _ _ different => by rw [setParent_other different]

/-- The merged children of a node are hung on its left, and the other child on
its right. -/
theorem attach_holds (mergedHolds : Holds memory merged l) (keptHolds : Holds memory kept r)
    (parent : HasParent memory r (some a)) (nodup : (SkewHeap.node merged a kept).toList.Nodup) :
    Holds (attach a l r memory) (.node merged a kept) (some a) /\
      (forall node, node ≠ a -> node ∉ merged.toList -> attach a l r memory node = memory node) /\
      (attach a l r memory a).parent = (memory a).parent := by
  obtain ⟨fresh, rest⟩ := List.nodup_cons.mp nodup
  obtain ⟨mergedNodup, keptNodup, apart⟩ := List.nodup_append.mp rest
  have notMerged : a ∉ merged.toList := fun member => fresh (List.mem_append_left _ member)
  have notKept : a ∉ kept.toList := fun member => fresh (List.mem_append_right _ member)
  have notRoot : forall node, node ∉ merged.toList -> l ≠ some node := by
    rintro node absent rfl
    exact absent mergedHolds.root_mem
  have others : forall node, node ≠ a -> node ∉ merged.toList -> attach a l r memory node = memory node := by
    intro node different absent
    unfold attach
    rw [setParent_other (notRoot node absent), Function.update_of_ne different]
  have self : attach a l r memory a = { memory a with left := l, right := r } := by
    unfold attach
    rw [setParent_other (notRoot a notMerged), Function.update_self]
  have linked : Holds (Function.update memory a { memory a with left := l, right := r }) merged l := by
    apply mergedHolds.frame mergedNodup
    intro node member
    apply Function.update_of_ne
    rintro rfl
    exact notMerged member
  have untouched : forall node, node ∈ kept.toList -> attach a l r memory node = memory node := by
    intro node member
    apply others
    · rintro rfl
      exact notKept member
    · exact fun also => apart node also node member rfl
  refine ⟨⟨rfl, ?_, ?_, ?_, ?_⟩, others, ?_⟩
  · rw [self]
    exact setParent_holds linked mergedNodup (some a)
  · rw [self]
    exact setParent_parent
  · rw [self]
    exact keptHolds.frame keptNodup untouched
  · rw [self]
    exact parent.frame keptHolds untouched
  · rw [self]

/-- One turn of the merge, when the nested call has merged the other nodes -/
theorem attach_merged {middle : TreeMemory Node} {others : List Node} (keptHolds : Holds memory kept r)
    (parent : HasParent memory r (some a)) (mergedHolds : Holds middle merged l) (perm : merged.toList.Perm others)
    (same : forall node, node ∉ others -> middle node = memory node) (nodup : (a :: (kept.toList ++ others)).Nodup) :
    Holds (attach a l r middle) (.node merged a kept) (some a) /\
      (forall node, node ∉ a :: (kept.toList ++ others) -> attach a l r middle node = memory node) /\
      forall node, some a = some node -> (attach a l r middle node).parent = (memory node).parent := by
  obtain ⟨fresh, rest⟩ := List.nodup_cons.mp nodup
  obtain ⟨keptNodup, _, apart⟩ := List.nodup_append.mp rest
  have untouched : forall node, node ∈ kept.toList -> middle node = memory node :=
    fun node member => same node fun also => apart node member node also rfl
  have distinct : (SkewHeap.node merged a kept).toList.Nodup := by
    have order : (merged.toList ++ kept.toList).Perm (kept.toList ++ others) :=
      (perm.append_right _).trans List.perm_append_comm
    exact (List.Perm.cons a order).nodup_iff.mpr nodup
  obtain ⟨attached, frame, kept_parent⟩ :=
    attach_holds mergedHolds (keptHolds.frame keptNodup untouched) (parent.frame keptHolds untouched) distinct
  refine ⟨attached, fun node absent => ?_, ?_⟩
  · have outside : node ≠ a /\ node ∉ kept.toList ++ others := not_or.mp (mt List.mem_cons.mpr absent)
    have notOther : node ∉ others := fun member => outside.2 (List.mem_append_right _ member)
    rw [frame node outside.1 fun member => notOther (perm.mem_iff.mp member), same node notOther]
  · rintro node ⟨⟩
    rw [kept_parent, same a fun member => fresh (List.mem_append_right _ member)]

theorem rest_length {Element : Type} {first : Element} {others front : List Element} {depth : Nat}
    (short : (first :: (front ++ others)).length <= depth + 1) :
    others.length <= depth := by
  rw [List.length_cons, List.length_append] at short
  omega

theorem skewHeapMerge_some (depth : Nat) (a b : Node) : skewHeapMerge comp (depth + 1) (some a) (some b) memory =
    if comp a b = -1 then
      (skewHeapMerge comp depth (memory a).right (some b) memory).bind
        (fun found => some (some a, attach a found.1 (memory a).left found.2))
    else
      (skewHeapMerge comp depth (some a) (memory b).right memory).bind
        (fun found => some (some b, attach b found.1 (memory b).left found.2)) := rfl

/-- `skew_heap_merge` merges the trees, touches nothing else, and leaves the
parent of the new root as it is. -/
theorem skewHeapMerge_holds (first second : SkewHeap Node) :
    forall (depth : Nat) (memory : TreeMemory Node) (p q : Option Node), Holds memory first p ->
      Holds memory second q -> (first.toList ++ second.toList).Nodup ->
      (first.toList ++ second.toList).length <= depth ->
      Exists fun root => Exists fun after => skewHeapMerge comp depth p q memory = some (root, after) /\
        Holds after (SkewHeap.merge (before comp) first second) root /\
        (forall node, node ∉ first.toList ++ second.toList -> after node = memory node) /\
        forall node, root = some node -> (after node).parent = (memory node).parent := by
  induction first, second using SkewHeap.merge_induction with
  | empty heap =>
      intro depth memory p q firstHolds secondHolds _ _
      obtain rfl : p = none := firstHolds
      refine ⟨q, memory, ?_, secondHolds, fun _ _ => rfl, fun _ _ => rfl⟩
      unfold skewHeapMerge
      rfl
  | emptyRight heap =>
      intro depth memory p q firstHolds secondHolds _ _
      obtain rfl : q = none := secondHolds
      rw [SkewHeap.merge_nil_right]
      refine ⟨p, memory, ?_, firstHolds, fun _ _ => rfl, fun _ _ => rfl⟩
      cases p <;> unfold skewHeapMerge <;> rfl
  | step left a right otherLeft b otherRight rightHypothesis otherHypothesis =>
      intro depth memory p q firstHolds secondHolds nodup enough
      have firstParts := firstHolds
      have secondParts := secondHolds
      obtain ⟨rfl, leftHolds, leftParent, rightHolds, _⟩ := firstParts
      obtain ⟨rfl, otherLeftHolds, otherLeftParent, otherRightHolds, _⟩ := secondParts
      cases depth with
      | zero => exact absurd enough (Nat.not_succ_le_zero _)
      | succ depth =>
          rw [skewHeapMerge_some, SkewHeap.merge_node]
          unfold before
          by_cases compared : comp a b = -1
          · have whole : ((SkewHeap.node left a right).toList ++ (SkewHeap.node otherLeft b otherRight).toList).Perm
                (a :: (left.toList ++ (right.toList ++ (SkewHeap.node otherLeft b otherRight).toList))) := by
              rw [← List.append_assoc]
              exact List.Perm.refl _
            have distinct := whole.nodup_iff.mp nodup
            have short := whole.length_eq ▸ enough
            rw [if_pos compared, if_pos (decide_eq_true compared)]
            obtain ⟨l, middle, ran, mergedHolds, same, _⟩ :=
              rightHypothesis depth memory (memory a).right (some b) rightHolds secondHolds
                (List.nodup_append.mp (List.nodup_cons.mp distinct).2).2.1 (rest_length short)
            obtain ⟨attached, others, parent⟩ :=
              attach_merged leftHolds leftParent mergedHolds (SkewHeap.merge_perm ..) same distinct
            rw [ran]
            refine ⟨some a, attach a l (memory a).left middle, rfl, attached, fun node absent => ?_, parent⟩
            exact others node fun member => absent (whole.mem_iff.mpr member)
          · have whole : ((SkewHeap.node left a right).toList ++ (SkewHeap.node otherLeft b otherRight).toList).Perm
                (b :: (otherLeft.toList ++ ((SkewHeap.node left a right).toList ++ otherRight.toList))) := by
              refine List.perm_middle.trans (List.Perm.cons b ?_)
              rw [← List.append_assoc, ← List.append_assoc]
              exact List.perm_append_comm.append_right _
            have distinct := whole.nodup_iff.mp nodup
            have short := whole.length_eq ▸ enough
            rw [if_neg compared, if_neg (fun both => compared (of_decide_eq_true both))]
            obtain ⟨l, middle, ran, mergedHolds, same, _⟩ :=
              otherHypothesis depth memory (some a) (memory b).right firstHolds otherRightHolds
                (List.nodup_append.mp (List.nodup_cons.mp distinct).2).2.1 (rest_length short)
            obtain ⟨attached, others, parent⟩ :=
              attach_merged otherLeftHolds otherLeftParent mergedHolds (SkewHeap.merge_perm ..) same distinct
            rw [ran]
            refine ⟨some b, attach b l (memory b).left middle, rfl, attached, fun node absent => ?_, parent⟩
            exact others node fun member => absent (whole.mem_iff.mpr member)

end Merging

/-! ## Removal -/

section Removal

variable [DecidableEq Node] {comp : Node -> Node -> Int} {memory after : TreeMemory Node}
  {tree left right : SkewHeap Node} {b p : Node}
  {root rep : Option Node}

/-- Only the child of `p` that was `b` has changed, and what was below it. -/
structure Relinked (memory after : TreeMemory Node) (p b : Node) (rep : Option Node) (gone : List Node) : Prop where
  parent : after p =
    if (memory p).left = some b then { memory p with left := rep } else { memory p with right := rep }
  others : forall node, node ≠ p -> node ∉ b :: gone -> after node = memory node

/-- A tree elsewhere stays as it is. -/
theorem Relinked.untouched {gone : List Node} {parent : Option Node} (relinked : Relinked memory after p b rep gone)
    (holds : Holds memory tree root) (has : HasParent memory root parent) (nodup : tree.toList.Nodup)
    (outside : forall node, node ∈ tree.toList -> node ≠ p /\ node ∉ b :: gone) :
    Holds after tree root /\ HasParent after root parent := by
  have same : forall node, node ∈ tree.toList -> after node = memory node :=
    fun node member => relinked.others node (outside node member).1 (outside node member).2
  exact ⟨holds.frame nodup same, has.frame holds same⟩

/-- A node below the root is found with its parent and its children, and the
tree without it is what there is once the merged children are in its place. -/
theorem Holds.relink (holds : Holds memory tree root) (nodup : tree.toList.Nodup) (member : b ∈ tree.toList)
    (below : root ≠ some b) : Exists fun p => Exists fun left => Exists fun right =>
      (memory b).parent = some p /\ p ∈ tree.toList /\ p ∉ b :: (left.toList ++ right.toList) /\
      (b :: (left.toList ++ right.toList)).Sublist tree.toList /\
      Holds memory left (memory b).left /\ Holds memory right (memory b).right /\
      forall after rep, Relinked memory after p b rep (left.toList ++ right.toList) ->
        Holds after (SkewHeap.merge (before comp) left right) rep -> HasParent after rep (some p) ->
        Holds after (SkewHeap.remove (before comp) b tree) root /\
          forall node, root = some node -> (after node).parent = (memory node).parent := by
  induction tree generalizing root with
  | nil => exact absurd member List.not_mem_nil
  | node left top right leftHypothesis rightHypothesis =>
      obtain ⟨rfl, leftHolds, leftParent, rightHolds, rightParent⟩ := holds
      obtain ⟨fresh, rest⟩ := List.nodup_cons.mp nodup
      obtain ⟨leftNodup, rightNodup, apart⟩ := List.nodup_append.mp rest
      have different : top ≠ b := fun same => below (congrArg some same)
      have under := (List.mem_cons.mp member).resolve_left (Ne.symm different)
      have notLeft : top ∉ left.toList := fun inLeft => fresh (List.mem_append_left _ inLeft)
      have notRight : top ∉ right.toList := fun inRight => fresh (List.mem_append_right _ inRight)
      have leftPart : left.toList.Sublist (SkewHeap.node left top right).toList :=
        (List.sublist_append_left ..).trans (List.sublist_cons_self ..)
      have rightPart : right.toList.Sublist (SkewHeap.node left top right).toList :=
        (List.sublist_append_right ..).trans (List.sublist_cons_self ..)
      rw [SkewHeap.remove, if_neg different]
      by_cases inLeft : b ∈ left.toList
      · have absent : b ∉ right.toList := fun inRight => apart b inLeft b inRight rfl
        rw [SkewHeap.remove_not_mem absent]
        by_cases child : (memory top).left = some b
        · cases left with
          | nil => exact absurd inLeft List.not_mem_nil
          | node l other r =>
              obtain ⟨isRoot, lHolds, _, rHolds, _⟩ := leftHolds
              obtain rfl : other = b := Option.some.inj (isRoot.symm.trans child)
              refine ⟨top, l, r, leftParent other child, List.mem_cons_self .., notLeft, leftPart, lHolds, rHolds, ?_⟩
              intro after rep relinked merged hasParent
              have self := relinked.parent
              rw [if_pos child] at self
              rw [SkewHeap.remove_top]
              obtain ⟨rightAfter, rightParentAfter⟩ := relinked.untouched rightHolds rightParent rightNodup
                (fun node inRight => ⟨fun same => notRight (same ▸ inRight),
                  fun also => apart node also node inRight rfl⟩)
              refine ⟨⟨rfl, ?_, ?_, ?_, ?_⟩, ?_⟩
              · rw [self]
                exact merged
              · rw [self]
                exact hasParent
              · rw [self]
                exact rightAfter
              · rw [self]
                exact rightParentAfter
              · rintro node ⟨⟩
                rw [self]
        · obtain ⟨p, l, r, parent, above, outside, part, lHolds, rHolds, closes⟩ :=
            leftHypothesis leftHolds leftNodup inLeft child
          refine ⟨p, l, r, parent, leftPart.subset above, outside, part.trans leftPart, lHolds, rHolds, ?_⟩
          intro after rep relinked merged hasParent
          obtain ⟨leftAfter, leftRoot⟩ := closes after rep relinked merged hasParent
          have self : after top = memory top :=
            relinked.others top (fun same => notLeft (same ▸ above)) fun gone => notLeft (part.subset gone)
          obtain ⟨rightAfter, rightParentAfter⟩ := relinked.untouched rightHolds rightParent rightNodup
            (fun node inRight => ⟨fun same => apart p above node inRight same.symm,
              fun gone => apart node (part.subset gone) node inRight rfl⟩)
          refine ⟨⟨rfl, ?_, ?_, ?_, ?_⟩, ?_⟩
          · rw [self]
            exact leftAfter
          · rw [self]
            exact fun node here => (leftRoot node here).trans (leftParent node here)
          · rw [self]
            exact rightAfter
          · rw [self]
            exact rightParentAfter
          · rintro node ⟨⟩
            rw [self]
      · have inRight := (List.mem_append.mp under).resolve_left inLeft
        rw [SkewHeap.remove_not_mem inLeft]
        by_cases child : (memory top).right = some b
        · cases right with
          | nil => exact absurd inRight List.not_mem_nil
          | node l other r =>
              obtain ⟨isRoot, lHolds, _, rHolds, _⟩ := rightHolds
              obtain rfl : other = b := Option.some.inj (isRoot.symm.trans child)
              refine ⟨top, l, r, rightParent other child, List.mem_cons_self .., notRight, rightPart, lHolds,
                rHolds, ?_⟩
              intro after rep relinked merged hasParent
              have notChild : (memory top).left ≠ some other := fun same => inLeft (same ▸ leftHolds).root_mem
              have self := relinked.parent
              rw [if_neg notChild] at self
              rw [SkewHeap.remove_top]
              obtain ⟨leftAfter, leftParentAfter⟩ := relinked.untouched leftHolds leftParent leftNodup
                (fun node inLeft => ⟨fun same => notLeft (same ▸ inLeft),
                  fun also => apart node inLeft node also rfl⟩)
              refine ⟨⟨rfl, ?_, ?_, ?_, ?_⟩, ?_⟩
              · rw [self]
                exact leftAfter
              · rw [self]
                exact leftParentAfter
              · rw [self]
                exact merged
              · rw [self]
                exact hasParent
              · rintro node ⟨⟩
                rw [self]
        · obtain ⟨p, l, r, parent, above, outside, part, lHolds, rHolds, closes⟩ :=
            rightHypothesis rightHolds rightNodup inRight child
          refine ⟨p, l, r, parent, rightPart.subset above, outside, part.trans rightPart, lHolds, rHolds, ?_⟩
          intro after rep relinked merged hasParent
          obtain ⟨rightAfter, rightRoot⟩ := closes after rep relinked merged hasParent
          have self : after top = memory top :=
            relinked.others top (fun same => notRight (same ▸ above)) fun gone => notRight (part.subset gone)
          obtain ⟨leftAfter, leftParentAfter⟩ := relinked.untouched leftHolds leftParent leftNodup
            (fun node inLeft => ⟨fun same => apart node inLeft p above same,
              fun gone => apart node inLeft node (part.subset gone) rfl⟩)
          refine ⟨⟨rfl, ?_, ?_, ?_, ?_⟩, ?_⟩
          · rw [self]
            exact leftAfter
          · rw [self]
            exact leftParentAfter
          · rw [self]
            exact rightAfter
          · rw [self]
            exact fun node here => (rightRoot node here).trans (rightParent node here)
          · rintro node ⟨⟩
            rw [self]

theorem skewHeapRemove_eq (depth : Nat) {middle : TreeMemory Node}
    (ran : skewHeapMerge comp depth (memory b).left (memory b).right memory = some (rep, middle)) :
    skewHeapRemove comp depth root b memory =
      match (memory b).parent with
      | some p => some (root, replaceChild p b rep (setParent rep (some p) middle))
      | none => some (rep, setParent rep none middle) := by
  unfold skewHeapRemove
  rw [ran]
  change (match (memory b).parent with
    | some p => some (root, replaceChild p b rep (setParent rep (memory b).parent middle))
    | none => some (rep, setParent rep (memory b).parent middle)) = _
  cases (memory b).parent <;> rfl

/-- `skew_heap_remove` puts the merged children of the node in its place. -/
theorem skewHeapRemove_holds (holds : Holds memory tree root) (orphan : HasParent memory root none)
    (nodup : tree.toList.Nodup) (member : b ∈ tree.toList) {depth : Nat} (enough : tree.toList.length <= depth) :
    Exists fun top => Exists fun after => skewHeapRemove comp depth root b memory = some (top, after) /\
      Holds after (SkewHeap.remove (before comp) b tree) top /\ HasParent after top none /\
      forall node, node ∉ tree.toList -> after node = memory node := by
  by_cases isRoot : root = some b
  · subst isRoot
    cases tree with
    | nil => exact absurd member List.not_mem_nil
    | node left top right =>
        obtain ⟨same, leftHolds, _, rightHolds, _⟩ := holds
        obtain rfl : top = b := (Option.some.inj same).symm
        obtain ⟨_, distinct⟩ := List.nodup_cons.mp nodup
        obtain ⟨rep, middle, ran, merged, others, _⟩ := @skewHeapMerge_holds Node _ comp left right depth memory _ _
          leftHolds rightHolds distinct (Nat.le_trans (Nat.le_succ _) enough)
        have perm := @SkewHeap.merge_perm Node (before comp) left right
        have mergedNodup := perm.nodup_iff.mpr distinct
        rw [skewHeapRemove_eq depth ran, orphan top rfl, SkewHeap.remove_top]
        refine ⟨rep, _, rfl, setParent_holds merged mergedNodup none, setParent_parent, fun node absent => ?_⟩
        have outside : node ∉ left.toList ++ right.toList := fun inside => absent (List.mem_cons_of_mem _ inside)
        rw [setParent_other, others node outside]
        rintro rfl
        exact outside (perm.subset merged.root_mem)
  · obtain ⟨p, left, right, parent, above, outside, part, leftHolds, rightHolds, closes⟩ :=
      @Holds.relink Node _ comp memory tree b root holds nodup member isRoot
    obtain ⟨_, distinct⟩ := List.nodup_cons.mp (part.nodup nodup)
    obtain ⟨rep, middle, ran, merged, others, _⟩ := @skewHeapMerge_holds Node _ comp left right depth memory _ _
      leftHolds rightHolds distinct (Nat.le_trans ((List.sublist_cons_self ..).trans part).length_le enough)
    have perm := @SkewHeap.merge_perm Node (before comp) left right
    have mergedNodup := perm.nodup_iff.mpr distinct
    have notRep : forall node, node ∉ b :: (left.toList ++ right.toList) -> rep ≠ some node := by
      rintro node absent rfl
      exact absent (List.mem_cons_of_mem _ (perm.subset merged.root_mem))
    have before_ : forall node, node ∉ b :: (left.toList ++ right.toList) ->
        setParent rep (some p) middle node = memory node := by
      intro node absent
      rw [setParent_other (notRep node absent), others node fun inside => absent (List.mem_cons_of_mem _ inside)]
    have elsewhere : forall node, node ≠ p ->
        replaceChild p b rep (setParent rep (some p) middle) node = setParent rep (some p) middle node :=
      fun node different => Function.update_of_ne different ..
    have notParent : forall node, node ∈ (SkewHeap.merge (before comp) left right).toList -> node ≠ p := by
      rintro node inside rfl
      exact outside (List.mem_cons_of_mem _ (perm.subset inside))
    have relinked : Relinked memory (replaceChild p b rep (setParent rep (some p) middle)) p b rep
        (left.toList ++ right.toList) := by
      constructor
      · unfold replaceChild
        rw [Function.update_self, before_ p outside]
      · intro node different absent
        rw [elsewhere node different, before_ node absent]
    have hung := setParent_holds merged mergedNodup (some p)
    have linked : Holds (replaceChild p b rep (setParent rep (some p) middle)) (SkewHeap.merge (before comp) left right)
        rep := hung.frame mergedNodup fun node inside => elsewhere node (notParent node inside)
    have hasParent : HasParent (replaceChild p b rep (setParent rep (some p) middle)) rep (some p) :=
      HasParent.frame setParent_parent hung fun node inside => elsewhere node (notParent node inside)
    obtain ⟨removed, same⟩ := closes _ rep relinked linked hasParent
    rw [skewHeapRemove_eq depth ran, parent]
    refine ⟨root, _, rfl, removed, fun node here => (same node here).trans (orphan node here), fun node absent => ?_⟩
    apply relinked.others
    · rintro rfl
      exact absent above
    · exact fun gone => absent (part.subset gone)

end Removal

/-! ## Well-formed heaps -/

/-- The relation that a comparator stands for: the functions ask it whether it
returns -1. -/
def NotAfter (comp : Node -> Node -> Int) (a b : Node) : Prop := comp b a ≠ -1

/-- The comparator is a total preorder on these nodes.  On others it may be
anything: `proc_stride_comp_f` is no preorder on all strides. -/
structure IsPreorder (comp : Node -> Node -> Int) (nodes : List Node) : Prop where
  total : forall a, a ∈ nodes -> forall b, b ∈ nodes -> NotAfter comp a b \/ NotAfter comp b a
  trans : forall a, a ∈ nodes -> forall b, b ∈ nodes -> forall c, c ∈ nodes ->
    NotAfter comp a b -> NotAfter comp b c -> NotAfter comp a c

/-- The nodes are those of the tree at the root, no node comes before its
parent, and the root has none. -/
structure WellFormed (comp : Node -> Node -> Int) (memory : TreeMemory Node) (root : Option Node) (nodes : List Node) :
    Prop where
  tree : Exists fun tree => Holds memory tree root /\ tree.toList.Nodup /\ tree.toList.Perm nodes
  orphan : HasParent memory root none
  ordered : forall node, node ∈ nodes -> forall parent, (memory node).parent = some parent ->
    NotAfter comp parent node

/-- The root is a minimum. -/
def IsMinimum (comp : Node -> Node -> Int) (nodes : List Node) : Option Node -> Prop
  | none => nodes = []
  | some root => root ∈ nodes /\ forall node, node ∈ nodes -> NotAfter comp root node

/-- The heap now has these nodes, and only the entries of some are touched. -/
structure Becomes (comp : Node -> Node -> Int) (memory after : TreeMemory Node) (touched : List Node)
    (top : Option Node) (nodes : List Node) : Prop where
  wellFormed : WellFormed comp after top nodes
  minimum : IsMinimum comp nodes top
  others : forall node, node ∉ touched -> after node = memory node

section Operations

variable {comp : Node -> Node -> Int} {memory after : TreeMemory Node} {root top other : Option Node}
  {nodes others touched : List Node} {tree first second : SkewHeap Node}

/-- The relation on the nodes of the heap -/
def Within (comp : Node -> Node -> Int) (nodes : List Node) (a b : Node) : Prop :=
  a ∈ nodes /\ b ∈ nodes /\ NotAfter comp a b

theorem IsPreorder.within_trans (preorder : IsPreorder comp nodes) (one two three : Node)
    (before : Within comp nodes one two) (later : Within comp nodes two three) : Within comp nodes one three :=
  ⟨before.1, later.2.1, preorder.trans one before.1 two before.2.1 three later.2.1 before.2.2 later.2.2⟩

theorem IsPreorder.agrees (preorder : IsPreorder comp nodes) :
    SkewHeap.Agrees (before comp) (Within comp nodes) nodes := by
  intro one here two there
  constructor
  · intro compared
    have less : comp one two = -1 := of_decide_eq_true compared
    exact ⟨here, there, (preorder.total one here two there).resolve_right fun other => other less⟩
  · exact fun compared => ⟨there, here, of_decide_eq_false compared⟩

theorem IsPreorder.mono {fewer : List Node} (preorder : IsPreorder comp nodes) (within : fewer ⊆ nodes) :
    IsPreorder comp fewer where
  total a here b there := preorder.total a (within here) b (within there)
  trans a one b two c three := preorder.trans a (within one) b (within two) c (within three)

/-- The tree of a well-formed heap is ordered. -/
theorem WellFormed.heap (heap : WellFormed comp memory root nodes) (preorder : IsPreorder comp others)
    (part : nodes ⊆ others) : Exists fun tree => Holds memory tree root /\ tree.toList.Nodup /\
      tree.toList.Perm nodes /\ tree.Ordered (Within comp others) := by
  obtain ⟨tree, holds, nodup, perm⟩ := heap.tree
  refine ⟨tree, holds, nodup, perm, holds.ordered preorder.within_trans ?_ nodup⟩
  intro node member _ parent there is
  have inside : forall {node}, node ∈ tree.toList -> node ∈ others := fun member => part (perm.subset member)
  exact ⟨inside there, inside member, heap.ordered node (perm.subset member) parent is⟩

/-- An ordered tree is a well-formed heap. -/
theorem becomes (preorder : IsPreorder comp nodes) (holds : Holds after tree top) (orphan : HasParent after top none)
    (nodup : tree.toList.Nodup) (perm : tree.toList.Perm nodes) {within : List Node}
    (ordered : tree.Ordered (Within comp within)) (others : forall node, node ∉ touched -> after node = memory node) :
    Becomes comp memory after touched top nodes where
  wellFormed := by
    refine ⟨⟨tree, holds, nodup, perm⟩, orphan, fun node member parent is => ?_⟩
    rcases holds.parent_below ordered (perm.mem_iff.mpr member) with isRoot | ⟨above, _, there, below⟩
    · rw [orphan node isRoot] at is
      cases is
    · obtain rfl : above = parent := Option.some.inj (there.symm.trans is)
      exact below.2.2
  minimum := by
    cases tree with
    | nil =>
        obtain rfl : top = none := holds
        exact List.nil_perm.mp perm
    | node left first right =>
        obtain rfl : top = some first := holds.1
        have here : first ∈ nodes := perm.subset (List.mem_cons_self ..)
        refine ⟨here, fun node member => ?_⟩
        rcases List.mem_cons.mp (perm.mem_iff.mpr member) with rfl | under
        · exact (preorder.total node here node here).elim id id
        · exact (ordered.1 node under).2.2
  others := others

/-- The order of the list does not matter. -/
theorem WellFormed.perm (heap : WellFormed comp memory root nodes) (same : nodes.Perm others) :
    WellFormed comp memory root others := by
  obtain ⟨tree, holds, nodup, perm⟩ := heap.tree
  refine ⟨⟨tree, holds, nodup, perm.trans same⟩, heap.orphan, fun node member => ?_⟩
  exact heap.ordered node (same.mem_iff.mpr member)

theorem IsMinimum.perm (minimum : IsMinimum comp nodes root) (same : nodes.Perm others) :
    IsMinimum comp others root := by
  cases root with
  | none =>
      obtain rfl : nodes = [] := minimum
      exact List.nil_perm.mp same
  | some root => exact ⟨same.subset minimum.1, fun node member => minimum.2 node (same.mem_iff.mpr member)⟩

/-- The entries of a heap are all that matters. -/
theorem WellFormed.frame (heap : WellFormed comp memory root nodes)
    (same : forall node, node ∈ nodes -> after node = memory node) : WellFormed comp after root nodes := by
  obtain ⟨tree, holds, nodup, perm⟩ := heap.tree
  have unchanged : forall node, node ∈ tree.toList -> after node = memory node :=
    fun node member => same node (perm.subset member)
  refine ⟨⟨tree, holds.frame nodup unchanged, nodup, perm⟩, heap.orphan.frame holds unchanged, ?_⟩
  intro node member parent is
  rw [same node member] at is
  exact heap.ordered node member parent is

variable [DecidableEq Node]

theorem skewHeapMerge_becomes (heap : WellFormed comp memory root nodes) (also : WellFormed comp memory other others)
    (apart : forall node, node ∈ nodes -> node ∉ others) (preorder : IsPreorder comp (nodes ++ others)) {depth : Nat}
    (enough : (nodes ++ others).length <= depth) : Exists fun top => Exists fun after =>
      skewHeapMerge comp depth root other memory = some (top, after) /\
        Becomes comp memory after (nodes ++ others) top (nodes ++ others) := by
  obtain ⟨first, firstHolds, firstNodup, firstPerm, firstOrdered⟩ := heap.heap preorder (List.subset_append_left ..)
  obtain ⟨second, secondHolds, secondNodup, secondPerm, secondOrdered⟩ :=
    also.heap preorder (List.subset_append_right ..)
  have whole : (first.toList ++ second.toList).Perm (nodes ++ others) := firstPerm.append secondPerm
  have nodup : (first.toList ++ second.toList).Nodup := by
    refine List.nodup_append.mpr ⟨firstNodup, secondNodup, ?_⟩
    rintro node inFirst _ inSecond rfl
    exact apart node (firstPerm.subset inFirst) (secondPerm.subset inSecond)
  have merged := @SkewHeap.merge_perm Node (before comp) first second
  obtain ⟨top, after, ran, holds, same, parent⟩ := @skewHeapMerge_holds Node _ comp first second depth memory root other
    firstHolds secondHolds nodup (whole.length_eq ▸ enough)
  have agrees := preorder.agrees.mono whole.subset
  have ordered := SkewHeap.merge_ordered preorder.within_trans agrees firstOrdered secondOrdered
  refine ⟨top, after, ran, becomes preorder holds ?_ (merged.nodup_iff.mpr nodup) (merged.trans whole) ordered ?_⟩
  · intro node isTop
    rw [parent node isTop]
    have tops := @SkewHeap.merge_top Node (before comp) first second
    rw [← holds.root_eq_top, ← firstHolds.root_eq_top, ← secondHolds.root_eq_top, isTop] at tops
    rcases tops with isRoot | isOther
    · exact heap.orphan node isRoot.symm
    · exact also.orphan node isOther.symm
  · exact fun node absent => same node fun inside => absent (whole.subset inside)

/-- `skew_heap_init` makes a tree of one node. -/
theorem skewHeapInit_holds (b : Node) : Holds (skewHeapInit b memory) (.node .nil b .nil) (some b) := by
  have self : skewHeapInit b memory b = ⟨none, none, none⟩ := Function.update_self ..
  have childless : forall parent, HasParent (skewHeapInit b memory) none parent := by
    rintro parent node ⟨⟩
  refine ⟨rfl, ?_⟩
  rw [self]
  exact ⟨rfl, childless _, rfl, childless _⟩

theorem skewHeapInit_wellFormed (b : Node) : WellFormed comp (skewHeapInit b memory) (some b) [b] := by
  have self : skewHeapInit b memory b = ⟨none, none, none⟩ := Function.update_self ..
  constructor
  · exact ⟨.node .nil b .nil, skewHeapInit_holds b, List.nodup_singleton b, List.Perm.refl _⟩
  · rintro node ⟨⟩
    rw [self]
  · intro node member parent is
    obtain rfl : node = b := List.mem_singleton.mp member
    rw [self] at is
    cases is

theorem skewHeapInsert_becomes (heap : WellFormed comp memory root nodes) {b : Node} (fresh : b ∉ nodes)
    (preorder : IsPreorder comp (b :: nodes)) {depth : Nat} (enough : nodes.length + 1 <= depth) :
    Exists fun top => Exists fun after => skewHeapInsert comp depth root b memory = some (top, after) /\
      Becomes comp memory after (b :: nodes) top (b :: nodes) := by
  have initial : forall node, node ≠ b -> skewHeapInit b memory node = memory node :=
    fun node different => Function.update_of_ne different ..
  have kept : WellFormed comp (skewHeapInit b memory) root nodes := by
    apply heap.frame
    rintro node member
    apply initial
    rintro rfl
    exact fresh member
  have order : (nodes ++ [b]).Perm (b :: nodes) := List.perm_append_comm
  have apart : forall node, node ∈ nodes -> node ∉ [b] := by
    intro node member single
    exact fresh (List.mem_singleton.mp single ▸ member)
  obtain ⟨top, after, ran, becomes⟩ := skewHeapMerge_becomes kept (skewHeapInit_wellFormed b) apart
    (preorder.mono order.subset) (Nat.le_trans (Nat.le_of_eq order.length_eq) enough)
  refine ⟨top, after, ran, becomes.wellFormed.perm order, becomes.minimum.perm order, fun node absent => ?_⟩
  rw [becomes.others node fun inside => absent (order.subset inside)]
  apply initial
  rintro rfl
  exact absent (List.mem_cons_self ..)

/-- `skew_heap_remove` of a node of the heap -/
theorem skewHeapRemove_becomes (heap : WellFormed comp memory root nodes) {b : Node} (member : b ∈ nodes)
    (preorder : IsPreorder comp nodes) {depth : Nat} (enough : nodes.length <= depth) :
    Exists fun top => Exists fun after => skewHeapRemove comp depth root b memory = some (top, after) /\
      Becomes comp memory after nodes top (nodes.erase b) := by
  obtain ⟨tree, holds, nodup, perm, ordered⟩ := heap.heap preorder (List.Subset.refl nodes)
  have inTree := perm.mem_iff.mpr member
  obtain ⟨top, after, ran, removed, orphan, same⟩ := @skewHeapRemove_holds Node _ comp memory tree b root holds
    heap.orphan nodup inTree depth (perm.length_eq ▸ enough)
  have rest := @SkewHeap.remove_perm Node _ (before comp) tree b nodup inTree
  have left : (SkewHeap.remove (before comp) b tree).toList.Perm (nodes.erase b) := by
    have erased := (rest.symm.trans perm).erase b
    rw [List.erase_cons_head] at erased
    exact erased
  have distinct := (List.nodup_cons.mp (rest.nodup_iff.mp nodup)).2
  have sorted := @SkewHeap.remove_ordered Node _ (before comp) tree b _ preorder.within_trans
    (preorder.agrees.mono perm.subset) ordered
  refine ⟨top, after, ran, becomes (preorder.mono List.erase_subset) removed orphan distinct left sorted ?_⟩
  exact fun node absent => same node fun inside => absent (perm.subset inside)

/-- The operations keep heaps well formed, with the nodes that they should have,
for every comparator that is a total preorder on them. -/
theorem skewHeap_keeps (heap : WellFormed comp memory root nodes) :
    (forall b, b ∉ nodes -> IsPreorder comp (b :: nodes) -> forall depth, nodes.length + 1 <= depth ->
      Exists fun top => Exists fun after => skewHeapInsert comp depth root b memory = some (top, after) /\
        Becomes comp memory after (b :: nodes) top (b :: nodes)) /\
    (forall b, b ∈ nodes -> IsPreorder comp nodes -> forall depth, nodes.length <= depth ->
      Exists fun top => Exists fun after => skewHeapRemove comp depth root b memory = some (top, after) /\
        Becomes comp memory after nodes top (nodes.erase b)) /\
    (forall other others, WellFormed comp memory other others -> (forall node, node ∈ nodes -> node ∉ others) ->
      IsPreorder comp (nodes ++ others) -> forall depth, (nodes ++ others).length <= depth ->
      Exists fun top => Exists fun after => skewHeapMerge comp depth root other memory = some (top, after) /\
        Becomes comp memory after (nodes ++ others) top (nodes ++ others)) :=
  ⟨fun _ fresh preorder _ enough => skewHeapInsert_becomes heap fresh preorder enough,
    fun _ member preorder _ enough => skewHeapRemove_becomes heap member preorder enough,
    fun _ _ also apart preorder _ enough => skewHeapMerge_becomes heap also apart preorder enough⟩

end Operations

/-! ## A heap of two entries -/

/-- Numbers in their order -/
def compareNumbers (a b : Nat) : Int := if a < b then -1 else if a = b then 0 else 1

theorem notAfter_compareNumbers (a b : Nat) : NotAfter compareNumbers a b <-> a <= b := by
  unfold NotAfter compareNumbers
  split
  · omega
  · split <;> omega

theorem compareNumbers_preorder (nodes : List Nat) : IsPreorder compareNumbers nodes := by
  constructor
  · intro a _ b _
    rw [notAfter_compareNumbers, notAfter_compareNumbers]
    exact Nat.le_total a b
  · intro a _ b _ c _ first second
    rw [notAfter_compareNumbers] at first second ⊢
    exact Nat.le_trans first second

/-- The entry 2 below the entry 1, and the others alone -/
def twoEntries : TreeMemory Nat
  | 1 => ⟨none, some 2, none⟩
  | 2 => ⟨some 1, none, none⟩
  | _ => ⟨none, none, none⟩

theorem twoEntries_wellFormed : WellFormed compareNumbers twoEntries (some 1) [1, 2] where
  tree := by
    have childless : forall parent, HasParent twoEntries none parent := by
      rintro parent node ⟨⟩
    have lower : Holds twoEntries (.node .nil 2 .nil) (some 2) := ⟨rfl, rfl, childless _, rfl, childless _⟩
    refine ⟨.node (.node .nil 2 .nil) 1 .nil, ⟨rfl, lower, ?_, rfl, childless _⟩, ?_⟩
    · rintro node ⟨⟩
      rfl
    · decide
  orphan := by
    rintro node ⟨⟩
    rfl
  ordered := by
    intro node member parent is
    rcases List.mem_cons.mp member with rfl | member
    · cases is
    · obtain rfl := List.mem_singleton.mp member
      cases is
      exact (notAfter_compareNumbers 1 2).mpr (by decide)

theorem twoEntries_alone : WellFormed compareNumbers twoEntries (some 7) [7] where
  tree := by
    have childless : forall parent, HasParent twoEntries none parent := by
      rintro parent node ⟨⟩
    exact ⟨.node .nil 7 .nil, ⟨rfl, rfl, childless _, rfl, childless _⟩, by decide⟩
  orphan := by
    rintro node ⟨⟩
    rfl
  ordered := by
    intro node member parent is
    obtain rfl := List.mem_singleton.mp member
    cases is

theorem skewHeap_keeps_numbers :
    (Exists fun top => Exists fun after => skewHeapInsert compareNumbers 3 (some 1) 0 twoEntries = some (top, after) /\
      Becomes compareNumbers twoEntries after [0, 1, 2] top [0, 1, 2]) /\
    (Exists fun top => Exists fun after => skewHeapRemove compareNumbers 2 (some 1) 1 twoEntries = some (top, after) /\
      Becomes compareNumbers twoEntries after [1, 2] top [2]) /\
    (Exists fun top => Exists fun after => skewHeapMerge compareNumbers 3 (some 1) (some 7) twoEntries =
      some (top, after) /\ Becomes compareNumbers twoEntries after [1, 2, 7] top [1, 2, 7]) := by
  have keeps := skewHeap_keeps twoEntries_wellFormed
  refine ⟨?_, ?_, ?_⟩
  · exact keeps.1 0 (by decide) (compareNumbers_preorder _) 3 (by decide)
  · exact keeps.2.1 1 (by decide) (compareNumbers_preorder _) 2 (by decide)
  · exact keeps.2.2 (some 7) [7] twoEntries_alone (by decide) (compareNumbers_preorder _) 3 (by decide)

/-! ## The run pool -/

section Pool

open Stride (StrideSched procStrideComp)

variable {sched : StrideSched} {memory : TreeMemory Nat} {root : Option Nat} {proc depth : Nat}

/-- What `stride_enqueue` does to the pool is what it does in memory. -/
theorem enqueue_holds (holds : Holds memory sched.pool root) (nodup : sched.pool.toList.Nodup)
    (fresh : proc ∉ sched.pool.toList) (enough : sched.pool.toList.length + 1 <= depth) :
    Exists fun top => Exists fun after =>
      skewHeapInsert (procStrideComp sched.task) depth root proc memory = some (top, after) /\
        Holds after (sched.enqueue proc).pool top := by
  have kept : Holds (skewHeapInit proc memory) sched.pool root := by
    apply holds.frame nodup
    rintro node member
    apply Function.update_of_ne
    rintro rfl
    exact fresh member
  have distinct : (sched.pool.toList ++ [proc]).Nodup :=
    (List.perm_append_comm.nodup_iff).mpr (List.nodup_cons.mpr ⟨fresh, nodup⟩)
  have short : (sched.pool.toList ++ [proc]).length <= depth := by
    rw [List.length_append]
    exact enough
  obtain ⟨top, after, ran, merged, _⟩ := @skewHeapMerge_holds Nat _ (procStrideComp sched.task) sched.pool
    (.node .nil proc .nil) depth _ root (some proc) kept (skewHeapInit_holds proc) distinct short
  exact ⟨top, after, ran, merged⟩

/-- What `stride_dequeue` does to the pool is what it does in memory. -/
theorem dequeue_holds (holds : Holds memory sched.pool root) (orphan : HasParent memory root none)
    (nodup : sched.pool.toList.Nodup) (member : proc ∈ sched.pool.toList) (enough : sched.pool.toList.length <= depth) :
    Exists fun top => Exists fun after =>
      skewHeapRemove (procStrideComp sched.task) depth root proc memory = some (top, after) /\
        Holds after (sched.dequeue proc).pool top /\ HasParent after top none := by
  obtain ⟨top, after, ran, removed, alone, _⟩ := @skewHeapRemove_holds Nat _ (procStrideComp sched.task) memory
    sched.pool proc root holds orphan nodup member depth enough
  exact ⟨top, after, ran, removed, alone⟩

end Pool

end SkewHeapLinks
end Ucore
