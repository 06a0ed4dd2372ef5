import Ucore.Path.Lookup
import Ucore.Sfs.Keeping

namespace Ucore
namespace Path

open Library
open Program
open Sfs

/-!
# Borrowed references

A call that looks at directories takes references to their inodes and gives
them back.  While it runs, the world is the one it started in with some
references more; an inode that nobody referred to is loaded for them, and is
dropped again with the last of them.
-/

/-- The world `base` with `extra` references more on each inode, after `spent`
calls of `kmalloc`. -/
structure Borrowed (files : List Nat) (base : World) (extra : Nat -> Nat) (spent : Nat) (world : World) : Prop where
  super : world.volume.super = base.volume.super
  freemap : world.volume.freemap = base.volume.freemap
  block : world.volume.device.block = base.volume.device.block
  error : world.volume.device.error = base.volume.device.error
  lent : forall ino, 0 < extra ino -> ino ∈ files
  listed : forall ino, ino ∈ world.volume.inodeList <-> ino ∈ base.volume.inodeList \/ 0 < extra ino
  old : forall ino, ino ∈ base.volume.inodeList -> world.volume.inode ino =
    { base.volume.inode ino with refCount := (base.volume.inode ino).refCount + extra ino }
  new : forall ino, ino ∉ base.volume.inodeList -> 0 < extra ino ->
    world.volume.inode ino = ⟨decodeInode (base.volume.device.block ino), false, 1, extra ino⟩ /\
      world.openCount ino = 0
  opens : forall ino, ino ∈ base.volume.inodeList -> world.openCount ino = base.openCount ino
  devices : world.devices = base.devices
  grants : world.grants = base.grants
  calls : world.calls = base.calls + spent

/-- The calls of `kmalloc` after the first `spent` ones succeed. -/
def World.Granted (world : World) (spent count : Nat) : Prop :=
  forall index, index < count -> world.grants (world.calls + spent + index) = true

/-- The inodes that are loaded are referred to, and the device works. -/
structure World.Steady (world : World) (files : List Nat) : Prop where
  owned : world.volume.Owned files
  works : world.volume.Works
  counted : forall ino, ino ∈ world.volume.inodeList -> 1 <= (world.volume.inode ino).refCount

variable {files : List Nat} {base world : World} {extra : Nat -> Nat} {spent ino : Nat}

theorem World.granted_zero (world : World) (spent : Nat) : world.Granted spent 0 := fun _ below =>
  absurd below (Nat.not_lt_zero _)

theorem World.granted_add (first second : Nat) :
    world.Granted spent (first + second) <-> world.Granted spent first /\ world.Granted (spent + first) second := by
  constructor
  · intro granted
    refine ⟨fun index below => granted index (by omega), fun index below => ?_⟩
    have later := granted (first + index) (by omega)
    rwa [← Nat.add_assoc, Nat.add_assoc world.calls] at later
  · rintro ⟨before, after⟩ index below
    by_cases early : index < first
    · exact before index early
    · have later := after (index - first) (by omega)
      rwa [show world.calls + (spent + first) + (index - first) = world.calls + spent + index by omega] at later

namespace Borrowed

theorem refl (files : List Nat) (base : World) : Borrowed files base (fun _ => 0) 0 base where
  super := rfl
  freemap := rfl
  block := rfl
  error := rfl
  lent := fun _ positive => absurd positive (Nat.lt_irrefl 0)
  listed := fun ino => ⟨.inl, fun either => either.resolve_right (Nat.lt_irrefl 0)⟩
  old := by
    intro ino _
    rw [Int.natCast_zero, Int.add_zero]
  new := fun _ _ positive => absurd positive (Nat.lt_irrefl 0)
  opens := fun _ _ => rfl
  devices := rfl
  grants := rfl
  calls := rfl

/-- The inodes are the same, in memory or on the disk. -/
theorem dinOf (borrowed : Borrowed files base extra spent world) : world.volume.dinOf = base.volume.dinOf := by
  funext ino
  unfold SfsFs.dinOf
  by_cases old : ino ∈ base.volume.inodeList
  · rw [if_pos old, if_pos ((borrowed.listed ino).mpr (.inl old)), borrowed.old ino old]
  · rw [if_neg old, borrowed.block]
    by_cases lent : 0 < extra ino
    · rw [if_pos ((borrowed.listed ino).mpr (.inr lent)), (borrowed.new ino old lent).1]
    · exact if_neg fun listed => ((borrowed.listed ino).mp listed).elim old lent

theorem direntOf (borrowed : Borrowed files base extra spent world) :
    world.volume.direntOf = base.volume.direntOf := by
  funext din slot
  unfold SfsFs.direntOf SfsFs.blockOf SfsFs.entryOf
  rw [borrowed.block]

theorem mapped {din : DiskInode} {index : Nat} (borrowed : Borrowed files base extra spent world)
    (mapped : base.volume.Mapped din index) : world.volume.Mapped din index where
  within := mapped.within
  reached := mapped.reached
  present := by
    have present := mapped.present
    unfold SfsFs.blockOf SfsFs.entryOf at present ⊢
    rwa [borrowed.block]

theorem works (borrowed : Borrowed files base extra spent world) (works : base.volume.Works) :
    world.volume.Works := by
  intro number
  rw [borrowed.error]
  exact works number

theorem owned (borrowed : Borrowed files base extra spent world) (owned : base.volume.Owned files) :
    world.volume.Owned files where
  accounted := by
    have held : world.volume.holds files = base.volume.holds files := by
      apply SfsFs.holds_congr
      · rw [borrowed.super]
      · intro ino _
        rw [borrowed.dinOf]
      · intro ino _ _ index
        unfold SfsFs.entryOf
        rw [borrowed.block]
    rw [held, borrowed.super, borrowed.freemap]
    exact owned.accounted
  loaded := fun ino listed => ((borrowed.listed ino).mp listed).elim (owned.loaded ino) (borrowed.lent ino)

theorem read {after : SfsFs} (borrowed : Borrowed files base extra spent world) (read : world.volume.Read after) :
    Borrowed files base extra spent (world.setVolume after) := by
  rcases read with ⟨count, rfl⟩
  exact ⟨borrowed.super, borrowed.freemap, borrowed.block, borrowed.error, borrowed.lent, borrowed.listed,
    borrowed.old, borrowed.new, borrowed.opens, borrowed.devices, borrowed.grants, borrowed.calls⟩

theorem call (borrowed : Borrowed files base extra spent world) :
    Borrowed files base extra (spent + 1) { world with calls := world.calls + 1 } :=
  { borrowed with calls := by rw [borrowed.calls, Nat.add_assoc] }

/-- The count of a loaded inode changes, and the inode stays. -/
theorem setCount {count : Nat} {value : Inode} (borrowed : Borrowed files base extra spent world)
    (loaded : ino ∈ world.volume.inodeList) (member : ino ∈ files) (stays : ino ∈ base.volume.inodeList \/ 0 < count)
    (changed : value = { world.volume.inode ino with
      refCount := (world.volume.inode ino).refCount + count - extra ino }) :
    Borrowed files base (Function.update extra ino count) spent
      (world.setVolume (world.volume.setInode ino value)) := by
  have here : ((world.volume.setInode ino value).inode ino) = value := SfsFs.inode_setInode ..
  have there : forall {other}, other ≠ ino ->
      (world.volume.setInode ino value).inode other = world.volume.inode other :=
    fun different => SfsFs.inode_setInode_of_ne world.volume different _
  refine ⟨borrowed.super, borrowed.freemap, borrowed.block, borrowed.error, ?_, ?_, ?_, ?_, borrowed.opens,
    borrowed.devices, borrowed.grants, borrowed.calls⟩
  · intro other positive
    by_cases same : other = ino
    · rw [same]
      exact member
    · rw [Function.update_of_ne same] at positive
      exact borrowed.lent other positive
  · intro other
    by_cases same : other = ino
    · rw [same, Function.update_self]
      exact iff_of_true loaded stays
    · rw [Function.update_of_ne same]
      exact borrowed.listed other
  · intro other old
    change (world.volume.setInode ino value).inode other = _
    by_cases same : other = ino
    · subst same
      rw [here, changed, borrowed.old other old, Function.update_self other count extra, Inode.mk.injEq]
      refine ⟨rfl, rfl, rfl, ?_⟩
      dsimp only
      omega
    · rw [there same, Function.update_of_ne same]
      exact borrowed.old other old
  · intro other fresh positive
    change (world.volume.setInode ino value).inode other = _ /\ _
    by_cases same : other = ino
    · subst same
      have lent : 0 < extra other := ((borrowed.listed other).mp loaded).resolve_left fresh
      have new := borrowed.new other fresh lent
      rw [here, changed, new.1, Function.update_self other count extra, Inode.mk.injEq]
      refine ⟨⟨rfl, rfl, rfl, ?_⟩, new.2⟩
      dsimp only
      omega
    · rw [Function.update_of_ne same] at positive
      rw [there same, Function.update_of_ne same]
      exact borrowed.new other fresh positive

theorem withInode {value : Inode} (borrowed : Borrowed files base extra spent world)
    (unloaded : ino ∉ world.volume.inodeList) (member : ino ∈ files)
    (read : value = ⟨decodeInode (base.volume.device.block ino), false, 1, 1⟩) :
    Borrowed files base (Function.update extra ino (extra ino + 1)) spent
      ((world.setVolume (world.volume.withInode ino value)).setOpenCount ino 0) := by
  have none : ¬ (ino ∈ base.volume.inodeList \/ 0 < extra ino) :=
    fun listed => unloaded ((borrowed.listed ino).mpr listed)
  rw [not_or] at none
  have zero : extra ino = 0 := Nat.eq_zero_of_not_pos none.2
  have here : ((world.volume.withInode ino value).inode ino) = value := SfsFs.inode_setInode ..
  have there : forall {other}, other ≠ ino ->
      (world.volume.withInode ino value).inode other = world.volume.inode other :=
    fun different => SfsFs.inode_setInode_of_ne world.volume different _
  have opens : forall {other}, other ≠ ino -> Function.update world.openCount ino 0 other = world.openCount other :=
    fun different => Function.update_of_ne different _ _
  refine ⟨borrowed.super, borrowed.freemap, borrowed.block, borrowed.error, ?_, ?_, ?_, ?_, ?_,
    borrowed.devices, borrowed.grants, borrowed.calls⟩
  · intro other positive
    by_cases same : other = ino
    · rw [same]
      exact member
    · rw [Function.update_of_ne same] at positive
      exact borrowed.lent other positive
  · intro other
    change other ∈ ino :: world.volume.inodeList <-> _
    by_cases same : other = ino
    · rw [same, Function.update_self]
      exact iff_of_true List.mem_cons_self (.inr (Nat.succ_pos _))
    · rw [Function.update_of_ne same, List.mem_cons, or_iff_right same]
      exact borrowed.listed other
  · intro other old
    have same : other ≠ ino := fun same => none.1 (same ▸ old)
    change (world.volume.withInode ino value).inode other = _
    rw [there same, Function.update_of_ne same]
    exact borrowed.old other old
  · intro other fresh positive
    change (world.volume.withInode ino value).inode other = _ /\ Function.update world.openCount ino 0 other = 0
    by_cases same : other = ino
    · subst same
      rw [here, Function.update_self, Function.update_self, read, zero]
      exact ⟨rfl, rfl⟩
    · rw [Function.update_of_ne same] at positive
      rw [there same, opens same, Function.update_of_ne same]
      exact borrowed.new other fresh positive
  · intro other old
    have same : other ≠ ino := fun same => none.1 (same ▸ old)
    change Function.update world.openCount ino 0 other = _
    rw [opens same]
    exact borrowed.opens other old

/-- The last reference to an inode is given back, and the inode is dropped. -/
theorem dropped {value : Inode} (borrowed : Borrowed files base extra spent world)
    (fresh : ino ∉ base.volume.inodeList) :
    Borrowed files base (Function.update extra ino 0) spent
      (world.setVolume { world.volume.setInode ino value with
        inodeList := world.volume.inodeList.filter (fun other => other ≠ ino) }) := by
  have there : forall {other}, other ≠ ino ->
      (world.volume.setInode ino value).inode other = world.volume.inode other :=
    fun different => SfsFs.inode_setInode_of_ne world.volume different _
  refine ⟨borrowed.super, borrowed.freemap, borrowed.block, borrowed.error, ?_, ?_, ?_, ?_, borrowed.opens,
    borrowed.devices, borrowed.grants, borrowed.calls⟩
  · intro other positive
    by_cases same : other = ino
    · rw [same, Function.update_self] at positive
      exact absurd positive (Nat.lt_irrefl 0)
    · rw [Function.update_of_ne same] at positive
      exact borrowed.lent other positive
  · intro other
    change other ∈ world.volume.inodeList.filter (fun other => other ≠ ino) <-> _
    rw [List.mem_filter, decide_eq_true_iff]
    by_cases same : other = ino
    · rw [same, Function.update_self]
      exact iff_of_false (fun both => both.2 rfl) (fun either => either.elim fresh (Nat.lt_irrefl 0))
    · rw [Function.update_of_ne same, and_iff_left same]
      exact borrowed.listed other
  · intro other old
    have same : other ≠ ino := fun same => fresh (same ▸ old)
    change (world.volume.setInode ino value).inode other = _
    rw [there same, Function.update_of_ne same]
    exact borrowed.old other old
  · intro other unlisted positive
    change (world.volume.setInode ino value).inode other = _ /\ _
    by_cases same : other = ino
    · rw [same, Function.update_self] at positive
      exact absurd positive (Nat.lt_irrefl 0)
    · rw [Function.update_of_ne same] at positive
      rw [there same, Function.update_of_ne same]
      exact borrowed.new other unlisted positive

end Borrowed

/-! ## On the volume -/

section Volume

variable {fs : SfsFs} {done : Unit -> SfsFs -> Prop} {fail : Errno -> SfsFs -> Prop} {stop : Fault -> Prop}

/-- `sfs_load_inode` of an inode that is not loaded -/
theorem loadInode_fresh {dinAlloc nodeAlloc : Bool} (owned : fs.Owned files) (works : fs.Works) (member : ino ∈ files)
    (unloaded : ino ∉ fs.inodeList) (linked : (decodeInode (fs.device.block ino)).nlinks ≠ 0)
    (kind : (decodeInode (fs.device.block ino)).type = typeDir)
    (refused : dinAlloc = false \/ nodeAlloc = false -> forall after, fs.Read after -> fail .noMem after)
    (loaded : dinAlloc = true -> nodeAlloc = true -> forall after, fs.Read after ->
      done () (after.withInode ino ⟨decodeInode (fs.device.block ino), false, 1, 1⟩)) :
    Meets (loadInode ino dinAlloc nodeAlloc) fs ⟨done, fail, stop⟩ := by
  have held : fs.holds files (.inode ino) = some ino := if_pos member
  have valid := owned.valid held (by simp)
  have ticked : fs.Read fs.tick := (SfsFs.Read.refl fs).tick
  have bytes : (fun k => fs.device.block ino (0 + k)) = fs.device.block ino := by
    funext k
    rw [Nat.zero_add]
  unfold loadInode
  simp only [meets_bind, meets_get, meets_ite, meets_modify, meets_throw, meets_halt, meets_assert]
  rw [if_neg unloaded]
  cases dinAlloc with
  | false => exact refused (.inl rfl) fs (SfsFs.Read.refl fs)
  | true =>
      rw [if_neg (by decide)]
      apply assertInuse_meets valid (owned.lt_nbits valid.2.1) (owned.inUse held)
      apply rbuf_meets valid (by decide) (by decide)
      · exact fun error broken => absurd (broken.symm.trans (works _)) (Option.some_ne_none error)
      · intro _
        rw [bytes]
        refine ⟨fun _ => ?_, fun none => absurd linked none⟩
        cases nodeAlloc with
        | false => exact refused (.inr rfl) _ ticked
        | true =>
            rw [if_neg (by decide), if_neg (fun both => both.2 kind)]
            exact loaded rfl rfl _ ticked

/-- `inode_ref_dec` when others refer to the inode -/
theorem refDec_more (more : 2 <= (fs.inode ino).refCount)
    (returns : done () (fs.setInode ino { fs.inode ino with refCount := (fs.inode ino).refCount - 1 })) :
    Meets (Sfs.refDec ino) fs ⟨done, fail, stop⟩ := by
  have here := SfsFs.inode_setInode fs ino { fs.inode ino with refCount := (fs.inode ino).refCount - 1 }
  unfold Sfs.refDec
  simp only [meets_bind, meets_get, meets_assert, meets_modify, meets_ite, meets_pure]
  refine ⟨fun _ => ?_, fun none => absurd (by omega) none⟩
  rw [here, if_neg (by dsimp only; omega)]
  exact returns

/-- `inode_ref_dec` of the last reference to an inode that nobody has changed -/
theorem refDec_last {din : DiskInode} (inode : fs.inode ino = ⟨din, false, 1, 1⟩) (linked : din.nlinks ≠ 0)
    (returns : forall value, done () { fs.setInode ino value with
      inodeList := fs.inodeList.filter (fun other => other ≠ ino) }) :
    Meets (Sfs.refDec ino) fs ⟨done, fail, stop⟩ := by
  have twice : forall first second : Inode, (fs.setInode ino first).setInode ino second = fs.setInode ino second := by
    intro first second
    unfold SfsFs.setInode
    rw [Function.update_idem]
  have here : forall value, (fs.setInode ino value).inode ino = value := SfsFs.inode_setInode fs ino
  unfold Sfs.refDec reclaim reclaimInode removeLinks reclaimBlocks getDin
  simp only [meets_bind, meets_get, meets_assert, meets_modify, meets_ite, meets_pure, meets_attempt, twice, here,
    inode]
  refine ⟨fun _ => ?_, fun none => absurd (by decide) none⟩
  rw [if_pos (by decide)]
  refine ⟨fun _ => ?_, fun none => absurd (by decide) none⟩
  rw [if_neg (by decide), if_neg linked, if_neg (by decide), if_neg linked]
  exact returns _

end Volume

/-! ## Taking and giving back -/

section Rules

variable {fail : Errno -> World -> Prop} {stop : Fault -> Prop}

theorem Borrowed.kept (borrowed : Borrowed files base extra spent world) (loaded : ino ∈ world.volume.inodeList)
    (steady : base.Steady files) : ino ∈ files := (borrowed.owned steady.owned).loaded ino loaded

theorem Borrowed.inode_din (borrowed : Borrowed files base extra spent world)
    (loaded : ino ∈ world.volume.inodeList) : (world.volume.inode ino).din = base.volume.dinOf ino := by
  rw [← borrowed.dinOf]
  exact (if_pos loaded).symm

/-- An inode in use has one reference at least. -/
theorem Borrowed.counted (borrowed : Borrowed files base extra spent world) (steady : base.Steady files)
    (loaded : ino ∈ world.volume.inodeList) : 1 <= (world.volume.inode ino).refCount := by
  by_cases old : ino ∈ base.volume.inodeList
  · rw [borrowed.old ino old]
    have := steady.counted ino old
    dsimp only
    omega
  · have lent := ((borrowed.listed ino).mp loaded).resolve_left old
    rw [(borrowed.new ino old lent).1]
    dsimp only
    omega

theorem Borrowed.granted_one (borrowed : Borrowed files base extra spent world) :
    base.Granted spent 1 <-> world.grants world.calls = true := by
  unfold World.Granted
  rw [borrowed.grants, borrowed.calls]
  exact ⟨fun granted => granted 0 Nat.one_pos, fun granted index below => by rwa [show index = 0 by omega]⟩

theorem Borrowed.granted_two (borrowed : Borrowed files base extra spent world) : base.Granted spent 2 <->
    world.grants world.calls = true /\ world.grants (world.calls + 1) = true := by
  rw [show 2 = 1 + 1 from rfl, World.granted_add, borrowed.granted_one, borrowed.call.granted_one]

theorem refInc_borrowed (borrowed : Borrowed files base extra spent world) (steady : base.Steady files)
    (loaded : ino ∈ world.volume.inodeList) :
    Meets (refInc (.sfs ino)) world
      ⟨fun _ after => Borrowed files base (Function.update extra ino (extra ino + 1)) spent after, fail, stop⟩ := by
  unfold refInc onVolume
  simp only [meets_zoom, meets_modify]
  refine borrowed.setCount loaded (borrowed.kept loaded steady) (.inr (Nat.succ_pos _)) ?_
  rw [Inode.mk.injEq]
  refine ⟨rfl, rfl, rfl, ?_⟩
  omega

/-- `sfs_load_inode`, which needs memory for an inode that is not loaded -/
theorem load_borrowed (borrowed : Borrowed files base extra spent world) (steady : base.Steady files)
    (member : ino ∈ files) (linked : (base.volume.dinOf ino).nlinks ≠ 0)
    (kind : (base.volume.dinOf ino).type = typeDir) :
    Meets (load ino) world
      ⟨fun _ after => base.Granted spent (if ino ∈ world.volume.inodeList then 0 else 2) /\
          Borrowed files base (Function.update extra ino (extra ino + 1))
            (spent + if ino ∈ world.volume.inodeList then 0 else 2) after,
        fun _ after => ¬ base.Granted spent (if ino ∈ world.volume.inodeList then 0 else 2) /\
          Exists fun more => Borrowed files base extra more after,
        stop⟩ := by
  unfold load kmalloc onVolume
  simp only [meets_bind, meets_get, meets_ite, meets_zoom, meets_modify, meets_pure]
  by_cases loaded : ino ∈ world.volume.inodeList
  · have counted := borrowed.counted steady loaded
    unfold loadInode
    simp only [meets_bind, meets_get, meets_ite, meets_modify, if_pos loaded]
    refine ⟨World.granted_zero _ _, borrowed.setCount loaded member (.inr (Nat.succ_pos _)) ?_⟩
    unfold Inode.lookup
    rw [Inode.mk.injEq, if_neg (by omega)]
    refine ⟨rfl, rfl, rfl, ?_⟩
    omega
  · have none : ino ∉ base.volume.inodeList := fun old => loaded ((borrowed.listed ino).mpr (.inl old))
    have disk : base.volume.dinOf ino = decodeInode (world.volume.device.block ino) := by
      rw [borrowed.block]
      exact if_neg none
    rw [disk] at linked kind
    have owned := borrowed.owned steady.owned
    have works := borrowed.works steady.works
    have granted := borrowed.granted_two
    simp only [if_neg loaded]
    by_cases din : world.grants world.calls = true
    · rw [if_pos din, din]
      apply loadInode_fresh owned works member loaded linked kind
      · rintro refused after reads
        refine ⟨fun both => ?_, _, borrowed.call.call.read reads⟩
        have node := (granted.mp both).2
        rw [node] at refused
        exact absurd refused (by decide)
      · intro _ node after reads
        refine ⟨granted.mpr ⟨din, node⟩, (borrowed.call.call.read reads).withInode ?_ member ?_⟩
        · change ino ∉ after.inodeList
          rw [reads.quiet.inodeList]
          exact loaded
        · rw [borrowed.block]
    · rw [if_neg din]
      apply loadInode_fresh owned works member loaded linked kind
      · rintro _ after reads
        exact ⟨fun both => din (granted.mp both).1, _, borrowed.call.read reads⟩
      · exact fun alloc => absurd alloc din

theorem refDec_borrowed (borrowed : Borrowed files base extra spent world) (steady : base.Steady files)
    (lent : 0 < extra ino) (linked : (base.volume.dinOf ino).nlinks ≠ 0) :
    Meets (refDec (.sfs ino)) world
      ⟨fun _ after => Borrowed files base (Function.update extra ino (extra ino - 1)) spent after, fail, stop⟩ := by
  have loaded : ino ∈ world.volume.inodeList := (borrowed.listed ino).mpr (.inr lent)
  have member := borrowed.lent ino lent
  have counted := borrowed.counted steady loaded
  have refs : world.refs (.sfs ino) = (world.volume.inode ino).refCount := rfl
  unfold refDec onVolume
  simp only [meets_bind, meets_get, meets_ite, meets_zoom]
  by_cases more : 2 <= (world.volume.inode ino).refCount
  · rw [if_neg (by omega)]
    apply refDec_more more
    refine borrowed.setCount loaded member ?_ ?_
    · by_cases old : ino ∈ base.volume.inodeList
      · exact .inl old
      · rw [(borrowed.new ino old lent).1] at more
        dsimp only at more
        exact .inr (by omega)
    · rw [Inode.mk.injEq]
      refine ⟨rfl, rfl, rfl, ?_⟩
      omega
  · have single : (world.volume.inode ino).refCount = 1 := by omega
    have fresh : ino ∉ base.volume.inodeList := by
      intro old
      have inode := borrowed.old ino old
      have := steady.counted ino old
      rw [inode] at single
      dsimp only at single
      omega
    have new := borrowed.new ino fresh lent
    have one : extra ino = 1 := by
      rw [new.1] at single
      dsimp only at single
      omega
    have disk : base.volume.dinOf ino = decodeInode (base.volume.device.block ino) := if_neg fresh
    rw [if_pos (refs.trans single), meets_assert]
    refine ⟨fun _ => ?_, fun none => absurd new.2 none⟩
    apply refDec_last (new.1.trans (by rw [one]; rfl)) (disk ▸ linked)
    intro value
    rw [one, Nat.sub_self]
    exact borrowed.dropped fresh

/-- The calls of `kmalloc` that `sfs_lookup_once` makes for an inode that it
finds -/
def World.price (world : World) (ino : Nat) : Nat := if ino ∈ world.volume.inodeList then 1 else 3

/-- `sfs_lookup_once` of a name that the directory has -/
theorem lookupOnce_borrowed {name : List UInt8} {target slot : Nat} (borrowed : Borrowed files base extra spent world)
    (steady : base.Steady files) (loaded : ino ∈ world.volume.inodeList)
    (directory : (base.volume.dinOf ino).type = typeDir) (short : name.length <= maxFnameLen)
    (mapped : forall slot, slot < nslots (base.volume.dinOf ino) -> base.volume.Mapped (base.volume.dinOf ino) slot)
    (found : searchEntries (base.volume.direntOf (base.volume.dinOf ino)) name (nslots (base.volume.dinOf ino)) 0 =
      some (target, slot))
    (member : target ∈ files) (linked : (base.volume.dinOf target).nlinks ≠ 0)
    (kind : (base.volume.dinOf target).type = typeDir) :
    Meets (lookupOnce ino name) world
      ⟨fun result after => result = target /\ base.Granted spent (world.price target) /\
          Borrowed files base (Function.update extra target (extra target + 1)) (spent + world.price target) after,
        fun _ after => ¬ base.Granted spent (world.price target) /\
          Exists fun more => Borrowed files base extra more after,
        stop⟩ := by
  have din := borrowed.inode_din loaded
  have works := borrowed.works steady.works
  have price : world.price target = 1 + if target ∈ world.volume.inodeList then 0 else 2 := by
    unfold World.price
    split <;> rfl
  rw [price, World.granted_add]
  unfold lookupOnce onVolume kmalloc
  simp only [meets_bind, meets_get, meets_modify, meets_pure, meets_zoom]
  cases alloc : world.grants world.calls with
  | false =>
      unfold direntSearchNolock
      simp only [meets_bind, meets_assert, meets_ite, meets_throw]
      refine ⟨fun _ => ?_, fun long => absurd short long⟩
      rw [if_pos trivial]
      refine ⟨fun both => ?_, _, borrowed.call⟩
      have first := borrowed.granted_one.mp both.1
      rw [alloc] at first
      cases first
  | true =>
      have first := borrowed.granted_one.mpr alloc
      refine (direntSearchNolock_meets (borrowed.owned steady.owned) loaded (din ▸ directory) ?_ ?_).mono ?_ ?_
        (fun _ stopped => stopped)
      · exact fun long => absurd long (Nat.not_lt.mpr short)
      · exact fun slot low hole => absurd (din ▸ borrowed.mapped (mapped slot (din ▸ low))) hole
      · rintro result after ⟨reads, here⟩
        rw [din, borrowed.direntOf, found, Option.some_inj] at here
        have called := borrowed.call.read reads
        have listed : (target ∈ after.inodeList) = (target ∈ world.volume.inodeList) := by rw [reads.quiet.inodeList]
        rw [← here]
        refine (load_borrowed called steady member linked kind).mono ?_ ?_ (fun _ stopped => stopped)
        · rintro _ final ⟨granted, taken⟩
          change base.Granted (spent + 1) (if target ∈ after.inodeList then 0 else 2) at granted
          change Borrowed files base _ (spent + 1 + if target ∈ after.inodeList then 0 else 2) final at taken
          simp only [listed] at granted taken
          rw [← Nat.add_assoc]
          exact ⟨rfl, ⟨first, granted⟩, taken⟩
        · rintro _ final ⟨refused, more⟩
          change ¬ base.Granted (spent + 1) (if target ∈ after.inodeList then 0 else 2) at refused
          simp only [listed] at refused
          exact ⟨fun both => refused both.2, more⟩
      · rintro error after ⟨reads, reason⟩
        rcases reason with broken | refused | ⟨_, absent⟩
        · exact absurd works broken
        · cases refused
        · rw [din, borrowed.direntOf, found] at absent
          cases absent

end Rules

end Path
end Ucore
