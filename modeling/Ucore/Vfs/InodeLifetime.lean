import Mathlib.Data.List.Basic
import Mathlib.Logic.Function.Basic
import Ucore.Library.Run

namespace Ucore
namespace Vfs

open Library

/-!
# The lifetime of an inode in memory

`sfs_load_inode` and `sfs_reclaim` run under the semaphore `fs_sem` of the
volume.  A process runs until it has to wait: for this semaphore, or, while it
holds it, for a transfer of the device.  Between a decrement of `ref_count` to
zero and the turn of the reclaim that it starts, a lookup may raise the count
again.  What makes this safe is that `reclaim_count` is the number of reclaims
that still wait for their turn, plus one while the inode is referred to.

An inode is known by its address, which the allocator may use again once it
has been freed.
-/

/-- `struct inode` with its `struct sfs_inode`. -/
structure MemInode where
  ino : Nat
  refCount : Int
  reclaimCount : Int
  nlinks : Nat
  dirty : Bool

/-- What a process waits for `fs_sem` with. -/
inductive Request where
  | load (ino : Nat)
  | reclaim (node : Nat)
deriving DecidableEq

/-- Where a process is that has `fs_sem`: it has got it, or it waits for the
device. -/
inductive Stage where
  | granted (request : Request)
  | reading (ino : Nat)
  | truncating (node : Nat)
  | syncing (node : Nat)
deriving DecidableEq

inductive LifetimeFault where
  | assertion (text : String)
  | useAfterFree
  | doubleFree
deriving DecidableEq

/-- The record of an inode that was freed: its reference count, and the
reclaims of it that were still pending. -/
structure Freed where
  node : Nat
  refCount : Int
  pending : Nat

structure InodeTable (Process : Type) where
  value : Nat
  queue : List (Process × Request)
  inside : List (Process × Stage)
  hashList : List Nat
  node : Nat -> Option MemInode
  freed : List Freed

/-- A reclaim that has not had its turn. -/
def Request.reclaims (node : Nat) (request : Request) : Bool := decide (request = .reclaim node)

def Stage.reclaims (node : Nat) (stage : Stage) : Bool := decide (stage = .granted (.reclaim node))

/-- `lookup_sfs_nolock` counts a reference. -/
def MemInode.lookup (node : MemInode) : MemInode :=
  { node with
    refCount := node.refCount + 1
    reclaimCount := if node.refCount + 1 = 1 then node.reclaimCount + 1 else node.reclaimCount }

namespace InodeTable

variable {Process : Type}

/-- The reclaims of an inode that have not had their turn. -/
def pending (table : InodeTable Process) (node : Nat) : Nat :=
  table.queue.countP (fun entry => entry.2.reclaims node) + table.inside.countP (fun entry => entry.2.reclaims node)

def setNode (table : InodeTable Process) (address : Nat) (value : Option MemInode) : InodeTable Process :=
  { table with node := Function.update table.node address value }

/-- `up(&(sfs->fs_sem))`; the process that waits first gets the semaphore. -/
def up (table : InodeTable Process) : InodeTable Process :=
  match table.queue with
  | [] => { table with value := table.value + 1 }
  | (process, request) :: rest =>
      { table with queue := rest, inside := (process, .granted request) :: table.inside }

/-- The address of the inode of a number, if it is in the hash list. -/
def lookup (table : InodeTable Process) (ino : Nat) : Option Nat :=
  table.hashList.find? (fun address => (table.node address).any (fun node => node.ino = ino))

variable [DecidableEq Process]

/-- The process is at another stage. -/
def setStage (table : InodeTable Process) (process : Process) (stage : Stage) : InodeTable Process :=
  { table with inside := (process, stage) :: table.inside.filter (fun entry => entry.1 ≠ process) }

/-- `unlock_sfs_fs` by a process. -/
def unlock (table : InodeTable Process) (process : Process) : InodeTable Process :=
  up { table with inside := table.inside.filter (fun entry => entry.1 ≠ process) }

/-- `vop_kill` -/
def kill (table : InodeTable Process) (address : Nat) : Except LifetimeFault (InodeTable Process) :=
  match table.node address with
  | none => .error .doubleFree
  | some node =>
      if node.refCount = 0 then
        .ok { table.setNode address none with freed := ⟨address, node.refCount, table.pending address⟩ :: table.freed }
      else .error (.assertion "inode_ref_count(node) == 0")

/-- `sfs_reclaim` from `sfs_remove_links` on -/
def reclaimEnd (table : InodeTable Process) (process : Process) (address : Nat) :
    Except LifetimeFault (InodeTable Process) :=
  kill (unlock { table with hashList := table.hashList.filter (fun other => other ≠ address) } process) address

/-- `sfs_reclaim` once the file is empty or has links -/
def reclaimDirty (table : InodeTable Process) (process : Process) (address : Nat) (node : MemInode) :
    Except LifetimeFault (InodeTable Process) :=
  if node.dirty = true then .ok (table.setStage process (.syncing address)) else table.reclaimEnd process address

/-- `sfs_reclaim` from the semaphore on -/
def reclaim (table : InodeTable Process) (process : Process) (address : Nat) :
    Except LifetimeFault (InodeTable Process) :=
  match table.node address with
  | none => .error .useAfterFree
  | some node =>
      if node.reclaimCount > 0 then
        let counted := { node with reclaimCount := node.reclaimCount - 1 }
        let table := table.setNode address (some counted)
        if counted.reclaimCount ≠ 0 \/ counted.refCount ≠ 0 then .ok (table.unlock process)
        else if counted.nlinks = 0 then .ok (table.setStage process (.truncating address))
        else table.reclaimDirty process address counted
      else .error (.assertion "sin->reclaim_count > 0")

/-- `sfs_load_inode` from the semaphore on; the flag says whether `kmalloc`
succeeds. -/
def load (table : InodeTable Process) (process : Process) (ino : Nat) (dinAlloc : Bool) : InodeTable Process :=
  match table.lookup ino with
  | some address => (table.setNode address ((table.node address).map MemInode.lookup)).unlock process
  | none => if dinAlloc = true then table.setStage process (.reading ino) else table.unlock process

/-- What a process does when it has the semaphore. -/
def serve (table : InodeTable Process) (process : Process) (dinAlloc : Bool) :
    Request -> Except LifetimeFault (InodeTable Process)
  | .load ino => .ok (table.load process ino dinAlloc)
  | .reclaim address => table.reclaim process address

/-- `lock_sfs_fs` and what follows, or the wait for it. -/
def lock (table : InodeTable Process) (process : Process) (request : Request) (dinAlloc : Bool) :
    Except LifetimeFault (InodeTable Process) :=
  if table.value > 0 then
    serve { table with value := table.value - 1, inside := (process, .granted request) :: table.inside }
      process dinAlloc request
  else .ok { table with queue := table.queue ++ [(process, request)] }

/-- `sfs_load_inode` after the transfer: the inode is set up with its number of
links, unless the transfer has failed or there is no memory. -/
def create (table : InodeTable Process) (process : Process) (ino : Nat) : Option (Nat × Nat) -> InodeTable Process
  | none => table.unlock process
  | some (address, nlinks) =>
      unlock { table.setNode address (some ⟨ino, 1, 1, nlinks, false⟩) with hashList := address :: table.hashList }
        process

/-- The process is not in one of the functions. -/
def Idle (table : InodeTable Process) (process : Process) : Prop :=
  (forall entry, entry ∈ table.queue -> entry.1 ≠ process) /\ (forall entry, entry ∈ table.inside -> entry.1 ≠ process)

instance (table : InodeTable Process) (process : Process) : Decidable (table.Idle process) :=
  inferInstanceAs (Decidable (_ /\ _))

/-- Where a process is that has the semaphore. -/
def stageOf (table : InodeTable Process) (process : Process) : Option Stage :=
  (table.inside.find? (fun entry => entry.1 = process)).map (fun entry => entry.2)

end InodeTable

/-- A process calls one of the functions, or goes on after a wait.  What the
device and the allocator answer is part of the step. -/
inductive LifetimeStep (Process : Type) where
  | load (process : Process) (ino : Nat) (dinAlloc : Bool)
  | refInc (node : Nat)
  | refDec (process : Process) (node : Nat)
  | change (node nlinks : Nat) (dirty : Bool)
  | resume (process : Process) (dinAlloc : Bool)
  | read (process : Process) (result : Option (Nat × Nat))
  | truncated (process : Process) (success dirty : Bool)
  | synced (process : Process) (success : Bool)

namespace LifetimeStep

variable {Process : Type} [DecidableEq Process]

open InodeTable

/-- A step, if it can be taken.  References are taken and dropped, and inodes
are changed, only by those who have a reference. -/
def run (table : InodeTable Process) : LifetimeStep Process -> Option (Except LifetimeFault (InodeTable Process))
  | load process ino dinAlloc => if table.Idle process then some (table.lock process (.load ino) dinAlloc) else none
  | refInc address =>
      (table.node address).bind fun node =>
        if 0 < node.refCount then
          some (.ok (table.setNode address (some { node with refCount := node.refCount + 1 })))
        else none
  | refDec process address =>
      (table.node address).bind fun node =>
        if table.Idle process /\ 0 < node.refCount then
          let dropped := table.setNode address (some { node with refCount := node.refCount - 1 })
          if node.refCount - 1 = 0 then some (dropped.lock process (.reclaim address) false) else some (.ok dropped)
        else none
  | change address nlinks dirty =>
      (table.node address).bind fun node =>
        if 0 < node.refCount then
          some (.ok (table.setNode address (some { node with nlinks := nlinks, dirty := dirty })))
        else none
  | resume process dinAlloc =>
      match table.stageOf process with
      | some (.granted request) => some (table.serve process dinAlloc request)
      | _ => none
  | read process result =>
      match table.stageOf process with
      | some (.reading ino) =>
          if forall created, created ∈ result -> table.node created.1 = none /\ created.2 ≠ 0 then
            some (.ok (table.create process ino result))
          else none
      | _ => none
  | truncated process success dirty =>
      match table.stageOf process with
      | some (.truncating address) =>
          match table.node address with
          | none => some (.error .useAfterFree)
          | some node =>
              let emptied := { node with dirty := dirty }
              let table := table.setNode address (some emptied)
              if success = true then some (table.reclaimDirty process address emptied)
              else some (.ok (table.unlock process))
      | _ => none
  | synced process success =>
      match table.stageOf process with
      | some (.syncing address) =>
          match table.node address with
          | none => some (.error .useAfterFree)
          | some node =>
              if success = true then
                some ((table.setNode address (some { node with dirty := false })).reclaimEnd process address)
              else some (.ok (table.unlock process))
      | _ => none

end LifetimeStep

/-- The machine; a fault ends its run. -/
def lifetimeMachine (Process : Type) [DecidableEq Process] :
    Machine (Except LifetimeFault (InodeTable Process)) (LifetimeStep Process) where
  step state step :=
    match state with
    | .error _ => none
    | .ok table => step.run table

/-- No inode is in memory. -/
def emptyTable (Process : Type) : InodeTable Process := ⟨1, [], [], [], fun _ => none, []⟩

/-! ## The invariant -/

/-- Each inode has one address, and `reclaim_count` counts the pending reclaims
and the references as a whole. -/
structure Counted (pending : Nat -> Nat) (hashList : List Nat) (node : Nat -> Option MemInode) : Prop where
  nodup : hashList.Nodup
  live : forall address, address ∈ hashList <-> Exists fun inode => node address = some inode
  unique : forall first second one two, node first = some one -> node second = some two -> one.ino = two.ino ->
    first = second
  count : forall address inode, node address = some inode -> 0 <= inode.refCount /\
    inode.reclaimCount = pending address + (if 0 < inode.refCount then 1 else 0)
  wanted : forall address, 0 < pending address -> Exists fun inode => node address = some inode

namespace Counted

variable {pending later : Nat -> Nat} {hashList : List Nat} {node : Nat -> Option MemInode}

/-- The counts of one inode change. -/
theorem setNode (counted : Counted pending hashList node) {address : Nat} {inode value : MemInode}
    (found : node address = some inode) (ino : value.ino = inode.ino)
    (others : forall other, other ≠ address -> later other = pending other)
    (count : 0 <= value.refCount /\
      value.reclaimCount = later address + (if 0 < value.refCount then 1 else 0)) :
    Counted later hashList (Function.update node address (some value)) where
  nodup := counted.nodup
  live := by
    intro other
    rw [counted.live]
    by_cases same : other = address
    · subst same
      rw [Function.update_self]
      exact ⟨fun _ => ⟨value, rfl⟩, fun _ => ⟨inode, found⟩⟩
    · rw [Function.update_of_ne same]
  unique := by
    intro first second one two firstFound secondFound same
    -- the number of the changed inode is the one it had
    have number : forall other result, Function.update node address (some value) other = some result ->
        Exists fun was => node other = some was /\ was.ino = result.ino := by
      intro other result here
      by_cases equal : other = address
      · subst equal
        rw [Function.update_self] at here
        cases here
        exact ⟨inode, found, ino.symm⟩
      · rw [Function.update_of_ne equal] at here
        exact ⟨result, here, rfl⟩
    rcases number first one firstFound with ⟨wasOne, foundOne, inoOne⟩
    rcases number second two secondFound with ⟨wasTwo, foundTwo, inoTwo⟩
    exact counted.unique first second wasOne wasTwo foundOne foundTwo (by rw [inoOne, inoTwo, same])
  count := by
    intro other result here
    by_cases same : other = address
    · subst same
      rw [Function.update_self] at here
      cases here
      exact count
    · rw [Function.update_of_ne same] at here
      rw [others other same]
      exact counted.count other result here
  wanted := by
    intro other positive
    by_cases same : other = address
    · subst same
      exact ⟨value, Function.update_self ..⟩
    · rw [others other same] at positive
      rw [Function.update_of_ne same]
      exact counted.wanted other positive

/-- An inode that nobody wants goes. -/
theorem remove (counted : Counted pending hashList node) {address : Nat} (unwanted : pending address = 0) :
    Counted pending (hashList.filter fun other => other ≠ address) (Function.update node address none) where
  nodup := counted.nodup.filter _
  live := by
    intro other
    rw [List.mem_filter, decide_eq_true_iff, counted.live]
    by_cases same : other = address
    · subst same
      rw [Function.update_self]
      exact iff_of_false (fun both => both.2 rfl) (fun absurd => nomatch absurd)
    · rw [Function.update_of_ne same]
      exact ⟨fun both => both.1, fun found => ⟨found, same⟩⟩
  unique := by
    intro first second one two firstFound secondFound
    have kept : forall other result, Function.update node address none other = some result ->
        node other = some result := by
      intro other result here
      by_cases same : other = address
      · subst same
        rw [Function.update_self] at here
        cases here
      · rwa [Function.update_of_ne same] at here
    exact counted.unique first second one two (kept first one firstFound) (kept second two secondFound)
  count := by
    intro other result here
    by_cases same : other = address
    · subst same
      rw [Function.update_self] at here
      cases here
    · rw [Function.update_of_ne same] at here
      exact counted.count other result here
  wanted := by
    intro other positive
    have different : other ≠ address := by
      rintro rfl
      omega
    rw [Function.update_of_ne different]
    exact counted.wanted other positive

/-- A new inode is set up. -/
theorem insert (counted : Counted pending hashList node) {address ino nlinks : Nat} (unused : node address = none)
    (absent : forall other inode, node other = some inode -> inode.ino ≠ ino) :
    Counted pending (address :: hashList) (Function.update node address (some ⟨ino, 1, 1, nlinks, false⟩)) where
  nodup := by
    rw [List.nodup_cons]
    refine ⟨?_, counted.nodup⟩
    intro listed
    rcases (counted.live address).mp listed with ⟨inode, found⟩
    rw [unused] at found
    cases found
  live := by
    intro other
    rw [List.mem_cons, counted.live]
    by_cases same : other = address
    · subst same
      rw [Function.update_self]
      exact ⟨fun _ => ⟨_, rfl⟩, fun _ => .inl rfl⟩
    · rw [Function.update_of_ne same]
      exact ⟨fun either => either.resolve_left same, .inr⟩
  unique := by
    intro first second one two firstFound secondFound same
    by_cases firstHere : first = address <;> by_cases secondHere : second = address
    · exact firstHere.trans secondHere.symm
    · subst firstHere
      rw [Function.update_self] at firstFound
      rw [Function.update_of_ne secondHere] at secondFound
      cases firstFound
      exact absurd same.symm (absent second two secondFound)
    · subst secondHere
      rw [Function.update_of_ne firstHere] at firstFound
      rw [Function.update_self] at secondFound
      cases secondFound
      exact absurd same (absent first one firstFound)
    · rw [Function.update_of_ne firstHere] at firstFound
      rw [Function.update_of_ne secondHere] at secondFound
      exact counted.unique first second one two firstFound secondFound same
  count := by
    intro other result here
    by_cases same : other = address
    · subst same
      rw [Function.update_self] at here
      cases here
      have none : pending other = 0 := by
        by_contra positive
        rcases counted.wanted other (Nat.pos_of_ne_zero positive) with ⟨inode, found⟩
        rw [unused] at found
        cases found
      rw [none]
      exact ⟨Int.one_nonneg, rfl⟩
    · rw [Function.update_of_ne same] at here
      exact counted.count other result here
  wanted := by
    intro other positive
    by_cases same : other = address
    · subst same
      exact ⟨_, Function.update_self ..⟩
    · rw [Function.update_of_ne same]
      exact counted.wanted other positive

end Counted

namespace InodeTable

variable {Process : Type}

/-- What holds between two steps: one process is behind `fs_sem` at most, the
reclaim counts count the pending reclaims, and an inode was freed only when
nobody referred to it. -/
structure Sound (table : InodeTable Process) : Prop where
  lock : table.value + table.inside.length = 1
  counted : Counted table.pending table.hashList table.node
  emptying : forall process address, (process, .truncating address) ∈ table.inside \/
      (process, .syncing address) ∈ table.inside -> Exists fun inode =>
    table.node address = some inode /\ inode.refCount = 0 /\ inode.reclaimCount = 0
  reading : forall process ino, (process, .reading ino) ∈ table.inside -> forall address inode,
    table.node address = some inode -> inode.ino ≠ ino
  freed : forall record, record ∈ table.freed -> record.refCount = 0 /\ record.pending = 0

/-- The reclaims in the wait queue. -/
def queued (table : InodeTable Process) (node : Nat) : Nat :=
  table.queue.countP (fun entry => entry.2.reclaims node)

/-- What holds while a process runs with the semaphore; its own reclaim does
not count any more. -/
structure Held (table : InodeTable Process) (process : Process) : Prop where
  value : table.value = 0
  inside : Exists fun stage => table.inside = [(process, stage)]
  counted : Counted table.queued table.hashList table.node
  freed : forall record, record ∈ table.freed -> record.refCount = 0 /\ record.pending = 0

variable {table : InodeTable Process} {process : Process}

theorem up_sound (value : table.value = 0) (inside : table.inside = [])
    (counted : Counted table.queued table.hashList table.node)
    (freed : forall record, record ∈ table.freed -> record.refCount = 0 /\ record.pending = 0) :
    table.up.Sound /\ table.up.pending = table.queued := by
  rcases table with ⟨_, queue, _, hashList, node, freedList⟩
  dsimp only at value inside
  subst value inside
  cases queue with
  | nil =>
      refine ⟨⟨rfl, counted, ?_, ?_, freed⟩, rfl⟩
      · exact fun _ _ either => either.elim (fun absurd => nomatch absurd) (fun absurd => nomatch absurd)
      · exact fun _ _ absurd => nomatch absurd
  | cons first rest =>
      rcases first with ⟨next, request⟩
      have pending : InodeTable.pending ⟨0, rest, [(next, .granted request)], hashList, node, freedList⟩ =
          InodeTable.queued ⟨0, (next, request) :: rest, [], hashList, node, freedList⟩ := by
        funext address
        unfold InodeTable.pending queued
        dsimp only
        unfold Request.reclaims Stage.reclaims
        simp only [List.countP_cons, List.countP_nil, Nat.zero_add, Stage.granted.injEq]
      refine ⟨⟨rfl, ?_, ?_, ?_, freed⟩, pending⟩
      · exact pending ▸ counted
      · rintro process address (listed | listed)
        · cases List.mem_singleton.mp listed
        · cases List.mem_singleton.mp listed
      · intro process ino listed
        cases List.mem_singleton.mp listed

theorem up_node (table : InodeTable Process) (node : Nat -> Option MemInode) :
    ({ table with node := node } : InodeTable Process).up = { table.up with node := node } := by
  rcases table with ⟨_, queue, _, _, _, _⟩
  cases queue <;> rfl

theorem up_kept (table : InodeTable Process) : table.up.node = table.node /\ table.up.freed = table.freed := by
  rcases table with ⟨_, queue, _, _, _, _⟩
  cases queue <;> exact ⟨rfl, rfl⟩

theorem Sound.record (sound : table.Sound) {record : Freed} (right : record.refCount = 0 /\ record.pending = 0) :
    ({ table with freed := record :: table.freed } : InodeTable Process).Sound :=
  ⟨sound.lock, sound.counted, sound.emptying, sound.reading, fun other listed =>
    (List.mem_cons.mp listed).elim (fun same => same ▸ right) (sound.freed other)⟩

variable [DecidableEq Process]

theorem filter_self (stage : Stage) : [(process, stage)].filter (fun entry => entry.1 ≠ process) = [] := by
  simp

theorem Held.unlock (held : table.Held process) :
    (table.unlock process).Sound /\ (table.unlock process).pending = table.queued := by
  rcases held.inside with ⟨stage, inside⟩
  unfold InodeTable.unlock
  rw [inside, filter_self]
  exact up_sound held.value rfl held.counted held.freed

/-- The process waits for the device. -/
theorem Held.setStage (held : table.Held process) {stage : Stage} (waits : forall request, stage ≠ .granted request)
    (emptying : forall address, stage = .truncating address \/ stage = .syncing address -> Exists fun inode =>
      table.node address = some inode /\ inode.refCount = 0 /\ inode.reclaimCount = 0)
    (reading : forall ino, stage = .reading ino -> forall address inode,
      table.node address = some inode -> inode.ino ≠ ino) : (table.setStage process stage).Sound := by
  rcases held.inside with ⟨was, inside⟩
  unfold InodeTable.setStage
  rw [inside, filter_self]
  have pending : forall node, InodeTable.pending { table with inside := [(process, stage)] } node =
    table.queued node := by
    intro node
    unfold InodeTable.pending queued
    rw [List.countP_singleton]
    unfold Stage.reclaims
    rw [decide_eq_false (waits _)]
    rfl
  refine ⟨?_, ?_, ?_, ?_, held.freed⟩
  · dsimp only
    rw [held.value, List.length_singleton]
  · rw [funext pending]
    exact held.counted
  · rintro other address (listed | listed)
    · cases List.mem_singleton.mp listed
      exact emptying address (.inl rfl)
    · cases List.mem_singleton.mp listed
      exact emptying address (.inr rfl)
  · intro other ino listed
    cases List.mem_singleton.mp listed
    exact reading ino rfl

omit [DecidableEq Process] in
theorem Held.setNode (held : table.Held process) {address : Nat} {inode value : MemInode}
    (found : table.node address = some inode) (ino : value.ino = inode.ino)
    (count : 0 <= value.refCount /\
      value.reclaimCount = table.queued address + (if 0 < value.refCount then 1 else 0)) :
    (table.setNode address (some value)).Held process :=
  ⟨held.value, held.inside, held.counted.setNode found ino (fun _ _ => rfl) count, held.freed⟩

omit [DecidableEq Process] in
theorem Held.unwanted (held : table.Held process) {address : Nat} {inode : MemInode}
    (found : table.node address = some inode) (unreferred : inode.refCount = 0) (settled : inode.reclaimCount = 0) :
    table.queued address = 0 := by
  have count := (held.counted.count address inode found).2
  rw [unreferred, settled, if_neg (Int.lt_irrefl 0)] at count
  omega

/-- The inode is freed when nobody refers to it and no reclaim is pending. -/
theorem Held.reclaimEnd (held : table.Held process) {address : Nat} {inode : MemInode}
    (found : table.node address = some inode) (unreferred : inode.refCount = 0)
    (unwanted : table.queued address = 0) :
    Exists fun next => table.reclaimEnd process address = .ok next /\ next.Sound := by
  rcases held.inside with ⟨stage, inside⟩
  have gone := held.counted.remove unwanted
  -- the semaphore is passed on before the inode is freed, which makes no difference
  let emptied : InodeTable Process :=
    { table with inside := [], hashList := table.hashList.filter (fun other => other ≠ address) }
  have released : ({ emptied.up with node := Function.update table.node address none } : InodeTable Process).Sound /\
      emptied.up.pending = table.queued := by
    have passed : ({ emptied with node := Function.update table.node address none } : InodeTable Process).up.Sound /\
        _ = table.queued := up_sound held.value rfl gone held.freed
    rw [up_node] at passed
    exact passed
  have still : emptied.up.node address = some inode := (congrFun (up_kept emptied).1 address).trans found
  have pending : emptied.up.pending address = 0 := (congrFun released.2 address).trans unwanted
  refine ⟨{ emptied.up.setNode address none with freed := ⟨address, inode.refCount, emptied.up.pending address⟩ ::
    emptied.up.freed },
    ?_, ?_⟩
  · unfold InodeTable.reclaimEnd InodeTable.unlock
    dsimp only
    rw [inside, filter_self]
    change emptied.up.kill address = _
    unfold kill
    rw [still]
    dsimp only
    rw [if_pos unreferred]
  · have node : Function.update emptied.up.node address none = Function.update table.node address none := by
      rw [(up_kept emptied).1]
    unfold InodeTable.setNode
    rw [node]
    exact released.1.record ⟨unreferred, pending⟩

/-- `sfs_reclaim` once the file is empty or has links. -/
theorem Held.reclaimDirty (held : table.Held process) {address : Nat} {inode : MemInode}
    (found : table.node address = some inode) (unreferred : inode.refCount = 0) (settled : inode.reclaimCount = 0)
    (unwanted : table.queued address = 0) :
    Exists fun next => table.reclaimDirty process address inode = .ok next /\ next.Sound := by
  unfold InodeTable.reclaimDirty
  split
  · refine ⟨_, rfl, held.setStage (fun _ => nofun) ?_ (fun _ absurd => nomatch absurd)⟩
    rintro other (absurd | same)
    · cases absurd
    · cases same
      exact ⟨inode, found, unreferred, settled⟩
  · exact held.reclaimEnd found unreferred unwanted

omit [DecidableEq Process] in
/-- A process that has the semaphore is alone with it. -/
theorem Sound.alone (sound : table.Sound) {stage : Stage} (listed : (process, stage) ∈ table.inside) :
    table.value = 0 /\ table.inside = [(process, stage)] := by
  have lock := sound.lock
  have positive := List.length_pos_of_mem listed
  refine ⟨by omega, ?_⟩
  rcases List.length_eq_one_iff.mp (by omega : table.inside.length = 1) with ⟨only, inside⟩
  rw [inside] at listed ⊢
  rw [List.mem_singleton.mp listed]

omit [DecidableEq Process] in
/-- A process that waits for the device runs again. -/
theorem Sound.held (sound : table.Sound) {stage : Stage} (listed : (process, stage) ∈ table.inside)
    (waits : forall request, stage ≠ .granted request) : table.Held process := by
  rcases sound.alone listed with ⟨value, inside⟩
  have pending : table.pending = table.queued := by
    funext address
    unfold InodeTable.pending queued
    rw [inside, List.countP_singleton]
    unfold Stage.reclaims
    rw [decide_eq_false (waits _)]
    rfl
  exact ⟨value, ⟨stage, inside⟩, pending ▸ sound.counted, sound.freed⟩

omit [DecidableEq Process] in
theorem Sound.pending_granted (sound : table.Sound) {request : Request}
    (listed : (process, .granted request) ∈ table.inside) (address : Nat) :
    table.pending address = table.queued address + (if request = .reclaim address then 1 else 0) := by
  unfold InodeTable.pending queued
  rw [(sound.alone listed).2, List.countP_singleton]
  unfold Stage.reclaims
  simp only [decide_eq_true_eq, Stage.granted.injEq]

theorem Sound.reclaim (sound : table.Sound) {address : Nat}
    (listed : (process, .granted (.reclaim address)) ∈ table.inside) :
    Exists fun next => table.reclaim process address = .ok next /\ next.Sound := by
  have own : table.pending address = table.queued address + 1 := by
    rw [sound.pending_granted listed, if_pos rfl]
  have others : forall other, other ≠ address -> table.queued other = table.pending other := by
    intro other different
    rw [sound.pending_granted listed, if_neg fun same => different (Request.reclaim.inj same).symm, Nat.add_zero]
  rcases sound.counted.wanted address (by omega) with ⟨inode, found⟩
  have count := sound.counted.count address inode found
  have positive : inode.reclaimCount > 0 := by
    have split := count.2
    split at split <;> omega
  have alone := sound.alone listed
  -- the reclaim has had its turn
  have held : (table.setNode address (some { inode with reclaimCount := inode.reclaimCount - 1 })).Held process := by
    refine ⟨alone.1, ⟨_, alone.2⟩, ?_, sound.freed⟩
    refine sound.counted.setNode found rfl others ⟨count.1, ?_⟩
    change inode.reclaimCount - 1 = (table.queued address : Int) + (if 0 < inode.refCount then 1 else 0)
    have balance := count.2
    generalize (if 0 < inode.refCount then (1 : Int) else 0) = referred at *
    omega
  have here : (table.setNode address (some { inode with reclaimCount := inode.reclaimCount - 1 })).node address =
      some { inode with reclaimCount := inode.reclaimCount - 1 } := Function.update_self ..
  unfold InodeTable.reclaim
  rw [found]
  dsimp only
  rw [if_pos positive]
  split
  · exact ⟨_, rfl, held.unlock.1⟩
  · rename_i last
    push Not at last
    have unwanted : table.queued address = 0 := by
      have split := count.2
      split at split <;> omega
    split
    · refine ⟨_, rfl, held.setStage (fun _ => nofun) ?_ (fun _ absurd => nomatch absurd)⟩
      rintro other (same | absurd)
      · cases same
        exact ⟨_, here, last.2, last.1⟩
      · cases absurd
    · exact held.reclaimDirty here last.2 last.1 unwanted

omit [DecidableEq Process] in
theorem lookup_some {ino address : Nat} (found : table.lookup ino = some address) :
    Exists fun inode => table.node address = some inode /\ inode.ino = ino := by
  have hit := List.find?_some found
  rcases (Option.any_eq_true _ _).mp hit with ⟨inode, here, same⟩
  exact ⟨inode, here, of_decide_eq_true same⟩

omit [DecidableEq Process] in
theorem Sound.lookup_none (sound : table.Sound) {ino : Nat} (missed : table.lookup ino = none) {address : Nat}
    {inode : MemInode} (found : table.node address = some inode) : inode.ino ≠ ino := by
  intro same
  have listed := (sound.counted.live address).mpr ⟨inode, found⟩
  apply List.find?_eq_none.mp missed address listed
  rw [found]
  exact decide_eq_true same

omit [DecidableEq Process] in
/-- A granted load has nothing else to wait for. -/
theorem Sound.held_load (sound : table.Sound) {ino : Nat} (listed : (process, .granted (.load ino)) ∈ table.inside) :
    table.Held process := by
  have pending : table.pending = table.queued := by
    funext address
    rw [sound.pending_granted listed, if_neg nofun, Nat.add_zero]
  have alone := sound.alone listed
  exact ⟨alone.1, ⟨_, alone.2⟩, pending ▸ sound.counted, sound.freed⟩

theorem Sound.load (sound : table.Sound) {ino : Nat} {dinAlloc : Bool}
    (listed : (process, .granted (.load ino)) ∈ table.inside) : (table.load process ino dinAlloc).Sound := by
  have held := sound.held_load listed
  unfold InodeTable.load
  cases search : table.lookup ino with
  | some address =>
      rcases lookup_some search with ⟨inode, found, _⟩
      have count := held.counted.count address inode found
      dsimp only
      rw [found, Option.map_some]
      have more : (table.setNode address (some inode.lookup)).Held process := held.setNode found rfl ?_
      · exact more.unlock.1
      refine ⟨by change 0 <= inode.refCount + 1; omega, ?_⟩
      have balance := count.2
      change (if inode.refCount + 1 = 1 then inode.reclaimCount + 1 else inode.reclaimCount) =
        (table.queued address : Int) + (if 0 < inode.refCount + 1 then 1 else 0)
      split at balance <;> split <;> split <;> omega
  | none =>
      dsimp only
      split
      · refine held.setStage (fun _ => nofun) ?_ ?_
        · exact fun _ either => either.elim (fun absurd => nomatch absurd) (fun absurd => nomatch absurd)
        · intro number same address inode found
          cases same
          exact sound.lookup_none search found
      · exact held.unlock.1

theorem Sound.serve (sound : table.Sound) {request : Request} (dinAlloc : Bool)
    (listed : (process, .granted request) ∈ table.inside) :
    Exists fun next => table.serve process dinAlloc request = .ok next /\ next.Sound := by
  cases request with
  | load ino => exact ⟨_, rfl, sound.load listed⟩
  | reclaim address => exact sound.reclaim listed

/-- A process asks for the semaphore.  A reclaim is pending from then on. -/
theorem lock_sound {request : Request} (dinAlloc : Bool) (lock : table.value + table.inside.length = 1)
    (counted : Counted (fun address => table.pending address + (if request = .reclaim address then 1 else 0))
      table.hashList table.node)
    (emptying : forall process address, (process, .truncating address) ∈ table.inside \/
        (process, .syncing address) ∈ table.inside -> Exists fun inode =>
      table.node address = some inode /\ inode.refCount = 0 /\ inode.reclaimCount = 0)
    (reading : forall process ino, (process, .reading ino) ∈ table.inside -> forall address inode,
      table.node address = some inode -> inode.ino ≠ ino)
    (freed : forall record, record ∈ table.freed -> record.refCount = 0 /\ record.pending = 0) :
    Exists fun next => table.lock process request dinAlloc = .ok next /\ next.Sound := by
  unfold InodeTable.lock
  split
  · rename_i positive
    have inside : table.inside = [] := List.length_eq_zero_iff.mp (by omega)
    refine Sound.serve ?_ dinAlloc List.mem_cons_self
    rw [inside]
    have pending : InodeTable.pending
        { table with value := table.value - 1, inside := [(process, .granted request)] } =
        fun address => table.pending address + (if request = .reclaim address then 1 else 0) := by
      funext address
      unfold InodeTable.pending Stage.reclaims
      simp only [inside, List.countP_cons, List.countP_nil, Nat.zero_add, Nat.add_zero, Stage.granted.injEq,
        decide_eq_true_eq]
    refine ⟨?_, ?_, ?_, ?_, freed⟩
    · dsimp only
      rw [inside, List.length_nil] at lock
      rw [List.length_singleton]
      omega
    · rw [pending]
      exact counted
    · rintro other address (listed | listed)
      · cases List.mem_singleton.mp listed
      · cases List.mem_singleton.mp listed
    · intro other ino listed
      cases List.mem_singleton.mp listed
  · refine ⟨_, rfl, lock, ?_, emptying, reading, freed⟩
    have pending : InodeTable.pending { table with queue := table.queue ++ [(process, request)] } =
        fun address => table.pending address + (if request = .reclaim address then 1 else 0) := by
      funext address
      unfold InodeTable.pending Request.reclaims
      simp only [List.countP_append, List.countP_cons, List.countP_nil, Nat.zero_add, decide_eq_true_eq]
      omega
    rw [pending]
    exact counted

omit [DecidableEq Process] in
/-- Those who refer to an inode change it. -/
theorem Sound.setNode (sound : table.Sound) {address : Nat} {inode value : MemInode}
    (found : table.node address = some inode) (ino : value.ino = inode.ino)
    (reclaims : value.reclaimCount = inode.reclaimCount) (referred : 0 < inode.refCount)
    (still : 0 < value.refCount) : (table.setNode address (some value)).Sound where
  lock := sound.lock
  counted := by
    refine sound.counted.setNode found ino (fun _ _ => rfl) ⟨Int.le_of_lt still, ?_⟩
    have count := (sound.counted.count address inode found).2
    rw [if_pos referred] at count
    rw [if_pos still, reclaims, count]
    rfl
  emptying := by
    intro process other either
    rcases sound.emptying process other either with ⟨emptied, here, counts⟩
    have different : other ≠ address := by
      rintro rfl
      rw [found] at here
      cases here
      omega
    exact ⟨emptied, (Function.update_of_ne different ..).trans here, counts⟩
  reading := by
    intro process number listed other result here
    change Function.update table.node address (some value) other = some result at here
    by_cases same : other = address
    · subst same
      rw [Function.update_self] at here
      cases here
      rw [ino]
      exact sound.reading process number listed other inode found
    · rw [Function.update_of_ne same] at here
      exact sound.reading process number listed other result here
  freed := sound.freed

theorem Sound.create (sound : table.Sound) {ino : Nat} (listed : (process, .reading ino) ∈ table.inside)
    {result : Option (Nat × Nat)}
    (unused : forall created, created ∈ result -> table.node created.1 = none) :
    (table.create process ino result).Sound := by
  have held := sound.held listed (fun _ => nofun)
  cases result with
  | none => exact held.unlock.1
  | some created =>
      have counted : Counted table.queued (created.1 :: table.hashList)
          (Function.update table.node created.1 (some ⟨ino, 1, 1, created.2, false⟩)) :=
        held.counted.insert (unused created rfl) (sound.reading process ino listed)
      have set : Held { table.setNode created.1 (some ⟨ino, 1, 1, created.2, false⟩) with
          hashList := created.1 :: table.hashList } process := ⟨held.value, held.inside, counted, held.freed⟩
      exact set.unlock.1

omit [DecidableEq Process] in
theorem stageOf_mem [DecidableEq Process] {stage : Stage} (found : table.stageOf process = some stage) :
    (process, stage) ∈ table.inside := by
  rcases Option.map_eq_some_iff.mp found with ⟨⟨owner, here⟩, search, rfl⟩
  have same := List.find?_some search
  cases of_decide_eq_true same
  exact List.mem_of_find?_eq_some search

end InodeTable

namespace LifetimeStep

open InodeTable

variable {Process : Type} [DecidableEq Process] {table : InodeTable Process}

/-- A step keeps the invariant and ends in no fault. -/
theorem run_sound {step : LifetimeStep Process} {outcome : Except LifetimeFault (InodeTable Process)}
    (sound : table.Sound) (ran : step.run table = some outcome) :
    Exists fun next => outcome = .ok next /\ next.Sound := by
  cases step with
  | load process ino dinAlloc =>
      rw [run] at ran
      split at ran
      · cases ran
        apply lock_sound dinAlloc sound.lock _ sound.emptying sound.reading sound.freed
        have pending : (fun address => table.pending address + (if Request.load ino = .reclaim address then 1 else 0)) =
            table.pending := by
          funext address
          rw [if_neg nofun, Nat.add_zero]
        rw [pending]
        exact sound.counted
      · cases ran
  | refInc address =>
      rw [run] at ran
      rcases Option.bind_eq_some_iff.mp ran with ⟨inode, found, more⟩
      split at more
      · rename_i referred
        cases more
        exact ⟨_, rfl, sound.setNode found rfl rfl referred (by change 0 < inode.refCount + 1; omega)⟩
      · cases more
  | refDec process address =>
      rw [run] at ran
      rcases Option.bind_eq_some_iff.mp ran with ⟨inode, found, more⟩
      split at more
      · rename_i both
        dsimp only at more
        split at more
        · rename_i last
          have outcome_eq := Option.some.inj more
          subst outcome_eq
          have different : forall other result, table.node other = some result -> result.refCount = 0 ->
              other ≠ address := by
            rintro other result here none rfl
            rw [found] at here
            cases here
            omega
          let dropped := table.setNode address (some { inode with refCount := inode.refCount - 1 })
          have lasts : Counted
              (fun other => table.pending other + (if Request.reclaim address = .reclaim other then 1 else 0))
              table.hashList dropped.node := by
            refine sound.counted.setNode found rfl ?_ ⟨by change 0 <= inode.refCount - 1; omega, ?_⟩
            · intro other unequal
              rw [if_neg fun same => unequal (Request.reclaim.inj same).symm, Nat.add_zero]
            · have count := (sound.counted.count address inode found).2
              rw [if_pos both.2] at count
              rw [if_pos rfl]
              change inode.reclaimCount = _ + (if 0 < inode.refCount - 1 then 1 else 0)
              rw [last, if_neg (Int.lt_irrefl 0), count]
              rfl
          have locked : Exists fun next => dropped.lock process (.reclaim address) false = .ok next /\ next.Sound := by
            refine lock_sound false sound.lock lasts ?_ ?_ sound.freed
            · intro other address' either
              rcases sound.emptying other address' either with ⟨emptied, here, counts⟩
              exact ⟨emptied, (Function.update_of_ne (different address' emptied here counts.1) ..).trans here, counts⟩
            · intro other ino listed address' result here
              change Function.update table.node address _ address' = some result at here
              by_cases same : address' = address
              · subst same
                rw [Function.update_self] at here
                cases here
                exact sound.reading other ino listed address' inode found
              · rw [Function.update_of_ne same] at here
                exact sound.reading other ino listed address' result here
          exact locked
        · rename_i still
          cases more
          exact ⟨_, rfl, sound.setNode found rfl rfl both.2 (by change 0 < inode.refCount - 1; omega)⟩
      · cases more
  | change address nlinks dirty =>
      rw [run] at ran
      rcases Option.bind_eq_some_iff.mp ran with ⟨inode, found, more⟩
      split at more
      · rename_i referred
        cases more
        exact ⟨_, rfl, sound.setNode found rfl rfl referred referred⟩
      · cases more
  | resume process dinAlloc =>
      rw [run] at ran
      split at ran
      · rename_i request stage
        cases ran
        exact sound.serve dinAlloc (stageOf_mem stage)
      · cases ran
  | read process result =>
      rw [run] at ran
      split at ran
      · rename_i ino stage
        split at ran
        · rename_i possible
          cases ran
          exact ⟨_, rfl, sound.create (stageOf_mem stage) (fun created listed => (possible created listed).1)⟩
        · cases ran
      · cases ran
  | truncated process success dirty =>
      rw [run] at ran
      split at ran
      · rename_i address stage
        have listed := stageOf_mem stage
        rcases sound.emptying process address (.inl listed) with ⟨inode, found, unreferred, settled⟩
        have held := sound.held listed (fun _ => nofun)
        have count := held.counted.count address inode found
        have emptied : (table.setNode address (some { inode with dirty := dirty })).Held process :=
          held.setNode found rfl count
        have here : (table.setNode address (some { inode with dirty := dirty })).node address =
            some { inode with dirty := dirty } := Function.update_self ..
        rw [found] at ran
        dsimp only at ran
        split at ran
        · cases ran
          exact emptied.reclaimDirty here unreferred settled (held.unwanted found unreferred settled)
        · cases ran
          exact ⟨_, rfl, emptied.unlock.1⟩
      · cases ran
  | synced process success =>
      rw [run] at ran
      split at ran
      · rename_i address stage
        have listed := stageOf_mem stage
        rcases sound.emptying process address (.inr listed) with ⟨inode, found, unreferred, settled⟩
        have held := sound.held listed (fun _ => nofun)
        have clean : (table.setNode address (some { inode with dirty := false })).Held process :=
          held.setNode found rfl (held.counted.count address inode found)
        rw [found] at ran
        dsimp only at ran
        split at ran
        · cases ran
          exact clean.reclaimEnd (Function.update_self ..) unreferred (held.unwanted found unreferred settled)
        · cases ran
          exact ⟨_, rfl, held.unlock.1⟩
      · cases ran

end LifetimeStep

namespace InodeTable

variable {Process : Type}

theorem emptyTable_sound : (emptyTable Process).Sound where
  lock := rfl
  counted := by
    constructor
    · exact List.nodup_nil
    · intro address
      refine iff_of_false List.not_mem_nil ?_
      rintro ⟨_, absurd⟩
      cases absurd
    · exact fun _ _ _ _ absurd => nomatch absurd
    · exact fun _ _ absurd => nomatch absurd
    · exact fun _ absurd => nomatch absurd
  emptying := fun _ _ either => either.elim (fun absurd => nomatch absurd) fun absurd => nomatch absurd
  reading := fun _ _ absurd => nomatch absurd
  freed := fun _ absurd => nomatch absurd

/-- No fault so far. -/
def Faultless (state : Except LifetimeFault (InodeTable Process)) : Prop :=
  Exists fun table => state = .ok table /\ table.Sound

variable [DecidableEq Process]

/-- In every state of every interleaving, no assertion has failed and no freed
inode has been used or freed again; a number has one inode in the hash list;
a pending reclaim has its inode, which still counts it; and each inode that was
freed was then neither referred to nor about to be reclaimed. -/
theorem run_keeps_lifetime (steps : List (LifetimeStep Process)) {state : Except LifetimeFault (InodeTable Process)}
    (ran : (lifetimeMachine Process).run (.ok (emptyTable Process)) steps = some state) :
    Exists fun table => state = .ok table /\ table.hashList.Nodup /\
      (forall first second one two, first ∈ table.hashList -> second ∈ table.hashList ->
        table.node first = some one -> table.node second = some two -> one.ino = two.ino -> first = second) /\
      (forall address, 0 < table.pending address -> Exists fun inode =>
        table.node address = some inode /\ 0 < inode.reclaimCount) /\
      (forall record, record ∈ table.freed -> record.refCount = 0 /\ record.pending = 0) := by
  have start : Faultless (.ok (emptyTable Process)) := ⟨emptyTable Process, rfl, emptyTable_sound⟩
  have kept : Faultless state := by
    refine Machine.run_invariant_always ?_ start ran
    rintro _ step next ⟨table, rfl, sound⟩ stepped
    exact LifetimeStep.run_sound sound stepped
  rcases kept with ⟨table, rfl, sound⟩
  refine ⟨table, rfl, sound.counted.nodup, ?_, ?_, sound.freed⟩
  · intro first second one two _ _ firstFound secondFound
    exact sound.counted.unique first second one two firstFound secondFound
  · intro address waiting
    rcases sound.counted.wanted address waiting with ⟨inode, found⟩
    refine ⟨inode, found, ?_⟩
    have count := (sound.counted.count address inode found).2
    split at count <;> omega

/-- A lookup gets its turn between the last decrement and the reclaim that
the decrement has started; the second reclaim frees the inode. -/
def raisedAgain : List (LifetimeStep Nat) :=
  [.load 0 5 true, .read 0 (some (100, 1)), .change 100 1 true, .load 1 6 true, .load 2 5 true, .refDec 0 100,
    .read 1 (some (101, 1)), .resume 2 true, .resume 0 true, .refDec 2 100, .synced 2 true]

theorem raisedAgain_keeps_lifetime :
    Exists fun state => (lifetimeMachine Nat).run (.ok (emptyTable Nat)) raisedAgain = some state /\
      Exists fun table => state = .ok table /\ table.hashList.Nodup /\
        (forall first second one two, first ∈ table.hashList -> second ∈ table.hashList ->
          table.node first = some one -> table.node second = some two -> one.ino = two.ino -> first = second) /\
        (forall address, 0 < table.pending address -> Exists fun inode =>
          table.node address = some inode /\ 0 < inode.reclaimCount) /\
        (forall record, record ∈ table.freed -> record.refCount = 0 /\ record.pending = 0) := by
  have returns : ((lifetimeMachine Nat).run (.ok (emptyTable Nat)) raisedAgain).isSome = true := by decide
  rcases Option.isSome_iff_exists.mp returns with ⟨state, ran⟩
  exact ⟨state, ran, run_keeps_lifetime raisedAgain ran⟩

end InodeTable

end Vfs
end Ucore
