import Ucore.Library.Run
import Ucore.Sfs.Formatted

namespace Ucore
namespace Sfs

open Library
open Program
open SfsFs

/-!
# Runs on a mounted volume

A run consists of calls on any of the files, each of which is made only while
the inode is loaded.  Which transfers of the device fail is up to the device,
and blocks may run out.
-/

/-- A call of an operation of an inode or of the volume. -/
inductive VolumeCall where
  | load (ino : Nat) (dinAlloc nodeAlloc : Bool)
  | io (sin : Nat) (buf : Bytes) (offset : Int) (resid : Nat) (write : Bool)
  | tryseek (sin : Nat) (pos : Int)
  | truncfile (sin : Nat) (len : Int)
  | fsync (sin : Nat)
  | sync
  | refDec (sin : Nat)

/-- A mounted volume, and the files that are on it. -/
structure Volume where
  fs : SfsFs
  files : List Nat

/-- The files own their blocks, in memory and on the disk. -/
def Volume.Sound (volume : Volume) : Prop := volume.fs.Kept volume.files

namespace VolumeCall

/-- The state a call leaves, if it returns. -/
def run (fs : SfsFs) : VolumeCall -> Option SfsFs
  | load ino dinAlloc nodeAlloc => (loadInode ino dinAlloc nodeAlloc fs).state
  | io sin buf offset resid write => (Sfs.io sin buf offset resid write fs).state
  | tryseek sin pos => (Sfs.tryseek sin pos fs).state
  | truncfile sin len => (Sfs.truncfile sin len fs).state
  | fsync sin => (Sfs.fsync sin fs).state
  | sync => (Sfs.sync fs).state
  | refDec sin => (Sfs.refDec sin fs).state

/-- The inode is there. -/
def Possible (volume : Volume) : VolumeCall -> Prop
  | load ino _ _ => ino ∈ volume.files
  | io sin _ _ _ _ => sin ∈ volume.fs.inodeList
  | tryseek sin _ => sin ∈ volume.fs.inodeList
  | truncfile sin _ => sin ∈ volume.fs.inodeList
  | fsync sin => sin ∈ volume.fs.inodeList
  | sync => True
  | refDec sin => sin ∈ volume.fs.inodeList

instance (volume : Volume) (call : VolumeCall) : Decidable (call.Possible volume) := by
  cases call <;> unfold Possible <;> infer_instance

/-- The files afterwards: a file without links goes with its inode. -/
def filesLeft (volume : Volume) (after : SfsFs) : VolumeCall -> List Nat
  | refDec sin =>
      if sin ∈ after.inodeList then volume.files else filesAfter volume.files sin (volume.fs.inode sin).din.nlinks
  | _ => volume.files

end VolumeCall

def volumeMachine : Machine Volume VolumeCall where
  step volume call :=
    if call.Possible volume then
      (call.run volume.fs).map (fun after => ⟨after, call.filesLeft volume after⟩)
    else none

/-- A call keeps the ownership of blocks. -/
theorem step_keeps_ownership {volume after : Volume} {call : VolumeCall} (kept : volume.Sound)
    (stepped : volumeMachine.step volume call = some after) : after.Sound := by
  unfold volumeMachine at stepped
  dsimp only at stepped
  split at stepped
  · rename_i possible
    rcases Option.map_eq_some_iff.mp stepped with ⟨final, ran, rfl⟩
    cases call with
    | load ino dinAlloc nodeAlloc =>
        exact (loadInode_kept kept possible).of_state ran (fun _ holds => holds) (fun _ holds => holds)
    | io sin buf offset resid write =>
        apply (io_edits kept.owned possible).of_state ran
        · exact fun _ changed => changed.kept kept possible
        · exact fun _ absurd => absurd.elim
    | tryseek sin pos =>
        apply (tryseek_edits kept.owned possible).of_state ran
        · exact fun _ changed => changed.kept kept possible
        · exact fun _ changed => changed.kept kept possible
    | truncfile sin len =>
        apply (truncfile_edits kept.owned possible).of_state ran
        · exact fun _ changed => changed.kept kept possible
        · exact fun _ changed => changed.kept kept possible
    | fsync sin =>
        apply (fsync_kept kept possible).of_state ran
        · exact fun _ outcome => outcome.1
        · exact fun _ outcome => outcome.1
    | sync => exact (sync_kept kept).of_state ran (fun _ holds => holds) (fun _ holds => holds)
    | refDec sin =>
        have meets : Meets (Sfs.refDec sin) volume.fs ⟨_, fun _ _ => False, _⟩ := refDec_kept kept possible
        apply meets.of_state ran
        · rintro _ (⟨keptAfter, unlisted⟩ | ⟨keptAfter, listed⟩)
          · change final.Kept (if sin ∈ final.inodeList then _ else _)
            rw [if_neg unlisted]
            exact keptAfter
          · change final.Kept (if sin ∈ final.inodeList then _ else _)
            rw [if_pos listed]
            exact keptAfter
        · exact fun _ absurd => absurd.elim
  · cases stepped

/-- On a mounted volume whose files own their blocks, every run keeps the
count of the free blocks, and every block that is referred to is in use and
referred to once. -/
theorem run_keeps_ownership {device : Device} {fs : SfsFs} {files : List Nat}
    (mounted : doMount device = some (.ok fs)) (consistent : fs.Consistent files) (calls : List VolumeCall)
    {volume : Volume} (ran : volumeMachine.run ⟨fs, files⟩ calls = some volume) :
    volume.fs.super.unusedBlocks = volume.fs.freemap.count /\
      (forall place blkno, volume.fs.holds volume.files place = some blkno ->
        blkno < volume.fs.freemap.nbits /\ volume.fs.freemap.bit blkno = false) /\
      (forall first second blkno, volume.fs.holds volume.files first = some blkno ->
        volume.fs.holds volume.files second = some blkno -> first = second) := by
  have start : Volume.Sound ⟨fs, files⟩ := (doMount_fresh mounted).kept consistent
  have kept : volume.Sound :=
    Machine.run_invariant_always (fun _ _ _ kept stepped => step_keeps_ownership kept stepped) start ran
  refine ⟨kept.owned.accounted.counted, ?_, kept.owned.accounted.exclusive.once⟩
  intro place blkno held
  exact ⟨kept.owned.lt_nbits (kept.owned.accounted.inRange place blkno held), kept.owned.inUse held⟩

/-- A formatted volume after calls -/
def volumeAfter (blocks : Nat) (error : Nat -> Option Errno) (calls : List VolumeCall) : SfsFs :=
  (volumeMachine.run ⟨mountedVolume blocks error, formattedFiles⟩ calls).elim (mountedVolume blocks error) Volume.fs

/-- Calls that keep the files keep their ownership. -/
theorem volumeAfter_owned {blocks : Nat} {error : Nat -> Option Errno} {calls : List VolumeCall} (room : 5 <= blocks)
    (small : blocks <= blkbits) (readSuper : error 0 = none) (readFreemap : error 1 = none)
    (files : (volumeMachine.run ⟨mountedVolume blocks error, formattedFiles⟩ calls).map Volume.files =
      some formattedFiles) : (volumeAfter blocks error calls).Owned formattedFiles := by
  obtain ⟨volume, ran, same⟩ := Option.map_eq_some_iff.mp files
  have start : Volume.Sound ⟨mountedVolume blocks error, formattedFiles⟩ :=
    (doMount_fresh (formatted_mounts room small readSuper readFreemap)).kept (formatted_consistent room small)
  have kept : volume.Sound :=
    Machine.run_invariant_always (fun _ _ _ kept stepped => step_keeps_ownership kept stepped) start ran
  unfold volumeAfter
  rw [ran, ← same]
  exact kept.owned

/-- A file is written, extended, cut and written back, and its inode goes. -/
def writeAndCut : List VolumeCall :=
  [.load 3 true true, .io 3 (fun k => UInt8.ofNat k) 0 5000 true, .tryseek 3 20000,
    .io 3 (fun _ => 7) 4000 9000 true, .truncfile 3 4096, .fsync 3, .sync, .refDec 3, .load 3 true true]

theorem writeAndCut_returns :
    (volumeMachine.run ⟨mountedVolume 64 fun _ => none, formattedFiles⟩ writeAndCut).isSome = true := by
  decide +kernel

theorem writeAndCut_keeps_ownership :
    Exists fun volume => volumeMachine.run ⟨mountedVolume 64 fun _ => none, formattedFiles⟩ writeAndCut = some volume /\
      volume.fs.super.unusedBlocks = volume.fs.freemap.count /\
      (forall place blkno, volume.fs.holds volume.files place = some blkno ->
        blkno < volume.fs.freemap.nbits /\ volume.fs.freemap.bit blkno = false) /\
      (forall first second blkno, volume.fs.holds volume.files first = some blkno ->
        volume.fs.holds volume.files second = some blkno -> first = second) := by
  rcases Option.isSome_iff_exists.mp writeAndCut_returns with ⟨volume, ran⟩
  exact ⟨volume, ran, run_keeps_ownership
    (formatted_mounts (by decide) (by decide) rfl rfl)
    (formatted_consistent (by decide) (by decide)) writeAndCut ran⟩

end Sfs
end Ucore
