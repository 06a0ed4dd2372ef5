import Ucore.Sfs.Shrink

namespace Ucore
namespace Sfs

open Library
open Program
open SfsFs

/-!
# Rules for lengths and transfers

The functions above the block maps are put together from pieces: a length is
changed block by block, and bytes are transferred block by block.  The rules
here say how the pieces are put together and leave open what each of them
does.
-/

variable {fs : SfsFs} {files : List Nat} {sin : Nat} {fail : Errno -> SfsFs -> Prop} {stop : Fault -> Prop}

/-! ## Lengths -/

theorem truncfile_meets {len : Int} {done : Unit -> SfsFs -> Prop}
    (refused : len < 0 \/ (maxFileSize : Int) < len -> fail .inval fs)
    (same : 0 <= len -> len <= maxFileSize -> (fs.inode sin).din.size = len.toNat ->
      (roundupDiv len.toNat blksize = (fs.inode sin).din.blocks -> done () fs) /\
      (roundupDiv len.toNat blksize ≠ (fs.inode sin).din.blocks -> stop (.assertion "tblks == din->blocks")))
    (changed : 0 <= len -> len <= maxFileSize -> (fs.inode sin).din.size ≠ len.toNat ->
      Meets (resize sin (fs.inode sin).din.blocks (roundupDiv len.toNat blksize)) fs
        ⟨fun _ after =>
          ((after.inode sin).din.blocks = roundupDiv len.toNat blksize ->
            done () (after.setMap sin ((after.inode sin).din.setSize len.toNat))) /\
          ((after.inode sin).din.blocks ≠ roundupDiv len.toNat blksize ->
            stop (.assertion "din->blocks == tblks")), fail, stop⟩) :
    Meets (truncfile sin len) fs ⟨done, fail, stop⟩ := by
  unfold truncfile
  rw [meets_ite]
  by_cases outside : len < 0 \/ (maxFileSize : Int) < len
  · rw [if_pos outside, meets_throw]
    exact refused outside
  · rw [if_neg outside]
    have bounds : 0 <= len /\ len <= maxFileSize := by omega
    unfold getDin
    simp only [meets_bind, meets_get, meets_pure, meets_ite, meets_assert]
    by_cases equal : (fs.inode sin).din.size = len.toNat
    · rw [if_pos equal]
      exact same bounds.1 bounds.2 equal
    · rw [if_neg equal]
      refine (changed bounds.1 bounds.2 equal).mono ?_ (fun _ _ failed => failed) (fun _ stopped => stopped)
      intro _ after ends
      refine ⟨fun exact => ?_, ends.2⟩
      apply setMap_meets
      exact ends.1 exact

theorem tryseek_meets {pos : Int} {done : Unit -> SfsFs -> Prop}
    (refused : pos < 0 \/ (maxFileSize : Int) <= pos -> fail .inval fs)
    (within : 0 <= pos -> pos <= (fs.inode sin).din.size -> done () fs)
    (extended : 0 <= pos -> pos < maxFileSize -> ((fs.inode sin).din.size : Int) < pos ->
      Meets (truncfile sin pos) fs ⟨done, fail, stop⟩) : Meets (tryseek sin pos) fs ⟨done, fail, stop⟩ := by
  unfold tryseek
  rw [meets_ite]
  by_cases outside : pos < 0 \/ (maxFileSize : Int) <= pos
  · rw [if_pos outside, meets_throw]
    exact refused outside
  · rw [if_neg outside]
    have bounds : 0 <= pos /\ pos < maxFileSize := by omega
    unfold getDin
    simp only [meets_bind, meets_get, meets_pure, meets_ite]
    by_cases beyond : ((fs.inode sin).din.size : Int) < pos
    · rw [if_pos beyond]
      exact extended bounds.1 bounds.2 beyond
    · rw [if_neg beyond]
      exact within bounds.1 (by omega)

/-! ## Pieces of a transfer -/

/-- A transfer of one block by the loop of `sfs_rwblock`. -/
theorem rwblock_meets {buf : Bytes} {blkno : Nat} {write : Bool} {done : Bytes -> SfsFs -> Prop}
    (valid : fs.Valid blkno)
    (failed : forall error, fs.nextError 0 = some error -> fail error fs.tick)
    (read : fs.nextError 0 = none -> write = false ->
      done (splice buf 0 blksize (fs.device.block blkno)) fs.tick)
    (written : fs.nextError 0 = none -> write = true -> forall bytes, done bytes (fs.store blkno buf)) :
    Meets (rwblock buf blkno 1 write) fs ⟨done, fail, stop⟩ := by
  unfold rwblock
  simp only [rwblockLoop, meets_bind, meets_pure, Nat.zero_add]
  apply rwblockNolock_meets (.inl valid.1) valid.2.1 valid.2.2
  · exact failed
  · exact read
  · exact fun fine write => written fine write _

/-- The pieces of a transfer: a part of a block through the buffer, or a whole
block.  The last numbers are the bytes and the transfers of the device. -/
inductive IsPiece (sin : Nat) (write : Bool) (pos : Nat) (now : Transfer) : Nat -> Nat -> Kernel Transfer -> Prop
  | part (size : Nat) (inBlock : pos % blksize + size <= blksize) :
      IsPiece sin write pos now size (if write = true then 2 else 1)
        (ioBuf sin write (pos / blksize) size (pos % blksize) now)
  | whole (aligned : pos % blksize = 0) :
      IsPiece sin write pos now blksize 1 (ioBlock sin write (pos / blksize) now)

/-- A piece loads its block and transfers its bytes. -/
theorem IsPiece.meets {write : Bool} {pos size cost : Nat} {now : Transfer} {program : Kernel Transfer}
    {done : Transfer -> SfsFs -> Prop} (piece : IsPiece sin write pos now size cost program)
    (load : Meets (bmapLoadNolock sin (pos / blksize)) fs
      ⟨fun ino middle => middle.Valid ino /\
        (forall error after, middle.Fails cost -> Quiet middle after -> done { now with ret := some error } after) /\
        (write = false -> ¬ middle.Fails cost ->
          done ⟨none, now.alen + size,
            splice now.buf now.alen size (fun k => middle.device.block ino (pos % blksize + k))⟩ middle.tick) /\
        (write = true -> ¬ middle.Fails cost -> forall data after,
          (forall k, k < blksize -> data k =
            splice (middle.device.block ino) (pos % blksize) size (fun k => now.buf (now.alen + k)) k) ->
          after = middle.store ino data \/ after = middle.tick.store ino data ->
          done ⟨none, now.alen + size, now.buf⟩ after),
        fun error after => done { now with ret := some error } after, stop⟩) :
    Meets program fs ⟨done, fail, stop⟩ := by
  have low : pos % blksize < blksize := Nat.mod_lt _ (by decide)
  cases piece with
  | part size inBlock =>
      unfold ioBuf
      simp only [meets_bind, meets_attempt]
      refine load.mono ?_ (fun _ _ failed => failed) (fun _ stopped => stopped)
      rintro ino middle ⟨valid, failed, read, written⟩
      cases write with
      | false =>
          simp only [Bool.false_eq_true, if_false, meets_bind, meets_pure] at failed read ⊢
          apply rbuf_meets valid low inBlock
          · exact fun error outcome => failed error _ (Fails.of_error 0 outcome (by omega)) (Quiet.tick middle)
          · exact fun fine => read trivial (not_fails_succ fine not_fails_zero)
      | true =>
          simp only [if_true, meets_bind, meets_pure] at failed written ⊢
          apply wbuf_meets valid low inBlock
          · exact fun error outcome => failed error _ (Fails.of_error 0 outcome (by omega)) (Quiet.tick middle)
          · exact fun error _ outcome => failed error _ (Fails.of_error 1 outcome (by omega)) (Quiet.tick middle).ticked
          · intro first second
            have fine : ¬ middle.Fails 2 := not_fails_succ first
              (not_fails_succ ((middle.nextError_tick 0).trans second) not_fails_zero)
            exact written trivial fine _ _ (fun _ _ => rfl) (.inr rfl)
  | whole aligned =>
      unfold ioBlock
      simp only [meets_bind, meets_attempt]
      refine load.mono ?_ (fun _ _ failed => failed) (fun _ stopped => stopped)
      rintro ino middle ⟨valid, failed, read, written⟩
      rw [aligned] at read written
      apply rwblock_meets valid
      · exact fun error outcome => failed error _ (Fails.of_error 0 outcome (by omega)) (Quiet.tick middle)
      · intro fine isRead
        have done := read isRead (not_fails_succ fine not_fails_zero)
        subst isRead
        simp only [Bool.false_eq_true, if_false, meets_pure]
        convert done using 2
        funext k
        unfold splice
        by_cases inside : now.alen <= k /\ k < now.alen + blksize
        · rw [if_pos inside, if_pos inside, if_pos ⟨Nat.zero_le _, by omega⟩]
          simp only [Nat.sub_zero, Nat.zero_add]
        · rw [if_neg inside, if_neg inside]
      · intro fine isWrite bytes
        subst isWrite
        apply written rfl (not_fails_succ fine not_fails_zero) _ _ _ (.inl rfl)
        intro k inside
        unfold splice
        rw [if_pos ⟨Nat.zero_le _, by omega⟩, Nat.sub_zero]

/-! ## Whole transfers -/

/-- What a piece has to do for a transfer from `offset` to `endpos`. -/
def Advances (sin : Nat) (write : Bool) (offset endpos : Nat) (invariant : Nat -> Transfer -> SfsFs -> Prop)
    (done : Transfer -> SfsFs -> Prop) (fail : Errno -> SfsFs -> Prop) (stop : Fault -> Prop) : Prop :=
  forall pos size cost now current program, IsPiece sin write pos now size cost program -> 0 < size ->
    offset <= pos -> pos + size <= endpos -> pos + size = endpos \/ (pos + size) % blksize = 0 ->
    now.ret = none -> offset + now.alen = pos -> invariant pos now current ->
    Meets program current ⟨fun next after =>
      if next.ret = none then offset + next.alen = pos + size /\ invariant (pos + size) next after
      else done next after, fail, stop⟩

variable {write : Bool} {offset endpos : Nat} {invariant : Nat -> Transfer -> SfsFs -> Prop}
  {done : Transfer -> SfsFs -> Prop}

theorem ioBlocks_meets (advances : Advances sin write offset endpos invariant done fail stop) (nblks blkno : Nat)
    (now : Transfer) (within : (blkno + nblks) * blksize <= endpos) (after : offset <= blkno * blksize)
    (fine : now.ret = none) (count : offset + now.alen = blkno * blksize)
    (holds : invariant (blkno * blksize) now fs) :
    Meets (ioBlocks sin write nblks blkno now) fs ⟨fun next after =>
      if next.ret = none then
        offset + next.alen = (blkno + nblks) * blksize /\ invariant ((blkno + nblks) * blksize) next after
      else done next after, fail, stop⟩ := by
  induction nblks generalizing blkno now fs with
  | zero =>
      unfold ioBlocks
      simp only [meets_pure, Nat.add_zero]
      rw [if_pos fine]
      exact ⟨count, holds⟩
  | succ nblks inductionHypothesis =>
      have next : (blkno + 1) * blksize = blkno * blksize + blksize := Nat.succ_mul ..
      have place : blkno * blksize / blksize = blkno := Nat.mul_div_cancel _ (by decide)
      have piece : IsPiece sin write (blkno * blksize) now blksize 1
        (ioBlock sin write (blkno * blksize / blksize) now) :=
        .whole (Nat.mul_mod_left blkno blksize)
      have bound : blkno * blksize + blksize <= endpos := by
        rw [← next]
        exact Nat.le_trans (Nat.mul_le_mul_right _ (by omega)) within
      rw [place] at piece
      unfold ioBlocks
      rw [meets_bind]
      refine (advances _ _ _ _ fs _ piece (by decide) after bound (.inr ?_) fine count holds).mono ?_
        (fun _ _ failed => failed) (fun _ stopped => stopped)
      · rw [← next]
        exact Nat.mul_mod_left ..
      · intro done current outcome
        simp only [meets_ite] at outcome ⊢
        by_cases good : done.ret = none
        · rw [if_pos good] at outcome ⊢
          rw [← next] at outcome
          have count : blkno + (nblks + 1) = blkno + 1 + nblks := by omega
          rw [count] at within ⊢
          apply inductionHypothesis (blkno + 1) done within _ good outcome.1 outcome.2
          rw [next]
          omega
        · rw [if_neg good] at outcome ⊢
          simp only [meets_pure]
          rw [if_neg good]
          exact outcome

/-- The rest after the whole blocks. -/
theorem ioRest_meets (advances : Advances sin write offset endpos invariant done fail stop) {nblks blkno : Nat}
    {now : Transfer} (last : blkno + nblks = endpos / blksize) (after : offset <= blkno * blksize)
    (leave : forall next current, next.ret = none -> offset + next.alen = endpos -> invariant endpos next current ->
      done next current)
    (fine : now.ret = none) (count : offset + now.alen = blkno * blksize)
    (holds : invariant (blkno * blksize) now fs) :
    Meets (do
      let middle <- ioBlocks sin write nblks blkno now
      if middle.ret ≠ none \/ endpos % blksize = 0 then pure middle
      else ioBuf sin write (blkno + nblks) (endpos % blksize) 0 middle) fs ⟨done, fail, stop⟩ := by
  have split := Nat.div_add_mod endpos blksize
  have base : (blkno + nblks) * blksize = blksize * (endpos / blksize) := by rw [last, Nat.mul_comm]
  rw [meets_bind]
  refine (ioBlocks_meets advances nblks blkno now (by omega) after fine count holds).mono ?_
    (fun _ _ failed => failed) (fun _ stopped => stopped)
  intro middle current outcome
  simp only [meets_ite, meets_pure] at outcome ⊢
  by_cases good : middle.ret = none
  · rw [if_pos good] at outcome
    by_cases aligned : endpos % blksize = 0
    · have ends : (blkno + nblks) * blksize = endpos := by omega
      rw [if_pos (.inr aligned)]
      rw [ends] at outcome
      exact leave middle current good outcome.1 outcome.2
    · have low : endpos % blksize < blksize := Nat.mod_lt _ (by decide)
      have place : (blkno + nblks) * blksize / blksize = blkno + nblks := Nat.mul_div_cancel _ (by decide)
      have start : (blkno + nblks) * blksize % blksize = 0 := Nat.mul_mod_left ..
      have ends : (blkno + nblks) * blksize + endpos % blksize = endpos := by omega
      have piece : IsPiece sin write ((blkno + nblks) * blksize) middle (endpos % blksize) _ _ :=
        .part (endpos % blksize) (by omega)
      rw [place, start] at piece
      rw [if_neg (fun either => either.elim (fun bad => bad good) aligned)]
      refine (advances _ _ _ _ current _ piece (by omega) (by omega) (by omega) (.inl ends) good outcome.1
        outcome.2).mono ?_ (fun _ _ failed => failed) (fun _ stopped => stopped)
      intro next final outcome
      simp only [ends] at outcome
      by_cases ok : next.ret = none
      · rw [if_pos ok] at outcome
        exact leave next final ok outcome.1 outcome.2
      · rw [if_neg ok] at outcome
        exact outcome
  · rw [if_neg good] at outcome
    rw [if_pos (.inl good)]
    exact outcome

/-- The first block, the whole blocks and the rest follow one another. -/
theorem ioParts_meets {buf : Bytes} (invariant : Nat -> Transfer -> SfsFs -> Prop)
    (advances : Advances sin write offset endpos invariant done fail stop)
    (ordered : offset < endpos)
    (leave : forall next current, next.ret = none -> offset + next.alen = endpos -> invariant endpos next current ->
      done next current)
    (enter : invariant offset ⟨none, 0, buf⟩ fs) :
    Meets (ioParts sin write offset endpos buf) fs ⟨done, fail, stop⟩ := by
  have splitOffset := Nat.div_add_mod offset blksize
  have splitEnd := Nat.div_add_mod endpos blksize
  have low : offset % blksize < blksize := Nat.mod_lt _ (by decide)
  have lowEnd : endpos % blksize < blksize := Nat.mod_lt _ (by decide)
  have monotone : offset / blksize <= endpos / blksize := Nat.div_le_div_right (Nat.le_of_lt ordered)
  unfold ioParts
  dsimp only
  rw [meets_ite]
  by_cases unaligned : offset % blksize ≠ 0
  · rw [if_pos unaligned, meets_bind]
    by_cases inOne : endpos / blksize - offset / blksize = 0
    · -- the transfer stays in its first block
      have same : endpos / blksize = offset / blksize := by omega
      have inBlock : offset % blksize + (endpos - offset) <= blksize := by
        rw [same] at splitEnd
        omega
      have ends : offset + (endpos - offset) = endpos := by omega
      rw [if_neg (fun different => different inOne)]
      have piece : IsPiece sin write offset ⟨none, 0, buf⟩ (endpos - offset) _ _ := .part (endpos - offset) inBlock
      refine (advances _ _ _ _ fs _ piece (by omega) (Nat.le_refl _) (by omega) (.inl ends) rfl rfl enter).mono ?_
        (fun _ _ failed => failed) (fun _ stopped => stopped)
      intro first current outcome
      simp only [meets_ite, meets_pure, ends] at outcome ⊢
      rw [if_pos (.inr ⟨unaligned, inOne⟩)]
      by_cases good : first.ret = none
      · rw [if_pos good] at outcome
        exact leave first current good outcome.1 outcome.2
      · rw [if_neg good] at outcome
        exact outcome
    · have next : (offset / blksize + 1) * blksize = blksize * (offset / blksize) + blksize := by
        rw [Nat.succ_mul, Nat.mul_comm]
      have ends : offset + (blksize - offset % blksize) = (offset / blksize + 1) * blksize := by omega
      have bound : (offset / blksize + 1) * blksize <= blksize * (endpos / blksize) := by
        rw [Nat.mul_comm blksize]
        exact Nat.mul_le_mul_right _ (by omega)
      have last : offset / blksize + 1 + (endpos / blksize - offset / blksize - 1) = endpos / blksize := by omega
      rw [if_pos inOne]
      have piece : IsPiece sin write offset ⟨none, 0, buf⟩ (blksize - offset % blksize) _ _ :=
        .part (blksize - offset % blksize) (by omega)
      refine (advances _ _ _ _ fs _ piece (by omega) (Nat.le_refl _) (by omega) (.inr ?_) rfl rfl enter).mono ?_
        (fun _ _ failed => failed) (fun _ stopped => stopped)
      · rw [ends]
        exact Nat.mul_mod_left ..
      · intro first current outcome
        simp only [ends, if_pos unaligned] at outcome ⊢
        by_cases good : first.ret = none
        · rw [if_pos good] at outcome
          rw [if_neg (fun either => either.elim (fun bad => bad good) (fun both => inOne both.2))]
          exact ioRest_meets advances last (by omega) leave good outcome.1 outcome.2
        · rw [if_neg good] at outcome
          rw [if_pos (.inl good)]
          exact outcome
  · rw [if_neg unaligned]
    rw [not_not] at unaligned
    have start : offset / blksize * blksize = offset := by
      rw [Nat.mul_comm]
      omega
    simp only [meets_bind, meets_pure]
    rw [if_neg (fun either => either.elim (fun bad => bad rfl) (fun both => both.1 unaligned))]
    simp only [unaligned, ne_eq, not_true_eq_false, if_false]
    apply ioRest_meets advances _ _ leave rfl
    · rw [start]
      rfl
    · rwa [start]
    · omega
    · omega

/-! ## The entry points -/

/-- The end of a transfer before it is clipped. -/
def span (offset : Int) (alen : Nat) : Int := (offset + alen).bmod (2 ^ 64)

theorem span_eq {offset : Int} {alen : Nat} (low : 0 <= offset) (small : offset + alen < 2 ^ 63) :
    span offset alen = offset + alen := by
  unfold span
  rw [Int.bmod_def]
  omega

theorem span_le {offset : Int} (low : 0 <= offset) (alen : Nat) : span offset alen <= offset + alen := by
  unfold span
  rw [Int.bmod_def]
  omega

/-- The end of a transfer that is not refused. -/
def ioEnd (din : DiskInode) (offset : Int) (alen : Nat) (write : Bool) : Nat :=
  if write = false then min (min (span offset alen).toNat maxFileSize) din.size
  else min (span offset alen).toNat maxFileSize

/-- The size after a transfer. -/
def SfsFs.extended (fs : SfsFs) (sin : Nat) (write : Bool) (endpos : Nat) : SfsFs :=
  if write = true /\ (fs.inode sin).din.size < endpos then fs.setMap sin ((fs.inode sin).din.setSize endpos) else fs

theorem ioNolock_meets {buf : Bytes} {offset : Int} {alen : Nat} {write : Bool} {done : Transfer -> SfsFs -> Prop}
    (directory : (fs.inode sin).din.type = typeDir -> stop (.assertion "din->type != SFS_TYPE_DIR"))
    (invalid : offset < 0 \/ (maxFileSize : Int) <= offset \/ span offset alen < offset ->
      done ⟨some .inval, 0, buf⟩ fs)
    (nothing : offset = span offset alen \/ (write = false /\ (fs.inode sin).din.size <= offset.toNat) ->
      done ⟨none, 0, buf⟩ fs)
    (parts : 0 <= offset -> offset < maxFileSize -> offset < span offset alen ->
      offset.toNat < ioEnd (fs.inode sin).din offset alen write ->
      Meets (ioParts sin write offset.toNat (ioEnd (fs.inode sin).din offset alen write) buf) fs
        ⟨fun now after => done now (after.extended sin write (offset.toNat + now.alen)), fail, stop⟩) :
    Meets (ioNolock sin buf offset alen write) fs ⟨done, fail, stop⟩ := by
  unfold ioNolock getDin
  simp only [meets_bind, meets_get, meets_pure, meets_assert, meets_ite]
  refine ⟨fun _ => ?_, fun broken => directory (not_not.mp broken)⟩
  change if offset < 0 \/ (maxFileSize : Int) <= offset \/ span offset alen < offset then _ else _
  by_cases refused : offset < 0 \/ (maxFileSize : Int) <= offset \/ span offset alen < offset
  · rw [if_pos refused]
    exact invalid refused
  · rw [if_neg refused]
    change if offset = span offset alen then _ else _
    by_cases empty : offset = span offset alen
    · rw [if_pos empty]
      exact nothing (.inl empty)
    · rw [if_neg empty]
      by_cases past : write = false /\ (fs.inode sin).din.size <= offset.toNat
      · rw [if_pos past]
        exact nothing (.inr past)
      · rw [if_neg past]
        have ordered : offset.toNat < ioEnd (fs.inode sin).din offset alen write := by
          unfold ioEnd
          split
          · rename_i isRead
            have more : offset.toNat < (fs.inode sin).din.size := by
              by_contra less
              exact past ⟨isRead, by omega⟩
            omega
          · omega
        refine (parts (by omega) (by omega) (by omega) ordered).mono ?_ (fun _ _ failed => failed)
          (fun _ stopped => stopped)
        intro now after outcome
        unfold SfsFs.extended at outcome
        dsimp only at outcome ⊢
        by_cases grows : write = true /\ (after.inode sin).din.size < offset.toNat + now.alen
        · rw [if_pos grows] at outcome ⊢
          apply setMap_meets
          exact outcome
        · rw [if_neg grows] at outcome ⊢
          exact outcome

theorem io_meets {buf : Bytes} {offset : Int} {resid : Nat} {write : Bool} {done : Transfer -> SfsFs -> Prop}
    (transfer : Meets (ioNolock sin buf offset resid write) fs
      ⟨fun now after => now.alen <= resid /\ done now after, fail, stop⟩) :
    Meets (io sin buf offset resid write) fs ⟨done, fail, stop⟩ := by
  unfold io
  rw [meets_bind]
  refine transfer.mono ?_ (fun _ _ failed => failed) (fun _ stopped => stopped)
  rintro now after ⟨within, holds⟩
  simp only [meets_bind, meets_pure, meets_ite, meets_assert]
  split
  · exact ⟨fun _ => holds, fun broken => absurd within broken⟩
  · exact holds

end Sfs
end Ucore
