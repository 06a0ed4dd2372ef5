import Ucore.Mksfs.Mounting

namespace Ucore
namespace Mksfs

open Library
open Program
open Sfs

/-!
# The kernel and the image

The kernel mounts a finished image: the assertion about the unused blocks
holds.  The mounted volume has sound ownership, with the inodes of the writer
as its files, and the block map of the kernel agrees with the tables of the
writer as far as it reaches.
-/

variable {home : HostTree} {fs : SfsFs} {device after : Device}

/-- The device has the blocks of the image.  What it has behind them does not
matter, nor which transfers fail. -/
structure Shows (device : Device) (fs : SfsFs) : Prop where
  dBlocksize : device.dBlocksize = blksize
  block : forall number, number < fs.ninos -> device.block number = fs.disk number

/-- A volume that was mounted from the image and has not been changed. -/
structure Mounted (fs : SfsFs) (kernel : Sfs.SfsFs) : Prop where
  super : kernel.super = fs.super.terminate
  nbits : kernel.freemap.nbits = roundupDiv fs.ninos blkbits * blkbits
  bits : forall index, kernel.freemap.bit index = decide (fs.nextIno <= index /\ index < fs.ninos)
  block : forall number, number < fs.ninos -> kernel.device.block number = fs.disk number
  loaded : forall ino, ino ∈ kernel.inodeList ->
    ino ∈ fs.cacheInodes /\ (kernel.inode ino).din = decodeInode (fs.disk ino)

/-! ## Reading the free map -/

/-- Reading changes nothing but the number of transfers. -/
def Unchanged (device after : Device) : Prop :=
  after.block = device.block /\ after.error = device.error /\ after.dBlocks = device.dBlocks

theorem initRead_ok {blkno : Nat} {block : Bytes} (small : blkno < maxNblks)
    (read : initRead device blkno = (.ok block, after)) : block = device.block blkno /\ Unchanged device after := by
  unfold initRead at read
  dsimp only at read
  rw [position small] at read
  split at read
  · cases read
  · cases read
    exact ⟨rfl, rfl, rfl, rfl⟩

theorem initRead_total (blkno : Nat) (fine : forall number, device.error number = none) :
    Exists fun block => Exists fun after => initRead device blkno = (.ok block, after) := by
  unfold initRead
  rw [fine]
  exact ⟨_, _, rfl⟩

theorem initFreemap_ok {nblks blkno base : Nat} {data result : Bytes} (small : blkno + nblks <= maxNblks)
    (read : initFreemap nblks blkno base data device = (.ok result, after)) :
    Unchanged device after /\ (forall k, k < base -> result k = data k) /\
      forall number k, number < nblks -> k < blksize ->
        result (base + number * blksize + k) = device.block (blkno + number) k := by
  induction nblks generalizing blkno base data device with
  | zero =>
      cases read
      exact ⟨⟨rfl, rfl, rfl⟩, fun _ _ => rfl, fun _ _ absent => absurd absent (Nat.not_lt_zero _)⟩
  | succ nblks inductionHypothesis =>
      unfold initFreemap at read
      cases first : initRead device blkno with
      | mk outcome middle =>
          rw [first] at read
          cases outcome with
          | error error => cases read
          | ok block =>
              dsimp only at read
              have one := initRead_ok (by omega) first
              have rest := inductionHypothesis (by omega) read
              refine ⟨⟨rest.1.1.trans one.2.1, rest.1.2.1.trans one.2.2.1, rest.1.2.2.trans one.2.2.2⟩, ?_, ?_⟩
              · intro k low
                rw [rest.2.1 k (Nat.lt_of_lt_of_le low (Nat.le_add_right ..))]
                exact if_neg fun both => absurd low (Nat.not_lt.mpr both.1)
              · intro number k low inside
                cases number with
                | zero =>
                    rw [Nat.zero_mul, Nat.add_zero, Nat.add_zero, rest.2.1 (base + k) (Nat.add_lt_add_left inside _)]
                    unfold splice
                    rw [if_pos ⟨Nat.le_add_right .., Nat.add_lt_add_left inside _⟩, Nat.add_sub_cancel_left, one.1]
                | succ number =>
                    have there := rest.2.2 number k (Nat.lt_of_succ_lt_succ low) inside
                    rw [one.2.1] at there
                    have place : base + (number + 1) * blksize + k = base + blksize + number * blksize + k := by
                      rw [Nat.succ_mul]
                      omega
                    rw [place, there, Nat.add_assoc blkno 1 number, Nat.add_comm 1 number]

theorem initFreemap_total {nblks blkno : Nat} (base : Nat) (data : Bytes)
    (fine : forall number, device.error number = none)
    (small : blkno + nblks <= maxNblks) :
    Exists fun result => Exists fun after => initFreemap nblks blkno base data device = (.ok result, after) := by
  induction nblks generalizing blkno base data device with
  | zero => exact ⟨_, _, rfl⟩
  | succ nblks inductionHypothesis =>
      unfold initFreemap
      rcases initRead_total blkno fine with ⟨block, middle, read⟩
      have unchanged := (initRead_ok (by omega) read).2
      rw [read]
      dsimp only
      apply inductionHypothesis
      · rw [unchanged.2.1]
        exact fine
      · omega

/-! ## Mounting -/

section Mount

variable {filled : SfsFs}

theorem closed_super_decoded (accounted : Accounted filled []) :
    decodeSuper (filled.closed.disk blknSuper) = filled.super := by
  have small := accounted.small
  have balance := accounted.unused
  rw [closed_super accounted]
  apply decode_super
  refine ⟨?_, ?_, ?_⟩
  · rw [accounted.magic]
    decide
  · rw [accounted.blocks]
    unfold maxNblks at small
    omega
  · unfold maxNblks at small
    omega

/-- The bits that the kernel reads. -/
theorem data_bit (accounted : Accounted filled []) (shows_ : Shows device filled.closed) {data : Bytes}
    (read : forall number k, number < roundupDiv filled.ninos blkbits -> k < blksize ->
      data (number * blksize + k) = device.block (blknFreemap + number) k)
    {index : Nat} (low : index < roundupDiv filled.ninos blkbits * blkbits) :
    bitOfBytes data index = decide (filled.nextIno <= index /\ index < filled.ninos) := by
  have block : index / blkbits < roundupDiv filled.ninos blkbits := Nat.div_lt_of_lt_mul (by rwa [Nat.mul_comm])
  have inside : index / 8 % blksize < blksize := Nat.mod_lt _ (by decide)
  have split : index / 8 = index / blkbits * blksize + index / 8 % blksize := by
    unfold blkbits blksize
    omega
  have inRange : blknFreemap + index / blkbits < filled.closed.ninos := by
    have started := accounted.started
    have limit := accounted.next_le
    change blknFreemap + index / blkbits < filled.ninos
    unfold SfsFs.firstIno at started
    omega
  rw [← closed_mapBit accounted low]
  unfold SfsFs.mapBit bitOfBytes
  rw [split, read _ _ block inside, shows_.block _ inRange]
  have byte : index % blkbits / 8 = index / 8 % blksize := by
    unfold blkbits blksize
    omega
  have bit : index % blkbits % 8 = index % 8 := by
    unfold blkbits
    omega
  rw [byte, bit]

/-- `sfs_do_mount` on the image: no assertion fails, what it returns is the
volume of the image, and it returns when every transfer succeeds. -/
theorem doMount_image (accounted : Accounted filled []) (shows_ : Shows device filled.closed) :
    ((Exists fun error => doMount device = some (.error error)) \/
      Exists fun kernel => doMount device = some (.ok kernel) /\ Mounted filled.closed kernel) /\
      (device.dBlocks >= filled.ninos -> (forall number, device.error number = none) ->
        Exists fun kernel => doMount device = some (.ok kernel) /\ Mounted filled.closed kernel /\
          kernel.device.error = device.error) := by
  have small := accounted.small
  have started := accounted.started
  have limit := accounted.next_le
  have above := accounted.root_lt
  unfold SfsFs.firstIno at started
  have positive : 0 < filled.ninos := by omega
  have map : freemapBlocks filled.super = roundupDiv filled.ninos blkbits := by
    unfold freemapBlocks
    rw [accounted.blocks]
  have some_ : ¬ roundupDiv filled.ninos blkbits * blkbits = 0 := by
    unfold roundupDiv blkbits
    omega
  have whole : blknFreemap + roundupDiv filled.ninos blkbits <= maxNblks := by omega
  unfold doMount
  rw [if_neg (fun different => different shows_.dBlocksize)]
  cases first : initRead device blknSuper with
  | mk outcome middle =>
      cases outcome with
      | error error =>
          refine ⟨.inl ⟨error, rfl⟩, fun _ fine => ?_⟩
          rcases initRead_total blknSuper fine with ⟨block, other, read⟩
          rw [read] at first
          cases first
      | ok block =>
          have superRead := initRead_ok (by decide) first
          have superBlock : device.block blknSuper = filled.closed.disk blknSuper := shows_.block blknSuper positive
          have super : decodeSuper block = filled.super := by
            rw [superRead.1, superBlock, closed_super_decoded accounted]
          dsimp only
          rw [super, accounted.magic, if_neg (fun different => different rfl), accounted.blocks, map, if_neg some_]
          by_cases tooSmall : device.dBlocks < filled.ninos
          · rw [if_pos tooSmall]
            exact ⟨.inl ⟨_, rfl⟩, fun enough => absurd tooSmall (Nat.not_lt.mpr enough)⟩
          · rw [if_neg tooSmall]
            cases second : initFreemap (roundupDiv filled.ninos blkbits) blknFreemap 0 (fun _ => 0xFF) middle with
            | mk outcome last =>
                cases outcome with
                | error error =>
                    refine ⟨.inl ⟨error, rfl⟩, fun _ fine => ?_⟩
                    have fineThen : forall number, middle.error number = none := by
                      rw [superRead.2.2.1]
                      exact fine
                    rcases initFreemap_total 0 (fun _ => 0xFF) fineThen whole with ⟨data, other, read⟩
                    rw [read] at second
                    cases second
                | ok data =>
                    have mapRead := initFreemap_ok whole second
                    have bits : forall index, index < roundupDiv filled.ninos blkbits * blkbits ->
                        bitOfBytes data index = decide (filled.nextIno <= index /\ index < filled.ninos) := by
                      intro index low
                      apply data_bit accounted shows_ _ low
                      intro number k block inside
                      have there := mapRead.2.2 number k block inside
                      rwa [Nat.zero_add, superRead.2.1] at there
                    have counted : (List.range (roundupDiv filled.ninos blkbits * blkbits)).countP
                        (fun index => bitOfBytes data index) = filled.super.unusedBlocks := by
                      have same : (List.range (roundupDiv filled.ninos blkbits * blkbits)).countP
                          (fun index => bitOfBytes data index) =
                          (List.range (roundupDiv filled.ninos blkbits * blkbits)).countP
                            (fun index => decide (filled.nextIno <= index /\ index < filled.ninos)) :=
                        List.countP_congr fun index member => by rw [bits index (List.mem_range.mp member)]
                      have balance := accounted.unused
                      rw [same, countP_interval]
                      unfold roundupDiv blkbits
                      omega
                    dsimp only
                    rw [counted, if_pos rfl]
                    have mounted : Mounted filled.closed (⟨filled.super.terminate,
                        ⟨roundupDiv filled.ninos blkbits * blkbits, fun index =>
                          decide (index < roundupDiv filled.ninos blkbits * blkbits) && bitOfBytes data index⟩,
                        false, [], fun _ => ⟨{}, false, 0, 0⟩, last⟩ : Sfs.SfsFs) := by
                      refine ⟨rfl, rfl, ?_, ?_, fun _ member => absurd member List.not_mem_nil⟩
                      · intro index
                        change (decide (index < _) && bitOfBytes data index) =
                          decide (filled.nextIno <= index /\ index < filled.ninos)
                        by_cases low : index < roundupDiv filled.ninos blkbits * blkbits
                        · rw [decide_eq_true low, Bool.true_and, bits index low]
                        · have outside : ¬ (filled.nextIno <= index /\ index < filled.ninos) := by
                            unfold roundupDiv blkbits at low
                            omega
                          rw [decide_eq_false low, Bool.false_and, decide_eq_false outside]
                      · intro number low
                        change last.block number = filled.closed.disk number
                        rw [mapRead.1.1, superRead.2.1, shows_.block number low]
                    exact ⟨.inr ⟨_, rfl, mounted⟩, fun _ _ => ⟨_, rfl, mounted,
                      mapRead.1.2.1.trans superRead.2.2.1⟩⟩

end Mount

/-! ## Ownership -/

section Ownership

variable {filled : SfsFs} {kernel : Sfs.SfsFs} {file ino : Nat}

/-- The first bytes of the block are the inode of the kernel. -/
theorem inodeBlock_splice : filled.inodeBlock ino =
    splice (filled.inodeBlock ino) 0 inodeBytes (encodeInode (filled.inode ino).inode.toDiskInode) := by
  funext k
  unfold splice
  by_cases inside : k < inodeBytes
  · have within : k < cacheInodeBytes := Nat.lt_of_lt_of_le inside (Nat.le_add_right ..)
    rw [if_pos ⟨Nat.zero_le _, by rwa [Nat.zero_add]⟩, Nat.sub_zero]
    unfold SfsFs.inodeBlock writtenBlock
    rw [if_pos (by decide)]
    unfold splice encodeCacheInode
    rw [if_pos ⟨Nat.zero_le _, by rwa [Nat.zero_add]⟩, Nat.sub_zero, if_pos inside]
  · rw [if_neg (fun both => inside (by rw [Nat.zero_add] at both; exact both.2))]

theorem blockAt_lt (accounted : Accounted filled []) (listed : file ∈ filled.cacheInodes) (index : Nat) :
    filled.blockAt file index < 2 ^ 32 := by
  have limit := accounted.next_le
  have small := accounted.small
  unfold maxNblks at small
  by_cases present : filled.blockAt file index = 0
  · omega
  · have low := accounted.held_lt (Accounted.holds_data listed present)
    omega

/-- The direct entries of the inode on the disk. -/
theorem closed_direct (accounted : Accounted filled []) (listed : file ∈ filled.cacheInodes) (index : Fin ndirect) :
    (decodeInode (filled.closed.disk file)).direct index = filled.blockAt file index.val := by
  have value : filled.blockAt file index.val = (filled.inode file).inode.direct index := by
    unfold SfsFs.blockAt
    exact dif_pos index.isLt
  have fits := blockAt_lt accounted listed index.val
  rw [value] at fits ⊢
  rw [closed_inode accounted listed, inodeBlock_splice]
  exact decode_splice_direct fits _

theorem closed_indirect (accounted : Accounted filled []) (listed : file ∈ filled.cacheInodes) :
    (decodeInode (filled.closed.disk file)).indirect = filled.tableAt file 0 := by
  have low := accounted.tableAt_lt listed 0
  have limit := accounted.next_le
  have small := accounted.small
  unfold maxNblks at small
  have fits : (filled.inode file).inode.indirect < 2 ^ 32 := by
    change filled.tableAt file 0 < 2 ^ 32
    omega
  rw [closed_inode accounted listed, inodeBlock_splice]
  exact decode_splice_indirect fits _

/-- A number in a table is read back. -/
theorem u32At_tableBytes {table : Nat -> Nat} {index : Nat} (fits : table index < 2 ^ 32) :
    u32At (tableBytes table) (index * 4) = table index := by
  apply u32At_of_bytes fits
  intro k low
  have slot : (index * 4 + k) / 4 = index := by omega
  have place : (index * 4 + k) % 4 = k := by omega
  unfold tableBytes
  rw [slot, place]

namespace Mounted

theorem dinOf (mounted : Mounted filled.closed kernel) (accounted : Accounted filled [])
    (listed : file ∈ filled.cacheInodes) : kernel.dinOf file = decodeInode (filled.closed.disk file) := by
  unfold Sfs.SfsFs.dinOf
  split
  · rename_i member
    exact (mounted.loaded file member).2
  · have inRange : file < filled.closed.ninos := Nat.lt_of_lt_of_le (accounted.inode_lt listed) accounted.next_le
    rw [mounted.block file inRange]

/-- An entry of the first table, as the kernel reads it. -/
theorem entryOf (mounted : Mounted filled.closed kernel) (accounted : Accounted filled [])
    (listed : file ∈ filled.cacheInodes) (present : filled.tableAt file 0 ≠ 0) {index : Nat} (low : index < blkNentry) :
    kernel.entryOf (filled.tableAt file 0) index = filled.blockAt file (ndirect + index) := by
  have held := Accounted.holds_table listed present
  have inRange := Nat.lt_of_lt_of_le (accounted.held_lt held) accounted.next_le
  have first : ndirect + index < l1Nblks := by
    rw [l1Nblks_eq]
    unfold ndirect
    rw [blkNentry_eq] at low
    omega
  have value : filled.blockAt file (ndirect + index) = filled.cache (filled.tableAt file 0) index := by
    unfold SfsFs.blockAt
    have table : tableOf (ndirect + index) = 0 := if_pos first
    have slot : slotOf (ndirect + index) = index := (if_pos first).trans (Nat.add_sub_cancel_left ..)
    rw [dif_neg (Nat.not_lt.mpr (Nat.le_add_right ..)), table, slot, if_pos present]
  have fits := blockAt_lt accounted listed (ndirect + index)
  have block : kernel.device.block (filled.tableAt file 0) = tableBytes (filled.cache (filled.tableAt file 0)) := by
    rw [mounted.block _ inRange, closed_table accounted held]
  rw [value] at fits ⊢
  unfold Sfs.SfsFs.entryOf
  rw [block]
  exact u32At_tableBytes fits

/-- The block map of the kernel is that of the writer, as far as it reaches. -/
theorem blockOf (mounted : Mounted filled.closed kernel) (accounted : Accounted filled [])
    (listed : file ∈ filled.cacheInodes) {index : Nat} (low : index < ndirect + blkNentry) :
    kernel.blockOf (decodeInode (filled.closed.disk file)) index = filled.blockAt file index := by
  unfold Sfs.SfsFs.blockOf
  by_cases direct : index < ndirect
  · rw [dif_pos direct]
    exact closed_direct accounted listed ⟨index, direct⟩
  · rw [dif_neg direct, closed_indirect accounted listed]
    have slot : index - ndirect < blkNentry := by omega
    have place : ndirect + (index - ndirect) = index := by omega
    by_cases present : filled.tableAt file 0 ≠ 0
    · rw [if_pos ⟨slot, present⟩, mounted.entryOf accounted listed present slot, place]
    · have first : index < l1Nblks := by
        rw [l1Nblks_eq]
        unfold ndirect at low
        rw [blkNentry_eq] at low
        exact low
      have table : tableOf index = 0 := if_pos first
      rw [if_neg (fun both => present both.2)]
      unfold SfsFs.blockAt
      rw [dif_neg direct, table, if_neg present]

/-- The place of the writer that a place of the kernel stands for. -/
def placeOf : Sfs.Place -> Option Place
  | .reserved _ => none
  | .inode ino => some (.inode ino)
  | .direct file index => some (.data file index.val)
  | .indirect file => some (.table file 0)
  | .entry file index => some (.data file (ndirect + index))

theorem placeOf_once {first second : Sfs.Place} {place : Place} (one : placeOf first = some place)
    (two : placeOf second = some place) : first = second := by
  have same := one.trans two.symm
  cases first with
  | reserved _ => cases one
  | inode ino =>
      cases second with
      | inode other => exact congrArg Sfs.Place.inode (Place.inode.inj (Option.some.inj same))
      | _ => cases same
  | direct file index =>
      cases second with
      | direct other slot =>
          have equal := Place.data.inj (Option.some.inj same)
          rw [equal.1, Fin.ext equal.2]
      | entry other slot =>
          have equal := Place.data.inj (Option.some.inj same)
          have bound := index.isLt
          omega
      | _ => cases same
  | indirect file =>
      cases second with
      | indirect other => exact congrArg Sfs.Place.indirect (Place.table.inj (Option.some.inj same)).1
      | _ => cases same
  | entry file index =>
      cases second with
      | direct other slot =>
          have equal := Place.data.inj (Option.some.inj same)
          have bound := slot.isLt
          omega
      | entry other slot =>
          have equal := Place.data.inj (Option.some.inj same)
          rw [equal.1, Nat.add_left_cancel equal.2]
      | _ => cases same

/-- What the kernel holds is reserved or held by the writer. -/
theorem holds (mounted : Mounted filled.closed kernel) (accounted : Accounted filled []) {place : Sfs.Place}
    {blkno : Nat} (held : kernel.holds filled.cacheInodes place = some blkno) :
    (place = .reserved blkno /\ (blkno = blknSuper \/
      (blknFreemap <= blkno /\ blkno < blknFreemap + roundupDiv filled.ninos blkbits))) \/
      Exists fun other => placeOf place = some other /\ filled.holds other = some blkno := by
  have din : forall file, file ∈ filled.cacheInodes -> kernel.dinOf file = decodeInode (filled.closed.disk file) :=
    fun _ listed => mounted.dinOf accounted listed
  cases place with
  | reserved number =>
      rw [Sfs.SfsFs.holds] at held
      have map : freemapBlocks kernel.super = roundupDiv filled.ninos blkbits := by
        unfold freemapBlocks
        rw [mounted.super]
        exact congrArg (fun blocks => roundupDiv blocks blkbits) accounted.blocks
      rw [map] at held
      split at held
      · rename_i reserved
        cases held
        exact .inl ⟨rfl, reserved⟩
      · cases held
  | inode ino =>
      rw [Sfs.SfsFs.holds] at held
      exact .inr ⟨.inode ino, rfl, held⟩
  | direct file index =>
      rw [Sfs.SfsFs.holds] at held
      split at held
      · rename_i listed
        rw [din file listed, closed_direct accounted listed] at held
        have both := Sfs.entryBlock_eq_some.mp held
        refine .inr ⟨.data file index.val, rfl, ?_⟩
        rw [SfsFs.holds, if_pos listed]
        exact entryNumber_eq_some.mpr both
      · cases held
  | indirect file =>
      rw [Sfs.SfsFs.holds] at held
      split at held
      · rename_i listed
        rw [din file listed, closed_indirect accounted listed] at held
        refine .inr ⟨.table file 0, rfl, ?_⟩
        rw [SfsFs.holds, if_pos listed]
        exact entryNumber_eq_some.mpr (Sfs.entryBlock_eq_some.mp held)
      · cases held
  | entry file index =>
      rw [Sfs.SfsFs.holds] at held
      split at held
      · rename_i all
        rw [din file all.1, closed_indirect accounted all.1] at held all
        rw [mounted.entryOf accounted all.1 all.2.1 all.2.2] at held
        refine .inr ⟨.data file (ndirect + index), rfl, ?_⟩
        rw [SfsFs.holds, if_pos all.1]
        exact entryNumber_eq_some.mpr (Sfs.entryBlock_eq_some.mp held)
      · cases held

/-- The mounted volume has sound ownership. -/
theorem owned (mounted : Mounted filled.closed kernel) (accounted : Accounted filled []) :
    kernel.Owned filled.cacheInodes := by
  have limit := accounted.next_le
  have started := accounted.started
  have above := accounted.root_lt
  have small := accounted.small
  have balance := accounted.unused
  unfold SfsFs.firstIno at started
  have superBlocks : kernel.super.blocks = filled.ninos := by
    rw [mounted.super]
    exact accounted.blocks
  have bits : forall index, kernel.freemap.bit index = decide (filled.nextIno <= index /\ index < filled.ninos) :=
    mounted.bits
  have low : forall place blkno, kernel.holds filled.cacheInodes place = some blkno -> blkno < filled.nextIno := by
    intro place blkno held
    rcases mounted.holds accounted held with ⟨_, super | map⟩ | ⟨other, _, holding⟩
    · unfold blknSuper at super
      omega
    · omega
    · exact accounted.held_lt holding
  refine ⟨⟨⟨?_, ?_⟩, ?_, ?_, ?_, ?_, ?_⟩, fun ino member => (mounted.loaded ino member).1⟩
  · intro first second blkno firstHolds secondHolds
    rcases mounted.holds accounted firstHolds with ⟨one, reserved⟩ | ⟨one, image, holding⟩ <;>
      rcases mounted.holds accounted secondHolds with ⟨two, alsoReserved⟩ | ⟨two, alsoImage, alsoHolding⟩
    · rw [one, two]
    · have apart := not_reserved accounted alsoHolding
      rcases reserved with super | map
      · exact absurd super apart.1
      · exact absurd (by omega : blkno = blknFreemap + (blkno - blknFreemap)) (apart.2 _ (by omega))
    · have apart := not_reserved accounted holding
      rcases alsoReserved with super | map
      · exact absurd super apart.1
      · exact absurd (by omega : blkno = blknFreemap + (blkno - blknFreemap)) (apart.2 _ (by omega))
    · have same := accounted.exclusive.once one two blkno holding alsoHolding
      exact placeOf_once image (same ▸ alsoImage)
  · intro place blkno held free
    have below := low place blkno held
    rw [bits] at free
    have high := (of_decide_eq_true free).1
    omega
  · intro place blkno held
    rw [superBlocks]
    exact Nat.lt_of_lt_of_le (low place blkno held) limit
  · intro index set
    rw [bits] at set
    rw [superBlocks]
    exact (of_decide_eq_true set).2
  · rw [superBlocks, mounted.nbits]
    change filled.ninos <= roundupDiv filled.ninos blkbits * blkbits
    unfold roundupDiv blkbits
    omega
  · have counted : kernel.freemap.count =
        (List.range (roundupDiv filled.ninos blkbits * blkbits)).countP
          (fun index => decide (filled.nextIno <= index /\ index < filled.ninos)) := by
      unfold Sfs.Bitmap.count
      rw [mounted.nbits]
      exact List.countP_congr fun index _ => by rw [bits]
    rw [counted, countP_interval, mounted.super]
    change filled.super.unusedBlocks = _
    unfold roundupDiv blkbits
    omega
  · rw [superBlocks]
    exact small

end Mounted

end Ownership

end Mksfs
end Ucore
