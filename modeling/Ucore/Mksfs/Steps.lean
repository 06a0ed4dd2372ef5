import Ucore.Mksfs.AppendRule

namespace Ucore
namespace Mksfs

open Library
open Program
open Sfs

/-!
# Steps of the writer

One rule for each way in which the writer stores something.  A step extends
the volume: blocks that were written stay, and at most one file, the current
one, grows.
-/

variable {fs middle after : SfsFs} {current file : Nat}

/-- Files and their blocks stay, and only the current file grows. -/
structure Extends (fs : SfsFs) (current : Nat) (after : SfsFs) : Prop where
  listed : forall file, file ∈ fs.cacheInodes -> file ∈ after.cacheInodes
  kind : forall file, file ∈ fs.cacheInodes ->
    (after.inode file).real = (fs.inode file).real /\ (after.inode file).inode.type = (fs.inode file).inode.type
  closed : forall file, file ∈ fs.cacheInodes -> file ≠ current ->
    (after.inode file).nblks = (fs.inode file).nblks /\ (after.inode file).inode.size = (fs.inode file).inode.size
  blocks : forall file index, file ∈ fs.cacheInodes -> index < (fs.inode file).nblks ->
    index < (after.inode file).nblks /\ after.blockAt file index = fs.blockAt file index
  old : forall number, number < fs.nextIno -> after.disk number = fs.disk number
  beyond : forall number, after.nextIno <= number -> after.disk number = fs.disk number
  ninos : after.ninos = fs.ninos
  low : fs.nextIno <= after.nextIno

namespace Extends

theorem refl (fs : SfsFs) (current : Nat) : Extends fs current fs where
  listed := fun _ member => member
  kind := fun _ _ => ⟨rfl, rfl⟩
  closed := fun _ _ _ => ⟨rfl, rfl⟩
  blocks := fun _ _ _ low => ⟨low, rfl⟩
  old := fun _ _ => rfl
  beyond := fun _ _ => rfl
  ninos := rfl
  low := Nat.le_refl _

/-- The second step may have been for a file that is new. -/
theorem trans {other : Nat} (first : Extends fs current middle) (second : Extends middle other after)
    (newer : other = current \/ other ∉ fs.cacheInodes) : Extends fs current after where
  listed := fun file member => second.listed file (first.listed file member)
  kind := by
    intro file member
    have one := first.kind file member
    have two := second.kind file (first.listed file member)
    exact ⟨two.1.trans one.1, two.2.trans one.2⟩
  closed := by
    intro file member different
    have one := first.closed file member different
    have elsewhere : file ≠ other := by
      rcases newer with same | absent
      · exact same ▸ different
      · exact fun equal => absent (equal ▸ member)
    have two := second.closed file (first.listed file member) elsewhere
    exact ⟨two.1.trans one.1, two.2.trans one.2⟩
  blocks := by
    intro file index member low
    have one := first.blocks file index member low
    have two := second.blocks file index (first.listed file member) one.1
    exact ⟨two.1, two.2.trans one.2⟩
  old := by
    intro number low
    rw [second.old number (Nat.lt_of_lt_of_le low first.low), first.old number low]
  beyond := by
    intro number high
    rw [second.beyond number high, first.beyond number (Nat.le_trans second.low high)]
  ninos := second.ninos.trans first.ninos
  low := Nat.le_trans first.low second.low

/-- A block of a file stays on the disk. -/
theorem disk {pending : List Nat} (extends_ : Extends fs current after) (sound : Sound fs pending)
    (listed : file ∈ fs.cacheInodes) {index : Nat} (low : index < (fs.inode file).nblks) :
    after.disk (after.blockAt file index) = fs.disk (fs.blockAt file index) := by
  have present := ((sound.shaped file listed).blocks index).mpr low
  rw [(extends_.blocks file index listed low).2]
  exact extends_.old _ (sound.accounted.held_lt (Accounted.holds_data listed present))

end Extends

/-- One step: the volume stays sound, and so many numbers are taken at most. -/
structure Step (fs : SfsFs) (current cost : Nat) (after : SfsFs) : Prop where
  extends_ : Extends fs current after
  sound : Sound after []
  high : after.nextIno <= fs.nextIno + cost

/-! ## A block -/

/-- A block of the file holds the bytes. -/
def Stores (fs : SfsFs) (file index : Nat) (block : Bytes) : Prop :=
  forall k, k < blksize -> fs.disk (fs.blockAt file index) k = block k

/-- Two parts of the writer store a block: a number is taken, the block is
written, and the number is appended. -/
structure Stored (fs : SfsFs) (current size : Nat) (block : Bytes) (after : SfsFs) : Prop where
  step : Step fs current 3 after
  inodes : after.inodes = fs.inodes
  self : SameFile ((fs.inode current).grow size) (after.inode current)
  others : forall other, other ≠ current -> after.inode other = fs.inode other
  stores : Stores after current (fs.inode current).nblks block

theorem Sound.taken (sound : Sound fs []) (room : fs.nextIno < fs.ninos) : Sound fs.taken [fs.nextIno] where
  accounted := sound.accounted.taken_pending room
  shaped := fun file listed => (sound.shaped file listed).of_same rfl rfl rfl

theorem Sound.setDisk {pending : List Nat} (sound : Sound fs pending) (number : Nat) (block : Bytes) :
    Sound (fs.setDisk number block) pending where
  accounted := sound.accounted.of_same rfl ⟨rfl, rfl, rfl⟩ rfl rfl
  shaped := fun file listed => (sound.shaped file listed).of_same rfl rfl rfl

theorem Appended.cacheInodes {size ino : Nat} (appended : Appended fs file size ino after) :
    after.cacheInodes = fs.cacheInodes := by
  unfold SfsFs.cacheInodes
  rw [appended.inodes]

/-- A number is taken, its block is written, and it is appended. -/
theorem Appended.stored {size : Nat} {block : Bytes} (listed : current ∈ fs.cacheInodes)
    (appended : Appended (fs.taken.setDisk fs.nextIno block) current size fs.nextIno after)
    (soundAfter : Sound after []) : Stored fs current size block after := by
  have nblks : (after.inode current).nblks = (fs.inode current).nblks + 1 := appended.self.nblks
  have blocks := appended.blocks
  have last : after.blockAt current (fs.inode current).nblks = fs.nextIno := by
    rw [blocks current listed, if_pos rfl]
    exact Function.update_self ..
  refine ⟨⟨⟨?_, ?_, ?_, ?_, ?_, ?_, appended.ninos, ?_⟩, soundAfter, ?_⟩, appended.inodes, appended.self,
    appended.others, ?_⟩
  · intro file member
    rw [appended.cacheInodes]
    exact member
  · intro file _
    by_cases same : file = current
    · subst same
      exact ⟨appended.self.real, appended.self.type⟩
    · rw [appended.others file same]
      exact ⟨rfl, rfl⟩
  · intro file _ different
    rw [appended.others file different]
    exact ⟨rfl, rfl⟩
  · intro file index member low
    rw [blocks file member]
    by_cases same : file = current
    · subst same
      rw [nblks, if_pos rfl]
      exact ⟨Nat.lt_succ_of_lt low, Function.update_of_ne (Nat.ne_of_lt low) ..⟩
    · rw [if_neg same, appended.others file same]
      exact ⟨low, rfl⟩
  · intro number low
    rw [appended.disk]
    exact Function.update_of_ne (Nat.ne_of_lt low) ..
  · intro number high
    rw [appended.disk]
    have above : fs.nextIno + 1 <= number := Nat.le_trans appended.low high
    exact Function.update_of_ne (by omega) ..
  · exact Nat.le_trans (Nat.le_succ _) appended.low
  · have high : after.nextIno <= fs.nextIno + 1 + 2 := appended.high
    omega
  · intro k _
    rw [last, appended.disk]
    exact congrFun (Function.update_self ..) k

variable {fail : Bug -> SfsFs -> Prop} {stop : Assertion -> Prop} {done : Unit -> SfsFs -> Prop}

/-- What `write_block` writes. -/
def writtenBlock (data : Bytes) (len : Nat) : Bytes := if len ≠ blksize then splice (fun _ => 0) 0 len data else data

theorem writeBlock_meets {data : Bytes} {len ino : Nat} (fits : len <= blksize) (inRange : ino < fs.ninos)
    (written : done () (fs.setDisk ino (writtenBlock data len))) :
    Meets (writeBlock data len ino) fs ⟨done, fail, stop⟩ := by
  unfold writeBlock
  simp only [meets_bind, meets_get, meets_assert, meets_modify]
  exact ⟨fun _ => written, fun broken => absurd ⟨fits, inRange⟩ broken⟩

/-- The three calls that store a block of a file. -/
theorem store_meets {data : Bytes} {len size : Nat} (sound : Sound fs []) (listed : current ∈ fs.cacheInodes)
    (fits : len <= blksize) (sizeFits : size <= blksize)
    (tooBig : lnNblks <= (fs.inode current).nblks -> forall after, fail ⟨"file is too big.\n"⟩ after)
    (full : fs.ninos < fs.nextIno + 3 -> forall after, fail ⟨"out of disk space.\n"⟩ after)
    (stored : forall after, Stored fs current size (writtenBlock data len) after -> done () after) :
    Meets (do
      let ino <- allocIno
      writeBlock data len ino
      appendBlock current size ino) fs ⟨done, fail, stop⟩ := by
  simp only [meets_bind]
  apply allocIno_meets
  · intro room
    have inRange : fs.nextIno < fs.taken.ninos := room
    apply writeBlock_meets fits inRange
    apply appendBlock_meets ((sound.taken room).setDisk _ _) listed sizeFits
    · exact fun big => tooBig big _
    · exact fun excess => full (Nat.lt_of_lt_of_le excess (Nat.le_refl _))
    · exact fun after appended soundAfter => stored after (appended.stored listed soundAfter)
  · exact fun excess => full (by omega) fs

/-! ## Files and links -/

/-- The file has the bytes. -/
structure FileHolds (fs : SfsFs) (file : Nat) (content : List UInt8) : Prop where
  type : (fs.inode file).inode.type = typeFile
  size : (fs.inode file).inode.size = content.length
  nblks : (fs.inode file).nblks = roundupDiv content.length blksize
  bytes : forall index, index < (fs.inode file).nblks ->
    Stores fs file index (fun k => content.getD (index * blksize + k) 0)

theorem FileHolds.kept {content : List UInt8} (holds : FileHolds fs file content) (sound : Sound fs [])
    (listed : file ∈ fs.cacheInodes) (extends_ : Extends fs current after) (closed : file ≠ current) :
    FileHolds after file content where
  type := (extends_.kind file listed).2.trans holds.type
  size := (extends_.closed file listed closed).2.trans holds.size
  nblks := (extends_.closed file listed closed).1.trans holds.nblks
  bytes := by
    intro index low k inside
    rw [(extends_.closed file listed closed).1] at low
    rw [extends_.disk sound listed low]
    exact holds.bytes index low k inside

/-- The first bytes of the content have been stored in whole blocks. -/
structure Reading (start fs : SfsFs) (file : Nat) (content rest : List UInt8) (cost : Nat) : Prop where
  extends_ : Extends start file fs
  sound : Sound fs []
  inodes : fs.inodes = start.inodes
  others : forall other, other ≠ file -> fs.inode other = start.inode other
  listed : file ∈ fs.cacheInodes
  kind : (fs.inode file).inode.type = typeFile
  split : Exists fun read => rest = content.drop read /\ read <= content.length /\
    (fs.inode file).inode.size = read /\ (fs.inode file).nblks = roundupDiv read blksize /\
    (rest ≠ [] -> read % blksize = 0) /\ fs.nextIno + 3 * roundupDiv rest.length blksize <= start.nextIno + cost
  bytes : forall index, index < (fs.inode file).nblks ->
    Stores fs file index (fun k => content.getD (index * blksize + k) 0)

theorem roundupDiv_add {read len : Nat} (aligned : read % blksize = 0) (positive : 0 < len) (low : len <= blksize) :
    roundupDiv (read + len) blksize = roundupDiv read blksize + 1 := by
  unfold roundupDiv
  unfold blksize at *
  omega

theorem roundupDiv_drop {total : Nat} (positive : 0 < total) :
    roundupDiv (total - blksize) blksize + 1 = roundupDiv total blksize := by
  unfold roundupDiv blksize
  omega

theorem Reading.next {start : SfsFs} {content rest : List UInt8} {cost : Nat}
    (reading : Reading start fs file content rest cost) (more : rest ≠ [])
    (stored : Stored fs file (min rest.length blksize) (writtenBlock (bytesOf rest) (min rest.length blksize)) after) :
    Reading start after file content (rest.drop blksize) cost := by
  have positive := List.length_pos_iff.mpr more
  rcases reading.split with ⟨read, equal, within, size, nblks, aligned, room⟩
  have length : rest.length = content.length - read := by rw [equal, List.length_drop]
  have grown : (after.inode file).nblks = (fs.inode file).nblks + 1 := stored.self.nblks
  have newSize : (after.inode file).inode.size = (fs.inode file).inode.size + min rest.length blksize :=
    stored.self.size
  refine ⟨reading.extends_.trans stored.step.extends_ (.inl rfl), stored.step.sound,
    stored.inodes.trans reading.inodes,
    fun other different => (stored.others other different).trans (reading.others other different),
    stored.step.extends_.listed file reading.listed,
    (stored.step.extends_.kind file reading.listed).2.trans reading.kind, ?_, ?_⟩
  · refine ⟨read + min rest.length blksize, ?_, by omega, by rw [newSize, size], ?_, ?_, ?_⟩
    · rw [equal, List.drop_drop, ← equal]
      by_cases short : rest.length <= blksize
      · rw [Nat.min_eq_left short, List.drop_eq_nil_of_le (by omega), List.drop_eq_nil_of_le (by omega)]
      · rw [Nat.min_eq_right (Nat.le_of_not_le short)]
    · rw [grown, nblks, roundupDiv_add (aligned more) (by unfold blksize; omega) (Nat.min_le_right ..)]
    · intro left
      have long := List.length_pos_iff.mpr left
      rw [List.length_drop] at long
      rw [Nat.min_eq_right (by omega), Nat.add_mod, aligned more, Nat.mod_self, Nat.zero_add, Nat.zero_mod]
    · have high := stored.step.high
      have step := roundupDiv_drop positive
      rw [List.length_drop]
      omega
  · intro index low k inside
    rw [grown] at low
    by_cases last : index = (fs.inode file).nblks
    · subst last
      have base : (fs.inode file).nblks * blksize = read := by
        have exactly := aligned more
        rw [nblks]
        unfold roundupDiv blksize at *
        omega
      rw [stored.stores k inside, base]
      have value : rest.getD k 0 = content.getD (read + k) 0 := by
        rw [equal, List.getD_eq_getElem?_getD, List.getElem?_drop, List.getD_eq_getElem?_getD]
      unfold writtenBlock bytesOf
      by_cases short : rest.length < blksize
      · rw [Nat.min_eq_left (Nat.le_of_lt short), if_pos (Nat.ne_of_lt short)]
        unfold splice
        by_cases inContent : k < rest.length
        · rw [if_pos ⟨Nat.zero_le _, by omega⟩, Nat.sub_zero]
          exact value
        · rw [if_neg (by omega)]
          exact (List.getD_eq_default _ _ (Nat.le_of_not_lt inContent)).symm.trans value
      · rw [Nat.min_eq_right (Nat.le_of_not_lt short), if_neg (fun different => different rfl)]
        exact value
    · have before : index < (fs.inode file).nblks := by omega
      rw [stored.step.extends_.disk reading.sound reading.listed before]
      exact reading.bytes index before k inside

theorem openFile_meets {start : SfsFs} {content rest : List UInt8} {cost last : Nat}
    (reading : Reading start fs file content rest cost) (whole : rest ≠ [] -> last = blksize)
    (tooBig : maxFileSize < content.length -> forall after, fail ⟨"file is too big.\n"⟩ after)
    (full : start.ninos < start.nextIno + cost -> forall after, fail ⟨"out of disk space.\n"⟩ after)
    (read : forall after, Reading start after file content [] cost -> done () after) :
    Meets (openFile file last rest) fs ⟨done, fail, stop⟩ := by
  induction length : rest.length using Nat.strong_induction_on generalizing fs rest last with
  | _ total inductionHypothesis =>
      rw [openFile]
      by_cases ended : rest = []
      · subst ended
        rw [if_pos rfl, meets_pure]
        exact read fs reading
      · rw [if_neg ended]
        have positive := List.length_pos_iff.mpr ended
        rcases reading.split with ⟨count, equal, within, size, nblks, aligned, room⟩
        have left : rest.length = content.length - count := by rw [equal, List.length_drop]
        have rounds := roundupDiv_drop positive
        simp only [meets_bind, meets_assert]
        refine ⟨fun _ => ?_, fun broken => absurd (whole ended) broken⟩
        have fits := Nat.min_le_right rest.length blksize
        have storing : Meets (do
            let ino <- allocIno
            writeBlock (bytesOf rest) (min rest.length blksize) ino
            appendBlock file (min rest.length blksize) ino) fs
            ⟨fun _ after => Meets (openFile file (min rest.length blksize) (rest.drop blksize)) after
              ⟨done, fail, stop⟩, fail, stop⟩ := by
          apply store_meets reading.sound reading.listed fits fits
          · intro big
            apply tooBig
            rw [nblks] at big
            have exactly := aligned ended
            unfold lnNblks maxFileSize roundupDiv blksize at *
            omega
          · intro excess
            apply full
            rw [← reading.extends_.ninos]
            omega
          · intro middle stored
            have next := reading.next ended stored
            apply inductionHypothesis (rest.drop blksize).length _ next _ rfl
            · rw [List.length_drop]
              unfold blksize
              omega
            · intro more
              have long := List.length_pos_iff.mpr more
              rw [List.length_drop] at long
              exact Nat.min_eq_right (by omega)
        simp only [meets_bind] at storing
        exact storing

/-! ## Links to an inode -/

section AddLink

/-- `file->inode.nlinks ++` -/
def SfsFs.addLink (fs : SfsFs) (file : Nat) : SfsFs := fs.setInode file (fs.inode file).addLink

theorem addLink_recounted : Recounted fs file (fs.addLink file) := ⟨_, rfl, rfl, rfl, rfl⟩

/-- Nothing but the number of links changes. -/
theorem addLink_inode (fs : SfsFs) (file other : Nat) : Exists fun nlinks => (fs.addLink file).inode other =
    { fs.inode other with inode := { (fs.inode other).inode with nlinks := nlinks } } := by
  by_cases same : other = file
  · subst same
    exact ⟨_, setInode_inode ..⟩
  · exact ⟨(fs.inode other).inode.nlinks, setInode_other same _⟩

theorem Sound.addLink {pending : List Nat} (sound : Sound fs pending) : Sound (fs.addLink file) pending where
  accounted := sound.accounted.recounted addLink_recounted
  shaped := by
    intro other listed
    have shaped := sound.shaped other listed
    have numbers := (addLink_recounted : Recounted fs file _).numbers other
    rcases addLink_inode fs file other with ⟨nlinks, inode⟩
    refine ⟨?_, ?_, ?_, ?_, ?_, ?_⟩
    · rw [inode, numbers.2]
      exact shaped.blocks
    · rw [inode, numbers.1]
      exact shaped.tables
    · rw [inode]
      exact shaped.counted
    · rw [inode]
      exact shaped.bounded
    · rw [inode, numbers.1]
      exact shaped.first
    · rw [inode, numbers.1]
      exact shaped.second

theorem Extends.addLink (extends_ : Extends fs current after) : Extends fs current (after.addLink file) where
  listed := extends_.listed
  kind := by
    intro other member
    rcases addLink_inode after file other with ⟨nlinks, inode⟩
    rw [inode]
    exact extends_.kind other member
  closed := by
    intro other member different
    rcases addLink_inode after file other with ⟨nlinks, inode⟩
    rw [inode]
    exact extends_.closed other member different
  blocks := by
    intro other index member low
    rcases addLink_inode after file other with ⟨nlinks, inode⟩
    rw [inode, (addLink_recounted.numbers other).2]
    exact extends_.blocks other index member low
  old := extends_.old
  beyond := extends_.beyond
  ninos := extends_.ninos
  low := extends_.low

end AddLink

/-! ## Entries -/

/-- The bytes of an entry, as they are written. -/
def entryBlock (ino : Nat) (name : List UInt8) (old : Bytes) : Bytes :=
  writtenBlock (entryBytes ino (strcpy old name)) entryNameBytes

/-- The directory has the entries. -/
structure DirHolds (fs : SfsFs) (dir : Nat) (entries : List (Nat × List UInt8)) : Prop where
  type : (fs.inode dir).inode.type = typeDir
  nblks : (fs.inode dir).nblks = entries.length
  stores : forall index entry, entries[index]? = some entry ->
    Exists fun old => Stores fs dir index (entryBlock entry.1 entry.2 old)

theorem DirHolds.kept {entries : List (Nat × List UInt8)} {dir : Nat} (holds : DirHolds fs dir entries)
    (sound : Sound fs []) (listed : dir ∈ fs.cacheInodes) (extends_ : Extends fs current after)
    (closed : dir ≠ current) : DirHolds after dir entries where
  type := (extends_.kind dir listed).2.trans holds.type
  nblks := (extends_.closed dir listed closed).1.trans holds.nblks
  stores := by
    intro index entry here
    rcases holds.stores index entry here with ⟨old, stores⟩
    have low : index < (fs.inode dir).nblks := by
      rw [holds.nblks]
      exact (List.getElem?_eq_some_iff.mp here).1
    refine ⟨old, fun k inside => ?_⟩
    rw [extends_.disk sound listed low]
    exact stores k inside

/-- An entry was added. -/
structure EntryAdded (fs : SfsFs) (current ino : Nat) (name : List UInt8) (after : SfsFs) : Prop where
  step : Step fs current 3 after
  inodes : after.inodes = fs.inodes
  grown : (after.inode current).nblks = (fs.inode current).nblks + 1
  entries : forall entries, DirHolds fs current entries -> DirHolds after current (entries ++ [(ino, name)])

theorem Stored.entryAdded {ino : Nat} {name : List UInt8} {old : Bytes} (sound : Sound fs [])
    (listed : current ∈ fs.cacheInodes) (stored : Stored fs current entryNameBytes (entryBlock ino name old) after) :
    EntryAdded fs current ino name (after.addLink ino) where
  step := ⟨stored.step.extends_.addLink, stored.step.sound.addLink, stored.step.high⟩
  inodes := stored.inodes
  grown := by
    rcases addLink_inode after ino current with ⟨nlinks, inode⟩
    rw [inode]
    exact stored.self.nblks
  entries := by
    intro entries holds
    have extends_ : Extends fs current (after.addLink ino) := stored.step.extends_.addLink
    refine ⟨(extends_.kind current listed).2.trans holds.type, ?_, ?_⟩
    · rcases addLink_inode after ino current with ⟨nlinks, inode⟩
      rw [inode, List.length_append, ← holds.nblks]
      exact stored.self.nblks
    · intro index entry here
      by_cases before : index < entries.length
      · rw [List.getElem?_append_left before] at here
        rcases holds.stores index entry here with ⟨earlier, stores⟩
        refine ⟨earlier, fun k inside => ?_⟩
        rw [← holds.nblks] at before
        rw [extends_.disk sound listed before]
        exact stores k inside
      · rw [List.getElem?_append_right (Nat.le_of_not_lt before)] at here
        have last : index = entries.length := by
          have low := (List.getElem?_eq_some_iff.mp here).1
          simp only [List.length_singleton] at low
          omega
        subst last
        rw [Nat.sub_self] at here
        cases here
        refine ⟨old, fun k inside => ?_⟩
        change after.disk ((after.addLink ino).blockAt current entries.length) k = _
        rw [(addLink_recounted.numbers current).2, ← holds.nblks]
        exact stored.stores k inside

theorem Sound.setEntryName {pending : List Nat} (sound : Sound fs pending) (name : Bytes) :
    Sound { fs with entryName := name } pending where
  accounted := sound.accounted.of_same rfl ⟨rfl, rfl, rfl⟩ rfl rfl
  shaped := fun file listed => (sound.shaped file listed).of_same rfl rfl rfl

/-- The name buffer does not matter. -/
theorem Stored.unnamed {size : Nat} {name block : Bytes}
    (stored : Stored { fs with entryName := name } current size block after) : Stored fs current size block after where
  step :=
    { extends_ :=
        { listed := stored.step.extends_.listed
          kind := stored.step.extends_.kind
          closed := stored.step.extends_.closed
          blocks := stored.step.extends_.blocks
          old := stored.step.extends_.old
          beyond := stored.step.extends_.beyond
          ninos := stored.step.extends_.ninos
          low := stored.step.extends_.low }
      sound := stored.step.sound
      high := stored.step.high }
  inodes := stored.inodes
  self := stored.self
  others := stored.others
  stores := stored.stores

theorem addEntry_meets {ino : Nat} {name : List UInt8} (sound : Sound fs []) (listed : current ∈ fs.cacheInodes)
    (isDir : (fs.inode current).inode.type = typeDir) (short : name.length <= maxFnameLen)
    (tooBig : lnNblks <= (fs.inode current).nblks -> forall after, fail ⟨"file is too big.\n"⟩ after)
    (full : fs.ninos < fs.nextIno + 3 -> forall after, fail ⟨"out of disk space.\n"⟩ after)
    (added : forall after, EntryAdded fs current ino name after -> done () after) :
    Meets (addEntry current ino name) fs ⟨done, fail, stop⟩ := by
  unfold addEntry modifyInode
  simp only [meets_bind, meets_get, meets_assert, meets_modify]
  refine ⟨fun _ => ?_, fun broken => absurd ⟨isDir, short⟩ broken⟩
  apply allocIno_meets
  · intro room
    have inRange : fs.nextIno < ({ fs with entryName := strcpy fs.entryName name } : SfsFs).taken.ninos := room
    have named := sound.setEntryName (strcpy fs.entryName name)
    apply writeBlock_meets (by decide) inRange
    apply appendBlock_meets ((named.taken room).setDisk _ _) listed (by decide)
    · exact fun big => tooBig big _
    · exact fun excess => full (Nat.lt_of_lt_of_le excess (Nat.le_refl _))
    · intro after appended soundAfter
      have there : current ∈ ({ fs with entryName := strcpy fs.entryName name } : SfsFs).cacheInodes := listed
      have stored := Appended.stored there appended soundAfter
      exact added _ (stored.unnamed.entryAdded sound listed)
  · exact fun excess => full (Nat.lt_of_le_of_lt excess (Nat.lt_add_of_pos_right (by decide))) _

/-! ## New inodes -/

namespace SfsFs

/-- A cache inode with the next number. -/
def newInode (fs : SfsFs) (real type : Nat) : SfsFs :=
  fs.taken.addCacheInode (hash64 real) fs.nextIno (.fresh real type)

end SfsFs

section NewInode

variable {real type : Nat}

theorem mem_newInode {ino : Nat} :
    ino ∈ (fs.newInode real type).cacheInodes <-> ino = fs.nextIno \/ ino ∈ fs.cacheInodes :=
  mem_addCacheInode (hash32_lt _) _

theorem newInode_inode : (fs.newInode real type).inode fs.nextIno = .fresh real type := Function.update_self ..

theorem newInode_other {ino : Nat} (different : ino ≠ fs.nextIno) :
    (fs.newInode real type).inode ino = fs.inode ino := Function.update_of_ne different ..

theorem newInode_numbers_other {ino : Nat} (different : ino ≠ fs.nextIno) :
    (fs.newInode real type).tableAt ino = fs.tableAt ino /\ (fs.newInode real type).blockAt ino = fs.blockAt ino :=
  numbers_congr (newInode_other different) (fun _ _ => rfl)

/-- A new inode has no table and no block. -/
theorem newInode_tableAt (index : Nat) : (fs.newInode real type).tableAt fs.nextIno index = 0 := by
  match index with
  | 0 => rw [SfsFs.tableAt, newInode_inode]; rfl
  | 1 => rw [SfsFs.tableAt, newInode_inode]; rfl
  | index + 2 =>
      have second : ((fs.newInode real type).inode fs.nextIno).inode.dbIndirect = 0 := by
        rw [newInode_inode]
        rfl
      rw [tableAt_deep second, if_neg (fun both => both.1 rfl)]

theorem newInode_blockAt (index : Nat) : (fs.newInode real type).blockAt fs.nextIno index = 0 := by
  unfold SfsFs.blockAt
  rw [newInode_tableAt, newInode_inode, if_neg (fun present => present rfl)]
  split
  · rfl
  · rfl

theorem newInode_holds (fresh : fs.nextIno ∉ fs.cacheInodes) : (fs.newInode real type).holds =
    Function.update fs.holds (.inode fs.nextIno) (some fs.nextIno) := by
  funext place
  rw [Function.update_apply]
  cases place with
  | inode ino =>
      rw [SfsFs.holds]
      by_cases same : ino = fs.nextIno
      · rw [same, if_pos rfl, if_pos (mem_newInode.mpr (.inl rfl))]
      · rw [if_neg (fun equal => same (Place.inode.inj equal)), SfsFs.holds]
        by_cases listed : ino ∈ fs.cacheInodes
        · rw [if_pos listed, if_pos (mem_newInode.mpr (.inr listed))]
        · rw [if_neg listed, if_neg (fun member => (mem_newInode.mp member).elim same listed)]
  | table file index =>
      rw [if_neg (fun equal => by cases equal), SfsFs.holds, SfsFs.holds]
      by_cases same : file = fs.nextIno
      · rw [same, newInode_tableAt, if_neg fresh, entryNumber_zero, ite_self]
      · rw [(newInode_numbers_other same).1]
        by_cases listed : file ∈ fs.cacheInodes
        · rw [if_pos listed, if_pos (mem_newInode.mpr (.inr listed))]
        · rw [if_neg listed, if_neg (fun member => (mem_newInode.mp member).elim same listed)]
  | data file index =>
      rw [if_neg (fun equal => by cases equal), SfsFs.holds, SfsFs.holds]
      by_cases same : file = fs.nextIno
      · rw [same, newInode_blockAt, if_neg fresh, entryNumber_zero, ite_self]
      · rw [(newInode_numbers_other same).2]
        by_cases listed : file ∈ fs.cacheInodes
        · rw [if_pos listed, if_pos (mem_newInode.mpr (.inr listed))]
        · rw [if_neg listed, if_neg (fun member => (mem_newInode.mp member).elim same listed)]

theorem Sound.newInode (sound : Sound fs []) (room : fs.nextIno < fs.ninos) : Sound (fs.newInode real type) [] := by
  have fresh := sound.accounted.not_listed
  have taken := sound.accounted.taken_pending room
  have empty : fs.taken.holds (.inode fs.nextIno) = none := by
    rw [holds_taken, SfsFs.holds, if_neg fresh]
  constructor
  · apply taken.placed empty (newInode_holds fresh) ⟨rfl, rfl, rfl⟩
    · exact mem_newInode.mpr (.inr sound.accounted.root)
    · intro other
      constructor
      · exact .inr
      · rintro (⟨_, _, _, equal⟩ | old)
        · cases equal
        · exact old
  · intro file listed
    by_cases same : file = fs.nextIno
    · subst same
      have none : ((fs.newInode real type).inode fs.nextIno).nblks = 0 := by
        rw [newInode_inode]
        rfl
      refine ⟨?_, ?_, ?_, ?_, ?_, ?_⟩
      · intro index
        rw [newInode_blockAt, none]
        exact iff_of_false (fun present => present rfl) (Nat.not_lt_zero _)
      · intro index
        rw [newInode_tableAt, none]
        exact iff_of_false (fun present => present rfl) (Nat.not_lt_zero _)
      · rw [newInode_inode]
        rfl
      · rw [none]
        exact Nat.zero_le _
      · rw [none]
        exact fun indexed => absurd indexed (Nat.not_lt_zero _)
      · rw [none]
        exact fun deep => absurd deep (Nat.not_lt_zero _)
    · have numbers : (fs.newInode real type).tableAt file = _ /\ (fs.newInode real type).blockAt file = _ :=
        newInode_numbers_other same
      exact (sound.shaped file ((mem_newInode.mp listed).resolve_left same)).of_same (newInode_other same)
        numbers.1 numbers.2

theorem Extends.newInode (sound : Sound fs []) (current : Nat) : Extends fs current (fs.newInode real type) := by
  have fresh : forall file, file ∈ fs.cacheInodes -> file ≠ fs.nextIno :=
    fun file member same => sound.accounted.not_listed (same ▸ member)
  refine ⟨fun file member => mem_newInode.mpr (.inr member), ?_, ?_, ?_, fun _ _ => rfl, fun _ _ => rfl, rfl,
    Nat.le_succ _⟩
  · intro file member
    rw [newInode_other (fresh file member)]
    exact ⟨rfl, rfl⟩
  · intro file member _
    rw [newInode_other (fresh file member)]
    exact ⟨rfl, rfl⟩
  · intro file index member low
    rw [newInode_other (fresh file member), (newInode_numbers_other (fresh file member)).2]
    exact ⟨low, rfl⟩

theorem allocCacheInode_meets {done : Nat -> SfsFs -> Prop}
    (room : fs.nextIno < fs.ninos -> done fs.nextIno (fs.newInode real type))
    (full : fs.ninos <= fs.nextIno -> fail ⟨"out of disk space.\n"⟩ fs) :
    Meets (allocCacheInode real 0 type) fs ⟨done, fail, stop⟩ := by
  unfold allocCacheInode
  simp only [ne_eq, not_true_eq_false, if_false, meets_bind, meets_modify, meets_pure]
  exact allocIno_meets room full

theorem openLink_meets {target : List UInt8} (sound : Sound fs []) (listed : file ∈ fs.cacheInodes)
    (tooBig : lnNblks <= (fs.inode file).nblks -> forall after, fail ⟨"file is too big.\n"⟩ after)
    (tooLong : blksize <= target.length -> forall after, fail ⟨"read link failed, %d"⟩ after)
    (full : fs.ninos < fs.nextIno + 3 -> forall after, fail ⟨"out of disk space.\n"⟩ after)
    (stored : forall after, Stored fs file target.length (writtenBlock (bytesOf target) target.length) after ->
      done () after) : Meets (openLink file target) fs ⟨done, fail, stop⟩ := by
  unfold openLink
  simp only [meets_bind, meets_ite, meets_throw]
  by_cases long : blksize <= target.length
  · apply allocIno_meets
    · intro _
      rw [if_pos long]
      exact tooLong long _
    · exact fun excess => full (Nat.lt_of_le_of_lt excess (Nat.lt_add_of_pos_right (by decide))) fs
  · have fits : target.length <= blksize := by omega
    have storing : Meets (do
        let ino <- allocIno
        writeBlock (bytesOf target) target.length ino
        appendBlock file target.length ino) fs ⟨done, fail, stop⟩ :=
      store_meets sound listed fits fits tooBig full stored
    simp only [meets_bind] at storing
    simp only [if_neg long]
    exact storing

end NewInode

end Mksfs
end Ucore
