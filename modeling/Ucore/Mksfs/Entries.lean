import Mathlib.Data.List.Nodup
import Ucore.Mksfs.Contents
import Ucore.Sfs.Directory

namespace Ucore
namespace Mksfs

open Library
open Program
open Sfs

/-!
# The entries of the image

The writer stores 256 bytes of an entry of 260, so that the kernel decodes the
first 252 bytes of a name.
-/

variable {home : HostTree} {start fs filled : SfsFs} {kernel : Sfs.SfsFs}

/-! ## Names of the host -/

namespace HostDir

/-- An entry has a name of the host that is not hidden. -/
theorem name_of_entry (dir : HostDir) {name : List UInt8} {real : Nat} (member : (name, real) ∈ dir.entries) :
    Exists fun host : HostName => host.hidden ≠ true /\ host.bytes = name := by
  induction dir with
  | nil => cases member
  | item host what rest ih =>
      rcases List.mem_append.mp member with here | later
      · by_cases hidden : host.hidden = true
        · rw [if_pos hidden] at here
          cases here
        · rw [if_neg hidden] at here
          cases what with
          | link other target =>
              cases List.mem_singleton.mp here
              exact ⟨host, hidden, rfl⟩
          | file other bytes =>
              cases List.mem_singleton.mp here
              exact ⟨host, hidden, rfl⟩
          | other => cases here
      · exact ih later
  | dir host other inner rest _ ih =>
      rcases List.mem_append.mp member with here | later
      · by_cases hidden : host.hidden = true
        · rw [if_pos hidden] at here
          cases here
        · rw [if_neg hidden] at here
          cases List.mem_singleton.mp here
          exact ⟨host, hidden, rfl⟩
      · exact ih later

theorem mem_item_names {what : HostItem} {name other : List UInt8}
    (member : other ∈ (what.entries name).map Prod.fst) : other = name := by
  cases what with
  | link real target => exact List.mem_singleton.mp member
  | file real bytes => exact List.mem_singleton.mp member
  | other => cases member

theorem item_names_nodup (what : HostItem) (name : List UInt8) : ((what.entries name).map Prod.fst).Nodup := by
  cases what with
  | link real target => exact List.nodup_singleton _
  | file real bytes => exact List.nodup_singleton _
  | other => exact List.nodup_nil

/-- A directory lists a name once. -/
theorem names_nodup (dir : HostDir) (distinct : dir.Distinct) : (dir.entries.map Prod.fst).Nodup := by
  induction dir with
  | nil => exact List.nodup_nil
  | item host what rest ih =>
      unfold entries
      by_cases hidden : host.hidden = true
      · rw [if_pos hidden]
        exact ih distinct.2
      · rw [if_neg hidden, List.map_append]
        refine (item_names_nodup what host.bytes).append (ih distinct.2) ?_
        intro name here later
        rw [mem_item_names here] at later
        exact distinct.1 (Bool.eq_false_of_not_eq_true hidden) later
  | dir host real inner rest _ ih =>
      unfold entries
      by_cases hidden : host.hidden = true
      · rw [if_pos hidden]
        exact ih distinct.2
      · rw [if_neg hidden, List.map_append]
        refine (List.nodup_singleton _).append (ih distinct.2) ?_
        intro name here later
        rw [List.mem_singleton.mp here] at later
        exact (distinct.1 (Bool.eq_false_of_not_eq_true hidden)).1 later

theorem Distinct.below {dir : HostDir} {parent : Nat} {directory : Subdirectory} (distinct : dir.Distinct)
    (member : directory ∈ dir.subdirectories parent) : directory.entries.Distinct := by
  induction dir generalizing parent with
  | nil => cases member
  | item host what rest ih => exact ih distinct.2 member
  | dir host real inner rest first second =>
      rcases List.mem_append.mp member with here | later
      · by_cases hidden : host.hidden = true
        · rw [if_pos hidden] at here
          cases here
        · rw [if_neg hidden] at here
          have both := distinct.1 (Bool.eq_false_of_not_eq_true hidden)
          rcases List.mem_cons.mp here with rfl | below
          · exact both.2
          · exact first both.2 below
      · exact second distinct.2 later

end HostDir

/-- All directories of the tree. -/
def HostTree.directories (home : HostTree) : List Subdirectory := ⟨0, 0, home.root⟩ :: home.root.subdirectories 0

theorem HostTree.directory_distinct {directory : Subdirectory} (member : directory ∈ home.directories) :
    directory.entries.Distinct := by
  rcases List.mem_cons.mp member with rfl | below
  · exact home.distinct
  · exact home.distinct.below below

/-! ## Listings -/

/-- The entries of a directory, with those of the directory itself and of its
parent. -/
def listing (dir parent : Nat) (entries : List (Nat × List UInt8)) : List (Nat × List UInt8) :=
  (dir, dot) :: (parent, dotdot) :: entries

/-- The directory has an inode whose entries are those of the host.  Inodes of
the image are told apart by the `st_ino` that they stand for. -/
structure Listed (fs : SfsFs) (directory : Subdirectory) (dir parent : Nat) (entries : List (Nat × List UInt8)) :
    Prop where
  dir : dir ∈ fs.cacheInodes /\ (fs.inode dir).real = directory.real
  parent : parent ∈ fs.cacheInodes /\ (fs.inode parent).real = directory.parent
  named : Named fs entries directory.entries.entries

theorem Named.listed {entries : List (Nat × List UInt8)} {sources : List (List UInt8 × Nat)}
    (named : Named fs entries sources) {entry : Nat × List UInt8} (member : entry ∈ entries) :
    entry.1 ∈ fs.cacheInodes := by
  induction named with
  | nil => cases member
  | cons same _ inductionHypothesis =>
      rcases List.mem_cons.mp member with rfl | later
      · exact same.1
      · exact inductionHypothesis later

/-- The root is its own parent. -/
theorem Filled.rootDirectory (packed : Filled home start filled) (started : blknRoot ∈ start.cacheInodes)
    (root : (start.inode blknRoot).real = 0) :
    Exists fun entries => Listed filled ⟨0, 0, home.root⟩ blknRoot blknRoot entries /\
      DirHolds filled blknRoot (listing blknRoot blknRoot entries) := by
  rcases packed.root with ⟨entries, holds, named⟩
  have listed := packed.sound.accounted.root
  have real : (filled.inode blknRoot).real = 0 := (packed.extends_.kind blknRoot started).1.trans root
  exact ⟨entries, ⟨⟨listed, real⟩, ⟨listed, real⟩, named⟩, holds⟩

/-- Every directory of the host is on the volume. -/
theorem Filled.directory (packed : Filled home start filled) (started : blknRoot ∈ start.cacheInodes)
    (root : (start.inode blknRoot).real = 0)
    {directory : Subdirectory} (member : directory ∈ home.directories) :
    Exists fun dir => Exists fun parent => Exists fun entries =>
      Listed filled directory dir parent entries /\ DirHolds filled dir (listing dir parent entries) := by
  rcases List.mem_cons.mp member with rfl | below
  · rcases packed.rootDirectory started root with ⟨entries, listed, holds⟩
    exact ⟨blknRoot, blknRoot, entries, listed, holds⟩
  · rcases packed.packed directory below with ⟨dir, parent, entries, ⟨_, listed⟩, above, holds, named⟩
    exact ⟨dir, parent, entries, ⟨listed, above, named⟩, holds⟩

section Names

variable {directory : Subdirectory} {dir parent : Nat} {entries : List (Nat × List UInt8)}

/-- The names of a listing are those of the host. -/
theorem Named.map_snd {sources : List (List UInt8 × Nat)} (named : Named fs entries sources) :
    entries.map Prod.snd = sources.map Prod.fst := by
  induction named with
  | nil => rfl
  | cons same _ inductionHypothesis => rw [List.map_cons, List.map_cons, same.2.2, inductionHypothesis]

theorem dot_ne_name {name : List UInt8} (member : name ∈ directory.entries.entries.map Prod.fst) :
    dot ≠ name /\ dotdot ≠ name /\ forall byte, byte ∈ name -> byte ≠ 0 := by
  rcases List.mem_map.mp member with ⟨⟨other, real⟩, here, rfl⟩
  rcases directory.entries.name_of_entry here with ⟨host, shown, rfl⟩
  refine ⟨?_, ?_, fun byte inside => (host.plain byte inside).1⟩
  · intro same
    have head : host.bytes.head? = dot.head? := congrArg List.head? same.symm
    exact shown (decide_eq_true head)
  · intro same
    have head : host.bytes.head? = dotdot.head? := congrArg List.head? same.symm
    exact shown (decide_eq_true head)

/-- A listing has no name twice. -/
theorem listing_nodup (distinct : directory.entries.Distinct)
    (named : Named fs entries directory.entries.entries) : ((listing dir parent entries).map Prod.snd).Nodup := by
  have names := named.map_snd
  change (dot :: dotdot :: entries.map Prod.snd).Nodup
  rw [names]
  refine List.nodup_cons.mpr ⟨?_, List.nodup_cons.mpr ⟨?_, directory.entries.names_nodup distinct⟩⟩
  · intro member
    rcases List.mem_cons.mp member with same | later
    · exact absurd same (by decide)
    · exact (dot_ne_name later).1 rfl
  · exact fun member => (dot_ne_name member).2.1 rfl

theorem listing_plain (named : Named fs entries directory.entries.entries) {entry : Nat × List UInt8}
    (member : entry ∈ listing dir parent entries) : forall byte, byte ∈ entry.2 -> byte ≠ 0 := by
  have dots : forall byte, byte ∈ dot -> byte ≠ 0 := by decide +kernel
  have both : forall byte, byte ∈ dotdot -> byte ≠ 0 := by decide +kernel
  rcases List.mem_cons.mp member with rfl | later
  · exact dots
  · rcases List.mem_cons.mp later with rfl | inner
    · exact both
    · have name : entry.2 ∈ entries.map Prod.snd := List.mem_map_of_mem inner
      rw [named.map_snd] at name
      exact (dot_ne_name name).2.2

theorem listing_inode (listed : Listed fs directory dir parent entries) {entry : Nat × List UInt8}
    (member : entry ∈ listing dir parent entries) : entry.1 ∈ fs.cacheInodes := by
  rcases List.mem_cons.mp member with rfl | later
  · exact listed.dir.1
  · rcases List.mem_cons.mp later with rfl | inner
    · exact listed.parent.1
    · exact listed.named.listed inner

end Names

/-! ## Decoding -/

/-- The bytes of a name that are stored. -/
def storedName : Nat := 252

section Decoding

variable {ino : Nat} {name : List UInt8} {old block : Bytes}

theorem entryBlock_low {k : Nat} (low : k < entryNameBytes) :
    entryBlock ino name old k = entryBytes ino (strcpy old name) k := by
  unfold entryBlock writtenBlock
  rw [if_pos (by decide)]
  unfold splice
  rw [if_pos ⟨Nat.zero_le _, by omega⟩, Nat.sub_zero]

theorem entryBlock_high {k : Nat} (high : entryNameBytes <= k) : entryBlock ino name old k = 0 := by
  unfold entryBlock writtenBlock
  rw [if_pos (by decide)]
  unfold splice
  rw [if_neg (by omega)]

/-- The kernel decodes the number and the stored part of the name. -/
theorem decode_entryBlock (fits : ino < 2 ^ 32) (plain : forall byte, byte ∈ name -> byte ≠ 0)
    (stored : forall k, k < blksize -> block k = entryBlock ino name old k) :
    (decodeEntry block).ino = ino /\ (decodeEntry block).string = name.take storedName := by
  have size : entryNameBytes = 256 := rfl
  have whole : blksize = 4096 := rfl
  have last : Sfs.maxFnameLen = 255 := rfl
  have byte : forall k, k < 256 -> (decodeEntry block).name k = if k < 252 then strcpy old name k else 0 := by
    intro k low
    change Function.update (fun k => block (4 + k)) Sfs.maxFnameLen 0 k = _
    rw [Function.update_apply]
    by_cases inside : k < 252
    · rw [if_neg (by omega), if_pos inside, stored _ (by omega), entryBlock_low (by omega)]
      unfold entryBytes
      rw [if_neg (by omega), Nat.add_sub_cancel_left]
    · rw [if_neg inside, stored _ (by omega), entryBlock_high (by omega)]
      split <;> rfl
  constructor
  · apply u32At_of_bytes fits
    intro k low
    rw [Nat.zero_add, stored _ (by omega), entryBlock_low (by omega)]
    exact if_pos low
  · have length : (name.take storedName).length = min 252 name.length := List.length_take
    apply cString_eq
    · exact fun byte member => plain byte (List.mem_of_mem_take member)
    · intro k low
      rw [byte k (by omega), if_pos (by omega)]
      unfold strcpy
      rw [if_pos (by omega), List.getD_eq_getElem?_getD, List.getD_eq_getElem?_getD,
        List.getElem?_take_of_lt (by unfold storedName; omega)]
    · omega
    · rw [byte _ (by omega)]
      split
      · unfold strcpy
        rw [if_neg (by omega), if_pos (by omega)]
      · rfl

end Decoding

/-! ## The directory in the kernel -/

section Directory

variable {dir parent : Nat} {entries : List (Nat × List UInt8)} {directory : Subdirectory}

/-- A directory of the image whose entries the kernel can decode. -/
structure Decodable (filled : SfsFs) (dir : Nat) (entries : List (Nat × List UInt8)) : Prop where
  sound : Sound filled []
  listed : dir ∈ filled.cacheInodes
  holds : DirHolds filled dir entries
  inodes : forall entry, entry ∈ entries -> entry.1 ∈ filled.cacheInodes
  plain : forall entry, entry ∈ entries -> forall byte, byte ∈ entry.2 -> byte ≠ 0
  names : (entries.map Prod.snd).Nodup

theorem Decodable.type (decodable : Decodable filled dir entries) :
    (decodeInode (filled.closed.disk dir)).type = typeDir := by
  have fits : (filled.inode dir).inode.type < 2 ^ 16 := by
    rw [decodable.holds.type]
    decide
  rw [closed_type decodable.sound.accounted decodable.listed fits, decodable.holds.type]

theorem Decodable.blocks (decodable : Decodable filled dir entries) :
    (decodeInode (filled.closed.disk dir)).blocks = entries.length := by
  rw [closed_blocks decodable.sound decodable.listed, decodable.holds.nblks]

/-- The kernel decodes the entry of a slot that its map reaches. -/
theorem Decodable.direntOf (decodable : Decodable filled dir entries) (mounted : Mounted filled.closed kernel)
    {slot : Nat} {entry : Nat × List UInt8} (here : entries[slot]? = some entry)
    (reached : slot < ndirect + blkNentry) :
    kernel.Mapped (decodeInode (filled.closed.disk dir)) slot /\
      (kernel.direntOf (decodeInode (filled.closed.disk dir)) slot).ino = entry.1 /\
      (kernel.direntOf (decodeInode (filled.closed.disk dir)) slot).string = entry.2.take storedName := by
  have low : slot < (filled.inode dir).nblks := by
    rw [decodable.holds.nblks]
    exact (List.getElem?_eq_some_iff.mp here).1
  have member := List.mem_of_getElem? here
  have accounted := decodable.sound.accounted
  have fits : entry.1 < 2 ^ 32 := by
    have below := accounted.inode_lt (decodable.inodes entry member)
    have limit := accounted.next_le
    have small := accounted.small
    unfold maxNblks at small
    omega
  rcases decodable.holds.stores slot entry here with ⟨old, stores⟩
  have stored : forall k, k < blksize ->
      kernel.device.block (kernel.blockOf (decodeInode (filled.closed.disk dir)) slot) k =
        entryBlock entry.1 entry.2 old k := by
    intro k inside
    rw [mounted.block_of decodable.sound decodable.listed low reached]
    exact stores k inside
  exact ⟨mounted.mapped decodable.sound decodable.listed low reached,
    decode_entryBlock fits (decodable.plain entry member) stored⟩

/-- The kernel decodes and finds the entries of a directory, and no others. -/
def DirReadsBack (image : SfsFs) (dir : Nat) (entries : List (Nat × List UInt8)) : Prop :=
  forall kernel, Mounted image kernel -> kernel.Works -> dir ∈ kernel.inodeList ->
    (forall slot entry, entries[slot]? = some entry ->
      Meets (direntReadNolock dir slot) kernel
        ⟨fun read _ => read.ino = entry.1 /\ read.string = entry.2, fun _ _ => False, fun _ => False⟩ /\
      Meets (direntSearchNolock true dir entry.2) kernel
        ⟨fun found _ => found = (entry.1, slot), fun _ _ => False, fun _ => False⟩) /\
    forall name, name.length <= Sfs.maxFnameLen -> (forall entry, entry ∈ entries -> entry.2 ≠ name) ->
      Meets (direntSearchNolock true dir name) kernel
        ⟨fun _ _ => False, fun error _ => error = .noEnt, fun _ => False⟩

/-- The names are stored whole and the map reaches their slots. -/
def Storable (entries : List (Nat × List UInt8)) : Prop :=
  (forall entry, entry ∈ entries -> entry.2.length <= storedName) /\ entries.length <= ndirect + blkNentry

/-- What the kernel decodes of a directory whose entries are stored whole. -/
structure Decoded (kernel : Sfs.SfsFs) (din : DiskInode) (entries : List (Nat × List UInt8)) : Prop where
  type : din.type = typeDir
  blocks : din.blocks = entries.length
  slots : nslots din = entries.length
  entry : forall slot entry, entries[slot]? = some entry ->
    kernel.Mapped din slot /\ (kernel.direntOf din slot).ino = entry.1 /\ (kernel.direntOf din slot).string = entry.2
  used : forall entry, entry ∈ entries -> entry.1 ≠ 0
  names : (entries.map Prod.snd).Nodup

theorem Decodable.decoded (decodable : Decodable filled dir entries) (storable : Storable entries)
    (mounted : Mounted filled.closed kernel) : Decoded kernel (decodeInode (filled.closed.disk dir)) entries where
  type := decodable.type
  blocks := decodable.blocks
  slots := by
    have whole := storable.2
    have total : ndirect + blkNentry = 1036 := rfl
    unfold nslots
    rw [decodable.blocks, if_pos (by omega)]
  entry := by
    intro slot entry here
    have whole := storable.2
    have low := (List.getElem?_eq_some_iff.mp here).1
    have decoded := decodable.direntOf mounted here (by omega)
    refine ⟨decoded.1, decoded.2.1, decoded.2.2.trans ?_⟩
    exact List.take_of_length_le (storable.1 entry (List.mem_of_getElem? here))
  used := by
    intro entry member
    rcases decodable.sound.accounted.held_bounds (Accounted.holds_inode (decodable.inodes entry member)) with
      root | bounds
    · rw [root]
      decide
    · have first := bounds.1
      unfold SfsFs.firstIno blknFreemap at first
      omega
  names := decodable.names

namespace Decoded

variable {din : DiskInode}

theorem entry_exists {slot : Nat} (low : slot < entries.length) : Exists fun entry => entries[slot]? = some entry :=
  ⟨entries[slot], List.getElem?_eq_getElem low⟩

/-- A stored name is found at its slot. -/
theorem search_some (decoded : Decoded kernel din entries) {slot : Nat} {entry : Nat × List UInt8}
    (here : entries[slot]? = some entry) :
    searchEntries (kernel.direntOf din) entry.2 entries.length 0 = some (entry.1, slot) := by
  have low := (List.getElem?_eq_some_iff.mp here).1
  have used := decoded.used entry (List.mem_of_getElem? here)
  have at_ := decoded.entry slot entry here
  rw [← at_.2.1] at used ⊢
  apply searchEntries_some (Nat.zero_le _) (by omega) used at_.2.2.symm
  intro other _ high same
  rw [Nat.zero_add] at high
  rcases entry_exists high with ⟨also, alsoHere⟩
  rw [(decoded.entry other also alsoHere).2.2] at same
  have first : (entries.map Prod.snd)[other]? = some also.2 := by rw [List.getElem?_map, alsoHere]; rfl
  have second : (entries.map Prod.snd)[slot]? = some entry.2 := by rw [List.getElem?_map, here]; rfl
  apply (List.getElem?_inj (by rwa [List.length_map]) decoded.names).mp
  rw [first, second, same]

/-- A name that is not stored is not found. -/
theorem search_none (decoded : Decoded kernel din entries) {name : List UInt8}
    (absent : forall entry, entry ∈ entries -> entry.2 ≠ name) :
    searchEntries (kernel.direntOf din) name entries.length 0 = none := by
  apply searchEntries_none
  intro slot _ high _ same
  rw [Nat.zero_add] at high
  rcases entry_exists high with ⟨entry, here⟩
  rw [(decoded.entry slot entry here).2.2] at same
  exact absent entry (List.mem_of_getElem? here) same.symm

end Decoded

/-- The search of a directory that is decoded is the search of its entries. -/
theorem direntSearch_decoded {files : List Nat} {name : List UInt8} (owned : kernel.Owned files)
    (loaded : dir ∈ kernel.inodeList) (decoded : Decoded kernel (kernel.inode dir).din entries) (works : kernel.Works)
    (short : name.length <= Sfs.maxFnameLen) :
    Meets (direntSearchNolock true dir name) kernel
      ⟨fun found _ => searchEntries (kernel.direntOf (kernel.inode dir).din) name entries.length 0 = some found,
        fun error _ => error = .noEnt /\
          searchEntries (kernel.direntOf (kernel.inode dir).din) name entries.length 0 = none,
        fun _ => False⟩ := by
  refine (direntSearchNolock_meets owned loaded decoded.type ?_ ?_).mono ?_ ?_ (fun _ stopped => stopped)
  · intro long
    omega
  · intro slot low hole
    rw [decoded.slots] at low
    rcases Decoded.entry_exists low with ⟨entry, here⟩
    exact absurd (decoded.entry slot entry here).1 hole
  · rintro found after ⟨_, result⟩
    rw [decoded.slots] at result
    exact result
  · rintro error after ⟨_, broken | memory | ⟨missing, result⟩⟩
    · exact absurd works broken
    · exact Bool.noConfusion memory
    · rw [decoded.slots] at result
      exact ⟨missing, result⟩

theorem Decodable.reads_back (decodable : Decodable filled dir entries) (storable : Storable entries) :
    DirReadsBack filled.closed dir entries := by
  intro kernel mounted works loaded
  have owned := mounted.owned decodable.sound.accounted
  have decoded := decodable.decoded storable mounted
  rw [← (mounted.loaded dir loaded).2] at decoded
  refine ⟨?_, ?_⟩
  · intro slot entry here
    have low := (List.getElem?_eq_some_iff.mp here).1
    have at_ := decoded.entry slot entry here
    constructor
    · apply direntReadNolock_meets owned loaded
      · intro broken
        rw [decoded.blocks] at broken
        exact absurd ⟨decoded.type, low⟩ broken
      · exact fun hole => absurd at_.1 hole
      · exact fun broken => absurd works broken
      · exact fun _ _ _ _ => at_.2
    · have short := storable.1 entry (List.mem_of_getElem? here)
      have limit : storedName <= Sfs.maxFnameLen := by decide
      have result := decoded.search_some here
      refine (direntSearch_decoded owned loaded decoded works (by omega)).mono ?_ ?_ (fun _ stopped => stopped)
      · intro found _ outcome
        rw [result] at outcome
        exact (Option.some.inj outcome).symm
      · rintro error _ ⟨_, outcome⟩
        rw [result] at outcome
        cases outcome
  · intro name short absent
    have result := decoded.search_none absent
    refine (direntSearch_decoded owned loaded decoded works short).mono ?_ (fun _ _ missing => missing.1)
      (fun _ stopped => stopped)
    intro found _ outcome
    rw [result] at outcome
    cases outcome

/-- A slot that the map does not reach cannot be read, and a name that is not
stored whole is not read back. -/
theorem Decodable.storable (decodable : Decodable filled dir entries) (mounted : Mounted filled.closed kernel)
    (works : kernel.Works) (loaded : dir ∈ kernel.inodeList)
    (reads : DirReadsBack filled.closed dir entries) : Storable entries := by
  have owned := mounted.owned decodable.sound.accounted
  have din := (mounted.loaded dir loaded).2
  have type := decodable.type
  have blocks := decodable.blocks
  rw [← din] at type blocks
  have total : entries.length <= ndirect + blkNentry := by
    refine Nat.le_of_not_lt fun more => ?_
    have here := List.getElem?_eq_getElem more
    have stops : Meets (direntReadNolock dir (ndirect + blkNentry)) kernel
        ⟨fun _ _ => False, fun _ _ => False, fun _ => True⟩ := by
      apply direntReadNolock_meets owned loaded
      · exact fun _ _ => trivial
      · exact fun _ _ => trivial
      · exact fun broken => absurd works broken
      · exact fun _ mapped => absurd mapped.reached (Nat.lt_irrefl _)
    rcases stops.stopped with ⟨fault, ran, _⟩
    exact ((reads kernel mounted works loaded).1 _ _ here).1.of_stop ran
  refine ⟨?_, total⟩
  intro entry member
  rcases List.mem_iff_getElem?.mp member with ⟨slot, here⟩
  have low := (List.getElem?_eq_some_iff.mp here).1
  have decoded := decodable.direntOf mounted here (by omega)
  rw [← din] at decoded
  have truncated : Meets (direntReadNolock dir slot) kernel
      ⟨fun read _ => read.string = entry.2.take storedName, fun _ _ => True, fun _ => True⟩ := by
    apply direntReadNolock_meets owned loaded
    · exact fun _ _ => trivial
    · exact fun _ _ => trivial
    · exact fun _ _ _ _ => trivial
    · exact fun _ _ _ _ => decoded.2.2
  have whole := ((reads kernel mounted works loaded).1 slot entry here).1
  rcases whole.returned with ⟨read, after, ran, _, string⟩
  have same := string.symm.trans (truncated.of_done ran)
  have length := congrArg List.length same
  rw [List.length_take] at length
  omega

end Directory

/-! ## The round trip -/

section RoundTrip

variable {directory : Subdirectory} {dir parent : Nat} {entries : List (Nat × List UInt8)}

theorem Listed.decodable (listed : Listed filled directory dir parent entries)
    (holds : DirHolds filled dir (listing dir parent entries)) (sound : Sound filled [])
    (member : directory ∈ home.directories) : Decodable filled dir (listing dir parent entries) where
  sound := sound
  listed := listed.dir.1
  holds := holds
  inodes := fun _ => listing_inode listed
  plain := fun _ => listing_plain listed.named
  names := listing_nodup (home.directory_distinct member) listed.named

/-- Every directory of the host has an inode whose entries can be decoded. -/
theorem Filled.decodable (packed : Filled home start filled) (started : blknRoot ∈ start.cacheInodes)
    (root : (start.inode blknRoot).real = 0) (member : directory ∈ home.directories) :
    Exists fun dir => Exists fun parent => Exists fun entries =>
      Listed filled directory dir parent entries /\ Decodable filled dir (listing dir parent entries) := by
  rcases packed.directory started root member with ⟨dir, parent, entries, listed, holds⟩
  exact ⟨dir, parent, entries, listed, listed.decodable holds packed.sound member⟩

theorem storable_listing {sources : List (List UInt8 × Nat)} (named : Named fs entries sources) :
    Storable (listing dir parent entries) <->
      (forall source, source ∈ sources -> source.1.length <= storedName) /\
        sources.length + 2 <= ndirect + blkNentry := by
  have names := named.map_snd
  have length : entries.length = sources.length := by
    have lengths := congrArg List.length names
    rwa [List.length_map, List.length_map] at lengths
  have shorts : (forall name, name ∈ entries.map Prod.snd -> name.length <= storedName) <->
      forall name, name ∈ sources.map Prod.fst -> name.length <= storedName := by rw [names]
  rw [List.forall_mem_map, List.forall_mem_map] at shorts
  have total : (listing dir parent entries).length = sources.length + 2 := by
    rw [← length]
    rfl
  have dots : dot.length <= storedName := by decide
  have both : dotdot.length <= storedName := by decide
  unfold Storable
  rw [← shorts, total]
  refine and_congr_left fun _ => ?_
  constructor
  · exact fun all entry inner => all entry (List.mem_cons_of_mem _ (List.mem_cons_of_mem _ inner))
  · exact fun all => List.forall_mem_cons.mpr ⟨dots, List.forall_mem_cons.mpr ⟨both, all⟩⟩

end RoundTrip

/-- The kernel reads back the directories whose names are stored whole and
whose slots its map reaches, and no others. -/
theorem directories_read_back (home : HostTree) {size : Nat} {disk : Nat -> Bytes} {old : Fin 32 -> UInt8}
    {start fs : SfsFs} (created : createSfs size disk old = some start)
    (made : createImg home.root start = .done () fs) {directory : Subdirectory}
    (member : directory ∈ home.directories) :
    Exists fun dir => Exists fun parent => Exists fun entries => Listed fs directory dir parent entries /\
      (DirReadsBack fs dir (listing dir parent entries) <->
        (forall entry, entry ∈ directory.entries.entries -> entry.1.length <= storedName) /\
          directory.entries.entries.length + 2 <= ndirect + blkNentry) := by
  rcases createImg_finished created made with ⟨filled, packed, rfl⟩
  have empty := createSfs_created home created
  rcases packed.decodable empty.sound.accounted.root empty.real member with ⟨dir, parent, entries, listed, decodable⟩
  refine ⟨dir, parent, entries, ⟨listed.dir, listed.parent, listed.named⟩, ?_⟩
  rw [← storable_listing listed.named]
  constructor
  · intro reads
    rcases exists_loaded packed.sound listed.dir.1 with ⟨kernel, mounted, works, loaded⟩
    exact decodable.storable mounted works loaded reads
  · exact decodable.reads_back

/-- A directory of one file with a short name is read back. -/
theorem shortName_reads_back : Exists fun start => Exists fun fs => Exists fun dir => Exists fun parent =>
    Exists fun entries => createSfs (8192 * 4096) (fun _ _ => 0) (fun _ => 0) = some start /\
      createImg (singleFile 0 []).root start = .done () fs /\
      Listed fs ⟨0, 0, (singleFile 0 []).root⟩ dir parent entries /\
        DirReadsBack fs dir (listing dir parent entries) := by
  rcases largeImage_created with ⟨start, created, nextIno, ninos⟩
  have fits : TreeFits start (singleFile 0 []) := by
    apply singleFile_fits (by decide) (Nat.zero_le _)
    rw [nextIno, ninos]
    decide
  rcases createImg_succeeds created fits with ⟨fs, made⟩
  rcases directories_read_back (singleFile 0 []) created made (List.mem_cons_self ..) with
    ⟨dir, parent, entries, listed, reads⟩
  exact ⟨start, fs, dir, parent, entries, created, made, listed, reads.mpr ⟨by decide, by decide⟩⟩

/-- A name of 253 bytes is not. -/
theorem longName_truncated : Exists fun start => Exists fun fs => Exists fun dir => Exists fun parent =>
    Exists fun entries => createSfs (8192 * 4096) (fun _ _ => 0) (fun _ => 0) = some start /\
      createImg (singleFile 252 []).root start = .done () fs /\
      Listed fs ⟨0, 0, (singleFile 252 []).root⟩ dir parent entries /\
      ¬ DirReadsBack fs dir (listing dir parent entries) := by
  rcases largeImage_created with ⟨start, created, nextIno, ninos⟩
  have fits : TreeFits start (singleFile 252 []) := by
    apply singleFile_fits (by decide) (Nat.zero_le _)
    rw [nextIno, ninos]
    decide
  rcases createImg_succeeds created fits with ⟨fs, made⟩
  rcases createImg_finished created made with ⟨filled, packed, rfl⟩
  have empty := createSfs_created (singleFile 252 []) created
  have member : (⟨0, 0, (singleFile 252 []).root⟩ : Subdirectory) ∈ (singleFile 252 []).directories :=
    List.mem_cons_self ..
  rcases packed.decodable empty.sound.accounted.root empty.real member with ⟨dir, parent, entries, listed, decodable⟩
  refine ⟨start, _, dir, parent, entries, created, made, ⟨listed.dir, listed.parent, listed.named⟩, ?_⟩
  intro reads
  rcases exists_loaded packed.sound listed.dir.1 with ⟨kernel, mounted, works, loaded⟩
  have storable := decodable.storable mounted works loaded reads
  have short := ((storable_listing listed.named).mp storable).1 (97 :: List.replicate 252 97, 5) (List.mem_cons_self ..)
  rw [List.length_cons, List.length_replicate] at short
  exact absurd short (by decide)

end Mksfs
end Ucore
