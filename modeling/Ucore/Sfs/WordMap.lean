import Mathlib.Data.List.Find
import Ucore.Library.Simulation
import Ucore.Sfs.Formatted

namespace Ucore
namespace Sfs

open Library
open Program

/-!
# The words of the free map

`bitmap.c` keeps a bitmap in words of 32 bits, and hands out its memory to be
read from the disk and written back.  Call by call it is the set of bits that
the rest of the file system counts on.
-/

/-- `struct bitmap` -/
structure WordMap where
  nbits : Nat
  nwords : Nat
  map : Nat -> BitVec 32

namespace WordMap

abbrev Call (Value : Type) := Program WordMap Errno Fault Value

def wordBits : Nat := 32

def mask (offset : Nat) : BitVec 32 := 1#32 <<< offset

def setWord (bitmap : WordMap) (ix : Nat) (word : BitVec 32) : WordMap :=
  { bitmap with map := Function.update bitmap.map ix word }

/-! ## The calls -/

/-- The loop of `bitmap_create` that marks leftover bits -/
def leftoverLoop (ix : Nat) : Nat -> Nat -> WordMap -> WordMap
  | 0, _, bitmap => bitmap
  | count + 1, overbits, bitmap =>
      leftoverLoop ix count (overbits + 1) (bitmap.setWord ix (bitmap.map ix ^^^ mask overbits))

/-- `bitmap_create`, where the two calls of `kmalloc` may fail.  `WORD_BITS` is
a `size_t`, so that the sums and the rounding have 64 bits. -/
def bitmapCreate (first second : Bool) (nbits : Nat) : Except Fault (Option WordMap) :=
  if nbits ≠ 0 /\ nbits < (nbits + wordBits) % 2 ^ 64 then
    if first = true /\ second = true then
      let nwords := roundupDiv nbits wordBits
      let bitmap : WordMap := ⟨nbits, nwords, fun _ => BitVec.allOnes 32⟩
      if nbits ≠ nwords * wordBits then
        let overbits := nbits - (nwords - 1) * wordBits
        if nbits / wordBits = nwords - 1 then
          if 0 < overbits /\ overbits < wordBits then
            .ok (some (leftoverLoop (nwords - 1) (wordBits - overbits) overbits bitmap))
          else .error (.assertion "overbits > 0 && overbits < WORD_BITS")
        else .error (.assertion "nbits / WORD_BITS == ix")
      else .ok (some bitmap)
    else .ok none
  else .error (.assertion "nbits != 0 && nbits + WORD_BITS > nbits")

/-- The inner loop of `bitmap_alloc` -/
def offsetLoop (word : BitVec 32) : Nat -> Nat -> Option Nat
  | 0, _ => none
  | count + 1, offset => if word &&& mask offset ≠ 0 then some offset else offsetLoop word count (offset + 1)

/-- The outer loop of `bitmap_alloc` -/
def wordLoop : Nat -> Nat -> Call Nat
  | 0, _ => throw .noMem
  | count + 1, ix => do
      let bitmap <- get
      if bitmap.map ix ≠ 0 then
        (offsetLoop (bitmap.map ix) wordBits 0).elim (halt (.assertion "0")) (fun offset => do
          modify (fun bitmap => bitmap.setWord ix (bitmap.map ix ^^^ mask offset))
          pure ((ix * wordBits + offset) % 2 ^ 32))
      else wordLoop count (ix + 1)

def bitmapAlloc : Call Nat := do
  let bitmap <- get
  wordLoop bitmap.nwords 0

/-- `bitmap_translate`, with the number of the word and the mask -/
def bitmapTranslate (index : Nat) : Call (Nat × BitVec 32) := do
  let bitmap <- get
  assert (index < bitmap.nbits) (.assertion "index < bitmap->nbits")
  pure (index / wordBits, mask (index % wordBits))

def bitmapTest (index : Nat) : Call Bool := do
  let place <- bitmapTranslate index
  let bitmap <- get
  pure (decide (bitmap.map place.1 &&& place.2 ≠ 0))

def bitmapFree (index : Nat) : Call Unit := do
  let place <- bitmapTranslate index
  let bitmap <- get
  assert (bitmap.map place.1 &&& place.2 = 0) (.assertion "!(*word & mask)")
  modify (fun bitmap => bitmap.setWord place.1 (bitmap.map place.1 ||| place.2))

/-- `bitmap_getdata`, as the bytes in memory -/
def bitmapGetdata (bitmap : WordMap) : List UInt8 :=
  (List.range (4 * bitmap.nwords)).map (fun k => UInt8.ofBitVec ((bitmap.map (k / 4)).extractLsb' (8 * (k % 4)) 8))

/-- Bytes are read into the memory of `bitmap_getdata`. -/
def fill (data : Bytes) (bitmap : WordMap) : WordMap :=
  { bitmap with
    map := fun ix => (data (4 * ix + 3)).toBitVec ++ (data (4 * ix + 2)).toBitVec ++ (data (4 * ix + 1)).toBitVec ++
      (data (4 * ix)).toBitVec }

/-! ## The set of bits -/

/-- A bit of the words -/
def bit (bitmap : WordMap) (index : Nat) : Bool :=
  decide (index < bitmap.nwords * wordBits) && (bitmap.map (index / wordBits)).getLsbD (index % wordBits)

/-- The set that the words stand for -/
def bits (bitmap : WordMap) : Bitmap := ⟨bitmap.nbits, bitmap.bit⟩

/-- There are words for all bits, and the leftover bits are in use. -/
structure Sound (bitmap : WordMap) : Prop where
  words : bitmap.nwords = roundupDiv bitmap.nbits wordBits
  small : bitmap.nbits < 2 ^ 32
  spare : forall index, bitmap.nbits <= index -> bitmap.bit index = false

variable {bitmap : WordMap} {word : BitVec 32} {ix index offset count : Nat}

theorem mask_bit (inside : offset < wordBits) : (mask offset).getLsbD index = decide (offset = index) := by
  have inWord : decide (offset < 32) = true := decide_eq_true inside
  unfold mask
  rw [← BitVec.twoPow_eq, BitVec.getLsbD_twoPow, inWord, Bool.true_and]

/-- A word is tested with a mask. -/
theorem and_mask (inside : offset < wordBits) : word &&& mask offset ≠ 0 <-> word.getLsbD offset = true := by
  have one : BitVec.twoPow 32 offset ≠ 0 := by
    intro zero
    have selected := congrArg (fun bits => bits.getLsbD offset) zero
    have inWord : decide (offset < 32) = true := decide_eq_true inside
    rw [BitVec.getLsbD_twoPow, inWord, decide_eq_true rfl] at selected
    exact absurd selected (by simp)
  unfold mask
  rw [← BitVec.twoPow_eq, BitVec.and_twoPow]
  cases word.getLsbD offset with
  | true => exact iff_of_true one rfl
  | false => exact iff_of_false (fun other => other rfl) (by decide)

theorem offsetLoop_eq (inside : offset + count <= wordBits) :
    offsetLoop word count offset = (List.range' offset count).find? (fun k => word.getLsbD k) := by
  induction count generalizing offset with
  | zero => rfl
  | succ count inductionHypothesis =>
    have tested : word &&& mask offset ≠ 0 <-> word.getLsbD offset = true := and_mask (by omega)
    rw [offsetLoop, List.range'_succ, List.find?_cons, inductionHypothesis (by omega)]
    cases set : word.getLsbD offset with
    | true => exact if_pos (tested.mpr set)
    | false => exact if_neg (fun other => by rw [tested.mp other] at set; cases set)

theorem bit_of_word (inside : ix < bitmap.nwords) (low : offset < wordBits) :
    bitmap.bit (wordBits * ix + offset) = (bitmap.map ix).getLsbD offset := by
  have place : (wordBits * ix + offset) / wordBits = ix := by
    unfold wordBits at *
    omega
  have within : (wordBits * ix + offset) % wordBits = offset := by
    unfold wordBits at *
    omega
  have there : wordBits * ix + offset < bitmap.nwords * wordBits := by
    unfold wordBits at *
    omega
  unfold bit
  rw [place, within, decide_eq_true there, Bool.true_and]

/-- A word is changed in one bit. -/
theorem bit_setWord {value : Bool} (inside : index < bitmap.nwords * wordBits)
    (set : forall offset, offset < wordBits -> word.getLsbD offset =
      if offset = index % wordBits then value else (bitmap.map (index / wordBits)).getLsbD offset) :
    (bitmap.setWord (index / wordBits) word).bit = Function.update bitmap.bit index value := by
  funext other
  unfold bit setWord
  dsimp only
  rcases Decidable.em (other = index) with rfl | different
  · rw [Function.update_self, Function.update_self, decide_eq_true inside, Bool.true_and,
      set _ (Nat.mod_lt _ (by decide)), if_pos rfl]
  · rw [Function.update_of_ne different]
    rcases Decidable.em (other / wordBits = index / wordBits) with same | apart
    · have other_ : other % wordBits ≠ index % wordBits := by
        unfold wordBits at *
        omega
      rw [same, Function.update_self, set _ (Nat.mod_lt _ (by decide)), if_neg other_]
    · rw [Function.update_of_ne apart]

/-! ## What the calls do -/

/-- A bit has been taken. -/
def taken (bitmap : WordMap) (index : Nat) : WordMap :=
  bitmap.setWord (index / wordBits) (bitmap.map (index / wordBits) ^^^ mask (index % wordBits))

/-- The first free bit of a word -/
def firstBit (bitmap : WordMap) (ix : Nat) : Option Nat :=
  ((List.range 32).find? (fun offset => bitmap.bit (32 * ix + offset))).map (fun offset => 32 * ix + offset)

theorem firstBit_eq (inside : ix < bitmap.nwords) :
    bitmap.firstBit ix = (offsetLoop (bitmap.map ix) wordBits 0).map (fun offset => 32 * ix + offset) := by
  unfold firstBit
  rw [offsetLoop_eq (by decide), List.range_eq_range']
  refine congrArg (Option.map _) (List.find?_congr (fun offset member => bit_of_word inside ?_))
  rw [← List.range_eq_range'] at member
  exact List.mem_range.mp member

/-- A word without a free bit is zero. -/
theorem zero_of_offsetLoop (none_ : offsetLoop word wordBits 0 = none) : word = 0 := by
  rw [offsetLoop_eq (by decide), ← List.range_eq_range', List.find?_eq_none] at none_
  refine BitVec.eq_of_getLsbD_eq (fun offset inside => ?_)
  have clear := none_ offset (List.mem_range.mpr inside)
  rw [Bool.not_eq_true] at clear
  rw [clear]
  exact BitVec.getLsbD_zero.symm

theorem offsetLoop_some (found : offsetLoop word wordBits 0 = some offset) : offset < wordBits /\ word ≠ 0 := by
  rw [offsetLoop_eq (by decide), ← List.range_eq_range'] at found
  refine ⟨List.mem_range.mp (List.mem_of_find?_eq_some found), fun zero => ?_⟩
  have set := List.find?_some found
  rw [zero] at set
  exact absurd set (by simp)

/-- The loop takes the first free bit. -/
theorem wordLoop_ends (small : bitmap.nwords * wordBits <= 2 ^ 32) (reached : ix + count = bitmap.nwords) :
    wordLoop count ix bitmap =
      ((List.range' ix count).findSome? bitmap.firstBit).elim (.fail .noMem bitmap)
        (fun index => .done index (bitmap.taken index)) := by
  induction count generalizing ix with
  | zero => rfl
  | succ count inductionHypothesis =>
    have ended : wordLoop (count + 1) ix bitmap =
        (if bitmap.map ix ≠ 0 then
          (offsetLoop (bitmap.map ix) wordBits 0).elim (halt (.assertion "0")) (fun offset => do
            modify (fun bitmap => bitmap.setWord ix (bitmap.map ix ^^^ mask offset))
            pure ((ix * wordBits + offset) % 2 ^ 32))
        else wordLoop count (ix + 1)) bitmap := rfl
    rw [ended, List.range'_succ, List.findSome?_cons, firstBit_eq (by omega)]
    cases found : offsetLoop (bitmap.map ix) wordBits 0 with
    | none =>
      rw [if_neg (fun other => other (zero_of_offsetLoop found))]
      exact inductionHypothesis (by omega)
    | some offset =>
      rcases offsetLoop_some found with ⟨inside, some_⟩
      have place : (32 * ix + offset) / wordBits = ix := by
        unfold wordBits at *
        omega
      have within : (32 * ix + offset) % wordBits = offset := by
        unfold wordBits at *
        omega
      have fits : (ix * wordBits + offset) % 2 ^ 32 = 32 * ix + offset := by
        unfold wordBits at *
        omega
      rw [if_pos some_]
      unfold taken
      change Outcome.done ((ix * wordBits + offset) % 2 ^ 32) _ = Outcome.done (32 * ix + offset) _
      rw [fits, place, within]

theorem bit_lt (set : bitmap.bit index = true) : index < bitmap.nwords * wordBits := by
  unfold bit at set
  exact of_decide_eq_true (Bool.and_eq_true_iff.mp set).1

theorem bit_word (inside : index < bitmap.nwords * wordBits) :
    bitmap.bit index = (bitmap.map (index / wordBits)).getLsbD (index % wordBits) := by
  unfold bit
  rw [decide_eq_true inside, Bool.true_and]

theorem bit_taken (set : bitmap.bit index = true) :
    (bitmap.taken index).bit = Function.update bitmap.bit index false := by
  have inside := bit_lt set
  have here := (bit_word inside).symm.trans set
  refine bit_setWord inside (fun offset low => ?_)
  rw [BitVec.getLsbD_xor, mask_bit (Nat.mod_lt _ (by decide))]
  rcases Decidable.em (offset = index % wordBits) with rfl | other
  · rw [if_pos rfl, here, decide_eq_true rfl, Bool.xor_self]
  · rw [if_neg other, decide_eq_false (fun same => other same.symm), Bool.xor_false]

/-- A bit has been given back. -/
def given (bitmap : WordMap) (index : Nat) : WordMap :=
  bitmap.setWord (index / wordBits) (bitmap.map (index / wordBits) ||| mask (index % wordBits))

theorem bit_given (inside : index < bitmap.nwords * wordBits) :
    (bitmap.given index).bit = Function.update bitmap.bit index true := by
  refine bit_setWord inside (fun offset low => ?_)
  rw [BitVec.getLsbD_or, mask_bit (Nat.mod_lt _ (by decide))]
  rcases Decidable.em (offset = index % wordBits) with rfl | other
  · rw [if_pos rfl, decide_eq_true rfl, Bool.or_true]
  · rw [if_neg other, decide_eq_false (fun same => other same.symm), Bool.or_false]

/-- The bytes of a word, the lowest ones first -/
theorem bit_fill (data : Bytes) (inside : index < bitmap.nwords * wordBits) :
    (bitmap.fill data).bit index = bitOfBytes data index := by
  have low : index % wordBits < 32 := Nat.mod_lt _ (by decide)
  have byte : index / 8 = 4 * (index / wordBits) + index % wordBits / 8 := by
    unfold wordBits
    omega
  have within : index % 8 = index % wordBits % 8 := by
    unfold wordBits
    omega
  rw [(bit_word inside : (bitmap.fill data).bit index = _)]
  unfold bitOfBytes fill
  rw [byte, within]
  generalize index / wordBits = ix
  generalize index % wordBits = offset at *
  show _ = (data (4 * ix + offset / 8)).toBitVec.getLsbD (offset % 8)
  rw [BitVec.getLsbD_append, BitVec.getLsbD_append, BitVec.getLsbD_append]
  split
  · next first =>
    rw [Nat.div_eq_of_lt first, Nat.mod_eq_of_lt first]
    rfl
  · next second =>
    split
    · next third =>
      rw [(by omega : offset / 8 = 1), (by omega : offset % 8 = offset - 8)]
    · next third =>
      split
      · next fourth =>
        rw [(by omega : offset / 8 = 2), (by omega : offset % 8 = offset - 8 - 8)]
      · next fourth =>
        rw [(by omega : offset / 8 = 3), (by omega : offset % 8 = offset - 8 - 8 - 8)]

theorem bitmapGetdata_eq (bitmap : WordMap) :
    bitmap.bitmapGetdata = (List.range (4 * bitmap.nwords)).map (freemapBytes bitmap.bit) := by
  refine List.map_congr_left (fun k member => ?_)
  refine UInt8.eq_of_toBitVec_eq (BitVec.eq_of_getLsbD_eq (fun index inside => ?_))
  have low : k < 4 * bitmap.nwords := List.mem_range.mp member
  have byte := bit_freemapBytes bitmap.bit (8 * k + index)
  have place : (8 * k + index) / wordBits = k / 4 := by
    unfold wordBits
    omega
  have within : (8 * k + index) % wordBits = 8 * (k % 4) + index := by
    unfold wordBits
    omega
  have there : 8 * k + index < bitmap.nwords * wordBits := by
    unfold wordBits
    omega
  unfold bitOfBytes at byte
  rw [(by omega : (8 * k + index) / 8 = k), (by omega : (8 * k + index) % 8 = index), bit_word there, place, within]
    at byte
  show (BitVec.extractLsb' (8 * (k % 4)) 8 (bitmap.map (k / 4))).getLsbD index = _
  rw [BitVec.getLsbD_extractLsb', decide_eq_true inside, Bool.true_and]
  exact byte.symm

/-! ## A new bitmap -/

/-- The loop marks the bits of a word from `overbits` on. -/
theorem leftoverLoop_marks {overbits : Nat} (inside : ix < bitmap.nwords) (low : overbits + count <= wordBits)
    (set : forall offset, overbits <= offset -> offset < overbits + count ->
      bitmap.bit (wordBits * ix + offset) = true) :
    (leftoverLoop ix count overbits bitmap).nbits = bitmap.nbits /\
      (leftoverLoop ix count overbits bitmap).nwords = bitmap.nwords /\
      forall index, (leftoverLoop ix count overbits bitmap).bit index =
        if wordBits * ix + overbits <= index /\ index < wordBits * ix + overbits + count then false
        else bitmap.bit index := by
  induction count generalizing bitmap overbits with
  | zero => exact ⟨rfl, rfl, fun index => (if_neg (by omega)).symm⟩
  | succ count inductionHypothesis =>
    have place : (wordBits * ix + overbits) / wordBits = ix := by
      unfold wordBits at *
      omega
    have within : (wordBits * ix + overbits) % wordBits = overbits := by
      unfold wordBits at *
      omega
    have step : bitmap.setWord ix (bitmap.map ix ^^^ mask overbits) = bitmap.taken (wordBits * ix + overbits) := by
      unfold taken
      rw [place, within]
    have bit := bit_taken (set overbits (Nat.le_refl _) (by omega))
    rw [leftoverLoop, step]
    have rest : forall offset, overbits + 1 <= offset -> offset < overbits + 1 + count ->
        (bitmap.taken (wordBits * ix + overbits)).bit (wordBits * ix + offset) = true := by
      intro offset above below
      rw [bit, Function.update_of_ne (by omega)]
      exact set offset (by omega) (by omega)
    have room : ix < (bitmap.taken (wordBits * ix + overbits)).nwords := inside
    rcases inductionHypothesis room (by omega : overbits + 1 + count <= wordBits) rest with ⟨nbits, nwords, after⟩
    refine ⟨nbits, nwords, fun index => ?_⟩
    rw [after index, bit]
    rcases Decidable.em (index = wordBits * ix + overbits) with rfl | other
    · rw [if_neg (by omega), Function.update_self, if_pos (by omega)]
    · rw [Function.update_of_ne other]
      exact if_congr (by omega) rfl rfl

theorem bit_full {nbits nwords : Nat} (index : Nat) :
    (⟨nbits, nwords, fun _ => BitVec.allOnes 32⟩ : WordMap).bit index = decide (index < nwords * wordBits) := by
  have low : index % wordBits < 32 := Nat.mod_lt _ (by decide)
  unfold bit
  rw [BitVec.getLsbD_allOnes, decide_eq_true low, Bool.and_true]

/-- A new bitmap has the bits that were asked for, and all are free. -/
theorem bitmapCreate_sound {nbits : Nat} (any : 0 < nbits) (small : nbits < 2 ^ 32) :
    Exists fun bitmap : WordMap => bitmapCreate true true nbits = .ok (some bitmap) /\ bitmap.Sound /\
      bitmap.bits = ⟨nbits, fun index => decide (index < nbits)⟩ := by
  have accepted : nbits ≠ 0 /\ nbits < (nbits + wordBits) % 2 ^ 64 := by
    unfold wordBits at *
    omega
  have sound : forall bitmap : WordMap, bitmap.nbits = nbits -> bitmap.nwords = roundupDiv nbits wordBits ->
      (forall index, bitmap.bit index = decide (index < nbits)) ->
      bitmap.Sound /\ bitmap.bits = ⟨nbits, fun index => decide (index < nbits)⟩ := by
    intro bitmap size words bit
    refine ⟨⟨by rw [words, size], by rw [size]; exact small, fun index above => ?_⟩, ?_⟩
    · rw [bit, decide_eq_false (by omega)]
    · unfold bits
      rw [size, funext bit]
  unfold bitmapCreate
  rw [if_pos accepted, if_pos ⟨rfl, rfl⟩]
  dsimp only
  split
  · next leftover =>
    have words : nbits / wordBits = roundupDiv nbits wordBits - 1 := by
      unfold roundupDiv wordBits at *
      omega
    have surplus : 0 < nbits - (roundupDiv nbits wordBits - 1) * wordBits /\
        nbits - (roundupDiv nbits wordBits - 1) * wordBits < wordBits := by
      unfold roundupDiv wordBits at *
      omega
    have last : roundupDiv nbits wordBits - 1 < roundupDiv nbits wordBits := by
      unfold roundupDiv wordBits at *
      omega
    rw [if_pos words, if_pos surplus]
    have set : forall offset, nbits - (roundupDiv nbits wordBits - 1) * wordBits <= offset ->
        offset < nbits - (roundupDiv nbits wordBits - 1) * wordBits +
          (wordBits - (nbits - (roundupDiv nbits wordBits - 1) * wordBits)) ->
        (⟨nbits, roundupDiv nbits wordBits, fun _ => BitVec.allOnes 32⟩ : WordMap).bit
          (wordBits * (roundupDiv nbits wordBits - 1) + offset) = true := by
      intro offset above below
      rw [bit_full]
      refine decide_eq_true ?_
      unfold wordBits at *
      omega
    rcases leftoverLoop_marks last (by omega) set with ⟨size, number, bit⟩
    refine ⟨_, rfl, sound _ size number (fun index => ?_)⟩
    rw [bit index, bit_full]
    split
    · exact (decide_eq_false (by unfold wordBits at *; omega)).symm
    · exact decide_eq_decide.mpr (by unfold wordBits at *; omega)
  · next whole =>
    refine ⟨_, rfl, sound _ rfl rfl (fun index => ?_)⟩
    rw [bit_full, ← Decidable.not_not.mp whole]

end WordMap

/-! ## Runs of calls -/

/-- The calls on a bitmap -/
inductive BitmapCall where
  | alloc
  | test (index : Nat)
  | free (index : Nat)
  | getdata
  | fill (data : Bytes)

inductive BitmapReply where
  | index (number : Nat)
  | value (set : Bool)
  | data (bytes : List UInt8)
  | nothing
deriving DecidableEq

/-- A call on the words -/
def WordMap.perform : BitmapCall -> WordMap.Call BitmapReply
  | .alloc => do
      let index <- WordMap.bitmapAlloc
      pure (.index index)
  | .test index => do
      let set <- WordMap.bitmapTest index
      pure (.value set)
  | .free index => do
      WordMap.bitmapFree index
      pure .nothing
  | .getdata => do
      let bitmap <- get
      pure (.data bitmap.bitmapGetdata)
  | .fill data => do
      modify (WordMap.fill data)
      pure .nothing

/-- The same call on the free map of a volume -/
def SfsFs.perform : BitmapCall -> Kernel BitmapReply
  | .alloc => do
      let index <- bitmapAlloc
      pure (.index index)
  | .test index => do
      let set <- bitmapTest index
      pure (.value set)
  | .free index => do
      bitmapFree index
      pure .nothing
  | .getdata => do
      let fs <- get
      pure (.data ((List.range (4 * roundupDiv fs.freemap.nbits 32)).map (freemapBytes fs.freemap.bit)))
  | .fill data => do
      modify (fun fs => { fs with
        freemap := ⟨fs.freemap.nbits, fun index => decide (index < fs.freemap.nbits) && bitOfBytes data index⟩ })
      pure .nothing

/-- Bytes that are read into a bitmap have no leftover bits.  `bitmap_create` has
set those in use, and a disk might mark them free. -/
def BitmapCall.Fills (nbits : Nat) : BitmapCall -> Prop
  | .fill data => forall index, nbits <= index -> index < roundupDiv nbits 32 * 32 -> bitOfBytes data index = false
  | .alloc => True
  | .test _ => True
  | .free _ => True
  | .getdata => True

/-- The words are the free map of a volume, which is otherwise as it was. -/
structure WordMap.Backs (start : SfsFs) (nbits : Nat) (bitmap : WordMap) (fs : SfsFs) : Prop where
  sound : bitmap.Sound
  size : bitmap.nbits = nbits
  same : fs = { start with freemap := bitmap.bits }

namespace WordMap

variable {start : SfsFs} {nbits : Nat}

theorem Sound.reach {bitmap : WordMap} (sound : bitmap.Sound) :
    bitmap.nbits <= bitmap.nwords * wordBits /\ bitmap.nwords * wordBits <= 2 ^ 32 := by
  have small := sound.small
  rw [sound.words]
  unfold roundupDiv wordBits at *
  omega

theorem Sound.low {bitmap : WordMap} {index : Nat} (sound : bitmap.Sound) (set : bitmap.bit index = true) :
    index < bitmap.nbits := by
  rcases Nat.lt_or_ge index bitmap.nbits with low | above
  · exact low
  · rw [sound.spare index above] at set
    cases set

theorem Sound.and_mask {bitmap : WordMap} {index : Nat} (sound : bitmap.Sound) (low : index < bitmap.nbits) :
    bitmap.map (index / wordBits) &&& mask (index % wordBits) ≠ 0 <-> bitmap.bit index = true := by
  rw [bit_word (Nat.lt_of_lt_of_le low sound.reach.1)]
  exact WordMap.and_mask (Nat.mod_lt _ (by decide))

theorem Backs.update {bitmap after : WordMap} {fs : SfsFs} {index : Nat} {value : Bool}
    (backs : Backs start nbits bitmap fs)
    (low : index < bitmap.nbits) (size : after.nbits = bitmap.nbits) (words : after.nwords = bitmap.nwords)
    (bit : after.bit = Function.update bitmap.bit index value) : Backs start nbits after (fs.setBit index value) := by
  refine ⟨⟨by rw [words, size, backs.sound.words], by rw [size]; exact backs.sound.small, fun other above => ?_⟩,
    size.trans backs.size, ?_⟩
  · rw [bit, Function.update_of_ne (by omega)]
    exact backs.sound.spare other (by omega)
  · rw [backs.same]
    unfold SfsFs.setBit bits
    dsimp only
    rw [bit, size]

theorem simulates_alloc : Simulates (Backs start nbits) bitmapAlloc Sfs.bitmapAlloc := by
  intro bitmap fs backs
  have found : fs.freemap.findBit = (List.range' 0 bitmap.nwords).findSome? bitmap.firstBit := by
    rw [backs.same, backs.sound.words, ← List.range_eq_range']
    rfl
  have ended : bitmapAlloc bitmap = wordLoop bitmap.nwords 0 bitmap := rfl
  rw [ended, wordLoop_ends backs.sound.reach.2 (Nat.zero_add _), ← found]
  have image : Sfs.bitmapAlloc fs = (fs.freemap.findBit).elim (.fail .noMem fs)
      (fun index => .done index (fs.setBit index false)) := by
    unfold Sfs.bitmapAlloc
    rw [bind_done (rfl : (get : Kernel SfsFs) fs = .done fs fs)]
    cases fs.freemap.findBit <;> rfl
  rw [image]
  cases free : fs.freemap.findBit with
  | none => exact .fail backs
  | some index =>
    have set : bitmap.bit index = true := by
      have set := Bitmap.findBit_some free
      rw [backs.same] at set
      exact set
    exact .done (backs.update (backs.sound.low set) rfl rfl (bit_taken set))

theorem simulates_test (index : Nat) : Simulates (Backs start nbits) (bitmapTest index) (Sfs.bitmapTest index) := by
  intro bitmap fs backs
  have size : fs.freemap.nbits = bitmap.nbits := by rw [backs.same]; rfl
  have bit : fs.freemap.bit = bitmap.bit := by rw [backs.same]; rfl
  have set : index < bitmap.nbits ->
      decide (bitmap.map (index / wordBits) &&& mask (index % wordBits) ≠ 0) = bitmap.bit index := by
    intro low
    exact Bool.eq_iff_iff.mpr (decide_eq_true_iff.trans (backs.sound.and_mask low))
  refine alike_of_meets ?_
  unfold bitmapTest bitmapTranslate Sfs.bitmapTest
  simp only [meets_bind, meets_get, meets_assert, meets_pure, size, bit]
  exact ⟨fun low => ⟨fun _ => ⟨(set low).symm, backs⟩, fun high => absurd low high⟩,
    fun high => ⟨fun low => absurd low high, fun _ => trivial⟩⟩

theorem simulates_free (index : Nat) : Simulates (Backs start nbits) (bitmapFree index) (Sfs.bitmapFree index) := by
  intro bitmap fs backs
  have size : fs.freemap.nbits = bitmap.nbits := by rw [backs.same]; rfl
  have bit : fs.freemap.bit = bitmap.bit := by rw [backs.same]; rfl
  have clear : index < bitmap.nbits ->
      (bitmap.map (index / wordBits) &&& mask (index % wordBits) = 0 <-> bitmap.bit index = false) := by
    intro low
    rw [← Bool.not_eq_true, ← backs.sound.and_mask low]
    exact Decidable.not_not.symm
  refine alike_of_meets ?_
  unfold bitmapFree bitmapTranslate Sfs.bitmapFree Sfs.bitmapTest
  simp only [meets_bind, meets_get, meets_assert, meets_pure, meets_modify, size, bit]
  refine ⟨fun low => ⟨fun used => ⟨fun _ => ⟨fun _ => ⟨trivial, ?_⟩, fun set => absurd ((clear low).mp used) set⟩,
    fun high => absurd low high⟩, fun set => ⟨fun _ => ⟨fun used => absurd ((clear low).mpr used) set,
    fun _ => trivial⟩, fun high => absurd low high⟩⟩, fun high => ⟨fun low => absurd low high, fun _ => trivial⟩⟩
  exact backs.update low rfl rfl (bit_given (Nat.lt_of_lt_of_le low backs.sound.reach.1))

/-- Call by call the words are the free map. -/
theorem simulates_perform (call : BitmapCall) (fills : call.Fills nbits) :
    Simulates (Backs start nbits) (WordMap.perform call) (SfsFs.perform call) := by
  cases call with
  | alloc => exact simulates_alloc.bind fun _ => simulates_pure _
  | test index => exact (simulates_test index).bind fun _ => simulates_pure _
  | free index => exact (simulates_free index).bind fun _ => simulates_pure _
  | getdata =>
    refine simulates_get fun bitmap fs backs => ?_
    have same : (List.range (4 * roundupDiv fs.freemap.nbits 32)).map (freemapBytes fs.freemap.bit) =
        bitmap.bitmapGetdata := by
      rw [bitmapGetdata_eq, backs.same, backs.sound.words]
      rfl
    rw [same]
    exact simulates_pure _
  | fill data =>
    refine Simulates.bind (simulates_modify fun bitmap fs backs => ?_) fun _ => simulates_pure _
    have words : bitmap.nwords * wordBits = roundupDiv nbits 32 * 32 := by
      rw [backs.sound.words, backs.size]
      rfl
    have bit : (bitmap.fill data).bit = fun index => decide (index < bitmap.nbits) && bitOfBytes data index := by
      funext index
      have size := backs.size
      have reach := backs.sound.reach.1
      rcases Decidable.em (index < bitmap.nwords * wordBits) with inside | outside
      · rw [bit_fill data inside]
        rcases Decidable.em (index < bitmap.nbits) with low | high
        · rw [decide_eq_true low, Bool.true_and]
        · rw [decide_eq_false high, Bool.false_and]
          exact fills index (by omega) (by omega)
      · have absent : (bitmap.fill data).bit index = false := by
          unfold bit
          exact (congrArg (· && _) (decide_eq_false outside)).trans (Bool.false_and _)
        rw [absent, decide_eq_false (by omega), Bool.false_and]
    refine ⟨⟨backs.sound.words, backs.sound.small, fun index above => ?_⟩, backs.size, ?_⟩
    · have high : Not (index < bitmap.nbits) := Nat.not_lt.mpr above
      rw [bit]
      exact (congrArg (· && _) (decide_eq_false high)).trans (Bool.false_and _)
    · rw [backs.same]
      unfold bits
      rw [bit]
      rfl

end WordMap

/-- Whatever is called on a new bitmap, and in whatever order, its words and
the free map of a volume give the same answers, stop at the same assertions,
and have the same bits and bytes afterwards. -/
theorem wordMap_keeps_freemap {nbits : Nat} (any : 0 < nbits) (small : nbits < 2 ^ 32)
    (start : SfsFs) (calls : List BitmapCall) (fills : forall call, call ∈ calls -> call.Fills nbits) :
    Exists fun bitmap => WordMap.bitmapCreate true true nbits = .ok (some bitmap) /\
      Alike (WordMap.Backs start nbits) (serve WordMap.perform calls bitmap)
        (serve SfsFs.perform calls { start with freemap := ⟨nbits, fun index => decide (index < nbits)⟩ }) := by
  rcases WordMap.bitmapCreate_sound any small with ⟨bitmap, created, sound, bits⟩
  have backs : WordMap.Backs start nbits bitmap
      { start with freemap := ⟨nbits, fun index => decide (index < nbits)⟩ } :=
    ⟨sound, congrArg Bitmap.nbits bits, by rw [bits]⟩
  exact ⟨bitmap, created,
    Simulates.serve (fun call member => WordMap.simulates_perform call (fills call member)) _ _ backs⟩

/-- Two bits are taken and one is given back; then 40 bits are read in, and a
bit that is free is given back. -/
def fortyBits : List BitmapCall :=
  [.alloc, .alloc, .test 1, .free 0, .alloc, .getdata, .fill (fun k => if k < 5 then 0xF0 else 0), .alloc, .getdata,
    .free 5]

theorem fortyBits_kept :
    Exists fun bitmap => WordMap.bitmapCreate true true 40 = .ok (some bitmap) /\
      Alike (WordMap.Backs (mountedVolume 8 fun _ => none) 40) (serve WordMap.perform fortyBits bitmap)
        (serve SfsFs.perform fortyBits
          { mountedVolume 8 fun _ => none with freemap := ⟨40, fun index => decide (index < 40)⟩ }) := by
  refine wordMap_keeps_freemap (by decide) (by decide) _ fortyBits (fun call member => ?_)
  cases call with
  | fill data =>
    simp only [fortyBits, List.mem_cons, reduceCtorEq, false_or, or_false, List.not_mem_nil,
      BitmapCall.fill.injEq] at member
    intro index above _
    have high : Not (index / 8 < 5) := by omega
    unfold bitOfBytes
    rw [member]
    dsimp only
    rw [if_neg high]
    exact Nat.zero_testBit _
  | alloc => trivial
  | test index => trivial
  | free index => trivial
  | getdata => trivial

end Sfs
end Ucore
