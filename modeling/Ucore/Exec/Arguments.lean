import Ucore.Library.BlockTiling
import Ucore.Exec.UserStack

namespace Ucore
namespace Exec

open Library
open Program
open Vm

/-!
# The argument block

The strings go below the top of the stack, the first one highest, and below
them the array of their addresses, at an address of a multiple of eight, with a
null pointer at its end.  The stack pointer is the address of the array.
-/

variable {M : PmmManager} {File : Type} {d : Nat}

def execMaxArgNum : Nat := 32

def execMaxArgLen : Nat := 4095

/-- What `copy_kargv` accepts: at least one string, and no more or longer ones
than the kernel has room for. -/
structure Arguments (kargv : List (List UInt8)) : Prop where
  filled : 1 <= kargv.length
  few : kargv.length <= execMaxArgNum
  short : forall arg, arg ∈ kargv -> arg.length <= execMaxArgLen
  strings : forall arg, arg ∈ kargv -> 0 ∉ arg

/-! ## Words in memory -/

/-- The eight bytes from the address on are a number. -/
def WordAt (view : Nat -> Option UInt8) (addr value : Nat) : Prop := Exists fun bytes : Nat -> UInt8 =>
  (forall index, index < 8 -> view (addr + index) = some (bytes index)) /\ littleEndian bytes 0 8 = value

/-- The digits of a number, the lowest first -/
theorem littleEndian_digits (value count : Nat) :
    littleEndian (fun index => UInt8.ofNat (value / 256 ^ index)) 0 count = value % 256 ^ count := by
  induction count with
  | zero => exact (Nat.mod_one value).symm
  | succ count inductionHypothesis =>
      have digit : (UInt8.ofNat (value / 256 ^ (0 + count))).toNat = value / 256 ^ count % 256 := by
        rw [Nat.zero_add]
        exact UInt8.toNat_ofNat'
      unfold littleEndian
      rw [inductionHypothesis, digit, Nat.mod_pow_succ, Nat.mul_comm]

/-! ## Where the block lies -/

/-- The address of the array -/
def argvPlace (kargv : List (List UInt8)) : Nat := argvAt (ustackTop - argsSize kargv) kargv.length

/-- The bytes below the top of the stack that the block needs -/
def blockSize (kargv : List (List UInt8)) : Nat := (argsSize kargv + 7) / 8 * 8 + (kargv.length + 1) * 8

/-- The spans of the strings -/
def stringSpans (top : Nat) : List (List UInt8) -> List Span
  | [] => []
  | arg :: rest => ⟨top - (arg.length + 1), arg.length + 1⟩ :: stringSpans (top - (arg.length + 1)) rest

/-- The spans of the array and of the strings -/
def blockSpans (kargv : List (List UInt8)) : List Span :=
  ⟨argvPlace kargv, (kargv.length + 1) * 8⟩ :: stringSpans ustackTop kargv

/-- Every address of the block may be written. -/
def BlockMapped (sys : AddressSpaces M) (d : Nat) (kargv : List (List UInt8)) : Prop :=
  forall addr, argvPlace kargv <= addr -> addr < ustackTop -> Writable sys d addr

/-- The block as a program expects it -/
structure Layout (d : Nat) (kargv : List (List UInt8)) (loader : Loader M File) : Prop where
  strings : List.Forall₂ (StringAt (loader.sys.userByte d)) (pointersFrom ustackTop kargv) kargv
  array : forall i, i < kargv.length ->
    WordAt (loader.sys.userByte d) (loader.tf.a1 + 8 * i) ((pointersFrom ustackTop kargv).getD i 0)
  last : WordAt (loader.sys.userByte d) (loader.tf.a1 + 8 * kargv.length) 0
  count : loader.tf.a0 = kargv.length
  apart : (blockSpans kargv).Pairwise Span.Apart
  mapped : forall span, span ∈ blockSpans kargv -> forall addr, span.start <= addr -> addr < span.start + span.size ->
    stackArea.Holds addr /\ Writable loader.sys d addr
  pointer : loader.tf.sp = loader.tf.a1
  aligned : loader.tf.sp % 8 = 0
  below : forall span, span ∈ blockSpans kargv -> loader.tf.sp <= span.start

section Place

variable {kargv : List (List UInt8)} {top : Nat}

theorem argsSize_le (short : forall arg, arg ∈ kargv -> arg.length <= execMaxArgLen) :
    argsSize kargv <= kargv.length * (execMaxArgLen + 1) := by
  induction kargv with
  | nil => exact Nat.zero_le _
  | cons arg rest inductionHypothesis =>
      have here := short arg (List.mem_cons_self ..)
      have others := inductionHypothesis fun arg member => short arg (List.mem_cons_of_mem _ member)
      unfold argsSize
      rw [List.length_cons, Nat.succ_mul]
      omega

theorem length_le_argsSize (kargv : List (List UInt8)) : kargv.length <= argsSize kargv := by
  induction kargv with
  | nil => exact Nat.le_refl 0
  | cons arg rest inductionHypothesis =>
      unfold argsSize
      rw [List.length_cons]
      omega

theorem length_pointersFrom (top : Nat) (kargv : List (List UInt8)) :
    (pointersFrom top kargv).length = kargv.length := by
  induction kargv generalizing top with
  | nil => rfl
  | cons arg rest inductionHypothesis => exact congrArg (· + 1) (inductionHypothesis _)

theorem stringSpans_inside (room : argsSize kargv <= top) : forall span, span ∈ stringSpans top kargv ->
    top - argsSize kargv <= span.start /\ span.start + span.size <= top := by
  induction kargv generalizing top with
  | nil => exact fun span member => absurd member List.not_mem_nil
  | cons arg rest inductionHypothesis =>
      intro span member
      unfold argsSize at room ⊢
      rcases List.mem_cons.mp member with rfl | later
      · dsimp only
        omega
      · have inside := inductionHypothesis (by omega) span later
        omega

theorem stringSpans_apart (room : argsSize kargv <= top) : (stringSpans top kargv).Pairwise Span.Apart := by
  induction kargv generalizing top with
  | nil => exact .nil
  | cons arg rest inductionHypothesis =>
      unfold argsSize at room
      refine .cons (fun span member => .inr ?_) (inductionHypothesis (by omega))
      exact (stringSpans_inside (by omega) span member).2

namespace Arguments

variable (arguments : Arguments kargv)

include arguments

theorem size : argsSize kargv <= 131072 := by
  have total := argsSize_le arguments.short
  have few := arguments.few
  unfold execMaxArgLen execMaxArgNum at *
  omega

theorem place : argvPlace kargv = ustackTop - blockSize kargv /\ blockSize kargv <= 131344 /\
    argvPlace kargv % 8 = 0 /\ argvPlace kargv + (kargv.length + 1) * 8 <= ustackTop - argsSize kargv /\
      ustackTop - argsSize kargv < argvPlace kargv + (kargv.length + 1) * 8 + 8 := by
  have size := arguments.size
  have few := arguments.few
  have rounded : minus (ustackTop - argsSize kargv) ((ustackTop - argsSize kargv) % 8) =
      ustackTop - argsSize kargv - (ustackTop - argsSize kargv) % 8 := minus_eq (Nat.mod_le _ _)
  unfold argvPlace argvAt blockSize execMaxArgNum at *
  rw [rounded, minus_eq ?_]
  · unfold ustackTop userTop
    omega
  · unfold ustackTop userTop
    omega

end Arguments

end Place

/-! ## Storing the block -/

section Pass

variable {kargv : List (List UInt8)} {loader middle after : Loader M File}

/-- What `passArguments` leaves when it returns: the strings and their array
below the top of the stack, and everything else as it was. -/
structure Passed (d : Nat) (kargv : List (List UInt8)) (before after : Loader M File) : Prop where
  ready : Ready d after
  rest : after = { before with sys := after.sys, tf := after.tf }
  mapping : after.sys.mapping = before.sys.mapping
  frame : forall addr, addr < argvPlace kargv \/ ustackTop <= addr ->
    after.sys.userByte d addr = before.sys.userByte d addr
  layout : Layout d kargv after

/-- Addresses of one word lie in one page. -/
theorem Writable.same_word {sys : AddressSpaces M} {addr other : Nat} (writable : Writable sys d addr)
    (low : addr < userTop) (below : other < userTop) (same : addr / 8 = other / 8) : Writable sys d other := by
  have number : pageNumber other = pageNumber addr := by
    apply (AddressSpaces.pageNumber_eq_iff below low).mpr
    unfold pgSize
    omega
  unfold Writable at *
  rw [number]
  exact writable

/-- The strings, the array and the words between them make up the block. -/
theorem Arguments.blockMapped (arguments : Arguments kargv)
    (strings : forall addr, ustackTop - argsSize kargv <= addr -> addr < ustackTop -> Writable loader.sys d addr)
    (array : forall index, index < (kargv.length + 1) * 8 -> Writable loader.sys d (argvPlace kargv + index)) :
    BlockMapped loader.sys d kargv := by
  have place := arguments.place
  have positive := length_le_argsSize kargv
  have filled := arguments.filled
  intro addr low high
  by_cases first : addr < argvPlace kargv + (kargv.length + 1) * 8
  · have writable := array (addr - argvPlace kargv) (by omega)
    rwa [Nat.add_sub_cancel' low] at writable
  · by_cases gap : addr < ustackTop - argsSize kargv
    · have size := arguments.size
      refine (strings (ustackTop - argsSize kargv) (Nat.le_refl _) ?_).same_word ?_ ?_ ?_
      all_goals
        unfold ustackTop userTop at *
        omega
    · exact strings addr (Nat.not_lt.mp gap) high

/-- The array holds the addresses and a null pointer. -/
theorem pointers_wordAt {view : Nat -> Option UInt8} {place : Nat} {uargv : List Nat} {argc i : Nat}
    (inside : i <= argc)
    (word : uargv.getD i 0 < 2 ^ 64)
    (stored : forall index, index < (argc + 1) * 8 -> view (place + index) = some (pointerBytes uargv index)) :
    WordAt view (place + 8 * i) (uargv.getD i 0) := by
  refine ⟨fun index => UInt8.ofNat (uargv.getD i 0 / 256 ^ index), fun index below => ?_, ?_⟩
  · rw [Nat.add_assoc, stored _ (by omega)]
    unfold pointerBytes
    rw [show (8 * i + index) / 8 = i by omega, show (8 * i + index) % 8 = index by omega]
  · rw [littleEndian_digits]
    exact Nat.mod_eq_of_lt word

theorem pointersFrom_inside {top : Nat} (room : argsSize kargv <= top) :
    List.Forall₂ (fun pointer arg => top - argsSize kargv <= pointer /\ pointer + arg.length < top)
      (pointersFrom top kargv) kargv := by
  induction kargv generalizing top with
  | nil => exact .nil
  | cons arg rest inductionHypothesis =>
      unfold argsSize at room ⊢
      refine .cons (by omega) ((inductionHypothesis (by omega)).imp fun pointer other inside => by omega)

theorem pointersFrom_getD_le (top : Nat) (kargv : List (List UInt8)) (i : Nat) :
    (pointersFrom top kargv).getD i 0 <= top := by
  induction kargv generalizing top i with
  | nil => exact Nat.zero_le _
  | cons arg rest inductionHypothesis =>
      cases i with
      | zero => exact Nat.sub_le _ _
      | succ i => exact (inductionHypothesis _ i).trans (Nat.sub_le _ _)

theorem Arguments.passed (arguments : Arguments kargv) (pushed : Pushed d ustackTop kargv loader middle)
    (stores : Stores d (argvPlace kargv) ((kargv.length + 1) * 8) (pointerBytes (pointersFrom ustackTop kargv)) middle
      after)
    (writable : BlockMapped loader.sys d kargv) (tf : Trapframe) (count : tf.a0 = kargv.length)
    (pointer : tf.sp = tf.a1)
    (array : tf.a1 = argvPlace kargv) : Passed d kargv loader { after with tf := tf } := by
  have place := arguments.place
  have size := arguments.size
  have room : argsSize kargv <= ustackTop := by
    unfold ustackTop userTop
    omega
  have strings : List.Forall₂ (StringAt (after.sys.userByte d)) (pointersFrom ustackTop kargv) kargv := by
    refine (pointersFrom_inside room).mp (fun string arg inside held index below => ?_) pushed.strings
    rw [stores.view, paste_outside (by omega)]
    exact held index below
  have stored : forall index, index < (kargv.length + 1) * 8 ->
      after.sys.userByte d (argvPlace kargv + index) = some (pointerBytes (pointersFrom ustackTop kargv) index) := by
    intro index below
    rw [stores.view, paste_inside (Nat.le_add_right _ _) (Nat.add_lt_add_left below _), Nat.add_sub_cancel_left]
  have words : forall i, (pointersFrom ustackTop kargv).getD i 0 < 2 ^ 64 := fun i =>
    Nat.lt_of_le_of_lt (pointersFrom_getD_le ustackTop kargv i) (by decide)
  have null : (pointersFrom ustackTop kargv).getD kargv.length 0 = 0 := by
    rw [List.getD_eq_getElem?_getD, List.getElem?_eq_none (Nat.le_of_eq (length_pointersFrom ustackTop kargv))]
    rfl
  have mapping : after.sys.mapping = loader.sys.mapping := stores.mapping.trans pushed.mapping
  have layout : Layout d kargv { after with tf := tf } :=
    { strings := strings
      array := fun i below => array ▸ pointers_wordAt (Nat.le_of_lt below) (words i) stored
      last := by
        have word := pointers_wordAt (Nat.le_refl kargv.length) (words kargv.length) stored
        rw [null] at word
        exact array ▸ word
      count := count
      apart := .cons (fun span member => .inl (by
        have inside := stringSpans_inside room span member
        dsimp only
        omega)) (stringSpans_apart room)
      mapped := by
        intro span member addr low high
        have inside : argvPlace kargv <= addr /\ addr < ustackTop := by
          rcases List.mem_cons.mp member with rfl | string
          · dsimp only at low high
            omega
          · have inside := stringSpans_inside room span string
            omega
        have allowed := writable addr inside.1 inside.2
        refine ⟨⟨?_, inside.2⟩, ?_⟩
        · unfold stackArea ustackTop ustackSize userTop pgSize at *
          dsimp only at *
          omega
        · unfold Writable at allowed ⊢
          change Exists fun pte => after.sys.mapping (d, pageNumber addr) = some pte /\ _
          rw [mapping]
          exact allowed
      pointer := pointer
      aligned := by
        rw [pointer, array]
        exact place.2.2.1
      below := by
        intro span member
        rw [pointer, array]
        rcases List.mem_cons.mp member with rfl | string
        · exact Nat.le_refl _
        · have inside := stringSpans_inside room span string
          omega }
  refine ⟨⟨stores.ready.steady, stores.ready.satp, stores.ready.stack⟩, ?_, mapping, fun addr outside => ?_, layout⟩
  · rw [stores.rest, pushed.rest]
  · have first := pushed.frame addr (by omega)
    have second := congrFun stores.view addr
    rw [paste_outside (by omega)] at second
    exact second.trans first

/-- The block is stored where its addresses are mapped, and otherwise the
kernel stops at a page of the user. -/
theorem passArguments_meets (arguments : Arguments kargv) (elf : Elfhdr) (ready : Ready d loader) :
    Meets (passArguments d elf kargv) loader
      ⟨fun _ after => BlockMapped loader.sys d kargv /\ Passed d kargv loader after, fun _ _ => False,
        fun fault => ¬ BlockMapped loader.sys d kargv /\ Exists fun addr => fault = .pageFault addr⟩ := by
  have place := arguments.place
  have size := arguments.size
  have room : argsSize kargv <= ustackTop := by
    unfold ustackTop userTop
    omega
  have lower : OnStack (ustackTop - argsSize kargv) ustackTop := by
    unfold OnStack ustackTop ustackSize userTop pgSize
    omega
  unfold passArguments
  rw [meets_bind]
  refine (pushArgs_meets kargv [] ready room lower).mono ?_ (fun _ _ => id) ?_
  case refine_2 =>
    rintro fault ⟨addr, bounds, stops, refused⟩
    exact ⟨fun mapped => refused (mapped addr (by omega) bounds.2), addr, stops⟩
  rintro result middle ⟨rfl, writable, pushed⟩
  have same : forall addr, Writable middle.sys d addr <-> Writable loader.sys d addr := by
    intro addr
    unfold Writable
    rw [pushed.mapping]
  have inside : OnStack (argvPlace kargv) (argvPlace kargv + (kargv.length + 1) * 8) := by
    unfold OnStack ustackTop ustackSize userTop pgSize at *
    omega
  dsimp only
  rw [meets_bind, List.append_nil, List.reverse_reverse]
  refine (copyOrFail_meets pushed.ready inside (by omega) _).mono ?_ (fun _ _ => id) ?_
  case refine_2 =>
    rintro fault ⟨index, below, stops, refused⟩
    refine ⟨fun mapped => refused ((same _).mpr (mapped _ (Nat.le_add_right _ _) ?_)), _, stops⟩
    omega
  rintro _ after ⟨array, stores⟩
  have mapped := arguments.blockMapped writable fun index below => (same _).mp (array index below)
  exact ⟨mapped, arguments.passed pushed stores mapped _ rfl rfl rfl⟩

end Pass

/-! ## The four pages -/

/-- An address of the four pages may be written. -/
theorem Stacked.writable {before after : Loader M File} (stacked : Stacked d 4 before after) {addr : Nat}
    (low : ustackTop - 4 * pgSize <= addr) (high : addr < ustackTop) : Writable after.sys d addr := by
  have few : (ustackTop - 1 - addr) / pgSize < 4 := by
    unfold ustackTop userTop pgSize at *
    omega
  obtain ⟨page, found⟩ := stacked.pages _ few
  have same : pageNumber addr = pageNumber (ustackTop - ((ustackTop - 1 - addr) / pgSize + 1) * pgSize) := by
    apply (AddressSpaces.pageNumber_eq_iff high _).mpr
    all_goals
      unfold ustackTop userTop pgSize at *
      omega
  exact ⟨_, same ▸ found, rfl, rfl⟩

/-- A block that fits in the four pages is mapped. -/
theorem Stacked.fits {before after : Loader M File} (stacked : Stacked d 4 before after) {kargv : List (List UInt8)}
    (arguments : Arguments kargv) (size : blockSize kargv <= 4 * pgSize) : BlockMapped after.sys d kargv := by
  intro addr low high
  have place := arguments.place.1
  exact stacked.writable (by omega) high

/-- Where the next page is not mapped, only such a block is. -/
theorem Arguments.fits_of_mapped {kargv : List (List UInt8)} (arguments : Arguments kargv) {sys : AddressSpaces M}
    (unmapped : sys.mapping (d, pageNumber (ustackTop - 5 * pgSize)) = none) (mapped : BlockMapped sys d kargv) :
    blockSize kargv <= 4 * pgSize := by
  have place := arguments.place.1
  by_contra large
  obtain ⟨pte, found, _⟩ := mapped (ustackTop - 4 * pgSize - 1) (by omega) (by decide)
  have same : pageNumber (ustackTop - 4 * pgSize - 1) = pageNumber (ustackTop - 5 * pgSize) := by decide
  rw [same, unmapped] at found
  cases found

end Exec
end Ucore
