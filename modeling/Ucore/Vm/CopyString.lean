import Ucore.Library.Paste
import Ucore.Library.Program
import Ucore.Vm.UserAreas

namespace Ucore
namespace Vm

open Library
open Program

/-!
# Strings of the user

`copy_string` takes a string from user memory page by page: it checks a part,
looks for the end of the string in it, and copies it.  The parts end at page
boundaries, or with the bytes that are allowed.

The check looks at the areas, and the loads go through the page table, where a
page of an area need not be mapped.  The contents of the frames are a
parameter.  What is read and written is kept in the order in which it happens,
the last access first.
-/

/-- A load of the kernel from a user address: none from a page that is not
mapped or not readable. -/
def PageDirectory.loadUser (pgdir : PageDirectory) (content : Nat -> Nat -> UInt8) (addr : Nat) : Option UInt8 :=
  let pte := pgdir.pte (pageNumber addr)
  if pte.v = true /\ pte.r = true then some (content pte.ppn (addr % pgSize)) else none

inductive Access where
  /-- `user_mem_check` has returned true. -/
  | checked (addr len : Nat)
  | read (addr : Nat)
  | write (place : Nat)
deriving DecidableEq, Repr

/-- The places of `dst` are counted from its start. -/
structure Copying where
  mm : Mm
  dst : Nat -> UInt8
  accesses : List Access

/-- How a call fails to return.  A load that faults is taken up again for ever,
as the trap handler of a load page fault prints and returns. -/
inductive CopyFault where
  | endless
  | pageFault (addr : Nat)
deriving DecidableEq

abbrev Copy (Value : Type) := Program Copying Empty CopyFault Value

namespace Copying

def note (copying : Copying) (access : Access) : Copying := { copying with accesses := access :: copying.accesses }

end Copying

def checkResult (addr len : UInt64) : Option (Bool × Mm) -> Copy Bool
  | none => halt .endless
  | some (true, mm) => do
      modify (fun copying => { copying with mm := mm }.note (.checked addr.toNat len.toNat))
      pure true
  | some (false, mm) => do
      modify (fun copying => { copying with mm := mm })
      pure false

/-- `user_mem_check` for reading -/
def checkUser (addr len : UInt64) : Copy Bool := do
  let copying <- get
  checkResult addr len (userMemCheck (copying.mm.mmapList.length + 1) copying.mm addr len false)

variable (content : Nat -> Nat -> UInt8)

def loaded (addr : Nat) : Option UInt8 -> Copy UInt8
  | none => halt (.pageFault addr)
  | some byte => do
      modify (fun copying => copying.note (.read addr))
      pure byte

/-- A load through the page table of the current process, which `mm` belongs
to -/
def readByte (addr : UInt64) : Copy UInt8 := do
  let copying <- get
  loaded addr.toNat (copying.mm.pgdir.loadUser content addr.toNat)

/-- The loop of `strnlen`, with the bytes that are left and those counted -/
def strnlenLoop (s : UInt64) : Nat -> Nat -> Copy Nat
  | 0, cnt => pure cnt
  | left + 1, cnt => do
      let byte <- readByte content (s + UInt64.ofNat cnt)
      if byte = 0 then pure cnt else strnlenLoop s left (cnt + 1)

def strnlen (s : UInt64) (len : Nat) : Copy Nat := strnlenLoop content s len 0

def copyByte (dst : Nat) (src : UInt64) (index : Nat) : Copy Unit := do
  let byte <- readByte content (src + UInt64.ofNat index)
  modify (fun copying => { copying with dst := Function.update copying.dst (dst + index) byte }.note
    (.write (dst + index)))

def memcpy (dst : Nat) (src : UInt64) (n : Nat) : Copy Unit := forRange (copyByte content dst src) 0 n

/-- One turn of the loop, for a part of at most `maxn` bytes -/
def copyPart (again : Nat -> UInt64 -> UInt64 -> Copy Bool) (dst : Nat) (src maxn part : UInt64) : Copy Bool := do
  let checked <- checkUser src part
  if checked = false then pure false
  else do
    let alen <- strnlen content src part.toNat
    if alen < part.toNat then do
      memcpy content dst src (alen + 1)
      pure true
    else if part = maxn then pure false
    else do
      memcpy content dst src part.toNat
      again (dst + part.toNat) (src + part) (maxn - part)

def copyStringLoop : Nat -> Nat -> UInt64 -> UInt64 -> UInt64 -> Copy Bool
  | 0, _, _, _, _ => halt .endless
  | turns + 1, dst, src, maxn, part =>
      copyPart content (fun dst src maxn => copyStringLoop turns dst src maxn 4096) dst src maxn
        (if part > maxn then maxn else part)

/-- `copy_string`, for an address space that is not `NULL` -/
def copyString (turns : Nat) (src maxn : UInt64) : Copy Bool :=
  copyStringLoop content turns 0 src maxn (UInt64.ofNat (roundDown (src + 4096).toNat pgSize) - src)

/-! ## The accesses -/

/-- The byte was found to be readable. -/
def Checked (accesses : List Access) (addr : Nat) : Prop :=
  Exists fun start => Exists fun len => .checked start len ∈ accesses /\ start <= addr /\ addr < start + len

/-- Each byte that is read was checked before. -/
def Covered : List Access -> Prop
  | [] => True
  | .read addr :: earlier => Checked earlier addr /\ Covered earlier
  | _ :: earlier => Covered earlier

/-- The places that are written, the last one first -/
def writes (accesses : List Access) : List Nat :=
  accesses.filterMap fun access =>
    match access with
    | .write place => some place
    | _ => none

theorem Checked.cons {accesses : List Access} {addr : Nat} (checked : Checked accesses addr) (access : Access) :
    Checked (access :: accesses) addr := by
  rcases checked with ⟨start, len, member, inside⟩
  exact ⟨start, len, List.mem_cons_of_mem _ member, inside⟩

/-- From one state to another, `count` bytes are copied to `dst` in order, and
what is read was checked. -/
structure Copies (before after : Copying) (dst count : Nat) (source : Nat -> UInt8) : Prop where
  areas : after.mm.mmapList = before.mm.mmapList
  pgdir : after.mm.pgdir = before.mm.pgdir
  cached : before.mm.Cached -> after.mm.Cached
  contents : after.dst = paste dst count source before.dst
  order : writes after.accesses = (List.range' dst count).reverse ++ writes before.accesses
  covered : Covered before.accesses -> Covered after.accesses
  checked : forall addr, Checked before.accesses addr -> Checked after.accesses addr

namespace Copies

variable {before middle after : Copying} {dst count more : Nat} {source : Nat -> UInt8}

theorem refl (state : Copying) (dst : Nat) (source : Nat -> UInt8) : Copies state state dst 0 source where
  areas := rfl
  pgdir := rfl
  cached := id
  contents := paste_zero.symm
  order := rfl
  covered := id
  checked := fun _ => id

theorem trans (first : Copies before middle dst count source)
    (second : Copies middle after (dst + count) more (fun index => source (count + index))) :
    Copies before after dst (count + more) source where
  areas := second.areas.trans first.areas
  pgdir := second.pgdir.trans first.pgdir
  cached := second.cached ∘ first.cached
  contents := by rw [second.contents, first.contents, paste_append]
  order := by
    rw [second.order, first.order, ← List.append_assoc, ← List.reverse_append]
    have joined := @List.range'_append dst count more 1
    rw [Nat.one_mul] at joined
    rw [joined]
  covered := second.covered ∘ first.covered
  checked := fun addr => second.checked addr ∘ first.checked addr

theorem thenCopies (first : Copies before middle dst 0 source) (second : Copies middle after dst count source) :
    Copies before after dst count source := by
  have joined :=
    @trans before middle after dst 0 count source first (by simpa only [Nat.add_zero, Nat.zero_add] using second)
  rwa [Nat.zero_add] at joined

/-- A byte is read that was checked. -/
theorem read {addr : Nat} (checked : Checked before.accesses addr) (dst : Nat) (source : Nat -> UInt8) :
    Copies before (before.note (.read addr)) dst 0 source where
  areas := rfl
  pgdir := rfl
  cached := id
  contents := paste_zero.symm
  order := rfl
  covered := fun covered => ⟨checked, covered⟩
  checked := fun _ old => old.cons _

theorem write (state : Copying) (dst : Nat) (source : Nat -> UInt8) :
    Copies state ({ state with dst := Function.update state.dst dst (source 0) }.note (.write dst)) dst 1 source where
  areas := rfl
  pgdir := rfl
  cached := id
  contents := paste_one.symm
  order := rfl
  covered := id
  checked := fun _ old => old.cons _

end Copies

/-! ## The parts -/

/-- The byte is one of the user, in an area that may be read. -/
def Mm.Readable (mm : Mm) (addr : Nat) : Prop :=
  userBase <= addr /\ addr < userTop /\ Exists fun vma => vma ∈ mm.mmapList /\ vma.Holds addr /\ vma.vmFlags.read = true

section Parts

variable (content : Nat -> Nat -> UInt8) (pgdir : PageDirectory) (src : UInt64)

/-- The bytes from an address on, as loads find them -/
def stringByte (index : Nat) : Option UInt8 := pgdir.loadUser content (src + UInt64.ofNat index).toNat

/-- The same, where a load that faults does not matter -/
def bytesFrom (index : Nat) : UInt8 := (stringByte content pgdir src index).getD 0

/-- The byte is mapped, and does not end the string. -/
def Letter (index : Nat) : Prop := Exists fun byte => stringByte content pgdir src index = some byte /\ byte ≠ 0

end Parts

variable {content : Nat -> Nat -> UInt8} {pgdir : PageDirectory} {state : Copying} {dst len : Nat} {src : UInt64}
  {source : Nat -> UInt8} {fail : Empty -> Copying -> Prop} {stop : CopyFault -> Prop}

/-- The addresses of `len` bytes were found to be readable. -/
def CheckedFrom (accesses : List Access) (src : UInt64) (len : Nat) : Prop :=
  forall index, index < len -> Checked accesses (src + UInt64.ofNat index).toNat

theorem readByte_meets {addr : UInt64} (same : state.mm.pgdir = pgdir) (checked : Checked state.accesses addr.toNat)
    (dst : Nat) (source : Nat -> UInt8) :
    Meets (readByte content addr) state
      ⟨fun byte after => pgdir.loadUser content addr.toNat = some byte /\ Copies state after dst 0 source, fail,
        fun fault => fault = .pageFault addr.toNat /\ pgdir.loadUser content addr.toNat = none⟩ := by
  unfold readByte
  rw [meets_bind, meets_get]
  dsimp only
  rw [same]
  cases load : pgdir.loadUser content addr.toNat with
  | none => exact ⟨rfl, rfl⟩
  | some byte => exact ⟨rfl, .read checked dst source⟩

/-- `strnlen` counts the bytes before the first zero.  It stops at a byte that
is not mapped, with no zero before. -/
theorem strnlenLoop_meets {left cnt : Nat} (same : state.mm.pgdir = pgdir)
    (checked : CheckedFrom state.accesses src (cnt + left)) (dst : Nat) (source : Nat -> UInt8) :
    Meets (strnlenLoop content src left cnt) state
      ⟨fun alen after => Copies state after dst 0 source /\ cnt <= alen /\ alen <= cnt + left /\
        (forall index, cnt <= index -> index < alen -> Letter content pgdir src index) /\
        (alen < cnt + left -> stringByte content pgdir src alen = some 0), fail,
        fun fault => Exists fun place => cnt <= place /\ place < cnt + left /\
          (forall index, cnt <= index -> index < place -> Letter content pgdir src index) /\
          stringByte content pgdir src place = none /\ fault = .pageFault (src + UInt64.ofNat place).toNat⟩ := by
  induction left generalizing cnt state with
  | zero =>
      rw [strnlenLoop, meets_pure]
      exact ⟨.refl state dst source, Nat.le_refl _, Nat.le_refl _, fun _ low high => absurd low (Nat.not_le.mpr high),
        fun less => absurd less (Nat.lt_irrefl _)⟩
  | succ left inductionHypothesis =>
      rw [strnlenLoop, meets_bind]
      refine (readByte_meets same (checked cnt (by omega)) dst source).mono ?_ (fun _ _ failed => failed) ?_
      · rintro byte middle ⟨load, copies⟩
        dsimp only
        rw [meets_ite]
        split
        · rename_i zero
          rw [meets_pure]
          exact ⟨copies, Nat.le_refl _, by omega, fun _ low high => absurd low (Nat.not_le.mpr high),
            fun _ => load.trans (congrArg some zero)⟩
        · rename_i nonzero
          have letters {place : Nat}
            (rest : forall index, cnt + 1 <= index -> index < place -> Letter content pgdir src index) :
              forall index, cnt <= index -> index < place -> Letter content pgdir src index := by
            intro index above below
            rcases Nat.lt_or_eq_of_le above with more | here
            · exact rest index more below
            · exact here ▸ ⟨byte, load, nonzero⟩
          have later : CheckedFrom middle.accesses src (cnt + 1 + left) := fun index below =>
            copies.checked _ (checked index (by omega))
          refine (inductionHypothesis (copies.pgdir.trans same) later).mono ?_ (fun _ _ failed => failed) ?_
          · rintro alen after ⟨rest, low, high, before, ends⟩
            exact ⟨copies.thenCopies rest, by omega, by omega, letters before, fun less => ends (by omega)⟩
          · rintro fault ⟨place, low, high, before, unmapped⟩
            exact ⟨place, by omega, by omega, letters before, unmapped⟩
      · rintro fault ⟨rfl, unmapped⟩
        exact ⟨cnt, Nat.le_refl _, by omega, fun _ low high => absurd low (Nat.not_le.mpr high), unmapped, rfl⟩

theorem strnlen_meets (same : state.mm.pgdir = pgdir) (checked : CheckedFrom state.accesses src len) (dst : Nat)
    (source : Nat -> UInt8) :
    Meets (strnlen content src len) state
      ⟨fun alen after => Copies state after dst 0 source /\ alen <= len /\
        (forall index, index < alen -> Letter content pgdir src index) /\
        (alen < len -> stringByte content pgdir src alen = some 0), fail,
        fun fault => Exists fun place => place < len /\
          (forall index, index < place -> Letter content pgdir src index) /\
          stringByte content pgdir src place = none /\ fault = .pageFault (src + UInt64.ofNat place).toNat⟩ := by
  have checkedToo : CheckedFrom state.accesses src (0 + len) := by rwa [Nat.zero_add]
  refine (strnlenLoop_meets same checkedToo dst source).mono ?_ (fun _ _ failed => failed) ?_
  · rintro alen after ⟨copies, _, high, before, ends⟩
    rw [Nat.zero_add] at high ends
    exact ⟨copies, high, fun index below => before index (Nat.zero_le _) below, ends⟩
  · rintro fault ⟨place, _, high, before, unmapped⟩
    rw [Nat.zero_add] at high
    exact ⟨place, high, fun index below => before index (Nat.zero_le _) below, unmapped⟩

/-- `memcpy` copies bytes that have been read before. -/
theorem memcpy_meets (same : state.mm.pgdir = pgdir) (checked : CheckedFrom state.accesses src len)
    (mapped : forall index, index < len -> stringByte content pgdir src index ≠ none) (dst : Nat) :
    Meets (memcpy content dst src len) state
      ⟨fun _ after => Copies state after dst len (bytesFrom content pgdir src), fail, stop⟩ := by
  unfold memcpy
  apply meets_forRange (fun index current => Copies state current dst index (bytesFrom content pgdir src))
  · intro index current _ below copied
    unfold copyByte
    rw [meets_bind]
    refine (readByte_meets (copied.pgdir.trans same) (copied.checked _ (checked index (by omega))) (dst + index)
      (fun next => bytesFrom content pgdir src (index + next))).mono ?_ (fun _ _ failed => failed) ?_
    · rintro byte after ⟨load, read⟩
      have byteHere : byte = bytesFrom content pgdir src (index + 0) := by
        unfold bytesFrom stringByte
        rw [Nat.add_zero, load]
        rfl
      dsimp only
      rw [meets_modify, byteHere]
      have written := Copies.write after (dst + index) (fun next => bytesFrom content pgdir src (index + next))
      exact copied.trans (read.thenCopies written)
    · rintro fault ⟨_, unmapped⟩
      exact absurd unmapped (mapped index (by omega))
  · intro current copied
    rwa [Nat.zero_add] at copied
  · exact .refl state dst _

/-- A word that counts bytes up to the top of user memory -/
theorem toNat_add_index {index : Nat} (bound : src.toNat + index < 2 ^ 64) :
    (src + UInt64.ofNat index).toNat = src.toNat + index := by
  rw [UInt64.toNat_add, UInt64.toNat_ofNat']
  omega

/-- The check returns whether all bytes of the part are readable. -/
theorem checkUser_meets (sorted : SortedAreas state.mm.mmapList) (cached : state.mm.Cached) (part : UInt64) (dst : Nat)
    (source : Nat -> UInt8) :
    Meets (checkUser src part) state
      ⟨fun result after => Copies state after dst 0 source /\
        (result = true <-> 0 < part.toNat /\ forall index, index < part.toNat ->
          state.mm.Readable (src.toNat + index)) /\
        (result = true -> src.toNat + part.toNat <= userTop /\ CheckedFrom after.accesses src part.toNat), fail,
          stop⟩ := by
  have skip : forall mm : Mm, mm.mmapList = state.mm.mmapList -> mm.pgdir = state.mm.pgdir ->
      (state.mm.Cached -> mm.Cached) -> Copies state { state with mm := mm } dst 0 source :=
    fun mm same tables kept => ⟨same, tables, kept, paste_zero.symm, rfl, id, fun _ => id⟩
  unfold checkUser
  rw [meets_bind, meets_get]
  dsimp only
  by_cases positive : 0 < part
  · have some : 0 < part.toNat := UInt64.lt_iff_toNat_lt.mp positive
    obtain ⟨mm, result, ran, exact⟩ := userMemCheck_eq sorted cached src positive false (Nat.lt_succ_self _)
    have areas := userMemCheck_areas ran
    have meaning : result = true <-> 0 < part.toNat /\
        forall index, index < part.toNat -> state.mm.Readable (src.toNat + index) := by
      rw [exact]
      constructor
      · rintro ⟨_, low, high, all⟩
        refine ⟨some, fun index below => ⟨by omega, by omega, ?_⟩⟩
        obtain ⟨vma, member, permits⟩ := all (src.toNat + index) (Nat.le_add_right _ _) (by omega)
        exact ⟨vma, member, permits.1, permits.2.1⟩
      · rintro ⟨_, all⟩
        have first := all 0 some
        have last := all (part.toNat - 1) (by omega)
        unfold Mm.Readable userTop at first last
        refine ⟨by omega, first.1, by unfold userTop; omega, fun byte low high => ?_⟩
        obtain ⟨_, _, vma, member, holds, reads⟩ := all (byte - src.toNat) (by omega)
        rw [Nat.add_sub_cancel' low] at holds
        exact ⟨vma, member, holds, reads, fun guard => Bool.false_ne_true guard.1⟩
    rw [ran]
    cases result with
    | false =>
        unfold checkResult
        rw [meets_bind, meets_modify]
        exact ⟨skip mm areas.2.1 areas.1 areas.2.2, meaning, fun wrong => absurd wrong Bool.false_ne_true⟩
    | true =>
        unfold checkResult
        rw [meets_bind, meets_modify]
        have bound := exact.mp rfl
        refine ⟨⟨areas.2.1, areas.1, areas.2.2, paste_zero.symm, rfl, id, fun _ old => old.cons _⟩, meaning,
          fun _ => ⟨bound.2.2.1, ?_⟩⟩
        intro index below
        rw [toNat_add_index (by omega)]
        exact ⟨src.toNat, part.toNat, List.mem_cons_self .., Nat.le_add_right _ _, Nat.add_lt_add_left below _⟩
  · have none : part = 0 := UInt64.le_zero_iff.mp (UInt64.not_lt.mp positive)
    subst none
    have refused : userMemCheck (state.mm.mmapList.length + 1) state.mm src 0 false = some (false, state.mm) := by
      unfold userMemCheck
      rw [UInt64.add_zero]
      exact if_neg fun access => Nat.lt_irrefl _ access.2.1
    rw [refused]
    unfold checkResult
    rw [meets_bind, meets_modify]
    exact ⟨skip _ rfl rfl id, iff_of_false Bool.false_ne_true fun both => absurd both.1 (by decide),
      fun wrong => absurd wrong Bool.false_ne_true⟩

/-! ## The string -/

def PageAligned (list : List Vma) : Prop := forall vma, vma ∈ list -> vma.vmStart % pgSize = 0 /\ vma.vmEnd % pgSize = 0

/-- The bytes of a page are readable together. -/
theorem readable_page {mm : Mm} (aligned : PageAligned mm.mmapList) {addr other : Nat} (readable : mm.Readable addr)
    (page : addr / pgSize = other / pgSize) : mm.Readable other := by
  rcases readable with ⟨low, high, vma, member, holds, reads⟩
  have ends := aligned vma member
  unfold Vma.Holds userBase userTop pgSize at *
  refine ⟨?_, ?_, vma, member, ?_, reads⟩
  · unfold userBase
    omega
  · unfold userTop
    omega
  · unfold Vma.Holds
    omega

section Strings

variable (content : Nat -> Nat -> UInt8) (mm : Mm) (src : UInt64)

/-- One of the first `maxn` bytes is zero, and it and those before it are
readable. -/
def Terminated (maxn : Nat) : Prop :=
  Exists fun place => place < maxn /\ stringByte content mm.pgdir src place = some 0 /\
    forall index, index <= place -> mm.Readable (src + UInt64.ofNat index).toNat

/-- The bytes end with the first zero. -/
def Ends (count : Nat) : Prop :=
  0 < count /\ stringByte content mm.pgdir src (count - 1) = some 0 /\
    forall index, index + 1 < count -> Letter content mm.pgdir src index

/-- The string is mapped as far as it has to be read.  This shuts out a page
that an area admits, but that has not been mapped: the part of the stack below
its four pages, say. -/
def Backed (maxn : Nat) : Prop :=
  forall place, place < maxn -> (forall index, index <= place -> mm.Readable (src + UInt64.ofNat index).toNat) ->
    (forall index, index < place -> stringByte content mm.pgdir src index ≠ some 0) ->
      stringByte content mm.pgdir src place ≠ none

/-- What `copy_string` should return, and should have copied: no more than
`maxn` bytes, and with an end if it returns true. -/
structure Taken (maxn : Nat) (before after : Copying) (dst : Nat) (result : Bool) : Prop where
  exact : result = true <-> Terminated content mm src maxn
  copies : Exists fun count => count <= maxn /\ Copies before after dst count (bytesFrom content mm.pgdir src) /\
    (result = true -> Ends content mm src count)

end Strings

variable {mm : Mm} {part maxn : UInt64}

theorem Letter.ne_zero {index : Nat} (letter : Letter content pgdir src index) :
    stringByte content pgdir src index ≠ some 0 := by
  rcases letter with ⟨byte, load, nonzero⟩
  rw [load]
  exact fun zero => nonzero (Option.some.inj zero)

theorem Letter.mapped {index : Nat} (letter : Letter content pgdir src index) :
    stringByte content pgdir src index ≠ none := by
  rcases letter with ⟨byte, load, _⟩
  rw [load]
  exact Option.some_ne_none _

theorem stringByte_add (part : UInt64) (index : Nat) :
    stringByte content pgdir (src + part) index = stringByte content pgdir src (part.toNat + index) := by
  unfold stringByte
  rw [UInt64.ofNat_add, UInt64.ofNat_toNat, UInt64.add_assoc]

theorem readable_add (part : UInt64) (index : Nat) :
    mm.Readable (src + part + UInt64.ofNat index).toNat <->
      mm.Readable (src + UInt64.ofNat (part.toNat + index)).toNat := by
  rw [UInt64.ofNat_add, UInt64.ofNat_toNat, UInt64.add_assoc]

/-- A part without a zero does not end the string. -/
theorem terminated_add {maxn : Nat} (letters : forall index, index < part.toNat -> Letter content mm.pgdir src index)
    (readable : forall index, index < part.toNat -> mm.Readable (src + UInt64.ofNat index).toNat) :
    Terminated content mm src (part.toNat + maxn) <-> Terminated content mm (src + part) maxn := by
  constructor
  · rintro ⟨place, below, zero, all⟩
    have later : part.toNat <= place := Nat.le_of_not_lt fun less => (letters place less).ne_zero zero
    refine ⟨place - part.toNat, by omega, ?_, fun index low => ?_⟩
    · rwa [stringByte_add, Nat.add_sub_cancel' later]
    · rw [readable_add]
      exact all _ (by omega)
  · rintro ⟨place, below, zero, all⟩
    rw [stringByte_add] at zero
    refine ⟨part.toNat + place, by omega, zero, fun index low => ?_⟩
    by_cases first : index < part.toNat
    · exact readable index first
    · have rest := all (index - part.toNat) (by omega)
      rwa [readable_add, Nat.add_sub_cancel' (Nat.le_of_not_lt first)] at rest

/-- A part that is mapped leaves the rest of the string to be mapped. -/
theorem backed_add {maxn : Nat} (letters : forall index, index < part.toNat -> Letter content mm.pgdir src index)
    (readable : forall index, index < part.toNat -> mm.Readable (src + UInt64.ofNat index).toNat) :
    Backed content mm src (part.toNat + maxn) <-> Backed content mm (src + part) maxn := by
  constructor
  · intro backed place below all nonzero
    rw [stringByte_add]
    refine backed (part.toNat + place) (by omega) (fun index low => ?_) (fun index less => ?_)
    · by_cases first : index < part.toNat
      · exact readable index first
      · have rest := all (index - part.toNat) (by omega)
        rwa [readable_add, Nat.add_sub_cancel' (Nat.le_of_not_lt first)] at rest
    · by_cases first : index < part.toNat
      · exact (letters index first).ne_zero
      · have rest := nonzero (index - part.toNat) (by omega)
        rwa [stringByte_add, Nat.add_sub_cancel' (Nat.le_of_not_lt first)] at rest
  · intro backed place below all nonzero
    by_cases first : place < part.toNat
    · exact (letters place first).mapped
    · have rest := backed (place - part.toNat) (by omega) (fun index low => by
        rw [readable_add]
        exact all _ (by omega)) (fun index less => by
        rw [stringByte_add]
        exact nonzero _ (by omega))
      rwa [stringByte_add, Nat.add_sub_cancel' (Nat.le_of_not_lt first)] at rest

/-- A page fault is met exactly where the string is not mapped. -/
def copying (content : Nat -> Nat -> UInt8) (mm : Mm) (src : UInt64) (maxn : Nat) (before : Copying) (dst : Nat) :
    Post Copying Empty CopyFault Bool :=
  ⟨fun result after => Taken content mm src maxn before after dst result /\ Backed content mm src maxn,
    fun _ _ => False,
    fun fault => ¬ Backed content mm src maxn /\ Exists fun addr => fault = .pageFault addr⟩

theorem bytesFrom_add (part : UInt64) : bytesFrom content pgdir (src + part) =
    fun index => bytesFrom content pgdir src (part.toNat + index) := by
  funext index
  unfold bytesFrom
  rw [stringByte_add]

/-- An end of the rest is one of the whole. -/
theorem Ends.add {count : Nat} (letters : forall index, index < part.toNat -> Letter content mm.pgdir src index)
    (ended : Ends content mm (src + part) count) : Ends content mm src (part.toNat + count) := by
  unfold Ends Letter at ended
  simp only [stringByte_add] at ended
  refine ⟨Nat.add_pos_right _ ended.1, ?_, fun index below => ?_⟩
  · rw [Nat.add_sub_assoc ended.1]
    exact ended.2.1
  · by_cases first : index < part.toNat
    · exact letters index first
    · have later := ended.2.2 (index - part.toNat) (by omega)
      rwa [Nat.add_sub_cancel' (Nat.le_of_not_lt first)] at later

section Parts

variable {maxn : Nat} {before after : Copying}

/-- Nothing is copied from an address that may not be read. -/
theorem copying_refused (looked : Copies before after dst 0 (bytesFrom content mm.pgdir src))
    (unreadable : 0 < maxn -> ¬ mm.Readable (src + UInt64.ofNat 0).toNat) :
    (copying content mm src maxn before dst).done false after := by
  refine ⟨⟨iff_of_false Bool.false_ne_true ?_, 0, Nat.zero_le _, looked, fun wrong => absurd wrong Bool.false_ne_true⟩,
    fun place below all => absurd (all 0 (Nat.zero_le _)) (unreadable (Nat.zero_lt_of_lt below))⟩
  rintro ⟨place, below, zero, all⟩
  exact unreadable (Nat.zero_lt_of_lt below) (all 0 (Nat.zero_le _))

/-- Without a zero among the first bytes nothing is copied of the last part. -/
theorem copying_long (started : Copies before after dst 0 (bytesFrom content mm.pgdir src))
    (letters : forall index, index < maxn -> Letter content mm.pgdir src index) :
    (copying content mm src maxn before dst).done false after := by
  refine ⟨⟨iff_of_false Bool.false_ne_true ?_, 0, Nat.zero_le _, started, fun wrong => absurd wrong Bool.false_ne_true⟩,
    fun place below _ _ => (letters place below).mapped⟩
  rintro ⟨place, below, zero, _⟩
  exact (letters place below).ne_zero zero

/-- The string ends in this part. -/
theorem copying_ended {alen : Nat} (below : alen < maxn) (zero : stringByte content mm.pgdir src alen = some 0)
    (letters : forall index, index < alen -> Letter content mm.pgdir src index)
    (readable : forall index, index <= alen -> mm.Readable (src + UInt64.ofNat index).toNat)
    (copied : Copies before after dst (alen + 1) (bytesFrom content mm.pgdir src)) :
    (copying content mm src maxn before dst).done true after := by
  refine ⟨⟨iff_of_true rfl ⟨alen, below, zero, readable⟩, alen + 1, below, copied,
    fun _ => ⟨Nat.succ_pos _, zero, fun index less => letters index (Nat.lt_of_succ_lt_succ less)⟩⟩, ?_⟩
  intro place _ _ nonzero
  rcases Nat.lt_trichotomy place alen with less | rfl | past
  · exact (letters place less).mapped
  · rw [zero]
    exact Option.some_ne_none _
  · exact absurd zero (nonzero alen past)

/-- The rest of the string is copied behind this part. -/
theorem copying_rest {third : Copying} {result : Bool}
    (letters : forall index, index < part.toNat -> Letter content mm.pgdir src index)
    (readable : forall index, index < part.toNat -> mm.Readable (src + UInt64.ofNat index).toNat)
    (joined : Copies before third dst part.toNat (bytesFrom content mm.pgdir src))
    (rest : (copying content mm (src + part) maxn third (dst + part.toNat)).done result after) :
    (copying content mm src (part.toNat + maxn) before dst).done result after := by
  rcases rest with ⟨⟨exact, count, fewer, copies, ending⟩, backed⟩
  rw [bytesFrom_add] at copies
  refine ⟨⟨?_, part.toNat + count, Nat.add_le_add_left fewer _, joined.trans copies,
    fun success => (ending success).add letters⟩, (backed_add letters readable).mpr backed⟩
  rw [exact, terminated_add letters readable]

end Parts

/-- A part of one page, and the rest of the string. -/
theorem copyPart_meets (sorted : SortedAreas mm.mmapList) (aligned : PageAligned mm.mmapList)
    (areas : state.mm.mmapList = mm.mmapList) (tables : state.mm.pgdir = mm.pgdir) (cached : state.mm.Cached)
    (within : part.toNat <= pgSize - src.toNat % pgSize) (limit : part.toNat <= maxn.toNat)
    (some : 0 < maxn.toNat -> 0 < part.toNat) {again : Nat -> UInt64 -> UInt64 -> Copy Bool}
    (next : forall middle, middle.mm.mmapList = mm.mmapList -> middle.mm.pgdir = mm.pgdir -> middle.mm.Cached ->
      src.toNat + part.toNat <= userTop -> 0 < part.toNat -> part ≠ maxn ->
        Meets (again (dst + part.toNat) (src + part) (maxn - part)) middle
          (copying content mm (src + part) (maxn - part).toNat middle (dst + part.toNat))) :
    Meets (copyPart content again dst src maxn part) state (copying content mm src maxn.toNat state dst) := by
  have same : forall addr, state.mm.Readable addr <-> mm.Readable addr := fun addr => by
    unfold Mm.Readable
    rw [areas]
  unfold copyPart
  rw [meets_bind]
  refine (checkUser_meets (areas ▸ sorted) cached part dst (bytesFrom content mm.pgdir src)).mono ?_
    (fun _ _ failed => failed) (fun _ stopped => stopped)
  rintro checked first ⟨looked, meaning, found⟩
  simp only [same] at meaning
  dsimp only
  cases checked with
  | false =>
      rw [if_pos rfl, meets_pure]
      refine copying_refused looked fun below start => ?_
      rw [show UInt64.ofNat 0 = 0 from rfl, UInt64.add_zero] at start
      refine Bool.false_ne_true (meaning.mpr ⟨some below, fun index less => readable_page aligned start ?_⟩)
      unfold pgSize at *
      omega
  | true =>
      have bound := (found rfl).1
      have all := (meaning.mp rfl).2
      have readable : forall index, index < part.toNat -> mm.Readable (src + UInt64.ofNat index).toNat :=
        fun index below => by
          rw [toNat_add_index (by unfold userTop at bound; omega)]
          exact all index below
      rw [if_neg (by decide), meets_bind]
      refine (strnlen_meets (looked.pgdir.trans tables) (found rfl).2 dst (bytesFrom content mm.pgdir src)).mono ?_
        (fun _ _ failed => failed) ?_
      · rintro alen second ⟨read, high, before, ends⟩
        have checked : CheckedFrom second.accesses src part.toNat := fun index below =>
          read.checked _ ((found rfl).2 index below)
        have started := looked.thenCopies read
        have tablesToo := started.pgdir.trans tables
        dsimp only
        by_cases short : alen < part.toNat
        · rw [if_pos short, meets_bind]
          have zero := ends short
          have enough : CheckedFrom second.accesses src (alen + 1) := fun index below => checked index (by omega)
          have mapped : forall index, index < alen + 1 -> stringByte content mm.pgdir src index ≠ none := by
            intro index below
            rcases Nat.lt_succ_iff_lt_or_eq.mp below with less | rfl
            · exact (before index less).mapped
            · rw [zero]
              exact Option.some_ne_none _
          refine (memcpy_meets tablesToo enough mapped dst).mono ?_ (fun _ _ failed => failed)
            (fun _ stopped => stopped)
          intro _ after copied
          dsimp only at copied ⊢
          rw [meets_pure]
          exact copying_ended (by omega) zero before (fun index low => readable index (by omega))
            (started.thenCopies copied)
        · have whole : alen = part.toNat := by omega
          subst whole
          rw [if_neg short]
          by_cases last : part = maxn
          · rw [if_pos last, meets_pure]
            subst last
            exact copying_long started before
          · rw [if_neg last, meets_bind]
            refine (memcpy_meets tablesToo checked (fun index below => (before index below).mapped) dst).mono ?_
              (fun _ _ failed => failed) (fun _ stopped => stopped)
            intro _ third copied
            dsimp only at copied ⊢
            have joined := started.thenCopies copied
            have left : maxn.toNat = part.toNat + (maxn - part).toNat := by
              rw [UInt64.toNat_sub_of_le _ _ (UInt64.le_iff_toNat_le.mpr limit)]
              omega
            have rest := next third (joined.areas.trans areas) (joined.pgdir.trans tables) (joined.cached cached) bound
              (meaning.mp rfl).1 last
            rw [left]
            refine rest.mono (fun result after => copying_rest before readable joined) (fun _ _ failed => failed) ?_
            rintro fault ⟨unbacked, faulted⟩
            exact ⟨mt (backed_add before readable).mp unbacked, faulted⟩
      · rintro fault ⟨place, below, before, unmapped, rfl⟩
        refine ⟨fun backed => ?_, _, rfl⟩
        exact backed place (by omega) (fun index low => readable index (by omega))
          (fun index less => (before index less).ne_zero) unmapped

theorem toNat_limited (part maxn : UInt64) :
    (if part > maxn then maxn else part).toNat = min part.toNat maxn.toNat := by
  split
  · rename_i above
    rw [Nat.min_eq_right (UInt64.le_iff_toNat_le.mp (UInt64.le_of_lt above))]
  · rename_i above
    rw [Nat.min_eq_left (UInt64.le_iff_toNat_le.mp (UInt64.not_lt.mp above))]

/-- The parts end at page boundaries, up to the top of user memory. -/
theorem copyStringLoop_meets (sorted : SortedAreas mm.mmapList) (aligned : PageAligned mm.mmapList) (turns : Nat) :
    forall {state : Copying} {dst : Nat} {src maxn part : UInt64}, state.mm.mmapList = mm.mmapList ->
    state.mm.pgdir = mm.pgdir -> state.mm.Cached -> part.toNat = pgSize - src.toNat % pgSize ->
    userTop / pgSize <= src.toNat / pgSize + turns ->
      Meets (copyStringLoop content (turns + 1) dst src maxn part) state
        (copying content mm src maxn.toNat state dst) := by
  induction turns with
  | zero =>
      intro state dst src maxn part areas tables cached whole enough
      have limited := toNat_limited part maxn
      rw [copyStringLoop]
      apply copyPart_meets sorted aligned areas tables cached
      · omega
      · omega
      · unfold pgSize at whole
        omega
      · intro middle _ _ _ bound positive _
        unfold userTop pgSize at *
        omega
  | succ turns inductionHypothesis =>
      intro state dst src maxn part areas tables cached whole enough
      have limited := toNat_limited part maxn
      rw [copyStringLoop]
      apply copyPart_meets sorted aligned areas tables cached
      · omega
      · omega
      · unfold pgSize at whole
        omega
      · intro middle areas tables cached bound positive different
        have more : ¬ part > maxn := fun above => different (if_pos above)
        rw [if_neg more] at bound ⊢
        have onward : (src + part).toNat = src.toNat + part.toNat := by
          rw [UInt64.toNat_add]
          unfold userTop at bound
          omega
        apply inductionHypothesis areas tables cached
        · rw [onward]
          unfold pgSize at *
          change 4096 = _
          omega
        · rw [onward]
          unfold pgSize at *
          omega

theorem firstPart (src : UInt64) :
    (UInt64.ofNat (roundDown (src + 4096).toNat pgSize) - src).toNat = pgSize - src.toNat % pgSize := by
  have words := src.toNat_lt
  rw [UInt64.toNat_sub, UInt64.toNat_ofNat', UInt64.toNat_add]
  unfold roundDown pgSize
  have constant : (4096 : UInt64).toNat = 4096 := rfl
  rw [constant]
  omega

/-- What `copy_string` promises: it ends, and returns whether the string ends
within `maxn` bytes and is readable up to its end.  It then has copied the
string.  It only reads bytes that it has checked, and writes at most `maxn`
bytes, in order. -/
def CopiesString (content : Nat -> Nat -> UInt8) (mm : Mm) (turns : Nat) (src maxn : UInt64) (dst : Nat -> UInt8) :
    Prop :=
  Exists fun result => Exists fun after => copyString content turns src maxn ⟨mm, dst, []⟩ = .done result after /\
    (result = true <-> Terminated content mm src maxn.toNat) /\ Covered after.accesses /\
    Exists fun count => count <= maxn.toNat /\ after.dst = paste 0 count (bytesFrom content mm.pgdir src) dst /\
      writes after.accesses = (List.range count).reverse /\ (result = true -> Ends content mm src count)

/-- `copy_string` keeps its promise exactly if the string is mapped as far as it
is read. -/
theorem copyString_iff_backed (sorted : SortedAreas mm.mmapList) (cached : mm.Cached)
    (aligned : PageAligned mm.mmapList)
    (content : Nat -> Nat -> UInt8) (src maxn : UInt64) (dst : Nat -> UInt8) {turns : Nat}
    (enough : userTop / pgSize < turns) :
    CopiesString content mm turns src maxn dst <-> Backed content mm src maxn.toNat := by
  obtain ⟨left, rfl⟩ := Nat.exists_eq_add_of_lt enough
  have met : Meets (copyString content (userTop / pgSize + left + 1) src maxn) ⟨mm, dst, []⟩
      (copying content mm src maxn.toNat ⟨mm, dst, []⟩ 0) :=
    copyStringLoop_meets sorted aligned (userTop / pgSize + left) rfl rfl cached (firstPart src)
      (Nat.le_trans (Nat.le_add_right _ left) (Nat.le_add_left _ _))
  unfold Meets at met
  unfold CopiesString
  cases ran : copyString content (userTop / pgSize + left + 1) src maxn ⟨mm, dst, []⟩ with
  | done result after =>
      rw [ran] at met
      obtain ⟨⟨exact, count, fewer, copies, ends⟩, backed⟩ := met
      refine iff_of_true ⟨result, after, rfl, exact, copies.covered trivial, count, fewer, copies.contents, ?_, ends⟩
        backed
      rw [copies.order, List.range_eq_range']
      exact List.append_nil _
  | fail error after => exact error.elim
  | stop fault =>
      rw [ran] at met
      exact iff_of_false (by rintro ⟨result, after, ran, _⟩; cases ran) met.1

/-- The page directory of a process of which only the four pages at the top of
the stack are mapped -/
def stackPages : PageDirectory :=
  ⟨some 1, fun first => if first = 1 then
    some ⟨2, fun second => if second = 511 then
      some ⟨3, fun third => if 508 <= third then { ppn := third, v := true, r := true, w := true, u := true } else {}⟩
    else none⟩
  else none⟩

/-- The area of the stack, as `load_icode` maps it -/
def stackMm : Mm :=
  ⟨stackPages, [⟨0x7ff00000, 0x80000000, { read := true, write := true, stack := true }⟩], none⟩

theorem stackMm_sorted : SortedAreas stackMm.mmapList := ⟨List.pairwise_singleton .., by decide⟩

theorem stackMm_aligned : PageAligned stackMm.mmapList := by
  unfold PageAligned
  decide

/-- Frame 510 ends with two letters, and frame 511 begins with a zero. -/
def twoLetters (ppn place : Nat) : UInt8 := if ppn = 511 /\ place = 0 then 0 else 65

/-- A string that goes on in the next page -/
theorem copyString_iff_backed_pages : CopiesString twoLetters stackMm 0x80001 0x7fffeffe 4096 (fun _ => 0) := by
  refine (copyString_iff_backed stackMm_sorted (fun vma cached => nomatch cached) stackMm_aligned twoLetters _ _ _
    (show userTop / pgSize < 0x80001 by decide)).mpr ?_
  intro place _ _ nonzero
  have early : place < 3 := by
    by_contra late
    exact nonzero 2 (by omega) (by decide)
  have places : place = 0 \/ place = 1 \/ place = 2 := by omega
  rcases places with rfl | rfl | rfl <;> decide

/-- The page below the four is in the area, so that the check lets the string
pass, and the load of its first byte faults for ever. -/
theorem copyString_faults : SortedAreas stackMm.mmapList /\ stackMm.Cached /\ PageAligned stackMm.mmapList /\
    copyString twoLetters 0x80001 0x7fffb000 4096 ⟨stackMm, fun _ => 0, []⟩ = .stop (.pageFault 0x7fffb000) /\
    ¬ CopiesString twoLetters stackMm 0x80001 0x7fffb000 4096 (fun _ => 0) := by
  have stops : copyString twoLetters 0x80001 0x7fffb000 4096 ⟨stackMm, fun _ => 0, []⟩ =
    .stop (.pageFault 0x7fffb000) := rfl
  refine ⟨stackMm_sorted, (fun vma cached => nomatch cached), stackMm_aligned, stops, ?_⟩
  rintro ⟨result, after, ran, _⟩
  cases stops.symm.trans ran

end Vm
end Ucore
