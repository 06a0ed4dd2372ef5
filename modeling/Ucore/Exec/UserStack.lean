import Ucore.Exec.Segments
import Ucore.Library.Paste

namespace Ucore
namespace Exec

open Library
open Program
open Vm

/-!
# The user stack

The area of the stack has 256 pages, of which the last four are mapped.  The
kernel stores the arguments through the tables of the user.  A store to a page
that is not mapped is a fault of the kernel, although the check of the area has
let it pass.
-/

variable {M : PmmManager} {File : Type} {d : Nat}

/-- The area of the stack -/
def stackArea : Vma := ⟨ustackTop - ustackSize, ustackTop, stackFlags⟩

/-! ## Mapping the stack -/

/-- The highest pages of the stack are mapped.  The area is larger than they are;
below them a page is missing. -/
structure Stacked (d count : Nat) (before after : Loader M File) : Prop where
  steady : Steady d after.sys
  changes : Changes d (ustackTop - count * pgSize) ustackTop before after
  file : after.file = before.file
  contained : Contained before.events -> Contained after.events
  areas : (after.sys.mm d).mmapList.Perm (stackArea :: (before.sys.mm d).mmapList)
  apart : forall other, other ∈ (before.sys.mm d).mmapList -> stackArea.Apart other
  pages : forall i, i < count -> Exists fun page =>
    after.sys.mapping (d, pageNumber (ustackTop - (i + 1) * pgSize)) = some (AddressSpaces.insertedPte page pteUser)

theorem stackPage_stacked {count : Nat} (few : count < 4) {before middle : Loader M File} (text : String)
    (stacked : Stacked d count before middle) :
    Meets (stackPage d (ustackTop - (count + 1) * pgSize) text) middle
      ⟨fun _ after => Stacked d (count + 1) before after, fun _ _ => True, fun fault => fault ≠ .endless⟩ := by
  unfold stackPage
  rw [meets_bind]
  refine (pgdirAllocPage_adds _ pteUser middle stacked.steady).mono ?_ (fun _ _ _ => trivial) (fun _ => id)
  rintro (_ | page) after added
  · exact Fault.noConfusion
  obtain ⟨next, adds, rfl⟩ := added page rfl
  have aligned : (ustackTop - (count + 1) * pgSize) % pgSize = 0 := by
    unfold ustackTop userTop pgSize
    omega
  have top : ustackTop - (count + 1) * pgSize < userTop := by
    unfold ustackTop userTop pgSize
    omega
  have ends : ustackTop - (count + 1) * pgSize + pgSize = ustackTop - count * pgSize := by
    unfold ustackTop userTop pgSize
    omega
  have change := Changes.addsPage adds aligned top
  rw [ends] at change
  refine ⟨stacked.steady.addsPage adds, ?_, stacked.file, stacked.contained, ?_, stacked.apart, fun i below => ?_⟩
  · refine (stacked.changes.mono ?_ (Nat.le_refl _)).trans (change.mono (Nat.le_refl _) (Nat.sub_le _ _))
    omega
  · change (next.mm d).mmapList.Perm _
    rw [(adds.areas d).1]
    exact stacked.areas
  · rcases Nat.lt_succ_iff_lt_or_eq.mp below with old | rfl
    · obtain ⟨frame, found⟩ := stacked.pages i old
      refine ⟨frame, (change.mapping _ ?_ (.inr ?_)).trans found⟩
      · unfold ustackTop userTop pgSize
        omega
      · unfold ustackTop userTop pgSize
        omega
    · exact ⟨page, adds.mapping_here⟩

theorem mapStack_stacked (loader : Loader M File) (steady : Steady d loader.sys) :
    Meets (mapStack d) loader
      ⟨fun _ after => Stacked d 4 loader after, fun _ _ => True, fun fault => fault ≠ .endless⟩ := by
  have first : firstPage (UInt64.ofNat (ustackTop - ustackSize)) = ustackTop - ustackSize := by decide
  have last : Vm.roundUp (UInt64.ofNat (ustackTop - ustackSize) + UInt64.ofNat ustackSize) 4096 = ustackTop := by decide
  unfold mapStack
  rw [meets_bind]
  refine (mmMap_maps _ _ stackFlags loader steady).mono ?_ (fun _ _ _ => trivial) (fun _ => id)
  intro _ base maps
  have areas := maps.areas
  have apart := maps.apart
  rw [first, last] at areas apart
  have none_yet : Stacked d 0 loader base :=
    ⟨maps.steady, .of_eq maps.mapping (congrArg Frames.content maps.frames) maps.events, maps.file,
      fun contained => maps.events ▸ contained,
      areas, apart, fun i below => absurd below (Nat.not_lt_zero i)⟩
  dsimp only
  rw [meets_bind]
  refine (stackPage_stacked (by decide) _ none_yet).mono ?_ (fun _ _ _ => trivial) (fun _ => id)
  intro _ one mapped
  dsimp only
  rw [meets_bind]
  refine (stackPage_stacked (by decide) _ mapped).mono ?_ (fun _ _ _ => trivial) (fun _ => id)
  intro _ two mapped
  dsimp only
  rw [meets_bind]
  refine (stackPage_stacked (by decide) _ mapped).mono ?_ (fun _ _ _ => trivial) (fun _ => id)
  intro _ three mapped
  exact stackPage_stacked (by decide) _ mapped

/-! ## Stores to user addresses -/

/-- The address may be written by the user. -/
def Writable (sys : AddressSpaces M) (d addr : Nat) : Prop := Exists fun pte =>
  sys.mapping (d, pageNumber addr) = some pte /\ pte.w = true /\ pte.u = true

/-- The address space is installed, and has a stack: from here on `load_icode`
stores through `satp`. -/
structure Ready (d : Nat) (loader : Loader M File) : Prop where
  steady : Steady d loader.sys
  satp : loader.satp = some d
  stack : stackArea ∈ (loader.sys.mm d).mmapList

/-- Bytes of the user have been stored, and nothing else of his has changed. -/
structure Stores (d dst len : Nat) (bytes : Nat -> UInt8) (before after : Loader M File) : Prop where
  ready : Ready d after
  rest : after = { before with sys := after.sys }
  mapping : after.sys.mapping = before.sys.mapping
  view : after.sys.userByte d = paste dst len (fun index => some (bytes index)) (before.sys.userByte d)

section Store

variable {loader before middle after : Loader M File} {dst len more : Nat} {bytes : Nat -> UInt8}

theorem Stores.refl (ready : Ready d loader) : Stores d dst 0 bytes loader loader :=
  ⟨ready, rfl, rfl, paste_zero.symm⟩

theorem Stores.congr {other : Nat -> UInt8} (stores : Stores d dst len bytes before after)
    (same : forall index, index < len -> bytes index = other index) : Stores d dst len other before after :=
  { stores with view := stores.view.trans (paste_congr fun index below => congrArg some (same index below)) }

theorem Stores.after_nothing (first : Stores d dst 0 bytes before middle)
    (second : Stores d dst len bytes middle after) :
    Stores d dst len bytes before after where
  ready := second.ready
  rest := by
    rw [second.rest, first.rest]
  mapping := second.mapping.trans first.mapping
  view := by
    rw [second.view, first.view, paste_zero]

theorem Stores.trans (first : Stores d dst len bytes before middle)
    (second : Stores d (dst + len) more (fun index => bytes (len + index)) middle after) :
    Stores d dst (len + more) bytes before after where
  ready := second.ready
  rest := by
    rw [second.rest, first.rest]
  mapping := second.mapping.trans first.mapping
  view := by
    rw [second.view, first.view]
    exact paste_append

theorem Ready.writable_store (ready : Ready d loader) {addr : Nat} (low : addr < userTop) {pte : Pte}
    (found : loader.sys.mapping (d, pageNumber addr) = some pte) (byte : UInt8) :
    Stores d addr 1 (fun _ => byte) loader
      { loader with sys := loader.sys.storePage pte.ppn (addr % pgSize) 1 (fun _ => byte) } where
  ready := ⟨ready.steady.storePage _ _ _, ready.satp, ready.stack⟩
  rest := rfl
  mapping := rfl
  view := by
    have aligned : addr / pgSize * pgSize % pgSize = 0 := Nat.mul_mod_left _ _
    have below : addr / pgSize * pgSize < userTop := Nat.lt_of_le_of_lt (Nat.div_mul_le_self ..) low
    have same : pageNumber (addr / pgSize * pgSize) = pageNumber addr := by
      apply (AddressSpaces.pageNumber_eq_iff below low).mpr
      exact Nat.mul_div_cancel _ (by decide)
    have place : addr / pgSize * pgSize + addr % pgSize = addr := Nat.div_add_mod' addr pgSize
    funext other
    have stored := AddressSpaces.userByte_storePage ready.steady.single (same ▸ found) aligned below
      (show addr % pgSize + 1 <= pgSize from Nat.mod_lt addr (by decide)) (fun _ => byte) other
    rw [place] at stored
    exact stored

theorem storeUser_meets (ready : Ready d loader) {addr : Nat} (low : addr < userTop) (byte : UInt8) :
    Meets (storeUser addr byte) loader
      ⟨fun _ after => Writable loader.sys d addr /\ Stores d addr 1 (fun _ => byte) loader after, fun _ _ => False,
        fun fault => fault = .pageFault addr /\ ¬ Writable loader.sys d addr⟩ := by
  unfold storeUser
  rw [meets_bind, meets_get]
  dsimp only
  rw [ready.satp, Option.bind_some]
  cases found : loader.sys.mapping (d, pageNumber addr) with
  | none =>
      refine ⟨rfl, ?_⟩
      rintro ⟨pte, has, _⟩
      rw [found] at has
      cases has
  | some pte =>
      unfold storeResult
      rw [meets_ite]
      split
      case isTrue allowed => exact ⟨⟨pte, found, allowed⟩, ready.writable_store low found byte⟩
      case isFalse refused =>
        refine ⟨rfl, ?_⟩
        rintro ⟨other, has, allowed⟩
        rw [found] at has
        cases has
        exact refused allowed

/-- A loop of stores ends, or stops at the first address that is not mapped. -/
theorem stores_meets (ready : Ready d loader) (top : dst + len <= userTop) (bytes : Nat -> UInt8) :
    Meets (forRange (fun index => storeUser (dst + index) (bytes index)) 0 len) loader
      ⟨fun _ after => (forall index, index < len -> Writable loader.sys d (dst + index)) /\
        Stores d dst len bytes loader after,
        fun _ _ => False,
        fun fault => Exists fun index => index < len /\ fault = .pageFault (dst + index) /\
          ¬ Writable loader.sys d (dst + index)⟩ := by
  apply meets_forRange (fun i current => (forall index, index < i -> Writable loader.sys d (dst + index)) /\
    Stores d dst i bytes loader current)
  · rintro i current _ below ⟨writable, stores⟩
    rw [Nat.zero_add] at below
    have same : forall addr, Writable current.sys d addr <-> Writable loader.sys d addr := by
      intro addr
      unfold Writable
      rw [stores.mapping]
    refine (storeUser_meets stores.ready (by omega) (bytes i)).mono ?_ (fun _ _ => id) ?_
    · rintro _ after ⟨allowed, stored⟩
      have byte : forall index, index < 1 -> bytes i = bytes (i + index) := by
        intro index one
        rw [Nat.lt_one_iff.mp one, Nat.add_zero]
      refine ⟨fun index before => ?_, stores.trans (stored.congr byte)⟩
      rcases Nat.lt_succ_iff_lt_or_eq.mp before with earlier | rfl
      · exact writable index earlier
      · exact (same _).mp allowed
    · rintro fault ⟨rfl, refused⟩
      exact ⟨i, below, rfl, fun allowed => refused ((same _).mpr allowed)⟩
  · rintro current invariant
    rwa [Nat.zero_add] at invariant
  · exact ⟨fun index below => absurd below (Nat.not_lt_zero index), .refl ready⟩

/-- Addresses of the stack but for its lowest page -/
def OnStack (lo hi : Nat) : Prop := ustackTop - ustackSize + pgSize <= lo /\ hi <= ustackTop

/-- The check of the stack passes. -/
theorem Ready.check (ready : Ready d loader) (inside : OnStack dst (dst + len)) (some : 0 < len) :
    Exists fun mm => userMemCheck ((loader.sys.mm d).mmapList.length + 1) (loader.sys.mm d) (UInt64.ofNat dst)
      (UInt64.ofNat len) true = Option.some (true, mm) := by
  have bounds : dst < 2 ^ 64 /\ len < 2 ^ 64 /\ userBase <= dst /\ dst + len <= userTop := by
    unfold OnStack ustackTop ustackSize userTop userBase pgSize at *
    omega
  have start : (UInt64.ofNat dst).toNat = dst := UInt64.toNat_ofNat_of_lt' bounds.1
  have size : (UInt64.ofNat len).toNat = len := UInt64.toNat_ofNat_of_lt' bounds.2.1
  have positive : 0 < UInt64.ofNat len := UInt64.lt_iff_toNat_lt.mpr (size.symm ▸ some)
  obtain ⟨after, result, ran, same⟩ :=
    userMemCheck_eq ready.steady.sorted ready.steady.cached (UInt64.ofNat dst) positive
    true (Nat.lt_succ_self (loader.sys.mm d).mmapList.length)
  rw [start, size] at same
  have allowed : result = true := by
    refine same.mpr ⟨?_, bounds.2.2.1, bounds.2.2.2, fun byte low high => ⟨stackArea, ready.stack, ?_⟩⟩
    · have top := bounds.2.2.2
      unfold userTop at top
      omega
    · unfold OnStack at inside
      refine ⟨⟨?_, ?_⟩, rfl, fun guard => ?_⟩
      all_goals
        unfold stackArea at *
        dsimp only at *
        omega
  exact ⟨after, allowed ▸ ran⟩

/-- `copy_to_user` on the stack returns true, or stops at an address that is
not mapped. -/
theorem copyToUser_meets (ready : Ready d loader) (inside : OnStack dst (dst + len)) (some : 0 < len)
    (bytes : Nat -> UInt8) :
    Meets (copyToUser d dst len bytes) loader
      ⟨fun copied after => copied = true /\ (forall index, index < len -> Writable loader.sys d (dst + index)) /\
          Stores d dst len bytes loader after,
        fun _ _ => False,
        fun fault => Exists fun index => index < len /\ fault = .pageFault (dst + index) /\
          ¬ Writable loader.sys d (dst + index)⟩ := by
  obtain ⟨mm, ran⟩ := ready.check inside some
  obtain ⟨pgdir, list, cached⟩ := userMemCheck_areas ran
  have here : (Function.update loader.sys.mm d mm) d = mm := Function.update_self ..
  have mapping : (loader.setMm d mm).sys.mapping = loader.sys.mapping := mapping_updateMm pgdir
  have checked : Stores d dst 0 bytes loader (loader.setMm d mm) := by
    refine ⟨⟨ready.steady.setMm pgdir (list ▸ ready.steady.sorted) (cached ready.steady.cached)
      (list ▸ ready.steady.user),
      ready.satp, ?_⟩, rfl, mapping, ?_⟩
    · change stackArea ∈ ((Function.update loader.sys.mm d mm) d).mmapList
      rw [here, list]
      exact ready.stack
    · rw [paste_zero]
      funext addr
      exact AddressSpaces.userByte_congr (by rw [mapping]) (fun _ _ => rfl)
  have same : forall addr, Writable (loader.setMm d mm).sys d addr <-> Writable loader.sys d addr := by
    intro addr
    unfold Writable
    rw [mapping]
  unfold copyToUser
  rw [meets_bind, meets_get]
  dsimp only
  rw [ran]
  unfold copyChecked
  rw [meets_bind, meets_modify]
  dsimp only
  rw [meets_bind]
  have top : dst + len <= userTop := inside.2
  refine (stores_meets checked.ready top bytes).mono ?_ (fun _ _ => id) ?_
  · rintro _ after ⟨writable, stores⟩
    exact ⟨rfl, fun index below => (same _).mp (writable index below), checked.after_nothing stores⟩
  · rintro fault ⟨index, below, stops, refused⟩
    exact ⟨index, below, stops, fun writable => refused ((same _).mpr writable)⟩

theorem copyOrFail_meets (ready : Ready d loader) (inside : OnStack dst (dst + len)) (some : 0 < len)
    (bytes : Nat -> UInt8) :
    Meets (copyOrFail d dst len bytes) loader
      ⟨fun _ after => (forall index, index < len -> Writable loader.sys d (dst + index)) /\
          Stores d dst len bytes loader after,
        fun _ _ => False,
        fun fault => Exists fun index => index < len /\ fault = .pageFault (dst + index) /\
          ¬ Writable loader.sys d (dst + index)⟩ := by
  unfold copyOrFail
  rw [meets_bind]
  refine (copyToUser_meets ready inside some bytes).mono ?_ (fun _ _ => id) (fun _ => id)
  rintro copied after ⟨rfl, stored⟩
  exact stored

end Store

/-! ## The arguments -/

/-- The bytes of the strings, with their ends -/
def argsSize : List (List UInt8) -> Nat
  | [] => 0
  | arg :: rest => arg.length + 1 + argsSize rest

/-- Where the strings go, from `top` down -/
def pointersFrom (top : Nat) : List (List UInt8) -> List Nat
  | [] => []
  | arg :: rest => (top - (arg.length + 1)) :: pointersFrom (top - (arg.length + 1)) rest

/-- A string lies at the address, and ends with a zero byte. -/
def StringAt (view : Nat -> Option UInt8) (pointer : Nat) (arg : List UInt8) : Prop :=
  forall index, index <= arg.length -> view (pointer + index) = some (stringBytes arg index)

/-- The strings have been stored from `top` down, and no byte outside of them
was written. -/
structure Pushed (d top : Nat) (args : List (List UInt8)) (before after : Loader M File) : Prop where
  ready : Ready d after
  rest : after = { before with sys := after.sys }
  mapping : after.sys.mapping = before.sys.mapping
  frame : forall addr, addr < top - argsSize args \/ top <= addr ->
    after.sys.userByte d addr = before.sys.userByte d addr
  strings : List.Forall₂ (StringAt (after.sys.userByte d)) (pointersFrom top args) args

section Push

variable {loader before middle after : Loader M File} {top : Nat}

theorem minus_eq {value less : Nat} (enough : less <= value) : minus value less = value - less := if_pos enough

theorem Pushed.cons {arg : List UInt8} {args : List (List UInt8)} (room : arg.length + 1 <= top)
    (stores : Stores d (top - (arg.length + 1)) (arg.length + 1) (stringBytes arg) before middle)
    (pushed : Pushed d (top - (arg.length + 1)) args middle after) : Pushed d top (arg :: args) before after where
  ready := pushed.ready
  rest := by
    rw [pushed.rest, stores.rest]
  mapping := pushed.mapping.trans stores.mapping
  frame := by
    intro addr outside
    unfold argsSize at outside
    rw [pushed.frame addr (by omega), stores.view, paste_outside (by omega)]
  strings := by
    refine .cons (fun index below => ?_) pushed.strings
    rw [pushed.frame _ (.inr (Nat.le_add_right _ _)), stores.view, paste_inside (Nat.le_add_right _ _) (by omega),
      Nat.add_sub_cancel_left]

theorem pushArgs_meets (args : List (List UInt8)) (uargv : List Nat) (ready : Ready d loader)
    (room : argsSize args <= top) (inside : OnStack (top - argsSize args) top) :
    Meets (pushArgs d args top uargv) loader
      ⟨fun result after => result = (top - argsSize args, (pointersFrom top args).reverse ++ uargv) /\
          (forall addr, top - argsSize args <= addr -> addr < top -> Writable loader.sys d addr) /\
          Pushed d top args loader after,
        fun _ _ => False,
        fun fault => Exists fun addr => (top - argsSize args <= addr /\ addr < top) /\ fault = .pageFault addr /\
          ¬ Writable loader.sys d addr⟩ := by
  induction args generalizing loader top uargv with
  | nil => exact ⟨rfl, fun addr low high => absurd high (Nat.not_lt.mpr low), ready, rfl, rfl, fun _ _ => rfl, .nil⟩
  | cons arg args inductionHypothesis =>
      unfold argsSize at room inside ⊢
      have start : minus top (arg.length + 1) = top - (arg.length + 1) := minus_eq (by omega)
      have ends : top - (arg.length + 1) + (arg.length + 1) = top := by omega
      rw [pushArgs, meets_bind, start]
      have here : OnStack (top - (arg.length + 1)) (top - (arg.length + 1) + (arg.length + 1)) := by
        unfold OnStack at inside ⊢
        omega
      refine (copyOrFail_meets ready here (Nat.succ_pos _) (stringBytes arg)).mono ?_ (fun _ _ => id) ?_
      case refine_2 =>
        rintro fault ⟨index, below, stops, refused⟩
        exact ⟨_, by omega, stops, refused⟩
      rintro _ middle ⟨writable, stores⟩
      have same : forall addr, Writable middle.sys d addr <-> Writable loader.sys d addr := by
        intro addr
        unfold Writable
        rw [stores.mapping]
      have lower : OnStack (top - (arg.length + 1) - argsSize args) (top - (arg.length + 1)) := by
        unfold OnStack at inside ⊢
        omega
      refine (inductionHypothesis _ stores.ready (by omega) lower).mono ?_ (fun _ _ => id) ?_
      · rintro result after ⟨rfl, below, pushed⟩
        refine ⟨?_, fun addr low high => ?_, .cons (by omega) stores pushed⟩
        · rw [pointersFrom, List.reverse_cons, List.append_assoc, Nat.sub_sub]
          rfl
        · by_cases earlier : addr < top - (arg.length + 1)
          · exact (same addr).mp (below addr (by omega) earlier)
          · have allowed := writable (addr - (top - (arg.length + 1))) (by omega)
            rwa [Nat.add_sub_cancel' (by omega)] at allowed
      · rintro fault ⟨addr, bounds, stops, refused⟩
        exact ⟨addr, by omega, stops, fun writable => refused ((same addr).mpr writable)⟩

end Push

end Exec
end Ucore
