import Ucore.Console.Printfmt
import Ucore.Library.Paste

namespace Ucore
namespace Console

open Library

/-!
# What is printed

`vprintfmt` never looks at what `putch` has done with a character.  A format
and its arguments therefore have one text, and every `putch` gets the
characters of this text, in their order.  `vsnprintf` keeps as many of them as
its buffer has room for.
-/

section Print

variable {State Other : Type} {putch : Char -> State -> State} {putch' : Char -> Other -> Other}

@[simp] theorem print_nil (putdat : State) : print putch [] putdat = putdat := rfl

@[simp] theorem print_cons (ch : Char) (text : List Char) (putdat : State) :
    print putch (ch :: text) putdat = print putch text (putch ch putdat) := rfl

@[simp] theorem print_append (text more : List Char) : forall putdat : State,
    print putch (text ++ more) putdat = print putch more (print putch text putdat) := by
  induction text with
  | nil => exact fun _ => rfl
  | cons ch text ih => exact fun _ => ih _

theorem vprintfmt_plain (string : Slot -> Option (List Char)) {ch : Char} (plain : ch ≠ '%') (fmt : List Char)
    (ap : List Slot) (putdat : State) :
    vprintfmt putch string (ch :: fmt) ap putdat = vprintfmt putch string fmt ap (putch ch putdat) := by
  rw [vprintfmt, if_neg plain]

/-! ## Two ways to print -/

/-- What a conversion does, seen by another `putch` -/
def Conversion.map (view : State -> Other) : Conversion State -> Conversion Other
  | .done ap putdat => .done ap (view putdat)
  | .unrecognized => .unrecognized

variable {view : State -> Other}

@[simp] theorem Conversion.map_done (ap : List Slot) (putdat : State) :
    (Conversion.done ap putdat).map view = .done ap (view putdat) := rfl

@[simp] theorem Conversion.map_unrecognized : (Conversion.unrecognized).map view = .unrecognized := rfl

section View

variable (same : forall ch putdat, view (putch ch putdat) = putch' ch (view putdat))

include same

theorem print_view (text : List Char) : forall putdat,
    view (print putch text putdat) = print putch' text (view putdat) := by
  induction text with
  | nil => exact fun _ => rfl
  | cons ch text ih =>
      intro putdat
      rw [print_cons, ih, same, print_cons]

theorem printnum_view (num : Nat) (base : Base) (width : Int) (padc : Char) (putdat : State) :
    view (printnum putch num base width padc putdat) = printnum putch' num base width padc (view putdat) := by
  induction num using Nat.strongRecOn generalizing width with
  | ind num ih =>
      conv => lhs; rw [printnum]
      conv => rhs; rw [printnum]
      rw [same]
      congr 1
      split
      · exact print_view same _ _
      · exact ih _ (Nat.div_lt_self (by have := base.two_le; omega) base.two_le) _

theorem signedDecimal_view (escape : Escape) (num : BitVec 64) (ap : List Slot) (putdat : State) :
    (signedDecimal putch escape num ap putdat).map view =
      signedDecimal putch' escape num ap (view putdat) := by
  simp only [signedDecimal, number]
  split
  · rw [← same, ← printnum_view same]
    rfl
  · rw [← printnum_view same]
    rfl

theorem printString_view (altflag : Bool) (p : List Char) : forall (precision width : Int) (putdat : State),
    printString putch' altflag p precision width (view putdat) =
      ((printString putch altflag p precision width putdat).1,
        view (printString putch altflag p precision width putdat).2) := by
  induction p with
  | nil => exact fun _ _ _ => rfl
  | cons ch p ih =>
      intro precision width putdat
      simp only [printString, ← same]
      split
      · exact ih _ _ _
      · split
        · exact ih _ _ _
        · rfl

theorem stringField_view (escape : Escape) (p : List Char) (putdat : State) :
    view (stringField putch escape p putdat) = stringField putch' escape p (view putdat) := by
  simp only [stringField]
  rw [print_view same]
  split
  · dsimp only
    rw [← print_view same _ putdat, printString_view same]
  · dsimp only
    rw [printString_view same]

theorem errorMessage_view (err : Int) (putdat : State) :
    (errorMessage putch err putdat).map view = errorMessage putch' err (view putdat) := by
  simp only [errorMessage]
  by_cases outside : (if err < 0 then toInt (-err) else err) < 0
  · rw [if_pos outside, if_pos outside]
    rfl
  · rw [if_neg outside, if_neg outside]
    split
    · exact congrArg some (stringField_view same _ _ _)
    · rw [Option.map_some, printnum_view same, ← print_view same]

theorem convert_view (string : Slot -> Option (List Char)) (escape : Escape) (ch : Char) (ap : List Slot)
    (putdat : State) :
    (convert putch string escape ch ap putdat).map (Conversion.map view) =
      convert putch' string escape ch ap (view putdat) := by
  unfold convert
  repeat' split
  all_goals simp [Function.comp_def, number, same, printnum_view same, signedDecimal_view same,
    stringField_view same, ← errorMessage_view same]

theorem vprintfmt_view (string : Slot -> Option (List Char)) (fmt : List Char) (ap : List Slot) (putdat : State) :
    (vprintfmt putch string fmt ap putdat).map view = vprintfmt putch' string fmt ap (view putdat) := by
  fun_induction vprintfmt putch string fmt ap putdat with
  | case1 ap putdat => rw [vprintfmt, Option.map_some]
  | case2 ap putdat fmt missing => rw [vprintfmt_escape, missing, Option.map_none]
  | case3 ap putdat fmt escape later rest found ih => rw [vprintfmt_escape, found, ih, same]
  | case4 ap putdat fmt escape conversion later rest found missing =>
      rw [vprintfmt_escape, found]
      dsimp only
      rw [← convert_view same, missing]
      rfl
  | case5 ap putdat fmt escape conversion taken rest found later printed converted ih =>
      rw [vprintfmt_escape, found]
      dsimp only
      rw [← convert_view same, converted]
      exact ih
  | case6 ap putdat fmt escape conversion later rest found converted ih =>
      rw [vprintfmt_escape, found, ih, same]
      dsimp only
      rw [← convert_view same, converted]
      rfl
  | case7 ap putdat ch fmt plain ih => rw [vprintfmt_plain _ plain, ih, same]

end View

/-! ## The text of a format -/

/-- A `putch` that keeps what it is given -/
def emit (ch : Char) (text : List Char) : List Char := text ++ [ch]

/-- The characters that `vprintfmt` prints -/
def printed (string : Slot -> Option (List Char)) (fmt : List Char) (ap : List Slot) : Option (List Char) :=
  vprintfmt emit string fmt ap []

/-- Whatever `putch` does, it is given the characters of the text one by one. -/
theorem vprintfmt_eq_print (string : Slot -> Option (List Char)) (fmt : List Char) (ap : List Slot)
    (putdat : State) :
    vprintfmt putch string fmt ap putdat = (printed string fmt ap).map (print putch · putdat) :=
  (@vprintfmt_view _ _ emit putch (print putch · putdat) (fun ch text => print_append text [ch] putdat)
    string fmt ap []).symm

theorem print_emit (text : List Char) : forall more, print emit text more = more ++ text := by
  induction text with
  | nil => exact fun more => (List.append_nil more).symm
  | cons ch text ih =>
      intro more
      rw [print_cons, ih, emit, List.append_assoc, List.singleton_append]

end Print

/-! ## The buffer of `vsnprintf` -/

/-- A buffer in the address space -/
structure Buffer where
  str : Nat
  size : Nat
  not_null : str ≠ 0
  inside : str + size <= 2 ^ 64

/-- The characters of a text that a buffer of `size` bytes has room for, beside
the NUL -/
def kept (text : List Char) (size : Nat) : List Char := text.take (size - 1)

/-- What `vsnprintf` leaves in the buffer: the longest part of the text that
fits, a NUL, and nothing outside. -/
structure Received (buffer : Buffer) (text : List Char) (before after : Nat -> Char) : Prop where
  characters : forall index (inside : index < (kept text buffer.size).length),
    after (buffer.str + index) = (kept text buffer.size)[index]
  terminated : after (buffer.str + (kept text buffer.size).length) = '\x00'
  outside : forall address, address < buffer.str \/ buffer.str + buffer.size <= address ->
    after address = before address

theorem uintptr_of_lt {address : Nat} (inside : address < 2 ^ 64) : uintptr address = address := by
  rw [uintptr]
  omega

/-- `sprintputch` stores what fits and counts everything. -/
theorem print_sprintputch (text : List Char) : forall (memory : Nat -> Char) (buf ebuf count : Nat),
    buf <= ebuf -> ebuf < 2 ^ 64 ->
    print sprintputch text ⟨memory, buf, ebuf, toInt count⟩ =
      ⟨paste buf (min text.length (ebuf - buf)) (fun index => text.getD index ' ') memory,
        buf + min text.length (ebuf - buf), ebuf, toInt (count + text.length : Nat)⟩ := by
  induction text with
  | nil =>
      intro memory buf ebuf count _ _
      simp
  | cons ch text ih =>
      intro memory buf ebuf count room inside
      have counted : toInt (toInt count + 1) = toInt ((count + 1 : Nat) : Int) := by
        simp only [toInt, Int.bmod_add_bmod, Int.natCast_add, Int.natCast_one]
      rw [print_cons, sprintputch]
      dsimp only
      rw [counted, List.length_cons, ← Nat.add_assoc count, Nat.add_right_comm count]
      split
      · next fits =>
          have more : min (text.length + 1) (ebuf - buf) = 1 + min text.length (ebuf - (buf + 1)) := by omega
          rw [← Int.natCast_one, ← Int.natCast_add, uintptr_of_lt (by omega), ih _ _ _ _ (by omega) inside, more,
            ← paste_append, paste_one, Nat.add_assoc buf]
          simp only [Nat.add_comm 1, List.getD_cons_succ, List.getD_cons_zero]
      · next full =>
          have none : ebuf - buf = 0 := by omega
          rw [ih _ _ _ _ room inside, none, Nat.min_zero, Nat.min_zero, paste_zero, paste_zero]

/-- What the buffer holds once the NUL is there -/
def Buffer.filled (buffer : Buffer) (text : List Char) (memory : Nat -> Char) : Nat -> Char :=
  let length := min text.length (buffer.size - 1)
  Function.update (paste buffer.str length (fun index => text.getD index ' ') memory) (buffer.str + length) '\x00'

theorem Buffer.filled_received (buffer : Buffer) (text : List Char) (memory : Nat -> Char)
    (room : buffer.size ≠ 0) : Received buffer text memory (buffer.filled text memory) := by
  have length : (kept text buffer.size).length = min text.length (buffer.size - 1) := by
    rw [kept, List.length_take, Nat.min_comm]
  constructor
  case characters =>
    intro index inside
    have early : index < text.length := by omega
    rw [Buffer.filled, Function.update_of_ne (by omega), paste_inside (by omega) (by omega), Nat.add_sub_cancel_left]
    simp [kept, early]
  case terminated => rw [length, Buffer.filled, Function.update_self]
  case outside =>
    intro address outside
    rw [Buffer.filled, Function.update_of_ne (by omega), paste_outside (by omega)]

theorem Buffer.last (buffer : Buffer) : uintptr (buffer.str + buffer.size - 1) = buffer.str + buffer.size - 1 := by
  have := buffer.not_null
  have := buffer.inside
  rw [← Int.natCast_add, ← Int.natCast_one, ← Int.natCast_sub (by omega), uintptr_of_lt (by omega)]

theorem vsnprintf_of_room (string : Slot -> Option (List Char)) (memory : Nat -> Char) (buffer : Buffer)
    (fmt : List Char) (ap : List Slot) (room : buffer.size ≠ 0) :
    vsnprintf string memory buffer.str buffer.size fmt ap =
      (printed string fmt ap).map fun text => (buffer.filled text memory, toInt text.length) := by
  have := buffer.not_null
  have := buffer.inside
  have start : (0 : Int) = toInt (0 : Nat) := rfl
  have length : buffer.str + buffer.size - 1 - buffer.str = buffer.size - 1 := by omega
  rw [vsnprintf, buffer.last]
  dsimp only
  rw [if_neg (by omega), vprintfmt_eq_print, Option.map_map]
  congr 1
  funext text
  rw [Function.comp_apply, start, print_sprintputch _ _ _ _ _ (by omega) (by omega), length, Nat.zero_add,
    Buffer.filled]

/-- A buffer of no bytes is refused. -/
theorem vsnprintf_empty (string : Slot -> Option (List Char)) (memory : Nat -> Char) (buffer : Buffer)
    (fmt : List Char) (ap : List Slot) (empty : buffer.size = 0) :
    vsnprintf string memory buffer.str buffer.size fmt ap = some (memory, eInval) := by
  have := buffer.not_null
  rw [vsnprintf, buffer.last]
  dsimp only
  rw [if_pos (.inr (by omega))]

end Console
end Ucore
