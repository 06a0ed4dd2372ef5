import Mathlib.Data.List.Basic
import Mathlib.Algebra.Group.Int.Defs
import Mathlib.Algebra.Group.Nat.Defs

namespace Ucore
namespace Console

/-!
# Formatted output

`vprintfmt` reads a format, takes the arguments that the format names, and
prints one character after another with `putch`.  A C string is given without
its NUL, an argument is a register of 64 bits, and `string` reads the C string
at an address; it is `none` at `NULL`.

What `putch` does, and to what, is left open: nothing that `vprintfmt` decides
depends on it.
-/

/-- An argument of a variadic call -/
abbrev Slot := BitVec 64

/-- An `int` in the lower half of a register -/
def Slot.int (slot : Slot) : Int := (slot.setWidth 32).toInt

/-- The value of an assignment to `int` -/
def toInt (value : Int) : Int := value.bmod (2 ^ 32)

def vaArg : List Slot -> Option (Slot × List Slot)
  | [] => none
  | slot :: ap => some (slot, ap)

section Putch

variable {State : Type} (putch : Char -> State -> State)

/-- One character after another -/
def print : List Char -> State -> State
  | [], putdat => putdat
  | ch :: text, putdat => print text (putch ch putdat)

/-! ## Numbers -/

/-- A base of `printnum` -/
structure Base where
  value : Nat
  two_le : 2 <= value
  le_sixteen : value <= 16

/-- `"0123456789abcdef"` -/
def digitTable : List Char :=
  ['0', '1', '2', '3', '4', '5', '6', '7', '8', '9', 'a', 'b', 'c', 'd', 'e', 'f']

def printnum (num : Nat) (base : Base) (width : Int) (padc : Char) (putdat : State) : State :=
  let result := num / base.value
  let mod := num % base.value
  let putdat :=
    -- `while (-- width > 0)`
    if num < base.value then print putch (List.replicate (width - 1).toNat padc) putdat
    else printnum result base (width - 1) padc putdat
  putch (digitTable.getD mod ' ') putdat
termination_by num
decreasing_by exact Nat.div_lt_self (by have := base.two_le; omega) base.two_le

def getuint (ap : List Slot) (lflag : Nat) : Option (BitVec 64 × List Slot) :=
  if 2 <= lflag then vaArg ap
  else if lflag ≠ 0 then vaArg ap
  else (vaArg ap).map fun (slot, ap) => ((slot.setWidth 32).setWidth 64, ap)

def getint (ap : List Slot) (lflag : Nat) : Option (BitVec 64 × List Slot) :=
  if 2 <= lflag then vaArg ap
  else if lflag ≠ 0 then vaArg ap
  else (vaArg ap).map fun (slot, ap) => ((slot.setWidth 32).signExtend 64, ap)

/-! ## Escape sequences -/

/-- What `vprintfmt` has read of a %-escape sequence -/
structure Escape where
  padc : Char := ' '
  width : Int := -1
  precision : Int := -1
  lflag : Nat := 0
  altflag : Bool := false

def Escape.processPrecision (escape : Escape) : Escape :=
  if escape.width < 0 then { escape with width := escape.precision, precision := -1 } else escape

/-- `case '.'` -/
def Escape.point (escape : Escape) : Escape :=
  { escape with width := if escape.width < 0 then 0 else escape.width }

/-- The loop of a width field, at its digit `ch` -/
def widthField (precision : Int) (ch : Char) : List Char -> Int × List Char
  | [] => (toInt (precision * 10 + ch.toNat - '0'.toNat), [])
  | next :: fmt =>
      let precision := toInt (precision * 10 + ch.toNat - '0'.toNat)
      if next < '0' \/ '9' < next then (precision, next :: fmt) else widthField precision next fmt

theorem widthField_length (fmt : List Char) : forall (precision : Int) (ch : Char),
    (widthField precision ch fmt).2.length <= fmt.length := by
  induction fmt with
  | nil => exact fun _ _ => Nat.le_refl _
  | cons next fmt ih =>
      intro precision ch
      simp only [widthField]
      split
      · exact Nat.le_refl _
      · exact Nat.le_succ_of_le (ih _ _)

/-- The turns of `reswitch`, up to the character that ends them; that is `none`
at the end of the format. -/
def reswitch (escape : Escape) (ap : List Slot) (fmt : List Char) :
    Option (Escape × Option Char × List Slot × List Char) :=
  match fmt with
  | [] => some (escape, none, ap, [])
  | ch :: fmt =>
      if ch = '-' then reswitch { escape with padc := '-' } ap fmt
      else if ch = '0' then reswitch { escape with padc := '0' } ap fmt
      else if '1' <= ch /\ ch <= '9' then
        let field := widthField 0 ch fmt
        reswitch ({ escape with precision := field.1 }.processPrecision) ap field.2
      else if ch = '*' then
        match vaArg ap with
        | none => none
        | some (slot, ap) => reswitch ({ escape with precision := slot.int }.processPrecision) ap fmt
      else if ch = '.' then reswitch escape.point ap fmt
      else if ch = '#' then reswitch { escape with altflag := true } ap fmt
      else if ch = 'l' then reswitch { escape with lflag := escape.lflag + 1 } ap fmt
      else some (escape, some ch, ap, fmt)
termination_by fmt.length
decreasing_by all_goals first | exact Nat.lt_succ_of_le (widthField_length _ _ _) | exact Nat.lt_succ_self _

/-- The rest of the format is no longer than what `reswitch` was given. -/
theorem reswitch_length (escape : Escape) (ap : List Slot) (fmt : List Char) :
    forall {result : Escape × Option Char × List Slot × List Char},
      reswitch escape ap fmt = some result -> result.2.2.2.length <= fmt.length := by
  fun_induction reswitch escape ap fmt <;> intro result found
  case case4 ih => exact Nat.le_succ_of_le (Nat.le_trans (ih found) (widthField_length _ _ _))
  case case1 | case10 =>
    cases found
    first | exact Nat.le_refl _ | exact Nat.le_succ _
  case case5 => cases found
  case case2 ih | case3 ih | case6 ih | case7 ih | case8 ih | case9 ih => exact Nat.le_succ_of_le (ih found)

/-- What a conversion does, once its character is read -/
inductive Conversion (State : Type) where
  /-- It prints and goes on with these arguments. -/
  | done (ap : List Slot) (putdat : State)
  /-- `default` -/
  | unrecognized

/-- `label number` -/
def number (escape : Escape) (base : Base) (num : BitVec 64) (ap : List Slot) (putdat : State) : Conversion State :=
  .done ap (printnum putch num.toNat base escape.width escape.padc putdat)

def octal : Base := ⟨8, by decide, by decide⟩
def decimal : Base := ⟨10, by decide, by decide⟩
def hexadecimal : Base := ⟨16, by decide, by decide⟩

/-- `case 'd'`, from the argument on -/
def signedDecimal (escape : Escape) (num : BitVec 64) (ap : List Slot) (putdat : State) : Conversion State :=
  if num.toInt < 0 then number putch escape decimal (-num) ap (putch '-' putdat)
  else number putch escape decimal num ap putdat

/-- The loop of `case 's'` over the characters; the width that is left comes with it. -/
def printString (altflag : Bool) : List Char -> Int -> Int -> State -> Int × State
  | [], _, width, putdat => (width, putdat)
  | ch :: p, precision, width, putdat =>
      if precision < 0 then
        printString altflag p precision (width - 1)
          (putch (if altflag /\ (ch < ' ' \/ '~' < ch) then '?' else ch) putdat)
      else if 0 <= precision - 1 then
        printString altflag p (precision - 1) (width - 1)
          (putch (if altflag /\ (ch < ' ' \/ '~' < ch) then '?' else ch) putdat)
      else (width, putdat)

/-- `strnlen`, with the `size_t` of an `int` -/
def strnlen (p : List Char) (len : Int) : Nat := if len < 0 then p.length else min p.length len.toNat

/-- `case 's'`, from the string on -/
def stringField (escape : Escape) (p : List Char) (putdat : State) : State :=
  let left :=
    if 0 < escape.width /\ escape.padc ≠ '-' then
      let width := escape.width - strnlen p escape.precision
      (min width 0, print putch (List.replicate width.toNat escape.padc) putdat)
    else (escape.width, putdat)
  let printed := printString putch escape.altflag p escape.precision left.1 left.2
  print putch (List.replicate printed.1.toNat ' ') printed.2

def maxerror : Int := 24

def errorString (err : Int) : Option (List Char) :=
  if err = 1 then some "unspecified error".toList
  else if err = 2 then some "bad process".toList
  else if err = 3 then some "invalid parameter".toList
  else if err = 4 then some "out of memory".toList
  else if err = 5 then some "out of processes".toList
  else if err = 6 then some "segmentation fault".toList
  else if err = 8 then some "invalid elf file".toList
  else if err = 9 then some "process is killed".toList
  else if err = 10 then some "panic failure".toList
  else if err = 13 then some "no such device".toList
  else if err = 14 then some "device not available".toList
  else if err = 15 then some "device/file is busy".toList
  else if err = 16 then some "no such file or directory".toList
  else if err = 17 then some "is a directory".toList
  else if err = 18 then some "not a directory".toList
  else if err = 19 then some "cross device link".toList
  else if err = 20 then some "unimplemented feature".toList
  else if err = 21 then some "illegal seek".toList
  else if err = 22 then some "too many files are open".toList
  else if err = 23 then some "file or directory already exists".toList
  else if err = 24 then some "directory is not empty".toList
  else none

/-- `case 'e'`, from the argument on: `printfmt` with `"%s"`, or with
`"error %d"`.  The negation leaves `INT_MIN` as it is, and then `error_string`
is read far in front of its start. -/
def errorMessage (err : Int) (putdat : State) : Option State :=
  let err := if err < 0 then toInt (-err) else err
  if err < 0 then none
  else
    match (if maxerror < err then none else errorString err) with
    | some p => some (stringField putch {} p putdat)
    | none => some (printnum putch err.toNat decimal (-1) ' ' (print putch "error ".toList putdat))

variable (string : Slot -> Option (List Char))

/-- The cases of `vprintfmt` for the character of a conversion -/
def convert (escape : Escape) (ch : Char) (ap : List Slot) (putdat : State) : Option (Conversion State) :=
  if ch = 'c' then
    (vaArg ap).map fun (slot, ap) => .done ap (putch (Char.ofNat (slot.toNat % 256)) putdat)
  else if ch = 'e' then
    (vaArg ap).bind fun (slot, ap) => (errorMessage putch slot.int putdat).map (.done ap)
  else if ch = 's' then
    (vaArg ap).map fun (slot, ap) =>
      .done ap (stringField putch escape ((string slot).getD "(null)".toList) putdat)
  else if ch = 'd' then
    (getint ap escape.lflag).map fun (num, ap) => signedDecimal putch escape num ap putdat
  else if ch = 'u' then
    (getuint ap escape.lflag).map fun (num, ap) => number putch escape decimal num ap putdat
  else if ch = 'o' then
    (getuint ap escape.lflag).map fun (num, ap) => number putch escape octal num ap putdat
  else if ch = 'p' then
    (vaArg ap).map fun (num, ap) => number putch escape hexadecimal num ap (putch 'x' (putch '0' putdat))
  else if ch = 'x' then
    (getuint ap escape.lflag).map fun (num, ap) => number putch escape hexadecimal num ap putdat
  else if ch = '%' then some (.done ap (putch ch putdat))
  else some .unrecognized

/-- `vprintfmt`, which is `none` when the format asks for more arguments than
there are, or reads in front of `error_string`.  After an escape that is not recognized, `fmt` goes back to the
character that follows the `%`. -/
def vprintfmt (fmt : List Char) (ap : List Slot) (putdat : State) : Option State :=
  match fmt with
  | [] => some putdat
  | ch :: fmt =>
      if ch = '%' then
        match _found : reswitch {} ap fmt with
        | none => none
        | some (_, none, ap, _) => vprintfmt fmt ap (putch '%' putdat)
        | some (escape, some conversion, ap, rest) =>
            match convert putch string escape conversion ap putdat with
            | none => none
            | some (.done ap putdat) => vprintfmt rest ap putdat
            | some .unrecognized => vprintfmt fmt ap (putch '%' putdat)
      else vprintfmt fmt ap (putch ch putdat)
termination_by fmt.length
decreasing_by
  all_goals first
    | exact Nat.lt_succ_of_le (reswitch_length _ _ _ _found)
    | exact Nat.lt_succ_self _

theorem vprintfmt_escape (fmt : List Char) (ap : List Slot) (putdat : State) :
    vprintfmt putch string ('%' :: fmt) ap putdat =
      match reswitch {} ap fmt with
      | none => none
      | some (_, none, ap, _) => vprintfmt putch string fmt ap (putch '%' putdat)
      | some (escape, some conversion, ap, rest) =>
          match convert putch string escape conversion ap putdat with
          | none => none
          | some (.done ap putdat) => vprintfmt putch string rest ap putdat
          | some .unrecognized => vprintfmt putch string fmt ap (putch '%' putdat) := by
  rw [vprintfmt, if_pos rfl]
  split
  · next found => rw [found]
  · next found => rw [found]
  · next found => rw [found]

end Putch

/-! ## Printing into a buffer -/

/-- A value of the type `uintptr_t` -/
def uintptr (value : Int) : Nat := (value % 2 ^ 64).toNat

/-- `struct sprintbuf`, and the memory its pointers point into -/
structure Sprintbuf where
  memory : Nat -> Char
  buf : Nat
  ebuf : Nat
  cnt : Int

def sprintputch (ch : Char) (b : Sprintbuf) : Sprintbuf :=
  let b := { b with cnt := toInt (b.cnt + 1) }
  if b.buf < b.ebuf then { b with memory := Function.update b.memory b.buf ch, buf := uintptr (b.buf + 1) } else b

/-- `-E_INVAL` -/
def eInval : Int := -3

/-- `vsnprintf`: the memory and the return value -/
def vsnprintf (string : Slot -> Option (List Char)) (memory : Nat -> Char) (str size : Nat) (fmt : List Char)
    (ap : List Slot) : Option ((Nat -> Char) × Int) :=
  let b : Sprintbuf := ⟨memory, str, uintptr (str + size - 1), 0⟩
  if str = 0 \/ b.ebuf < b.buf then some (memory, eInval)
  else (vprintfmt sprintputch string fmt ap b).map fun b => (Function.update b.memory b.buf '\x00', b.cnt)

end Console
end Ucore
