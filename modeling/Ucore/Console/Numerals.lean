import Ucore.Console.Printed

namespace Ucore
namespace Console

/-!
# Numbers in a format

A format is made of plain characters and of numeric conversions, each with
flags, a width and a length modifier.  For each of them there is the text that
it asks for and the text that `vprintfmt` prints.  The sign is printed before
the digits are padded and is not counted by the width, and the flag `-` is
taken for a character to pad with.
-/

/-! ## The numbers of a format -/

inductive Flag where
  | minus
  | zero
deriving DecidableEq, Repr

def Flag.char : Flag -> Char
  | .minus => '-'
  | .zero => '0'

/-- The width of a conversion: there is none, it is written in the format, or
it is an argument. -/
inductive Width where
  | absent
  | field (size : Nat) (positive : 0 < size)
  | argument (size : Nat)

namespace Width

def size : Width -> Nat
  | .absent => 0
  | .field size _ => size
  | .argument size => size

def spelling : Width -> List Char
  | .absent => []
  | .field size _ => Nat.toDigits 10 size
  | .argument _ => ['*']

def arguments : Width -> List Slot
  | .absent => []
  | .field _ _ => []
  | .argument size => [BitVec.ofNat 64 size]

/-- The variable `width` -/
def int : Width -> Int
  | .absent => -1
  | .field size _ => size
  | .argument size => size

end Width

inductive Letter where
  | d
  | u
  | x
  | o
deriving DecidableEq, Repr

namespace Letter

def char : Letter -> Char
  | .d => 'd'
  | .u => 'u'
  | .x => 'x'
  | .o => 'o'

def base : Letter -> Base
  | .d => decimal
  | .u => decimal
  | .x => hexadecimal
  | .o => octal

end Letter

/-- A numeric conversion and its argument; `longs` is the number of letters `l`. -/
structure Number where
  flags : List Flag
  width : Width
  longs : Nat
  letter : Letter
  value : BitVec 64

namespace Number

def spelling (number : Number) : List Char :=
  '%' :: (number.flags.map Flag.char ++ number.width.spelling ++ List.replicate number.longs 'l' ++
    [number.letter.char])

def arguments (number : Number) : List Slot := number.width.arguments ++ [number.value]

/-- The number that the argument stands for -/
def int (number : Number) : Int :=
  match number.letter with
  | .d => if number.longs = 0 then (number.value.setWidth 32).toInt else number.value.toInt
  | _ => if number.longs = 0 then (number.value.setWidth 32).toNat else number.value.toNat

def sign (number : Number) : List Char := if number.int < 0 then ['-'] else []

def digits (number : Number) : List Char := Nat.toDigits number.letter.base.value number.int.natAbs

/-- The text that is asked for: the numeral, with blanks after it, zeros after
its sign or blanks before it. -/
def asked (number : Number) : List Char :=
  let blanks := number.width.size - (number.sign.length + number.digits.length)
  if Flag.minus ∈ number.flags then number.sign ++ number.digits ++ List.replicate blanks ' '
  else if Flag.zero ∈ number.flags then number.sign ++ List.replicate blanks '0' ++ number.digits
  else List.replicate blanks ' ' ++ number.sign ++ number.digits

/-- `padc`, after the flags -/
def padc (number : Number) : Char := number.flags.foldl (fun _ flag => flag.char) ' '

/-- The text that is printed -/
def text (number : Number) : List Char :=
  number.sign ++ List.replicate (number.width.size - number.digits.length) number.padc ++ number.digits

/-- The width is of no account, or there is no sign to count and no blank to put
on the right.  `printnum` pads on the left only, where the sign has been printed
by then. -/
def Plain (number : Number) : Prop :=
  number.width.size <= number.digits.length \/ (0 <= number.int /\ Flag.minus ∉ number.flags)

instance (number : Number) : Decidable number.Plain := inferInstanceAs (Decidable (_ \/ _))

theorem digits_length_pos (number : Number) : 0 < number.digits.length := Nat.length_toDigits_pos

/-- The asked text is as long as the width and as the numeral. -/
theorem asked_length (number : Number) : number.asked.length =
    max number.width.size (number.sign.length + number.digits.length) := by
  unfold asked
  dsimp only
  split
  · simp only [List.length_append, List.length_replicate]
    omega
  · split <;> simp only [List.length_append, List.length_replicate] <;> omega

theorem text_length (number : Number) : number.text.length =
    number.sign.length + max number.width.size number.digits.length := by
  simp only [text, List.length_append, List.length_replicate]
  omega

theorem asked_length_le (number : Number) : number.asked.length <= number.text.length := by
  rw [asked_length, text_length]
  omega

theorem padc_of_flags (flags : List Flag) (unsigned : Flag.minus ∉ flags) : forall padc : Char,
    flags.foldl (fun _ flag => flag.char) padc = if Flag.zero ∈ flags then '0' else padc := by
  induction flags with
  | nil => exact fun _ => rfl
  | cons flag flags ih =>
      intro padc
      rw [List.mem_cons, not_or] at unsigned
      cases flag with
      | minus => exact absurd rfl unsigned.1
      | zero =>
          rw [List.foldl_cons, ih unsigned.2, if_pos List.mem_cons_self]
          exact ite_self _

theorem space_not_mem_toDigits {base : Nat} (two_le : 2 <= base) (le_sixteen : base <= 16) (num : Nat) :
    ' ' ∉ Nat.toDigits base num := by
  have digit : forall value, value < 16 -> ' ' ≠ Nat.digitChar value := by decide
  induction num using Nat.strongRecOn with
  | ind num ih =>
      rw [Nat.toDigits_eq_if two_le]
      split
      · rw [List.mem_singleton]
        exact digit num (by omega)
      · rw [List.mem_append, List.mem_singleton, not_or]
        exact ⟨ih _ (Nat.div_lt_self (by omega) two_le),
          digit _ (Nat.lt_of_lt_of_le (Nat.mod_lt _ (by omega)) le_sixteen)⟩

/-- What is printed is what is asked for exactly when the number is plain. -/
theorem text_eq_asked_iff (number : Number) : number.text = number.asked <-> number.Plain := by
  constructor
  · intro same
    by_contra other
    rw [Plain, not_or, not_and, not_not] at other
    by_cases negative : number.int < 0
    · -- The sign is one character too many.
      have lengths := congrArg List.length same
      rw [asked_length, text_length, sign, if_pos negative, List.length_singleton] at lengths
      omega
    · -- The last character is a digit, and not a blank.
      have ends := List.getLast?_eq_some_getLast (List.ne_nil_of_length_pos number.digits_length_pos)
      have unsigned : number.sign = [] := if_neg negative
      have blanks : number.width.size - (0 + number.digits.length) ≠ 0 := by omega
      have last := congrArg List.getLast? same
      simp only [asked, if_pos (other.2 (by omega)), text, List.getLast?_append, ends, List.getLast?_replicate,
        unsigned, List.length_nil, if_neg blanks, Option.some_or, Option.some_inj] at last
      exact space_not_mem_toDigits number.letter.base.two_le number.letter.base.le_sixteen _
        (last ▸ List.getLast_mem _)
  · rintro (narrow | ⟨unsigned, right⟩)
    · have none : number.width.size - number.digits.length = 0 := by omega
      have blanks : number.width.size - (number.sign.length + number.digits.length) = 0 := by omega
      simp [text, asked, none, blanks]
    · have positive : number.sign = [] := if_neg (by omega)
      rw [text, asked, if_neg right, padc, padc_of_flags _ right, positive]
      split <;> simp

end Number

/-! ## Reading a conversion -/

section Reading

variable {escape : Escape} {ap : List Slot} {fmt : List Char}

theorem reswitch_flags (flags : List Flag) : forall escape : Escape,
    reswitch escape ap (flags.map Flag.char ++ fmt) =
      reswitch { escape with padc := flags.foldl (fun _ flag => flag.char) escape.padc } ap fmt := by
  induction flags with
  | nil => exact fun _ => rfl
  | cons flag flags ih =>
      intro escape
      rw [List.map_cons, List.cons_append, reswitch.eq_def]
      cases flag <;> simp [Flag.char, ih]

theorem reswitch_longs (longs : Nat) : forall escape : Escape,
    reswitch escape ap (List.replicate longs 'l' ++ fmt) =
      reswitch { escape with lflag := escape.lflag + longs } ap fmt := by
  induction longs with
  | zero => exact fun _ => rfl
  | succ longs ih =>
      intro escape
      rw [List.replicate_succ, List.cons_append, reswitch.eq_def]
      simp [ih, Nat.add_assoc, Nat.add_comm 1]

theorem reswitch_letter (letter : Letter) :
    reswitch escape ap (letter.char :: fmt) = some (escape, some letter.char, ap, fmt) := by
  rw [reswitch.eq_def]
  cases letter <;> simp [Letter.char]

/-- The format goes on with a character that is no digit. -/
def NoDigit (fmt : List Char) : Prop := forall next, fmt.head? = some next -> next < '0' \/ '9' < next

theorem not_digit_iff {ch : Char} : (ch < '0' \/ '9' < ch) <-> ¬ ch.isDigit := by
  rw [Char.isDigit_iff_toNat, Char.lt_def, Char.lt_def, UInt32.lt_iff_toNat_lt, UInt32.lt_iff_toNat_lt]
  simp only [Char.toNat]
  omega

theorem toInt_of_lt {value : Nat} (small : value < 2 ^ 31) : toInt value = value := by
  rw [toInt]
  exact Int.bmod_eq_of_le (by omega) (by omega)

theorem start_le_ofDigitChars (more : List Char) : forall start, start <= Nat.ofDigitChars 10 more start := by
  induction more with
  | nil => exact fun _ => Nat.le_refl _
  | cons ch more ih =>
      intro start
      rw [Nat.ofDigitChars_cons]
      exact Nat.le_trans (by omega) (ih _)

theorem toInt_digit {start : Nat} {ch : Char} (digit : ch.isDigit)
    (small : 10 * start + (ch.toNat - '0'.toNat) < 2 ^ 31) :
    toInt (start * 10 + ch.toNat - '0'.toNat) = (10 * start + (ch.toNat - '0'.toNat) : Nat) := by
  rw [Char.isDigit_iff_toNat] at digit
  rw [← toInt_of_lt small]
  congr 1
  omega

/-- A number that an `int` holds is read as it is written. -/
theorem widthField_digits (other : NoDigit fmt) (more : List Char)
    (digits : forall digit, digit ∈ more -> digit.isDigit) : forall (start : Nat) (ch : Char), ch.isDigit ->
    Nat.ofDigitChars 10 (ch :: more) start < 2 ^ 31 ->
      widthField start ch (more ++ fmt) = (((Nat.ofDigitChars 10 (ch :: more) start : Nat) : Int), fmt) := by
  induction more with
  | nil =>
      intro start ch digit small
      rw [Nat.ofDigitChars_cons, Nat.ofDigitChars_nil] at small ⊢
      cases fmt with
      | nil => rw [List.append_nil, widthField, toInt_digit digit small]
      | cons next fmt => rw [List.nil_append, widthField, if_pos (other next rfl), toInt_digit digit small]
  | cons next more ih =>
      intro start ch digit small
      have follows := digits next List.mem_cons_self
      rw [Nat.ofDigitChars_cons] at small ⊢
      have first := Nat.lt_of_le_of_lt (start_le_ofDigitChars _ _) small
      rw [List.cons_append, widthField, if_neg (not_digit_iff.not.mpr (not_not.mpr follows)),
        toInt_digit digit first]
      exact ih (fun digit inside => digits digit (List.mem_cons_of_mem _ inside)) _ _ follows small

theorem toDigits_first {num : Nat} (positive : 0 < num) :
    exists ch more, Nat.toDigits 10 num = ch :: more /\ '1' <= ch /\ ch <= '9' := by
  have digit : forall value, value < 10 -> 0 < value -> '1' <= Nat.digitChar value /\ Nat.digitChar value <= '9' := by
    decide
  induction num using Nat.strongRecOn with
  | ind num ih =>
      rw [Nat.toDigits_eq_if (by decide)]
      split
      · next small => exact ⟨_, [], rfl, digit num small positive⟩
      · obtain ⟨ch, more, spelled, bounds⟩ := ih (num / 10) (by omega) (by omega)
        exact ⟨ch, more ++ [Nat.digitChar (num % 10)], by rw [spelled, List.cons_append], bounds⟩

/-- A width that an `int` holds -/
theorem reswitch_width (width : Width) (small : width.size < 2 ^ 31) (other : NoDigit fmt) (unset : escape.width = -1)
    (none : escape.precision = -1) :
    reswitch escape (width.arguments ++ ap) (width.spelling ++ fmt) =
      reswitch { escape with width := width.int } ap fmt := by
  cases width with
  | absent =>
      rw [Width.int, ← unset]
      rfl
  | field size positive =>
      obtain ⟨ch, more, spelled, low, high⟩ := toDigits_first positive
      have digits : forall digit, digit ∈ ch :: more -> digit.isDigit :=
        fun digit inside => Nat.isDigit_of_mem_toDigits (by decide) (by decide) (spelled ▸ inside)
      have value : Nat.ofDigitChars 10 (ch :: more) 0 = size := by rw [← spelled, Nat.ofDigitChars_ten_toDigits]
      have field : widthField 0 ch (more ++ fmt) = ((size : Int), fmt) := by
        rw [← value]
        exact widthField_digits other more (fun digit inside => digits digit (List.mem_cons_of_mem _ inside)) 0 ch
          (digits ch List.mem_cons_self) (value ▸ small)
      have dash : ch ≠ '-' := by
        rintro rfl
        exact absurd low (by decide)
      have nought : ch ≠ '0' := by
        rintro rfl
        exact absurd low (by decide)
      rw [Width.spelling, spelled, List.cons_append, Width.arguments, List.nil_append, reswitch.eq_def]
      dsimp only
      rw [if_neg dash, if_neg nought, if_pos ⟨low, high⟩, field, Escape.processPrecision, if_pos (by simp [unset]),
        none.symm]
      rfl
  | argument size =>
      have small : size < 2 ^ 31 := small
      have value : Slot.int (BitVec.ofNat 64 size) = size := by
        rw [Slot.int, BitVec.toInt_setWidth, BitVec.toNat_ofNat, Nat.mod_eq_of_lt (by omega)]
        exact toInt_of_lt small
      rw [Width.spelling, List.cons_append, List.nil_append, Width.arguments, List.cons_append, List.nil_append,
        reswitch.eq_def]
      dsimp only
      rw [if_neg (by decide), if_neg (by decide), if_neg (by decide), if_pos rfl, vaArg]
      dsimp only
      rw [value, Escape.processPrecision, if_pos (by simp [unset]), none.symm]
      rfl

end Reading

/-! ## Printing a conversion -/

section Printing

variable {State : Type} {putch : Char -> State -> State}

theorem digitTable_getD {mod : Nat} (small : mod < 16) : digitTable.getD mod ' ' = Nat.digitChar mod := by
  have table : forall mod, mod < 16 -> digitTable.getD mod ' ' = Nat.digitChar mod := by decide
  exact table mod small

/-- `printnum` prints the numeral, with enough pad characters before it. -/
theorem printnum_eq (num : Nat) (base : Base) (width : Int) (padc : Char) (putdat : State) :
    printnum putch num base width padc putdat =
      print putch (List.replicate (width - (Nat.toDigits base.value num).length).toNat padc ++
        Nat.toDigits base.value num) putdat := by
  have two_le := base.two_le
  induction num using Nat.strongRecOn generalizing width with
  | ind num ih =>
      have digit : digitTable.getD (num % base.value) ' ' = Nat.digitChar (num % base.value) :=
        digitTable_getD (Nat.lt_of_lt_of_le (Nat.mod_lt _ (by omega)) base.le_sixteen)
      rw [printnum, digit]
      split
      · next small =>
          rw [Nat.toDigits_of_lt_base small, Nat.mod_eq_of_lt small, print_append]
          rfl
      · next large =>
          have digits : Nat.toDigits base.value num =
              Nat.toDigits base.value (num / base.value) ++ [Nat.digitChar (num % base.value)] :=
            Nat.toDigits_of_base_le two_le (by omega)
          rw [ih _ (Nat.div_lt_self (by omega) two_le), digits, List.length_append, List.length_singleton,
            ← List.append_assoc, print_append _ [_], Int.natCast_add, Int.natCast_one, Int.add_comm _ 1, Int.sub_sub]
          rfl

theorem getint_value (value : Slot) (ap : List Slot) (lflag : Nat) :
    exists num, getint (value :: ap) lflag = some (num, ap) /\
      num.toInt = if lflag = 0 then (value.setWidth 32).toInt else value.toInt := by
  unfold getint
  split
  · exact ⟨value, rfl, (if_neg (by omega)).symm⟩
  · split
    · exact ⟨value, rfl, rfl⟩
    · next short =>
        refine ⟨_, rfl, ?_⟩
        rw [if_pos (not_not.mp short), BitVec.toInt_signExtend_of_le (by decide)]

theorem getuint_value (value : Slot) (ap : List Slot) (lflag : Nat) :
    exists num, getuint (value :: ap) lflag = some (num, ap) /\
      num.toNat = if lflag = 0 then (value.setWidth 32).toNat else value.toNat := by
  unfold getuint
  split
  · exact ⟨value, rfl, (if_neg (by omega)).symm⟩
  · split
    · exact ⟨value, rfl, rfl⟩
    · next short =>
        refine ⟨_, rfl, ?_⟩
        rw [if_pos (not_not.mp short), BitVec.toNat_setWidth_of_le (by decide)]

theorem toNat_neg_of_negative {num : BitVec 64} (negative : num.toInt < 0) : (-num).toNat = num.toInt.natAbs := by
  rw [BitVec.toInt_eq_toNat_cond] at negative ⊢
  rw [BitVec.toNat_neg]
  have := num.isLt
  split <;> omega

theorem toNat_of_not_negative {num : BitVec 64} (positive : ¬ num.toInt < 0) : num.toNat = num.toInt.natAbs := by
  rw [BitVec.toInt_eq_toNat_cond] at positive ⊢
  have := num.isLt
  split <;> omega

namespace Number

/-- What `reswitch` has read before the letter -/
def escape (number : Number) : Escape :=
  { padc := number.padc, width := number.width.int, lflag := number.longs }

theorem blanks_eq (number : Number) :
    (number.escape.width - number.digits.length).toNat = number.width.size - number.digits.length := by
  have := number.digits_length_pos
  rw [escape, Width.int.eq_def, Width.size.eq_def]
  cases number.width <;> dsimp only <;> omega

/-- The digits of the absolute value, once the sign is printed -/
theorem printnum_digits (number : Number) (putdat : State) :
    printnum putch number.int.natAbs number.letter.base number.escape.width number.escape.padc
        (print putch number.sign putdat) = print putch number.text putdat := by
  rw [printnum_eq, text, List.append_assoc, print_append number.sign, ← blanks_eq]
  rfl

theorem signedDecimal_eq (escape : Escape) (num : BitVec 64) (ap : List Slot) (putdat : State) :
    signedDecimal putch escape num ap putdat =
      .done ap (printnum putch num.toInt.natAbs decimal escape.width escape.padc
        (print putch (if num.toInt < 0 then ['-'] else []) putdat)) := by
  rw [signedDecimal]
  split
  · next negative =>
      rw [Console.number, toNat_neg_of_negative negative]
      rfl
  · next positive =>
      rw [Console.number, toNat_of_not_negative positive]
      rfl

theorem convert_signed (number : Number) (string : Slot -> Option (List Char)) (ap : List Slot) (putdat : State)
    (letter : number.letter = .d) :
    convert putch string number.escape number.letter.char (number.value :: ap) putdat =
      some (.done ap (print putch number.text putdat)) := by
  obtain ⟨num, taken, value⟩ := getint_value number.value ap number.escape.lflag
  have int : num.toInt = number.int := by
    rw [value, Number.int, letter]
    rfl
  have base : number.letter.base = decimal := by rw [letter, Letter.base]
  rw [← printnum_digits, base, letter, convert, if_neg (by decide), if_neg (by decide), if_neg (by decide),
    if_pos (by rfl), taken, Option.map_some]
  dsimp only
  rw [signedDecimal_eq, int, sign]

theorem convert_unsigned (number : Number) (string : Slot -> Option (List Char)) (ap : List Slot) (putdat : State)
    (letter : number.letter ≠ .d) :
    convert putch string number.escape number.letter.char (number.value :: ap) putdat =
      some (.done ap (print putch number.text putdat)) := by
  obtain ⟨num, taken, value⟩ := getuint_value number.value ap number.escape.lflag
  have int : number.int = num.toNat := by
    rw [value, Number.int, apply_ite Nat.cast]
    cases kind : number.letter with
    | d => exact absurd kind letter
    | u | x | o => rfl
  have unsigned : number.sign = [] := if_neg (by omega)
  have digits : number.int.natAbs = num.toNat := by omega
  rw [← printnum_digits, unsigned, digits]
  cases kind : number.letter with
  | d => exact absurd kind letter
  | u => simp [convert, Letter.char, taken, Console.number, Letter.base]
  | x => simp [convert, Letter.char, taken, Console.number, Letter.base]
  | o => simp [convert, Letter.char, taken, Console.number, Letter.base]

theorem convert_letter (number : Number) (string : Slot -> Option (List Char)) (ap : List Slot) (putdat : State) :
    convert putch string number.escape number.letter.char (number.value :: ap) putdat =
      some (.done ap (print putch number.text putdat)) := by
  by_cases letter : number.letter = .d
  · exact convert_signed number string ap putdat letter
  · exact convert_unsigned number string ap putdat letter

/-- A conversion in a format prints its text, and the format goes on. -/
theorem vprintfmt_number (number : Number) (small : number.width.size < 2 ^ 31) (string : Slot -> Option (List Char))
    (fmt : List Char) (ap : List Slot) (putdat : State) :
    vprintfmt putch string (number.spelling ++ fmt) (number.arguments ++ ap) putdat =
      vprintfmt putch string fmt ap (print putch number.text putdat) := by
  have other : NoDigit (List.replicate number.longs 'l' ++ ([number.letter.char] ++ fmt)) := by
    intro next first
    rw [not_digit_iff]
    cases longs : number.longs with
    | zero =>
        rw [longs] at first
        cases first
        cases number.letter <;> decide
    | succ longs' =>
        rw [longs] at first
        cases first
        decide
  have read : reswitch {} (number.arguments ++ ap) (number.flags.map Flag.char ++ number.width.spelling ++
      List.replicate number.longs 'l' ++ [number.letter.char] ++ fmt) =
      some (number.escape, some number.letter.char, number.value :: ap, fmt) := by
    rw [List.append_assoc, List.append_assoc, List.append_assoc, reswitch_flags, arguments, List.append_assoc,
      reswitch_width number.width small other rfl rfl, reswitch_longs, List.singleton_append, List.singleton_append,
      reswitch_letter, Nat.zero_add]
    rfl
  rw [spelling, List.cons_append, vprintfmt_escape, read]
  dsimp only
  rw [convert_letter]

end Number

end Printing

/-! ## A whole format -/

/-- A piece of a format -/
inductive Part where
  | plain (ch : Char) (other : ch ≠ '%')
  | numeric (num : Number)

namespace Part

def spelling : Part -> List Char
  | .plain ch _ => [ch]
  | .numeric num => num.spelling

def arguments : Part -> List Slot
  | .plain _ _ => []
  | .numeric num => num.arguments

/-- The text that is asked for -/
def asked : Part -> List Char
  | .plain ch _ => [ch]
  | .numeric num => num.asked

/-- The text that is printed -/
def text : Part -> List Char
  | .plain ch _ => [ch]
  | .numeric num => num.text

def width : Part -> Nat
  | .plain _ _ => 0
  | .numeric num => num.width.size

def Plain : Part -> Prop
  | .plain _ _ => True
  | .numeric num => num.Plain

theorem text_eq_asked_iff (part : Part) : part.text = part.asked <-> part.Plain := by
  cases part with
  | plain ch _ => exact iff_of_true rfl trivial
  | numeric num => exact num.text_eq_asked_iff

theorem asked_length_le (part : Part) : part.asked.length <= part.text.length := by
  cases part with
  | plain ch _ => exact Nat.le_refl _
  | numeric num => exact num.asked_length_le

theorem width_le (part : Part) : part.width <= part.asked.length := by
  cases part with
  | plain ch _ => exact Nat.zero_le _
  | numeric num =>
      rw [asked, num.asked_length]
      exact Nat.le_max_left _ _

theorem vprintfmt_part {State : Type} {putch : Char -> State -> State} (part : Part) (small : part.width < 2 ^ 31)
    (string : Slot -> Option (List Char)) (fmt : List Char) (ap : List Slot) (putdat : State) :
    vprintfmt putch string (part.spelling ++ fmt) (part.arguments ++ ap) putdat =
      vprintfmt putch string fmt ap (print putch part.text putdat) := by
  cases part with
  | plain ch other => exact vprintfmt_plain string other fmt ap putdat
  | numeric num => exact num.vprintfmt_number small string fmt ap putdat

end Part

/-- The format that the parts make -/
def spelling (parts : List Part) : List Char := parts.flatMap Part.spelling

/-- The arguments of the format -/
def arguments (parts : List Part) : List Slot := parts.flatMap Part.arguments

/-- The text that the format asks for -/
def asked (parts : List Part) : List Char := parts.flatMap Part.asked

/-- A format of plain characters and numbers is printed part by part. -/
theorem vprintfmt_parts {State : Type} {putch : Char -> State -> State} (string : Slot -> Option (List Char))
    (parts : List Part) (small : forall part, part ∈ parts -> part.width < 2 ^ 31) : forall putdat : State,
    vprintfmt putch string (spelling parts) (arguments parts) putdat =
      some (print putch (parts.flatMap Part.text) putdat) := by
  induction parts with
  | nil =>
      intro putdat
      rw [spelling, List.flatMap_nil, vprintfmt, List.flatMap_nil, print_nil]
  | cons part parts ih =>
      intro putdat
      rw [spelling, List.flatMap_cons, arguments, List.flatMap_cons,
        part.vprintfmt_part (small part List.mem_cons_self), ← spelling, ← arguments,
        ih (fun part inside => small part (List.mem_cons_of_mem _ inside)), List.flatMap_cons, print_append]

theorem asked_length_le (parts : List Part) : (asked parts).length <= (parts.flatMap Part.text).length := by
  induction parts with
  | nil => exact Nat.le_refl _
  | cons part parts ih =>
      rw [asked, List.flatMap_cons, List.flatMap_cons, List.length_append, List.length_append]
      exact Nat.add_le_add part.asked_length_le ih

/-- No part makes up for another one: each text is at least as long as the one
that is asked for. -/
theorem text_eq_asked_iff (parts : List Part) :
    parts.flatMap Part.text = asked parts <-> forall part, part ∈ parts -> part.Plain := by
  induction parts with
  | nil => exact iff_of_true rfl fun _ inside => absurd inside List.not_mem_nil
  | cons part parts ih =>
      rw [asked, List.flatMap_cons, List.flatMap_cons, List.forall_mem_cons, ← ih, ← part.text_eq_asked_iff]
      constructor
      · intro same
        have total := congrArg List.length same
        rw [List.length_append, List.length_append] at total
        have first := part.asked_length_le
        have others := asked_length_le parts
        rw [asked] at others
        exact List.append_inj same (by omega)
      · rintro ⟨first, others⟩
        rw [first, others, asked]

theorem width_le_asked (parts : List Part) {part : Part} (inside : part ∈ parts) :
    part.width <= (asked parts).length := by
  obtain ⟨before, after, rfl⟩ := List.append_of_mem inside
  have := part.width_le
  rw [asked, List.flatMap_append, List.flatMap_cons, List.length_append, List.length_append]
  omega

/-- The format is printed as it asks, and `vsnprintf` gives the buffer the part
of the text that fits and returns the length of the text. -/
structure PrintsAsked (string : Slot -> Option (List Char)) (parts : List Part) (memory : Nat -> Char)
    (buffer : Buffer) : Prop where
  text : printed string (spelling parts) (arguments parts) = some (asked parts)
  received : exists after,
    vsnprintf string memory buffer.str buffer.size (spelling parts) (arguments parts) =
      some (after, ((asked parts).length : Int)) /\
    Received buffer (asked parts) memory after

theorem printed_parts (string : Slot -> Option (List Char)) (parts : List Part)
    (small : forall part, part ∈ parts -> part.width < 2 ^ 31) :
    printed string (spelling parts) (arguments parts) = some (parts.flatMap Part.text) := by
  rw [printed, vprintfmt_parts string parts small, print_emit, List.nil_append]

theorem toInt_lt (value : Int) : toInt value < 2 ^ 31 := by
  rw [toInt]
  exact Int.bmod_lt (by decide)

/-- A format of numbers is printed as it asks, into a buffer of any size but
zero, exactly when each number in it is plain. -/
theorem vprintfmt_prints_asked (string : Slot -> Option (List Char)) (parts : List Part) (memory : Nat -> Char)
    (buffer : Buffer) :
    PrintsAsked string parts memory buffer <->
      (forall part, part ∈ parts -> part.Plain) /\ buffer.size ≠ 0 /\ (asked parts).length < 2 ^ 31 := by
  constructor
  · rintro ⟨text, after, returned, _⟩
    have room : buffer.size ≠ 0 := by
      intro empty
      rw [vsnprintf_empty _ _ _ _ _ empty, Option.some_inj, Prod.mk.injEq] at returned
      exact absurd returned.2 (by rw [eInval]; omega)
    rw [vsnprintf_of_room _ _ _ _ _ room, text, Option.map_some, Option.some_inj, Prod.mk.injEq] at returned
    have short : (asked parts).length < 2 ^ 31 := by
      have := toInt_lt (asked parts).length
      omega
    rw [printed_parts string parts fun part inside => Nat.lt_of_le_of_lt (width_le_asked parts inside) short,
      Option.some_inj, text_eq_asked_iff] at text
    exact ⟨text, room, short⟩
  · rintro ⟨plain, room, short⟩
    have text : printed string (spelling parts) (arguments parts) = some (asked parts) := by
      rw [printed_parts string parts fun part inside => Nat.lt_of_le_of_lt (width_le_asked parts inside) short,
        (text_eq_asked_iff parts).mpr plain]
    refine ⟨text, buffer.filled (asked parts) memory, ?_, buffer.filled_received _ _ room⟩
    rw [vsnprintf_of_room _ _ _ _ _ room, text, Option.map_some, toInt_of_lt short]

theorem not_printsAsked {string : Slot -> Option (List Char)} {parts : List Part} {memory : Nat -> Char}
    {buffer : Buffer} (small : forall part, part ∈ parts -> part.width < 2 ^ 31)
    (other : parts.flatMap Part.text ≠ asked parts) : ¬ PrintsAsked string parts memory buffer := by
  intro prints
  have text := prints.text
  rw [printed_parts string parts small, Option.some_inj] at text
  exact other text

/-- `%5d` prints `-3` in six characters, and `%-5d` prints `3` after four dashes. -/
theorem vprintfmt_misprints :
    ¬ PrintsAsked (fun _ => none) [.numeric ⟨[], .field 5 (by decide), 0, .d, -3⟩] (fun _ => ' ')
        ⟨4096, 16, by decide, by decide⟩ /\
    ¬ PrintsAsked (fun _ => none) [.numeric ⟨[.minus], .field 5 (by decide), 0, .d, 3⟩] (fun _ => ' ')
        ⟨4096, 16, by decide, by decide⟩ :=
  ⟨not_printsAsked (by decide) (by decide), not_printsAsked (by decide) (by decide)⟩

end Console
end Ucore
