import Mathlib.Data.List.Basic
import Mathlib.Logic.Function.Basic

namespace Ucore
namespace Shell

/-!
# The words of a command line

The shell cuts a line in place.  `gettoken` overwrites blanks and symbols by
the end of a string and quotes by blanks, and hands out pointers into the line,
so a word gets its end only when the token after it is asked for.
-/

/-- The memory of the shell -/
abbrev Memory := Nat -> UInt8

/-- `WHITESPACE` and `SYMBOLS` -/
def whitespace : List UInt8 := [32, 9, 13, 10]

def symbols : List UInt8 := [60, 124, 62, 38, 59]

/-- `strchr(set, c) != NULL` for a set without the end of a string -/
def isIn (set : List UInt8) (c : UInt8) : Bool := set.contains c

/-- The character `"` -/
def quote : UInt8 := 34

/-! ## The code -/

/-- Where a loop has stopped, with the memory it leaves -/
structure Stop where
  memory : Memory
  place : Nat

/-- The loop over blanks -/
def skipLoop : Nat -> Memory -> Nat -> Option Stop
  | 0, _, _ => none
  | fuel + 1, memory, s =>
      if isIn whitespace (memory s) = true then skipLoop fuel (Function.update memory s 0) (s + 1)
      else some ⟨memory, s⟩

/-- The loop over a word -/
def wordLoop : Nat -> Bool -> Memory -> Nat -> Option Stop
  | 0, _, _, _ => none
  | fuel + 1, flag, memory, s =>
      if memory s ≠ 0 /\ (flag = true \/ isIn (whitespace ++ symbols) (memory s) = false) then
        if memory s = quote then wordLoop fuel (!flag) (Function.update memory s 32) (s + 1)
        else wordLoop fuel flag memory (s + 1)
      else some ⟨memory, s⟩

/-- The line, with the pointer to the rest of it -/
structure Line where
  memory : Memory
  cmd : Option Nat

/-- A token with the pointer to it, and the line afterwards -/
structure Got where
  token : UInt8
  t : Nat
  line : Line

/-- `*p1 = (*s != '\0' ? s : NULL)` -/
def Stop.line (stop : Stop) : Line := ⟨stop.memory, if stop.memory stop.place ≠ 0 then some stop.place else none⟩

/-- The token `'w'` -/
def wordToken : UInt8 := 119

/-- `gettoken`; the pointer `t` stays as it is when there is no token. -/
def gettoken (fuel t : Nat) (line : Line) : Option Got :=
  line.cmd.elim (some ⟨0, t, line⟩) (fun s => (skipLoop fuel line.memory s).bind (fun start =>
    if start.memory start.place = 0 then some ⟨0, t, ⟨start.memory, line.cmd⟩⟩
    else if isIn symbols (start.memory start.place) = true then
      some ⟨start.memory start.place, start.place,
        (⟨Function.update start.memory start.place 0, start.place + 1⟩ : Stop).line⟩
    else (wordLoop fuel false start.memory start.place).bind (fun stop =>
      some ⟨wordToken, start.place, stop.line⟩)))

/-! ## Tokens of a text -/

inductive Token where
  | word (text : List UInt8)
  | symbol (c : UInt8)
deriving DecidableEq, Repr

/-- The word that a text begins with, its quotes as blanks, and the rest -/
def spanWord : Bool -> List UInt8 -> List UInt8 × List UInt8
  | _, [] => ([], [])
  | flag, c :: rest =>
      if flag = true \/ isIn (whitespace ++ symbols) c = false then
        let after := spanWord (if c = quote then !flag else flag) rest
        ((if c = quote then 32 else c) :: after.1, after.2)
      else ([], c :: rest)

/-- The first token of a text without blanks in front, and the rest -/
def firstToken : List UInt8 -> Option (Token × List UInt8)
  | [] => none
  | c :: rest =>
      if isIn symbols c = true then some (.symbol c, rest)
      else some (.word (spanWord false (c :: rest)).1, (spanWord false (c :: rest)).2)

/-- The first token of a text, and the rest -/
def nextToken (text : List UInt8) : Option (Token × List UInt8) := firstToken (text.dropWhile (isIn whitespace))

/-- A string is in memory, with its end. -/
def TextAt (memory : Memory) : Nat -> List UInt8 -> Prop
  | s, [] => memory s = 0
  | s, c :: rest => c ≠ 0 /\ memory s = c /\ TextAt memory (s + 1) rest

section Text

variable {memory other : Memory} {s : Nat} {text more : List UInt8}

theorem TextAt.congr (at_ : TextAt memory s text) (same : forall place, s <= place -> place <= s + text.length ->
    other place = memory place) : TextAt other s text := by
  induction text generalizing s with
  | nil => exact (same s (Nat.le_refl _) (Nat.le_refl _)).trans at_
  | cons c rest inductionHypothesis =>
    refine ⟨at_.1, (same s (Nat.le_refl _) (Nat.le_add_right ..)).trans at_.2.1, inductionHypothesis at_.2.2 ?_⟩
    intro place low high
    exact same place (by omega) (by rw [List.length_cons]; omega)

/-- The end of a string is put behind a part of it. -/
theorem TextAt.cut (at_ : TextAt memory s (text ++ more)) (ends : other (s + text.length) = 0)
    (same : forall place, s <= place -> place < s + text.length -> other place = memory place) :
    TextAt other s text := by
  induction text generalizing s with
  | nil => exact ends
  | cons c rest inductionHypothesis =>
    rw [List.length_cons] at ends same
    refine ⟨at_.1, (same s (Nat.le_refl _) (by omega)).trans at_.2.1, inductionHypothesis at_.2.2 ?_ ?_⟩
    · rw [← ends]
      congr 1
      omega
    · exact fun place low high => same place (by omega) (by omega)

theorem TextAt.rest (at_ : TextAt memory s (text ++ more)) : TextAt memory (s + text.length) more := by
  induction text generalizing s with
  | nil => exact at_
  | cons c rest inductionHypothesis =>
    have after := inductionHypothesis at_.2.2
    rw [Nat.add_assoc, Nat.add_comm 1] at after
    exact after

end Text

/-! ## The loops -/

section Loops

variable {memory : Memory} {s fuel : Nat} {text : List UInt8}

theorem skipLoop_stops (at_ : TextAt memory s text) (enough : text.length < fuel) :
    Exists fun after =>
      skipLoop fuel memory s = some ⟨after, s + (text.takeWhile (isIn whitespace)).length⟩ /\
      TextAt after (s + (text.takeWhile (isIn whitespace)).length) (text.dropWhile (isIn whitespace)) /\
      (forall place, place < s \/ s + (text.takeWhile (isIn whitespace)).length <= place ->
        after place = memory place) /\
      forall place, s <= place -> place < s + (text.takeWhile (isIn whitespace)).length -> after place = 0 := by
  induction text generalizing memory s fuel with
  | nil =>
    cases fuel with
    | zero => exact absurd enough (Nat.not_lt_zero _)
    | succ fuel =>
      have ended : memory s = 0 := at_
      refine ⟨memory, ?_, at_, fun _ _ => rfl, fun place low high => absurd high (Nat.not_lt.mpr low)⟩
      rw [skipLoop, ended]
      exact if_neg (by decide)
  | cons c rest inductionHypothesis =>
    cases fuel with
    | zero => exact absurd enough (Nat.not_lt_zero _)
    | succ fuel =>
      rw [skipLoop, at_.2.1]
      cases blank : isIn whitespace c with
      | false =>
        rw [if_neg (by decide), List.takeWhile_cons_of_neg (by rw [blank]; decide),
          List.dropWhile_cons_of_neg (by rw [blank]; decide)]
        exact ⟨memory, rfl, at_, fun _ _ => rfl, fun place low high => absurd high (Nat.not_lt.mpr low)⟩
      | true =>
        have next : TextAt (Function.update memory s 0) (s + 1) rest :=
          at_.2.2.congr (fun place low _ => Function.update_of_ne (by omega) ..)
        rcases inductionHypothesis next (Nat.lt_of_succ_lt_succ enough) with ⟨after, ran, left, same, zero⟩
        rw [if_pos rfl, List.takeWhile_cons_of_pos blank, List.dropWhile_cons_of_pos blank, List.length_cons]
        have reach : s + ((rest.takeWhile (isIn whitespace)).length + 1) =
            s + 1 + (rest.takeWhile (isIn whitespace)).length := by omega
        rw [reach]
        refine ⟨after, ran, left, fun place outside => ?_, fun place low high => ?_⟩
        · rw [same place (by omega), Function.update_of_ne (by omega)]
        · rcases Decidable.em (place = s) with here | other
          · rw [here, same s (by omega), Function.update_self]
          · exact zero place (by omega) high

/-- A word is followed by a blank or a symbol, or it is the last one. -/
def Stops (text : List UInt8) : Prop := forall c rest, text = c :: rest -> isIn (whitespace ++ symbols) c = true

theorem spanWord_stops (flag : Bool) (text : List UInt8) : Stops (spanWord flag text).2 := by
  induction text generalizing flag with
  | nil =>
    intro c rest absurd
    cases absurd
  | cons first rest inductionHypothesis =>
    rw [spanWord]
    split
    · exact inductionHypothesis _
    · next stop =>
      intro c more same
      cases same
      rcases Bool.eq_false_or_eq_true (isIn (whitespace ++ symbols) first) with found | absent
      · exact found
      · exact absurd (.inr absent) stop

theorem wordLoop_stops (flag : Bool) (at_ : TextAt memory s text) (enough : text.length < fuel) :
    Exists fun after =>
      wordLoop fuel flag memory s = some ⟨after, s + (spanWord flag text).1.length⟩ /\
      TextAt after s ((spanWord flag text).1 ++ (spanWord flag text).2) /\
      forall place, place < s -> after place = memory place := by
  induction text generalizing memory s fuel flag with
  | nil =>
    cases fuel with
    | zero => exact absurd enough (Nat.not_lt_zero _)
    | succ fuel =>
      refine ⟨memory, ?_, at_, fun _ _ => rfl⟩
      rw [wordLoop]
      exact if_neg (fun both => both.1 at_)
  | cons c rest inductionHypothesis =>
    cases fuel with
    | zero => exact absurd enough (Nat.not_lt_zero _)
    | succ fuel =>
      rw [wordLoop, spanWord, at_.2.1]
      split
      · next goes =>
        rw [if_pos goes.2]
        rcases Decidable.em (c = quote) with quoted | plain
        · have next : TextAt (Function.update memory s 32) (s + 1) rest :=
            at_.2.2.congr (fun place low _ => Function.update_of_ne (by omega) ..)
          rcases inductionHypothesis (!flag) next (Nat.lt_of_succ_lt_succ enough) with ⟨after, ran, left, same⟩
          have reach : s + ((spanWord (!flag) rest).1.length + 1) = s + 1 + (spanWord (!flag) rest).1.length := by
            omega
          rw [if_pos quoted, if_pos quoted, if_pos quoted, List.length_cons, reach]
          refine ⟨after, ran, ⟨by decide, ?_, left⟩, fun place low => ?_⟩
          · rw [same s (Nat.lt_succ_self s), Function.update_self]
          · rw [same place (by omega), Function.update_of_ne (by omega)]
        · rcases inductionHypothesis flag at_.2.2 (Nat.lt_of_succ_lt_succ enough) with ⟨after, ran, left, same⟩
          have reach : s + ((spanWord flag rest).1.length + 1) = s + 1 + (spanWord flag rest).1.length := by omega
          rw [if_neg plain, if_neg plain, if_neg plain, List.length_cons, reach]
          refine ⟨after, ran, ⟨at_.1, ?_, left⟩, fun place low => same place (by omega)⟩
          rw [same s (Nat.lt_succ_self s)]
          exact at_.2.1
      · next stops =>
        rw [if_neg (fun goes => stops ⟨at_.1, goes⟩)]
        exact ⟨memory, rfl, at_, fun _ _ => rfl⟩

end Loops

/-! ## One token -/

/-- The pointer stands at the rest of the text; it is null at the end. -/
def Line.Holds (line : Line) (text : List UInt8) : Prop :=
  line.cmd.elim (text = []) (fun s => TextAt line.memory s text)

/-- A word has its end, in front of the rest of the text. -/
def Line.Closed (line : Line) (t : Nat) (word : List UInt8) : Prop :=
  TextAt line.memory t word /\ forall s, line.cmd = some s -> t + word.length < s

/-- A word has its end, or it is the last one and runs on into the rest. -/
def Line.Keeps (line : Line) (text : List UInt8) (t : Nat) (word : List UInt8) : Prop :=
  line.Closed t word \/ (line.cmd = some (t + word.length) /\ TextAt line.memory t (word ++ text) /\ Stops text)

section Tokens

variable {memory : Memory} {s t fuel : Nat} {text rest word : List UInt8} {line : Line}

theorem TextAt.ended_iff (at_ : TextAt memory s text) : memory s = 0 <-> text = [] := by
  cases text with
  | nil => exact iff_of_true at_ rfl
  | cons c rest => exact iff_of_false (fun zero => at_.1 (at_.2.1.symm.trans zero)) (fun absurd => by cases absurd)

theorem Stop.line_holds {stop : Stop} (at_ : TextAt stop.memory stop.place text) : stop.line.Holds text := by
  unfold Stop.line Line.Holds
  rcases Decidable.em (stop.memory stop.place = 0) with ended | more
  · rw [if_neg (fun other => other ended)]
    exact at_.ended_iff.mp ended
  · rw [if_pos more]
    exact at_

theorem Stop.line_cmd {stop : Stop} {place : Nat} (there : stop.line.cmd = some place) : place = stop.place := by
  unfold Stop.line at there
  dsimp only at there
  split at there
  · exact (Option.some.inj there).symm
  · cases there

/-- Blanks are skipped, and a word that ran on into them has its end. -/
theorem skip_keeps {after : Memory} {count : Nat} (keeps : (⟨memory, some s⟩ : Line).Keeps text t word)
    (blanks : count = (text.takeWhile (isIn whitespace)).length)
    (same : forall place, place < s \/ s + count <= place -> after place = memory place)
    (zero : forall place, s <= place -> place < s + count -> after place = 0) :
    (⟨after, some (s + count)⟩ : Line).Keeps (text.dropWhile (isIn whitespace)) t word := by
  rcases keeps with ⟨ended, before⟩ | ⟨here, runs, stops⟩
  · have low : t + word.length < s := before s rfl
    refine .inl ⟨ended.congr (fun place _ high => same place (by omega)), fun other place => ?_⟩
    cases place
    omega
  · have place : t + word.length = s := (Option.some.inj here).symm
    rcases Nat.eq_zero_or_pos count with none_ | some_
    · have whole : text.dropWhile (isIn whitespace) = text := by
        have empty := List.eq_nil_of_length_eq_zero (blanks.symm.trans none_)
        have parts : text.takeWhile (isIn whitespace) ++ text.dropWhile (isIn whitespace) = text :=
          List.takeWhile_append_dropWhile
        rw [empty, List.nil_append] at parts
        exact parts
      refine .inr ⟨by rw [none_, place]; rfl, ?_, by rw [whole]; exact stops⟩
      rw [whole]
      exact runs.congr (fun place _ _ => same place (by omega))
    · refine .inl ⟨runs.cut (zero _ (by omega) (by omega)) (fun place _ high => same place (by omega)),
        fun other there => ?_⟩
      cases there
      omega

theorem gettoken_skips (at_ : TextAt memory s text) (enough : text.length < fuel) :
    Exists fun after => Exists fun place =>
      skipLoop fuel memory s = some ⟨after, place⟩ /\ TextAt after place (text.dropWhile (isIn whitespace)) /\
      forall t word, (⟨memory, some s⟩ : Line).Keeps text t word ->
        (⟨after, some place⟩ : Line).Keeps (text.dropWhile (isIn whitespace)) t word := by
  rcases skipLoop_stops at_ enough with ⟨after, ran, left, same, zero⟩
  exact ⟨after, _, ran, left, fun t word keeps => skip_keeps keeps rfl same zero⟩

theorem Line.Keeps.at_end (keeps : line.Keeps [] t word) : TextAt line.memory t word := by
  rcases keeps with closed | ⟨_, runs, _⟩
  · exact closed.1
  · rw [List.append_nil] at runs
    exact runs

theorem firstToken_eq_none (ended : firstToken text = none) : text = [] := by
  cases text with
  | nil => rfl
  | cons c rest =>
    rcases Bool.eq_false_or_eq_true (isIn symbols c) with symbol | other
    · rw [firstToken, if_pos symbol] at ended
      cases ended
    · rw [firstToken, if_neg (by rw [other]; decide)] at ended
      cases ended

theorem firstToken_symbol {c : UInt8} (found : firstToken text = some (.symbol c, rest)) :
    text = c :: rest /\ isIn symbols c = true := by
  cases text with
  | nil => cases found
  | cons first more =>
    rcases Bool.eq_false_or_eq_true (isIn symbols first) with symbol | other
    · rw [firstToken, if_pos symbol] at found
      cases found
      exact ⟨rfl, symbol⟩
    · rw [firstToken, if_neg (by rw [other]; decide)] at found
      cases found

theorem firstToken_word (found : firstToken text = some (.word word, rest)) :
    Exists fun c => Exists fun more => text = c :: more /\ isIn symbols c = false /\
      (spanWord false text).1 = word /\ (spanWord false text).2 = rest := by
  cases text with
  | nil => cases found
  | cons first more =>
    rcases Bool.eq_false_or_eq_true (isIn symbols first) with symbol | other
    · rw [firstToken, if_pos symbol] at found
      cases found
    · rw [firstToken, if_neg (by rw [other]; decide)] at found
      cases found
      exact ⟨first, more, rfl, other, rfl, rfl⟩

/-- What a word begins with is neither a blank nor a symbol. -/
theorem outside_of_plain {c : UInt8} (whole : text.dropWhile (isIn whitespace) = c :: rest)
    (plain : isIn symbols c = false) : isIn (whitespace ++ symbols) c = false := by
  have blank : isIn whitespace c = false := by
    have head := List.head?_dropWhile_not (isIn whitespace) text
    rw [whole] at head
    exact head
  unfold isIn at *
  rw [List.contains_append, blank, plain]
  rfl

/-- At the end of the line all words have their ends. -/
theorem gettoken_none (holds : line.Holds text) (enough : text.length < fuel) (ended : nextToken text = none) :
    Exists fun after => gettoken fuel t line = some ⟨0, t, after⟩ /\
      forall t word, line.Keeps text t word -> TextAt after.memory t word := by
  rcases line with ⟨memory, cmd⟩
  cases cmd with
  | none =>
    have empty : text = [] := holds
    rw [empty]
    exact ⟨⟨memory, none⟩, rfl, fun t word keeps => keeps.at_end⟩
  | some s =>
    rcases gettoken_skips holds enough with ⟨after, place, ran, left, keeps⟩
    have empty := firstToken_eq_none ended
    rw [empty] at left keeps
    refine ⟨⟨after, some s⟩, ?_, fun t word kept => (keeps t word kept).at_end⟩
    show (skipLoop fuel memory s).bind _ = _
    rw [ran]
    exact if_pos left

/-- A symbol ends the word before it. -/
theorem gettoken_symbol {c : UInt8} (holds : line.Holds text) (enough : text.length < fuel)
    (found : nextToken text = some (.symbol c, rest)) :
    Exists fun after => Exists fun place => gettoken fuel t line = some ⟨c, place, after⟩ /\ after.Holds rest /\
      forall t word, line.Keeps text t word -> after.Closed t word := by
  rcases line with ⟨memory, cmd⟩
  cases cmd with
  | none =>
    have empty : text = [] := holds
    rw [empty] at found
    cases found
  | some s =>
    rcases gettoken_skips holds enough with ⟨after, place, ran, left, keeps⟩
    rcases firstToken_symbol found with ⟨whole, symbol⟩
    rw [whole] at left keeps
    have rest_ : TextAt (Function.update after place 0) (place + 1) rest :=
      left.2.2.congr (fun other low _ => Function.update_of_ne (by omega) ..)
    have moved : (Stop.line ⟨Function.update after place 0, place + 1⟩).Holds rest := Stop.line_holds rest_
    refine ⟨_, place, ?_, moved, ?_⟩
    · show (skipLoop fuel memory s).bind _ = _
      rw [ran]
      show (if after place = 0 then _ else if isIn symbols (after place) = true then _ else _) = _
      rw [left.2.1, if_neg left.1, if_pos symbol]
      dsimp only
      rw [left.2.1]
    · intro t word kept
      rcases keeps t word kept with ⟨ended, before⟩ | ⟨here, runs, _⟩
      · have low := before place rfl
        refine ⟨ended.congr (fun other _ high => Function.update_of_ne (by omega) ..), fun other there => ?_⟩
        rw [Stop.line_cmd there]
        dsimp only
        omega
      · have here : t + word.length = place := (Option.some.inj here).symm
        refine ⟨runs.cut ?_ (fun other _ high => Function.update_of_ne (by omega) ..), fun other there => ?_⟩
        · rw [here]
          exact Function.update_self ..
        · rw [Stop.line_cmd there]
          dsimp only
          omega

/-- A word is found, and the word before it has its end. -/
theorem gettoken_word {found : List UInt8} (holds : line.Holds text) (enough : text.length < fuel)
    (next : nextToken text = some (.word found, rest)) :
    Exists fun after => Exists fun place => gettoken fuel t line = some ⟨wordToken, place, after⟩ /\
      after.Holds rest /\ after.Keeps rest place found /\ TextAt after.memory place (found ++ rest) /\
      forall t word, line.Keeps text t word -> after.Closed t word := by
  rcases line with ⟨memory, cmd⟩
  cases cmd with
  | none =>
    have empty : text = [] := holds
    rw [empty] at next
    cases next
  | some s =>
    rcases gettoken_skips holds enough with ⟨start, place, ran, left, keeps⟩
    rcases firstToken_word next with ⟨c, more, whole, plain, rfl, rfl⟩
    have short : (text.dropWhile (isIn whitespace)).length < fuel :=
      Nat.lt_of_le_of_lt (List.dropWhile_suffix _).length_le enough
    rcases wordLoop_stops false left short with ⟨after, loop, runs, same⟩
    have stops := spanWord_stops false (text.dropWhile (isIn whitespace))
    have outside := outside_of_plain whole plain
    have begun : (start place = 0) = False := by
      rw [whole] at left
      exact eq_false (fun zero => left.1 (left.2.1.symm.trans zero))
    have symbol : isIn symbols (start place) = false := by
      rw [whole] at left
      rw [left.2.1]
      exact plain
    generalize (spanWord false (text.dropWhile (isIn whitespace))).1 = found at *
    generalize (spanWord false (text.dropWhile (isIn whitespace))).2 = rest at *
    have moved : (Stop.line ⟨after, place + found.length⟩).Holds rest := Stop.line_holds runs.rest
    refine ⟨_, place, ?_, moved, ?_, runs, ?_⟩
    · show (skipLoop fuel memory s).bind _ = _
      rw [ran]
      show (if start place = 0 then _ else if isIn symbols (start place) = true then _ else _) = _
      rw [if_neg (by rw [begun]; exact not_false), symbol, if_neg (by decide), loop]
      rfl
    · unfold Stop.line
      dsimp only
      rcases Decidable.em (after (place + found.length) = 0) with ended | more
      · rw [if_neg (fun other => other ended)]
        refine .inl ⟨?_, fun _ absurd => by cases absurd⟩
        exact runs.cut ended (fun _ _ _ => rfl)
      · rw [if_pos more]
        exact .inr ⟨rfl, runs, stops⟩
    · intro t word kept
      rcases keeps t word kept with ⟨ended, before⟩ | ⟨_, _, stopped⟩
      · have low := before place rfl
        refine ⟨ended.congr (fun other _ high => same other (by omega)), fun other there => ?_⟩
        rw [Stop.line_cmd there]
        dsimp only
        omega
      · rw [stopped c more whole] at outside
        cases outside

end Tokens

end Shell
end Ucore
