import Mathlib.Data.List.Forall2
import Ucore.Shell.Lexer

namespace Ucore
namespace Shell

/-!
# Command lines

`runcmd` collects the words of a command and starts it at the end of the line,
at `|` or at `;`.  The words of a command have their ends by then.  The name
after `<` or `>` is used before it has one, so what is opened is the name with
everything behind it on the line.

At `|` and `;` the shell forks, and one of the two processes is left with the
command while the other goes on with the line.  At `|` both first call `dup2`
on an end of the array `p`.  The call of `pipe` that would fill `p` is
commented out, so these calls are on descriptors that nothing has set, and
either of them may fail.
-/

def execMaxArgNum : Nat := 32

def bufsize : Nat := 4096

/-- What ends a command -/
inductive Ending where
  | line
  | pipe
  | semicolon
deriving DecidableEq, Repr

/-- What the shell does with a line.  Behind a `fork` that succeeds stand the
events of the process that is left with the command, and behind them those of
the one that goes on. -/
inductive Event where
  | reopen (fd2 : Nat) (filename : List UInt8)
  | fork (ending : Ending)
  /-- `close(fd2)` and `dup2(p[fd2], fd2)`, and, unless `dup2` fails, the
  closing of both descriptors in `p` -/
  | connect (fd2 : Nat)
  | runit (ending : Ending) (argv : List (List UInt8))
  | error (text : String)
deriving DecidableEq, Repr

/-- Whether the system calls of a line succeed.  They are told apart by the
number of tokens before them, so that two calls with the same arguments may
have different results. -/
structure Answers where
  reopens : Nat -> Nat -> List UInt8 -> Bool
  forks : Nat -> Bool
  connects : Nat -> Nat -> Bool

/-! ## The code -/

/-- The string at a pointer -/
def stringAt (memory : Memory) : Nat -> Nat -> List UInt8
  | 0, _ => []
  | limit + 1, t => if memory t = 0 then [] else memory t :: stringAt memory limit (t + 1)

/-- The descriptor that a redirection is for -/
def redirected (token : UInt8) : Nat := if token = 60 then 0 else 1

def notFollowed (token : UInt8) : Event :=
  if token = 60 then .error "sh error: syntax error: < not followed by word\n"
  else .error "sh error: syntax error: > not followed by word\n"

/-- What happens at `|` when the process that goes on does the rest: a failed
`fork` or `dup2` is where its process returns. -/
def piped (answers : Answers) (made : Nat) (argv : List (List UInt8)) (rest : List Event) : List Event :=
  .fork .pipe ::
    if answers.forks made = true then
      .connect 1 :: (if answers.connects made 1 = true then [.runit .pipe argv] else []) ++
        .connect 0 :: (if answers.connects made 0 = true then rest else [])
    else []

/-- What happens at `;`.  The shell waits for the command before the rest. -/
def sequenced (answers : Answers) (made : Nat) (argv : List (List UInt8)) (rest : List Event) : List Event :=
  .fork .semicolon :: if answers.forks made = true then .runit .semicolon argv :: rest else []

/-- The loop of `runcmd` up to `runit`, after so many tokens.  The rest of the
line is only looked at by a process that is there to do so. -/
def runcmd (answers : Answers) (fuel : Nat) : Nat -> Nat -> Line -> List Nat -> Nat -> Option (List Event)
  | 0, _, _, _, _ => none
  | turns + 1, made, line, argv, t =>
      (gettoken fuel t line).bind (fun got =>
        if got.token = wordToken then
          if argv.length = execMaxArgNum then some [.error "sh error: too many arguments\n"]
          else runcmd answers fuel turns (made + 1) got.line (argv ++ [got.t]) got.t
        else if got.token = 60 \/ got.token = 62 then
          (gettoken fuel got.t got.line).bind (fun file =>
            if file.token ≠ wordToken then some [notFollowed got.token]
            else if answers.reopens made (redirected got.token) (stringAt file.line.memory fuel file.t) = true then
              (runcmd answers fuel turns (made + 1) file.line argv file.t).map
                (.reopen (redirected got.token) (stringAt file.line.memory fuel file.t) :: ·)
            else some [.reopen (redirected got.token) (stringAt file.line.memory fuel file.t)])
        else if got.token = 124 then
          if answers.forks made = true /\ answers.connects made 0 = true then
            (runcmd answers fuel turns (made + 1) got.line [] got.t).map
              (piped answers made (argv.map (stringAt got.line.memory fuel)))
          else some (piped answers made (argv.map (stringAt got.line.memory fuel)) [])
        else if got.token = 0 then some [.runit .line (argv.map (stringAt got.line.memory fuel))]
        else if got.token = 59 then
          if answers.forks made = true then
            (runcmd answers fuel turns (made + 1) got.line [] got.t).map
              (sequenced answers made (argv.map (stringAt got.line.memory fuel)))
          else some (sequenced answers made (argv.map (stringAt got.line.memory fuel)) [])
        else some [.error "sh error: bad return 38 from gettoken\n"])

/-- The loop of `readline` over the characters that are read, with the buffer
and what is left to read; there is no buffer for `NULL`. -/
def readlineLoop : List UInt8 -> Memory -> Nat -> Option Memory × List UInt8
  | [], buffer, i => (if 0 < i then some (Function.update buffer i 0) else none, [])
  | c :: rest, buffer, i =>
      if c = 3 then (none, rest)
      else if 32 <= c /\ i < bufsize - 1 then readlineLoop rest (Function.update buffer i c) (i + 1)
      else if c = 8 /\ 0 < i then readlineLoop rest buffer (i - 1)
      else if c = 10 \/ c = 13 then (some (Function.update buffer i 0), rest)
      else readlineLoop rest buffer i

/-! ## What is meant -/

section Lengths

variable {text rest word : List UInt8}

theorem spanWord_length (flag : Bool) (text : List UInt8) :
    (spanWord flag text).1.length + (spanWord flag text).2.length = text.length := by
  induction text generalizing flag with
  | nil => rfl
  | cons c rest inductionHypothesis =>
    rw [spanWord]
    split
    · have after := inductionHypothesis (if c = quote then !flag else flag)
      simp only [List.length_cons]
      omega
    · exact Nat.zero_add _

theorem nextToken_symbol {c : UInt8} (found : nextToken text = some (.symbol c, rest)) :
    rest.length < text.length /\ isIn symbols c = true := by
  rcases firstToken_symbol found with ⟨whole, symbol⟩
  have short := (List.dropWhile_suffix (isIn whitespace) (l := text)).length_le
  rw [whole, List.length_cons] at short
  exact ⟨short, symbol⟩

theorem nextToken_word (found : nextToken text = some (.word word, rest)) :
    word.length + rest.length <= text.length /\ rest.length < text.length := by
  rcases firstToken_word found with ⟨c, more, whole, plain, rfl, rfl⟩
  have short := (List.dropWhile_suffix (isIn whitespace) (l := text)).length_le
  have parts := spanWord_length false (text.dropWhile (isIn whitespace))
  have some_ : 0 < (spanWord false (text.dropWhile (isIn whitespace))).1.length := by
    rw [whole, spanWord, if_pos (.inr (outside_of_plain whole plain))]
    exact Nat.succ_pos _
  omega

end Lengths

/-- What is done with the rest of a line, after some tokens and with some words
of a command -/
def script (answers : Answers) (made : Nat) (text : List UInt8) (argv : List (List UInt8)) : List Event :=
  match _next : nextToken text with
  | none => [.runit .line argv]
  | some (.word word, rest) =>
      if argv.length = execMaxArgNum then [.error "sh error: too many arguments\n"]
      else script answers (made + 1) rest (argv ++ [word])
  | some (.symbol c, rest) =>
      if c = 60 \/ c = 62 then
        match _file : nextToken rest with
        | some (.word name, behind) =>
            .reopen (redirected c) (name ++ behind) ::
              if answers.reopens made (redirected c) (name ++ behind) = true then script answers (made + 1) behind argv
              else []
        | _ => [notFollowed c]
      else if c = 124 then piped answers made argv (script answers (made + 1) rest [])
      else if c = 59 then sequenced answers made argv (script answers (made + 1) rest [])
      else [.error "sh error: bad return 38 from gettoken\n"]
termination_by text.length
decreasing_by
  · exact (nextToken_word _next).2
  · exact Nat.lt_trans (nextToken_word _file).2 (nextToken_symbol _next).1
  · exact (nextToken_symbol _next).1
  · exact (nextToken_symbol _next).1

section Script

variable {answers : Answers} {made : Nat} {text rest behind word : List UInt8} {argv : List (List UInt8)} {c : UInt8}

theorem script_none (ended : nextToken text = none) : script answers made text argv = [.runit .line argv] := by
  rw [script]
  split
  · rfl
  · next found => rw [ended] at found; cases found
  · next found => rw [ended] at found; cases found

theorem script_word (found : nextToken text = some (.word word, rest)) :
    script answers made text argv =
      if argv.length = execMaxArgNum then [.error "sh error: too many arguments\n"]
      else script answers (made + 1) rest (argv ++ [word]) := by
  rw [script]
  split
  · next other => rw [found] at other; cases other
  · next other => rw [found] at other; cases other; rfl
  · next other => rw [found] at other; cases other

theorem script_redirect (found : nextToken text = some (.symbol c, rest)) (redirect : c = 60 \/ c = 62)
    (name : nextToken rest = some (.word word, behind)) :
    script answers made text argv = .reopen (redirected c) (word ++ behind) ::
      if answers.reopens made (redirected c) (word ++ behind) = true then script answers (made + 1) behind argv
      else [] := by
  rw [script]
  split
  · next other => rw [found] at other; cases other
  · next other => rw [found] at other; cases other
  · next other =>
    rw [found] at other
    cases other
    rw [if_pos redirect]
    split
    · next also => rw [name] at also; cases also; rfl
    · next none_ => exact absurd name (none_ word behind)

theorem script_notFollowed (found : nextToken text = some (.symbol c, rest)) (redirect : c = 60 \/ c = 62)
    (missing : forall word behind, nextToken rest ≠ some (.word word, behind)) :
    script answers made text argv = [notFollowed c] := by
  rw [script]
  split
  · next other => rw [found] at other; cases other
  · next other => rw [found] at other; cases other
  · next other =>
    rw [found] at other
    cases other
    rw [if_pos redirect]
    split
    · next also => exact absurd also (missing _ _)
    · rfl

theorem script_ending (found : nextToken text = some (.symbol c, rest)) (other : Not (c = 60 \/ c = 62)) :
    script answers made text argv =
      if c = 124 then piped answers made argv (script answers (made + 1) rest [])
      else if c = 59 then sequenced answers made argv (script answers (made + 1) rest [])
      else [.error "sh error: bad return 38 from gettoken\n"] := by
  rw [script]
  split
  · next also => rw [found] at also; cases also
  · next also => rw [found] at also; cases also
  · next also =>
    rw [found] at also
    cases also
    exact if_neg other

end Script

section Strings

variable {memory : Memory} {t limit : Nat} {text : List UInt8}

theorem stringAt_eq (at_ : TextAt memory t text) (ended : text.length < limit) :
    stringAt memory limit t = text := by
  induction text generalizing t limit with
  | nil =>
    cases limit with
    | zero => rfl
    | succ limit => exact if_pos at_
  | cons c rest inductionHypothesis =>
    cases limit with
    | zero => exact absurd ended (Nat.not_lt_zero _)
    | succ limit =>
      rw [stringAt, at_.2.1, if_neg at_.1, inductionHypothesis at_.2.2 (Nat.lt_of_succ_lt_succ ended)]

end Strings

/-! ## The line is done as it is meant -/

section Runs

variable {answers : Answers} {text rest : List UInt8} {argv : List Nat} {words : List (List UInt8)}
  {line after : Line} {memory : Memory} {fuel turns made t : Nat}

/-- The rest of the line is not looked at where nobody goes on with it. -/
theorem piped_alone (words : List (List UInt8)) (events : List Event)
    (alone : ¬ (answers.forks made = true /\ answers.connects made 0 = true)) :
    piped answers made words events = piped answers made words [] := by
  unfold piped
  by_cases forked : answers.forks made = true
  · rw [if_pos forked, if_pos forked, if_neg fun connected => alone ⟨forked, connected⟩, ite_self]
  · rw [if_neg forked, if_neg forked]

theorem sequenced_alone (words : List (List UInt8)) (events : List Event) (alone : ¬ answers.forks made = true) :
    sequenced answers made words events = sequenced answers made words [] := by
  unfold sequenced
  rw [if_neg alone, if_neg alone]

/-- The pointers are to the words of a command, as far as it has been read. -/
def Line.Words (line : Line) (fuel : Nat) (text : List UInt8) : List Nat -> List (List UInt8) -> Prop :=
  List.Forall₂ (fun t word => line.Keeps text t word /\ word.length < fuel)

theorem strings_eq (at_ : List.Forall₂ (fun t word => TextAt memory t word /\ word.length < fuel) argv words) :
    argv.map (stringAt memory fuel) = words := by
  induction at_ with
  | nil => rfl
  | cons here _ inductionHypothesis => rw [List.map_cons, stringAt_eq here.1 here.2, inductionHypothesis]

theorem Line.Words.closed (kept : line.Words fuel text argv words)
    (closes : forall t word, line.Keeps text t word -> after.Closed t word) :
    after.Words fuel rest argv words /\ argv.map (stringAt after.memory fuel) = words :=
  ⟨kept.imp (fun t word both => ⟨.inl (closes t word both.1), both.2⟩),
    strings_eq (kept.imp (fun t word both => ⟨(closes t word both.1).1, both.2⟩))⟩

theorem symbol_ne {c : UInt8} (symbol : isIn symbols c = true) : c ≠ wordToken /\ c ≠ 0 :=
  ⟨fun same => absurd symbol (by rw [same]; decide), fun same => absurd symbol (by rw [same]; decide)⟩

/-- The code on a line does what is meant by it. -/
theorem runcmd_eq (holds : line.Holds text) (kept : line.Words fuel text argv words) (enough : text.length < fuel)
    (many : text.length < turns) :
    runcmd answers fuel turns made line argv t = some (script answers made text words) := by
  induction turns generalizing made line text argv words t with
  | zero => exact absurd many (Nat.not_lt_zero _)
  | succ turns inductionHypothesis =>
    rw [runcmd]
    cases next : nextToken text with
    | none =>
      rcases gettoken_none (t := t) holds enough next with ⟨after, ran, ends⟩
      have strings : argv.map (stringAt after.memory fuel) = words :=
        strings_eq (kept.imp (fun t word both => ⟨ends t word both.1, both.2⟩))
      rw [ran, Option.bind_some]
      dsimp only
      rw [if_neg (by decide), if_neg (by decide), if_neg (by decide), if_pos rfl, strings, script_none next]
    | some found =>
      rcases found with ⟨token, rest⟩
      cases token with
      | word word =>
        rcases gettoken_word (t := t) holds enough next with ⟨after, place, ran, holdsAfter, here, at_, closes⟩
        have lengths := nextToken_word next
        rw [ran, Option.bind_some, if_pos rfl, script_word next, kept.length_eq]
        split
        · rfl
        · refine inductionHypothesis holdsAfter ?_ (by omega) (by omega)
          exact List.rel_append (kept.closed closes).1 (.cons ⟨here, by omega⟩ .nil)
      | symbol c =>
        rcases gettoken_symbol (t := t) holds enough next with ⟨after, place, ran, holdsAfter, closes⟩
        rcases nextToken_symbol next with ⟨shorter, symbol⟩
        have closed : after.Words fuel rest argv words /\ argv.map (stringAt after.memory fuel) = words :=
          kept.closed closes
        have left : rest.length < fuel := by omega
        rw [ran, Option.bind_some]
        dsimp only
        rw [if_neg (symbol_ne symbol).1]
        rcases Decidable.em (c = 60 \/ c = 62) with redirect | other
        · rw [if_pos redirect]
          cases file : nextToken rest with
          | none =>
            rcases gettoken_none (t := place) holdsAfter left file with ⟨last, ranLast, _⟩
            rw [ranLast, Option.bind_some]
            dsimp only
            rw [if_pos (by decide),
              script_notFollowed next redirect (fun _ _ found => by rw [file] at found; cases found)]
          | some found =>
            rcases found with ⟨token, behind⟩
            cases token with
            | symbol more =>
              rcases gettoken_symbol (t := place) holdsAfter left file with ⟨last, there, ranLast, _⟩
              rw [ranLast, Option.bind_some]
              dsimp only
              rw [if_pos (symbol_ne (nextToken_symbol file).2).1,
                script_notFollowed next redirect (fun _ _ found => by rw [file] at found; cases found)]
            | word name =>
              rcases gettoken_word (t := place) holdsAfter left file with
                ⟨last, there, ranLast, holdsLast, _, at_, closesLast⟩
              have lengths := nextToken_word file
              have filename : stringAt last.memory fuel there = name ++ behind :=
                stringAt_eq at_ (by rw [List.length_append]; omega)
              rw [ranLast, Option.bind_some]
              dsimp only
              rw [if_neg (fun other => other rfl), filename, script_redirect next redirect file]
              split
              · rw [inductionHypothesis holdsLast (closed.1.closed closesLast).1 (by omega) (by omega)]
                rfl
              · rfl
        · rw [if_neg other, script_ending next other, closed.2]
          rcases Decidable.em (c = 124) with pipe | notPipe
          · rw [if_pos pipe, if_pos pipe]
            by_cases goesOn : answers.forks made = true /\ answers.connects made 0 = true
            · rw [if_pos goesOn, inductionHypothesis holdsAfter .nil (by omega) (by omega)]
              rfl
            · rw [if_neg goesOn, piped_alone _ (script answers (made + 1) rest []) goesOn]
          · rw [if_neg notPipe, if_neg notPipe, if_neg (symbol_ne symbol).2]
            rcases Decidable.em (c = 59) with semicolon | neither
            · rw [if_pos semicolon, if_pos semicolon]
              by_cases forked : answers.forks made = true
              · rw [if_pos forked, inductionHypothesis holdsAfter .nil (by omega) (by omega)]
                rfl
              · rw [if_neg forked, sequenced_alone _ (script answers (made + 1) rest []) forked]
            · rw [if_neg neither, if_neg neither]

end Runs

/-! ## From the keys to the commands -/

/-- The line that is typed after some text, and what is left to read -/
def typed : List UInt8 -> List UInt8 -> Option (List UInt8) × List UInt8
  | [], text => (if text = [] then none else some text, [])
  | c :: rest, text =>
      if c = 3 then (none, rest)
      else if 32 <= c /\ text.length < bufsize - 1 then typed rest (text ++ [c])
      else if c = 8 /\ text ≠ [] then typed rest text.dropLast
      else if c = 10 \/ c = 13 then (some text, rest)
      else typed rest text

section Typing

variable {memory : Memory} {place : Nat} {text : List UInt8}

/-- The text is in the buffer, without its end. -/
structure Typed (start buffer : Memory) (text : List UInt8) : Prop where
  stored : TextAt (Function.update buffer text.length 0) 0 text
  room : text.length < bufsize
  outside : forall place, bufsize <= place -> buffer place = start place

theorem TextAt.snoc {c : UInt8} (at_ : TextAt memory place text) (any : c ≠ 0) :
    TextAt (Function.update (Function.update memory (place + text.length) c) (place + text.length + 1) 0) place
      (text ++ [c]) := by
  induction text generalizing place with
  | nil =>
    refine ⟨any, ?_, Function.update_self ..⟩
    rw [Function.update_of_ne (by simp)]
    exact Function.update_self ..
  | cons first rest inductionHypothesis =>
    have after := inductionHypothesis at_.2.2
    have reach : place + (first :: rest).length = place + 1 + rest.length := by
      rw [List.length_cons]
      omega
    rw [reach]
    refine ⟨at_.1, ?_, after⟩
    rw [Function.update_of_ne (by omega), Function.update_of_ne (by omega)]
    exact at_.2.1

theorem Typed.key {start buffer : Memory} {c : UInt8} (typed : Typed start buffer text) (plain : 32 <= c)
    (room : text.length < bufsize - 1) : Typed start (Function.update buffer text.length c) (text ++ [c]) := by
  have any : c ≠ 0 := by
    intro zero
    rw [zero] at plain
    exact absurd plain (by decide)
  refine ⟨?_, ?_, fun place high => ?_⟩
  · have stored := typed.stored.snoc any
    rw [Nat.zero_add, Function.update_idem] at stored
    rw [List.length_append]
    exact stored
  · rw [List.length_append, List.length_singleton]
    unfold bufsize at *
    omega
  · have low := typed.room
    rw [Function.update_of_ne (by omega)]
    exact typed.outside place high

theorem Typed.erase {start buffer : Memory} (typed : Typed start buffer text) : Typed start buffer text.dropLast := by
  have room := typed.room
  rcases List.eq_nil_or_concat text with rfl | ⟨front, last, rfl⟩
  · exact typed
  · rw [List.concat_eq_append, List.dropLast_concat] at *
    rw [List.length_append, List.length_singleton] at room
    refine ⟨?_, by omega, typed.outside⟩
    refine typed.stored.cut ?_ (fun place _ high => ?_)
    · rw [Nat.zero_add]
      exact Function.update_self ..
    · rw [Nat.zero_add] at high
      rw [Function.update_of_ne (by omega), Function.update_of_ne (by rw [List.length_append]; omega)]

/-- The buffer holds what has been typed. -/
theorem readlineLoop_typed {start buffer : Memory} (input : List UInt8) (kept : Typed start buffer text) :
    (readlineLoop input buffer text.length).2 = (typed input text).2 /\
    ((typed input text).1 = none -> (readlineLoop input buffer text.length).1 = none) /\
    forall line, (typed input text).1 = some line -> Exists fun last =>
      (readlineLoop input buffer text.length).1 = some (Function.update last line.length 0) /\
        Typed start last line := by
  induction input generalizing buffer text with
  | nil =>
    rw [readlineLoop, typed]
    rcases Decidable.em (text = []) with rfl | some_
    · exact ⟨rfl, fun _ => rfl, fun _ absurd => by cases absurd⟩
    · rw [if_neg some_, if_pos (List.length_pos_iff.mpr some_)]
      refine ⟨rfl, fun absurd => (by cases absurd), fun line same => ?_⟩
      cases same
      exact ⟨buffer, rfl, kept⟩
  | cons c rest inductionHypothesis =>
    rw [readlineLoop, typed]
    rcases Decidable.em (c = 3) with interrupt | other
    · rw [if_pos interrupt, if_pos interrupt]
      exact ⟨rfl, fun _ => rfl, fun _ absurd => by cases absurd⟩
    · rw [if_neg other, if_neg other]
      rcases Decidable.em (32 <= c /\ text.length < bufsize - 1) with key | noKey
      · rw [if_pos key, if_pos key]
        have after := inductionHypothesis (kept.key key.1 key.2)
        rw [List.length_append, List.length_singleton] at after
        exact after
      · rw [if_neg noKey, if_neg noKey]
        rcases Decidable.em (c = 8 /\ text ≠ []) with back | noBack
        · rw [if_pos back, if_pos ⟨back.1, List.length_pos_iff.mpr back.2⟩]
          have after := inductionHypothesis kept.erase
          rw [List.length_dropLast] at after
          exact after
        · rw [if_neg noBack, if_neg (fun both => noBack ⟨both.1, List.length_pos_iff.mp both.2⟩)]
          rcases Decidable.em (c = 10 \/ c = 13) with ended | more
          · rw [if_pos ended, if_pos ended]
            refine ⟨rfl, fun absurd => (by cases absurd), fun line same => ?_⟩
            cases same
            exact ⟨buffer, rfl, kept⟩
          · rw [if_neg more, if_neg more]
            exact inductionHypothesis kept

end Typing

/-- What is typed is what is done: a line that is read is in the buffer, which
nothing is written behind, and in the buffer the shell finds the commands of
the line, each with its words in order and no others; but what it opens for
`<` or `>` is the word with everything behind it on the line.  This is so
whatever the system calls answer, also where a failed one ends a process. -/
theorem shell_does_what_is_typed (answers : Answers) (input : List UInt8) (buffer : Memory) :
    (readlineLoop input buffer 0).2 = (typed input []).2 /\
    ((typed input []).1 = none -> (readlineLoop input buffer 0).1 = none) /\
    forall text, (typed input []).1 = some text -> Exists fun memory =>
      (readlineLoop input buffer 0).1 = some memory /\
      (forall place, bufsize <= place -> memory place = buffer place) /\
      forall fuel turns, bufsize <= fuel -> bufsize <= turns ->
        runcmd answers fuel turns 0 ⟨memory, some 0⟩ [] 0 = some (script answers 0 text []) := by
  have start : Typed buffer buffer [] := ⟨Function.update_self .., by decide, fun _ _ => rfl⟩
  rcases readlineLoop_typed input start with ⟨left, null, read⟩
  refine ⟨left, null, fun text same => ?_⟩
  rcases read text same with ⟨last, ran, kept⟩
  have room := kept.room
  refine ⟨_, ran, fun place high => ?_, fun fuel turns enough many => ?_⟩
  · rw [Function.update_of_ne (by omega)]
    exact kept.outside place high
  · exact runcmd_eq kept.stored .nil (by omega) (by omega)

-- `cat < a > b` opens `a > b` for reading
example : runcmd ⟨fun _ _ _ => true, fun _ => true, fun _ _ => true⟩ 12 12 0
      ⟨fun k => [99, 97, 116, 32, 60, 32, 97, 32, 62, 32, 98].getD k 0, some 0⟩ [] 0 = some
    [.reopen 0 [97, 32, 62, 32, 98], .reopen 1 [98], .runit .line [[99, 97, 116]]] := by decide +kernel

end Shell
end Ucore
