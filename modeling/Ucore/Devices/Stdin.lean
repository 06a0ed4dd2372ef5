import Mathlib.Data.List.Basic
import Mathlib.Algebra.Group.Int.Defs
import Mathlib.Algebra.Group.Nat.Defs
import Ucore.Library.Run

namespace Ucore
namespace Devices

open Library

/-!
# The standard input

The characters that come in are stored in a ring buffer, at positions that only
grow.  A reader takes what is there and waits for more.  It runs with the
interrupts off, and so a character arrives only before it starts, while it
waits, or after it has returned.

Two sequences are recorded that no function reads: the characters that found
room when they arrived, and the ones that the readers took.
-/

def stdinBufsize : Nat := 4096

/-- The value of an assignment to `off_t`. -/
def offT (value : Int) : Int := value.bmod (2 ^ 64)

/-- The value of an assignment to `int`. -/
def toInt (value : Int) : Int := value.bmod (2 ^ 32)

/-- An `int` in a comparison with a `size_t` -/
def sizeT (value : Int) : Int := value % 2 ^ 64

/-- What a process is about at `dev_stdin_read`; `woken` is the comparison
`wakeup_flags == WT_KBD`. -/
inductive Reader where
  | away
  | waits (len : Nat) (ret : Int) (woken : Bool)
  | returned (ret : Int)
deriving DecidableEq, Repr

def Reader.wake : Reader -> Reader
  | .waits len ret _ => .waits len ret true
  | other => other

structure Stdin where
  /-- `stdin_buffer` -/
  buffer : Int -> UInt8
  rpos : Int
  wpos : Int
  /-- `wait_queue` -/
  waitQueue : List Nat
  reader : Nat -> Reader
  accepted : List UInt8
  delivered : List UInt8

namespace Stdin

/-- `stdin_device_init` -/
def init : Stdin := ⟨fun _ => 0, 0, 0, [], fun _ => .away, [], []⟩

/-- `pos % STDIN_BUFSIZE` -/
def slot (pos : Int) : Int := pos.tmod stdinBufsize

/-! ## Arrivals -/

/-- A character arrives; it is accepted if there is room among those that are
accepted and not yet delivered. -/
def accept (sys : Stdin) (c : UInt8) : List UInt8 :=
  if c ≠ 0 /\ sys.accepted.length < sys.delivered.length + stdinBufsize then sys.accepted ++ [c] else sys.accepted

/-- `wakeup_queue(wait_queue, WT_KBD, 1)` -/
def wakeupQueue (sys : Stdin) : Stdin :=
  { sys with
    reader := fun proc => if proc ∈ sys.waitQueue then (sys.reader proc).wake else sys.reader proc
    waitQueue := [] }

/-- The buffer and its end -/
def store (sys : Stdin) (c : UInt8) : Stdin :=
  { sys with
    buffer := Function.update sys.buffer (slot sys.wpos) c
    wpos := if sys.wpos - sys.rpos < stdinBufsize then offT (sys.wpos + 1) else sys.wpos }

def devStdinWrite (sys : Stdin) (c : UInt8) : Stdin :=
  if c ≠ 0 then
    let stored := sys.store c
    if stored.waitQueue ≠ [] then stored.wakeupQueue else stored
  else sys

/-! ## Readers -/

/-- `*buf ++ = stdin_buffer[p_rpos % STDIN_BUFSIZE]` and `p_rpos ++` -/
def take (sys : Stdin) : Stdin :=
  { sys with
    rpos := offT (sys.rpos + 1)
    delivered := sys.delivered ++ [sys.buffer (slot sys.rpos)] }

/-- The loop of `dev_stdin_read`, up to its end or to `schedule`.  It is given
as many turns as there are characters, and one more. -/
def readLoop (proc len : Nat) : Nat -> Stdin -> Int -> Option Stdin
  | 0, _, _ => none
  | fuel + 1, sys, ret =>
      if sizeT ret < len then
        if sys.rpos < sys.wpos then readLoop proc len fuel sys.take (toInt (ret + 1))
        else some { sys with
          waitQueue := sys.waitQueue ++ [proc]
          reader := Function.update sys.reader proc (.waits len ret false) }
      else some { sys with reader := Function.update sys.reader proc (.returned ret) }

def fuel (sys : Stdin) : Nat := (sys.wpos - sys.rpos).toNat + 1

/-- `dev_stdin_read`, up to its return or to `schedule` -/
def devStdinRead (sys : Stdin) (proc len : Nat) : Option Stdin := readLoop proc len sys.fuel sys 0

/-- The return of `schedule` in `dev_stdin_read` -/
def resume (sys : Stdin) (proc len : Nat) (ret : Int) (woken : Bool) : Option Stdin :=
  let removed := { sys with waitQueue := sys.waitQueue.erase proc }
  if woken = true then readLoop proc len removed.fuel removed ret
  else some { removed with reader := Function.update removed.reader proc (.returned ret) }

inductive Event where
  | write (c : UInt8)
  | read (proc len : Nat)
  | resume (proc : Nat)
deriving DecidableEq, Repr

/-- A process that waits calls nothing else; it goes on when it is woken, by a
character or by `do_kill`. -/
def step (sys : Stdin) : Event -> Option Stdin
  | .write c => some { sys.devStdinWrite c with accepted := sys.accept c }
  | .read proc len =>
      match sys.reader proc with
      | .waits .. => none
      | _ => sys.devStdinRead proc len
  | .resume proc =>
      match sys.reader proc with
      | .waits len ret woken => sys.resume proc len ret woken
      | _ => none

end Stdin

def stdinMachine : Machine Stdin Stdin.Event := ⟨Stdin.step⟩

/-! ## The queue in the buffer -/

namespace Stdin

variable {sys next : Stdin}

/-- The unread characters -/
def unread (sys : Stdin) : List UInt8 :=
  (List.range (sys.wpos - sys.rpos).toNat).map fun index : Nat => sys.buffer (slot (sys.rpos + index))

/-- A bounded queue: what was accepted has been delivered or is unread. -/
structure Fifo (sys : Stdin) : Prop where
  nonneg : 0 <= sys.wpos - sys.rpos
  bounded : sys.wpos - sys.rpos <= stdinBufsize
  order : sys.accepted = sys.delivered ++ sys.unread

/-- The positions count the characters. -/
structure Sound (sys : Stdin) : Prop extends Fifo sys where
  begins : 0 <= sys.rpos
  fits : sys.wpos < 2 ^ 63

/-- A character that finds the buffer full equals the oldest unread one, and the
positions stay in `off_t`.  `dev_stdin_write` stores before it looks for room,
and so writes over that one. -/
def Keeps (sys : Stdin) : Event -> Prop
  | .write c => c ≠ 0 ->
      if sys.wpos - sys.rpos < stdinBufsize then sys.wpos + 1 < 2 ^ 63 else c = sys.buffer (slot sys.rpos)
  | _ => True

theorem slot_eq {pos : Int} (nonneg : 0 <= pos) : slot pos = pos % 4096 := Int.tmod_eq_emod_of_nonneg nonneg

theorem unread_length (sys : Stdin) : sys.unread.length = (sys.wpos - sys.rpos).toNat := by
  unfold unread
  rw [List.length_map, List.length_range]

/-- There is room exactly if the history says so. -/
theorem Fifo.room (fifo : sys.Fifo) :
    sys.accepted.length < sys.delivered.length + stdinBufsize <-> sys.wpos - sys.rpos < stdinBufsize := by
  have nonneg := fifo.nonneg
  rw [fifo.order, List.length_append, unread_length]
  omega

theorem offT_eq {value : Int} (low : 0 <= value) (high : value < 2 ^ 63) : offT value = value := by
  unfold offT
  exact Int.bmod_eq_of_le (by omega) (by omega)

/-! ## One character -/

/-- A character that finds room comes after the unread ones. -/
theorem Sound.unread_store (sound : sys.Sound) (c : UInt8) (room : sys.wpos - sys.rpos < stdinBufsize)
    (fits : sys.wpos + 1 < 2 ^ 63) : (sys.store c).unread = sys.unread ++ [c] := by
  have nonneg := sound.nonneg
  have begins := sound.begins
  have wpos : (sys.store c).wpos = sys.wpos + 1 := by
    unfold store
    rw [if_pos room, offT_eq (by omega) fits]
  have count : ((sys.store c).wpos - (sys.store c).rpos).toNat = (sys.wpos - sys.rpos).toNat + 1 := by
    rw [wpos]
    change (sys.wpos + 1 - sys.rpos).toNat = _
    omega
  unfold unread
  rw [count, List.range_succ, List.map_append, List.map_singleton]
  congr 1
  · apply List.map_congr_left
    intro index member
    have below := List.mem_range.mp member
    refine Function.update_of_ne ?_ ..
    change slot (sys.rpos + index) ≠ slot sys.wpos
    rw [slot_eq (by omega), slot_eq (by omega)]
    unfold stdinBufsize at room
    omega
  · have last : sys.rpos + ((sys.wpos - sys.rpos).toNat : Int) = sys.wpos := by omega
    change [Function.update sys.buffer (slot sys.wpos) c (slot (sys.rpos + ((sys.wpos - sys.rpos).toNat : Int)))] = _
    rw [last, Function.update_self]

/-- With a full buffer, the character takes the place of the oldest one. -/
theorem Sound.store_full (sound : sys.Sound) (c : UInt8) (full : ¬ sys.wpos - sys.rpos < stdinBufsize) :
    sys.store c = { sys with buffer := Function.update sys.buffer (slot sys.rpos) c } := by
  have bounded := sound.bounded
  have begins := sound.begins
  have same : slot sys.wpos = slot sys.rpos := by
    unfold stdinBufsize at bounded full
    rw [slot_eq (by omega), slot_eq begins]
    omega
  unfold store
  rw [if_neg full, same]

/-- The first unread character of a full buffer -/
theorem unread_head (full : 0 < sys.wpos - sys.rpos) : sys.unread.head? = some (sys.buffer (slot sys.rpos)) := by
  obtain ⟨count, positive⟩ : Exists fun count => (sys.wpos - sys.rpos).toNat = count + 1 :=
    Nat.exists_eq_succ_of_ne_zero (by omega)
  unfold unread
  rw [positive, List.range_succ_eq_map, List.map_cons, List.head?_cons, Int.natCast_zero, Int.add_zero]

/-- What the queue consists of is not what a wakeup changes. -/
theorem step_write_eq (sys : Stdin) {c : UInt8} (nonzero : c ≠ 0) : Exists fun waitQueue => Exists fun reader =>
    sys.step (.write c) =
      some { sys.store c with accepted := sys.accept c, waitQueue := waitQueue, reader := reader } := by
  have written : sys.devStdinWrite c =
      if (sys.store c).waitQueue ≠ [] then (sys.store c).wakeupQueue else sys.store c := if_pos nonzero
  change Exists fun waitQueue => Exists fun reader =>
    some { sys.devStdinWrite c with accepted := sys.accept c } = some { sys.store c with
      accepted := sys.accept c, waitQueue := waitQueue, reader := reader }
  rw [written]
  split
  · exact ⟨_, _, rfl⟩
  · exact ⟨_, _, rfl⟩

theorem step_write_zero (sys : Stdin) : sys.step (.write 0) = some sys := by
  have written : sys.devStdinWrite 0 = sys := if_neg (not_not.mpr rfl)
  have same : sys.accept 0 = sys.accepted := if_neg fun both => both.1 rfl
  change some { sys.devStdinWrite 0 with accepted := sys.accept 0 } = some sys
  rw [written, same]

/-- A character for which there is room -/
theorem Sound.write_room (sound : sys.Sound) {c : UInt8} (nonzero : c ≠ 0) (room : sys.wpos - sys.rpos < stdinBufsize)
    (stepped : sys.step (.write c) = some next) :
    (sys.wpos + 1 < 2 ^ 63 -> next.Sound) /\ (next.Fifo -> sys.wpos + 1 < 2 ^ 63) := by
  obtain ⟨waitQueue, reader, result⟩ := step_write_eq sys nonzero
  cases Option.some.inj (result.symm.trans stepped)
  have nonneg := sound.nonneg
  have begins := sound.begins
  have wpos : (sys.store c).wpos = offT (sys.wpos + 1) := if_pos room
  constructor
  · intro fits
    have moved : (sys.store c).wpos = sys.wpos + 1 := wpos.trans (offT_eq (by omega) fits)
    have accepted : sys.accept c = sys.accepted ++ [c] := if_pos ⟨nonzero, sound.room.mpr room⟩
    refine ⟨⟨?_, ?_, ?_⟩, begins, ?_⟩
    · change 0 <= (sys.store c).wpos - sys.rpos
      omega
    · change (sys.store c).wpos - sys.rpos <= _
      omega
    · change sys.accept c = sys.delivered ++ (sys.store c).unread
      rw [accepted, sound.unread_store c room fits, sound.order, List.append_assoc]
    · change (sys.store c).wpos < _
      omega
  · intro fifo
    have ahead : 0 <= (sys.store c).wpos - sys.rpos := fifo.nonneg
    by_contra passed
    have last : sys.wpos + 1 = 2 ^ 63 := by
      have fits := sound.fits
      omega
    have wrapped : offT (2 ^ 63) = -2 ^ 63 := by decide
    rw [wpos, last, wrapped] at ahead
    omega

/-- A character that finds the buffer full -/
theorem Sound.write_full (sound : sys.Sound) {c : UInt8} (nonzero : c ≠ 0) (full : ¬ sys.wpos - sys.rpos < stdinBufsize)
    (stepped : sys.step (.write c) = some next) :
    (c = sys.buffer (slot sys.rpos) -> next.Sound) /\ (next.Fifo -> c = sys.buffer (slot sys.rpos)) := by
  obtain ⟨waitQueue, reader, result⟩ := step_write_eq sys nonzero
  have accepted : sys.accept c = sys.accepted := if_neg fun both => full (sound.room.mp both.2)
  rw [sound.store_full c full, accepted] at result
  have after := Option.some.inj (stepped.symm.trans result)
  constructor
  · intro same
    have kept : Function.update sys.buffer (slot sys.rpos) c = sys.buffer := by
      rw [same, Function.update_eq_self]
    rw [after, kept]
    exact ⟨⟨sound.nonneg, sound.bounded, sound.order⟩, sound.begins, sound.fits⟩
  · intro fifo
    have positive : 0 < sys.wpos - sys.rpos := by
      unfold stdinBufsize at full
      omega
    have logs : next.accepted = sys.accepted /\ next.delivered = sys.delivered := by
      rw [after]
      exact ⟨rfl, rfl⟩
    have unread : next.unread = sys.unread := by
      have order := fifo.order
      rw [logs.1, logs.2, sound.order] at order
      exact (List.append_cancel_left order).symm
    have first : next.unread.head? = some (next.buffer (slot next.rpos)) := unread_head (after ▸ positive)
    have stored : next.buffer (slot next.rpos) = c := by
      rw [after]
      exact Function.update_self ..
    rw [unread, unread_head positive, stored] at first
    exact (Option.some.inj first).symm

theorem Sound.write (sound : sys.Sound) {c : UInt8} (stepped : sys.step (.write c) = some next) :
    (sys.Keeps (.write c) -> next.Sound) /\ (next.Fifo -> sys.Keeps (.write c)) := by
  unfold Keeps
  by_cases nonzero : c ≠ 0
  · simp only [nonzero, ne_eq, not_false_eq_true, true_implies]
    split
    · rename_i room
      exact sound.write_room nonzero room stepped
    · rename_i full
      exact sound.write_full nonzero full stepped
  · have zero := not_not.mp nonzero
    rw [zero, step_write_zero] at stepped
    cases stepped
    exact ⟨fun _ => sound, fun _ given => absurd given nonzero⟩

/-! ## Reading -/

theorem Sound.take (sound : sys.Sound) (ready : sys.rpos < sys.wpos) : sys.take.Sound := by
  have begins := sound.begins
  have fits := sound.fits
  have bounded := sound.bounded
  have rpos : sys.take.rpos = sys.rpos + 1 := offT_eq (by omega) (by omega)
  have unread : sys.unread = sys.buffer (slot sys.rpos) :: sys.take.unread := by
    obtain ⟨count, left⟩ : Exists fun count => (sys.wpos - sys.rpos).toNat = count + 1 :=
      Nat.exists_eq_succ_of_ne_zero (by omega)
    have rest : (sys.take.wpos - sys.take.rpos).toNat = count := by
      rw [rpos]
      change (sys.wpos - (sys.rpos + 1)).toNat = _
      omega
    unfold Stdin.unread
    rw [left, rest, List.range_succ_eq_map, List.map_cons, Int.natCast_zero, Int.add_zero, List.map_map, rpos]
    congr 1
    apply List.map_congr_left
    intro index _
    change sys.buffer (slot (sys.rpos + ((index + 1 : Nat) : Int))) = sys.buffer (slot (sys.rpos + 1 + index))
    rw [Int.natCast_succ, Int.add_assoc, Int.add_comm 1]
  refine ⟨⟨?_, ?_, ?_⟩, ?_, fits⟩
  · rw [rpos]
    change 0 <= sys.wpos - (sys.rpos + 1)
    omega
  · rw [rpos]
    change sys.wpos - (sys.rpos + 1) <= _
    omega
  · change sys.accepted = (sys.delivered ++ [sys.buffer (slot sys.rpos)]) ++ sys.take.unread
    rw [sound.order, unread, List.append_assoc]
    rfl
  · rw [rpos]
    omega

/-- The processes are no part of the queue. -/
theorem Sound.processes (sound : sys.Sound) (waitQueue : List Nat) (reader : Nat -> Reader) :
    Sound { sys with waitQueue := waitQueue, reader := reader } :=
  ⟨⟨sound.nonneg, sound.bounded, sound.order⟩, sound.begins, sound.fits⟩

/-- The loop returns or waits, and keeps the queue. -/
theorem Sound.readLoop (sound : sys.Sound) (proc len : Nat) (ret : Int) {fuel : Nat}
    (enough : (sys.wpos - sys.rpos).toNat < fuel) :
    Exists fun next => Stdin.readLoop proc len fuel sys ret = some next /\ next.Sound := by
  induction fuel generalizing sys ret with
  | zero => exact absurd enough (Nat.not_lt_zero _)
  | succ fuel inductionHypothesis =>
      rw [Stdin.readLoop]
      split
      · split
        · rename_i ready
          apply inductionHypothesis (sound.take ready)
          have begins := sound.begins
          have fits := sound.fits
          have rpos : sys.take.rpos = sys.rpos + 1 := offT_eq (by omega) (by omega)
          rw [rpos]
          change (sys.wpos - (sys.rpos + 1)).toNat < fuel
          omega
        · exact ⟨_, rfl, sound.processes _ _⟩
      · exact ⟨_, rfl, sound.processes _ _⟩

theorem Sound.resume (sound : sys.Sound) (proc len : Nat) (ret : Int) (woken : Bool) :
    Exists fun next => sys.resume proc len ret woken = some next /\ next.Sound := by
  have removed := sound.processes (sys.waitQueue.erase proc) sys.reader
  unfold Stdin.resume
  dsimp only
  split
  · exact removed.readLoop proc len ret (Nat.lt_succ_self _)
  · exact ⟨_, rfl, removed.processes _ _⟩

theorem Sound.step (sound : sys.Sound) {event : Event} (stepped : sys.step event = some next) :
    (sys.Keeps event -> next.Sound) /\ (next.Fifo -> sys.Keeps event) := by
  cases event with
  | write c => exact sound.write stepped
  | read proc len =>
      refine ⟨fun _ => ?_, fun _ => trivial⟩
      obtain ⟨after, returned, kept⟩ := sound.readLoop proc len 0 (Nat.lt_succ_self _)
      unfold Stdin.step at stepped
      dsimp only at stepped
      split at stepped
      · cases stepped
      · cases Option.some.inj (returned.symm.trans stepped)
        exact kept
  | resume proc =>
      refine ⟨fun _ => ?_, fun _ => trivial⟩
      unfold Stdin.step at stepped
      dsimp only at stepped
      split at stepped
      · rename_i len ret woken waits
        obtain ⟨after, returned, kept⟩ := sound.resume proc len ret woken
        cases Option.some.inj (returned.symm.trans stepped)
        exact kept
      · cases stepped

theorem init_sound : init.Sound := ⟨⟨by decide, by decide, rfl⟩, by decide, by decide⟩

/-- The standard input is a bounded queue at every point of a run, exactly if
each character that finds the buffer full equals the oldest one in it (and
`off_t` is wide enough). -/
theorem stdin_fifo (events : List Event) :
    (forall done rest sys, events = done ++ rest -> stdinMachine.run init done = some sys -> sys.Fifo) <->
      stdinMachine.Along Keeps init events := by
  refine Machine.always_iff_along (fun _ sound => sound.toFifo) ?_ ?_ ?_ init_sound
  · exact fun sys event next sound keeps stepped => (sound.step stepped).1 keeps
  · exact fun sys event next sound stepped fifo => (sound.step stepped).2 fifo
  · intro sys event _ stuck
    cases event with
    | write c => cases stuck
    | read => trivial
    | resume => trivial

/-! ## A full buffer -/

/-- The state after a number of equal characters, without a reader -/
def filled (buffer : Int -> UInt8) (count : Nat) (c : UInt8) : Stdin :=
  ⟨buffer, 0, count, [], fun _ => .away, List.replicate count c, []⟩

theorem filled_write {count : Nat} {c : UInt8} (nonzero : c ≠ 0) (room : count < stdinBufsize) (buffer : Int -> UInt8) :
    (filled buffer count c).step (.write c) = some (filled (Function.update buffer (slot count) c) (count + 1) c) := by
  have written : (filled buffer count c).devStdinWrite c = (filled buffer count c).store c := if_pos nonzero
  have accepted : (filled buffer count c).accept c = List.replicate (count + 1) c := by
    rw [List.replicate_succ']
    refine if_pos ⟨nonzero, ?_⟩
    change (List.replicate count c).length < 0 + stdinBufsize
    rw [List.length_replicate, Nat.zero_add]
    exact room
  have wpos : ((filled buffer count c).store c).wpos = ((count + 1 : Nat) : Int) := by
    have small : (count : Int) - 0 < stdinBufsize := by omega
    have below : (count : Int) + 1 < 2 ^ 63 := by
      unfold stdinBufsize at room
      omega
    unfold store filled
    dsimp only
    rw [if_pos small, offT_eq (by omega) below]
    rfl
  change some { (filled buffer count c).devStdinWrite c with accepted := (filled buffer count c).accept c } = _
  rw [written, accepted]
  unfold filled
  rw [← wpos]
  rfl

theorem filled_run {count : Nat} {c : UInt8} (nonzero : c ≠ 0) (room : count <= stdinBufsize) :
    Exists fun buffer => stdinMachine.run init (List.replicate count (.write c)) = some (filled buffer count c) := by
  induction count with
  | zero => exact ⟨_, rfl⟩
  | succ count inductionHypothesis =>
      obtain ⟨buffer, ran⟩ := inductionHypothesis (Nat.le_of_succ_le room)
      refine ⟨Function.update buffer (slot count) c, ?_⟩
      rw [List.replicate_succ', Machine.run_concat, ran]
      exact filled_write nonzero room buffer

/-- Another character for the full buffer, and one read -/
theorem filled_overwritten {c other : UInt8} (nonzero : other ≠ 0) (buffer : Int -> UInt8) :
    Exists fun sys => stdinMachine.run (filled buffer stdinBufsize c) [.write other, .read 1 1] = some sys /\
      sys.delivered = [other] /\ sys.accepted = List.replicate stdinBufsize c := by
  have written : (filled buffer stdinBufsize c).devStdinWrite other = (filled buffer stdinBufsize c).store other :=
    if_pos nonzero
  have dropped : (filled buffer stdinBufsize c).accept other = List.replicate stdinBufsize c := by
    refine if_neg fun both => ?_
    have room : (List.replicate stdinBufsize c).length < 0 + stdinBufsize := both.2
    rw [List.length_replicate, Nat.zero_add] at room
    exact Nat.lt_irrefl _ room
  have full : stdinMachine.step (filled buffer stdinBufsize c) (.write other) =
      some (filled (Function.update buffer 0 other) stdinBufsize c) := by
    change some { (filled buffer stdinBufsize c).devStdinWrite other with
      accepted := (filled buffer stdinBufsize c).accept other } = _
    rw [written, dropped]
    rfl
  have taken : stdinMachine.step (filled (Function.update buffer 0 other) stdinBufsize c) (.read 1 1) =
      some { (filled (Function.update buffer 0 other) stdinBufsize c).take with
        reader := Function.update (fun _ => .away) 1 (.returned 1) } := rfl
  refine ⟨{ (filled (Function.update buffer 0 other) stdinBufsize c).take with
    reader := Function.update (fun _ => .away) 1 (.returned 1) }, ?_, ?_, rfl⟩
  · rw [Machine.run_cons, full, Option.bind_some, Machine.run_cons, taken]
    rfl
  · change [] ++ [Function.update buffer 0 other 0] = _
    rw [Function.update_self]
    rfl

/-- A `b` that finds a buffer full of `a` is read first. -/
theorem full_overwritten : Exists fun sys =>
    stdinMachine.run init (List.replicate stdinBufsize (.write 97) ++ [.write 98, .read 1 1]) = some sys /\
      sys.delivered = [98] /\ sys.accepted = List.replicate stdinBufsize 97 /\ ¬ sys.delivered <+: sys.accepted := by
  obtain ⟨buffer, ran⟩ := @filled_run stdinBufsize 97 (by decide) (Nat.le_refl _)
  obtain ⟨sys, rest, delivered, accepted⟩ := @filled_overwritten 97 98 (by decide) buffer
  refine ⟨sys, ?_, delivered, accepted, ?_⟩
  · rw [Machine.run_append, ran]
    exact rest
  · rw [delivered, accepted]
    intro first
    have member := List.eq_of_mem_replicate (first.subset List.mem_cons_self)
    exact absurd member (by decide)

end Stdin

end Devices
end Ucore
