import Ucore.Path.Hierarchy
import Ucore.Path.Resolution
import Ucore.Library.Paste

namespace Ucore
namespace Path

open Library
open Program
open Sfs

/-!
# The name of a directory in a buffer

`sfs_namefile` goes up from a directory to the root and writes the names it
passes from the end of the buffer backwards; the text is then moved to the
front.  The text alone, without the buffer, is what `sfsNamefile` returns.
-/

/-! ## The text -/

/-- Each name with a slash after it, from the root down -/
def rendered (path : List (List UInt8)) : List UInt8 := path.flatMap (fun name => name ++ [slash])

/-- The name of a directory -/
def nameOf (path : List (List UInt8)) : List UInt8 := slash :: rendered path

theorem rendered_append (path : List (List UInt8)) (name : List UInt8) (text : List UInt8) :
    rendered (path ++ [name]) ++ text = rendered path ++ (name ++ slash :: text) := by
  simp [rendered]

theorem rendered_length (path : List (List UInt8)) (name : List UInt8) :
    (rendered (path ++ [name])).length = (rendered path).length + (name.length + 1) := by
  simp [rendered]

/-- One reference, to one inode -/
def single (ino : Nat) : Nat -> Nat := Function.update (fun _ => 0) ino 1

/-- The calls of `kmalloc` on the way from a directory to the root -/
def World.cost (world : World) : List Nat -> Nat
  | [] => 1
  | parent :: above => world.price parent + world.cost above

section Text

variable {files : List Nat} {base world : World} {spent ino : Nat} {above : List Nat} {path : List (List UInt8)}

theorem lookupOnce_dotdot {stop : Fault -> Prop} (steady : base.Steady files)
    (hierarchy : Hierarchy base.volume files) (chain : Chain base.volume files ino above path)
    (target : IsDir base.volume files (above.headD blknRoot))
    (borrowed : Borrowed files base (single ino) spent world) :
    Meets (lookupOnce ino dotdot) world
      ⟨fun result after => result = above.headD blknRoot /\ base.Granted spent (world.price result) /\
          Borrowed files base (Function.update (single ino) result (single ino result + 1))
            (spent + world.price result) after,
        fun _ after => ¬ base.Granted spent (world.price (above.headD blknRoot)) /\
          Exists fun more => Borrowed files base (single ino) more after,
        stop⟩ := by
  rcases hierarchy.dotdot_found chain with ⟨slot, found⟩
  have isDir := chain.isDir hierarchy
  have loaded : ino ∈ world.volume.inodeList := (borrowed.listed ino).mpr (.inr (by
    rw [single, Function.update_self]
    exact Nat.one_pos))
  refine (lookupOnce_borrowed borrowed steady loaded isDir.type (by decide) (hierarchy.mapped ino isDir) found
    target.member (hierarchy.linked _ target) target.type).mono ?_ (fun _ _ refused => refused)
    (fun _ stopped => stopped)
  rintro result after ⟨rfl, taken⟩
  exact ⟨rfl, taken⟩

theorem single_self (ino : Nat) : single ino ino = 1 := Function.update_self ..

theorem single_of_ne {other : Nat} (different : other ≠ ino) : single ino other = 0 :=
  Function.update_of_ne different ..

/-- The only reference is given back. -/
theorem single_cleared (ino : Nat) : Function.update (single ino) ino 0 = fun _ => 0 := by
  rw [single, Function.update_idem]
  exact Function.update_eq_self ..

/-- A second reference is given back. -/
theorem single_again (ino : Nat) :
    Function.update (Function.update (single ino) ino (1 + 1)) ino (2 - 1) = single ino := by
  rw [Function.update_idem]
  exact Function.update_idem ..

theorem single_handed {other : Nat} (different : other ≠ ino) :
    Function.update (Function.update (single ino) other 1) ino 0 = single other := by
  rw [Function.update_comm different, single_cleared]
  rfl

/-- The end of the way, and of every failure: a reference is given back and
none is left. -/
theorem refDec_single {fail : Errno -> World -> Prop} {stop : Fault -> Prop} (steady : base.Steady files)
    (hierarchy : Hierarchy base.volume files) (isDir : IsDir base.volume files ino)
    (borrowed : Borrowed files base (single ino) spent world) :
    Meets (refDec (.sfs ino)) world ⟨fun _ after => Borrowed files base (fun _ => 0) spent after, fail, stop⟩ := by
  have lent : 0 < single ino ino := by
    rw [single_self]
    exact Nat.one_pos
  refine (refDec_borrowed borrowed steady lent (hierarchy.linked ino isDir)).mono ?_ (fun _ _ failed => failed)
    (fun _ stopped => stopped)
  intro _ after returned
  rw [single_self, Nat.sub_self, single_cleared] at returned
  exact returned

theorem namefileLoop_names (steady : base.Steady files) (hierarchy : Hierarchy base.volume files)
    (chain : Chain base.volume files ino above path) : forall {resid spent : Nat} {text : List UInt8} {world : World},
    Borrowed files base (single ino) spent world ->
    Meets (namefileLoop ino resid text) world
      ⟨fun result after => result = rendered path ++ text /\ (rendered path).length <= resid /\
          base.Granted spent (base.cost above) /\ Exists fun more => Borrowed files base (fun _ => 0) more after,
        fun _ after => (resid < (rendered path).length \/ ¬ base.Granted spent (base.cost above)) /\
          Exists fun more => Borrowed files base (fun _ => 0) more after,
        fun _ => False⟩ := by
  induction chain with
  | root =>
      intro resid spent text world borrowed
      have loaded : blknRoot ∈ world.volume.inodeList := (borrowed.listed _).mpr (.inr (by
        rw [single_self]
        exact Nat.one_pos))
      have price : world.price blknRoot = 1 := if_pos loaded
      rw [namefileLoop]
      simp only [meets_bind, meets_onError, meets_ite, meets_pure]
      refine (lookupOnce_dotdot steady hierarchy .root hierarchy.root borrowed).mono ?_ ?_ (fun _ stopped => stopped)
      · rintro result first ⟨rfl, granted, taken⟩
        change base.Granted spent (world.price blknRoot) at granted
        change Borrowed files base (Function.update (single blknRoot) blknRoot (single blknRoot blknRoot + 1)) _ first
          at taken
        change Meets (refDec (.sfs blknRoot)) first _
        rw [price] at granted
        rw [single_self] at taken
        have twice : Function.update (single blknRoot) blknRoot (1 + 1) blknRoot = 2 := Function.update_self ..
        refine (refDec_borrowed taken steady (by rw [twice]; exact Nat.two_pos)
          (hierarchy.linked _ hierarchy.root)).mono ?_ (fun _ _ failed => failed) (fun _ stopped => stopped)
        intro _ second held
        rw [twice, single_again] at held
        dsimp only
        rw [if_pos (show ([] : List Nat).headD blknRoot = blknRoot from rfl)]
        refine (refDec_single steady hierarchy hierarchy.root held).mono ?_ (fun _ _ failed => failed)
          (fun _ stopped => stopped)
        exact fun _ final last => ⟨rfl, Nat.zero_le _, granted, _, last⟩
      · rintro error first ⟨refused, more, returned⟩
        refine (refDec_single steady hierarchy hierarchy.root returned).mono ?_ (fun _ _ failed => failed)
          (fun _ stopped => stopped)
        intro _ final last
        change ¬ base.Granted spent (world.price blknRoot) at refused
        rw [price] at refused
        exact ⟨.inr refused, more, last⟩
  | @under parent child above path name chain lists ih =>
      intro resid spent text world borrowed
      have different : parent ≠ child := fun same => (hierarchy.apart chain lists).1 same.symm
      have price : world.price parent = base.price parent := by
        have listed : (parent ∈ world.volume.inodeList) = (parent ∈ base.volume.inodeList) := by
          rw [borrowed.listed parent, single_of_ne different]
          simp
        simp only [World.price, listed]
      have cost : base.Granted spent (base.cost (parent :: above)) <->
          base.Granted spent (base.price parent) /\ base.Granted (spent + base.price parent) (base.cost above) :=
        World.granted_add ..
      rw [rendered_length, cost]
      rw [namefileLoop]
      simp only [meets_bind, meets_onError, meets_get, meets_assert, meets_ite, meets_pure]
      refine (lookupOnce_dotdot steady hierarchy (.under chain lists) lists.parentDir borrowed).mono ?_ ?_
        (fun _ stopped => stopped)
      · rintro result first ⟨same, granted, taken⟩
        have same : parent = result := same.symm
        subst same
        change base.Granted spent (world.price parent) at granted
        change Borrowed files base (Function.update (single child) parent (single child parent + 1))
          (spent + world.price parent) first at taken
        change Meets (refDec (.sfs child)) first _
        rw [price] at granted
        rw [price, single_of_ne different] at taken
        have one : Function.update (single child) parent (0 + 1) child = 1 := by
          rw [Function.update_of_ne different.symm, single_self]
        refine (refDec_borrowed taken steady (by rw [one]; exact Nat.one_pos)
          (hierarchy.linked _ lists.childDir)).mono ?_ (fun _ _ failed => failed) (fun _ stopped => stopped)
        intro _ second held
        rw [one, Nat.sub_self, Nat.zero_add, single_handed different] at held
        change if parent = child then _ else _
        rw [if_neg different]
        have loaded : parent ∈ second.volume.inodeList := (held.listed _).mpr (.inr (by
          rw [single_self]
          exact Nat.one_pos))
        have type : second.type parent = typeDir := (congrArg DiskInode.type (held.inode_din loaded)).trans
          lists.parentDir.type
        refine ⟨fun _ => ?_, fun other => absurd type other⟩
        refine (direntFindinoNolock_borrowed held steady hierarchy chain lists loaded).mono ?_
          (fun _ _ failed => failed) (fun _ stopped => stopped)
        rintro entry third ⟨rfl, found⟩
        dsimp only
        split
        · next full =>
            simp only [meets_bind, meets_throw]
            refine (refDec_single steady hierarchy lists.parentDir found).mono ?_ (fun _ _ failed => failed)
              (fun _ stopped => stopped)
            intro _ final last
            exact ⟨.inl (by omega), _, last⟩
        · next room =>
            refine (ih found).mono ?_ ?_ (fun _ stopped => stopped)
            · rintro result final ⟨rfl, fits, enough, last⟩
              exact ⟨(rendered_append _ _ _).symm, by omega, ⟨granted, enough⟩, last⟩
            · rintro error final ⟨reason, last⟩
              refine ⟨reason.imp (fun long => by omega) (fun refused both => refused both.2), last⟩
      · rintro error first ⟨refused, more, returned⟩
        refine (refDec_single steady hierarchy lists.childDir returned).mono ?_ (fun _ _ failed => failed)
          (fun _ stopped => stopped)
        intro _ final last
        change ¬ base.Granted spent (world.price parent) at refused
        rw [price] at refused
        exact ⟨.inr fun both => refused both.1, more, last⟩

theorem sfsNamefile_names {resid : Nat} (steady : base.Steady files) (hierarchy : Hierarchy base.volume files)
    (chain : Chain base.volume files ino above path) (loaded : ino ∈ base.volume.inodeList) :
    Meets (sfsNamefile ino resid) base
      ⟨fun result after => result = nameOf path /\ (nameOf path).length + 1 <= resid /\ 2 < resid /\
          base.Granted 0 (1 + base.cost above) /\ Exists fun more => Borrowed files base (fun _ => 0) more after,
        fun _ after => (resid < (nameOf path).length + 1 \/ resid <= 2 \/ ¬ base.Granted 0 (1 + base.cost above)) /\
          Exists fun more => Borrowed files base (fun _ => 0) more after,
        fun _ => False⟩ := by
  have start := Borrowed.refl files base
  have length : (nameOf path).length = (rendered path).length + 1 := List.length_cons
  rw [World.granted_add, start.granted_one, length]
  unfold sfsNamefile kmalloc
  simp only [meets_bind, meets_get, meets_modify, meets_pure, meets_ite, meets_throw]
  split
  · next small => exact ⟨.inr (.inl small), 0, start⟩
  · next large =>
      split
      · next refused =>
          refine ⟨.inr (.inr fun both => ?_), _, start.call⟩
          rw [refused] at both
          exact absurd both.1 (by decide)
      · next granted =>
          rw [Bool.not_eq_false] at granted
          refine (refInc_borrowed start.call steady loaded).mono ?_ (fun _ _ failed => failed)
            (fun _ stopped => stopped)
          intro _ held taken
          refine (namefileLoop_names steady hierarchy chain taken).mono ?_ ?_ (fun _ stopped => stopped)
          · rintro result after ⟨rfl, fits, enough, last⟩
            rw [List.append_nil]
            exact ⟨rfl, by omega, by omega, ⟨granted, enough⟩, last⟩
          · rintro error after ⟨reason, last⟩
            refine ⟨reason.imp (fun long => by omega) fun refused => .inr fun both => refused both.2, last⟩

end Text

/-! ## The buffer -/

/-- `struct iobuf` -/
structure Iobuf where
  ioBase : Nat
  ioOffset : Int
  ioLen : Nat
  ioResid : Nat

/-- The world, and a buffer in memory -/
structure Desk where
  world : World
  memory : Nat -> UInt8
  iob : Iobuf

abbrev Writing (Value : Type) := Program Desk Errno Fault Value

namespace Desk

def setWorld (world : World) (desk : Desk) : Desk := { desk with world := world }

/-- `memcpy` of some bytes -/
def write (start : Nat) (bytes : List UInt8) (desk : Desk) : Desk :=
  { desk with memory := paste start bytes.length (fun k => bytes.getD k 0) desk.memory }

def memmove (target source len : Nat) (desk : Desk) : Desk :=
  { desk with memory := paste target len (fun k => desk.memory (source + k)) desk.memory }

def onWorld {Value : Type} (program : Call Value) : Writing Value := zoom Desk.world setWorld program

def iobufSkip (n : Nat) : Writing Unit := do
  let desk <- get
  assert (desk.iob.ioResid >= n) (.assertion "iob->io_resid >= n")
  modify (fun desk => { desk with iob :=
    ⟨desk.iob.ioBase + n, desk.iob.ioOffset + n, desk.iob.ioLen, desk.iob.ioResid - n⟩ })

/-- The loop of `sfs_namefile`; `ptr` is where the text starts. -/
def namefileLoop (ino resid ptr : Nat) : Writing (Nat × Nat) := do
  let above <- onWorld (onError (lookupOnce ino dotdot) (refDec (.sfs ino)))
  onWorld (refDec (.sfs ino))
  if above = ino then do
    onWorld (refDec (.sfs ino))
    pure (resid, ptr)
  else do
    let desk <- get
    assert (desk.world.type above = typeDir) (.assertion "ino != sin->ino && sin->din->type == SFS_TYPE_DIR")
    let entry <- onWorld (onError (onVolume (direntFindinoNolock above ino)) (refDec (.sfs above)))
    let alen := entry.string.length + 1
    if _fits : resid < alen then do
      onWorld (refDec (.sfs above))
      throw .noMem
    else do
      let ptr := ptr - alen
      modify (write ptr entry.string)
      modify (write (ptr + (alen - 1)) [slash])
      namefileLoop above (resid - alen) ptr
termination_by resid

def sfsNamefile (ino : Nat) : Writing Unit := do
  let desk <- get
  if desk.iob.ioResid <= 2 then throw .noMem
  else do
    let entry <- onWorld kmalloc
    if entry = false then throw .noMem
    else do
      onWorld (refInc (.sfs ino))
      let (resid, ptr) <- namefileLoop ino (desk.iob.ioResid - 2) (desk.iob.ioBase + desk.iob.ioResid)
      let alen := desk.iob.ioResid - resid - 2
      modify (memmove (desk.iob.ioBase + 1) ptr alen)
      modify (write desk.iob.ioBase [slash])
      modify (write (desk.iob.ioBase + 1 + alen) [0])
      iobufSkip alen

/-- The loop writes what the loop over texts puts in front. -/
theorem namefileLoop_meets {post : Post World Errno Fault (List UInt8)} {iob : Iobuf} (resid : Nat) :
    forall {ino ptr : Nat} {text : List UInt8} {world : World} {memory : Nat -> UInt8}, resid <= ptr ->
    Meets (Path.namefileLoop ino resid text) world post ->
    Meets (namefileLoop ino resid ptr) ⟨world, memory, iob⟩
      ⟨fun result desk => desk.iob = iob /\ Exists fun more => more.length <= resid /\
          post.done (more ++ text) desk.world /\ result = (resid - more.length, ptr - more.length) /\
          desk.memory = paste (ptr - more.length) more.length (fun k => more.getD k 0) memory,
        fun error desk => post.fail error desk.world /\
          forall address, address < ptr - resid \/ ptr <= address -> desk.memory address = memory address,
        post.stop⟩ := by
  induction resid using Nat.strongRecOn with
  | ind resid ih =>
      intro ino ptr text world memory room meets
      rw [Path.namefileLoop] at meets
      rw [namefileLoop]
      unfold onWorld setWorld
      simp only [meets_bind, meets_onError, meets_get, meets_assert, meets_ite, meets_pure, meets_zoom] at meets ⊢
      refine meets.mono ?_ ?_ (fun _ stopped => stopped)
      · intro above first given
        refine Meets.mono given ?_ ?_ (fun _ stopped => stopped)
        · intro _ second rest
          dsimp only at rest ⊢
          by_cases top : above = ino
          · rw [if_pos top] at rest ⊢
            refine Meets.mono rest ?_ ?_ (fun _ stopped => stopped)
            · intro _ third last
              refine ⟨trivial, [], Nat.zero_le _, last, rfl, ?_⟩
              exact paste_zero.symm
            · exact fun _ _ failed => ⟨failed, fun _ _ => trivial⟩
          · rw [if_neg top] at rest ⊢
            refine ⟨fun type => ?_, fun other => rest.2 other⟩
            refine Meets.mono (rest.1 type) ?_ ?_ (fun _ stopped => stopped)
            · intro entry third more
              dsimp only at more ⊢
              by_cases full : resid < entry.string.length + 1
              · rw [dif_pos full] at more ⊢
                simp only [meets_bind, meets_throw, meets_zoom] at more ⊢
                refine Meets.mono more ?_ ?_ (fun _ stopped => stopped)
                · exact fun _ _ failed => ⟨failed, fun _ _ => trivial⟩
                · exact fun _ _ failed => ⟨failed, fun _ _ => trivial⟩
              · rw [dif_neg full] at more ⊢
                simp only [meets_bind, meets_modify, write]
                have length : (entry.string ++ [slash]).length = entry.string.length + 1 := by
                  rw [List.length_append, List.length_singleton]
                have ended : paste (ptr - (entry.string.length + 1) + (entry.string.length + 1 - 1)) [slash].length
                    ([slash].getD · 0) (paste (ptr - (entry.string.length + 1)) entry.string.length
                      (entry.string.getD · 0) memory) =
                    paste (ptr - (entry.string.length + 1)) (entry.string ++ [slash]).length
                      ((entry.string ++ [slash]).getD · 0) memory := paste_list_append
                rw [ended]
                refine (ih (resid - (entry.string.length + 1)) (by omega) (by omega) more).mono ?_ ?_
                  (fun _ stopped => stopped)
                · rintro result desk ⟨same, front, fits, ending, rfl, memory⟩
                  have total : (front ++ (entry.string ++ [slash])).length =
                      front.length + (entry.string.length + 1) := by
                    rw [List.length_append, length]
                  refine ⟨same, front ++ (entry.string ++ [slash]), ?_, ?_, ?_, ?_⟩
                  · omega
                  · rw [List.append_assoc, List.append_assoc]
                    exact ending
                  · rw [total, Nat.sub_sub, Nat.sub_sub, Nat.add_comm front.length]
                  · obtain ⟨start, found⟩ : Exists fun start =>
                        ptr - (entry.string.length + 1) = start + front.length :=
                      ⟨ptr - (entry.string.length + 1) - front.length, by omega⟩
                    have first : ptr - (front.length + (entry.string.length + 1)) = start := by omega
                    rw [memory, found, Nat.add_sub_cancel, paste_list_before, total, first]
                · rintro error desk ⟨failed, memory⟩
                  refine ⟨failed, fun address outside => ?_⟩
                  rw [memory address (by omega), paste_outside (by rw [length]; omega)]
            · intro error third given
              refine Meets.mono given ?_ ?_ (fun _ stopped => stopped)
              · exact fun _ _ failed => ⟨failed, fun _ _ => trivial⟩
              · exact fun _ _ failed => ⟨failed, fun _ _ => trivial⟩
        · exact fun _ _ failed => ⟨failed, fun _ _ => trivial⟩
      · intro error first given
        refine Meets.mono given ?_ ?_ (fun _ stopped => stopped)
        · exact fun _ _ failed => ⟨failed, fun _ _ => trivial⟩
        · exact fun _ _ failed => ⟨failed, fun _ _ => trivial⟩

/-- Nothing outside the buffer has changed. -/
def Confined (desk after : Desk) : Prop := forall address,
  address < desk.iob.ioBase \/ desk.iob.ioBase + desk.iob.ioResid <= address ->
    after.memory address = desk.memory address

/-- The text stands at the start of the buffer, with a NUL after it. -/
structure Holds (desk after : Desk) (text : List UInt8) : Prop where
  room : text.length + 1 <= desk.iob.ioResid
  characters : forall k, k < text.length -> after.memory (desk.iob.ioBase + k) = text.getD k 0
  terminated : after.memory (desk.iob.ioBase + text.length) = 0

/-- What is done with the text that the loop has left at `ptr` -/
theorem moved {base ptr : Nat} {text : List UInt8} {memory : Nat -> UInt8} :
    paste (base + 1 + text.length) ([0] : List UInt8).length (([0] : List UInt8).getD · 0)
      (paste base [slash].length ([slash].getD · 0)
        (paste (base + 1) text.length (fun k => paste ptr text.length (text.getD · 0) memory (ptr + k))
          (paste ptr text.length (text.getD · 0) memory))) =
      paste base (slash :: text ++ [0]).length ((slash :: text ++ [0]).getD · 0)
        (paste ptr text.length (text.getD · 0) memory) := by
  have front : paste (base + 1) text.length (fun k => paste ptr text.length (text.getD · 0) memory (ptr + k))
      (paste ptr text.length (text.getD · 0) memory) =
      paste (base + [slash].length) text.length (text.getD · 0) (paste ptr text.length (text.getD · 0) memory) := by
    refine paste_congr fun k low => ?_
    rw [paste_inside (by omega) (by omega), Nat.add_sub_cancel_left]
  have length : base + 1 + text.length = base + ([slash] ++ text).length := by
    rw [List.length_append, List.length_singleton, Nat.add_assoc]
  rw [front, paste_list_before, length]
  exact paste_list_append

/-- `sfs_namefile` writes the text of `sfsNamefile` into the buffer. -/
theorem sfsNamefile_meets {post : Post World Errno Fault (List UInt8)} {ino : Nat} {desk : Desk}
    (meets : Meets (Path.sfsNamefile ino desk.iob.ioResid) desk.world post) :
    Meets (sfsNamefile ino) desk
      ⟨fun _ after => desk.Confined after /\ Exists fun text => desk.Holds after text /\ post.done text after.world,
        fun error after => desk.Confined after /\ post.fail error after.world, post.stop⟩ := by
  unfold Path.sfsNamefile at meets
  unfold sfsNamefile iobufSkip onWorld setWorld memmove write
  simp only [meets_bind, meets_get, meets_assert, meets_ite, meets_pure, meets_zoom, meets_throw, meets_modify]
    at meets ⊢
  split
  · next small =>
      rw [if_pos small] at meets
      exact ⟨fun _ _ => rfl, meets⟩
  · next large =>
      rw [if_neg large] at meets
      refine meets.mono ?_ ?_ (fun _ stopped => stopped)
      · intro alloc first rest
        dsimp only at rest ⊢
        split
        · next refused =>
            rw [if_pos refused] at rest
            exact ⟨fun _ _ => rfl, rest⟩
        · next granted =>
            rw [if_neg granted] at rest
            refine Meets.mono rest ?_ ?_ (fun _ stopped => stopped)
            · intro _ second loop
              refine (namefileLoop_meets _ (by omega) loop).mono ?_ ?_ (fun _ stopped => stopped)
              · rintro result last ⟨same, text, fits, ending, rfl, memory⟩
                have alen : desk.iob.ioResid - (desk.iob.ioResid - 2 - text.length) - 2 = text.length := by omega
                dsimp only
                rw [alen, memory, same, moved]
                have length : (slash :: text ++ [0]).length = text.length + 2 := by
                  rw [List.length_append, List.length_cons, List.length_singleton]
                refine ⟨fun _ => ⟨fun address outside => ?_, slash :: text, ⟨?_, fun k low => ?_, ?_⟩, ?_⟩,
                  fun small => absurd small (by omega)⟩
                · dsimp only
                  rw [paste_outside (by omega), paste_outside (by omega)]
                · rw [List.length_cons]
                  omega
                · rw [List.length_cons] at low
                  dsimp only
                  rw [paste_inside (by omega) (by omega), Nat.add_sub_cancel_left,
                    List.getD_append _ _ _ _ (by rw [List.length_cons]; omega)]
                · dsimp only
                  rw [paste_inside (by omega) (by rw [List.length_cons]; omega), Nat.add_sub_cancel_left,
                    List.getD_append_right _ _ _ _ (Nat.le_refl _), Nat.sub_self, List.getD_cons_zero]
                · rwa [List.append_nil] at ending
              · rintro error last ⟨failed, memory⟩
                refine ⟨fun address outside => memory address ?_, failed⟩
                omega
            · exact fun _ _ failed => ⟨fun _ _ => rfl, failed⟩
      · exact fun _ _ failed => ⟨fun _ _ => rfl, failed⟩

end Desk

/-! ## Names and references -/

/-- Every inode has the references it had, and the same ones are loaded. -/
structure SameRefs (before after : World) : Prop where
  listed : forall ino, ino ∈ after.volume.inodeList <-> ino ∈ before.volume.inodeList
  refs : forall node, (forall ino, node = .sfs ino -> ino ∈ before.volume.inodeList) ->
    after.refs node = before.refs node

theorem Borrowed.sameRefs {files : List Nat} {base world : World} {spent : Nat}
    (borrowed : Borrowed files base (fun _ => 0) spent world) : SameRefs base world where
  listed := fun ino => (borrowed.listed ino).trans (or_iff_left (Nat.lt_irrefl 0))
  refs := by
    intro node loaded
    cases node with
    | sfs ino =>
        unfold World.refs
        dsimp only
        rw [borrowed.old ino (loaded ino rfl), Int.natCast_zero, Int.add_zero]
    | device number =>
        unfold World.refs
        rw [borrowed.devices]

/-- `sfs_namefile` writes the name, or fails because there is no room for it;
the memory outside the buffer and the references are as before. -/
def Desk.Names (desk : Desk) (ino : Nat) (path : List (List UInt8)) : Prop :=
  Meets (Desk.sfsNamefile ino) desk
    ⟨fun _ after => desk.Holds after (nameOf path) /\ desk.Confined after /\ SameRefs desk.world after.world,
      fun _ after => desk.iob.ioResid < (nameOf path).length + 1 /\ desk.Confined after /\
        SameRefs desk.world after.world,
      fun _ => False⟩

section Names

variable {files : List Nat} {desk : Desk} {ino : Nat} {above : List Nat} {path : List (List UInt8)}

/-- The name of a directory at any depth is written when it fits, unless the
buffer has two bytes or there is no memory. -/
theorem sfsNamefile_names_iff (steady : desk.world.Steady files) (hierarchy : Hierarchy desk.world.volume files)
    (chain : Chain desk.world.volume files ino above path) (loaded : ino ∈ desk.world.volume.inodeList) :
    desk.Names ino path <-> ((nameOf path).length + 1 <= desk.iob.ioResid ->
      2 < desk.iob.ioResid /\ desk.world.Granted 0 (1 + desk.world.cost above)) := by
  have ends := @Desk.sfsNamefile_meets _ ino desk (sfsNamefile_names steady hierarchy chain loaded)
  constructor
  · intro names fits
    cases ran : Desk.sfsNamefile ino desk with
    | done value after =>
        rcases ends.of_done ran with ⟨_, _, _, _, _, large, granted, _⟩
        exact ⟨large, granted⟩
    | fail error after =>
        have failed := names.of_fail ran
        exact absurd failed.1 (by omega)
    | stop fault => exact (names.of_stop ran).elim
  · intro enough
    refine ends.mono ?_ ?_ (fun _ stopped => stopped)
    · rintro _ after ⟨confined, text, holds, rfl, _, _, _, _, borrowed⟩
      exact ⟨holds, confined, borrowed.sameRefs⟩
    · rintro error after ⟨confined, reason, _, borrowed⟩
      refine ⟨Nat.lt_of_not_le fun fits => ?_, confined, borrowed.sameRefs⟩
      rcases enough fits with ⟨large, granted⟩
      rcases reason with long | small | refused
      · omega
      · omega
      · exact refused granted

end Names

/-! ## A directory in the root -/

/-- The volume of a file in a directory, with the directories in memory -/
def openVolume : SfsFs :=
  { nestedVolume with inodeList := [blknRoot, 6], freemap := ⟨16, fun block => decide (11 <= block /\ block < 16)⟩ }

def openFiles : List Nat := [blknRoot, 6, 10]

/-- What refers to a block of the volume -/
def openOwner : Nat -> Place
  | 3 => .direct blknRoot ⟨0, by decide⟩
  | 4 => .direct blknRoot ⟨1, by decide⟩
  | 5 => .direct blknRoot ⟨2, by decide⟩
  | 7 => .direct 6 ⟨0, by decide⟩
  | 8 => .direct 6 ⟨1, by decide⟩
  | 9 => .direct 6 ⟨2, by decide⟩
  | 0 => .reserved 0
  | 2 => .reserved 2
  | blkno => .inode blkno

theorem openVolume_holds {place : Place} {blkno : Nat} (held : openVolume.holds openFiles place = some blkno) :
    place = openOwner blkno /\ blkno < 11 := by
  have flat : forall ino, ino ∈ openFiles -> (openVolume.dinOf ino).indirect = 0 := by decide +kernel
  have direct : forall ino, ino ∈ openFiles -> forall index, (openVolume.dinOf ino).direct index ≠ 0 ->
      Place.direct ino index = openOwner ((openVolume.dinOf ino).direct index) /\
        (openVolume.dinOf ino).direct index < 11 := by decide +kernel
  have inode : forall ino, ino ∈ openFiles -> Place.inode ino = openOwner ino /\ ino < 11 := by decide +kernel
  have map : freemapBlocks openVolume.super = 1 := by decide +kernel
  cases place with
  | reserved number =>
      rw [SfsFs.holds, map] at held
      split at held
      · next reserved =>
          cases held
          have fixed : blkno = 0 \/ blkno = 2 := by
            unfold blknSuper blknFreemap at reserved
            omega
          rcases fixed with rfl | rfl <;> decide
      · cases held
  | inode ino =>
      rw [SfsFs.holds] at held
      split at held
      · next listed =>
          cases held
          exact inode blkno listed
      · cases held
  | direct ino index =>
      rw [SfsFs.holds] at held
      split at held
      · next listed =>
          rcases entryBlock_eq_some.mp held with ⟨rfl, positive⟩
          exact direct ino listed index positive
      · cases held
  | indirect ino =>
      rw [SfsFs.holds] at held
      split at held
      · next listed =>
          rw [flat ino listed] at held
          cases held
      · cases held
  | entry ino index =>
      rw [SfsFs.holds] at held
      split at held
      · next all => exact absurd (flat ino all.1) all.2.1
      · cases held

/-- A buffer in front of the volume -/
def openDesk (ioResid : Nat) : Desk := ⟨mountedWorld openVolume, fun _ => 0, ⟨0, 0, ioResid, ioResid⟩⟩

theorem openVolume_steady : (mountedWorld openVolume).Steady openFiles where
  owned := by
    refine ⟨?_, by decide⟩
    constructor
    · constructor
      · intro first second blkno one two
        rw [(openVolume_holds one).1, (openVolume_holds two).1]
      · intro place blkno held free
        have high : 11 <= blkno := (of_decide_eq_true free).1
        have low := (openVolume_holds held).2
        omega
    · intro place blkno held
      have low := (openVolume_holds held).2
      change blkno < 16
      omega
    · exact fun _ free => (of_decide_eq_true free).2
    · decide
    · decide +kernel
    · decide
  works := fun _ => rfl
  counted := fun _ _ => Int.le_refl 1

/-- The one directory that is listed is `a`, in the root. -/
theorem openVolume_lists {parent child : Nat} {name : List UInt8}
    (lists : Lists openVolume openFiles parent child name) :
    parent = blknRoot /\ child = 6 /\ name = [97] := by
  have entries : forall dir, dir ∈ openFiles -> (openVolume.dinOf dir).type = typeDir ->
      forall slot, slot < entriesIn openVolume dir ->
        ((entryIn openVolume dir slot).ino ∈ openFiles /\
          (openVolume.dinOf (entryIn openVolume dir slot).ino).type = typeDir /\
          (entryIn openVolume dir slot).string ≠ dot /\ (entryIn openVolume dir slot).string ≠ dotdot) ->
        dir = blknRoot /\ (entryIn openVolume dir slot).ino = 6 /\ (entryIn openVolume dir slot).string = [97] := by
    decide +kernel
  rcases lists.entry with ⟨slot, low, rfl, rfl⟩
  exact entries parent lists.parentDir.member lists.parentDir.type slot low
    ⟨lists.childDir.member, lists.childDir.type, lists.notDot, lists.notDotdot⟩

theorem openVolume_hierarchy : Hierarchy openVolume openFiles where
  root := ⟨by decide, by decide +kernel⟩
  rootUnlisted := fun parent name lists => absurd (openVolume_lists lists).2.1 (by decide)
  linked := by
    have linked : forall dir, dir ∈ openFiles -> (openVolume.dinOf dir).nlinks ≠ 0 := by decide +kernel
    exact fun dir isDir => linked dir isDir.member
  mapped := by
    have mapped : forall dir, dir ∈ openFiles -> forall slot, slot < entriesIn openVolume dir ->
        slot < (openVolume.dinOf dir).blocks /\ slot < ndirect + blkNentry /\
          openVolume.blockOf (openVolume.dinOf dir) slot ≠ 0 := by decide +kernel
    intro dir isDir slot low
    rcases mapped dir isDir.member slot low with ⟨within, reached, present⟩
    exact ⟨within, reached, present⟩
  named := by
    have named : forall dir, dir ∈ openFiles -> forall first, first < entriesIn openVolume dir ->
        forall second, second < entriesIn openVolume dir ->
          (entryIn openVolume dir first).string = (entryIn openVolume dir second).string -> first = second := by
      decide +kernel
    exact fun dir isDir first second low high _ _ same => named dir isDir.member first low second high same
  dot := by
    have dots : forall dir, dir ∈ openFiles -> forall slot, slot < entriesIn openVolume dir ->
        (entryIn openVolume dir slot).string = Path.dot -> (entryIn openVolume dir slot).ino = dir := by decide +kernel
    exact fun dir isDir slot low _ name => dots dir isDir.member slot low name
  rootDotdot := ⟨1, by decide +kernel⟩
  dotdot := by
    intro parent child name lists
    rcases openVolume_lists lists with ⟨rfl, rfl, rfl⟩
    exact ⟨1, by decide +kernel⟩
  once := by
    intro first second child name other one two
    rcases openVolume_lists one with ⟨rfl, rfl, rfl⟩
    rcases openVolume_lists two with ⟨rfl, _, rfl⟩
    exact ⟨rfl, rfl⟩

theorem openVolume_chain : Chain openVolume openFiles 6 [blknRoot] [[97]] := by
  refine .under .root ?_
  have parentDir : IsDir openVolume openFiles blknRoot := ⟨by decide, by decide +kernel⟩
  have childDir : IsDir openVolume openFiles 6 := ⟨by decide, by decide +kernel⟩
  have notDot : ([97] : List UInt8) ≠ dot := by decide +kernel
  have notDotdot : ([97] : List UInt8) ≠ dotdot := by decide +kernel
  exact ⟨parentDir, childDir, by decide, notDot, notDotdot, 2, by decide +kernel, by decide +kernel, by decide +kernel⟩

/-- The name of the directory in the root is `/a/`. -/
theorem sfsNamefile_names_open : (openDesk 4).Names 6 [[97]] :=
  (sfsNamefile_names_iff openVolume_steady openVolume_hierarchy openVolume_chain (by decide)).mpr
    fun _ => ⟨by decide, fun _ _ => rfl⟩

/-- Two bytes are enough for the name of the root, but it is refused. -/
theorem sfsNamefile_refuses : openVolume.Owned openFiles /\ Hierarchy openVolume openFiles /\
    Chain openVolume openFiles blknRoot [] [] /\ (nameOf []).length + 1 = (openDesk 2).iob.ioResid /\
    ¬ (openDesk 2).Names blknRoot [] := by
  refine ⟨openVolume_steady.owned, openVolume_hierarchy, .root, rfl, fun names => ?_⟩
  have ran : Desk.sfsNamefile blknRoot (openDesk 2) = .fail .noMem (openDesk 2) := rfl
  exact absurd (names.of_fail ran).1 (by decide)

end Path
end Ucore
