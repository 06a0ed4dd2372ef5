import Ucore.Mksfs.Image

namespace Ucore
namespace Mksfs

open Sfs

/-!
# The tree of the host

What the writer packs of a directory, and what it relies on: `st_ino` names an
object of the host, and a directory lists a name once.  Entries whose names
start with a dot are not packed.
-/

/-- The numbers that an item takes at most. -/
def HostItem.cost : HostItem -> Nat
  | .link _ _ => 7
  | .file _ content => 4 + 3 * roundupDiv content.length blksize
  | .other => 0

/-- Its entry, by name and `st_ino`. -/
def HostItem.entries (name : List UInt8) : HostItem -> List (List UInt8 × Nat)
  | .link real _ => [(name, real)]
  | .file real _ => [(name, real)]
  | .other => []

def HostItem.files : HostItem -> List (Nat × List UInt8)
  | .file real content => [(real, content)]
  | _ => []

def HostItem.links : HostItem -> List Nat
  | .link real _ => [real]
  | _ => []

/-- The sizes that the writer accepts. -/
def HostItem.Accepted : HostItem -> Prop
  | .link _ target => target.length < blksize
  | .file _ content => content.length <= maxFileSize
  | .other => True

/-- A directory below another one. -/
structure Subdirectory where
  real : Nat
  parent : Nat
  entries : HostDir

namespace HostDir

/-- The entries that are packed, in order. -/
def entries : HostDir -> List (List UInt8 × Nat)
  | .nil => []
  | .item name what rest => (if name.hidden = true then [] else what.entries name.bytes) ++ rest.entries
  | .dir name real _ rest => (if name.hidden = true then [] else [(name.bytes, real)]) ++ rest.entries

/-- The files at any depth. -/
def files : HostDir -> List (Nat × List UInt8)
  | .nil => []
  | .item name what rest => (if name.hidden = true then [] else what.files) ++ rest.files
  | .dir name _ inner rest => (if name.hidden = true then [] else inner.files) ++ rest.files

def links : HostDir -> List Nat
  | .nil => []
  | .item name what rest => (if name.hidden = true then [] else what.links) ++ rest.links
  | .dir name _ inner rest => (if name.hidden = true then [] else inner.links) ++ rest.links

/-- The directories at any depth. -/
def subdirectories (parent : Nat) : HostDir -> List Subdirectory
  | .nil => []
  | .item _ _ rest => rest.subdirectories parent
  | .dir name real inner rest =>
      (if name.hidden = true then [] else ⟨real, parent, inner⟩ :: inner.subdirectories real) ++
        rest.subdirectories parent

def dirs : HostDir -> List Nat
  | .nil => []
  | .item _ _ rest => rest.dirs
  | .dir name real inner rest => (if name.hidden = true then [] else real :: inner.dirs) ++ rest.dirs

/-- The numbers that packing takes at most. -/
def cost : HostDir -> Nat
  | .nil => 0
  | .item name what rest => (if name.hidden = true then 0 else what.cost) + rest.cost
  | .dir name _ inner rest => (if name.hidden = true then 0 else 10 + inner.cost) + rest.cost

/-- The names and sizes that the writer accepts. -/
def Accepted : HostDir -> Prop
  | .nil => True
  | .item name what rest =>
      (name.hidden = false -> name.bytes.length <= maxFnameLen /\ what.Accepted) /\ rest.Accepted
  | .dir name _ inner rest =>
      (name.hidden = false ->
        name.bytes.length <= maxFnameLen /\ inner.entries.length + 2 <= lnNblks /\ inner.Accepted) /\
        rest.Accepted

/-- Every directory lists a name once. -/
def Distinct : HostDir -> Prop
  | .nil => True
  | .item name _ rest => (name.hidden = false -> name.bytes ∉ rest.entries.map Prod.fst) /\ rest.Distinct
  | .dir name _ inner rest =>
      (name.hidden = false -> name.bytes ∉ rest.entries.map Prod.fst /\ inner.Distinct) /\ rest.Distinct

/-- All that is packed from the host. -/
def reals (dir : HostDir) : List Nat := dir.files.map Prod.fst ++ dir.links ++ dir.dirs

theorem subdirectories_real (dir : HostDir) (parent : Nat) :
    (dir.subdirectories parent).map Subdirectory.real = dir.dirs := by
  induction dir generalizing parent with
  | nil => rfl
  | item name item rest ih => exact ih parent
  | dir name real entries rest first second =>
      unfold subdirectories dirs
      rw [List.map_append, second parent]
      by_cases hidden : name.hidden = true
      · rw [if_pos hidden, if_pos hidden]
        rfl
      · rw [if_neg hidden, if_neg hidden, List.map_cons, first real]

end HostDir

/-- A directory of the host with everything below it.  The root of the volume
has no `st_ino`, for which the writer keeps 0. -/
structure HostTree where
  root : HostDir
  /-- Hard links have the same bytes. -/
  linked : forall real first second, (real, first) ∈ root.files -> (real, second) ∈ root.files -> first = second
  filesApart : forall real content, (real, content) ∈ root.files ->
    real ∉ root.links /\ real ∉ root.dirs /\ real ≠ 0
  dirsApart : forall real, real ∈ root.dirs -> real ∉ root.links /\ real ≠ 0
  dirsOnce : root.dirs.Nodup
  distinct : root.Distinct

end Mksfs
end Ucore
