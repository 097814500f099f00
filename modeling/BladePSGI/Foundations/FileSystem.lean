import Mathlib.Data.Nat.Notation
import Mathlib.Logic.Function.Basic

/-!
# Sockets in a file system

What `stat`, `unlink` and `bind` do to the directory entries of a file system that has sockets,
symbolic links and other things in it. Which directory entry a path names is left to `lookup`:
several paths may name the same entry. The operations here remove and make no directories, so that
`lookup` stays as it is.

* `stat_eq_socket_cases`: an entry that `stat` takes for a socket is one, or a symbolic link.
* `unlink_eq`, `bind_eq`: the operations replace one entry, as `set` does.
-/

namespace BladePSGI

/-- What a directory entry is. -/
inductive Node (Entry Socket : Type*)
  | socket (s : Socket)
  /-- A symbolic link, with the entry that its text names. -/
  | link (target : Option Entry)
  /-- A regular file, a directory and so on. -/
  | other
  deriving DecidableEq

/-- The entry is a socket. -/
def Node.IsSocket {Entry Socket : Type*} : Node Entry Socket → Prop
  | socket _ => True
  | _ => False

/-- A file system. -/
structure FileSystem (Path Entry Socket : Type*) where
  /-- The directory entry that a path names, whether anything is there or not; `none` if there is no
  such directory. -/
  lookup : Path → Option Entry
  node : Entry → Option (Node Entry Socket)

namespace FileSystem

variable {Path Entry Socket : Type*}

/-- What is at the end of the symbolic links, if there are fewer than `n`. -/
def follow (fs : FileSystem Path Entry Socket) : ℕ → Entry → Option (Node Entry Socket)
  | 0, _ => none
  | n + 1, e =>
    match fs.node e with
    | some (.link target) => target.bind (fs.follow n)
    | node => node

/-- `stat`, which follows up to forty symbolic links. -/
def stat (fs : FileSystem Path Entry Socket) (p : Path) : Option (Node Entry Socket) :=
  (fs.lookup p).bind (fs.follow 41)

/-- What a path names. -/
def nodeAt (fs : FileSystem Path Entry Socket) (p : Path) : Option (Node Entry Socket) :=
  (fs.lookup p).bind fs.node

variable {fs : FileSystem Path Entry Socket} {p : Path} {e e' : Entry} {s : Socket}
  {node node' : Option (Node Entry Socket)}

theorem stat_eq (h : fs.lookup p = some e) : fs.stat p = fs.follow 41 e := by
  rw [stat, h, Option.bind_some]

theorem node_ne_none_of_stat (h : fs.lookup p = some e) {n : Node Entry Socket}
    (hstat : fs.stat p = some n) : fs.node e ≠ none := by
  intro hnone
  rw [stat_eq h, follow, hnone] at hstat
  cases hstat

/-- What `stat` takes for a socket is one, or a symbolic link. -/
theorem stat_eq_socket_cases (h : fs.lookup p = some e) (hstat : fs.stat p = some (.socket s)) :
    fs.node e = some (.socket s) ∨ ∃ target, fs.node e = some (.link target) := by
  rw [stat_eq h, follow] at hstat
  split at hstat
  · exact .inr ⟨_, ‹_›⟩
  · exact .inl hstat

/-! ## The operations -/

variable [DecidableEq Entry]

/-- Replace an entry. -/
def set (fs : FileSystem Path Entry Socket) (e : Entry) (node : Option (Node Entry Socket)) :
    FileSystem Path Entry Socket where
  lookup := fs.lookup
  node := Function.update fs.node e node

/-- `unlink` of something that is no directory, which does not follow a symbolic link. -/
def unlink (fs : FileSystem Path Entry Socket) (p : Path) : Option (FileSystem Path Entry Socket) :=
  match fs.lookup p with
  | none => none
  | some e => if (fs.node e).isSome then some (fs.set e none) else none

/-- `bind` of a socket to a path: the entry is made, and must not be there before. -/
def bind (fs : FileSystem Path Entry Socket) (p : Path) (s : Socket) :
    Option (FileSystem Path Entry Socket) :=
  match fs.lookup p with
  | none => none
  | some e => if (fs.node e).isNone then some (fs.set e (some (.socket s))) else none

@[simp] theorem set_lookup : (fs.set e node).lookup = fs.lookup := rfl

@[simp] theorem set_node_self : (fs.set e node).node e = node := Function.update_self ..

@[simp] theorem set_node_of_ne (h : e' ≠ e) : (fs.set e node).node e' = fs.node e' :=
  Function.update_of_ne h ..

@[simp] theorem set_set : (fs.set e node).set e node' = fs.set e node' := by
  simp [set]

theorem unlink_eq (h : fs.lookup p = some e) (hnode : fs.node e ≠ none) :
    fs.unlink p = some (fs.set e none) := by
  rw [unlink, h]
  exact if_pos (Option.isSome_iff_ne_none.2 hnode)

theorem bind_eq (h : fs.lookup p = some e) (hnode : fs.node e = none) :
    fs.bind p s = some (fs.set e (some (.socket s))) := by
  rw [bind, h]
  exact if_pos (Option.isNone_iff_eq_none.2 hnode)

end FileSystem

end BladePSGI
