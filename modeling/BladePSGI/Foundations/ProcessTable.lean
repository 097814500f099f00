import Mathlib.Data.Finset.Basic
import Mathlib.Data.Finset.Lattice.Basic

/-!
# The kernel's table of one process's children

A child is alive until it terminates, then a zombie until its parent waits for it, then gone. The
table is parametric in the type `π` of the process ids and the type `ω` of the wait statuses; a
pid is handed out by `fork` only while no unreaped child has it, which `fork` asks for, so alive
children and zombies never share a pid.
-/

namespace BladePSGI

/-- The children of one process. -/
structure ProcessTable (π ω : Type*) where
  /-- Forked and not terminated. -/
  alive : Finset π
  /-- Terminated and not waited for. -/
  zombies : Finset π
  /-- The pids that a wait call has returned. -/
  reaped : Finset π
  /-- The wait status of the zombies. -/
  status : π → ω
  disjoint : Disjoint alive zombies

namespace ProcessTable

variable {π ω : Type*} [DecidableEq π]

/-- No child was ever forked. -/
def empty [Inhabited ω] : ProcessTable π ω := ⟨∅, ∅, ∅, fun _ => default, by simp⟩

/-- The children that were forked and not yet waited for. -/
def unreaped (t : ProcessTable π ω) : Finset π := t.alive ∪ t.zombies

/-- `fork` returns the pid `p` in the parent. -/
def fork (t : ProcessTable π ω) (p : π) (h : p ∉ t.unreaped) : ProcessTable π ω where
  alive := insert p t.alive
  zombies := t.zombies
  reaped := t.reaped
  status := t.status
  disjoint := by
    simp only [unreaped, Finset.mem_union, not_or] at h
    exact Finset.disjoint_insert_left.2 ⟨h.2, t.disjoint⟩

/-- The child `p` terminates with status `w`. -/
def exit (t : ProcessTable π ω) (p : π) (w : ω) : ProcessTable π ω where
  alive := t.alive.erase p
  zombies := insert p t.zombies
  reaped := t.reaped
  status := Function.update t.status p w
  disjoint := by
    refine Finset.disjoint_insert_right.2 ⟨Finset.notMem_erase p t.alive, ?_⟩
    exact t.disjoint.mono_left (Finset.erase_subset p t.alive)

/-- A wait call returns the zombie `p`. -/
def reap (t : ProcessTable π ω) (p : π) : ProcessTable π ω where
  alive := t.alive
  zombies := t.zombies.erase p
  reaped := insert p t.reaped
  status := t.status
  disjoint := t.disjoint.mono_right (Finset.erase_subset p t.zombies)

/-! ## The children of a table after each operation -/

theorem mem_unreaped {t : ProcessTable π ω} {p : π} :
    p ∈ t.unreaped ↔ p ∈ t.alive ∨ p ∈ t.zombies := by
  simp [unreaped]

@[simp] theorem unreaped_empty [Inhabited ω] : (empty : ProcessTable π ω).unreaped = ∅ := rfl

omit [DecidableEq π] in
@[simp] theorem reaped_empty [Inhabited ω] : (empty : ProcessTable π ω).reaped = ∅ := rfl

@[simp] theorem mem_unreaped_fork {t : ProcessTable π ω} {p q : π} {h : p ∉ t.unreaped} :
    q ∈ (t.fork p h).unreaped ↔ q = p ∨ q ∈ t.unreaped := by
  simp only [unreaped, fork, Finset.mem_union, Finset.mem_insert, or_assoc]

@[simp] theorem zombies_fork {t : ProcessTable π ω} {p : π} {h : p ∉ t.unreaped} :
    (t.fork p h).zombies = t.zombies := rfl

@[simp] theorem reaped_fork {t : ProcessTable π ω} {p : π} {h : p ∉ t.unreaped} :
    (t.fork p h).reaped = t.reaped := rfl

@[simp] theorem mem_alive_fork {t : ProcessTable π ω} {p q : π} {h : p ∉ t.unreaped} :
    q ∈ (t.fork p h).alive ↔ q = p ∨ q ∈ t.alive := by
  simp [fork]

theorem mem_unreaped_exit {t : ProcessTable π ω} {p q : π} {w : ω} (h : p ∈ t.alive) :
    q ∈ (t.exit p w).unreaped ↔ q ∈ t.unreaped := by
  simp only [unreaped, exit, Finset.mem_union, Finset.mem_erase, Finset.mem_insert]
  by_cases hq : q = p
  · simp [hq, h]
  · simp [hq]

@[simp] theorem mem_zombies_exit {t : ProcessTable π ω} {p q : π} {w : ω} :
    q ∈ (t.exit p w).zombies ↔ q = p ∨ q ∈ t.zombies := by
  simp [exit]

@[simp] theorem mem_alive_exit {t : ProcessTable π ω} {p q : π} {w : ω} :
    q ∈ (t.exit p w).alive ↔ q ≠ p ∧ q ∈ t.alive := by
  simp [exit]

@[simp] theorem reaped_exit {t : ProcessTable π ω} {p : π} {w : ω} :
    (t.exit p w).reaped = t.reaped := rfl

/-- A zombie that is waited for is gone: the two pools never share a pid. -/
theorem mem_unreaped_reap {t : ProcessTable π ω} {p q : π} (h : p ∈ t.zombies) :
    q ∈ (t.reap p).unreaped ↔ q ≠ p ∧ q ∈ t.unreaped := by
  have hp : p ∉ t.alive := fun ha => Finset.disjoint_left.1 t.disjoint ha h
  simp only [unreaped, reap, Finset.mem_union, Finset.mem_erase]
  by_cases hq : q = p
  · simp [hq, hp]
  · simp [hq]

@[simp] theorem alive_reap {t : ProcessTable π ω} {p : π} : (t.reap p).alive = t.alive := rfl

@[simp] theorem mem_zombies_reap {t : ProcessTable π ω} {p q : π} :
    q ∈ (t.reap p).zombies ↔ q ≠ p ∧ q ∈ t.zombies := by
  simp [reap]

@[simp] theorem mem_reaped_reap {t : ProcessTable π ω} {p q : π} :
    q ∈ (t.reap p).reaped ↔ q = p ∨ q ∈ t.reaped := by
  simp [reap]

/-! ## Waiting without hanging -/

/-- What `waitpid(-1, &status, WNOHANG)` can report. -/
inductive Wait (π : Type*)
  /-- The child `p` has terminated and is reaped. -/
  | child (p : π)
  /-- There are children, none has terminated. -/
  | none
  /-- There are no children (`ECHILD`). -/
  | noChild
  deriving DecidableEq

/-- The reports that are correct for a table. -/
def Reports (t : ProcessTable π ω) : Wait π → Prop
  | .child p => p ∈ t.zombies
  | .none => t.unreaped ≠ ∅ ∧ t.zombies = ∅
  | .noChild => t.unreaped = ∅

instance (t : ProcessTable π ω) : (w : Wait π) → Decidable (t.Reports w)
  | .child p => inferInstanceAs (Decidable (p ∈ t.zombies))
  | .none => inferInstanceAs (Decidable (t.unreaped ≠ ∅ ∧ t.zombies = ∅))
  | .noChild => inferInstanceAs (Decidable (t.unreaped = ∅))

end ProcessTable

end BladePSGI
