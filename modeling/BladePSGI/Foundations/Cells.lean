import Mathlib.Logic.Function.Basic
import Mathlib.Data.List.Basic
import Mathlib.Tactic.Basic

/-!
# Cells with reference counts

A memory of cells. A cell has a value, which an assignment replaces in place, and the number of the
references to it; it is freed with the last of them. Assignments alone are a store of values.

* `Cells.inc_dec`: a reference that is taken before another one is dropped keeps the cell.
* `assigned_apply`: after a sequence of assignments, a place holds the last value assigned to it.
-/

namespace BladePSGI

open Function

variable {ι α : Type*} [DecidableEq ι]

/-! ## Cells -/

/-- A cell in use. -/
structure Cell (α : Type*) where
  value : α
  refcnt : ℕ
  deriving DecidableEq

/-- The cells, `none` where there is none in use. -/
abbrev Cells (ι α : Type*) := ι → Option (Cell α)

namespace Cells

variable {c : Cells ι α} {i j : ι} {v w : α} {n : ℕ}

/-- A new cell, with one reference. -/
def alloc (c : Cells ι α) (i : ι) (v : α) : Cells ι α := update c i (some ⟨v, 1⟩)

/-- The cell gets another value. -/
def assign (c : Cells ι α) (i : ι) (v : α) : Cells ι α :=
  update c i ((c i).map fun cell => { cell with value := v })

/-- One more reference. -/
def inc (c : Cells ι α) (i : ι) : Cells ι α :=
  update c i ((c i).map fun cell => { cell with refcnt := cell.refcnt + 1 })

/-- One reference less. The last one frees the cell. -/
def dec (c : Cells ι α) (i : ι) : Cells ι α :=
  update c i ((c i).bind fun cell =>
    if cell.refcnt ≤ 1 then none else some { cell with refcnt := cell.refcnt - 1 })

/-- The value that a reference to the cell finds. -/
def value (c : Cells ι α) (i : ι) : Option α := (c i).map Cell.value

omit [DecidableEq ι] in
theorem value_of (h : c i = some ⟨v, n⟩) : c.value i = some v := by
  simp [value, h]

@[simp] theorem alloc_self : c.alloc i v i = some ⟨v, 1⟩ := update_self ..

theorem alloc_of_ne (h : j ≠ i) : c.alloc i v j = c j := update_of_ne h ..

theorem assign_self (h : c i = some ⟨w, n⟩) : c.assign i v i = some ⟨v, n⟩ := by
  rw [assign, update_self, h]
  rfl

theorem assign_of_ne (h : j ≠ i) : c.assign i v j = c j := update_of_ne h ..

theorem inc_self (h : c i = some ⟨v, n⟩) : c.inc i i = some ⟨v, n + 1⟩ := by
  rw [inc, update_self, h]
  rfl

theorem inc_of_ne (h : j ≠ i) : c.inc i j = c j := update_of_ne h ..

/-- A reference that is not the last one. -/
theorem dec_self (h : c i = some ⟨v, n + 1⟩) (hn : 0 < n) : c.dec i i = some ⟨v, n⟩ := by
  rw [dec, update_self, h, Option.bind_some, if_neg (by dsimp only; omega)]
  rfl

theorem dec_of_ne (h : j ≠ i) : c.dec i j = c j := update_of_ne h ..

/-- **A reference taken in time keeps the cell.** -/
theorem inc_dec (h : c i = some ⟨v, n⟩) (hn : 0 < n) : (c.inc i).dec i = c := by
  funext j
  by_cases hj : j = i
  · subst hj
    rw [dec_self (inc_self h) hn, h]
  · rw [dec_of_ne hj, inc_of_ne hj]

end Cells

/-! ## Assignments -/

/-- The store after a sequence of assignments. -/
def assigned (σ : ι → α) (ws : List (ι × α)) : ι → α := ws.foldl (fun σ w => update σ w.1 w.2) σ

/-- The last value that is assigned to the place. -/
def lastAssigned (ws : List (ι × α)) (i : ι) : Option α :=
  ((ws.filter (·.1 = i)).getLast?).map Prod.snd

variable {σ : ι → α} {ws : List (ι × α)} {i : ι}

theorem lastAssigned_cons (w : ι × α) : lastAssigned (w :: ws) i =
    if w.1 = i then some ((lastAssigned ws i).getD w.2) else lastAssigned ws i := by
  unfold lastAssigned
  split_ifs with h
  · rw [List.filter_cons_of_pos (by simpa using h), List.getLast?_cons, Option.map_some]
    cases (ws.filter (·.1 = i)).getLast? <;> rfl
  · rw [List.filter_cons_of_neg (by simpa using h)]

/-- **A place holds the last value assigned to it.** -/
theorem assigned_apply : assigned σ ws i = (lastAssigned ws i).getD (σ i) := by
  induction ws generalizing σ with
  | nil => rfl
  | cons w ws ih =>
    change assigned (update σ w.1 w.2) ws i = _
    rw [ih, lastAssigned_cons]
    split_ifs with h
    · rw [h, update_self, Option.getD_some]
    · rw [update_of_ne (Ne.symm h)]

/-- A place holds what it held before if and only if nothing else is the last value assigned. -/
theorem assigned_eq_iff :
    assigned σ ws i = σ i ↔ ∀ v, lastAssigned ws i = some v → v = σ i := by
  rw [assigned_apply]
  cases lastAssigned ws i <;> simp

end BladePSGI
