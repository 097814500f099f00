import BladePSGI.Foundations.Memory
import Mathlib.Data.List.Basic

/-!
# Strings in memory

A stretch of memory is a list of bytes, and a pointer into it a position. A `CString` is what can be
stored with a NUL behind it.

* `read_append`: a string is read where it has been stored.
* `stored`, `offset`: strings one behind the other, and where they begin, with `read_stored` and
  `offset_lt_offset`.
* `overwrite_append`: `memcpy` onto a stretch of the same length.
-/

namespace BladePSGI

/-- A string without a NUL. -/
@[ext] structure CString where
  bytes : List Byte
  nul_notMem : 0#8 ∉ bytes
  deriving DecidableEq

namespace CString

/-- The string behind the first `k` bytes. -/
def drop (s : CString) (k : ℕ) : CString where
  bytes := s.bytes.drop k
  nul_notMem h := s.nul_notMem (List.mem_of_mem_drop h)

/-- The bytes from `p` to the next NUL. -/
def read (m : List Byte) (p : ℕ) : List Byte := (m.drop p).takeWhile (· != 0#8)

def strlen (m : List Byte) (p : ℕ) : ℕ := (read m p).length

/-- `memcpy` of `data` to `p`. -/
def overwrite (m : List Byte) (p : ℕ) (data : List Byte) : List Byte :=
  m.take p ++ (data ++ m.drop (p + data.length))

/-- Strings one behind the other. -/
def stored (ss : List CString) : List Byte := ss.flatMap fun s => s.bytes ++ [0#8]

/-- Where string `k` begins among the strings `ss`. -/
def offset (ss : List CString) (k : ℕ) : ℕ := (stored (ss.take k)).length

variable {l r old data m : List Byte} {s : CString} {ss : List CString} {k p : ℕ}

theorem takeWhile_append {s : List Byte} (hs : 0#8 ∉ s) (r : List Byte) :
    (s ++ 0#8 :: r).takeWhile (· != 0#8) = s := by
  rw [List.takeWhile_append_of_pos]
  · simp
  · intro b hb
    have hne : b ≠ 0#8 := fun h => hs (h ▸ hb)
    simpa using hne

/-- **A string is read where it has been stored.** -/
theorem read_append {s : List Byte} (hs : 0#8 ∉ s) (l r : List Byte) :
    read (l ++ (s ++ 0#8 :: r)) l.length = s := by
  rw [read, List.drop_left, takeWhile_append hs]

/-- **`memcpy`** onto a stretch of the same length. -/
theorem overwrite_append (h : data.length = old.length) :
    overwrite (l ++ (old ++ r)) l.length data = l ++ (data ++ r) := by
  rw [overwrite, List.take_left, h, ← List.drop_drop, List.drop_left, List.drop_left]

/-! ## Strings one behind the other -/

@[simp] theorem stored_nil : stored [] = [] := rfl

theorem stored_cons (s : CString) (ss : List CString) :
    stored (s :: ss) = s.bytes ++ 0#8 :: stored ss := by
  simp [stored]

@[simp] theorem stored_append (ss ts : List CString) :
    stored (ss ++ ts) = stored ss ++ stored ts := by
  simp [stored]

@[simp] theorem offset_zero (ss : List CString) : offset ss 0 = 0 := rfl

theorem offset_length (ss : List CString) : offset ss ss.length = (stored ss).length := by
  rw [offset, List.take_length]

/-- The strings before string `k`, the string, and those behind it. -/
theorem stored_split (h : ss[k]? = some s) :
    stored ss = stored (ss.take k) ++ (s.bytes ++ 0#8 :: stored (ss.drop (k + 1))) := by
  obtain ⟨hk, rfl⟩ := List.getElem?_eq_some_iff.1 h
  rw [← stored_cons, ← stored_append, ← List.drop_eq_getElem_cons hk, List.take_append_drop]

theorem offset_succ (h : ss[k]? = some s) :
    offset ss (k + 1) = offset ss k + s.bytes.length + 1 := by
  obtain ⟨hk, rfl⟩ := List.getElem?_eq_some_iff.1 h
  rw [offset, List.take_succ_eq_append_getElem hk, stored_append, List.length_append, stored_cons]
  simp [offset, Nat.add_assoc]

/-- Every string takes at least one byte. -/
theorem offset_add_le (hk : p + k ≤ ss.length) : offset ss p + k ≤ offset ss (p + k) := by
  induction k with
  | zero => exact Nat.le_refl _
  | succ k ih =>
    have hlt : p + k < ss.length := by omega
    have := offset_succ (List.getElem?_eq_getElem hlt)
    have := ih (by omega)
    rw [← Nat.add_assoc p k 1]
    omega

theorem offset_lt_offset {j : ℕ} (hjk : j < k) (hk : k ≤ ss.length) :
    offset ss j < offset ss k := by
  have := @offset_add_le ss (k - j) j (by omega)
  rw [show j + (k - j) = k by omega] at this
  omega

/-- **The strings are read back.** -/
theorem read_stored (h : ss[k]? = some s) (l r : List Byte) :
    read (l ++ (stored ss ++ r)) (l.length + offset ss k) = s.bytes := by
  have hsplit : l ++ (stored ss ++ r) =
      (l ++ stored (ss.take k)) ++ (s.bytes ++ 0#8 :: (stored (ss.drop (k + 1)) ++ r)) := by
    rw [stored_split h]
    simp
  rw [hsplit, offset, ← List.length_append, read_append s.nul_notMem]

end CString

end BladePSGI
