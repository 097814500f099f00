import BladePSGI.Foundations.Memory

/-!
# POSIX semaphores

What is known of the semaphores of `<semaphore.h>`. A `sem_t` is a block of bytes, of which only the
count is known: what else it holds is up to the implementation and may change with every call, as
the argument `n` of the operations says.
-/

namespace BladePSGI

/-- `SEM_VALUE_MAX`. -/
def semValueMax : ℕ := 2147483647

/-- The semaphores of an implementation, on the `size` bytes of a `sem_t`. -/
structure Semaphores (size : ℕ) where
  /-- The count. -/
  value : (ℕ → Byte) → ℕ
  /-- `sem_init`. -/
  init : ℕ → ℕ → Byte
  /-- A `sem_wait` or `sem_trywait` that succeeds. -/
  take : ℕ → (ℕ → Byte) → ℕ → Byte
  /-- One that fails or is interrupted, or a `sem_post` that fails. -/
  refuse : ℕ → (ℕ → Byte) → ℕ → Byte
  /-- A `sem_post` that succeeds. -/
  post : ℕ → (ℕ → Byte) → ℕ → Byte
  value_congr : ∀ {b b' : ℕ → Byte}, (∀ j < size, b j = b' j) → value b = value b'
  value_init : ∀ {count}, count ≤ semValueMax → value (init count) = count
  value_take : ∀ {n b}, 0 < value b → value (take n b) + 1 = value b
  value_refuse : ∀ {n b}, value (refuse n b) = value b
  value_post : ∀ {n b}, value b < semValueMax → value (post n b) = value b + 1

/-- The bytes from an address on. -/
def Memory.bytesAt {w : ℕ} (m : Memory w) (a : BitVec w) : ℕ → Byte :=
  fun j => m (a + BitVec.ofNat w j)

namespace Semaphores

variable {w size : ℕ} (sems : Semaphores size) {m m' : Memory w} {a : BitVec w} {bytes : ℕ → Byte}

/-- The count of the semaphore at an address. -/
def valueAt (m : Memory w) (a : BitVec w) : ℕ := sems.value (m.bytesAt a)

/-- A semaphore has the bytes that it has been given. -/
theorem valueAt_write (hw : size ≤ 2 ^ w) :
    sems.valueAt (m.write ⟨a, size⟩ bytes) a = sems.value bytes := by
  refine sems.value_congr fun j hj => ?_
  have hsub : (a + BitVec.ofNat w j - a).toNat = j := Block.add_sub_toNat a (by omega)
  have hmem : a + BitVec.ofNat w j ∈ (⟨a, size⟩ : Block w) := by
    rw [Block.mem_iff, hsub]
    exact hj
  rw [Memory.bytesAt, Memory.write_of_mem hmem, hsub]

/-- A change outside its block leaves a semaphore as it was. -/
theorem valueAt_congr (hw : size ≤ 2 ^ w)
    (h : ∀ x, x ∈ (⟨a, size⟩ : Block w) → m' x = m x) :
    sems.valueAt m' a = sems.valueAt m a := by
  refine sems.value_congr fun j hj => h _ ?_
  rw [Block.mem_iff, Block.add_sub_toNat a (by omega)]
  exact hj

end Semaphores

end BladePSGI
