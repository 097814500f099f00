import Mathlib.Algebra.Group.Nat.Defs

/-!
# Byte memories

A `Memory w` gives every address of `w` bits a byte. A `Block` is a stretch of addresses, which
may wrap around at the end of the address space; `write` replaces the bytes of one block.

* `Memory.write_of_notMem`: a write leaves every other byte as it was.
* `Memory.load64_store64`: a 64-bit store is read back.
* `Memory.load64_congr`: a change elsewhere leaves a 64-bit value as it was.
-/

namespace BladePSGI

abbrev Byte := BitVec 8

/-- The `size` bytes from `base` on. -/
structure Block (w : ℕ) where
  base : BitVec w
  size : ℕ

namespace Block

variable {w : ℕ} {a : BitVec w} {b c : Block w}

instance : Membership (BitVec w) (Block w) := ⟨fun b a => (a - b.base).toNat < b.size⟩

theorem mem_iff : a ∈ b ↔ (a - b.base).toNat < b.size := Iff.rfl

instance (a : BitVec w) (b : Block w) : Decidable (a ∈ b) :=
  inferInstanceAs (Decidable (_ < _))

/-- The blocks have no byte in common. -/
def Disjoint (b c : Block w) : Prop := ∀ a, a ∈ b → a ∉ c

theorem Disjoint.symm (h : b.Disjoint c) : c.Disjoint b := fun a hc hb => h a hb hc

/-- A block of one byte. -/
@[simp] theorem mem_one_iff {p : BitVec w} : a ∈ (⟨p, 1⟩ : Block w) ↔ a = p := by
  rw [mem_iff, Nat.lt_one_iff]
  constructor
  · intro h
    have h0 : a - p = 0#w := BitVec.eq_of_toNat_eq (by simpa using h)
    rw [← BitVec.sub_add_cancel a p, h0, BitVec.zero_add]
  · rintro rfl
    simp

/-- The byte `j` of a block that does not wrap onto itself. -/
theorem add_sub_toNat {j : ℕ} (a : BitVec w) (h : j < 2 ^ w) :
    (a + BitVec.ofNat w j - a).toNat = j := by
  rw [BitVec.add_comm, BitVec.add_sub_cancel, BitVec.toNat_ofNat, Nat.mod_eq_of_lt h]

end Block

/-- A byte for every address. -/
abbrev Memory (w : ℕ) := BitVec w → Byte

namespace Memory

variable {w : ℕ} {m : Memory w} {a : BitVec w} {b : Block w} {bytes : ℕ → Byte} {v : BitVec 64}

/-- Replace the bytes of a block. -/
def write (m : Memory w) (b : Block w) (bytes : ℕ → Byte) : Memory w := fun a =>
  if a ∈ b then bytes (a - b.base).toNat else m a

theorem write_of_mem (h : a ∈ b) : m.write b bytes a = bytes (a - b.base).toNat := if_pos h

/-- **The frame rule.** -/
theorem write_of_notMem (h : a ∉ b) : m.write b bytes a = m a := if_neg h

/-- The 64-bit integer at an address, the least significant byte first. -/
def load64 (m : Memory w) (a : BitVec w) : BitVec 64 :=
  m (a + 7#w) ++ m (a + 6#w) ++ m (a + 5#w) ++ m (a + 4#w) ++ m (a + 3#w) ++ m (a + 2#w) ++
    m (a + 1#w) ++ m (a + 0#w)

def store64 (m : Memory w) (a : BitVec w) (v : BitVec 64) : Memory w :=
  m.write ⟨a, 8⟩ fun j => v.extractLsb' (8 * j) 8

theorem store64_of_notMem {x : BitVec w} (h : x ∉ (⟨a, 8⟩ : Block w)) : m.store64 a v x = m x :=
  write_of_notMem h

theorem store64_byte (hw : 3 ≤ w) {j : ℕ} (hj : j < 8) :
    m.store64 a v (a + BitVec.ofNat w j) = v.extractLsb' (8 * j) 8 := by
  have hpow : 2 ^ 3 ≤ 2 ^ w := Nat.pow_le_pow_right (by decide) hw
  have hindex : (a + BitVec.ofNat w j - a).toNat = j := Block.add_sub_toNat a (by omega)
  rw [store64, write_of_mem (by rw [Block.mem_iff, hindex]; exact hj), hindex]

/-- **A 64-bit store is read back.** -/
theorem load64_store64 (hw : 3 ≤ w) : (m.store64 a v).load64 a = v := by
  have hbyte : ∀ j < 8, m.store64 a v (a + BitVec.ofNat w j) = v.extractLsb' (8 * j) 8 :=
    fun j hj => store64_byte hw hj
  rw [load64, hbyte 0 (by decide), hbyte 1 (by decide), hbyte 2 (by decide), hbyte 3 (by decide),
    hbyte 4 (by decide), hbyte 5 (by decide), hbyte 6 (by decide), hbyte 7 (by decide)]
  apply BitVec.eq_of_getLsbD_eq
  intro i hi
  simp only [BitVec.getLsbD_append, BitVec.getLsbD_extractLsb']
  grind

/-- A change outside its eight bytes leaves a 64-bit value as it was. -/
theorem load64_congr {m' : Memory w} (hw : 3 ≤ w)
    (h : ∀ x ∈ (⟨a, 8⟩ : Block w), m' x = m x) : m'.load64 a = m.load64 a := by
  have hpow : 2 ^ 3 ≤ 2 ^ w := Nat.pow_le_pow_right (by decide) hw
  have hbyte : ∀ j < 8, m' (a + BitVec.ofNat w j) = m (a + BitVec.ofNat w j) := by
    intro j hj
    apply h
    rw [Block.mem_iff, Block.add_sub_toNat a (by omega)]
    exact hj
  rw [load64, load64, hbyte 0 (by decide), hbyte 1 (by decide), hbyte 2 (by decide),
    hbyte 3 (by decide), hbyte 4 (by decide), hbyte 5 (by decide), hbyte 6 (by decide),
    hbyte 7 (by decide)]

end Memory

end BladePSGI
