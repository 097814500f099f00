import BladePSGI.Foundations.Memory
import BladePSGI.Foundations.Transition
import Mathlib.Data.Int.Notation
import Mathlib.Data.List.Basic
import Std.Data.String.ToNat

/-!
# Texts of terminated fields

A text is a list of bytes. A field that does not contain its terminator can be read back from the
front of a text, and one whose successor does not contain the separator from its end.

* `append_cons_inj_first`: the first field of a text, up to its terminator.
* `flatMap_terminated_inj`: a text of terminated lines determines the lines.
* `map_append_map_inj`: two lists with distinguishable elements, one behind the other.
* `splitFirst`, `splitAll`: reading back what stands before, behind and between separators, with
  `splitFirst_field`, `splitAll_joined` and `splitFirst_emptyLine` for fields that do not contain
  the first element of the separator.
* `decimal_injective`, `signed_injective`: decimal numbers.
-/

namespace BladePSGI.Text

open Transition

variable {α β γ : Type*}

/-! ## Fields and lines -/

/-- Up to the first terminator. -/
theorem append_cons_inj_first {a : α} {l₁ l₂ m₁ m₂ : List α} (hl : a ∉ l₁) (hm : a ∉ m₁)
    (h : l₁ ++ a :: l₂ = m₁ ++ a :: m₂) : l₁ = m₁ ∧ l₂ = m₂ := by
  have hrev : l₂.reverse ++ a :: l₁.reverse = m₂.reverse ++ a :: m₁.reverse := by
    simpa using congrArg List.reverse h
  obtain ⟨h₂, h₁⟩ := append_cons_inj_last (by simpa using hl) (by simpa using hm) hrev
  exact ⟨List.reverse_injective h₁, List.reverse_injective h₂⟩

/-- **Lines are determined by their text.** -/
theorem flatMap_terminated_inj {a : α} {ls ms : List (List α)} (hl : ∀ l ∈ ls, a ∉ l)
    (hm : ∀ m ∈ ms, a ∉ m) (h : ls.flatMap (· ++ [a]) = ms.flatMap (· ++ [a])) : ls = ms := by
  induction ls generalizing ms with
  | nil =>
    cases ms with
    | nil => rfl
    | cons m ms => simp at h
  | cons l ls ih =>
    cases ms with
    | nil => simp at h
    | cons m ms =>
      rw [List.flatMap_cons, List.flatMap_cons, List.append_assoc, List.append_assoc] at h
      obtain ⟨rfl, hrest⟩ := append_cons_inj_first (hl l List.mem_cons_self)
        (hm m List.mem_cons_self) h
      rw [ih (fun l h => hl l (List.mem_cons_of_mem _ h))
        (fun m h => hm m (List.mem_cons_of_mem _ h)) hrest]

/-- Two lists, one behind the other, whose elements are kept apart. -/
theorem map_append_map_inj {f : α → γ} {g : β → γ} {l l' : List α} {m m' : List β}
    (hf : Function.Injective f) (hg : Function.Injective g) (hfg : ∀ x y, f x ≠ g y)
    (h : l.map f ++ m.map g = l'.map f ++ m'.map g) : l = l' ∧ m = m' := by
  induction l generalizing l' with
  | nil =>
    cases l' with
    | nil => exact ⟨rfl, List.map_injective_iff.2 hg h⟩
    | cons y l' =>
      cases m with
      | nil => simp at h
      | cons z m => exact absurd (List.cons_eq_cons.1 h).1.symm (hfg y z)
  | cons x l ih =>
    cases l' with
    | nil =>
      cases m' with
      | nil => simp at h
      | cons z m' => exact absurd (List.cons_eq_cons.1 h).1 (hfg x z)
    | cons y l' =>
      obtain ⟨hxy, hrest⟩ := List.cons_eq_cons.1 h
      obtain ⟨rfl, rfl⟩ := ih hrest
      exact ⟨by rw [hf hxy], rfl⟩

/-! ## Splitting at a separator -/

section Split

variable [DecidableEq α] {sep l r : List α} {a : α}

/-- What stands before and after the first occurrence of the separator. -/
def splitFirst (sep : List α) : List α → Option (List α × List α)
  | [] => if sep = [] then some ([], []) else none
  | x :: l =>
    if sep <+: x :: l then some ([], (x :: l).drop sep.length)
    else (splitFirst sep l).map fun r => (x :: r.1, r.2)

/-- Put an element in front of the first part. -/
def consFirst (x : α) : List (List α) → List (List α)
  | [] => [[x]]
  | l :: ls => (x :: l) :: ls

/-- The parts between the separators, where `n` more elements belong to the last one found. -/
def splitAllFrom (sep : List α) : ℕ → List α → List (List α)
  | _, [] => [[]]
  | n + 1, _ :: l => splitAllFrom sep n l
  | 0, x :: l =>
    if sep <+: x :: l then [] :: splitAllFrom sep (sep.length - 1) l
    else consFirst x (splitAllFrom sep 0 l)

/-- The parts between the separators. -/
def splitAll (sep l : List α) : List (List α) := splitAllFrom sep 0 l

theorem splitFirst_cons (h : ¬ sep <+: a :: l) :
    splitFirst sep (a :: l) = (splitFirst sep l).map fun r => (a :: r.1, r.2) := by
  rw [splitFirst, if_neg h]

/-- The separator at the front. -/
theorem splitFirst_sep (r : List α) : splitFirst sep (sep ++ r) = some ([], r) := by
  cases h : sep ++ r with
  | nil =>
    obtain ⟨rfl, rfl⟩ := List.append_eq_nil_iff.1 h
    rfl
  | cons x l =>
    rw [splitFirst, if_pos (h ▸ List.prefix_append sep r), ← h, List.drop_left]

/-- A stretch without the first element of the separator is passed over. -/
theorem splitFirst_append (h : a ∉ l) (r : List α) :
    splitFirst (a :: sep) (l ++ r) =
      (splitFirst (a :: sep) r).map fun p => (l ++ p.1, p.2) := by
  induction l with
  | nil => simp
  | cons x l ih =>
    rw [List.mem_cons, not_or] at h
    have hne : ¬ (a :: sep) <+: x :: (l ++ r) := fun hp => h.1 (List.cons_prefix_cons.1 hp).1
    rw [List.cons_append, splitFirst_cons hne, ih h.2, Option.map_map]
    rfl

/-- **The first occurrence of a separator**, behind a field without its first element. -/
theorem splitFirst_field (h : a ∉ l) (r : List α) :
    splitFirst (a :: sep) (l ++ (a :: sep) ++ r) = some (l, r) := by
  rw [List.append_assoc, splitFirst_append h, splitFirst_sep, Option.map_some, List.append_nil]

/-- Lines of two fields each. -/
theorem mapM_splitFirst {fields : List (List α × List α)} (h : ∀ f ∈ fields, a ∉ f.1) :
    (fields.map fun f => f.1 ++ (a :: sep) ++ f.2).mapM (splitFirst (a :: sep)) = some fields := by
  induction fields with
  | nil => rfl
  | cons f fields ih =>
    rw [List.map_cons, List.mapM_cons, splitFirst_field (h f List.mem_cons_self),
      ih fun f' hf => h f' (List.mem_cons_of_mem _ hf)]
    rfl

theorem splitAllFrom_length (m r : List α) :
    splitAllFrom sep m.length (m ++ r) = splitAll sep r := by
  induction m with
  | nil => rfl
  | cons x m ih => exact ih

theorem splitAll_sep (r : List α) :
    splitAll (a :: sep) (a :: sep ++ r) = [] :: splitAll (a :: sep) r := by
  have hsep : a :: sep <+: a :: (sep ++ r) := List.prefix_append (a :: sep) r
  show splitAllFrom (a :: sep) 0 (a :: (sep ++ r)) = _
  rw [splitAllFrom, if_pos hsep]
  exact congrArg _ (splitAllFrom_length sep r)

theorem splitAll_cons (h : ¬ sep <+: a :: l) :
    splitAll sep (a :: l) = consFirst a (splitAll sep l) := by
  rw [splitAll, splitAllFrom, if_neg h]
  rfl

/-- A field without the first element of the separator, and what follows it. -/
theorem splitAll_field (h : a ∉ l) (r : List α) :
    splitAll (a :: sep) (l ++ (a :: sep) ++ r) = l :: splitAll (a :: sep) r := by
  induction l with
  | nil => exact splitAll_sep r
  | cons x l ih =>
    rw [List.mem_cons, not_or] at h
    have hne : ¬ (a :: sep) <+: x :: (l ++ (a :: sep) ++ r) :=
      fun hp => h.1 (List.cons_prefix_cons.1 hp).1
    rw [List.cons_append, List.cons_append, splitAll_cons hne, ih h.2, consFirst]

theorem splitAll_last (h : a ∉ l) : splitAll (a :: sep) l = [l] := by
  induction l with
  | nil => rfl
  | cons x l ih =>
    rw [List.mem_cons, not_or] at h
    rw [splitAll_cons fun hp => h.1 (List.cons_prefix_cons.1 hp).1, ih h.2, consFirst]

/-- The text of the fields `l :: ls`, with separators in between. -/
def joined (sep l : List α) (ls : List (List α)) : List α := l ++ ls.flatMap (sep ++ ·)

omit [DecidableEq α] in
theorem flatMap_terminated (sep l : List α) (ls : List (List α)) :
    (l :: ls).flatMap (· ++ sep) = joined sep l ls ++ sep := by
  induction ls generalizing l with
  | nil => simp [joined]
  | cons m ls ih =>
    rw [List.flatMap_cons, ih m, joined, joined, List.flatMap_cons]
    simp only [List.append_assoc]

/-- **Fields are read back** when none of them contains the first element of the separator. -/
theorem splitAll_joined {ls : List (List α)} (h : ∀ m ∈ l :: ls, a ∉ m) :
    splitAll (a :: sep) (joined (a :: sep) l ls) = l :: ls := by
  induction ls generalizing l with
  | nil =>
    rw [joined, List.flatMap_nil, List.append_nil]
    exact splitAll_last (h l List.mem_cons_self)
  | cons m ls ih =>
    have hjoined : joined (a :: sep) l (m :: ls) = l ++ (a :: sep) ++ joined (a :: sep) m ls := by
      simp only [joined, List.flatMap_cons, List.append_assoc]
    rw [hjoined, splitAll_field (h l List.mem_cons_self),
      ih fun m' hm => h m' (List.mem_cons_of_mem _ hm)]

/-- **The first empty line**, behind lines that are not empty. -/
theorem splitFirst_emptyLine (ha : a ∉ sep) {ls : List (List α)} (hl : a ∉ l)
    (hls : ∀ m ∈ ls, m ≠ [] ∧ a ∉ m) (r : List α) :
    splitFirst (a :: (sep ++ a :: sep)) (joined (a :: sep) l ls ++ a :: (sep ++ a :: sep) ++ r) =
      some (joined (a :: sep) l ls, r) := by
  induction ls generalizing l with
  | nil =>
    rw [joined, List.flatMap_nil, List.append_nil]
    exact splitFirst_field hl r
  | cons m ls ih =>
    obtain ⟨hne, hm⟩ := hls m List.mem_cons_self
    have hjoined : joined (a :: sep) l (m :: ls) = l ++ a :: joined (a :: sep) (sep ++ m) ls := by
      simp [joined, List.append_assoc]
    -- the first separator is not followed by another one
    have hstep : ¬ a :: (sep ++ a :: sep) <+:
        a :: (joined (a :: sep) (sep ++ m) ls ++ a :: (sep ++ a :: sep) ++ r) := by
      intro hp
      rw [joined, List.append_assoc, List.append_assoc, List.append_assoc, List.cons_prefix_cons,
        List.prefix_append_right_inj] at hp
      cases m with
      | nil => exact hne rfl
      | cons x m => exact hm ((List.cons_prefix_cons.1 hp.2).1 ▸ List.mem_cons_self)
    have ih := @ih (sep ++ m) (by simp [ha, hm]) fun m' hm' => hls m' (List.mem_cons_of_mem _ hm')
    rw [hjoined, List.append_assoc, List.append_assoc, splitFirst_append hl, List.cons_append,
      ← List.append_assoc, splitFirst_cons hstep, ih]
    rfl

end Split

/-! ## Numbers -/

/-- The byte of a character below 256. -/
def byte (c : Char) : Byte := BitVec.ofNat 8 c.toNat

/-- A natural number as a stream prints it. -/
def decimal (n : ℕ) : List Byte := (Nat.toDigits 10 n).map byte

/-- An integer as a stream prints it. -/
def signed : ℤ → List Byte
  | (n : ℕ) => decimal n
  | Int.negSucc n => byte '-' :: decimal (n + 1)

theorem toNat_byte {c : Char} (h : c.isDigit) : (byte c).toNat = c.toNat ∧ 48 ≤ c.toNat ∧
    c.toNat ≤ 57 := by
  simp only [Char.isDigit, ge_iff_le, Bool.and_eq_true, decide_eq_true_eq] at h
  have hlo : 48 ≤ c.toNat := h.1
  have hhi : c.toNat ≤ 57 := h.2
  refine ⟨?_, hlo, hhi⟩
  rw [byte, BitVec.toNat_ofNat]
  omega

theorem isDigit_of_mem {n : ℕ} {c : Char} (h : c ∈ Nat.toDigits 10 n) : c.isDigit :=
  Nat.isDigit_of_mem_toDigits (by decide) (by decide) h

/-- The bytes of a number are digits. -/
theorem mem_decimal {n : ℕ} {b : Byte} (h : b ∈ decimal n) : 48 ≤ b.toNat ∧ b.toNat ≤ 57 := by
  obtain ⟨c, hc, rfl⟩ := List.mem_map.1 h
  obtain ⟨heq, hlo, hhi⟩ := toNat_byte (isDigit_of_mem hc)
  rw [heq]
  exact ⟨hlo, hhi⟩

theorem mem_signed {z : ℤ} {b : Byte} (h : b ∈ signed z) :
    b = byte '-' ∨ 48 ≤ b.toNat ∧ b.toNat ≤ 57 := by
  cases z with
  | ofNat n => exact Or.inr (mem_decimal h)
  | negSucc n =>
    rcases List.mem_cons.1 h with rfl | h
    · exact Or.inl rfl
    · exact Or.inr (mem_decimal h)

theorem decimal_injective : Function.Injective decimal := by
  intro m n h
  have hback : ∀ n, (decimal n).map (fun b => Char.ofNat b.toNat) = Nat.toDigits 10 n := by
    intro n
    rw [decimal, List.map_map]
    refine (List.map_congr_left fun c hc => ?_).trans (List.map_id _)
    rw [Function.comp_apply, (toNat_byte (isDigit_of_mem hc)).1, Char.ofNat_toNat, id]
  have hdigits : Nat.toDigits 10 m = Nat.toDigits 10 n := by rw [← hback, ← hback, h]
  exact Nat.repr_injective (congrArg String.ofList hdigits)

/-- **A printed number can be read back.** -/
theorem signed_injective : Function.Injective signed := by
  have hminus : ∀ m n, decimal m ≠ byte '-' :: n := by
    intro m n h
    have hmem : byte '-' ∈ decimal m := by rw [h]; exact List.mem_cons_self
    exact absurd (mem_decimal hmem).1 (by decide)
  intro x y h
  cases x with
  | ofNat m =>
    cases y with
    | ofNat n => exact congrArg Int.ofNat (decimal_injective h)
    | negSucc n => exact absurd h (hminus m _)
  | negSucc m =>
    cases y with
    | ofNat n => exact absurd h.symm (hminus n _)
    | negSucc n =>
      exact congrArg Int.negSucc (Nat.succ.inj (decimal_injective (List.cons_eq_cons.1 h).2))

end BladePSGI.Text
