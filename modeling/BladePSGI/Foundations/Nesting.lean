import Mathlib.Data.Int.Notation
import Mathlib.Data.List.Basic

/-!
# Well-nested sequences

Sequences of opening and closing brackets, and the number of brackets that are open.

* `WellNested.depth_prefix`: nothing is closed that has not been opened.
* `WellNested.first_closing`: the first closing bracket ends a row of opening ones.
* `Flat`: no two brackets are open at the same time.
-/

namespace BladePSGI.Nesting

inductive Bracket
  | opening
  | closing
  deriving DecidableEq

/-- How many brackets a sequence leaves open. -/
def depth : List Bracket → ℤ
  | [] => 0
  | .opening :: l => depth l + 1
  | .closing :: l => depth l - 1

/-- Every bracket has its partner. -/
inductive WellNested : List Bracket → Prop
  | nil : WellNested []
  | nest {inner rest} (hinner : WellNested inner) (hrest : WellNested rest) :
      WellNested (.opening :: (inner ++ .closing :: rest))

/-- No two brackets are open at the same time. -/
def Flat (l : List Bracket) : Prop := ∀ p, p <+: l → depth p ≤ 1

@[simp] theorem depth_nil : depth [] = 0 := rfl

@[simp] theorem depth_opening (l : List Bracket) : depth (.opening :: l) = depth l + 1 := rfl

@[simp] theorem depth_closing (l : List Bracket) : depth (.closing :: l) = depth l - 1 := rfl

@[simp] theorem depth_append (l l' : List Bracket) : depth (l ++ l') = depth l + depth l' := by
  induction l with
  | nil => simp
  | cons b l ih =>
    cases b <;> simp only [List.cons_append, depth_opening, depth_closing, ih] <;> omega

@[simp] theorem depth_replicate_opening (n : ℕ) : depth (List.replicate n .opening) = n := by
  induction n with
  | zero => rfl
  | succ n ih =>
    rw [List.replicate_succ, depth_opening, ih]
    push_cast
    rfl

/-! ## Prefixes -/

variable {l inner rest p : List Bracket}

/-- The prefixes of a sequence that begins with a pair. -/
theorem prefix_nest_cases (h : p <+: .opening :: (inner ++ .closing :: rest)) :
    p = [] ∨ (∃ q, p = .opening :: q ∧ q <+: inner) ∨
      ∃ q, p = .opening :: (inner ++ .closing :: q) ∧ q <+: rest := by
  rcases List.prefix_cons_iff.1 h with rfl | ⟨q, rfl, hq⟩
  · exact .inl rfl
  rcases List.prefix_or_prefix_of_prefix hq (List.prefix_append inner _) with hq' | ⟨r, rfl⟩
  · exact .inr (.inl ⟨q, rfl, hq'⟩)
  have hr : r <+: .closing :: rest := (List.prefix_append_right_inj inner).1 hq
  rcases List.prefix_cons_iff.1 hr with rfl | ⟨t, rfl, ht⟩
  · exact .inr (.inl ⟨inner, by simp, List.prefix_rfl⟩)
  · exact .inr (.inr ⟨t, rfl, ht⟩)

theorem WellNested.depth_eq (h : WellNested l) : depth l = 0 := by
  induction h with
  | nil => rfl
  | nest _ _ ihinner ihrest =>
    rw [depth_opening, depth_append, depth_closing, ihinner, ihrest]
    rfl

/-- **Nothing is closed that has not been opened.** -/
theorem WellNested.depth_prefix (h : WellNested l) (hp : p <+: l) : 0 ≤ depth p := by
  induction h generalizing p with
  | nil => simp [List.prefix_nil.1 hp]
  | nest hinner _ ihinner ihrest =>
    rcases prefix_nest_cases hp with rfl | ⟨q, rfl, hq⟩ | ⟨q, rfl, hq⟩
    · exact Int.le_refl 0
    · rw [depth_opening]
      have := ihinner hq
      omega
    · rw [depth_opening, depth_append, depth_closing, hinner.depth_eq]
      have := ihrest hq
      omega

/-- **The first closing bracket** ends a row of opening ones. -/
theorem WellNested.first_closing (h : WellNested l) (hne : l ≠ []) :
    ∃ n rest, l = List.replicate (n + 1) .opening ++ .closing :: rest := by
  induction h with
  | nil => exact absurd rfl hne
  | @nest inner rest _ _ ihinner _ =>
    rcases eq_or_ne inner [] with rfl | hinner
    · exact ⟨0, rest, rfl⟩
    · obtain ⟨n, rest', rfl⟩ := ihinner hinner
      exact ⟨n + 1, rest' ++ .closing :: rest, by simp [List.replicate_succ]⟩

theorem flat_pair (h : Flat l) : Flat (.opening :: .closing :: l) := by
  intro p hp
  rcases @prefix_nest_cases [] _ _ hp with rfl | ⟨q, rfl, hq⟩ | ⟨q, rfl, hq⟩
  · decide
  · simp [List.prefix_nil.1 hq]
  · simpa using h q hq

end BladePSGI.Nesting
