import BladePSGI.Foundations.Transition
import Mathlib.Data.List.Basic

/-!
# Ranked machines

How many actions of a kind an execution can have. A rank is a number for every state; an action
either costs some of it, or is free and does not raise it, or brings new rank in.

* `Machine.countP_add_le`: an execution has at most as many costly actions as its first state has
  rank, if no action brings any in.
* `Machine.countP_add_le_of_supply`: each action of a second kind brings in at most `c`.
* `Machine.run_of_exec`: an execution of actions of one kind is a run of them.
-/

namespace BladePSGI.Transition.Machine

variable {σ α ε : Type*} {M : Machine σ α ε} {s t : σ} {as : List α} {tr : List ε}

/-- **The ranking rule** with a supply: the actions `q` bring in at most `c` each, the actions `p`
cost at least one. -/
theorem countP_add_le_of_supply (I : σ → Prop) (rank : σ → ℕ) (p q : α → Bool) (c : ℕ)
    (hstep : ∀ s a s' es, I s → M.step s a = some (s', es) → I s' ∧
      rank s' + (if p a then 1 else 0) ≤ rank s + (if q a then c else 0))
    (h : I s) (he : M.exec s as = some (t, tr)) :
    I t ∧ as.countP p + rank t ≤ rank s + c * as.countP q := by
  induction as generalizing s tr with
  | nil =>
    obtain ⟨rfl, rfl⟩ := Prod.mk.inj (Option.some.inj he)
    exact ⟨h, by simp⟩
  | cons a as ih =>
    simp only [exec] at he
    split at he
    · cases he
    · rename_i s' es hs
      split at he
      · cases he
      · rename_i t' tr' ht
        obtain ⟨rfl, rfl⟩ := Prod.mk.inj (Option.some.inj he)
        obtain ⟨hI, hrank⟩ := hstep s a s' es h hs
        obtain ⟨hI', hrank'⟩ := ih hI ht
        refine ⟨hI', ?_⟩
        rw [List.countP_cons, List.countP_cons, Nat.mul_add]
        split_ifs at hrank ⊢ <;> omega

/-- **The ranking rule**: the actions `p` cost at least one, and no action brings anything in. -/
theorem countP_add_le (I : σ → Prop) (rank : σ → ℕ) (p : α → Bool)
    (hstep : ∀ s a s' es, I s → M.step s a = some (s', es) → I s' ∧
      rank s' + (if p a then 1 else 0) ≤ rank s)
    (h : I s) (he : M.exec s as = some (t, tr)) : I t ∧ as.countP p + rank t ≤ rank s := by
  simpa using countP_add_le_of_supply I rank p (fun _ => false) 0 (by simpa using hstep) h he

/-- An execution of actions that are all in `g`. -/
theorem run_of_exec {g : α → Prop} (hg : ∀ a ∈ as, g a) (he : M.exec s as = some (t, tr)) :
    M.Run (fun _ _ a => g a) s tr t := by
  induction as generalizing s tr with
  | nil =>
    obtain ⟨rfl, rfl⟩ := Prod.mk.inj (Option.some.inj he)
    exact .nil
  | cons a as ih =>
    obtain ⟨ha, has⟩ := List.forall_mem_cons.1 hg
    simp only [exec] at he
    split at he
    · cases he
    · rename_i s' es hs
      split at he
      · cases he
      · rename_i t' tr' ht
        obtain ⟨rfl, rfl⟩ := Prod.mk.inj (Option.some.inj he)
        have hone : M.Run (fun _ _ a => g a) s ([] ++ es) s' := .snoc .nil ha hs
        exact hone.trans (ih has ht)

end BladePSGI.Transition.Machine
