import BladePSGI.Foundations.Transition

/-!
# Moments of a run

Who reads one thing after another while others go on sees no state of the machine, but things from
several states. A run is a list of actions, and its moments are the parts it begins with, each with
the state that it leads to.

* `Moment.now`: the last state of a run is one of its moments.
* `Moment.Within`: the moment comes after the actions `as` and not after the actions `as'`.
* `Moment.Within.trace_prefix`: what has happened at a moment has happened at the end.
-/

namespace BladePSGI.Transition.Machine

variable {σ α ε : Type*} {M : Machine σ α ε} {s₀ s : σ} {as as' : List α} {tr : List ε}

/-- A moment of a run: the actions up to it, and what they have led to. -/
structure Moment (M : Machine σ α ε) (s₀ : σ) where
  actions : List α
  state : σ
  trace : List ε
  exec : M.exec s₀ actions = some (state, trace)

namespace Moment

variable {u : Moment M s₀}

/-- The end of a run. -/
def now (h : M.exec s₀ as = some (s, tr)) : Moment M s₀ := ⟨as, s, tr, h⟩

theorem reach (u : Moment M s₀) : M.Reach s₀ u.trace u.state := reach_of_exec u.exec

/-- The run has got at least as far as `as`, and `as'` is how it goes on. -/
structure Within (as as' : List α) (u : Moment M s₀) : Prop where
  after : as <+: u.actions
  before : u.actions <+: as'

theorem within_now (h : M.exec s₀ as' = some (s, tr)) (hle : as <+: as') :
    (now h).Within as as' :=
  ⟨hle, List.prefix_rfl⟩

/-- The run goes on. -/
theorem Within.concat (h : u.Within as as') (a : α) : u.Within as (as' ++ [a]) :=
  ⟨h.after, h.before.trans (List.prefix_append as' [a])⟩

/-- What has happened at a moment of a run has happened at its end. -/
theorem Within.trace_prefix (h : u.Within as as') (he : M.exec s₀ as' = some (s, tr)) :
    u.trace <+: tr := by
  obtain ⟨bs, rfl⟩ := h.before
  obtain ⟨t, tr₁, tr₂, h₁, -, rfl⟩ := exec_append.1 he
  obtain ⟨-, rfl⟩ := Prod.mk.inj (Option.some.inj (u.exec.symm.trans h₁))
  exact List.prefix_append _ _

end Moment

end BladePSGI.Transition.Machine
