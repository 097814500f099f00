import BladePSGI.Foundations.Transition

/-!
# A right that is taken once and used once

Several parties compete for a right. The first one that asks gets it, nobody else does, and its
holder may use it up. `Once` is the state of the right and `Once.events` the history that a state
implies: there is only one for each, so that what has happened can be read off the state.

* `Move`: what a party can do, as long as it asks before it gets ready to use the right.
* `Once.move`: the history goes on as one of the three, and only the holder is ready.
* `Once.countP_use_le`, `Once.each_use`: the right is used at most once, by its holder.
-/

namespace BladePSGI.Transition

variable {α : Type*}

/-- What happens to the right. -/
inductive Claim (α : Type*)
  | take (a : α)
  | use (a : α)
  deriving DecidableEq

/-- The right is used. -/
def Claim.isUse : Claim α → Bool
  | .take _ => false
  | .use _ => true

/-- The state of the right. -/
inductive Once (α : Type*)
  | free
  | taken (a : α)
  | used (a : α)
  deriving DecidableEq

namespace Once

/-- The history of the right. -/
def events : Once α → List (Claim α)
  | free => []
  | taken a => [.take a]
  | used a => [.take a, .use a]

/-- Somebody has the right, or has used it. -/
def isTaken : Once α → Bool
  | free => false
  | _ => true

/-- **The right is used at most once.** -/
theorem countP_use_le (o : Once α) : o.events.countP Claim.isUse ≤ 1 := by
  cases o <;> simp [events, Claim.isUse]

/-- **The right is used by the one who has taken it.** -/
theorem each_use (o : Once α) : Each (fun l e => ∀ a, e = .use a → .take a ∈ l) o.events := by
  cases o with
  | free => exact each_nil _
  | taken a => exact each_cons (by simp) (each_nil _)
  | used a => exact each_cons (by simp) (each_cons (by simp) (each_nil _))

/-- Only a free right is taken. -/
theorem of_take_mem {o o' : Once α} {cs : List (Claim α)} {a : α}
    (h : o.events ++ cs = o'.events) (ha : .take a ∈ cs) :
    o.isTaken = false ∧ o'.isTaken = true := by
  cases o <;> cases o' <;> simp_all [events, isTaken]

/-- A right that is taken stays so. -/
theorem isTaken_of_append {o o' : Once α} {cs : List (Claim α)} (h : o.events ++ cs = o'.events)
    (ho : o.isTaken = true) : o'.isTaken = true := by
  cases o <;> cases o' <;> simp_all [events, isTaken]

end Once

/-- A step of the party `a`, with `taken` for whether the right was taken before the step and
`ready`, `ready'` for whether the party was ready to use it before and after. -/
inductive Move (taken : Bool) (ready ready' : Prop) (a : α) : Bool → List (Claim α) → Prop
  | quiet (h : ready' → ready) : Move taken ready ready' a taken []
  | take (h : taken = false) : Move taken ready ready' a true [.take a]
  | use (h : ready) (h' : ¬ ready') : Move taken ready ready' a taken [.use a]

theorem Move.imp {taken taken' : Bool} {r r' R R' : Prop} {a : α} {cs : List (Claim α)}
    (h : Move taken r r' a taken' cs) (hr : r → R) (hr' : R' → r') :
    Move taken R R' a taken' cs := by
  cases h with
  | quiet h => exact .quiet fun hR => hr (h (hr' hR))
  | take h => exact .take h
  | use h h' => exact .use (hr h) fun hR => h' (hr' hR)

/-- **The step rule.** If only the holder is ready to use the right, this stays so in a step of one
party. -/
theorem Once.move {o : Once α} {ready ready' : α → Prop} {a : α} {taken : Bool}
    {cs : List (Claim α)} (hr : ∀ b, ready b → o = .taken b)
    (hothers : ∀ b, b ≠ a → ready' b → ready b)
    (h : Move o.isTaken (ready a) (ready' a) a taken cs) :
    ∃ o' : Once α, o.events ++ cs = o'.events ∧ taken = o'.isTaken ∧
      ∀ b, ready' b → o' = .taken b := by
  cases h with
  | quiet h =>
    refine ⟨o, List.append_nil _, rfl, fun b hb => ?_⟩
    by_cases hba : b = a
    · exact hr b (hba ▸ h (hba ▸ hb))
    · exact hr b (hothers b hba hb)
  | take hfree =>
    cases o with
    | free =>
      refine ⟨.taken a, rfl, rfl, fun b hb => ?_⟩
      by_cases hba : b = a
      · rw [hba]
      · cases hr b (hothers b hba hb)
    | taken | used => cases hfree
  | use h h' =>
    obtain rfl := hr a h
    refine ⟨.used a, rfl, rfl, fun b hb => ?_⟩
    by_cases hba : b = a
    · exact absurd (hba ▸ hb) h'
    · exact absurd (Once.taken.inj (hr b (hothers b hba hb))).symm hba

end BladePSGI.Transition
