import Mathlib.Logic.Relation
import Mathlib.Data.List.Basic
import Mathlib.Data.List.Induction
import Mathlib.Tactic.Basic

/-!
# Machines that take labelled steps and leave a trace

A `Machine` is a partial step function: in a state, an action is either not enabled or leads to
one state and emits a list of events. Everything that is not determined by the state (the
scheduler, the outcome of a system call) is part of the action.

* `Machine.Run M G s₀ tr s`: a run from `s₀` to `s`, each step of which meets the guard `G`, that
  emitted the trace `tr`, oldest event first. `Machine.Reach` is the run without a guard.
* `Machine.Run.invariant`: what holds initially and is kept by every guarded step holds at the end
  of every guarded run.
* `Machine.Run.project`: a machine whose steps are steps of a smaller machine, seen through a
  projection, projects run by run.
* `Machine.Run.simulate`: a machine each step of which is answered by a run of a second machine, to
  states and traces in a relation, is simulated by it run by run.
* `Machine.reach_view_iff`: a machine whose steps are those of a second one, seen through a view of
  its states, has the same runs.
* `Machine.Run.progress`: an action that lowers a measure, taken again and again, gets things done.
* `Machine.exec` executes a list of actions; `Machine.reach_exec` turns an execution into a run and
  `Machine.Run.exec` one that respects a guard into a guarded run. `Machine.exec_invariant` is the
  invariant rule for invariants that speak of the actions, too.
* `Follows p q tr`: in the trace `tr`, the event `q` occurs after some occurrence of `p`.
* `Each Q tr`: every event of the trace is in the relation `Q` to what came before it;
  `Machine.Run.each` proves it step by step.
-/

namespace BladePSGI.Transition

variable {σ τ α β ε φ : Type*}

/-- A labelled transition system with deterministic, partial steps that emit events. -/
structure Machine (σ α ε : Type*) where
  /-- The state after the action and the events emitted, `none` where the action is not enabled. -/
  step : σ → α → Option (σ × List ε)

namespace Machine

variable {M : Machine σ α ε} {G G' : List ε → σ → α → Prop} {s₀ s s' t : σ} {tr tr' es : List ε}

/-- The runs from `s₀` whose steps all meet the guard `G`, which sees the trace so far, the state
and the action. -/
inductive Run (M : Machine σ α ε) (G : List ε → σ → α → Prop) (s₀ : σ) : List ε → σ → Prop
  | nil : Run M G s₀ [] s₀
  | snoc {tr : List ε} {s : σ} {a : α} {s' : σ} {es : List ε} (hr : Run M G s₀ tr s)
      (hg : G tr s a) (hs : M.step s a = some (s', es)) : Run M G s₀ (tr ++ es) s'

/-- The runs without a guard. -/
abbrev Reach (M : Machine σ α ε) (s₀ : σ) : List ε → σ → Prop := Run M (fun _ _ _ => True) s₀

namespace Run

/-- **The invariant rule.** -/
theorem invariant (I : List ε → σ → Prop) (h : M.Run G s₀ tr s) (h₀ : I [] s₀)
    (hI : ∀ tr s a s' es, M.Run G s₀ tr s → I tr s → G tr s a → M.step s a = some (s', es) →
      I (tr ++ es) s') : I tr s := by
  induction h with
  | nil => exact h₀
  | snoc hr hg hs ih => exact hI _ _ _ _ _ hr ih hg hs

theorem mono (hG : ∀ tr s a, G tr s a → G' tr s a) (h : M.Run G s₀ tr s) : M.Run G' s₀ tr s := by
  induction h with
  | nil => exact .nil
  | snoc _ hg hs ih => exact .snoc ih (hG _ _ _ hg) hs

theorem reach (h : M.Run G s₀ tr s) : M.Reach s₀ tr s := h.mono fun _ _ _ _ => trivial

/-- **The projection rule.** If every step of `M` is, seen through `f` and `g`, either no step of
`N` at all or one step of `N`, then every run of `M` projects to a run of `N`. -/
theorem project {N : Machine τ β φ} (f : σ → τ) (g : ε → Option φ)
    (hstep : ∀ s a s' es, M.step s a = some (s', es) →
      (f s' = f s ∧ es.filterMap g = []) ∨ ∃ b, N.step (f s) b = some (f s', es.filterMap g))
    (h : M.Run G s₀ tr s) : N.Reach (f s₀) (tr.filterMap g) (f s) := by
  induction h with
  | nil => exact .nil
  | snoc hr hg hs ih =>
    rw [List.filterMap_append]
    rcases hstep _ _ _ _ hs with ⟨hf, he⟩ | ⟨b, hb⟩
    · rwa [hf, he, List.append_nil]
    · exact .snoc ih trivial hb

/-- Runs compose when the guard does not look at the trace. -/
theorem trans {g : σ → α → Prop} (h : M.Run (fun _ s a => g s a) s₀ tr s)
    (h' : M.Run (fun _ s a => g s a) s tr' t) : M.Run (fun _ s a => g s a) s₀ (tr ++ tr') t := by
  induction h' with
  | nil => simpa using h
  | snoc _ hg hs ih =>
    rw [← List.append_assoc]
    exact .snoc ih hg hs

/-- **The progress rule.** If the action `a` is enabled and lowers a measure as long as the run is
not done, then taking `a` again and again leads to a state where it is done. -/
theorem progress (P done : σ → Prop) (m : σ → ℕ) (a : α)
    (hstep : ∀ s, P s → ¬ done s → ∃ s' es, M.step s a = some (s', es) ∧ P s' ∧ m s' < m s)
    (h : P s) : ∃ tr t, M.Run (fun _ _ b => b = a) s tr t ∧ P t ∧ done t := by
  induction hm : m s using Nat.strongRecOn generalizing s with
  | _ n ih =>
    by_cases hd : done s
    · exact ⟨[], s, .nil, h, hd⟩
    · obtain ⟨s', es, hs, hP, hlt⟩ := hstep s h hd
      obtain ⟨tr, t, hr, ht⟩ := ih (m s') (hm ▸ hlt) hP rfl
      exact ⟨[] ++ es ++ tr, t, (Run.nil.snoc rfl hs).trans hr, ht⟩

end Run

namespace Reach

theorem one {a : α} (h : M.step s a = some (s', es)) : M.Reach s es s' := by
  simpa using Run.snoc (M := M) (G := fun _ _ _ => True) .nil trivial h

theorem trans (h : M.Reach s tr s') (h' : M.Reach s' tr' t) : M.Reach s (tr ++ tr') t :=
  Run.trans h h'

end Reach

/-- **The simulation rule.** If `N` answers every step of `M`, in states and with traces that are in
the relation `R`, then it answers every run of `M`. -/
theorem Run.simulate {N : Machine τ β φ} {u₀ : τ} (R : List ε → σ → List φ → τ → Prop)
    (h : M.Run G s₀ tr s) (h₀ : R [] s₀ [] u₀)
    (hstep : ∀ tr s a s' es tr' u, M.Run G s₀ tr s → R tr s tr' u → G tr s a →
      M.step s a = some (s', es) → ∃ es' u', N.Reach u es' u' ∧ R (tr ++ es) s' (tr' ++ es') u') :
    ∃ tr' u, N.Reach u₀ tr' u ∧ R tr s tr' u := by
  induction h with
  | nil => exact ⟨[], u₀, .nil, h₀⟩
  | snoc hr hg hs ih =>
    obtain ⟨tr', u, hu, hR⟩ := ih
    obtain ⟨es', u', hu', hR'⟩ := hstep _ _ _ _ _ _ _ hr hR hg hs
    exact ⟨tr' ++ es', u', hu.trans hu', hR'⟩

/-- **The abstraction rule.** If a step of `M` is, seen through `f`, the step of `N`, and enabled
whenever that is, then the two machines have the same runs. -/
theorem reach_view_iff {N : Machine τ α ε} (f : σ → τ)
    (hstep : ∀ s a, N.step (f s) a = (M.step s a).map fun r => (f r.1, r.2)) {u : τ} :
    (∃ s, M.Reach s₀ tr s ∧ f s = u) ↔ N.Reach (f s₀) tr u := by
  constructor
  · rintro ⟨s, h, rfl⟩
    induction h with
    | nil => exact .nil
    | snoc _ _ hs ih => exact .snoc ih trivial (by rw [hstep, hs, Option.map_some])
  · intro h
    induction h with
    | nil => exact ⟨s₀, .nil, rfl⟩
    | @snoc tr u a u' es _ _ hs ih =>
      obtain ⟨s, hreach, rfl⟩ := ih
      rw [hstep] at hs
      obtain ⟨⟨s', es'⟩, hM, heq⟩ := Option.map_eq_some_iff.1 hs
      obtain ⟨rfl, rfl⟩ := Prod.mk.inj heq
      exact ⟨s', .snoc hreach trivial hM, rfl⟩

/-- Execute a list of actions, collecting the events. -/
def exec (M : Machine σ α ε) : σ → List α → Option (σ × List ε)
  | s, [] => some (s, [])
  | s, a :: as =>
    match M.step s a with
    | none => none
    | some (s', es) =>
      match M.exec s' as with
      | none => none
      | some (t, tr) => some (t, es ++ tr)

theorem reach_of_exec {as : List α} (h : M.exec s as = some (t, tr)) : M.Reach s tr t := by
  induction as generalizing s tr with
  | nil =>
    simp only [exec, Option.some.injEq, Prod.mk.injEq] at h
    obtain ⟨rfl, rfl⟩ := h
    exact .nil
  | cons a as ih =>
    simp only [exec] at h
    split at h
    · cases h
    · rename_i s' es hs
      split at h
      · cases h
      · rename_i t' tr' ht
        obtain ⟨rfl, rfl⟩ := Prod.mk.inj (Option.some.inj h)
        exact (Reach.one hs).trans (ih ht)

/-- An execution that goes through is a run to the state it ends in. -/
theorem reach_exec {as : List α} (h : (M.exec s as).isSome) :
    M.Reach s ((M.exec s as).get h).2 ((M.exec s as).get h).1 :=
  reach_of_exec (Option.some_get h).symm

/-- An execution goes through the state that its first part leads to. -/
theorem exec_append {as bs : List α} : M.exec s (as ++ bs) = some (t, tr) ↔
    ∃ u tr₁ tr₂, M.exec s as = some (u, tr₁) ∧ M.exec u bs = some (t, tr₂) ∧
      tr = tr₁ ++ tr₂ := by
  induction as generalizing s tr with
  | nil => simp [exec, eq_comm]
  | cons a as ih =>
    rw [List.cons_append]
    simp only [exec]
    cases hs : M.step s a with
    | none => simp
    | some r =>
      obtain ⟨s', es⟩ := r
      dsimp only
      constructor
      · intro h
        split at h
        · cases h
        · rename_i t' tr' hexec
          obtain ⟨rfl, rfl⟩ := Prod.mk.inj (Option.some.inj h)
          obtain ⟨u, tr₁, tr₂, h₁, h₂, rfl⟩ := ih.1 hexec
          exact ⟨u, es ++ tr₁, tr₂, by rw [h₁], h₂, (List.append_assoc ..).symm⟩
      · rintro ⟨u, tr₁, tr₂, h₁, h₂, rfl⟩
        split at h₁
        · cases h₁
        · rename_i u' tr' hexec
          obtain ⟨rfl, rfl⟩ := Prod.mk.inj (Option.some.inj h₁)
          rw [ih.2 ⟨u', tr', tr₂, hexec, h₂, rfl⟩, List.append_assoc]

theorem exec_concat {as : List α} {a : α} : M.exec s (as ++ [a]) = some (t, tr) ↔
    ∃ u tr₁ es, M.exec s as = some (u, tr₁) ∧ M.step u a = some (t, es) ∧ tr = tr₁ ++ es := by
  have one : ∀ {u es}, M.exec u [a] = some (t, es) ↔ M.step u a = some (t, es) := by
    intro u es
    cases hs : M.step u a <;> simp [exec, hs, Prod.ext_iff]
  simp only [exec_append, one]

/-- **The invariant rule for executions**, where the invariant may speak of the actions. -/
theorem exec_invariant {as : List α} (I : List α → List ε → σ → Prop)
    (h : M.exec s₀ as = some (s, tr)) (h₀ : I [] [] s₀)
    (hI : ∀ as tr s a s' es, M.exec s₀ as = some (s, tr) → I as tr s →
      M.step s a = some (s', es) → I (as ++ [a]) (tr ++ es) s') : I as tr s := by
  induction as using List.reverseRecOn generalizing s tr with
  | nil =>
    obtain ⟨rfl, rfl⟩ := Prod.mk.inj (Option.some.inj h)
    exact h₀
  | append_singleton as a ih =>
    obtain ⟨u, tr₁, es, h₁, hs, rfl⟩ := exec_concat.1 h
    exact hI _ _ _ _ _ _ h₁ (ih h₁) hs

/-- Every step of an execution, continued from the trace `tr`, meets an executable guard. -/
def respects (M : Machine σ α ε) (g : List ε → σ → α → Bool) : List ε → σ → List α → Bool
  | _, _, [] => true
  | tr, s, a :: as =>
    g tr s a && match M.step s a with
      | none => true
      | some (s', es) => M.respects g (tr ++ es) s' as

/-- An execution that respects a guard continues a run that does. -/
theorem Run.exec {g : List ε → σ → α → Bool} {as : List α}
    (h : M.Run (fun tr s a => g tr s a) s₀ tr s) (he : M.exec s as = some (t, tr'))
    (hg : M.respects g tr s as) : M.Run (fun tr s a => g tr s a) s₀ (tr ++ tr') t := by
  induction as generalizing s tr tr' with
  | nil =>
    simp only [Machine.exec, Option.some.injEq, Prod.mk.injEq] at he
    obtain ⟨rfl, rfl⟩ := he
    simpa using h
  | cons a as ih =>
    simp only [Machine.exec] at he
    simp only [respects, Bool.and_eq_true] at hg
    split at he
    · cases he
    · rename_i s' es hs
      split at he
      · cases he
      · rename_i t' tr'' ht
        obtain ⟨rfl, rfl⟩ := Prod.mk.inj (Option.some.inj he)
        rw [← List.append_assoc]
        exact ih (.snoc h hg.1 hs) ht (by simpa [hs] using hg.2)

end Machine

/-! ## The order of the events of a trace -/

/-- The event `q` occurs in the trace after some occurrence of `p`. -/
def Follows (p q : ε) (tr : List ε) : Prop := ∃ l₁ l₂, tr = l₁ ++ p :: l₂ ∧ q ∈ l₂

@[simp] theorem not_follows_nil (p q : ε) : ¬ Follows p q [] := by
  rintro ⟨l₁, l₂, h, -⟩
  simp at h

@[simp] theorem not_follows_singleton (p q e : ε) : ¬ Follows p q [e] := by
  rintro ⟨l₁, l₂, h, hq⟩
  rcases List.cons_eq_append_iff.1 h with ⟨rfl, h⟩ | ⟨_, _, h⟩
  · obtain ⟨-, rfl⟩ := List.cons_eq_cons.1 h
    cases hq
  · simp at h

theorem Follows.mem_left {p q : ε} {tr : List ε} (h : Follows p q tr) : p ∈ tr := by
  obtain ⟨l₁, l₂, rfl, -⟩ := h
  simp

theorem Follows.mem_right {p q : ε} {tr : List ε} (h : Follows p q tr) : q ∈ tr := by
  obtain ⟨l₁, l₂, rfl, hq⟩ := h
  simp [hq]

/-- Where the second event of a pair can come from when a trace is extended. -/
theorem follows_append {p q : ε} {tr es : List ε} :
    Follows p q (tr ++ es) ↔ Follows p q tr ∨ (p ∈ tr ∧ q ∈ es) ∨ Follows p q es := by
  constructor
  · rintro ⟨l₁, l₂, h, hq⟩
    rcases List.append_eq_append_iff.1 h with ⟨m, -, he⟩ | ⟨m, ht, hl⟩
    · exact Or.inr (Or.inr ⟨m, l₂, he, hq⟩)
    · rcases m with _ | ⟨x, m⟩
      · exact Or.inr (Or.inr ⟨[], l₂, hl.symm, hq⟩)
      · obtain ⟨rfl, rfl⟩ := List.cons_eq_cons.1 hl
        subst ht
        rcases List.mem_append.1 hq with hq | hq
        · exact Or.inl ⟨l₁, m, rfl, hq⟩
        · exact Or.inr (Or.inl ⟨by simp, hq⟩)
  · rintro (⟨l₁, l₂, rfl, hq⟩ | ⟨hp, hq⟩ | ⟨l₁, l₂, rfl, hq⟩)
    · exact ⟨l₁, l₂ ++ es, by simp, by simp [hq]⟩
    · obtain ⟨l₁, l₂, rfl⟩ := List.append_of_mem hp
      exact ⟨l₁, l₂ ++ es, by simp, by simp [hq]⟩
    · exact ⟨tr ++ l₁, l₂, by simp, hq⟩

/-- The order of two events is kept by a projection that keeps both. -/
theorem Follows.filterMap {g : ε → Option φ} {p q : ε} {p' q' : φ} {tr : List ε}
    (h : Follows p q tr) (hp : g p = some p') (hq : g q = some q') :
    Follows p' q' (tr.filterMap g) := by
  obtain ⟨l₁, l₂, rfl, hmem⟩ := h
  refine ⟨l₁.filterMap g, l₂.filterMap g, ?_, List.mem_filterMap.2 ⟨q, hmem, hq⟩⟩
  rw [List.filterMap_append, List.filterMap_cons_some hp]

/-- Two events in a projection come from events in the same order. -/
theorem Follows.of_filterMap {g : ε → Option φ} {p q : ε} {p' q' : φ} {tr : List ε}
    (h : Follows p' q' (tr.filterMap g)) (hp : ∀ e, g e = some p' → e = p)
    (hq : ∀ e, g e = some q' → e = q) : Follows p q tr := by
  obtain ⟨l₁, l₂, heq, hmem⟩ := h
  obtain ⟨m₁, m₂, rfl, -, hm₂⟩ := List.filterMap_eq_append_iff.1 heq
  obtain ⟨n₁, e, n₂, rfl, -, he, rfl⟩ := List.filterMap_eq_cons_iff.1 hm₂
  obtain rfl := hp e he
  obtain ⟨e', hmem, he'⟩ := List.mem_filterMap.1 hmem
  obtain rfl := hq e' he'
  exact ⟨m₁ ++ n₁, n₂, by simp, hmem⟩

/-- An event that is not among the new ones was there before. -/
theorem eq_append_cons_of_notMem {q : ε} {tr es l₁ l₂ : List ε} (hq : q ∉ es)
    (h : tr ++ es = l₁ ++ q :: l₂) : ∃ l, tr = l₁ ++ q :: l := by
  rcases List.append_eq_append_iff.1 h with ⟨m, -, he⟩ | ⟨m, ht, hl⟩
  · exact absurd (he ▸ List.mem_append_right m List.mem_cons_self) hq
  · rcases m with _ | ⟨x, m⟩
    · exact absurd (by rw [List.nil_append] at hl; rw [← hl]; exact List.mem_cons_self) hq
    · obtain ⟨rfl, -⟩ := List.cons_eq_cons.1 hl
      exact ⟨m, ht⟩

/-- A trace splits in one way at the last occurrence of an event. -/
theorem append_cons_inj_last {p : ε} {l₁ l₂ m₁ m₂ : List ε} (hl : p ∉ l₂) (hm : p ∉ m₂)
    (h : l₁ ++ p :: l₂ = m₁ ++ p :: m₂) : l₁ = m₁ ∧ l₂ = m₂ := by
  rcases List.append_eq_append_iff.1 h with ⟨k, rfl, hk⟩ | ⟨k, rfl, hk⟩
  all_goals
    rcases k with _ | ⟨x, k⟩
    · simpa [eq_comm] using hk
    · obtain ⟨-, rfl⟩ := List.cons_eq_cons.1 hk
      simp at hl hm

/-- Every event of the trace is in the relation `Q` to the events before it. -/
def Each (Q : List ε → ε → Prop) (tr : List ε) : Prop :=
  ∀ l₁ e l₂, tr = l₁ ++ e :: l₂ → Q l₁ e

@[simp] theorem each_nil (Q : List ε → ε → Prop) : Each Q [] := by
  intro l₁ e l₂ h
  simp at h

theorem Each.append {Q : List ε → ε → Prop} {tr es : List ε} (h : Each Q tr)
    (hes : Each (fun l e => Q (tr ++ l) e) es) : Each Q (tr ++ es) := by
  intro l₁ q l₂ heq
  rcases List.append_eq_append_iff.1 heq with ⟨m, rfl, he⟩ | ⟨m, ht, hl⟩
  · exact hes m q l₂ he
  · rcases m with _ | ⟨x, m⟩
    · rw [List.append_nil] at ht
      subst ht
      simpa using hes [] q l₂ hl.symm
    · obtain ⟨rfl, -⟩ := List.cons_eq_cons.1 hl
      exact h l₁ q m ht

theorem each_cons {Q : List ε → ε → Prop} {e : ε} {es : List ε} (he : Q [] e)
    (hes : Each (fun l q => Q (e :: l) q) es) : Each Q (e :: es) := by
  intro l₁ q l₂ heq
  rcases l₁ with _ | ⟨x, l₁⟩
  · obtain ⟨rfl, -⟩ := List.cons_eq_cons.1 heq
    exact he
  · obtain ⟨rfl, rfl⟩ := List.cons_eq_cons.1 heq
    exact hes l₁ q l₂ rfl

theorem Each.concat {Q : List ε → ε → Prop} {tr : List ε} {e : ε} (h : Each Q tr) (he : Q tr e) :
    Each Q (tr ++ [e]) :=
  h.append (each_cons (by simpa using he) (each_nil _))

theorem each_concat {Q : List ε → ε → Prop} {tr : List ε} {e : ε} :
    Each Q (tr ++ [e]) ↔ Each Q tr ∧ Q tr e := by
  refine ⟨fun h => ⟨fun l₁ q l₂ heq => ?_, h tr e [] rfl⟩, fun h => h.1.concat h.2⟩
  exact h l₁ q (l₂ ++ [e]) (by rw [heq, List.append_assoc, List.cons_append])

/-- Relations that agree on the events of the trace. -/
theorem Each.congr {Q R : List ε → ε → Prop} {tr : List ε}
    (h : Each (fun l e => Q l e ↔ R l e) tr) :
    Each Q tr ↔ Each R tr :=
  ⟨fun hQ l₁ e l₂ heq => (h l₁ e l₂ heq).1 (hQ l₁ e l₂ heq),
    fun hR l₁ e l₂ heq => (h l₁ e l₂ heq).2 (hR l₁ e l₂ heq)⟩

/-- **The rule for events and their past**, for machines that emit one event at a time. -/
theorem Machine.Run.each {M : Machine σ α ε} {G : List ε → σ → α → Prop} {s₀ s : σ} {tr : List ε}
    (Q : List ε → ε → Prop) (h : M.Run G s₀ tr s)
    (hone : ∀ s a s' es, M.step s a = some (s', es) → es.length ≤ 1)
    (hQ : ∀ tr s a s' e, M.Run G s₀ tr s → M.step s a = some (s', [e]) → Q tr e) : Each Q tr := by
  refine h.invariant (fun tr _ => Each Q tr) (each_nil Q) ?_
  intro tr s a s' es hrun ih _ hs
  rcases es with _ | ⟨e, _ | ⟨e', es⟩⟩
  · simpa using ih
  · exact ih.concat (hQ tr s a s' e hrun hs)
  · have := hone s a s' _ hs
    simp at this

end BladePSGI.Transition
