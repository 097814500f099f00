import BladePSGI.Overseer.Control

/-!
# Whom `KillProcessGroup` reaches

A call of `KillProcessGroup` signals `worker_pids_` and `monitoring_process_pid_` one by one,
while signals, deaths of children and even another call, in the handler of `SIGQUIT`, happen in
between. `Sending` says how far a call has come; `Calls` is the invariant that carries it over
whole runs.

* `kill_mem_iff`: a call that returns has signalled a child that was forked and not yet reaped
  exactly if the child is not an auxiliary process.
* `killProcessGroup_reaches_iff`: it has reached every child exactly if no auxiliary process was
  left.
-/

namespace BladePSGI.Overseer

open Function Transition ProcessTable

variable {cfg : Config} {s s' : State} {tr es : List Event} {a : Action}

/-! ## A call in progress -/

/-- The event is no step of a call of `KillProcessGroup`, no `fork` and no wait. -/
def Event.Beside : Event → Prop
  | .killpg _ | .kill .. | .fork .. | .reap _ => False
  | _ => True

/-- A call of `KillProcessGroup(sig)`, the last one of the trace, has still to signal the pids in
`todo`. -/
structure Sending (tr : List Event) (s : State) (sig : Signal) (todo : List Pid)
    (l₁ l₂ : List Event) : Prop where
  split : tr = l₁ ++ .killpg sig :: l₂
  last : ∀ sig', .killpg sig' ∉ l₂
  noFork : ∀ pid child, .fork pid child ∉ l₂
  noReap : ∀ pid, .reap pid ∉ l₂
  targets : ∀ pid, pid ∈ killTargets s ↔ pid ∈ todo ∨ .kill pid sig ∈ l₂

namespace Sending

variable {sig : Signal} {todo : List Pid} {l₁ l₂ : List Event}

theorem start (h : killTargets s' = killTargets s) :
    Sending (tr ++ [.killpg sig]) s' sig (killTargets s) tr [] := by
  constructor <;> simp [h]

/-- A step that is not a step of a call. -/
theorem congr (hs : Sending tr s sig todo l₁ l₂) (ht : killTargets s' = killTargets s)
    (hes : ∀ e ∈ es, e.Beside) : Sending (tr ++ es) s' sig todo l₁ (l₂ ++ es) where
  split := by simp [hs.split]
  last sig' h := (List.mem_append.1 h).elim (hs.last sig') fun h => hes _ h
  noFork pid child h := (List.mem_append.1 h).elim (hs.noFork pid child) fun h => hes _ h
  noReap pid h := (List.mem_append.1 h).elim (hs.noReap pid) fun h => hes _ h
  targets pid := by
    have hk : .kill pid sig ∉ es := fun h => hes _ h
    simp [ht, hs.targets, hk]

theorem kill {pid : Pid} (hs : Sending tr s sig (pid :: todo) l₁ l₂)
    (ht : killTargets s' = killTargets s) :
    Sending (tr ++ [.kill pid sig]) s' sig todo l₁ (l₂ ++ [.kill pid sig]) where
  split := by simp [hs.split]
  last sig' := by simp [hs.last]
  noFork pid child := by simp [hs.noFork]
  noReap pid := by simp [hs.noReap]
  targets q := by
    simp only [ht, hs.targets, List.mem_cons, List.mem_append, List.not_mem_nil, or_false,
      Event.kill.injEq, and_true]
    tauto

end Sending

/-- The run of the handler has not come to its call of `KillProcessGroup`. -/
def Frame.Quiet (f : Frame) : Prop := (∀ todo, f.pc ≠ .kill todo) ∧ f.pc ≠ .exit

/-- **The invariant of the calls.** The call that the main program is in is the last one as long
as no handler run has made its own. -/
structure Calls (tr : List Event) (s : State) : Prop where
  main : ∀ sig todo caller, s.pc = .kill sig todo caller → (∀ f ∈ s.handlers, f.Quiet) →
    ∃ l₁ l₂, Sending tr s sig todo l₁ l₂
  handler : ∀ f ∈ s.handlers, ∀ todo, f.pc = .kill todo → ∃ l₁ l₂, Sending tr s .sigquit todo l₁ l₂

namespace Calls

theorem init (cfg : Config) : Calls [] (init cfg) := by
  constructor <;> simp [Overseer.init]

/-- A step beside the calls. -/
theorem congr (hc : Calls tr s) (hpc : s'.pc = s.pc) (ht : killTargets s' = killTargets s)
    (hk : ∀ f ∈ s'.handlers, ∀ todo, f.pc = .kill todo → f ∈ s.handlers)
    (hq : (∀ f ∈ s'.handlers, f.Quiet) → ∀ f ∈ s.handlers, f.Quiet)
    (hes : ∀ e ∈ es, e.Beside) : Calls (tr ++ es) s' where
  main sig todo caller h hquiet := by
    obtain ⟨l₁, l₂, hs⟩ := hc.main sig todo caller (hpc ▸ h) (hq hquiet)
    exact ⟨_, _, hs.congr ht hes⟩
  handler f hf todo h := by
    obtain ⟨l₁, l₂, hs⟩ := hc.handler f (hk f hf todo h) todo h
    exact ⟨_, _, hs.congr ht hes⟩

theorem mainStep (hc : Calls tr s) (hh : s.handlers = []) (h : MainStep cfg s s' es) :
    Calls (tr ++ es) s' := by
  obtain ⟨-, hh', -⟩ := frame_mainStep h
  refine ⟨fun sig todo caller hpc _ => ?_, by simp [hh', hh]⟩
  rcases kill_of_mainStep h hpc with ⟨ht, ⟨-, rfl, rfl⟩ | ⟨pid, hpc', rfl⟩⟩
  · exact ⟨_, _, .start ht⟩
  · obtain ⟨l₁, l₂, hs⟩ := hc.main _ _ _ hpc' (by simp [hh])
    exact ⟨_, _, hs.kill ht⟩

theorem handlerStep (hc : Calls tr s) (hctl : Control s) {f : Frame} {rest : List Frame}
    (hh : s.handlers = f :: rest) (h : HandlerStep cfg s rest f s' es) :
    Calls (tr ++ es) s' := by
  have hf := hctl.valid f (hh ▸ List.mem_cons_self)
  have hrest : f.sig = .sigquit → ∀ g ∈ rest, ∀ todo, g.pc ≠ .kill todo := by
    intro hsig g hg todo hpc
    have hv := hctl.valid g (hh ▸ List.mem_cons_of_mem f hg)
    rw [Frame.Valid, hpc] at hv
    exact hctl.sig_ne hh hg (hv.trans hsig.symm)
  -- a step after which the innermost run is past its call
  have loud : ∀ {t : State} {es : List Event} {pc : HandlerPc}, f.sig = .sigquit →
      t.handlers = ⟨f.sig, pc⟩ :: rest → ¬ (⟨f.sig, pc⟩ : Frame).Quiet →
      (∀ todo, pc = .kill todo → ∃ l₁ l₂, Sending (tr ++ es) t .sigquit todo l₁ l₂) →
      Calls (tr ++ es) t := by
    intro t es pc hsig ht hq hs
    refine ⟨fun _ _ _ _ h => absurd (h _ (ht ▸ List.mem_cons_self)) hq, fun g hg todo hpc => ?_⟩
    rw [ht, List.mem_cons] at hg
    rcases hg with rfl | hg
    · exact hs todo hpc
    · exact absurd hpc (hrest hsig g hg todo)
  cases h with
  | killpg =>
      exact loud hf rfl (by simp [Frame.Quiet]) fun _ h => by cases h; exact ⟨_, _, .start rfl⟩
  | kill =>
    refine loud hf rfl (by simp [Frame.Quiet]) fun _ h => ?_
    cases h
    obtain ⟨l₁, l₂, hs⟩ := hc.handler _ (hh ▸ List.mem_cons_self) _ rfl
    exact ⟨_, _, hs.kill rfl⟩
  | killpgReturn => exact loud hf rfl (by simp [Frame.Quiet]) (by simp)
  | _ =>
    refine hc.congr rfl rfl ?_ ?_ (by simp [Event.Beside]) <;> rw [hh] <;>
      simp +contextual [Frame.Quiet]

theorem step (hc : Calls tr s) (hctl : Control s) (h : Step cfg s a s' es) :
    Calls (tr ++ es) s' := by
  cases h with
  | main _ hh h => exact hc.mainStep hh h
  | handler _ hh h => exact hc.handlerStep hctl hh h
  | deliver h =>
    exact hc.congr rfl rfl (by simp +contextual) (by simp +contextual) (by simp [Event.Beside])
  | _ => exact hc.congr rfl rfl (fun _ h _ _ => h) id (by simp [Event.Beside])

end Calls

theorem calls_of_reach (h : Reach cfg tr s) : Calls tr s := by
  refine h.invariant Calls (.init cfg) ?_
  rintro tr s a s' es hreach hc - hs
  exact hc.step (control_of_reach hreach) (step_cases hs)

/-! ## A call that has returned -/

/-- The children that a call still under way will have signalled: those in `killTargets` are the
unreaped children but for the auxiliary processes. -/
theorem mem_killTargets_iff (h : Reach cfg tr s) {pid : Pid} (hu : Unreaped tr pid) :
    pid ∈ killTargets s ↔ ∀ i, .fork pid (.auxiliary i) ∉ tr := by
  have hb := (books_of_reach h).1
  have hk := kinds_of_reach h
  have hl : Listed s pid := (hb.listed pid).2 (Or.inl (((recorded_of_reach h).unreaped pid).2 hu))
  simp only [killTargets, List.mem_append, Option.mem_toList]
  constructor
  · rintro (hw | hm) i hi
    · obtain ⟨j, hj⟩ := hk.worker pid hw
      cases hk.unique pid _ _ hi hj
    · cases hk.unique pid _ _ hi (hk.monitoring pid hm)
  · intro hn
    rcases hl with hw | ha | hm
    · exact Or.inl hw
    · obtain ⟨i, hi⟩ := hk.auxiliary pid ha
      exact absurd hi (hn i)
    · exact Or.inr hm

/-- What a step that returns from a call has done. -/
theorem sending_of_return {sig : Signal} (hc : Calls tr s) (h : Step cfg s a s' es)
    (hret : .killpgReturn sig ∈ es) :
    es = [.killpgReturn sig] ∧ ∃ l₁ l₂, Sending tr s sig [] l₁ l₂ := by
  cases h with
  | main _ hh h =>
    cases h with
    | killpgReturn hpc =>
      obtain rfl : sig = _ := by simpa using hret
      exact ⟨rfl, hc.main _ _ _ hpc (by simp [hh])⟩
    | _ => simp at hret
  | handler _ hh h =>
    cases h with
    | killpgReturn =>
      obtain rfl : sig = _ := by simpa using hret
      exact ⟨rfl, hc.handler _ (hh ▸ List.mem_cons_self) _ rfl⟩
    | _ => simp at hret
  | _ => simp at hret

/-- **Whom a call signals.** A child that is forked and not reaped when `KillProcessGroup` is
called has been signalled when the call returns, unless it is an auxiliary process. -/
theorem kill_mem_iff {sig : Signal} {l₁ l₂ l₃ : List Event} (h : Reach cfg tr s)
    (htr : tr = (l₁ ++ .killpg sig :: l₂) ++ .killpgReturn sig :: l₃)
    (hl : ∀ sig', .killpg sig' ∉ l₂) {pid : Pid} (hu : Unreaped l₁ pid) :
    .kill pid sig ∈ l₂ ↔ ∀ i, .fork pid (.auxiliary i) ∉ l₁ := by
  refine h.invariant (fun tr _ => ∀ l₃, tr = (l₁ ++ .killpg sig :: l₂) ++ .killpgReturn sig :: l₃ →
    (.kill pid sig ∈ l₂ ↔ ∀ i, .fork pid (.auxiliary i) ∉ l₁)) (by simp) ?_ l₃ htr
  rintro tr s a s' es hreach ih - hs l₃ htr
  by_cases hret : .killpgReturn sig ∈ es
  case neg =>
    obtain ⟨l₃', rfl⟩ := eq_append_cons_of_notMem hret htr
    exact ih l₃' rfl
  case pos =>
    obtain ⟨rfl, m₁, m₂, hsend⟩ := sending_of_return (calls_of_reach hreach) (step_cases hs) hret
    by_cases hnew : l₃ = []
    case neg =>
      obtain ⟨l₃', e, rfl⟩ := List.eq_nil_or_concat l₃ |>.resolve_left hnew
      rw [List.concat_eq_append, ← List.cons_append, ← List.append_assoc] at htr
      exact ih _ (List.append_inj_left' htr rfl)
    case pos =>
      subst hnew
      have htr' : m₁ ++ .killpg sig :: m₂ = l₁ ++ .killpg sig :: l₂ := by
        rw [← hsend.split]
        exact List.append_inj_left' htr rfl
      obtain ⟨rfl, rfl⟩ := append_cons_inj_last (hsend.last sig) (hl sig) htr'
      have hf : ∀ child, .fork pid child ∈ tr ↔ .fork pid child ∈ m₁ := fun child => by
        simp [hsend.split, hsend.noFork]
      have hu' : Unreaped tr pid := by
        simpa [Unreaped, hsend.split, hsend.noFork, hsend.noReap] using hu
      have ht := hsend.targets pid
      simp only [List.not_mem_nil, false_or] at ht
      rw [← ht, mem_killTargets_iff hreach hu']
      simp only [hf]

/-- **`KillProcessGroup` reaches every child but the auxiliary processes.** A call that returns has
signalled every child that was forked and not yet reaped when it was made exactly if no auxiliary
process was among them. -/
theorem killProcessGroup_reaches_iff {sig : Signal} {l₁ l₂ l₃ : List Event} (h : Reach cfg tr s)
    (htr : tr = (l₁ ++ .killpg sig :: l₂) ++ .killpgReturn sig :: l₃)
    (hl : ∀ sig', .killpg sig' ∉ l₂) :
    (∀ pid, Unreaped l₁ pid → .kill pid sig ∈ l₂) ↔
      ∀ pid i, .fork pid (.auxiliary i) ∈ l₁ → .reap pid ∈ l₁ := by
  constructor
  · intro hall pid i hi
    by_contra hr
    have hu : Unreaped l₁ pid := ⟨⟨_, hi⟩, hr⟩
    exact (kill_mem_iff h htr hl hu).1 (hall pid hu) i hi
  · intro hnone pid hu
    exact (kill_mem_iff h htr hl hu).2 fun i hi => hu.2 (hnone pid i hi)

/-- An overseer with an auxiliary process, of pid 10, a worker, of pid 11, and the monitoring
process, of pid 12, that receives `SIGTERM` and calls `KillProcessGroup(SIGTERM)`. -/
def oneAuxiliary : Config := ⟨["auxiliary"], 1, Nat.one_pos, oneWorker.nworkers_le, 1, Nat.one_pos⟩

def shutdownOneAuxiliary : List Action :=
  [.run (.forked 10), .run .ok, .run (.forked 11), .run .ok, .run (.forked 12), .run .ok, .run .ok,
    .run .ok, .raise .sigterm, .deliver .sigterm, .run .ok, .run .ok, .run .ok, .run .ok,
    .run .ready, .run .ok, .run .ok, .run .ok, .run .ok, .run .ok, .run .ok, .run .ok, .run .ok,
    .run .ok]

theorem isSome_exec_oneAuxiliary :
    ((machine oneAuxiliary).exec (init oneAuxiliary) shutdownOneAuxiliary).isSome := by
  decide

/-- The counterexample to the reach of `KillProcessGroup`: the auxiliary process of pid 10 is not
signalled. -/
theorem not_killProcessGroup_reaches :
    ¬ ∀ (cfg : Config) (tr : List Event) (s : State) (sig : Signal)
    (l₁ l₂ l₃ : List Event), Reach cfg tr s →
    tr = (l₁ ++ .killpg sig :: l₂) ++ .killpgReturn sig :: l₃ → (∀ sig', .killpg sig' ∉ l₂) →
    ∀ pid, Unreaped l₁ pid → .kill pid sig ∈ l₂ := by
  intro h
  have hk := h oneAuxiliary _ _ .sigterm
    [.fork 10 (.auxiliary 0), .fork 11 (.worker 0), .fork 12 .monitoring, .log .startupComplete,
      .handlerBegin .sigterm, .handlerReturn .sigterm, .log .smartShutdown]
    [.kill 11 .sigterm, .kill 12 .sigterm] [] (Machine.reach_exec isSome_exec_oneAuxiliary)
    (by decide) (by simp) 10 ⟨⟨.auxiliary 0, by simp⟩, by simp⟩
  simp at hk

theorem killProcessGroup_reaches_iff_oneAuxiliary : ∃ l₁ l₂,
    (∃ s, Reach oneAuxiliary ((l₁ ++ .killpg .sigterm :: l₂) ++ [.killpgReturn .sigterm]) s) ∧
    ((∀ pid, Unreaped l₁ pid → .kill pid .sigterm ∈ l₂) ↔
      ∀ pid i, .fork pid (.auxiliary i) ∈ l₁ → .reap pid ∈ l₁) := by
  let l₁ : List Event :=
    [.fork 10 (.auxiliary 0), .fork 11 (.worker 0), .fork 12 .monitoring, .log .startupComplete,
      .handlerBegin .sigterm, .handlerReturn .sigterm, .log .smartShutdown]
  have h : Reach oneAuxiliary
      ((l₁ ++ .killpg .sigterm :: [.kill 11 .sigterm, .kill 12 .sigterm]) ++
        [.killpgReturn .sigterm])
      _ :=
    Machine.reach_exec isSome_exec_oneAuxiliary
  exact ⟨l₁, _, ⟨_, h⟩, killProcessGroup_reaches_iff h rfl (by simp)⟩

end BladePSGI.Overseer
