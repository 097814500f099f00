import BladePSGI.Group.Requests

/-!
# The children after the overseer's death

`SubprocessInit` asks the kernel for a `SIGQUIT` at the overseer's death. The request comes from the
child, some time after the `fork`, and the child does not look afterwards whether the overseer is
still there, as the monitoring process does in its loop.

* `sigquit_pending_iff`: after the overseer's death a `SIGQUIT` is pending in a child if its request
  came before the death, or if somebody has sent it one, and not otherwise.
* `not_sigquit_pending`: the overseer dies between the `fork` of a worker and its request.
-/

namespace BladePSGI.Group

open Function Transition

variable {cfg : Overseer.Config} {s s' : State} {a : Action} {tr es : List Event} {pid : Pid}

/-- The overseer ends. -/
def Event.EndsOverseer : Event → Prop
  | .overseer (.terminate _) | .runnerKilled => True
  | _ => False

/-- `SIGQUIT` is sent to the pid. -/
def Event.SendsQuit (pid : Pid) : Event → Prop
  | .overseer (.kill q sig) | .child _ (.kill q sig) | .signalled q sig => q = pid ∧ sig = .sigquit
  | _ => False

/-- The child's request for the death signal came before the overseer's end. -/
def AskedInTime (tr : List Event) (pid : Pid) : Prop :=
  ∃ e, e.EndsOverseer ∧ Follows (.child pid .setDeathSignal) e tr

/-- Somebody has sent a `SIGQUIT` to the child. -/
def SentQuit (tr : List Event) (pid : Pid) : Prop :=
  ∃ child e, e.SendsQuit pid ∧ Follows (.overseer (.fork pid child)) e tr

/-- `SubprocessInit` has been left, by its end or by an exception. -/
def Program.SubprocessInitDone : Program → Prop
  | .worker w => w.pc ≠ .init .prctl ∧ w.pc ≠ .init .setProcessTitle
  | .auxiliary x => x.pc ≠ .init .prctl ∧ x.pc ≠ .init .setProcessTitle
  | .monitoring _ => False

instance : DecidablePred Program.SubprocessInitDone := fun program =>
  match program with
  | .worker _ | .auxiliary _ => inferInstanceAs (Decidable (_ ∧ _))
  | .monitoring _ => inferInstanceAs (Decidable False)

/-! ## What a step does to the pending signals -/

/-- What an event of the overseer does to a process it has forked before. -/
def Process.hear (pid : Pid) (p : Process) : Overseer.Event → Process
  | .kill q sig => if q = pid then p.raise sig else p
  | .terminate _ => p.parentEnds
  | _ => p

theorem processes_foldl_hear {es : List Overseer.Event} {p : Process}
    (hp : s.processes pid = some p) (hnew : ∀ child, .fork pid child ∉ es) :
    (es.foldl State.noteOverseer s).processes pid = some (es.foldl (Process.hear pid) p) := by
  induction es generalizing s p with
  | nil => exact hp
  | cons e es ih =>
    rw [List.foldl_cons, List.foldl_cons]
    refine ih ?_ fun child hf => hnew child (List.mem_cons_of_mem e hf)
    cases e with
    | fork q child =>
      have hq : pid ≠ q := fun h => hnew child (h ▸ List.mem_cons_self)
      simp [State.noteOverseer, Process.hear, hq, hp]
    | kill q sig =>
      simp only [State.noteOverseer, Process.hear, State.signal]
      by_cases hq : q = pid
      · subst hq
        simp [hp]
      · rw [if_neg hq]
        split
        · exact hp
        · simp [Ne.symm hq, hp]
    | terminate how => simp [State.noteOverseer, Process.hear, State.parentEnds, hp]
    | _ => exact hp

theorem hear_deathSignal (p : Process) (e : Overseer.Event) :
    (p.hear pid e).deathSignal = p.deathSignal := by
  cases e with
  | kill => simp only [Process.hear]; split <;> rfl
  | terminate => simp only [Process.hear, Process.parentEnds]; split <;> rfl
  | _ => rfl

theorem hear_sigquit (p : Process) (e : Overseer.Event) : (p.hear pid e).pending .sigquit = true ↔
    p.pending .sigquit = true ∨ (p.deathSignal = true ∧ (Event.overseer e).EndsOverseer) ∨
      (Event.overseer e).SendsQuit pid := by
  cases e with
  | kill q sig =>
    by_cases hq : q = pid
    · cases sig <;> simp [Process.hear, Process.raise, Event.EndsOverseer, Event.SendsQuit, hq]
    · simp [Process.hear, Event.EndsOverseer, Event.SendsQuit, hq]
  | terminate =>
    cases hd : p.deathSignal <;>
      simp [Process.hear, Process.parentEnds, Process.raise, Event.EndsOverseer, Event.SendsQuit,
        hd]
  | _ => simp [Process.hear, Event.EndsOverseer, Event.SendsQuit]

theorem foldl_hear_deathSignal (es : List Overseer.Event) (p : Process) :
    (es.foldl (Process.hear pid) p).deathSignal = p.deathSignal := by
  induction es generalizing p with
  | nil => rfl
  | cons e es ih => rw [List.foldl_cons, ih, hear_deathSignal]

theorem foldl_hear_sigquit (es : List Overseer.Event) (p : Process) :
    (es.foldl (Process.hear pid) p).pending .sigquit = true ↔ p.pending .sigquit = true ∨
      (p.deathSignal = true ∧ ∃ e ∈ es, (Event.overseer e).EndsOverseer) ∨
        ∃ e ∈ es, (Event.overseer e).SendsQuit pid := by
  induction es generalizing p with
  | nil => simp
  | cons e es ih =>
    rw [List.foldl_cons, ih, hear_sigquit, hear_deathSignal]
    simp only [List.exists_mem_cons_iff, and_or_left]
    grind

/-- A step that forks sends no signal. -/
theorem kill_notMem_of_fork {overseer overseer' : Overseer.State} {b : Overseer.Action}
    {es : List Overseer.Event} {child : Overseer.Child}
    (h : Overseer.Step cfg overseer b overseer' es) (hf : .fork pid child ∈ es) (q : Pid)
    (sig : Signal) : .kill q sig ∉ es := by
  cases h with
  | main _ _ h => cases h <;> simp at hf ⊢
  | handler _ _ h => cases h <;> simp at hf
  | _ => simp at hf

/-- What a step does to the signals of a child that is there afterwards. -/
inductive Signals (s : State) (es : List Event) (pid : Pid) (p' : Process) : Prop
  | forked {child} (hf : .overseer (.fork pid child) ∈ es) (hsend : ∀ e ∈ es, ¬ e.SendsQuit pid)
      (hdeath : p'.deathSignal = false) (hpending : p'.pending .sigquit = false)
  | kept {p} (hp : s.processes pid = some p)
      (hdeath : p'.deathSignal = true ↔ p.deathSignal = true ∨ .child pid .setDeathSignal ∈ es)
      (hpending : p'.pending .sigquit = true ↔ p.pending .sigquit = true ∨
        (p.deathSignal = true ∧ ∃ e ∈ es, e.EndsOverseer) ∨ ∃ e ∈ es, e.SendsQuit pid)

theorem ChildStep.sends_iff {p : Process} {e : Option ChildEvent} (h : ChildStep s pid p e s' es)
    (q : Pid) : (∃ e' ∈ es, Event.SendsQuit q e') ↔ e = some (.kill q .sigquit) := by
  cases h <;> simp_all [Event.SendsQuit, ChildEvent.kill.injEq]

theorem ChildStep.not_endsOverseer {p : Process} {e : Option ChildEvent}
    (h : ChildStep s pid p e s' es) : ¬ ∃ e' ∈ es, Event.EndsOverseer e' := by
  cases h <;> simp [Event.EndsOverseer]

theorem ChildStep.signals {p₀ p p' : Process} {e : Option ChildEvent} {q : Pid}
    (h : ChildStep s q p e s' es) (hp₀ : s.processes q = some p₀)
    (hdeath : p.deathSignal = p₀.deathSignal)
    (hpending : p.pending .sigquit = p₀.pending .sigquit ∨ s'.processes q = none)
    (hp' : s'.processes pid = some p') : Signals s es pid p' := by
  obtain ⟨p₁, hp₁, -, hdeath', hpending'⟩ := h.processes hp'
  have hasked : .child pid .setDeathSignal ∈ es ↔ pid = q ∧ e = some .setDeathSignal := by
    rw [← mem_childTrace, h.childTrace_eq]
    split_ifs with hq <;> simp [hq]
  rcases hp₁ with ⟨rfl, rfl⟩ | ⟨-, hp₁⟩
  · refine .kept hp₀ ?_ ?_
    · rw [hdeath', hdeath, hasked]
    · rw [hpending', h.sends_iff, hpending.resolve_right (by simp [hp'])]
      simp [h.not_endsOverseer]
  · refine .kept hp₁ ?_ ?_
    · rw [hdeath', hasked]
    · rw [hpending', h.sends_iff]
      simp [h.not_endsOverseer]

/-- The arrival of `SIGQUIT` is the end of a child. -/
theorem Process.handle_sigquit (p : Process) :
    (p.handle .sigquit).2 = some (.terminate (.exited 2)) := by
  unfold Process.handle
  split <;> rfl

theorem overseer_signals {b : Overseer.Action} {overseer : Overseer.State}
    {es : List Overseer.Event} {p' : Process} (hreach : Reach cfg tr s)
    (hs : (Overseer.machine cfg).step s.overseer b = some (overseer, es))
    (hp' : (es.foldl State.noteOverseer { s with overseer }).processes pid = some p') :
    Signals s (es.map .overseer) pid p' := by
  by_cases hf : ∃ child, .fork pid child ∈ es
  · obtain ⟨child, hf⟩ := hf
    have hkill := kill_notMem_of_fork (Overseer.step_cases hs) hf
    rcases processes_foldl hp' with ⟨child', -, ht⟩ | ⟨p, hp, -⟩
    · refine .forked (List.mem_map_of_mem hf) ?_ ht.deathSignal ?_
      · simp only [List.mem_map, forall_exists_index, and_imp]
        rintro _ e he rfl hsend
        cases e with
        | kill q sig => exact hkill q sig he
        | _ => cases hsend
      · rw [Bool.eq_false_iff]
        intro hpend
        rcases ht.pending _ hpend with h | h | ⟨-, h, -⟩
        · cases h
        · exact hkill _ _ h
        · cases h
    · obtain ⟨child', hold⟩ := forked_of_isSome hreach (Option.isSome_of_mem hp)
      exact absurd (mem_overseerTrace.2 hold) ((Overseer.recorded_of_reach
        (reach_overseer hreach)).fork_notMem (Overseer.step_cases hs) hf child')
  · have hsome := isSome_processes_foldl.1 (Option.isSome_of_mem hp')
    obtain ⟨p, hp⟩ := Option.isSome_iff_exists.1 (hsome.resolve_right hf)
    have heq := processes_foldl_hear (s := { s with overseer }) hp (not_exists.1 hf)
    obtain rfl := Option.some.inj (hp'.symm.trans heq)
    refine .kept hp ?_ ?_
    · rw [foldl_hear_deathSignal]
      simp
    · rw [foldl_hear_sigquit]
      simp

/-- **What a step does to the signals of a child.** -/
theorem Step.signals {p' : Process} (hreach : Reach cfg tr s) (h : Step cfg s a s' es)
    (hp' : s'.processes pid = some p') : Signals s es pid p' := by
  cases h with
  | overseer _ h | deliver _ h => exact overseer_signals hreach h hp'
  | child hp _ hc => exact hc.signals hp rfl (Or.inl rfl) hp'
  | @deliverChild q sig p _ _ hp _ _ hc =>
    refine hc.signals hp rfl ?_ hp'
    by_cases hsig : sig = .sigquit
    · subst hsig
      rw [Process.handle_sigquit] at hc
      cases hc with
      | terminate => exact Or.inr (update_self ..)
      | note hterminate => exact absurd rfl (hterminate _)
    · exact Or.inl (update_of_ne (Ne.symm hsig) ..)
  | raise => exact .kept hp' (by simp) (by simp [Event.EndsOverseer, Event.SendsQuit])
  | @signal q sig =>
    obtain ⟨p, hp, -, hdeath, hpending⟩ := pending_signal hp'
    refine .kept hp (by simp [hdeath]) ?_
    simp [hpending, Event.EndsOverseer, Event.SendsQuit, @eq_comm _ pid, @eq_comm _ Signal.sigquit]
  | @dies q =>
    by_cases hq : pid = q
    · simp [State.without, hq] at hp'
    · simp only [State.without, update_of_ne hq] at hp'
      exact .kept hp' (by simp) (by simp [Event.EndsOverseer, Event.SendsQuit])
  | killRunner =>
    obtain ⟨p, hp, rfl⟩ := processes_parentEnds hp'
    refine .kept hp ?_ ?_
    · cases hd : p.deathSignal <;> simp [Process.parentEnds, Process.raise, hd]
    · cases hd : p.deathSignal <;>
        simp [Process.parentEnds, Process.raise, hd, Event.EndsOverseer, Event.SendsQuit]

theorem Step.not_endsOverseer (h : Step cfg s a s' es) {e : ChildEvent} (he : .child pid e ∈ es) :
    ¬ ∃ e' ∈ es, Event.EndsOverseer e' := by
  cases h with
  | child _ _ hc | deliverChild _ _ _ hc => exact hc.not_endsOverseer
  | _ => simp at he

/-! ## Runs -/

theorem askedInTime_append
    (h : .child pid .setDeathSignal ∈ es → ¬ ∃ e ∈ es, Event.EndsOverseer e) :
    AskedInTime (tr ++ es) pid ↔ AskedInTime tr pid ∨
      .child pid .setDeathSignal ∈ tr ∧ ∃ e ∈ es, Event.EndsOverseer e := by
  simp only [AskedInTime, follows_append]
  constructor
  · rintro ⟨e, he, hf | ⟨hmem, hes⟩ | hf⟩
    · exact Or.inl ⟨e, he, hf⟩
    · exact Or.inr ⟨hmem, e, hes, he⟩
    · exact absurd ⟨e, hf.mem_right, he⟩ (h hf.mem_left)
  · rintro (⟨e, he, hf⟩ | ⟨hmem, e, hes, he⟩)
    · exact ⟨e, he, Or.inl hf⟩
    · exact ⟨e, he, Or.inr (Or.inl ⟨hmem, hes⟩)⟩

theorem sentQuit_append {child : Overseer.Child} (hfork : .overseer (.fork pid child) ∈ tr) :
    SentQuit (tr ++ es) pid ↔ SentQuit tr pid ∨ ∃ e ∈ es, Event.SendsQuit pid e := by
  simp only [SentQuit, follows_append]
  constructor
  · rintro ⟨child', e, he, hf | ⟨-, hes⟩ | hf⟩
    · exact Or.inl ⟨child', e, he, hf⟩
    · exact Or.inr ⟨e, hes, he⟩
    · exact Or.inr ⟨e, hf.mem_right, he⟩
  · rintro (⟨child', e, he, hf⟩ | ⟨e, hes, he⟩)
    · exact ⟨child', e, he, Or.inl hf⟩
    · exact ⟨child, e, he, Or.inr (Or.inl ⟨hfork, hes⟩)⟩

/-- **The kernel's record of a child agrees with the trace.** -/
structure Heard (tr : List Event) (pid : Pid) (p : Process) : Prop where
  deathSignal : p.deathSignal = true ↔ .child pid .setDeathSignal ∈ tr
  sigquit : p.pending .sigquit = true ↔ AskedInTime tr pid ∨ SentQuit tr pid

theorem Heard.of_fork {p : Process} (hreach : Reach cfg tr s) (h : Step cfg s a s' es)
    {child : Overseer.Child} (hf : .overseer (.fork pid child) ∈ es)
    (hsend : ∀ e ∈ es, ¬ e.SendsQuit pid) (hdeath : p.deathSignal = false)
    (hpending : p.pending .sigquit = false) : Heard (tr ++ es) pid p := by
  have hnew := h.fork_new hreach hf
  have hchild : .child pid .setDeathSignal ∉ tr ++ es := by
    rw [List.mem_append]
    rintro (he | he)
    · obtain ⟨child', hold⟩ := forked_of_child hreach he
      exact hnew child' hold
    · obtain ⟨child', hold⟩ := forked_of_isSome hreach (h.child_isSome he)
      exact hnew child' hold
  refine ⟨by simp only [hdeath, hchild, reduceCtorEq], ?_⟩
  simp only [hpending, Bool.false_eq_true, false_iff, not_or]
  constructor
  · rintro ⟨e, -, hfollows⟩
    exact hchild hfollows.mem_left
  · rintro ⟨child', e, he, hfollows⟩
    rcases follows_append.1 hfollows with hfollows | ⟨hold, -⟩ | hfollows
    · exact hnew child' hfollows.mem_left
    · exact hnew child' hold
    · exact hsend e hfollows.mem_right he

/-- **The invariant.** -/
theorem heard_of_reach {p : Process} (h : Reach cfg tr s) (hp : s.processes pid = some p) :
    Heard tr pid p := by
  refine h.invariant (fun tr s => ∀ pid p, s.processes pid = some p → Heard tr pid p)
    (fun _ _ h => nomatch h) ?_ pid p hp
  rintro tr s a s' es hreach ih - hs pid p' hp'
  have hstep := step_cases hs
  cases hstep.signals hreach hp' with
  | forked hf hsend hdeath hpending => exact .of_fork hreach hstep hf hsend hdeath hpending
  | @kept p hp hdeath hpending =>
    obtain ⟨child, hfork⟩ := forked_of_isSome hreach (Option.isSome_of_mem hp)
    have hheard := ih pid p hp
    constructor
    · rw [hdeath, hheard.deathSignal, List.mem_append]
    · rw [hpending, hheard.sigquit, hheard.deathSignal, askedInTime_append hstep.not_endsOverseer,
        sentQuit_append hfork]
      generalize (∃ e ∈ es, Event.EndsOverseer e) = ends
      generalize (∃ e ∈ es, Event.SendsQuit pid e) = sends
      grind

/-- **A `SIGQUIT` is pending in a child exactly when it has asked for one before the overseer's
death, or when somebody has sent it one.** -/
theorem sigquit_pending_iff {p : Process} (h : Reach cfg tr s) (hp : s.processes pid = some p) :
    p.pending .sigquit = true ↔ AskedInTime tr pid ∨ SentQuit tr pid :=
  (heard_of_reach h hp).sigquit

/-- The overseer is killed when its worker has come up. -/
def killedLate : List Action :=
  startup ++ [.child 10 .ok, .child 10 .ok, .child 10 .ok, .child 10 .ok, .killRunner]

theorem isSome_exec_killedLate :
    ((machine Overseer.oneWorker).exec (init Overseer.oneWorker) killedLate).isSome := by
  decide

theorem sigquit_pending_iff_killedLate : ∃ tr s p, Reach Overseer.oneWorker tr s ∧
    s.runnerDied = true ∧ s.processes 10 = some p ∧ p.program.SubprocessInitDone ∧
    p.pending .sigquit = true := by
  let tr : List Event := [.overseer (.fork 10 (.worker 0)), .overseer (.fork 11 .monitoring),
    .overseer (.log .startupComplete), .child 10 .setDeathSignal, .child 10 .unblockSignals,
    .runnerKilled]
  let s := (Option.get _ isSome_exec_killedLate).1
  have h : Reach Overseer.oneWorker tr s := Machine.reach_exec isSome_exec_killedLate
  let p := (s.processes 10).get (by decide)
  have hp : s.processes 10 = some p := (Option.some_get _).symm
  have hasked : AskedInTime tr 10 := ⟨.runnerKilled, trivial, tr.take 3, tr.drop 4, rfl, by decide⟩
  exact ⟨tr, s, p, h, by decide, hp, by decide, (sigquit_pending_iff h hp).2 (Or.inl hasked)⟩

/-- The overseer is killed right after the `fork` of its first worker. -/
def killedEarly : List Action :=
  [.overseer .ok, .overseer (.forked 10), .killRunner, .child 10 .ok, .child 10 .ok]

theorem isSome_exec_killedEarly :
    ((machine Overseer.oneWorker).exec (init Overseer.oneWorker) killedEarly).isSome := by
  decide

/-- The counterexample: the worker asks for its `SIGQUIT` after the overseer's death. -/
theorem not_sigquit_pending : ¬ ∀ (cfg : Overseer.Config) (tr : List Event) (s : State) (pid : Pid)
    (p : Process), Reach cfg tr s → s.runnerDied = true → s.processes pid = some p →
      p.program.SubprocessInitDone → p.pending .sigquit = true := by
  intro h
  let s := (Option.get _ isSome_exec_killedEarly).1
  have hreach : Reach Overseer.oneWorker _ s := Machine.reach_exec isSome_exec_killedEarly
  let p := (s.processes 10).get (by decide)
  have hp : s.processes 10 = some p := (Option.some_get _).symm
  have hpending := h _ _ s 10 p hreach (by decide) hp (by decide)
  exact absurd hpending (by decide)

end BladePSGI.Group
