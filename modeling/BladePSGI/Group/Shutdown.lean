import BladePSGI.Group.GracefulShutdown
import BladePSGI.Group.Orphans
import BladePSGI.Group.Termination
import BladePSGI.Overseer.KillProcessGroup
import BladePSGI.Overseer.Termination

/-!
# A shutdown of the group

From the request to `exit(0)`: the overseer signals the workers and the monitoring process, the
kernel keeps each signal until it is delivered, whoever has got his comes to his end, and when the
last child is dead so does the overseer. What the signals do not reach are the auxiliary processes,
which have nothing to do but their one call.

* `kill_of_killpgReturn`: what a call of `KillProcessGroup` that has returned leaves behind.
* `told_iff`: a worker knows of a `SIGTERM`, or will, exactly when somebody has sent it one.
* `leaving_of_killed`: with the signals delivered, every child is on its way to its end.
* `shutdown_ends`: the whole group has a bounded number of steps left, is never stuck, and ends with
  `exit(0)`.
-/

namespace BladePSGI.Overseer

open Transition

variable {cfg : Config} {s s' : State} {tr es : List Event} {a : Action} {sig : Signal} {pid : Pid}

/-! ## What `KillProcessGroup` leaves behind -/

/-- The main program does not come back to its forks. -/
theorem Step.spawning (h : Step cfg s a s' es) (hpc : s'.pc.Spawning) : s.pc.Spawning := by
  cases h with
  | main _ _ h => exact (mainStep_starting h hpc.starting).2.1 hpc
  | handler _ _ h => cases h <;> exact hpc
  | _ => exact hpc

theorem Step.spawning_of_fork {child : Child} (h : Step cfg s a s' es)
    (hf : .fork pid child ∈ es) : s.pc.Spawning := by
  cases h with
  | main _ _ h =>
    cases h with
    | forkAuxiliary hpc | setPIDThrows hpc | forkWorker hpc | forkMonitoring hpc =>
      simp [hpc, Pc.Spawning]
    | _ => simp at hf
  | handler _ _ h => cases h <;> simp at hf
  | _ => simp at hf

/-- A call of `KillProcessGroup` returns after the forks. -/
theorem Step.not_spawning_of_return (hc : Control s) (h : Step cfg s a s' es)
    (hret : .killpgReturn sig ∈ es) : ¬ s'.pc.Spawning := by
  cases h with
  | main _ _ h =>
    cases h with
    | killpgReturn => exact fun hpc => afterKill_not_starting _ hpc.starting
    | _ => simp at hret
  | handler _ hh h =>
    have hpc : ¬ s.pc.Spawning := by
      intro hpc
      have hnone := hc.blocked (hc.starting hpc.starting)
      rw [hh] at hnone
      cases hnone
    cases h <;> exact hpc
  | _ => simp at hret

theorem not_spawning_of_killpgReturn (h : Reach cfg tr s) (hret : .killpgReturn sig ∈ tr) :
    ¬ s.pc.Spawning := by
  refine h.invariant (fun tr s => .killpgReturn sig ∈ tr → ¬ s.pc.Spawning) (by simp) ?_ hret
  rintro tr s a s' es hreach ih - hs hret
  have hstep := step_cases hs
  rcases List.mem_append.1 hret with hret | hret
  · exact fun hpc => ih hret (hstep.spawning hpc)
  · exact hstep.not_spawning_of_return (control_of_reach hreach) hret

/-- **What a call that has returned leaves behind.** Every child that is not yet reaped, save the
auxiliary processes, has been sent the signal. -/
theorem kill_of_killpgReturn (h : Reach cfg tr s) (hret : .killpgReturn sig ∈ tr)
    (hu : Unreaped tr pid) :
    (∃ i, .fork pid (.auxiliary i) ∈ tr) ∨
      ∃ child, Follows (.fork pid child) (.kill pid sig) tr := by
  refine h.invariant (fun tr _ => .killpgReturn sig ∈ tr → Unreaped tr pid →
    (∃ i, .fork pid (.auxiliary i) ∈ tr) ∨
      ∃ child, Follows (.fork pid child) (.kill pid sig) tr) (by simp) ?_ hret hu
  rintro tr s a s' es hreach ih - hs hret ⟨⟨child, hfork⟩, hreap⟩
  have hstep := step_cases hs
  rw [List.mem_append, not_or] at hreap
  by_cases hold : .killpgReturn sig ∈ tr
  · have hfork : .fork pid child ∈ tr := (List.mem_append.1 hfork).resolve_right fun hf =>
      not_spawning_of_killpgReturn hreach hold (hstep.spawning_of_fork hf)
    rcases ih hold ⟨⟨child, hfork⟩, hreap.1⟩ with ⟨i, hi⟩ | ⟨child', hfollows⟩
    · exact Or.inl ⟨i, List.mem_append_left es hi⟩
    · exact Or.inr ⟨child', follows_append.2 (Or.inl hfollows)⟩
  · have hnew := (List.mem_append.1 hret).resolve_left hold
    obtain ⟨rfl, l₁, l₂, hsend⟩ := sending_of_return (calls_of_reach hreach) hstep hnew
    have hfork : .fork pid child ∈ tr := by simpa using hfork
    by_cases haux : ∃ i, .fork pid (.auxiliary i) ∈ tr
    · obtain ⟨i, hi⟩ := haux
      exact Or.inl ⟨i, List.mem_append_left _ hi⟩
    · have htarget : pid ∈ killTargets s :=
        (mem_killTargets_iff hreach ⟨⟨child, hfork⟩, hreap.1⟩).2 (not_exists.1 haux)
      have hkill : .kill pid sig ∈ l₂ := ((hsend.targets pid).1 htarget).resolve_left (by simp)
      have hfirst : .fork pid child ∈ l₁ := by
        rw [hsend.split] at hfork
        simpa [hsend.noFork] using hfork
      obtain ⟨m₁, m₂, rfl⟩ := List.append_of_mem hfirst
      refine Or.inr ⟨child, follows_append.2 (Or.inl ⟨m₁, m₂ ++ .killpg sig :: l₂, ?_, ?_⟩)⟩
      · rw [hsend.split, List.append_assoc, List.cons_append]
      · exact List.mem_append_right _ (List.mem_cons_of_mem _ hkill)

end BladePSGI.Overseer

namespace BladePSGI.Group

open Function Transition

variable {cfg : Overseer.Config} {s s' t : State} {a : Action} {as : List Action}
  {tr tr' es : List Event} {pid : Pid} {p p' : Process} {sig : Signal}

/-! ## No `SIGTERM` is lost -/

/-- `SIGTERM` is sent to the pid. -/
def Event.SendsTerm (pid : Pid) : Event → Prop
  | .overseer (.kill q sig) | .child _ (.kill q sig) | .signalled q sig => q = pid ∧ sig = .sigterm
  | _ => False

/-- Somebody has sent a `SIGTERM` to the child. -/
def SentTerm (tr : List Event) (pid : Pid) : Prop :=
  ∃ child e, e.SendsTerm pid ∧ Follows (.overseer (.fork pid child)) e tr

/-- A `SIGTERM` is pending in the process, or `worker_sigterm_handler` has run. -/
def Process.Told (p : Process) : Prop := p.pending .sigterm = true ∨ p.Terminated

theorem Process.told_congr (hprogram : p'.program = p.program)
    (hpending : p'.pending .sigterm = p.pending .sigterm) : p'.Told ↔ p.Told := by
  rw [Process.Told, Process.Told, Process.Terminated, Process.Terminated, hprogram, hpending]

theorem Process.not_told_forked (overseer : Overseer.State) (child : Overseer.Child) :
    ¬ (Process.forked overseer child).Told := by
  rintro (h | ⟨w, hw, hterm⟩)
  · cases h
  · cases child with
    | worker n =>
      obtain rfl := Program.worker.inj hw
      cases hterm
    | auxiliary | monitoring => cases hw

/-- Only the handler changes `_worker_terminated`. -/
theorem Process.terminated_step {runnerDied shouldExit : Bool} {o : Outcome} {program : Program}
    {e : Option ChildEvent} (h : p.step runnerDied shouldExit o = some (program, e)) :
    { p with program }.Terminated ↔ p.Terminated := by
  unfold Process.Terminated
  cases Process.step_cases h with
  | @worker w w' _ hprogram h =>
    rw [hprogram]
    simp [h.terminated_eq]
  | auxiliary hprogram | monitoring hprogram => simp [hprogram]

theorem hear_program (p : Process) (e : Overseer.Event) : (p.hear pid e).program = p.program := by
  cases e with
  | kill => simp only [Process.hear]; split <;> rfl
  | terminate => simp only [Process.hear, Process.parentEnds]; split <;> rfl
  | _ => rfl

theorem hear_sigterm (p : Process) (e : Overseer.Event) : (p.hear pid e).pending .sigterm = true ↔
    p.pending .sigterm = true ∨ (Event.overseer e).SendsTerm pid := by
  cases e with
  | kill q sig =>
    by_cases hq : q = pid
    · cases sig <;> simp [Process.hear, Process.raise, Event.SendsTerm, hq]
    · simp [Process.hear, Event.SendsTerm, hq]
  | terminate =>
    cases hd : p.deathSignal <;>
      simp [Process.hear, Process.parentEnds, Process.raise, Event.SendsTerm, hd]
  | _ => simp [Process.hear, Event.SendsTerm]

theorem hear_told (p : Process) (e : Overseer.Event) :
    (p.hear pid e).Told ↔ p.Told ∨ (Event.overseer e).SendsTerm pid := by
  rw [Process.Told, Process.Told, Process.Terminated, hear_program, hear_sigterm, or_right_comm]
  rfl

theorem foldl_hear_told (es : List Overseer.Event) (p : Process) :
    (es.foldl (Process.hear pid) p).Told ↔
      p.Told ∨ ∃ e ∈ es, (Event.overseer e).SendsTerm pid := by
  induction es generalizing p with
  | nil => simp
  | cons e es ih => rw [List.foldl_cons, ih, hear_told, List.exists_mem_cons_iff, or_assoc]

/-- What a step means for a child that is there afterwards: it is new and knows of nothing, or it
learns of what is sent to it. -/
inductive Tells (s : State) (es : List Event) (pid : Pid) (p' : Process) : Prop
  | forked {child} (hf : .overseer (.fork pid child) ∈ es) (hsend : ∀ e ∈ es, ¬ e.SendsTerm pid)
      (hnot : ¬ p'.Told)
  | kept {p₀} (hp : s.processes pid = some p₀)
      (htold : p'.Told ↔ p₀.Told ∨ ∃ e ∈ es, e.SendsTerm pid)

theorem overseer_tells {b : Overseer.Action} {overseer : Overseer.State}
    {es : List Overseer.Event} (hreach : Reach cfg tr s)
    (hs : (Overseer.machine cfg).step s.overseer b = some (overseer, es))
    (hp' : (es.foldl State.noteOverseer { s with overseer }).processes pid = some p') :
    Tells s (es.map .overseer) pid p' := by
  by_cases hf : ∃ child, .fork pid child ∈ es
  · obtain ⟨child, hf⟩ := hf
    have hkill := kill_notMem_of_fork (Overseer.step_cases hs) hf
    rcases processes_foldl hp' with ⟨child', -, ht⟩ | ⟨p, hp, -⟩
    · refine .forked (List.mem_map_of_mem hf) ?_ ?_
      · simp only [List.mem_map, forall_exists_index, and_imp]
        rintro _ e he rfl hsend
        cases e with
        | kill q sig => exact hkill q sig he
        | _ => cases hsend
      · rintro (hpend | hterm)
        · rcases ht.pending _ hpend with h | h | ⟨h, -⟩
          · cases h
          · exact hkill _ _ h
          · cases h
        · rw [Process.Terminated, ht.program] at hterm
          exact Process.not_told_forked _ _ (Or.inr hterm)
    · obtain ⟨child', hold⟩ := forked_of_isSome hreach (Option.isSome_of_mem hp)
      exact absurd (mem_overseerTrace.2 hold) ((Overseer.recorded_of_reach
        (reach_overseer hreach)).fork_notMem (Overseer.step_cases hs) hf child')
  · have hsome := isSome_processes_foldl.1 (Option.isSome_of_mem hp')
    obtain ⟨p, hp⟩ := Option.isSome_iff_exists.1 (hsome.resolve_right hf)
    have heq := processes_foldl_hear (s := { s with overseer }) hp (not_exists.1 hf)
    obtain rfl := Option.some.inj (hp'.symm.trans heq)
    refine .kept hp ?_
    rw [foldl_hear_told]
    simp

theorem ChildStep.sendsTerm_iff {e : Option ChildEvent} (h : ChildStep s pid p e s' es) (q : Pid) :
    (∃ e' ∈ es, Event.SendsTerm q e') ↔ e = some (.kill q .sigterm) := by
  cases h <;> simp_all [Event.SendsTerm, ChildEvent.kill.injEq]

/-- A child learns of nothing by its own steps, and of what it is sent by those of the others. -/
theorem ChildStep.tells {p₀ : Process} {e : Option ChildEvent} {q : Pid}
    (h : ChildStep s q p e s' es) (hp₀ : s.processes q = some p₀)
    (htold : (s'.processes q).isSome → (p.Told ↔ p₀.Told)) (hp' : s'.processes pid = some p') :
    Tells s es pid p' := by
  obtain ⟨p₁, hp₁, hprogram, -, hpending⟩ := h.processes hp'
  have htold' : p'.Told ↔ p₁.Told ∨ ∃ e ∈ es, e.SendsTerm pid := by
    rw [Process.Told, Process.Told, Process.Terminated, Process.Terminated, hprogram, hpending,
      h.sendsTerm_iff, or_right_comm]
  rcases hp₁ with ⟨rfl, rfl⟩ | ⟨-, hp₁⟩
  · exact .kept hp₀ (by rw [htold', htold (Option.isSome_of_mem hp')])
  · exact .kept hp₁ htold'

/-- The arrival of a signal: a worker keeps a `SIGTERM` in mind, and the others end. -/
theorem Process.told_handle (hpend : p.pending sig = true)
    (hgoes : ∀ status, (p.handle sig).2 ≠ some (.terminate status)) :
    { p with program := (p.handle sig).1, pending := update p.pending sig false }.Told ↔
      p.Told := by
  obtain ⟨program, pending, _, _⟩ := p
  cases program with
  | worker w =>
    cases sig with
    | sigterm =>
      refine iff_of_true (Or.inr ⟨_, rfl, rfl⟩) (Or.inl hpend)
    | sigquit => exact absurd rfl (hgoes _)
    | _ => exact Process.told_congr rfl rfl
  | auxiliary | monitoring =>
    cases sig <;>
      first
      | exact absurd rfl (hgoes _)
      | exact Process.told_congr rfl rfl

/-- **What a step means for a child.** -/
theorem Step.tells (hreach : Reach cfg tr s) (h : Step cfg s a s' es)
    (hp' : s'.processes pid = some p') : Tells s es pid p' := by
  cases h with
  | overseer _ h | deliver _ h => exact overseer_tells hreach h hp'
  | child hp hstep hc =>
    refine hc.tells hp (fun _ => ?_) hp'
    exact or_congr_right (Process.terminated_step hstep)
  | @deliverChild q sig p _ _ hp hpend _ hc =>
    refine hc.tells hp (fun hlives => ?_) hp'
    refine Process.told_handle hpend fun status hterminate => ?_
    rw [hterminate] at hc
    cases hc with
    | terminate => simp [State.without] at hlives
    | note hno => exact hno _ rfl
  | raise => exact .kept hp' (by simp [Event.SendsTerm])
  | @signal q sig =>
    obtain ⟨p, hp, hprogram, -, hpending⟩ := pending_signal hp'
    refine .kept hp ?_
    rw [Process.Told, Process.Told, Process.Terminated, Process.Terminated, hprogram, hpending,
      or_right_comm]
    simp [Event.SendsTerm, @eq_comm _ pid, @eq_comm _ Signal.sigterm]
  | @dies q =>
    by_cases hq : pid = q
    · simp [State.without, hq] at hp'
    · simp only [State.without, update_of_ne hq] at hp'
      exact .kept hp' (by simp [Event.SendsTerm])
  | killRunner =>
    obtain ⟨p, hp, rfl⟩ := processes_parentEnds hp'
    refine .kept hp ?_
    simp only [List.mem_singleton, exists_eq_left, Event.SendsTerm, or_false]
    refine Process.told_congr ?_ ?_ <;> unfold Process.parentEnds <;> split <;> rfl

theorem sentTerm_append {child : Overseer.Child} (hfork : .overseer (.fork pid child) ∈ tr) :
    SentTerm (tr ++ es) pid ↔ SentTerm tr pid ∨ ∃ e ∈ es, Event.SendsTerm pid e := by
  simp only [SentTerm, follows_append]
  constructor
  · rintro ⟨child', e, he, hf | ⟨-, hes⟩ | hf⟩
    · exact Or.inl ⟨child', e, he, hf⟩
    · exact Or.inr ⟨e, hes, he⟩
    · exact Or.inr ⟨e, hf.mem_right, he⟩
  · rintro (⟨child', e, he, hf⟩ | ⟨e, hes, he⟩)
    · exact ⟨child', e, he, Or.inl hf⟩
    · exact ⟨child, e, he, Or.inr (Or.inl ⟨hfork, hes⟩)⟩

/-- **A child knows of a `SIGTERM`, or will when it is delivered, exactly when somebody has sent it
one.** -/
theorem told_iff (h : Reach cfg tr s) (hp : s.processes pid = some p) :
    p.Told ↔ SentTerm tr pid := by
  refine h.invariant (fun tr s => ∀ p, s.processes pid = some p → (p.Told ↔ SentTerm tr pid))
    (fun _ hp => nomatch hp) ?_ p hp
  rintro tr s a s' es hreach ih - hs p' hp'
  have hstep := step_cases hs
  cases hstep.tells hreach hp' with
  | forked hf hsend hnot =>
    refine iff_of_false hnot ?_
    rintro ⟨child', e, he, hfollows⟩
    rcases follows_append.1 hfollows with hold | ⟨hold, -⟩ | hnew
    · exact hstep.fork_new hreach hf child' hold.mem_left
    · exact hstep.fork_new hreach hf child' hold
    · exact hsend e hnew.mem_right he
  | kept hp htold =>
    obtain ⟨child, hfork⟩ := forked_of_isSome hreach (Option.isSome_of_mem hp)
    rw [htold, ih _ hp, sentTerm_append hfork]

/-! ## Everybody leaves -/

/-- The program is that of the child. -/
def Program.IsOf : Program → Overseer.Child → Prop
  | .worker w, .worker n => w.workerno = n
  | .auxiliary _, .auxiliary _ | .monitoring _, .monitoring => True
  | _, _ => False

theorem Program.isOf_forked (overseer : Overseer.State) (child : Overseer.Child) :
    (Process.forked overseer child).program.IsOf child := by
  cases child <;> trivial

theorem Process.isOf_step {runnerDied shouldExit : Bool} {o : Outcome} {program : Program}
    {e : Option ChildEvent} {child : Overseer.Child}
    (h : p.step runnerDied shouldExit o = some (program, e)) (hp : p.program.IsOf child) :
    program.IsOf child := by
  cases Process.step_cases h with
  | @worker w w' _ hprogram h =>
    rw [hprogram] at hp
    cases child with
    | worker n => exact h.workerno.trans hp
    | auxiliary | monitoring => exact hp.elim
  | auxiliary hprogram | monitoring hprogram =>
    rw [hprogram] at hp
    cases child <;> trivial

theorem Process.isOf_handle (sig : Signal) {child : Overseer.Child} (hp : p.program.IsOf child) :
    (p.handle sig).1.IsOf child := by
  obtain ⟨program, _, _, _⟩ := p
  cases program with
  | worker w => cases child <;> cases sig <;> exact hp
  | auxiliary | monitoring => cases child <;> exact hp

/-- A child runs the program that it was forked for. -/
theorem isOf_of_reach (h : Reach cfg tr s) (hp : s.processes pid = some p) :
    ∃ child, .overseer (.fork pid child) ∈ tr ∧ p.program.IsOf child := by
  refine h.invariant (fun tr s => ∀ p, s.processes pid = some p →
    ∃ child, .overseer (.fork pid child) ∈ tr ∧ p.program.IsOf child)
    (fun _ hp => nomatch hp) ?_ p hp
  rintro tr s a s' es - ih - hs p' hp'
  have lift : ∀ {p : Process} {program : Program}, s.processes pid = some p →
      (∀ child, p.program.IsOf child → program.IsOf child) →
      ∃ child, .overseer (.fork pid child) ∈ tr ++ es ∧ program.IsOf child := by
    intro p program hp hof
    obtain ⟨child, hfork, hchild⟩ := ih p hp
    exact ⟨child, List.mem_append_left es hfork, hof child hchild⟩
  generalize hprogram : p'.program = program
  cases hprogram ▸ (step_cases hs).comes hp' with
  | forked hf => exact ⟨_, List.mem_append_right tr hf, Program.isOf_forked _ _⟩
  | kept hp => exact lift hp fun _ => id
  | stepped _ hp h => exact lift hp fun _ => Process.isOf_step h
  | handled _ hp => exact lift hp fun _ => Process.isOf_handle _

/-- A signal that a call of `KillProcessGroup` has sent to the child is pending, or the child has
taken notice of it. -/
theorem heard_of_killed (h : Reach cfg tr s) (hp : s.processes pid = some p)
    {child : Overseer.Child}
    (hkill : Follows (.overseer (.fork pid child)) (.overseer (.kill pid sig)) tr) :
    (sig = .sigterm → p.Told) ∧ (sig = .sigquit → p.pending .sigquit = true) := by
  constructor
  · rintro rfl
    exact (told_iff h hp).2 ⟨child, .overseer (.kill pid .sigterm), ⟨rfl, rfl⟩, hkill⟩
  · rintro rfl
    have hsent : SentQuit tr pid := ⟨child, .overseer (.kill pid .sigquit), ⟨rfl, rfl⟩, hkill⟩
    exact (heard_of_reach h hp).sigquit.2 (Or.inr hsent)

/-- The kernel has delivered all the signals that end a child. -/
def State.Delivered (s : State) : Prop :=
  ∀ pid p, s.processes pid = some p → p.pending .sigterm = false ∧ p.pending .sigquit = false

/-- **Whoever is left after a call of `KillProcessGroup` is on the way to his end.** -/
theorem leaving_of_killed (h : Reach cfg tr s) (hsig : sig = .sigterm ∨ sig = .sigquit)
    (hret : .overseer (.killpgReturn sig) ∈ tr) (hdelivered : s.Delivered) (pid : Pid) :
    s.Leaving pid := by
  intro p hp
  have hreach := reach_overseer h
  obtain ⟨child, hfork, hof⟩ := isOf_of_reach h hp
  have halive := (isSome_processes_iff h pid).1 (Option.isSome_of_mem hp)
  have hu := ((Overseer.recorded_of_reach hreach).unreaped pid).1
    (ProcessTable.mem_unreaped.2 (Or.inl halive))
  rcases Overseer.kill_of_killpgReturn hreach (mem_overseerTrace.2 hret) hu with
    ⟨i, haux⟩ | ⟨child', hfollows⟩
  · have hchild : child = .auxiliary i :=
      (Overseer.kinds_of_reach hreach).unique pid _ _ (mem_overseerTrace.2 hfork) haux
    subst hchild
    cases hprogram : p.program with
    | auxiliary x => trivial
    | worker | monitoring =>
      rw [hprogram] at hof
      exact hof.elim
  · have hback : ∀ {e : Event} {e' : Overseer.Event}, e.overseer? = some e' → e = .overseer e' := by
      rintro ⟨⟩ e' he <;> cases he
      rfl
    have hheard := heard_of_killed h hp
      (hfollows.of_filterMap (fun _ => hback) fun _ => hback)
    obtain ⟨hsigterm, hsigquit⟩ := hdelivered pid p hp
    rcases hsig with rfl | rfl
    · rcases hheard.1 rfl with hpend | ⟨w, hw, hterm⟩
      · rw [hsigterm] at hpend
        cases hpend
      · rw [hw]
        exact Or.inr hterm
    · have hpend := hheard.2 rfl
      rw [hsigquit] at hpend
      cases hpend

/-! ## The end -/

/-- The overseer makes a step, and not one that a call answered with `EINTR`. -/
def Action.proceeds : Action → Bool
  | .overseer o => o ≠ .interrupted
  | _ => false

/-- A signal arrives at the overseer from outside. -/
def Action.raises : Action → Bool
  | .raise _ => true
  | _ => false

/-- The overseer gets no `SIGQUIT` and no `SIGKILL`, and none of its calls fails but with `EINTR`.
The children may do and suffer anything. -/
def Action.quiet : Action → Bool
  | .overseer o => o.works
  | .raise sig => sig ≠ .sigquit
  | .killRunner => false
  | _ => true

theorem Lifts.quiet {b : Overseer.Action} (h : Lifts es a b) (ha : a.quiet = true) :
    b.quiet = true := by
  cases h with
  | run | raise => exact ha
  | _ => rfl

theorem Step.spawning (h : Step cfg s a s' es) (hpc : s'.overseer.pc.Spawning) :
    s.overseer.pc.Spawning := by
  rcases h.overseer_step with ⟨heq, -⟩ | ⟨b, -, hb⟩
  · rwa [← heq]
  · exact (Overseer.step_cases hb).spawning hpc

theorem Step.spawning_of_fork {child : Overseer.Child} (h : Step cfg s a s' es)
    (hf : .overseer (.fork pid child) ∈ es) : s.overseer.pc.Spawning := by
  have hf := mem_overseerTrace.2 hf
  rcases h.overseer_step with ⟨-, hes⟩ | ⟨b, -, hb⟩
  · rw [hes] at hf
    cases hf
  · exact (Overseer.step_cases hb).spawning_of_fork hf

/-- The overseer is past its forks, and on its way to `exit(0)`. -/
structure Leaves (cfg : Overseer.Config) (s : State) : Prop where
  reach : ∃ tr, Reach cfg tr s
  lives : s.runnerKilled = false
  spawned : ¬ s.overseer.pc.Spawning
  clean : Overseer.Clean s.overseer

theorem Leaves.step (hl : Leaves cfg s) (h : (machine cfg).step s a = some (s', es))
    (ha : a.quiet = true) : Leaves cfg s' := by
  obtain ⟨⟨tr, hreach⟩, hlives, hspawned, hclean⟩ := hl
  have hstep := step_cases h
  refine ⟨⟨_, hreach.snoc trivial h⟩, ?_, fun hpc => hspawned (hstep.spawning hpc), ?_⟩
  · cases hstep with
    | overseer hk | deliver hk => simpa using hk
    | child _ _ hc | deliverChild _ _ _ hc => exact hc.runnerKilled.trans hlives
    | signal => simpa using hlives
    | killRunner => cases ha
    | _ => exact hlives
  · rcases hstep.overseer_step with ⟨heq, -⟩ | ⟨b, hlifts, hb⟩
    · rwa [heq]
    · exact hclean.step hspawned (reach_overseer hreach) (hlifts.quiet ha) hb

/-- Somebody has a next step that brings the group nearer to its end: a child, or the overseer if
no child lives. -/
def State.Proceeds (cfg : Overseer.Config) (s : State) : Prop :=
  (∃ pid o, (s.processes pid).isSome ∧ (o = .ok ∨ o = .timeout) ∧
      ((machine cfg).step s (.child pid o)).isSome) ∨
    (∀ pid, s.processes pid = none) ∧
      ∃ o, Overseer.Outcome.Succeeds o ∧ ((machine cfg).step s (.overseer o)).isSome

theorem isSome_step_overseer (hlives : s.runnerKilled = false) {o : Overseer.Outcome}
    (h : ((Overseer.machine cfg).step s.overseer (.run o)).isSome) :
    ((machine cfg).step s (.overseer o)).isSome := by
  obtain ⟨⟨overseer, es⟩, hs⟩ := Option.isSome_iff_exists.1 h
  change (step cfg s (.overseer o)).isSome
  simp only [step, State.overseerStep, hlives, hs]
  rfl

/-- **The group is never stuck on its way to the end**, and its end is `exit(0)`. -/
theorem Leaves.proceeds (hl : Leaves cfg s) :
    s.overseer.terminated = some (.exit 0) ∧ (∀ pid, s.processes pid = none) ∨
      s.overseer.terminated = none ∧ s.Proceeds cfg := by
  obtain ⟨⟨tr, hreach⟩, hlives, hspawned, hclean⟩ := hl
  have halive := isSome_processes_iff hreach
  rcases hclean.ended with hrun | hexit
  · refine Or.inr ⟨hrun, ?_⟩
    by_cases hnone : ∀ pid, s.processes pid = none
    · have hempty : s.overseer.children.alive = ∅ := by
        refine Finset.eq_empty_of_forall_notMem fun pid hpid => ?_
        have hsome := (halive pid).2 hpid
        rw [hnone pid] at hsome
        cases hsome
      have hchildless : Overseer.Childless (Overseer.killTargets s.overseer).length s.overseer :=
        ⟨hspawned, hempty, Nat.le_refl _⟩
      obtain ⟨o, ho, hstep⟩ := Overseer.exists_succeeding hchildless hrun
      exact Or.inr ⟨hnone, o, ho, isSome_step_overseer hlives hstep⟩
    · obtain ⟨pid, hpid⟩ := not_forall.1 hnone
      obtain ⟨p, hp⟩ := Option.ne_none_iff_exists'.1 hpid
      obtain ⟨o, ho, hstep⟩ := exists_step hreach hp
      exact Or.inl ⟨pid, o, Option.isSome_of_mem hp, ho, hstep⟩
  · refine Or.inl ⟨hexit, fun pid => ?_⟩
    have hoverseer := reach_overseer hreach
    rw [← Option.not_isSome_iff_eq_none, halive]
    intro hpid
    obtain ⟨⟨child, hfork⟩, hreap⟩ := ((Overseer.recorded_of_reach hoverseer).unreaped pid).1
      (ProcessTable.mem_unreaped.2 (Or.inl hpid))
    exact hreap ((Overseer.exit_zero hoverseer hexit).2 pid child hfork)

/-- **The rank of the overseer** without children. -/
theorem Step.childless {n : ℕ} (h : Step cfg s a s' es)
    (hc : Overseer.Childless n s.overseer) :
    Overseer.Childless n s'.overseer ∧
      s'.overseer.stepsLeft n + (if a.proceeds then 1 else 0) ≤
        s.overseer.stepsLeft n + (if a.raises then 2 * (n + 5) else 0) := by
  -- an action of which the overseer notices a death or the exit flag at most
  have others : a.proceeds = false → a.raises = false →
      Overseer.Childless n s'.overseer ∧ s'.overseer.stepsLeft n ≤ s.overseer.stepsLeft n := by
    intro hproceeds hraises
    rcases h.overseer_step with ⟨heq, -⟩ | ⟨b, hlifts, hb⟩
    · rw [heq]
      exact ⟨hc, Nat.le_refl _⟩
    · have hb' : b.raises = false := by
        cases hlifts with
        | raise => cases hraises
        | _ => rfl
      have hstep := hc.step hb
      simp only [hb', Bool.false_eq_true, if_false, Nat.add_zero] at hstep
      exact ⟨hstep.1, Nat.le_of_add_right_le hstep.2⟩
  cases h with
  | overseer _ h =>
    rw [overseer_foldl]
    exact hc.step h
  | raise => exact ⟨⟨hc.spawned, hc.alive, hc.targets⟩, Overseer.stepsLeft_raise s.overseer _⟩
  | _ =>
    obtain ⟨hc', hle⟩ := others rfl rfl
    exact ⟨hc', hle⟩

/-- **A shutdown completes.** When a call of `KillProcessGroup` has returned and the signals are
delivered, the children have a bounded number of steps left together, and without children the
overseer has, save for the signals that arrive from outside. The group is never stuck on the way,
and it ends with `exit(0)`. -/
theorem shutdown_ends (h : Reach cfg tr s) (hsig : sig = .sigterm ∨ sig = .sigquit)
    (hret : .overseer (.killpgReturn sig) ∈ tr) (hdelivered : s.Delivered)
    (hclean : Overseer.Clean s.overseer) (hlives : s.runnerKilled = false)
    (hquiet : ∀ a ∈ as, a.quiet = true) (he : (machine cfg).exec s as = some (t, tr')) :
    as.countP Action.isChild ≤ s.overseer.children.alive.card * (cfg.nworkers + 13) ∧
      ((∀ pid, s.processes pid = none) → as.countP Action.proceeds ≤
        s.overseer.stepsLeft (Overseer.killTargets s.overseer).length +
          2 * ((Overseer.killTargets s.overseer).length + 5) * as.countP Action.raises) ∧
      (t.overseer.terminated = some (.exit 0) ∧ (∀ pid, t.processes pid = none) ∨
        t.overseer.terminated = none ∧ t.Proceeds cfg) := by
  have hspawned : ¬ s.overseer.pc.Spawning :=
    Overseer.not_spawning_of_killpgReturn (reach_overseer h) (mem_overseerTrace.2 hret)
  refine ⟨?_, fun hnone => ?_, ?_⟩
  · have hrank := countP_isChild_add_le (fun s => ¬ s.overseer.pc.Spawning)
      (fun s a s' es hs hstep => ⟨fun hpc => hs (hstep.spawning hpc),
        fun pid child hf => hs (hstep.spawning_of_fork hf)⟩) h hspawned
      (leaving_of_killed h hsig hret hdelivered) he
    have hsum := sum_stepsLeft_le h s.overseer.children.alive
    omega
  · have hempty : s.overseer.children.alive = ∅ := by
      refine Finset.eq_empty_of_forall_notMem fun pid hpid => ?_
      have hsome := (isSome_processes_iff h pid).2 hpid
      rw [hnone pid] at hsome
      cases hsome
    let n := (Overseer.killTargets s.overseer).length
    have hrank := (Machine.countP_add_le_of_supply (fun s => Overseer.Childless n s.overseer)
      (fun s => s.overseer.stepsLeft n) Action.proceeds Action.raises (2 * (n + 5))
      (fun s a s' es hc hs => (step_cases hs).childless hc)
      ⟨hspawned, hempty, Nat.le_refl _⟩ he).2
    exact Nat.le_of_add_right_le hrank
  · have hleaves : Leaves cfg t := (Machine.run_of_exec hquiet he).invariant
      (fun _ t => Leaves cfg t) ⟨⟨tr, h⟩, hlives, hspawned, hclean⟩
      fun _ _ _ _ _ _ hl ha hs => hl.step hs ha
    exact hleaves.proceeds

/-- `smartShutdown` until the worker and the monitoring process have got their `SIGTERM`. -/
def delivered : List Action := smartShutdown.take 33 ++ [.deliverChild 11 .sigterm]

/-- The rest of it. -/
def afterDelivered : List Action := [.child 10 .ok, .child 10 .ok] ++ smartShutdown.drop 36

theorem isSome_exec_delivered :
    ((machine Overseer.oneWorker).exec (init Overseer.oneWorker) delivered).isSome := by
  decide

/-- The worker is left, and has taken notice. -/
def allTold : State :=
  (((machine Overseer.oneWorker).exec (init Overseer.oneWorker) delivered).get
    isSome_exec_delivered).1

theorem alive_allTold : allTold.overseer.children.alive = {10} := by decide

theorem delivered_allTold : allTold.Delivered := by
  intro pid p hp
  have hpid := (isSome_processes_iff (Machine.reach_exec isSome_exec_delivered) pid).1
    (Option.isSome_of_mem hp)
  obtain rfl : pid = 10 := Finset.mem_singleton.1 (alive_allTold ▸ hpid)
  have hpending : (allTold.processes 10).map (fun p => (p.pending .sigterm, p.pending .sigquit)) =
      some (false, false) := by
    decide
  rw [hp] at hpending
  exact Prod.mk.inj (Option.some.inj hpending)

theorem isSome_exec_afterDelivered :
    ((machine Overseer.oneWorker).exec allTold afterDelivered).isSome := by
  decide

/-- The worker makes two steps, and the overseer ends. -/
theorem shutdown_ends_smartShutdown : ∃ t tr',
    (machine Overseer.oneWorker).exec allTold afterDelivered = some (t, tr') ∧
    afterDelivered.countP Action.isChild ≤ 14 ∧
    t.overseer.terminated = some (.exit 0) ∧ ∀ pid, t.processes pid = none := by
  have hclean : Overseer.Clean allTold.overseer := ⟨by decide, id, by decide, by decide, by decide⟩
  have hreach : Reach Overseer.oneWorker _ allTold := Machine.reach_exec isSome_exec_delivered
  have hsig : Signal.sigterm = .sigterm ∨ Signal.sigterm = .sigquit := Or.inl rfl
  obtain ⟨hchildren, -, hend⟩ := shutdown_ends hreach hsig (by decide) delivered_allTold hclean
    (by decide) (by decide) (Option.some_get isSome_exec_afterDelivered).symm
  rw [alive_allTold] at hchildren
  refine ⟨_, _, (Option.some_get isSome_exec_afterDelivered).symm, hchildren, ?_⟩
  rcases hend with hend | ⟨hnone, -⟩
  · exact hend
  · exact absurd hnone (by decide)

end BladePSGI.Group
