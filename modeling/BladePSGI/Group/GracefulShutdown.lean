import BladePSGI.Group.Requests
import BladePSGI.Overseer.Graceful

/-!
# A graceful shutdown

The overseer is sent one `SIGTERM` and no other signal, no system call fails but with `EINTR`, no
exception is noticed at a worker's callback, no child is signalled from outside and none terminates
before the `SIGTERM` handler runs. `graceful` is the guard of these runs.

* `graceful_shutdown`: a worker that does not die by itself ends between two requests, and nothing
  ever makes it end earlier.
* `not_graceful_shutdown`: a worker that dies by itself may be serving a request, and the kernel may
  kill the overseer.
-/

namespace BladePSGI.Group

open Function Transition

variable {cfg : Overseer.Config} {s s' : State} {a : Action} {tr es : List Event} {pid : Pid}
  {A : Prop}

/-! ## The guard -/

/-- The overseer's `SIGTERM` handler has begun to run. -/
def SmartRequested (tr : List Event) : Prop := Overseer.SmartRequested (overseerTrace tr)

instance (tr : List Event) : Decidable (SmartRequested tr) :=
  inferInstanceAs (Decidable (Overseer.SmartRequested _))

theorem SmartRequested.append (h : SmartRequested tr) (es : List Event) :
    SmartRequested (tr ++ es) := by
  rw [SmartRequested, overseerTrace_append]
  exact List.mem_append_left _ h

/-- The call does not fail, or only with `EINTR`. -/
def Outcome.works : Outcome → Bool
  | .fails _ | .exception _ => false
  | _ => true

/-- No exception is noticed at the callback of a worker, and an auxiliary process does not end
unless `may`. -/
def Program.graceful (may : Bool) : Program → Outcome → Bool
  | .worker _, .perlException _ => false
  | .auxiliary ⟨_, .abort⟩, _ | .auxiliary ⟨_, .exit⟩, _ => may
  | _, o => o.works

/-- **The guard.** -/
def graceful (tr : List Event) (s : State) : Action → Bool
  | .overseer o => o.works
  | .deliver _ => true
  | .child pid o =>
    match s.processes pid with
    | none => true
    | some p => p.program.graceful (decide (SmartRequested tr)) o
  | .deliverChild _ _ => true
  | .raise .sigchld => true
  | .raise .sigterm => decide (.raised .sigterm ∉ tr)
  | .raise _ => false
  | .signal _ _ => false
  | .dies _ _ => decide (SmartRequested tr)
  | .killRunner => true

/-! ## Children that do what they are asked to -/

/-- No exception has left the callback. -/
def Worker.Pc.Quiet : Worker.Pc → Prop
  | .logException _ | .exit | .unwinding => False
  | _ => True

/-- The monitoring process is in its loop, or on the way to it. -/
def Monitoring.Pc.Quiet : Monitoring.Pc → Prop
  | .init _ | .allocate | .testRunnerDied | .select | .accept | .respond => True
  | _ => False

/-- A program that no exception has thrown out of its course, with `A` for: the `SIGTERM` handler
has begun to run. -/
def Program.Quiet (A : Prop) : Program → Prop
  | .worker w => w.pc.Quiet ∧ (w.terminated = true → A)
  | .auxiliary x => x.pc ≠ .unwinding
  | .monitoring m => m.pc.Quiet

/-- What a child does. -/
def ChildEvent.Quiet (A : Prop) : ChildEvent → Prop
  | .terminate _ => A
  | .setShouldExit _ | .killpg _ | .kill .. => False
  | _ => True

theorem ChildEvent.Quiet.mono {e : ChildEvent} {B : Prop} (h : e.Quiet A) (hAB : A → B) :
    e.Quiet B := by
  cases e <;> first | exact hAB h | exact h

theorem InitStep.quiet {pc : InitPc} {o : Outcome} {next : InitNext} {e : Option ChildEvent}
    (h : InitStep pc o next e) : ∀ e' ∈ e, e'.Quiet False := by
  cases h <;> simp [ChildEvent.Quiet]

theorem InitStep.not_works {pc : InitPc} {o : Outcome} {syscall strerror : String}
    {e : Option ChildEvent} (h : InitStep pc o (.throws syscall strerror) e) : o.works = false := by
  cases h <;> rfl

theorem Program.works_of_graceful {p : Program} {o : Outcome} {may : Bool}
    (h : p.graceful may o = true) :
    o.works = true ∨ ∃ x, p = .auxiliary x ∧ (x.pc = .abort ∨ x.pc = .exit) := by
  unfold graceful at h
  split at h
  · cases h
  · exact Or.inr ⟨_, rfl, Or.inl rfl⟩
  · exact Or.inr ⟨_, rfl, Or.inr rfl⟩
  · exact Or.inl h

theorem Worker.Step.quiet {w w' : Worker} {o : Outcome} {e : Option ChildEvent} {may : Bool}
    (h : Worker.Step w false o w' e) (hq : (Program.worker w).Quiet A)
    (hg : (Program.worker w).graceful may o = true) :
    (Program.worker w').Quiet A ∧ ∀ e' ∈ e, e'.Quiet A ∧
      ∀ status, e' = .terminate status → w.pc = .testTerminated := by
  obtain ⟨hpc, hterminated⟩ := hq
  have ho : o.works = true := by simpa using Program.works_of_graceful hg
  cases h with
  | init _ hi | initDone _ hi =>
    refine ⟨⟨trivial, hterminated⟩, fun e' he => ⟨(hi.quiet e' he).mono False.elim, ?_⟩⟩
    rintro status rfl
    exact (hi.quiet _ he).elim
  | initThrows _ hi => simp [hi.not_works] at ho
  | shouldExit _ h => cases h
  | terminated hpc h =>
    refine ⟨⟨‹_›, hterminated⟩, ?_⟩
    rintro e' ⟨⟩
    exact ⟨hterminated h, fun _ _ => hpc⟩
  | perlException => cases hg
  | fails => cases hg
  | exception => cases hg
  | logException hpc' => simp [hpc', Worker.Pc.Quiet] at hpc
  | exit hpc' => rcases hpc' with hpc' | hpc' <;> simp [hpc', Worker.Pc.Quiet] at hpc
  | _ => exact ⟨⟨trivial, hterminated⟩, by simp [ChildEvent.Quiet]⟩

theorem Auxiliary.Step.quiet {x x' : Auxiliary} {o : Outcome} {e : Option ChildEvent} {may : Bool}
    (h : Auxiliary.Step x o x' e) (hq : (Program.auxiliary x).Quiet A) (hmay : may = true → A)
    (hg : (Program.auxiliary x).graceful may o = true) :
    (Program.auxiliary x').Quiet A ∧ ∀ e' ∈ e, e'.Quiet A := by
  obtain ⟨name, pc⟩ := x
  cases h with
  | init _ hi | initDone _ hi =>
      exact ⟨by simp [Program.Quiet], fun e' he => (hi.quiet e' he).mono False.elim⟩
  | initThrows hpc hi =>
    obtain rfl := hpc
    have ho : o.works = true := by simpa using Program.works_of_graceful hg
    simp [hi.not_works] at ho
  | fails hpc | exception hpc =>
    obtain rfl := hpc
    cases hg
  | abort hpc =>
    obtain rfl := hpc
    exact ⟨hq, by simpa [ChildEvent.Quiet] using hmay hg⟩
  | exit hpc =>
    rcases hpc with rfl | rfl
    · exact ⟨hq, by simpa [ChildEvent.Quiet] using hmay hg⟩
    · exact absurd rfl hq
  | _ => exact ⟨by simp [Program.Quiet], by simp [ChildEvent.Quiet]⟩

theorem Monitoring.Step.quiet {m m' : Monitoring} {o : Outcome} {e : Option ChildEvent}
    {may : Bool} (h : Monitoring.Step m false false o m' e) (hq : (Program.monitoring m).Quiet A)
    (hg : (Program.monitoring m).graceful may o = true) :
    (Program.monitoring m').Quiet A ∧ ∀ e' ∈ e, e'.Quiet A := by
  have ho : o.works = true := by simpa using Program.works_of_graceful hg
  change m.pc.Quiet at hq
  cases h with
  | init _ hi | initDone _ hi => exact ⟨trivial, fun e' he => (hi.quiet e' he).mono False.elim⟩
  | initThrows _ hi => simp [hi.not_works] at ho
  | throws _ h => rcases h with ⟨_, _, rfl, -⟩ | ⟨_, rfl, -⟩ <;> cases ho
  | runnerDied _ h => cases h
  | setShouldExit hpc =>
    obtain ⟨workerPids, pc⟩ := m
    cases hpc <;> exact hq.elim
  | logRunnerDied hpc | logCrashed hpc | logSyscall hpc | killpg hpc | kill hpc | killpgReturn hpc
  | exit hpc => simp [hpc, Monitoring.Pc.Quiet] at hq
  | _ => exact ⟨trivial, by simp [ChildEvent.Quiet]⟩

/-- The invariant of a child. -/
structure Process.Quiet (A : Prop) (p : Process) : Prop where
  pending : ∀ sig, p.pending sig = true → sig = .sigterm ∧ A
  program : p.program.Quiet A

/-- What a child does in an event, when it runs `program` before. -/
def Program.Does (A : Prop) (program : Program) (e : ChildEvent) : Prop :=
  e.Quiet A ∧ ∀ w status, program = .worker w → e = .terminate status → w.pc = .testTerminated

namespace Process.Quiet

variable {p : Process} {program : Program} {o : Outcome} {e : Option ChildEvent} {may : Bool}
  {sig : Signal}

theorem step (hq : p.Quiet A) (hmay : may = true → A) (hg : p.program.graceful may o = true)
    (h : p.step false false o = some (program, e)) :
    program.Quiet A ∧ ∀ e' ∈ e, p.program.Does A e' := by
  have hprogram := hq.program
  cases Process.step_cases h with
  | worker hp h =>
    rw [hp] at hprogram hg ⊢
    obtain ⟨ht, he⟩ := h.quiet hprogram hg
    refine ⟨ht, fun e' hmem => ⟨(he e' hmem).1, fun w status hw => ?_⟩⟩
    obtain rfl := Program.worker.inj hw
    exact (he e' hmem).2 status
  | auxiliary hp h =>
    rw [hp] at hprogram hg ⊢
    obtain ⟨ht, he⟩ := h.quiet hprogram hmay hg
    exact ⟨ht, fun e' hmem => ⟨he e' hmem, by simp⟩⟩
  | monitoring hp h =>
    rw [hp] at hprogram hg ⊢
    obtain ⟨ht, he⟩ := h.quiet hprogram hg
    exact ⟨ht, fun e' hmem => ⟨he e' hmem, by simp⟩⟩

theorem handle (hq : p.Quiet A) (hs : p.pending sig = true) :
    (p.handle sig).1.Quiet A ∧ ∀ e ∈ (p.handle sig).2, p.program.Does A e := by
  obtain ⟨rfl, hA⟩ := hq.pending sig hs
  have hprogram := hq.program
  obtain ⟨program, _, _, _⟩ := p
  cases program with
  | worker w =>
    refine ⟨⟨?_, fun _ => hA⟩, by simp [Process.handle, Worker.handle]⟩
    change (if w.pc = .accepting then Worker.Pc.acceptInterrupted else w.pc).Quiet
    split_ifs
    · trivial
    · exact hprogram.1
  | auxiliary x =>
    exact ⟨hprogram, by simp [Process.handle, Auxiliary.handle, Program.Does, ChildEvent.Quiet, hA]⟩
  | monitoring m =>
    exact ⟨hprogram, by
      simp [Process.handle, Monitoring.handle, Program.Does, ChildEvent.Quiet, hA]⟩

theorem forked (overseer : Overseer.State) (child : Overseer.Child) :
    (Process.forked overseer child).Quiet A := by
  refine ⟨by simp [Process.forked], ?_⟩
  cases child <;> simp [Process.forked, Program.Quiet, Worker.Pc.Quiet, Monitoring.Pc.Quiet]

theorem mono {B : Prop} (hq : p.Quiet A) (hAB : A → B) : p.Quiet B := by
  refine ⟨fun sig hs => (hq.pending sig hs).imp_right hAB, ?_⟩
  have hprogram := hq.program
  cases h : p.program <;> rw [h] at hprogram
  case worker => exact hprogram.imp_right fun h hterminated => hAB (h hterminated)
  all_goals exact hprogram

end Process.Quiet

/-! ## The invariant -/

/-- The runs that meet the guard and in which the kernel does not kill the overseer. -/
abbrev GracefulRun (cfg : Overseer.Config) : List Event → State → Prop :=
  (machine cfg).Run (fun tr s a => graceful tr s a ∧ a ≠ .killRunner) (init cfg)

/-- **The invariant of the group.** -/
structure Quiet (cfg : Overseer.Config) (tr : List Event) (s : State) : Prop where
  overseer : Overseer.GracefulRun cfg (overseerTrace tr) s.overseer
  runner : s.runnerKilled = false
  processes : ∀ pid p, s.processes pid = some p → p.Quiet (SmartRequested tr)
  raised : s.overseer.pending .sigterm = true ∨ SmartRequested tr → .raised .sigterm ∈ tr
  events : ∀ pid e, .child pid e ∈ tr → e.Quiet (SmartRequested tr)

theorem ChildStep.runnerKilled {p : Process} {e : Option ChildEvent}
    (h : ChildStep s pid p e s' es) : s'.runnerKilled = s.runnerKilled := by
  cases h with
  | kill => exact runnerKilled_signal
  | _ => rfl

theorem ChildStep.mem_events {p : Process} {e : Option ChildEvent} {q : Pid} {e' : ChildEvent}
    (h : ChildStep s pid p e s' es) (hmem : .child q e' ∈ es) : q = pid ∧ e' ∈ e := by
  cases h <;> simp_all

theorem ChildStep.processes_quiet {p : Process} {e : Option ChildEvent}
    (h : ChildStep s pid p e s' es)
    (hs : ∀ q p, s.processes q = some p → p.Quiet A) (hp : p.Quiet A) (he : ∀ e' ∈ e, e'.Quiet A) :
    ∀ q p', s'.processes q = some p' → p'.Quiet A := by
  intro q p' hq
  obtain ⟨p₀, hp₀, hprogram, -, hpending⟩ := h.processes hq
  have hquiet : p₀.Quiet A := by
    rcases hp₀ with ⟨rfl, rfl⟩ | ⟨-, hp₀⟩
    · exact hp
    · exact hs q p₀ hp₀
  refine ⟨fun sig hsig => ?_, hprogram ▸ hquiet.program⟩
  rcases (hpending sig).1 hsig with hsig | rfl
  · exact hquiet.pending sig hsig
  · exact (he _ rfl).elim

namespace Quiet

theorem init (cfg : Overseer.Config) : Quiet cfg [] (init cfg) where
  overseer := .nil
  runner := rfl
  processes _ _ h := nomatch h
  raised h := by simp [Group.init, Overseer.init, SmartRequested, Overseer.SmartRequested,
    overseerTrace] at h
  events _ _ h := nomatch h

/-- As long as there are children, the overseer has not ended. -/
theorem runnerDied (hq : Quiet cfg tr s) (hreach : Reach cfg tr s) {p : Process}
    (hp : s.processes pid = some p) : s.runnerDied = false := by
  have halive := (isSome_processes_iff hreach pid).1 (by simp [hp])
  rcases (Overseer.calm_of_run hq.overseer).1.ended with h | ⟨-, hu⟩
  · simp [State.runnerDied, h, hq.runner]
  · have : pid ∈ s.overseer.children.unreaped := ProcessTable.mem_unreaped.2 (Or.inl halive)
    simp [hu] at this

/-- The next step of a child. -/
theorem program_step {o : Outcome} {p : Process} {program : Program} {e : Option ChildEvent}
    (hq : Quiet cfg tr s) (hreach : Reach cfg tr s) (hg : graceful tr s (.child pid o))
    (hp : s.processes pid = some p)
    (h : p.step s.runnerDied s.overseer.shouldExitImmediately o = some (program, e)) :
    program.Quiet (SmartRequested tr) ∧ ∀ e' ∈ e, p.program.Does (SmartRequested tr) e' := by
  rw [hq.runnerDied hreach hp, (Overseer.calm_of_run hq.overseer).1.flag] at h
  exact (hq.processes _ _ hp).step of_decide_eq_true (by simpa [graceful, hp] using hg) h

/-- What the step of a child does. -/
theorem child_step (hq : Quiet cfg tr s) (hreach : Reach cfg tr s) (hg : graceful tr s a)
    (h : Step cfg s a s' es) {e : ChildEvent} (he : .child pid e ∈ es) :
    ∃ p, s.processes pid = some p ∧ p.program.Does (SmartRequested tr) e := by
  cases h with
  | overseer | deliver => simp at he
  | raise | signal | dies | killRunner => simp at he
  | @child _ o p _ _ _ _ hp h hc =>
    obtain ⟨rfl, he⟩ := hc.mem_events he
    exact ⟨p, hp, (hq.program_step hreach hg hp h).2 e he⟩
  | @deliverChild _ _ p _ _ hp hpend _ hc =>
    obtain ⟨rfl, he⟩ := hc.mem_events he
    exact ⟨p, hp, ((hq.processes _ _ hp).handle hpend).2 e he⟩

theorem overseer_step (hq : Quiet cfg tr s) (hreach : Reach cfg tr s) (hg : graceful tr s a)
    (h : Step cfg s a s' es) :
    Overseer.GracefulRun cfg (overseerTrace (tr ++ es)) s'.overseer := by
  rw [overseerTrace_append]
  rcases h.overseer_step with ⟨ho, hes⟩ | ⟨b, hlift, hb⟩
  · rw [ho, hes, List.append_nil]
    exact hq.overseer
  · refine .snoc hq.overseer ?_ hb
    cases hlift with
    | run => exact hg
    | deliver => rfl
    | @raise sig =>
      cases sig with
      | sigterm =>
        have hnot : ¬ _ := fun h => of_decide_eq_true hg (hq.raised h)
        simpa [Overseer.graceful, SmartRequested] using hnot
      | sigchld => rfl
      | sigint | sigquit => cases hg
    | dies => exact hg
    | terminate he =>
      obtain ⟨p, -, hdoes, -⟩ := hq.child_step hreach hg h he
      exact decide_eq_true hdoes
    | setShouldExit he =>
      obtain ⟨p, -, hdoes, -⟩ := hq.child_step hreach hg h he
      exact hdoes.elim

/-- What the overseer's step does to the children. -/
theorem processes_foldl {overseer : Overseer.State} {es : List Overseer.Event} {b : Overseer.Action}
    (hq : Quiet cfg tr s)
    (hcalm : Overseer.Calm (SmartRequested (tr ++ es.map .overseer)) overseer)
    (hevents : ∀ e ∈ es, e.Calm (SmartRequested (tr ++ es.map .overseer)))
    (hiff : ∀ pid, ((es.foldl State.noteOverseer { s with overseer }).processes pid).isSome ↔
      pid ∈ overseer.children.alive)
    (h : (Overseer.machine cfg).step s.overseer b = some (overseer, es)) (p : Process)
    (hp : (es.foldl State.noteOverseer { s with overseer }).processes pid = some p) :
    p.Quiet (SmartRequested (tr ++ es.map .overseer)) := by
  have touched : ∀ {p₀ : Process}, p₀.Quiet (SmartRequested (tr ++ es.map .overseer)) →
      Touched pid es p₀ p → p.Quiet (SmartRequested (tr ++ es.map .overseer)) := by
    intro p₀ hp₀ ht
    refine ⟨fun sig hs => ?_, ht.program ▸ hp₀.program⟩
    rcases ht.pending sig hs with hs | hk | ⟨-, -, how, hterm⟩
    · exact hp₀.pending sig hs
    · exact hevents _ hk
    · -- no child is left when the overseer ends
      have hended := Overseer.terminated_of_mem (Overseer.step_cases h) hterm
      have hu := (hcalm.ended.resolve_left hended).2
      have halive := ProcessTable.mem_unreaped.2 (Or.inl ((hiff pid).1 (by simp [hp])))
      simp [hu] at halive
  rcases Group.processes_foldl hp with ⟨child, -, ht⟩ | ⟨p₀, hp₀, ht⟩
  · exact touched (.forked _ _) ht
  · exact touched ((hq.processes pid p₀ hp₀).mono (·.append _)) ht

/-- A `SIGTERM` has been sent before it is handled. -/
theorem raised_step (hq : Quiet cfg tr s) (h : Step cfg s a s' es)
    (hsig : s'.overseer.pending .sigterm = true ∨ SmartRequested (tr ++ es)) :
    .raised .sigterm ∈ tr ++ es := by
  rw [SmartRequested, overseerTrace_append] at hsig
  rcases h.overseer_step with ⟨ho, hes⟩ | ⟨b, hlift, hb⟩
  · rw [ho, hes, List.append_nil] at hsig
    exact List.mem_append_left es (hq.raised hsig)
  · have hold : s.overseer.pending .sigterm = true ∨ SmartRequested tr ∨ b = .raise .sigterm := by
      rcases hsig with hsig | hsig
      · exact (Overseer.sigterm_of_step (Overseer.step_cases hb) (Or.inl hsig)).imp_right Or.inr
      · rcases List.mem_append.1 hsig with hsig | hsig
        · exact Or.inr (Or.inl hsig)
        · exact (Overseer.sigterm_of_step (Overseer.step_cases hb) (Or.inr hsig)).imp_right Or.inr
    rcases hold with hp | hr | rfl
    · exact List.mem_append_left es (hq.raised (Or.inl hp))
    · exact List.mem_append_left es (hq.raised (Or.inr hr))
    · cases hlift
      cases h
      simp

theorem step (hq : Quiet cfg tr s) (hreach : Reach cfg tr s) (hg : graceful tr s a)
    (hkill : a ≠ .killRunner) (hs : (machine cfg).step s a = some (s', es)) :
    Quiet cfg (tr ++ es) s' := by
  have h := step_cases hs
  have hrun := hq.overseer_step hreach hg h
  obtain ⟨hcalm, hevents⟩ := Overseer.calm_of_run hrun
  have hiff := isSome_processes_iff (hreach.snoc trivial hs)
  have held : ∀ q p, s.processes q = some p → p.Quiet (SmartRequested (tr ++ es)) :=
    fun q p hp => (hq.processes q p hp).mono (·.append es)
  have hrunner : s'.runnerKilled = false := by
    have := hq.runner
    cases h with
    | overseer hk | deliver hk => exact runnerKilled_foldl.trans hk
    | child _ _ hc | deliverChild _ _ _ hc => exact hc.runnerKilled.trans this
    | signal => exact runnerKilled_signal.trans this
    | killRunner => exact absurd rfl hkill
    | _ => exact this
  refine ⟨hrun, hrunner, ?_, ?_, ?_⟩
  · cases h with
    | overseer _ h | deliver _ h =>
      rw [overseer_foldl] at hcalm hiff
      exact fun pid p => hq.processes_foldl hcalm
        (fun e he => hevents e (by simp [he])) hiff h p
    | @child pid o p _ _ _ _ hp h hc =>
      obtain ⟨hprogram, he⟩ := hq.program_step hreach hg hp h
      have hp' := hq.processes pid p hp
      exact hc.processes_quiet held (Process.Quiet.mono ⟨hp'.pending, hprogram⟩ (·.append es))
        fun e' h => (he e' h).1.mono (·.append es)
    | @deliverChild pid sig p _ _ hp hpend _ hc =>
      have hp' := hq.processes pid p hp
      obtain ⟨hprogram, he⟩ := hp'.handle hpend
      refine hc.processes_quiet held (Process.Quiet.mono ⟨fun sig' hs => ?_, hprogram⟩
        (·.append es))
        fun e' h => (he e' h).1.mono (·.append es)
      by_cases hsig : sig' = sig
      · simp [hsig] at hs
      · exact hp'.pending sig' (by simpa [hsig] using hs)
    | raise => exact held
    | signal => cases hg
    | @dies pid =>
      intro q p hp
      by_cases hqp : q = pid
      · simp [State.without, hqp] at hp
      · exact held q p (by simpa [State.without, hqp] using hp)
    | killRunner => exact absurd rfl hkill
  · exact hq.raised_step h
  · intro pid e he
    rcases List.mem_append.1 he with he | he
    · exact (hq.events pid e he).mono (·.append es)
    · obtain ⟨p, -, hdoes, -⟩ := hq.child_step hreach hg h he
      exact hdoes.mono (·.append es)

end Quiet

theorem quiet_of_run (h : GracefulRun cfg tr s) : Quiet cfg tr s := by
  refine h.invariant (Quiet cfg) (.init cfg) ?_
  rintro tr s a s' es hrun hq ⟨hg, hkill⟩ hs
  exact hq.step hrun.reach hg hkill hs

/-! ## The end of a worker -/

/-- How a child can be gone after a step. -/
theorem Step.gone (h : Step cfg s a s' es) (hp : (s.processes pid).isSome)
    (hgone : s'.processes pid = none) :
    (∃ status, a = .dies pid status) ∨ ∃ status, .child pid (.terminate status) ∈ es := by
  have stays : ∀ {t : State}, (t.processes pid).isSome = (s.processes pid).isSome →
      t.processes pid = none → False := by
    intro t ht hnone
    rw [hnone, hp] at ht
    cases ht
  have own : ∀ {q p e}, (s.processes q).isSome → ChildStep s q p e s' es →
      ∃ status, .child pid (.terminate status) ∈ es := by
    intro q p e hq hc
    obtain ⟨p₁, hp₁⟩ := Option.isSome_iff_exists.1 hq
    cases hc with
    | @terminate status =>
      by_cases hne : pid = q
      · exact ⟨status, by simp [hne]⟩
      · simp only [State.without, update_of_ne hne] at hgone
        simp [hgone] at hp
    | kill => exact (stays (isSome_processes_signal.trans (isSome_update hp₁ _)) hgone).elim
    | _ => exact (stays (isSome_update hp₁ _) hgone).elim
  cases h with
  | @overseer _ overseer es | @deliver _ overseer es =>
    have hsome : ((es.foldl State.noteOverseer { s with overseer }).processes pid).isSome :=
      isSome_processes_foldl.2 (Or.inl hp)
    rw [hgone] at hsome
    cases hsome
  | child hp' _ hc => exact Or.inr (own (by simp [hp']) hc)
  | deliverChild hp' _ _ hc => exact Or.inr (own (by simp [hp']) hc)
  | raise => exact (stays rfl hgone).elim
  | signal => exact (stays isSome_processes_signal hgone).elim
  | @dies q status =>
    by_cases hne : pid = q
    · exact Or.inl ⟨status, by rw [hne]⟩
    · simp only [State.without, update_of_ne hne] at hgone
      simp [hgone] at hp
  | killRunner => exact (stays Option.isSome_map hgone).elim

/-- The events of a step that ends a child. -/
theorem Step.terminate_events (h : Step cfg s a s' es) {status : WaitStatus}
    (he : .child pid (.terminate status) ∈ es) :
    es = [.child pid (.terminate status), .overseer (.died pid)] := by
  have own : ∀ {q p e}, ChildStep s q p e s' es →
      es = [.child pid (.terminate status), .overseer (.died pid)] := by
    intro q p e hc
    cases hc with
    | note hterminate =>
      obtain ⟨-, rfl⟩ := Event.child.inj (List.mem_singleton.1 he)
      exact absurd rfl (hterminate status)
    | _ => simp_all
  cases h with
  | child _ _ hc => exact own hc
  | deliverChild _ _ _ hc => exact own hc
  | _ => simp at he

/-- A child that ends its own run does so between two calls of the callback. -/
theorem Quiet.phase_of_terminate (hq : Quiet cfg tr s) (hreach : Reach cfg tr s)
    (hg : graceful tr s a) (h : Step cfg s a s' es) {status : WaitStatus}
    (he : .child pid (.terminate status) ∈ es) : phase (childTrace tr pid) = .idle := by
  obtain ⟨p, hp, -, hhead⟩ := hq.child_step hreach hg h he
  have hat := (phased_of_reach hreach).at_phase pid p hp
  cases hprogram : p.program with
  | worker w =>
    rw [hprogram] at hat
    change w.pc.At _ at hat
    rwa [hhead w status hprogram rfl] at hat
  | auxiliary | monitoring =>
    rw [hprogram] at hat
    exact hat

/-- **A graceful shutdown aborts no request.** No process calls `KillProcessGroup(SIGQUIT)`, the
exit flag stays as it is, the overseer ends after all its children, and a worker that does not die
by itself ends at the head of its loop, when no call of the callback has begun since the counter was
last increased. -/
theorem graceful_shutdown (h : GracefulRun cfg tr s) :
    (.overseer (.killpg .sigquit) ∉ tr ∧ ∀ pid, .child pid (.killpg .sigquit) ∉ tr) ∧
      s.overseer.shouldExitImmediately = false ∧
      (s.overseer.terminated ≠ none → ∀ pid, s.processes pid = none) ∧
      (∀ a s' es pid p w, graceful tr s a → a ≠ .killRunner →
        (machine cfg).step s a = some (s', es) → s.processes pid = some p →
        p.program = .worker w → s'.processes pid = none →
          (∃ status, a = .dies pid status) ∨ w.pc = .testTerminated) ∧
      ∀ l₁ l₂ pid status, tr = l₁ ++ .child pid (.terminate status) :: l₂ →
        phase (childTrace l₁ pid) = .idle := by
  have hq := quiet_of_run h
  obtain ⟨hcalm, hevents⟩ := Overseer.calm_of_run hq.overseer
  refine ⟨⟨fun hmem => ?_, fun pid hmem => hq.events pid _ hmem⟩, hcalm.flag, fun ht pid => ?_,
    fun a s' es pid p w hg _ hs hp hw hgone => ?_, ?_⟩
  · have := (hevents _ (mem_overseerTrace.2 hmem)).1
    cases this
  · have hu := (hcalm.ended.resolve_left ht).2
    rw [← Option.not_isSome_iff_eq_none, isSome_processes_iff h.reach]
    intro halive
    have := ProcessTable.mem_unreaped.2 (Or.inl halive)
    simp [hu] at this
  · have hstep := step_cases hs
    refine (hstep.gone (by simp [hp]) hgone).imp_right fun ⟨status, he⟩ => ?_
    obtain ⟨p', hp', -, hhead⟩ := hq.child_step h.reach hg hstep he
    obtain rfl := Option.some.inj (hp.symm.trans hp')
    exact hhead w status hw rfl
  · have heach : Each (fun l e => ∀ pid status, e = .child pid (.terminate status) →
        phase (childTrace l pid) = .idle) tr := by
      refine h.invariant (fun tr _ => Each _ tr) (each_nil _) ?_
      rintro tr s a s' es hrun ih ⟨hg, -⟩ hs
      refine ih.append fun m e m' hes pid status he => ?_
      subst he
      have hmem : .child pid (.terminate status) ∈ es := hes ▸ by simp
      rw [(step_cases hs).terminate_events hmem] at hes
      obtain rfl : m = [] := by
        rcases m with _ | ⟨x, _ | ⟨y, m⟩⟩
        · rfl
        all_goals simp at hes
      rw [List.append_nil]
      exact (quiet_of_run hrun).phase_of_terminate hrun.reach hg (step_cases hs) hmem
    exact fun l₁ l₂ pid status heq => heach l₁ _ l₂ heq pid status rfl

theorem graceful_shutdown_smartShutdown : ∃ tr s, GracefulRun Overseer.oneWorker tr s ∧
    .raised .sigterm ∈ tr ∧ .child 10 (.terminate (.exited 0)) ∈ tr ∧
    .overseer (.killpg .sigquit) ∉ tr := by
  have h := Machine.Run.exec (g := fun tr s a => graceful tr s a && decide (a ≠ .killRunner)) .nil
    (Option.some_get isSome_exec_smartShutdown).symm (by decide)
  have hrun : GracefulRun Overseer.oneWorker _ _ := h.mono fun tr s a hg => by simpa using hg
  exact ⟨_, _, hrun, by decide, by decide, (graceful_shutdown hrun).1.1⟩

/-- The worker accepts a request, the `SIGTERM` handler runs, and the worker dies. -/
def abortedRequest : List Action :=
  startup ++ [.child 10 .ok, .child 10 .ok, .child 10 .ok, .child 10 .ok, .child 10 .ok,
    .child 10 .ok, .child 10 .ok, .child 10 .ok, .child 10 .ok, .child 10 .ok, .raise .sigterm,
    .deliver .sigterm, .overseer .ok, .overseer .ok, .overseer .ok, .overseer .ok,
    .dies 10 (.signaled 11)]

theorem isSome_exec_abortedRequest :
    ((machine Overseer.oneWorker).exec (init Overseer.oneWorker) abortedRequest).isSome := by
  decide

/-- After the `SIGTERM` handler has run, the overseer is killed, and the monitoring process sets the
exit flag. -/
def killedRunner : List Action :=
  startup ++ [.child 11 .ok, .child 11 .ok, .child 11 .ok, .child 11 .ok, .raise .sigterm,
    .deliver .sigterm, .overseer .ok, .overseer .ok, .overseer .ok, .overseer .ok, .killRunner,
    .child 11 .ok, .child 11 .ok]

theorem isSome_exec_killedRunner :
    ((machine Overseer.oneWorker).exec (init Overseer.oneWorker) killedRunner).isSome := by
  decide

/-- The counterexamples to the graceful shutdown without exceptions: after the `SIGTERM` a worker
may die by itself in the middle of a request, and a killed overseer leaves the exit flag set. -/
theorem not_graceful_shutdown :
    (¬ ∀ (cfg : Overseer.Config) (tr : List Event) (s : State),
      (machine cfg).Run (fun tr s a => graceful tr s a) (init cfg) tr s →
        ∀ l₁ l₂ pid status, tr = l₁ ++ .dies pid status :: l₂ → phase (childTrace l₁ pid) = .idle) ∧
    ¬ ∀ (cfg : Overseer.Config) (tr : List Event) (s : State),
      (machine cfg).Run (fun tr s a => graceful tr s a) (init cfg) tr s →
        s.overseer.shouldExitImmediately = false := by
  constructor
  · intro h
    let l₁ : List Event := [.overseer (.fork 10 (.worker 0)), .overseer (.fork 11 .monitoring),
      .overseer (.log .startupComplete), .child 10 .setDeathSignal, .child 10 .unblockSignals,
      .child 10 (.setWorkerStatus 0 '_'), .child 10 .callBegin, .child 10 .accepted,
      .raised .sigterm, .overseer (.handlerBegin .sigterm), .overseer (.handlerReturn .sigterm)]
    have hphase := h Overseer.oneWorker _ _ (Machine.Run.exec (g := graceful) .nil
      (Option.some_get isSome_exec_abortedRequest).symm (by decide)) l₁ [.overseer (.died 10)] 10
      (.signaled 11) (by decide)
    exact absurd hphase (by decide)
  · intro h
    have hflag := h Overseer.oneWorker _ _ (Machine.Run.exec (g := graceful) .nil
      (Option.some_get isSome_exec_killedRunner).symm (by decide))
    exact absurd hflag (by decide)

end BladePSGI.Group
