import BladePSGI.Overseer.Control
import Mathlib.Algebra.GroupWithZero.Nat

/-!
# The exit status of the overseer

`exit(0)` is called when no child is left; that a child was waited for and the loop went on means
that `_mainapp_shutdown` was found set, so a shutdown had been requested. A child death that finds
it clear ends the overseer with status 1.

* `exit_zero`: what `exit(0)` says about the past.
* `unexpectedDeath_ends`: what a death that is tested while no shutdown was requested leads to.
* `exit_status`: both.
-/

namespace BladePSGI.Overseer

open Function Transition ProcessTable

variable {cfg : Config} {s s' : State} {tr es : List Event} {a : Action}

/-! ## Exit status 0 -/

/-- The handler run has set `_mainapp_shutdown`. -/
def Frame.PastFlag (f : Frame) : Prop :=
  (f.sig = .sigterm ∨ f.sig = .sigint) ∧ (f.pc = .writeSelfPipe ∨ f.pc = .return)

/-- A handler of a shutdown request has returned. -/
def Requested (tr : List Event) : Prop :=
  .handlerReturn .sigterm ∈ tr ∨ .handlerReturn .sigint ∈ tr

/-- The main program has waited for a child and not found `_mainapp_shutdown` set since. -/
def Pc.Handling (pc : Pc) : Prop :=
  (∃ pid status, pc = .handleChildProcessDeath pid status) ∨
    (∃ found pid status, pc = .testShutdown found pid status) ∨ pc.Final

theorem handling_mainStep (h : MainStep cfg s s' es) (hp : s.pc.Handling) :
    s'.pc.Handling ∨ s.shutdown = true := by
  rcases hp with ⟨pid, status, hpc⟩ | ⟨found, pid, status, hpc⟩ | hfinal
  · left
    cases h <;> simp_all [Pc.Handling]
    dsimp only [handleChildProcessDeath]
    split_ifs <;> simp [Pc.Final]
  · cases h <;> simp_all [Pc.Handling, Pc.Final]
  · exact Or.inl (Or.inr (Or.inr (final_mainStep h hfinal)))

theorem handling_of_reap (h : MainStep cfg s s' es) {pid : Pid} (hr : .reap pid ∈ es) :
    s'.pc.Handling := by
  cases h with
  | reap => exact Or.inl ⟨_, _, rfl⟩
  | _ => simp at hr

/-- **The invariant behind the exit status.** -/
structure Account (tr : List Event) (s : State) : Prop where
  frames : ∀ f ∈ s.handlers, .handlerBegin f.sig ∈ tr
  begun : s.shutdown = true → .handlerBegin .sigterm ∈ tr ∨ .handlerBegin .sigint ∈ tr
  ran : s.shutdown = true → Requested tr ∨ ∃ f ∈ s.handlers, f.PastFlag
  reaped : (∃ pid, .reap pid ∈ tr) → s.shutdown = true ∨ s.pc.Handling
  forked : (∃ i, s.pc = .spawnAuxiliary i) ∨ s.pc = .spawnWorker 0 ∨
    ∃ pid child, .fork pid child ∈ tr

namespace Account

theorem init (cfg : Config) : Account [] (init cfg) := by
  constructor <;> simp [Overseer.init]

theorem forked_mainStep (hacc : Account tr s) (h : MainStep cfg s s' es) :
    (∃ i, s'.pc = .spawnAuxiliary i) ∨ s'.pc = .spawnWorker 0 ∨
      ∃ pid child, .fork pid child ∈ tr ++ es := by
  have hf := hacc.forked
  have old : (∃ pid child, .fork pid child ∈ tr) → (∃ i, s'.pc = .spawnAuxiliary i) ∨
      s'.pc = .spawnWorker 0 ∨ ∃ pid child, .fork pid child ∈ tr ++ es :=
    fun ⟨pid, child, h⟩ => Or.inr (Or.inr ⟨pid, child, List.mem_append_left es h⟩)
  cases h with
  | auxiliariesDone => exact Or.inr (Or.inl rfl)
  | forkAuxiliaryFails hpc => exact Or.inl ⟨_, hpc⟩
  | forkAuxiliary | setPIDThrows | forkWorker | forkMonitoring =>
    exact Or.inr (Or.inr ⟨_, _, List.mem_append_right tr List.mem_cons_self⟩)
  | workersDone hpc hle =>
    rcases hf with ⟨i, h⟩ | h | h
    · simp [h] at hpc
    · have := cfg.nworkers_pos
      simp only [h, Pc.spawnWorker.injEq] at hpc
      omega
    · exact old h
  | forkWorkerFails hpc =>
    rcases hf with ⟨i, h⟩ | h | h
    · simp [h] at hpc
    · exact Or.inr (Or.inl h)
    · exact old h
  | throws hpc =>
    rcases hf with ⟨i, h⟩ | h | h
    · simp [h] at hpc
    · simp [h] at hpc
    · exact old h
  | setShouldExit hpc =>
    rcases hf with ⟨i, h⟩ | h | h
    · simp [h] at hpc
    · simp [h] at hpc
    · exact old h
  | _ =>
    rcases hf with ⟨i, h⟩ | h | h
    · simp_all
    · simp_all
    · exact old h

theorem mainStep (hacc : Account tr s) (hh : s.handlers = []) (h : MainStep cfg s s' es) :
    Account (tr ++ es) s' := by
  obtain ⟨hshutdown, hhandlers, -⟩ := frame_mainStep h
  constructor
  case frames => simp [hhandlers, hh]
  case begun =>
    rw [hshutdown]
    exact fun hs => (hacc.begun hs).imp (List.mem_append_left es) (List.mem_append_left es)
  case ran =>
    rw [hshutdown]
    intro hs
    rcases hacc.ran hs with hr | ⟨f, hf, -⟩
    · exact Or.inl (hr.imp (List.mem_append_left es) (List.mem_append_left es))
    · simp [hh] at hf
  case reaped =>
    rintro ⟨pid, hp⟩
    rw [hshutdown]
    rcases List.mem_append.1 hp with hp | hp
    · rcases hacc.reaped ⟨pid, hp⟩ with hs | hp
      · exact Or.inl hs
      · exact (handling_mainStep h hp).symm
    · exact Or.inr (handling_of_reap h hp)
  case forked => exact hacc.forked_mainStep h

/-- A step that the main program does not make. -/
theorem congr (hacc : Account tr s) (hpc : s'.pc = s.pc)
    (hframes : ∀ f ∈ s'.handlers, .handlerBegin f.sig ∈ tr ++ es)
    (hshutdown : s'.shutdown = true → s.shutdown = true)
    (hran : (∃ f ∈ s.handlers, f.PastFlag) → Requested (tr ++ es) ∨ ∃ f ∈ s'.handlers, f.PastFlag)
    (hr : ∀ pid, .reap pid ∉ es) (hkeep : s.shutdown = true → s'.shutdown = true) :
    Account (tr ++ es) s' where
  frames := hframes
  begun hs := (hacc.begun (hshutdown hs)).imp (List.mem_append_left es) (List.mem_append_left es)
  ran hs := (hacc.ran (hshutdown hs)).elim
    (fun h => Or.inl (h.imp (List.mem_append_left es) (List.mem_append_left es))) hran
  reaped := by
    rintro ⟨pid, hp⟩
    rw [hpc]
    rcases List.mem_append.1 hp with hp | hp
    · exact (hacc.reaped ⟨pid, hp⟩).imp_left hkeep
    · exact absurd hp (hr pid)
  forked := by
    rw [hpc]
    exact hacc.forked.imp_right (Or.imp_right fun ⟨pid, child, h⟩ =>
      ⟨pid, child, List.mem_append_left es h⟩)

theorem handlerStep (hacc : Account tr s) (hc : Control s) {f : Frame} {rest : List Frame}
    (hh : s.handlers = f :: rest) (h : HandlerStep cfg s rest f s' es) : Account (tr ++ es) s' := by
  have hframes := hacc.frames
  have hf := hc.valid f (hh ▸ List.mem_cons_self)
  rw [hh] at hframes
  cases h with
  | @setShutdown sig =>
    have hsig : sig = .sigterm ∨ sig = .sigint := hf
    rw [List.append_nil]
    refine ⟨by simpa using hframes, fun _ => ?_,
      fun _ => Or.inr ⟨_, List.mem_cons_self, hsig, Or.inl rfl⟩,
      fun _ => Or.inl rfl, hacc.forked⟩
    have := hframes _ List.mem_cons_self
    rcases hsig with rfl | rfl
    · exact Or.inl this
    · exact Or.inr this
  | «return» =>
    refine hacc.congr rfl ?_ id ?_ (by simp) id
    · simp_all
    · rintro ⟨f, hf, hp⟩
      rw [hh, List.mem_cons] at hf
      rcases hf with rfl | hf
      · exact Or.inl (hp.1.imp (fun h => by simp_all) fun h => by simp_all)
      · exact Or.inr ⟨f, hf, hp⟩
  | _ =>
    refine hacc.congr rfl ?_ id ?_ (by simp) id
    · simp_all
    · simp_all [Frame.PastFlag, Requested]

theorem step (hacc : Account tr s) (hc : Control s) (h : Step cfg s a s' es) :
    Account (tr ++ es) s' := by
  have hframes := hacc.frames
  cases h with
  | main _ hh h => exact hacc.mainStep hh h
  | handler _ hh h => exact hacc.handlerStep hc hh h
  | deliver h =>
    refine hacc.congr rfl ?_ id ?_ (by simp) id
    · simp_all
    · exact fun ⟨f, hf, hp⟩ => Or.inr ⟨f, List.mem_cons_of_mem _ hf, hp⟩
  | _ =>
      exact hacc.congr rfl (fun f hf => List.mem_append_left _ (hframes f hf)) id Or.inr (by simp)
        id

end Account

theorem account_of_reach (h : Reach cfg tr s) : Account tr s := by
  refine h.invariant Account (.init cfg) ?_
  rintro tr s a s' es hreach hacc - hs
  exact hacc.step (control_of_reach hreach) (step_cases hs)

/-- The only call of `exit(0)`. -/
theorem terminated_exit_zero (h : Step cfg s a s' es) (ht : s'.terminated = some (.exit 0)) :
    (s.terminated = some (.exit 0) ∧ ∀ pid child, .fork pid child ∉ es) ∨
      (s.pc = .waitpid ∧ s.handlers = [] ∧ s.children.unreaped = ∅ ∧
        es = [.log .shuttingDown, .terminate (.exit 0)]) := by
  cases h with
  | main hrun hh h =>
    right
    cases h with
    | noChildren hpc hu => exact ⟨hpc, hh, hu, rfl⟩
    | @erase found => cases found <;> simp [erase, hrun] at ht
    | _ => simp [hrun] at ht
  | handler hrun _ h => cases h <;> simp [hrun] at ht
  | deliver h => exact absurd h.1 (by simp [show s.terminated = _ from ht])
  | _ => exact Or.inl ⟨ht, by simp⟩

/-- **What `exit(0)` says.** A shutdown was requested and every child was waited for. -/
theorem exit_zero (h : Reach cfg tr s) (ht : s.terminated = some (.exit 0)) :
    Requested tr ∧ ∀ pid child, .fork pid child ∈ tr → .reap pid ∈ tr := by
  refine h.invariant (fun tr s => s.terminated = some (.exit 0) →
    Requested tr ∧ ∀ pid child, .fork pid child ∈ tr → .reap pid ∈ tr) (by simp [init]) ?_ ht
  rintro tr s a s' es hreach ih - hs ht
  rcases terminated_exit_zero (step_cases hs) ht with ⟨ht, hfork⟩ | ⟨hpc, hh, hu, rfl⟩
  · obtain ⟨hreq, hall⟩ := ih ht
    refine ⟨hreq.imp (List.mem_append_left es) (List.mem_append_left es), fun pid child hf => ?_⟩
    have := (List.mem_append.1 hf).resolve_right (hfork pid child)
    exact List.mem_append_left es (hall pid child this)
  · have hacc := account_of_reach hreach
    have hreaped : ∀ pid child, .fork pid child ∈ tr → .reap pid ∈ tr := by
      intro pid child hf
      by_contra hr
      have := ((recorded_of_reach hreach).unreaped pid).2 ⟨⟨child, hf⟩, hr⟩
      simp [hu] at this
    have hforked : ∃ pid child, .fork pid child ∈ tr := by simpa [hpc] using hacc.forked
    obtain ⟨pid, child, hf⟩ := hforked
    have hshutdown : s.shutdown = true := by
      simpa [hpc, Pc.Handling, Pc.Final] using hacc.reaped ⟨pid, hreaped pid child hf⟩
    have hreq : Requested tr := by simpa [hh] using hacc.ran hshutdown
    refine ⟨hreq.imp (List.mem_append_left _) (List.mem_append_left _), fun pid child hf => ?_⟩
    have hf' : .fork pid child ∈ tr := by simpa using hf
    exact List.mem_append_left _ (hreaped pid child hf')

/-! ## An unexpected death -/

/-- The main program is in `HandleUnexpectedChildProcessDeath` for the pid. -/
inductive Pc.Failing (pid : Pid) : Pc → Prop
  | handle (process status) : Failing pid (.handleUnexpectedDeath process pid status)
  | log (process status) : Failing pid (.logUnexpectedDeath process pid status)
  | call : Failing pid (.killProcessGroup .sigquit (.unexpectedDeath pid))
  | kill (todo) : Failing pid (.kill .sigquit todo (.unexpectedDeath pid))
  | exit : Failing pid (.exit (.unexpectedDeath pid))

theorem Pc.Failing.eq {pid : Pid} {pc : Pc} (h : pc.Failing pid) :
    (∃ process status, pc = .handleUnexpectedDeath process pid status) ∨
      (∃ process status, pc = .logUnexpectedDeath process pid status) ∨
      pc = .killProcessGroup .sigquit (.unexpectedDeath pid) ∨
      (∃ todo, pc = .kill .sigquit todo (.unexpectedDeath pid)) ∨
        pc = .exit (.unexpectedDeath pid) := by
  cases h <;> simp

/-- The exit flag was set by a call of `SetShouldExitImmediately` in the trace. -/
def FlagSet (tr : List Event) (s : State) : Prop :=
  (∃ changed, .setShouldExit changed ∈ tr) ∧ s.shouldExitImmediately = true

/-- How the overseer may end after an unexpected death: with status 1, after
`KillProcessGroup(SIGQUIT)`, and with the exit flag set unless the handler of `SIGQUIT` came first;
or with status 3 because a handler could not write to the self-pipe. -/
def EndsFailed (tr : List Event) (s : State) (how : Termination) : Prop :=
  (how = .exit 1 ∧ .killpgReturn .sigquit ∈ tr ∧ (FlagSet tr s ∨ .handlerBegin .sigquit ∈ tr)) ∨
    how = .exit 3

/-- **The invariant of the way out**, with the trace since the test of `_mainapp_shutdown`. -/
structure Dying (pid : Pid) (tr : List Event) (s : State) : Prop where
  control : Control s
  failing : s.pc.Failing pid
  flag : (∃ process status, s.pc = .handleUnexpectedDeath process pid status) ∨ FlagSet tr s
  called : ∀ caller, s.pc = .exit caller → .killpgReturn .sigquit ∈ tr
  frames : ∀ f ∈ s.handlers, f.pc = .exit → .killpgReturn .sigquit ∈ tr
  begun : ∀ f ∈ s.handlers, .handlerBegin f.sig ∈ tr
  noReap : ∀ q, .reap q ∉ tr
  ends : ∀ how, s.terminated = some how → EndsFailed tr s how

theorem FlagSet.append (h : FlagSet tr s)
    (hflag : s.shouldExitImmediately = true → s'.shouldExitImmediately = true) :
    FlagSet (tr ++ es) s' :=
  ⟨h.1.imp fun _ => List.mem_append_left es, hflag h.2⟩

theorem EndsFailed.append {how : Termination} (h : EndsFailed tr s how)
    (hflag : s.shouldExitImmediately = true → s'.shouldExitImmediately = true) :
    EndsFailed (tr ++ es) s' how := by
  rcases h with ⟨h₁, h₂, h₃⟩ | h
  · exact Or.inl ⟨h₁, List.mem_append_left es h₂,
      h₃.imp (·.append hflag) (List.mem_append_left es)⟩
  · exact Or.inr h

namespace Dying

variable {pid : Pid}

theorem mainStep (hd : Dying pid tr s) (hrun : s.terminated = none) (hh : s.handlers = [])
    (h : MainStep cfg s s' es) : Dying pid (tr ++ es) s' := by
  have hc := hd.control.mainStep hh h
  obtain ⟨-, hfailing, hflag, hcalled, -, -, hnoReap, -⟩ := hd
  cases h with
  | setShouldExit hpc =>
    rcases hpc with ⟨process, _, status, hpc, rfl, rfl⟩ | ⟨_, _, hpc, -⟩ | ⟨_, _, hpc, -⟩ <;>
      rw [hpc] at hfailing <;> cases hfailing
    refine ⟨hc, ?_, Or.inr ⟨⟨_, List.mem_append_right tr List.mem_cons_self⟩, rfl⟩,
      ?_, by simp [hh], by simp [hh], by simp [hnoReap], by simp [hrun]⟩
    all_goals dsimp only; split_ifs
    · exact .call
    · exact .log process status
    all_goals simp
  | logUnexpectedDeath hpc =>
    rw [hpc] at hfailing
    cases hfailing
    exact ⟨hc, .call, Or.inr ((hflag.resolve_left (by simp [hpc])).append id), by simp,
      by simp [hh], by simp [hh], by simp [hnoReap], by simp [hrun]⟩
  | killpg hpc =>
    rw [hpc] at hfailing
    cases hfailing
    exact ⟨hc, .kill _, Or.inr ((hflag.resolve_left (by simp [hpc])).append id), by simp,
      by simp [hh], by simp [hh], by simp [hnoReap], by simp [hrun]⟩
  | kill hpc =>
    rw [hpc] at hfailing
    cases hfailing
    exact ⟨hc, .kill _, Or.inr ((hflag.resolve_left (by simp [hpc])).append id), by simp,
      by simp [hh], by simp [hh], by simp [hnoReap], by simp [hrun]⟩
  | killpgReturn hpc =>
    rw [hpc] at hfailing
    cases hfailing
    exact ⟨hc, .exit, Or.inr ((hflag.resolve_left (by simp [hpc])).append id), by simp,
      by simp [hh], by simp [hh], by simp [hnoReap], by simp [hrun]⟩
  | exit hpc =>
    have hf := hflag.resolve_left (by simp [hpc])
    refine ⟨hc, hfailing, Or.inr (hf.append id), fun caller h => ?_, by simp [hh], by simp [hh],
      by simp [hnoReap], ?_⟩
    · exact List.mem_append_left _ (hcalled caller h)
    · rintro how ⟨⟩
      exact Or.inl ⟨rfl, List.mem_append_left _ (hcalled _ hpc), Or.inl (hf.append id)⟩
  | _ =>
    rcases hfailing.eq with ⟨_, _, h⟩ | ⟨_, _, h⟩ | h | ⟨_, h⟩ | h <;> simp_all

/-- A step that the main program does not make. -/
theorem congr (hd : Dying pid tr s) (hc : Control s') (hpc : s'.pc = s.pc)
    (hflag : s.shouldExitImmediately = true → s'.shouldExitImmediately = true)
    (hframes : ∀ f ∈ s'.handlers, f.pc = .exit → .killpgReturn .sigquit ∈ tr ++ es)
    (hbegun : ∀ f ∈ s'.handlers, .handlerBegin f.sig ∈ tr ++ es) (hr : ∀ q, .reap q ∉ es)
    (hends : ∀ how, s'.terminated = some how → s.terminated = some how ∨
      EndsFailed (tr ++ es) s' how) :
    Dying pid (tr ++ es) s' where
  control := hc
  failing := hpc ▸ hd.failing
  flag := by rw [hpc]; exact hd.flag.imp_right (·.append hflag)
  called caller h := List.mem_append_left es (hd.called caller (hpc ▸ h))
  frames := hframes
  begun := hbegun
  noReap q := by simp [hd.noReap, hr]
  ends how h := (hends how h).elim (fun h => (hd.ends how h).append hflag) id

theorem handlerStep (hd : Dying pid tr s) {f : Frame} {rest : List Frame}
    (hh : s.handlers = f :: rest) (h : HandlerStep cfg s rest f s' es) :
    Dying pid (tr ++ es) s' := by
  have hc := hd.control.handlerStep hh h
  have hvalid := hd.control.valid f (hh ▸ List.mem_cons_self)
  have hframes := hd.frames
  have hbegun := hd.begun
  rw [hh, List.forall_mem_cons] at hframes hbegun
  have hframes' : ∀ g ∈ rest, g.pc = .exit → .killpgReturn .sigquit ∈ tr ++ es :=
    fun g hg h => List.mem_append_left es (hframes.2 g hg h)
  have hbegun' : ∀ g ∈ rest, .handlerBegin g.sig ∈ tr ++ es :=
    fun g hg => List.mem_append_left es (hbegun.2 g hg)
  have hb := List.mem_append_left es hbegun.1
  cases h with
  | «return» => exact hd.congr hc rfl id hframes' hbegun' (by simp) fun _ => Or.inl
  | killpgReturn =>
    exact hd.congr hc rfl id (List.forall_mem_cons.2 ⟨by simp, hframes'⟩)
      (List.forall_mem_cons.2 ⟨hb, hbegun'⟩) (by simp) fun _ => Or.inl
  | writeFails =>
    refine hd.congr hc rfl id ?_ ?_ (by simp) ?_
    · rw [hh]
      exact List.forall_mem_cons.2 ⟨by simp, hframes'⟩
    · rw [hh]
      exact List.forall_mem_cons.2 ⟨hb, hbegun'⟩
    · rintro how ⟨⟩
      exact Or.inr (Or.inr rfl)
  | exit =>
    have hret := List.mem_append_left [Event.terminate (.exit 1)] (hframes.1 rfl)
    refine hd.congr hc rfl id ?_ ?_ (by simp) ?_
    · rw [hh]
      exact List.forall_mem_cons.2 ⟨fun _ => hret, hframes'⟩
    · rw [hh]
      exact List.forall_mem_cons.2 ⟨hb, hbegun'⟩
    · rintro how ⟨⟩
      obtain rfl : _ = Signal.sigquit := hvalid
      exact Or.inr (Or.inl ⟨rfl, hret, Or.inr hb⟩)
  | _ =>
    exact hd.congr hc rfl id (List.forall_mem_cons.2 ⟨by simp, hframes'⟩)
      (List.forall_mem_cons.2 ⟨hb, hbegun'⟩) (by simp) fun _ => Or.inl

theorem step (hd : Dying pid tr s) (h : Step cfg s a s' es) : Dying pid (tr ++ es) s' := by
  have hc := hd.control.step h
  have hframes : ∀ f ∈ s.handlers, f.pc = .exit → .killpgReturn .sigquit ∈ tr ++ es :=
    fun f hf h => List.mem_append_left es (hd.frames f hf h)
  have hbegun : ∀ f ∈ s.handlers, .handlerBegin f.sig ∈ tr ++ es :=
    fun f hf => List.mem_append_left es (hd.begun f hf)
  cases h with
  | main hrun hh h => exact hd.mainStep hrun hh h
  | handler _ hh h => exact hd.handlerStep hh h
  | deliver =>
    exact hd.congr hc rfl id (List.forall_mem_cons.2 ⟨by simp, hframes⟩)
      (List.forall_mem_cons.2 ⟨by simp, hbegun⟩) (by simp) fun _ => Or.inl
  | setShouldExit => exact hd.congr hc rfl (fun _ => rfl) hframes hbegun (by simp) fun _ => Or.inl
  | _ => exact hd.congr hc rfl id hframes hbegun (by simp) fun _ => Or.inl

theorem of_reach (h : (machine cfg).Reach s tr s') (hd : Dying pid [] s) : Dying pid tr s' := by
  refine h.invariant (Dying pid) hd ?_
  rintro tr s a s' es - hd - hs
  exact hd.step (step_cases hs)

/-- The test of `_mainapp_shutdown` that finds it clear. -/
theorem of_test (h : Reach cfg tr s) {found : Found} {status : WaitStatus}
    (hpc : s.pc = .testShutdown found pid status) (hh : s.handlers = [])
    (hterm : .handlerBegin .sigterm ∉ tr) (hint : .handlerBegin .sigint ∉ tr) {o : Outcome}
    (hs : (machine cfg).step s (.run o) = some (s', es)) : Dying pid [] s' ∧ es = [] := by
  have hshutdown : s.shutdown ≠ true := fun h' => by
    simpa [hterm, hint] using (account_of_reach h).begun h'
  have hnot := not_abort (h.snoc trivial hs)
  cases step_cases hs with
  | handler _ hh' _ => simp [hh] at hh'
  | main hrun _ hm =>
    have hc := (control_of_reach h).mainStep hh hm
    cases hm with
    | unexpectedDeath hpc' =>
      rw [hpc] at hpc'
      cases hpc'
      exact ⟨⟨hc, .handle _ _, Or.inl ⟨_, _, rfl⟩, by simp, by simp [hh], by simp [hh], by simp,
        by simp [hrun]⟩, rfl⟩
    | noAuxiliaryProcess => exact absurd rfl hnot
    | expectedDeath _ h' => exact absurd h' hshutdown
    | throws hpc' | setShouldExit hpc' => simp [hpc] at hpc'
    | _ => simp_all

end Dying

/-! ## The way out has an end -/

/-- How many steps a handler run has left, where `n` pids are to be signalled. -/
def HandlerPc.remaining (n : ℕ) : HandlerPc → ℕ
  | .entry => n + 5
  | .setShutdown => 3
  | .writeSelfPipe => 2
  | .return => 1
  | .killProcessGroup => n + 3
  | .kill todo => todo.length + 2
  | .exit => 1

/-- How many steps of its own `HandleUnexpectedChildProcessDeath` has left. -/
def Pc.remaining (n : ℕ) : Pc → ℕ
  | .handleUnexpectedDeath .. => n + 5
  | .logUnexpectedDeath .. => n + 4
  | .killProcessGroup .. => n + 3
  | .kill _ todo _ => todo.length + 2
  | .exit _ => 1
  | _ => 0

def State.remaining (s : State) : ℕ :=
  match s.terminated with
  | some _ => 0
  | none =>
    (s.handlers.map fun f => f.pc.remaining (killTargets s).length).sum +
      s.pc.remaining (killTargets s).length

theorem remaining_eq (hrun : s.terminated = none) :
    s.remaining = (s.handlers.map fun f => f.pc.remaining (killTargets s).length).sum +
      s.pc.remaining (killTargets s).length := by
  simp only [State.remaining, hrun]

/-- The overseer takes its own steps only, and its system calls succeed. -/
abbrev OwnRun (cfg : Config) : State → List Event → State → Prop :=
  (machine cfg).Run fun _ _ a => a = .run .ok

/-- What a step of the overseer on its way out keeps. -/
def Leaving (pid : Pid) (s : State) : Prop :=
  s.pc.Failing pid ∧ (s.terminated = none ∨ s.terminated = some (.exit 1))

theorem own_mainStep {pid : Pid} (hfailing : s.pc.Failing pid) (hrun : s.terminated = none)
    (hh : s.handlers = []) :
    ∃ s' es, mainStep cfg s .ok = some (s', es) ∧ Leaving pid s' ∧ s'.remaining < s.remaining := by
  have less : ∀ {t : State}, t.terminated = none → t.handlers = [] → t.pc.Failing pid →
      t.pc.remaining (killTargets t).length < s.pc.remaining (killTargets s).length →
      Leaving pid t ∧ t.remaining < s.remaining := by
    intro t ht hht hf hlt
    refine ⟨⟨hf, Or.inl ht⟩, ?_⟩
    simpa only [remaining_eq hrun, remaining_eq ht, hh, hht, List.map_nil, List.sum_nil,
      Nat.zero_add]
      using hlt
  rcases hfailing.eq with
    ⟨process, status, hpc⟩ | ⟨_, _, hpc⟩ | hpc | ⟨_ | ⟨q, todo⟩, hpc⟩ | hpc <;>
    simp only [mainStep, hpc]
  · refine ⟨_, _, rfl, less hrun hh ?_ ?_⟩ <;> dsimp only <;> split_ifs
    · exact .call
    · exact .log process status
    all_goals simp [hpc, Pc.remaining, killTargets]
  · exact ⟨_, _, rfl, less hrun hh .call (by simp [hpc, Pc.remaining, killTargets])⟩
  · exact ⟨_, _, rfl, less hrun hh (.kill _) (by simp [hpc, Pc.remaining])⟩
  · exact ⟨_, _, rfl, less hrun hh .exit (by simp [hpc, Pc.remaining, afterKill])⟩
  · exact ⟨_, _, rfl, less hrun hh (.kill todo) (by simp [hpc, Pc.remaining])⟩
  · refine ⟨_, _, rfl, ⟨hfailing, Or.inr rfl⟩, ?_⟩
    rw [remaining_eq hrun, hpc]
    simp [State.remaining, Pc.remaining]

theorem own_handlerStep {pid : Pid} (hfailing : s.pc.Failing pid) (hrun : s.terminated = none)
    {f : Frame} {rest : List Frame} (hh : s.handlers = f :: rest) :
    ∃ s' es, handlerStep cfg s f rest .ok = some (s', es) ∧ Leaving pid s' ∧
      s'.remaining < s.remaining := by
  have less : ∀ {t : State}, t.terminated = none → t.pc = s.pc → killTargets t = killTargets s →
      (t.handlers.map fun g => g.pc.remaining (killTargets s).length).sum <
        f.pc.remaining (killTargets s).length +
          (rest.map fun g => g.pc.remaining (killTargets s).length).sum →
      Leaving pid t ∧ t.remaining < s.remaining := by
    intro t ht hpc hk hlt
    refine ⟨⟨hpc ▸ hfailing, Or.inl ht⟩, ?_⟩
    rw [remaining_eq hrun, remaining_eq ht, hpc, hk, hh, List.map_cons, List.sum_cons]
    omega
  obtain ⟨sig, pc⟩ := f
  cases pc with
  | entry =>
    cases sig <;> refine ⟨_, _, rfl, less hrun rfl rfl ?_⟩ <;> simp [HandlerPc.remaining]
  | exit =>
    refine ⟨_, _, rfl, ⟨hfailing, Or.inr rfl⟩, ?_⟩
    rw [remaining_eq hrun, hh, List.map_cons, List.sum_cons]
    simp only [State.remaining, HandlerPc.remaining]
    omega
  | kill todo =>
    rcases todo with _ | ⟨q, todo⟩ <;> refine ⟨_, _, rfl, less hrun rfl rfl ?_⟩ <;>
      simp [HandlerPc.remaining]
  | _ =>
    refine ⟨_, _, rfl, less hrun rfl rfl ?_⟩
    simp [HandlerPc.remaining]

/-- **The overseer on its way out gets there by itself.** -/
theorem own_run_terminates {pid : Pid} (hfailing : s.pc.Failing pid) (hrun : s.terminated = none) :
    ∃ tr t, OwnRun cfg s tr t ∧ t.terminated = some (.exit 1) := by
  have hstep : ∀ s, Leaving pid s → ¬ s.terminated ≠ none → ∃ s' es,
      (machine cfg).step s (.run .ok) = some (s', es) ∧ Leaving pid s' ∧
        s'.remaining < s.remaining := by
    rintro s ⟨hf, -⟩ hrun
    rw [not_not] at hrun
    rcases hh : s.handlers with _ | ⟨f, rest⟩
    · rw [show (machine cfg).step s (.run .ok) = _ from step_run_main hrun hh .ok]
      exact own_mainStep hf hrun hh
    · rw [show (machine cfg).step s (.run .ok) = _ from step_run_handler hrun hh .ok]
      exact own_handlerStep hf hrun hh
  obtain ⟨tr, t, hr, ⟨-, ht⟩, hdone⟩ :=
    Machine.Run.progress (Leaving pid) _ State.remaining _ hstep ⟨hfailing, Or.inl hrun⟩
  exact ⟨tr, t, hr, ht.resolve_left hdone⟩

/-! ## What the exit status says -/

/-- **The exit status tells the truth.** `exit(0)` is called only after a shutdown request was
handled and every child was waited for. A child death whose test of `_mainapp_shutdown` is made
before any shutdown request leads to no further wait, to `EndsFailed` if the overseer has ended,
and by the overseer's own steps to exit status 1 if it has not. -/
theorem exit_status (h : Reach cfg tr s) :
    (s.terminated = some (.exit 0) →
      Requested tr ∧ ∀ pid child, .fork pid child ∈ tr → .reap pid ∈ tr) ∧
    ∀ found pid status, s.pc = .testShutdown found pid status → s.handlers = [] →
      .handlerBegin .sigterm ∉ tr → .handlerBegin .sigint ∉ tr →
      ∀ o t es, (machine cfg).step s (.run o) = some (t, es) →
      ∀ tr' t', (machine cfg).Reach t tr' t' →
        (∀ q, .reap q ∉ es ++ tr') ∧
        (∀ how, t'.terminated = some how → EndsFailed tr' t' how) ∧
        (t'.terminated = none →
          ∃ tr'' t'', OwnRun cfg t' tr'' t'' ∧ t''.terminated = some (.exit 1)) := by
  refine ⟨exit_zero h, ?_⟩
  intro found pid status hpc hh hterm hint o t es hs tr' t' hreach
  obtain ⟨hd, rfl⟩ := Dying.of_test h hpc hh hterm hint hs
  have hd' := hd.of_reach hreach
  exact ⟨hd'.noReap, hd'.ends, own_run_terminates hd'.failing⟩

/-- A shutdown after `firstSigterm`: both children terminate and are waited for. -/
def cleanShutdown : List Action :=
  firstSigterm ++ [.run .ok, .run .ok, .run .ok, .run .ok, .run .ok, .childDies 10 (.exited 0),
    .childDies 11 (.signaled 15), .run (.wait (.child 10)), .run .ok, .run .ok, .run .ok,
    .run (.wait (.child 11)), .run .ok, .run .ok, .run .ok, .run (.wait .noChild)]

/-- The worker terminates, and the overseer waits for it. -/
def workerCrash : List Action :=
  startup ++ [.childDies 10 (.exited 1), .deliver .sigchld, .run .ok, .run .ok, .run .ok,
    .run .ready, .run .ok, .run .ok, .run .ok, .run .ok, .run (.wait (.child 10))]

theorem isSome_exec_cleanShutdown :
    ((machine oneWorker).exec (init oneWorker) cleanShutdown).isSome := by
  decide

theorem isSome_exec_workerCrash :
    ((machine oneWorker).exec (init oneWorker) workerCrash).isSome := by
  decide

theorem isSome_exec_searched :
    ((machine oneWorker).exec (init oneWorker) (workerCrash ++ [.run .ok])).isSome := by
  decide

theorem exit_status_oneWorker :
    (∃ tr s, Reach oneWorker tr s ∧ s.terminated = some (.exit 0) ∧ Requested tr) ∧
      ∃ tr s t, Reach oneWorker tr s ∧ s.pc = .testShutdown .worker 10 (.exited 1) ∧
        (machine oneWorker).step s (.run .ok) = some (t, []) ∧
        ∃ tr' t', OwnRun oneWorker t tr' t' ∧ t'.terminated = some (.exit 1) := by
  constructor
  · have h := Machine.reach_exec isSome_exec_cleanShutdown
    exact ⟨_, _, h, by decide, ((exit_status h).1 (by decide)).1⟩
  · have h := Machine.reach_exec isSome_exec_searched
    have hpc : (((machine oneWorker).exec (init oneWorker) (workerCrash ++ [.run .ok])).get
        isSome_exec_searched).1.pc = .testShutdown .worker 10 (.exited 1) := by
      decide
    have hd := (exit_status h).2 .worker 10 (.exited 1) hpc (by decide) (by decide) (by decide)
      .ok _ []
      rfl [] _ .nil
    exact ⟨_, _, _, h, hpc, rfl, hd.2.2 (by decide)⟩

/-- What a `SIGTERM` does that arrives after the search for the pid of `workerCrash` has begun. -/
def lateSigterm : List Action :=
  [.raise .sigterm, .deliver .sigterm, .run .ok, .run .ok, .run .ok, .run .ok, .run .ok, .run .ok,
    .run .ok, .childDies 11 (.signaled 15), .run (.wait (.child 11))]

theorem isSome_exec_lateSigterm : ((machine oneWorker).exec
    (((machine oneWorker).exec (init oneWorker) workerCrash).get isSome_exec_workerCrash).1
      lateSigterm).isSome := by
  decide

/-- The counterexample at the entry of `HandleChildProcessDeath`: a request that arrives between
the entry and the test makes the death an expected one, and the overseer waits for another child. -/
theorem not_exit_status_at_entry : ¬ ∀ (cfg : Config) (tr : List Event) (s : State),
    Reach cfg tr s → ∀ pid status, s.pc = .handleChildProcessDeath pid status →
    .handlerBegin .sigterm ∉ tr → .handlerBegin .sigint ∉ tr →
    ∀ tr' t, (machine cfg).Reach s tr' t → ∀ q, .reap q ∉ tr' := by
  intro h
  have hq := h oneWorker _ _ (Machine.reach_exec isSome_exec_workerCrash) 10 (.exited 1) (by decide)
    (by decide) (by decide) _ _ (Machine.reach_exec isSome_exec_lateSigterm) 11
  exact hq (by decide)

end BladePSGI.Overseer
