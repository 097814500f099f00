import BladePSGI.Overseer.Control

/-!
# The overseer in a graceful shutdown

The overseer is sent one `SIGTERM` and no `SIGINT` or `SIGQUIT`, its system calls do not fail but
with `EINTR`, and no child terminates before the `SIGTERM` handler runs. `graceful` is the guard of
these runs.

* `Calm`: the invariant of these runs. None of the paths to `KillProcessGroup(SIGQUIT)` is ever
  entered, and the overseer ends only when no child is left.
* `calm_of_run`: it holds in every one of them, and `calm_events` says the same of the trace.
-/

namespace BladePSGI.Overseer

open Function Transition ProcessTable

variable {cfg : Config} {s s' : State} {tr es : List Event} {a : Action} {A : Prop}

/-- The call does not fail, or only with `EINTR`. -/
def Outcome.works : Outcome → Bool
  | .error _ => false
  | _ => true

/-- The `SIGTERM` handler has begun to run. -/
def SmartRequested (tr : List Event) : Prop := .handlerBegin .sigterm ∈ tr

instance (tr : List Event) : Decidable (SmartRequested tr) :=
  inferInstanceAs (Decidable (_ ∈ _))

/-- **The guard.** -/
def graceful (tr : List Event) (s : State) : Action → Bool
  | .run o => o.works
  | .raise .sigchld => true
  | .raise .sigterm => !s.pending .sigterm && decide (¬ SmartRequested tr)
  | .raise _ => false
  | .deliver _ => true
  | .childDies _ _ => decide (SmartRequested tr)
  | .setShouldExit => false

/-! ## Steps without failures -/

/-- Where an exception can be thrown, a call that works does not throw one. -/
theorem ne_catchSyscall_of_works {o : Outcome} (ho : o.works = true)
    (hpc : s.pc = .spawnMonitoring ∨ s.pc = .setSignalHandlers ∨ s.pc = .setProcessTitle ∨
      s.pc = .select ∨ s.pc = .drainSelfPipe ∨ s.pc = .waitpid)
    (h : mainStep cfg s o = some (s', es)) (syscall e : String) :
    s'.pc ≠ .catchSyscall syscall e := by
  rcases hpc with hpc | hpc | hpc | hpc | hpc | hpc <;> cases o <;>
    simp only [mainStep, hpc, spawnMonitoringProcess, select, drainSelfPipe, waitpid, goto, log,
      Option.some.injEq, Prod.mk.injEq, reduceCtorEq] at h <;> try cases ho
  case inr.inr.inr.inr.inr.wait report =>
    split at h
    · cases report <;> obtain ⟨rfl, rfl⟩ := Prod.mk.inj (Option.some.inj h) <;> simp
    · cases h
  all_goals
    try split at h
    all_goals grind

/-- A `fork` that works does not end the overseer with status 1. -/
theorem ne_exit_of_works {o : Outcome} (ho : o.works = true) (hrun : s.terminated = none)
    (hpc : (∃ i, s.pc = .spawnAuxiliary i) ∨ ∃ i, s.pc = .spawnWorker i)
    (h : mainStep cfg s o = some (s', es)) : s'.terminated ≠ some (.exit 1) := by
  rcases hpc with ⟨i, hpc⟩ | ⟨i, hpc⟩ <;> cases o <;>
    simp only [mainStep, hpc, spawnAuxiliaryProcess, spawnWorker, goto, reduceCtorEq] at h <;>
    try cases ho
  all_goals grind

/-- A `write` that works does not end the overseer. -/
theorem terminated_of_works {o : Outcome} (ho : o.works = true) {sig : Signal} {rest : List Frame}
    (h : handlerStep cfg s ⟨sig, .writeSelfPipe⟩ rest o = some (s', es)) :
    s'.terminated = s.terminated := by
  cases o <;> simp only [handlerStep, reduceCtorEq] at h <;> try cases ho
  obtain ⟨rfl, -⟩ := Prod.mk.inj (Option.some.inj h)
  rfl

/-! ## The invariant -/

/-- The places that the main program gets to. -/
def Pc.Calm : Pc → Prop
  | .killProcessGroup sig caller | .kill sig _ caller => sig = .sigterm ∧ caller = .smartShutdown
  | .clearSmartShutdown caller => caller = .smartShutdown
  | .clearFastShutdown | .handleUnexpectedDeath .. | .logUnexpectedDeath .. | .unknownChild ..
  | .logUnknownChild .. | .catchSyscall .. | .logSyscall .. | .exit _ => False
  | _ => True

/-- The places that the main program gets to only after the `SIGTERM`. -/
def Pc.Shutting : Pc → Prop
  | .testForceFastShutdown | .killProcessGroup .. | .kill .. | .clearSmartShutdown _
  | .setForceFastShutdown | .handleChildProcessDeath .. | .testShutdown .. | .erase .. => True
  | _ => False

/-- **The invariant**, with `A` for: the `SIGTERM` handler has begun to run. -/
structure Calm (A : Prop) (s : State) : Prop where
  pending : ∀ sig, s.pending sig = true → sig = .sigchld ∨ sig = .sigterm ∧ ¬ A
  frames : ∀ f ∈ s.handlers, f.sig = .sigchld ∨ f.sig = .sigterm ∧ A
  shutdown : A → s.shutdown = true ∨ ∃ f ∈ s.handlers, f.sig = .sigterm ∧
    (f.pc = .entry ∨ f.pc = .setShutdown)
  smart : s.smartShutdown = true → A
  force : s.forceFastShutdown = true ∨ s.pc = .setForceFastShutdown → A ∧ s.smartShutdown = false ∧
    ∀ f ∈ s.handlers, f.sig = .sigterm → f.pc ≠ .entry
  fast : s.fastShutdown = false
  flag : s.shouldExitImmediately = false
  place : s.pc.Calm
  shutting : s.pc.Shutting → A
  test : s.pc = .testForceFastShutdown → s.smartShutdown = true
  zombies : s.children.zombies ≠ ∅ → A
  ended : s.terminated = none ∨ s.terminated = some (.exit 0) ∧ s.children.unreaped = ∅

/-- What the overseer does in these runs. -/
def Event.Calm (A : Prop) : Event → Prop
  | .killpg sig => sig = .sigterm ∧ A
  | .kill _ sig => sig = .sigterm ∧ A
  | .setShouldExit _ => False
  | .terminate how => how = .exit 0
  | _ => True

namespace Calm

theorem init (cfg : Config) : Calm False (init cfg) := by
  constructor <;> simp [Overseer.init, Pc.Calm, Pc.Shutting, ProcessTable.empty]

/-- Outside of its handlers the overseer knows of the `SIGTERM`. -/
theorem shutdown_of_main (hc : Calm A s) (hh : s.handlers = []) (hA : A) : s.shutdown = true := by
  simpa [hh] using hc.shutdown hA

/-- A step of the main program that only goes on. -/
theorem goto (hc : Calm A s) (pc : Pc) (hplace : pc.Calm) (hshut : pc.Shutting → A)
    (hforce : pc ≠ .setForceFastShutdown) (htest : pc ≠ .testForceFastShutdown) :
    Calm A { s with pc } :=
  { hc with
    force := fun h => hc.force (h.imp_right fun h => absurd h hforce)
    place := hplace
    shutting := hshut
    test := fun h => absurd h htest }

theorem rest (hc : Calm A s) (pc : Pc) (hplace : pc.Calm) (hq : ¬ pc.Shutting) :
    Calm A { s with pc } :=
  hc.goto pc hplace (fun h => absurd h hq) (fun h => hq (h ▸ trivial)) fun h => hq (h ▸ trivial)

theorem mainStep (hc : Calm A s) (hb : Books s) (hr : Registered s) {o : Outcome}
    (ho : o.works = true) (hrun : s.terminated = none) (hh : s.handlers = [])
    (h : Overseer.mainStep cfg s o = some (s', es)) : Calm A s' ∧ ∀ e ∈ es, e.Calm A := by
  have hplace := hc.place
  have hshut := hc.shutting
  cases mainStep_cases h with
  | setPIDThrows hpc hget hpid => exact absurd (hr.pid_eq_none _ _ hpc hget) hpid
  | forkAuxiliaryFails hpc => exact absurd rfl (ne_exit_of_works ho hrun (Or.inl ⟨_, hpc⟩) h)
  | forkWorkerFails hpc => exact absurd rfl (ne_exit_of_works ho hrun (Or.inr ⟨_, hpc⟩) h)
  | throws hpc => exact absurd rfl (ne_catchSyscall_of_works ho hpc h _ _)
  | fastRequested _ hfast => exact absurd hfast (by simp [hc.fast])
  | secondSmart hpc hforce =>
    exact absurd (hc.force (Or.inl hforce)).2.1 (by simp [hc.test hpc])
  | unexpectedDeath hpc hs | noAuxiliaryProcess hpc hs =>
    have hA := hshut (by rw [hpc]; trivial)
    exact absurd (hc.shutdown_of_main hh hA) (by simp [hs])
  | setShouldExit hpc =>
    rcases hpc with ⟨_, _, _, hpc, -⟩ | ⟨_, _, hpc, -⟩ | ⟨_, _, hpc, -⟩ <;>
      simp [hpc, Pc.Calm] at hplace
  | clearFastShutdown hpc | logUnexpectedDeath hpc | logUnknownChild hpc | logSyscall hpc
  | exit hpc => simp [hpc, Pc.Calm] at hplace
  | @forkAuxiliary index =>
    exact ⟨{ hc.rest (.spawnAuxiliary (index + 1)) trivial not_false with
      zombies := hc.zombies
      ended := Or.inl hrun }, by simp [Event.Calm]⟩
  | @forkWorker workerno =>
    exact ⟨{ hc.rest (.spawnWorker (workerno + 1)) trivial not_false with
      zombies := hc.zombies
      ended := Or.inl hrun }, by simp [Event.Calm]⟩
  | forkMonitoring =>
    exact ⟨{ hc.rest .setSignalHandlers trivial not_false with
      zombies := hc.zombies
      ended := Or.inl hrun }, by simp [Event.Calm]⟩
  | unblockSignals =>
    exact ⟨{ hc.rest .setProcessTitle trivial not_false with }, by simp⟩
  | read => exact ⟨{ hc with }, by simp⟩
  | smartRequested _ hsmart =>
    exact ⟨{ hc with
      force := fun h => hc.force (Or.inl (h.resolve_right (by simp)))
      place := trivial
      shutting := fun _ => hc.smart hsmart
      test := fun _ => hsmart }, by simp⟩
  | firstSmart hpc =>
    have hA := hshut (by rw [hpc]; trivial)
    exact ⟨hc.goto _ ⟨rfl, rfl⟩ (fun _ => hA) (by simp) (by simp), by simp [Event.Calm]⟩
  | killpg hpc | kill hpc =>
    have hA := hshut (by rw [hpc]; trivial)
    rw [hpc] at hplace
    exact ⟨hc.goto _ hplace (fun _ => hA) (by simp) (by simp),
      by simpa [Event.Calm, hA] using hplace.1⟩
  | killpgReturn hpc =>
    have hA := hshut (by rw [hpc]; trivial)
    rw [hpc] at hplace
    obtain ⟨rfl, rfl⟩ := hplace
    exact ⟨hc.goto _ rfl (fun _ => hA) (by simp [afterKill]) (by simp [afterKill]),
      by simp [Event.Calm]⟩
  | clearSmartShutdown hpc =>
    have hA := hshut (by rw [hpc]; trivial)
    rw [hpc] at hplace
    obtain rfl := hplace
    exact ⟨{ hc with
      smart := fun _ => hA
      force := fun _ => ⟨hA, rfl, by simp [hh]⟩
      place := trivial
      shutting := fun _ => hA
      test := by simp [afterClearSmart] }, by simp⟩
  | setForceFastShutdown hpc =>
    exact ⟨{ hc.rest .waitpid trivial not_false with
      force := fun _ => hc.force (Or.inr hpc) }, by simp⟩
  | reap hpc hz =>
    have hA := hc.zombies (Finset.ne_empty_of_mem hz)
    exact ⟨{ hc.goto (.handleChildProcessDeath _ _) trivial (fun _ => hA) (by simp) (by simp) with
      zombies := fun _ => hA
      ended := Or.inl hrun }, by simp [Event.Calm]⟩
  | noChildren hpc hu => exact ⟨{ hc with ended := Or.inr ⟨rfl, hu⟩ }, by simp [Event.Calm]⟩
  | @handleDeath pid status hpc =>
    have hA := hshut (by rw [hpc]; trivial)
    have hknown := (hb.handleDeath hpc).known pid status
    refine ⟨?_, by simp⟩
    dsimp only [Overseer.handleChildProcessDeath] at hknown ⊢
    split_ifs at hknown ⊢
    · exact hc.goto _ trivial (fun _ => hA) (by simp) (by simp)
    · exact hc.goto _ trivial (fun _ => hA) (by simp) (by simp)
    · exact hc.goto _ trivial (fun _ => hA) (by simp) (by simp)
    · exact absurd rfl hknown.1
  | expectedDeath hpc =>
    have hA := hshut (by rw [hpc]; trivial)
    exact ⟨hc.goto _ trivial (fun _ => hA) (by simp) (by simp), by simp⟩
  | @erase found =>
    refine ⟨?_, by simp⟩
    cases found <;>
      exact { hc.rest .waitpid trivial not_false with }
  | _ =>
    refine ⟨hc.goto _ ?_ ?_ ?_ ?_, ?_⟩ <;> simp [Pc.Calm, Pc.Shutting, Event.Calm]

theorem handlerStep (hc : Calm A s) (hctl : Control s) {o : Outcome} (ho : o.works = true)
    (hrun : s.terminated = none) {f : Frame} {rest : List Frame} (hh : s.handlers = f :: rest)
    (h : Overseer.handlerStep cfg s f rest o = some (s', es)) : Calm A s' ∧ ∀ e ∈ es, e.Calm A := by
  have hframes := hc.frames
  have hshutdown := hc.shutdown
  have hforce := hc.force
  have hvalid := hctl.valid f (hh ▸ List.mem_cons_self)
  rw [hh] at hframes hshutdown hforce
  obtain ⟨hf, hrest⟩ := List.forall_mem_cons.1 hframes
  -- the shutdown is not up to the innermost run
  have later : (f.sig ≠ .sigterm ∨ f.pc ≠ .entry ∧ f.pc ≠ .setShutdown) → A → s.shutdown = true ∨
      ∃ g ∈ rest, g.sig = .sigterm ∧ (g.pc = .entry ∨ g.pc = .setShutdown) := by
    intro hne hA
    rcases hshutdown hA with h | ⟨g, hg, hsig, hpc⟩
    · exact Or.inl h
    · rcases List.mem_cons.1 hg with rfl | hg
      · rcases hne with hne | ⟨he, hs⟩
        · exact absurd hsig hne
        · exact absurd hpc (not_or.2 ⟨he, hs⟩)
      · exact Or.inr ⟨g, hg, hsig, hpc⟩
  -- the innermost run goes on
  have inner : ∀ {b : Bool} (pc : HandlerPc), pc ≠ .entry →
      (A → b = true ∨ ∃ g ∈ rest, g.sig = .sigterm ∧ (g.pc = .entry ∨ g.pc = .setShutdown)) →
      Calm A { s with shutdown := b, handlers := ⟨f.sig, pc⟩ :: rest } := fun pc hpc hb =>
    { hc with
      frames := List.forall_mem_cons.2 ⟨hf, hrest⟩
      shutdown := fun hA => (hb hA).imp_right fun ⟨g, hg, h⟩ => ⟨g, List.mem_cons_of_mem _ hg, h⟩
      force := fun h => ⟨(hforce h).1, (hforce h).2.1, List.forall_mem_cons.2
        ⟨fun _ => hpc, fun g hg => (hforce h).2.2 g (List.mem_cons_of_mem _ hg)⟩⟩ }
  cases handlerStep_cases h with
  | sigquit => simp at hf
  | sigint => simp at hf
  | killpg | kill | killpgReturn | exit =>
    obtain rfl : _ = Signal.sigquit := hvalid
    simp at hf
  | writeFails =>
    have := terminated_of_works ho h
    simp [hrun] at this
  | sigterm =>
    have hA : A := by simpa using hf
    have hfirst : ¬ (s.forceFastShutdown = true ∨ s.pc = .setForceFastShutdown) := fun h =>
      (hforce h).2.2 _ List.mem_cons_self rfl rfl
    exact ⟨{ hc with
      frames := List.forall_mem_cons.2 ⟨hf, hrest⟩
      shutdown := fun _ => Or.inr ⟨_, List.mem_cons_self, rfl, Or.inr rfl⟩
      smart := fun _ => hA
      force := fun h => absurd h hfirst
      test := fun _ => rfl }, by simp⟩
  | sigchld => exact ⟨inner _ (by simp) (later (Or.inl (by simp))), by simp⟩
  | setShutdown =>
    exact ⟨{ inner .writeSelfPipe (by simp) fun _ => Or.inl rfl with }, by simp⟩
  | write => exact ⟨{ inner .return (by simp) (later (Or.inr (by simp))) with }, by simp⟩
  | «return» =>
    exact ⟨{ hc with
      frames := hrest
      shutdown := later (Or.inr (by simp))
      force := fun h => ⟨(hforce h).1, (hforce h).2.1,
        fun g hg => (hforce h).2.2 g (List.mem_cons_of_mem _ hg)⟩ }, by simp [Event.Calm]⟩

end Calm

/-! ## The runs -/

theorem smartRequested_append (hes : .handlerBegin .sigterm ∉ es) :
    SmartRequested (tr ++ es) ↔ SmartRequested tr := by
  simp [SmartRequested, hes]

theorem Event.Calm.mono {e : Event} {B : Prop} (h : e.Calm A) (hAB : A → B) : e.Calm B := by
  cases e with
  | killpg | kill => exact ⟨h.1, hAB h.2⟩
  | _ => exact h

/-- Only a delivery begins a run of a handler. -/
theorem handlerBegin_notMem_run {o : Outcome} (h : Step cfg s (.run o) s' es) (sig : Signal) :
    .handlerBegin sig ∉ es := by
  cases h with
  | main _ _ h => cases h <;> simp
  | handler _ _ h => cases h <;> simp

theorem Calm.step (hc : Calm (SmartRequested tr) s) (hreach : Reach cfg tr s) (hg : graceful tr s a)
    (h : (machine cfg).step s a = some (s', es)) :
    Calm (SmartRequested (tr ++ es)) s' ∧ ∀ e ∈ es, e.Calm (SmartRequested (tr ++ es)) := by
  have hs := step_cases h
  cases a with
  | run o =>
    rw [smartRequested_append (handlerBegin_notMem_run hs .sigterm)]
    change Overseer.step cfg s (.run o) = _ at h
    obtain ⟨hb, hr⟩ := books_of_reach hreach
    cases hs with
    | main hrun hh =>
      rw [step_run_main hrun hh] at h
      exact hc.mainStep hb hr hg hrun hh h
    | handler hrun hh =>
      rw [step_run_handler hrun hh] at h
      exact hc.handlerStep (control_of_reach hreach) hg hrun hh h
  | raise sig =>
    cases hs
    rw [List.append_nil]
    refine ⟨{ hc with pending := fun sig' hp => ?_ }, by simp⟩
    by_cases hsig : sig' = sig
    · subst hsig
      cases sig' with
      | sigchld => exact Or.inl rfl
      | sigterm => exact Or.inr ⟨rfl, of_decide_eq_true (Bool.and_eq_true_iff.1 hg).2⟩
      | sigint | sigquit => cases hg
    · exact hc.pending sig' (by simpa [hsig] using hp)
  | deliver sig =>
    cases hs with
    | deliver hd =>
      refine ⟨?_, by simp [Event.Calm]⟩
      rcases hc.pending sig hd.2.2.1 with rfl | ⟨rfl, hA⟩
      · rw [smartRequested_append (by simp)]
        exact { hc with
          pending := fun sig hp => hc.pending sig (by by_cases h : sig = .sigchld <;> simp_all)
          frames := List.forall_mem_cons.2 ⟨Or.inl rfl, hc.frames⟩
          shutdown := fun hA => (hc.shutdown hA).imp_right
            fun ⟨g, hg, h⟩ => ⟨g, List.mem_cons_of_mem _ hg, h⟩
          force := fun h => ⟨(hc.force h).1, (hc.force h).2.1,
            List.forall_mem_cons.2 ⟨by simp, (hc.force h).2.2⟩⟩ }
      · -- the only one
        have hA' : SmartRequested (tr ++ [.handlerBegin .sigterm]) := by simp [SmartRequested]
        exact { hc with
          pending := fun sig hp => by
            by_cases h : sig = .sigterm
            · simp [h] at hp
            · exact (hc.pending sig (by simpa [h] using hp)).imp_right fun h' => absurd h'.1 h
          frames := List.forall_mem_cons.2 ⟨Or.inr ⟨rfl, hA'⟩,
            fun f hf => (hc.frames f hf).imp_right fun h => ⟨h.1, hA'⟩⟩
          shutdown := fun _ => Or.inr ⟨_, List.mem_cons_self, rfl, Or.inl rfl⟩
          smart := fun _ => hA'
          force := fun h => absurd (hc.force h).1 hA
          shutting := fun _ => hA'
          zombies := fun _ => hA' }
  | childDies pid status =>
    cases hs with
    | childDies halive =>
      have hA : SmartRequested tr := of_decide_eq_true hg
      rw [smartRequested_append (by simp)]
      refine ⟨{ hc with
        pending := fun sig hp => ?_
        zombies := fun _ => hA
        ended := hc.ended.imp_right fun ⟨_, hu⟩ => ?_ }, by simp [Event.Calm]⟩
      · by_cases h : sig = .sigchld
        · exact Or.inl h
        · exact hc.pending sig (by simpa [h] using hp)
      · have : pid ∈ s.children.unreaped := mem_unreaped.2 (Or.inl halive)
        simp [hu] at this
  | setShouldExit => cases hg

/-- Where a pending `SIGTERM`, or a run of its handler, comes from. -/
theorem sigterm_of_step (h : Step cfg s a s' es)
    (hs : s'.pending .sigterm = true ∨ .handlerBegin .sigterm ∈ es) :
    s.pending .sigterm = true ∨ a = .raise .sigterm := by
  cases h with
  | main _ hh h =>
    rw [(frame_mainStep h).2.2] at hs
    exact Or.inl (hs.resolve_right (handlerBegin_notMem_run (.main (o := .ok) ‹_› hh h) .sigterm))
  | handler hrun hh h =>
    rcases hs with hs | hs
    · cases h <;> exact Or.inl hs
    · exact absurd hs (handlerBegin_notMem_run (.handler (o := .ok) hrun hh h) .sigterm)
  | @raise sig =>
    by_cases hsig : sig = .sigterm
    · exact Or.inr (by rw [hsig])
    · exact Or.inl (by simpa [Ne.symm hsig] using hs)
  | @deliver sig hd =>
    by_cases hsig : sig = .sigterm
    · exact Or.inl (hsig ▸ hd.2.2.1)
    · exact Or.inl (by simpa [Ne.symm hsig] using hs)
  | childDies => exact Or.inl (by simpa using hs)
  | setShouldExit => exact Or.inl (by simpa using hs)

/-- A step in which the overseer ends. -/
theorem terminated_of_mem {how : Termination} (h : Step cfg s a s' es) (hes : .terminate how ∈ es) :
    s'.terminated ≠ none := by
  cases h with
  | main _ _ h => cases h <;> simp_all
  | handler _ _ h => cases h <;> simp_all
  | _ => simp at hes

/-- The runs of a graceful shutdown. -/
abbrev GracefulRun (cfg : Config) : List Event → State → Prop :=
  (machine cfg).Run (fun tr s a => graceful tr s a) (init cfg)

/-- **The overseer stays calm.** -/
theorem calm_of_run (h : GracefulRun cfg tr s) :
    Calm (SmartRequested tr) s ∧ ∀ e ∈ tr, e.Calm (SmartRequested tr) := by
  refine h.invariant (fun tr s => Calm (SmartRequested tr) s ∧ ∀ e ∈ tr, e.Calm (SmartRequested tr))
    ⟨by simpa [SmartRequested] using Calm.init cfg, by simp⟩ ?_
  rintro tr s a s' es hrun ⟨hc, hes⟩ hg hs
  obtain ⟨hc', hes'⟩ := hc.step hrun.reach hg hs
  refine ⟨hc', fun e he => ?_⟩
  rcases List.mem_append.1 he with he | he
  · exact (hes e he).mono fun h => List.mem_append_left es h
  · exact hes' e he

end BladePSGI.Overseer
