import BladePSGI.Overseer.ExitStatus
import BladePSGI.Overseer.Spawning

/-!
# A `fork` that fails

A `SyscallException` of `SpawnMonitoringProcess` reaches the catch clause of `main`, which sets the
exit flag, logs the failed system call, calls `KillProcessGroup(SIGQUIT)` and ends the process. One
of `SpawnWorkersAndAuxiliaryProcesses` does not get there: on its way it destroys the Perl
interpreter, which ends the process.

* `Cleaning.step`: what the overseer keeps on its way out of `main`.
* `Cleaning.endsByItself`: the way out has an end.
* `Cleaning.of_failedFork`, `failedFork_exit`: what a failed `fork` leads to.
-/

namespace BladePSGI.Overseer

open Function Transition ProcessTable

variable {cfg : Config} {s s' : State} {tr es : List Event} {a : Action} {e : String}
  {pids : List Pid}

/-- The exit flag was set and the failed `fork` logged. -/
structure Reported (e : String) (tr : List Event) : Prop where
  flag : ∃ changed, .setShouldExit changed ∈ tr
  logged : .log (.syscallFailed "fork" e) ∈ tr

/-- What `main` has done at a place on its way out. -/
def Pc.Cleaning (e : String) (pids : List Pid) (tr : List Event) : Pc → Prop
  | .catchSyscall syscall e' => syscall = "fork" ∧ e' = e
  | .logSyscall syscall e' => syscall = "fork" ∧ e' = e ∧ ∃ changed, .setShouldExit changed ∈ tr
  | .killProcessGroup sig caller => sig = .sigquit ∧ caller = .main ∧ Reported e tr
  | .kill sig todo caller => sig = .sigquit ∧ caller = .main ∧ Reported e tr ∧
      ∀ pid ∈ pids, pid ∈ todo ∨ .kill pid .sigquit ∈ tr
  | .exit caller => caller = .main ∧ Reported e tr ∧ ∀ pid ∈ pids, .kill pid .sigquit ∈ tr
  | _ => False

/-- **The invariant of the way out**, with the trace since the exception was caught. -/
structure Cleaning (e : String) (pids : List Pid) (tr : List Event) (s : State) : Prop where
  handlers : s.handlers = []
  blocked : s.signalsBlocked = true
  targets : killTargets s = pids
  /-- Nobody else has set the exit flag, so the call of `main` changes it. -/
  flag : s.pc = .catchSyscall "fork" e → s.shouldExitImmediately = false
  place : s.pc.Cleaning e pids tr
  noFork : ∀ pid child, .fork pid child ∉ tr
  ends : ∀ how, s.terminated = some how →
    how = .exit 1 ∧ Reported e tr ∧ ∀ pid ∈ pids, .kill pid .sigquit ∈ tr

theorem Reported.append (h : Reported e tr) : Reported e (tr ++ es) :=
  ⟨h.flag.imp fun _ => List.mem_append_left es, List.mem_append_left es h.logged⟩

theorem Pc.Cleaning.append {pc : Pc} (h : pc.Cleaning e pids tr) :
    pc.Cleaning e pids (tr ++ es) := by
  have hkill : ∀ {pid : Pid}, .kill pid .sigquit ∈ tr → .kill pid .sigquit ∈ tr ++ es :=
    List.mem_append_left es
  cases pc with
  | catchSyscall => exact h
  | logSyscall => exact ⟨h.1, h.2.1, h.2.2.imp fun _ => List.mem_append_left es⟩
  | killProcessGroup => exact ⟨h.1, h.2.1, h.2.2.append⟩
  | kill => exact ⟨h.1, h.2.1, h.2.2.1.append, fun pid hp => (h.2.2.2 pid hp).imp_right hkill⟩
  | exit => exact ⟨h.1, h.2.1.append, fun pid hp => hkill (h.2.2 pid hp)⟩
  | _ => exact h.elim

namespace Cleaning

/-- A step that the main program does not make. -/
theorem congr (hc : Cleaning e pids tr s) (hh : s'.handlers = s.handlers)
    (hb : s'.signalsBlocked = s.signalsBlocked) (ht : killTargets s' = killTargets s)
    (hflag : s'.shouldExitImmediately = s.shouldExitImmediately) (hpc : s'.pc = s.pc)
    (hterm : s'.terminated = s.terminated) (hes : ∀ pid child, .fork pid child ∉ es) :
    Cleaning e pids (tr ++ es) s' where
  handlers := hh.trans hc.handlers
  blocked := hb.trans hc.blocked
  targets := ht.trans hc.targets
  flag h := hflag.trans (hc.flag (hpc ▸ h))
  place := hpc ▸ hc.place.append
  noFork pid child := by simp [hc.noFork, hes]
  ends how h := by
    obtain ⟨hhow, hreported, hkilled⟩ := hc.ends how (hterm ▸ h)
    exact ⟨hhow, hreported.append, fun pid hp => List.mem_append_left es (hkilled pid hp)⟩

theorem mainStep (hc : Cleaning e pids tr s) (hrun : s.terminated = none)
    (h : MainStep cfg s s' es) : Cleaning e pids (tr ++ es) s' := by
  have hplace := hc.place
  -- a step on the way, to a place past the catch clause
  have next : ∀ {pc : Pc} {es : List Event} {flag : Bool}, pc.Cleaning e pids (tr ++ es) →
      pc ≠ .catchSyscall "fork" e → (∀ pid child, .fork pid child ∉ es) →
      Cleaning e pids (tr ++ es) { s with pc, shouldExitImmediately := flag } :=
    fun hplace hpc hes => ⟨hc.handlers, hc.blocked, hc.targets, fun h => absurd h hpc, hplace,
      fun pid child => by simp [hc.noFork, hes], by simp [hrun]⟩
  cases h with
  | setShouldExit hpc =>
    rcases hpc with ⟨_, _, _, hpc, -⟩ | ⟨_, _, hpc, -⟩ | ⟨syscall, e', hpc, rfl, rfl⟩ <;>
      rw [hpc] at hplace
    · exact hplace.elim
    · exact hplace.elim
    · obtain ⟨rfl, rfl⟩ := hplace
      simp only [hc.flag hpc, Bool.false_eq_true, if_false]
      exact next ⟨rfl, rfl, _, List.mem_append_right tr List.mem_cons_self⟩ (by simp) (by simp)
  | logSyscall hpc =>
    rw [hpc] at hplace
    obtain ⟨rfl, rfl, changed, hset⟩ := hplace
    exact next ⟨rfl, rfl, ⟨changed, List.mem_append_left _ hset⟩,
      List.mem_append_right tr List.mem_cons_self⟩ (by simp) (by simp)
  | killpg hpc =>
    rw [hpc] at hplace
    obtain ⟨rfl, rfl, hreported⟩ := hplace
    refine next ⟨rfl, rfl, hreported.append, fun pid hp => Or.inl ?_⟩ (by simp) (by simp)
    rwa [hc.targets]
  | @kill sig pid todo caller hpc =>
    rw [hpc] at hplace
    obtain ⟨rfl, rfl, hreported, hkill⟩ := hplace
    refine next ⟨rfl, rfl, hreported.append, fun q hq => ?_⟩ (by simp) (by simp)
    rcases hkill q hq with hq | hq
    · rcases List.mem_cons.1 hq with rfl | hq
      · exact Or.inr (List.mem_append_right tr List.mem_cons_self)
      · exact Or.inl hq
    · exact Or.inr (List.mem_append_left _ hq)
  | killpgReturn hpc =>
    rw [hpc] at hplace
    obtain ⟨rfl, rfl, hreported, hkill⟩ := hplace
    refine next ⟨rfl, hreported.append, fun pid hp => ?_⟩ (by simp [afterKill]) (by simp)
    exact List.mem_append_left _ ((hkill pid hp).resolve_left List.not_mem_nil)
  | exit hpc =>
    rw [hpc] at hplace
    obtain ⟨rfl, hreported, hkilled⟩ := hplace
    have hkilled' : ∀ pid ∈ pids, .kill pid .sigquit ∈ tr ++ [Event.terminate (.exit 1)] :=
      fun pid hp => List.mem_append_left _ (hkilled pid hp)
    refine ⟨hc.handlers, hc.blocked, hc.targets, hc.flag, hc.place.append, ?_, ?_⟩
    · simp [hc.noFork]
    · rintro how ⟨⟩
      exact ⟨rfl, hreported.append, hkilled'⟩
  | throws hpc =>
    rcases hpc with hpc | hpc | hpc | hpc | hpc | hpc <;> rw [hpc] at hplace <;> exact hplace.elim
  | _ hpc =>
    rw [hpc] at hplace
    exact hplace.elim

/-- **What the overseer keeps on its way out**, as long as no other process sets the exit flag. -/
theorem step (hc : Cleaning e pids tr s) (ha : a ≠ .setShouldExit) (h : Step cfg s a s' es) :
    Cleaning e pids (tr ++ es) s' := by
  cases h with
  | main hrun _ h => exact hc.mainStep hrun h
  | handler _ hh => simp [hc.handlers] at hh
  | deliver h => exact absurd h.2.1 (by simp [hc.blocked])
  | setShouldExit => exact absurd rfl ha
  | _ => exact hc.congr rfl rfl rfl rfl rfl rfl (by simp)

end Cleaning

/-! ## The way out has an end -/

/-- The overseer exits with status 1 by its own steps. -/
def EndsByItself (cfg : Config) (s : State) : Prop :=
  ∃ tr t, OwnRun cfg s tr t ∧ t.terminated = some (.exit 1)

theorem endsByItself_of_mainStep (hrun : s.terminated = none) (hh : s.handlers = [])
    (hs : mainStep cfg s .ok = some (s', es)) (h : EndsByItself cfg s') : EndsByItself cfg s := by
  obtain ⟨tr, t, hr, ht⟩ := h
  have hstep : (machine cfg).step s (.run .ok) = some (s', es) :=
    (step_run_main hrun hh .ok).trans hs
  exact ⟨[] ++ es ++ tr, t, (Machine.Run.nil.snoc rfl hstep).trans hr, ht⟩

theorem endsByItself_exit (hrun : s.terminated = none) (hh : s.handlers = [])
    (hpc : s.pc = .exit .main) : EndsByItself cfg s :=
  endsByItself_of_mainStep hrun hh (by simp only [mainStep, hpc]; rfl) ⟨[], _, .nil, rfl⟩

/-- The loop of `KillProcessGroup`. -/
theorem endsByItself_kill {sig : Signal} {todo : List Pid} (hrun : s.terminated = none)
    (hh : s.handlers = []) (hpc : s.pc = .kill sig todo .main) : EndsByItself cfg s := by
  induction todo generalizing s with
  | nil =>
    refine endsByItself_of_mainStep hrun hh (by simp only [mainStep, hpc]; rfl) ?_
    exact endsByItself_exit hrun hh rfl
  | cons pid todo ih =>
    refine endsByItself_of_mainStep hrun hh (by simp only [mainStep, hpc]; rfl) ?_
    exact ih hrun hh rfl

theorem endsByItself_killProcessGroup {sig : Signal} (hrun : s.terminated = none)
    (hh : s.handlers = []) (hpc : s.pc = .killProcessGroup sig .main) : EndsByItself cfg s := by
  refine endsByItself_of_mainStep hrun hh (by simp only [mainStep, hpc]; rfl) ?_
  exact endsByItself_kill hrun hh rfl

/-- **The catch clause of `main` gets to the end by itself.** -/
theorem endsByItself_catchSyscall {syscall : String} (hrun : s.terminated = none)
    (hh : s.handlers = []) (hpc : s.pc = .catchSyscall syscall e) : EndsByItself cfg s := by
  refine endsByItself_of_mainStep hrun hh
    (by simp only [mainStep, hpc, setShouldExitImmediately]; rfl) ?_
  cases hflag : s.shouldExitImmediately with
  | true => exact endsByItself_killProcessGroup hrun hh rfl
  | false =>
    refine endsByItself_of_mainStep hrun hh (by simp only [mainStep, log]; rfl) ?_
    exact endsByItself_killProcessGroup hrun hh rfl

/-! ## When the `fork` fails -/

/-- While the overseer is forking, it leaves the exit flag alone. -/
theorem step_spawning (h : Step cfg s a s' es) (hpc : s'.pc.Spawning) :
    s.pc.Spawning ∧ (a = .setShouldExit ∨ s'.shouldExitImmediately = s.shouldExitImmediately) := by
  cases h with
  | main _ _ h =>
    obtain ⟨-, hback, -, hflag⟩ := mainStep_starting h hpc.starting
    exact ⟨hback hpc, Or.inr hflag⟩
  | handler _ _ h => cases h <;> exact ⟨hpc, Or.inr rfl⟩
  | setShouldExit => exact ⟨hpc, Or.inl rfl⟩
  | _ => exact ⟨hpc, Or.inr rfl⟩

/-- While the overseer is forking, the monitoring process has not been forked. -/
theorem monitoring_not_forked (h : Reach cfg tr s) (hpc : s.pc.Spawning) (pid : Pid) :
    .fork pid .monitoring ∉ tr := by
  intro hf
  have hmem : Child.monitoring ∈ forks tr := List.mem_filterMap.2 ⟨_, hf, rfl⟩
  have hforked := (spawned_of_reach h).forked
  rcases hpc with ⟨i, hpc⟩ | ⟨i, hpc⟩ | hpc <;> rw [hpc] at hforked
  · rw [hforked.2] at hmem
    simp [auxiliaries] at hmem
  · rw [hforked.2] at hmem
    simp [auxiliaries, workers] at hmem
  · rw [show forks tr = _ from hforked] at hmem
    simp [auxiliaries, workers] at hmem

/-- While the overseer is forking, the workers forked are those listed. -/
theorem workerPids_of_fork (h : Reach cfg tr s) (hpc : s.pc.Spawning) {pid : Pid} {i : ℕ}
    (hf : .fork pid (.worker i) ∈ tr) : pid ∈ s.workerPids := by
  have hr := recorded_of_reach h
  have hk := kinds_of_reach h
  have hunreaped := (hr.unreaped pid).2 ⟨⟨_, hf⟩, hr.spawning hpc pid⟩
  rcases ((books_of_reach h).1.listed pid).2 (Or.inl hunreaped) with hw | ha | hm
  · exact hw
  · obtain ⟨j, hj⟩ := hk.auxiliary pid ha
    cases hk.unique pid _ _ hf hj
  · cases hk.unique pid _ _ hf (hk.monitoring pid hm)

/-- The destructor of the Perl interpreter ends the process. -/
theorem failedFork_exit (hh : s.handlers = []) (hpc : s.pc.Spawning)
    (hne : s.pc ≠ .spawnMonitoring)
    (h : (machine cfg).step s (.run (.error e)) = some (s', es)) :
    s' = { s with terminated := some (.exit 1) } ∧ es = [.terminate (.exit 1)] := by
  cases step_cases h with
  | handler _ hh' _ => simp [hh] at hh'
  | main hrun _ hm =>
    rw [show (machine cfg).step s (.run (.error e)) = _ from step_run_main hrun hh _] at h
    rcases hpc with ⟨i, hpc⟩ | ⟨i, hpc⟩ | hpc
    · simp only [mainStep, hpc, spawnAuxiliaryProcess] at h
      split at h
      · obtain ⟨rfl, rfl⟩ := Prod.mk.inj (Option.some.inj h)
        exact ⟨rfl, rfl⟩
      · cases h
    · simp only [mainStep, hpc, spawnWorker] at h
      split at h
      · obtain ⟨rfl, rfl⟩ := Prod.mk.inj (Option.some.inj h)
        exact ⟨rfl, rfl⟩
      · cases h
    · exact absurd hpc hne

/-- The exception of `SpawnMonitoringProcess` is caught by `main`. -/
theorem Cleaning.of_failedFork (hc : Control s) (hflag : s.shouldExitImmediately = false)
    (hpc : s.pc = .spawnMonitoring)
    (h : (machine cfg).step s (.run (.error e)) = some (s', es)) :
    Cleaning e (killTargets s) [] s' ∧ es = [] ∧ s'.terminated = none ∧
      s'.pc = .catchSyscall "fork" e := by
  have hblocked := hc.starting (Or.inl (Or.inr (Or.inr hpc)))
  have hh := hc.blocked hblocked
  cases step_cases h with
  | handler _ hh' _ => simp [hh] at hh'
  | main hrun _ hm =>
    rw [show (machine cfg).step s (.run (.error e)) = _ from step_run_main hrun hh _] at h
    simp only [Overseer.mainStep, hpc] at h
    obtain ⟨rfl, rfl⟩ := Prod.mk.inj (Option.some.inj h)
    exact ⟨⟨hh, hblocked, rfl, fun _ => hflag, ⟨rfl, rfl⟩, by simp, by simp [hrun]⟩, rfl, hrun, rfl⟩

end BladePSGI.Overseer
