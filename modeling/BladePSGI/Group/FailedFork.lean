import BladePSGI.Group.Requests
import BladePSGI.Overseer.FailedFork

/-!
# What becomes of the group when a `fork` fails

Of the other processes only the monitoring process sets the exit flag, and it is forked last. So
when its own `fork` fails, the call of `SetShouldExitImmediately` in `main` is the first one.

* `cleansUp_iff`: the overseer sets the exit flag, logs the failure and signals its workers if and
  only if the `fork` that fails is that of the monitoring process.
-/

namespace BladePSGI.Group

open Function Transition

variable {cfg : Overseer.Config} {s s' s₁ : State} {a : Action} {tr tr' es : List Event}
  {pid : Pid} {e : String}

/-! ## The monitoring process -/

/-- The child runs `RunMonitoringProcess`. -/
def Program.IsMonitoring : Program → Prop
  | .monitoring _ => True
  | _ => False

/-- What a child runs, it goes on running, and only the monitoring process sets the exit flag. -/
theorem Process.isMonitoring_step {p : Process} {runnerDied shouldExit : Bool} {o : Outcome}
    {program : Program} {ev : Option ChildEvent}
    (h : p.step runnerDied shouldExit o = some (program, ev)) :
    (program.IsMonitoring → p.program.IsMonitoring) ∧
      ∀ changed, ev = some (.setShouldExit changed) → p.program.IsMonitoring := by
  cases Process.step_cases h with
  | worker hp h =>
    rw [hp]
    refine ⟨id, fun changed hev => ?_⟩
    subst hev
    cases h with
    | init _ h | initDone _ h | initThrows _ h => exact h.isInit.elim
  | auxiliary hp h =>
    rw [hp]
    refine ⟨id, fun changed hev => ?_⟩
    subst hev
    cases h with
    | init _ h | initDone _ h | initThrows _ h => exact h.isInit.elim
  | monitoring hp =>
    rw [hp]
    exact ⟨id, fun _ _ => trivial⟩

theorem Process.isMonitoring_handle (p : Process) (sig : Signal) :
    ((p.handle sig).1.IsMonitoring → p.program.IsMonitoring) ∧
      ∀ changed, (p.handle sig).2 ≠ some (.setShouldExit changed) := by
  constructor
  · obtain ⟨program, _, _, _⟩ := p
    cases program <;> cases sig <;> exact id
  · intro changed h
    obtain ⟨_, he⟩ := terminate_of_handle h
    cases he

/-- The monitoring process was forked as one. -/
theorem fork_of_isMonitoring {p : Process} (h : Reach cfg tr s) (hp : s.processes pid = some p)
    (hm : p.program.IsMonitoring) : .overseer (.fork pid .monitoring) ∈ tr := by
  refine h.invariant (fun tr s => ∀ p, s.processes pid = some p → p.program.IsMonitoring →
    .overseer (.fork pid .monitoring) ∈ tr) (fun _ hp => nomatch hp) ?_ p hp hm
  rintro tr s a s' es - ih - hs p hp hm
  generalize hprogram : p.program = program at hm
  cases hprogram ▸ (step_cases hs).comes hp with
  | @forked _ child hf =>
    cases child with
    | monitoring => exact List.mem_append_right tr hf
    | _ => exact hm.elim
  | kept hp₀ => exact List.mem_append_left es (ih _ hp₀ hm)
  | stepped _ hp₀ h => exact List.mem_append_left es (ih _ hp₀ ((Process.isMonitoring_step h).1 hm))
  | handled _ hp₀ =>
    exact List.mem_append_left es (ih _ hp₀ ((Process.isMonitoring_handle _ _).1 hm))

/-- **Only the monitoring process sets the exit flag**, besides the overseer. -/
theorem fork_of_setShouldExit (h : Reach cfg tr s) (hs : Step cfg s a s' es) {changed : Bool}
    (he : .child pid (.setShouldExit changed) ∈ es) : .overseer (.fork pid .monitoring) ∈ tr := by
  cases hs.emits he with
  | stepped _ hp hstep =>
      exact fork_of_isMonitoring h hp ((Process.isMonitoring_step hstep).2 _ rfl)
  | handled _ _ hev => exact absurd hev ((Process.isMonitoring_handle _ _).2 changed)

/-- While the overseer is forking, the exit flag is clear. -/
theorem flag_of_spawning (h : Reach cfg tr s) (hpc : s.overseer.pc.Spawning) :
    s.overseer.shouldExitImmediately = false := by
  refine h.invariant (fun _ s => s.overseer.pc.Spawning → s.overseer.shouldExitImmediately = false)
    (fun _ => rfl) ?_ hpc
  rintro tr s a s' es hreach ih - hs hpc
  rcases (step_cases hs).overseer_step with ⟨heq, -⟩ | ⟨b, hlifts, hb⟩
  · rw [heq] at hpc ⊢
    exact ih hpc
  · rcases Overseer.step_spawning (Overseer.step_cases hb) hpc with ⟨hspawning, rfl | hflag⟩
    · cases hlifts with
      | setShouldExit hes =>
        have hf := fork_of_setShouldExit hreach (step_cases hs) hes
        exact absurd (mem_overseerTrace.2 hf)
          (Overseer.monitoring_not_forked (reach_overseer hreach) hspawning _)
    · exact hflag.trans (ih hspawning)

/-! ## The way out of `main` -/

/-- What the overseer keeps on its way out of `main`, whatever the others do. -/
theorem cleaning_of_reach {tr₀ : List Event} {pids : List Pid} (h₀ : Reach cfg tr₀ s₁)
    (hnone : ∀ pid, .overseer (.fork pid .monitoring) ∉ tr₀)
    (hc : Overseer.Cleaning e pids [] s₁.overseer) (h : (machine cfg).Reach s₁ tr s) :
    Overseer.Cleaning e pids (overseerTrace tr) s.overseer := by
  refine h.invariant (fun tr s => Overseer.Cleaning e pids (overseerTrace tr) s.overseer)
    (by exact hc) ?_
  rintro tr s a s' es hrun hc - hs
  rw [overseerTrace_append]
  rcases (step_cases hs).overseer_step with ⟨heq, hnil⟩ | ⟨b, hlifts, hb⟩
  · rw [heq, hnil, List.append_nil]
    exact hc
  · refine hc.step ?_ (Overseer.step_cases hb)
    rintro rfl
    cases hlifts with
    | setShouldExit hes =>
      have hf := fork_of_setShouldExit (h₀.trans hrun) (step_cases hs) hes
      rcases List.mem_append.1 hf with hf | hf
      · exact hnone _ hf
      · exact hc.noFork _ _ (mem_overseerTrace.2 hf)

/-- The group runs when the overseer runs. -/
theorem run_of_ownRun {os : List Overseer.Event} {t : Overseer.State}
    (h : Overseer.OwnRun cfg s.overseer os t) (hk : s.runnerKilled = false) :
    ∃ s', (machine cfg).Run (fun _ _ a => a = .overseer .ok) s (os.map .overseer) s' ∧
      s'.overseer = t ∧ s'.runnerKilled = false := by
  induction h with
  | nil => exact ⟨s, .nil, rfl, hk⟩
  | @snoc _ _ _ t' es _ ha hs ih =>
    obtain ⟨s', hr, rfl, hk'⟩ := ih
    subst ha
    have hstep : (machine cfg).step s' (.overseer .ok) =
        some (es.foldl State.noteOverseer { s' with overseer := t' }, es.map .overseer) := by
      change step cfg s' (.overseer .ok) = _
      simp only [step, hk', Bool.false_eq_true, if_false, State.overseerStep, hs]
    rw [List.map_append]
    exact ⟨_, hr.snoc rfl hstep, overseer_foldl, runnerKilled_foldl.trans hk'⟩

/-! ## The failure -/

/-- How the overseer ends after a failed `fork`, from the state after it: it gets there by itself,
and when it has ended, it has exited with status 1 after setting the exit flag, logging the failure
and sending `SIGQUIT` to every worker that was forked in `tr`. -/
structure CleansUp (cfg : Overseer.Config) (tr es : List Event) (e : String) (s : State) :
    Prop where
  ends : ∃ tr' s', (machine cfg).Run (fun _ _ a => a = .overseer .ok) s tr' s' ∧
    s'.overseer.terminated = some (.exit 1)
  cleanedUp : ∀ tr' s', (machine cfg).Reach s tr' s' → s'.overseer.terminated ≠ none →
    s'.overseer.terminated = some (.exit 1) ∧
      (∃ changed, .overseer (.setShouldExit changed) ∈ es ++ tr') ∧
      .overseer (.log (.syscallFailed "fork" e)) ∈ es ++ tr' ∧
      ∀ pid i, .overseer (.fork pid (.worker i)) ∈ tr → .overseer (.kill pid .sigquit) ∈ es ++ tr'

theorem cleansUp_of_spawnMonitoring (h : Reach cfg tr s) (hpc : s.overseer.pc = .spawnMonitoring)
    (hs : (machine cfg).step s (.overseer (.error e)) = some (s₁, es)) :
    CleansUp cfg tr es e s₁ := by
  have hspawning : s.overseer.pc.Spawning := Or.inr (Or.inr hpc)
  have ho := reach_overseer h
  have h₁ := h.snoc trivial hs
  cases step_cases hs with
  | @overseer _ overseer os hk hstep =>
    obtain ⟨hc, rfl, hrun, hpc₁⟩ := Overseer.Cleaning.of_failedFork (Overseer.control_of_reach ho)
      (flag_of_spawning h hspawning) hpc hstep
    have hnone : ∀ pid, .overseer (.fork pid .monitoring) ∉ tr ++ List.map Event.overseer [] := by
      intro pid hf
      rw [List.map_nil, List.append_nil] at hf
      exact Overseer.monitoring_not_forked ho hspawning pid (mem_overseerTrace.2 hf)
    constructor
    case ends =>
      obtain ⟨os, t, hr, ht⟩ : Overseer.EndsByItself cfg overseer :=
        Overseer.endsByItself_catchSyscall hrun hc.handlers hpc₁
      obtain ⟨s', hr', rfl, -⟩ := run_of_ownRun (s := { s with overseer }) hr hk
      exact ⟨_, s', hr', ht⟩
    case cleanedUp =>
      intro tr' s' hr hterm
      obtain ⟨how, hhow⟩ := Option.ne_none_iff_exists'.1 hterm
      obtain ⟨rfl, hreported, hkilled⟩ := (cleaning_of_reach h₁ hnone hc hr).ends how hhow
      refine ⟨hhow, hreported.flag.imp fun _ => mem_overseerTrace.1,
        mem_overseerTrace.1 hreported.logged, fun pid i hf => mem_overseerTrace.1 (hkilled pid ?_)⟩
      exact List.mem_append_left _
        (Overseer.workerPids_of_fork ho hspawning (mem_overseerTrace.2 hf))

/-- **A failed startup is cleaned up and reported if it fails at the monitoring process, and only
then.** -/
theorem cleansUp_iff (h : Reach cfg tr s) (hspawning : s.overseer.pc.Spawning)
    (hs : (machine cfg).step s (.overseer (.error e)) = some (s₁, es)) :
    CleansUp cfg tr es e s₁ ↔ s.overseer.pc = .spawnMonitoring := by
  refine ⟨fun hc => ?_, fun hpc => cleansUp_of_spawnMonitoring h hpc hs⟩
  by_contra hne
  have hcontrol := Overseer.control_of_reach (reach_overseer h)
  have hh := hcontrol.blocked (hcontrol.starting (Or.inl hspawning))
  cases step_cases hs with
  | overseer hk hstep =>
    obtain ⟨rfl, rfl⟩ := Overseer.failedFork_exit hh hspawning hne hstep
    obtain ⟨-, ⟨changed, hflag⟩, -⟩ := hc.cleanedUp [] _ .nil (by simp)
    simp at hflag

/-- The worker of `Overseer.oneWorker` has been forked, and the monitoring process comes next. -/
def beforeMonitoring : List Action := [.overseer .ok, .overseer (.forked 10), .overseer .ok]

theorem isSome_exec_beforeMonitoring :
    ((machine Overseer.oneWorker).exec (init Overseer.oneWorker) beforeMonitoring).isSome := by
  decide

theorem cleansUp_iff_beforeMonitoring : ∃ tr s es s₁, Reach Overseer.oneWorker tr s ∧
    .overseer (.fork 10 (.worker 0)) ∈ tr ∧
    (machine Overseer.oneWorker).step s (.overseer (.error "ENOMEM")) = some (s₁, es) ∧
    CleansUp Overseer.oneWorker tr es "ENOMEM" s₁ := by
  have h := Machine.reach_exec isSome_exec_beforeMonitoring
  let s := (Option.get _ isSome_exec_beforeMonitoring).1
  have hs : ((machine Overseer.oneWorker).step s (.overseer (.error "ENOMEM"))).isSome := by decide
  exact ⟨_, s, _, _, h, by decide, (Option.some_get hs).symm,
    (cleansUp_iff h (Or.inr (Or.inr (by decide))) (Option.some_get hs).symm).2 (by decide)⟩

/-- Two workers. -/
def twoWorkers : Overseer.Config := ⟨[], 2, Nat.two_pos, by decide, 1, Nat.one_pos⟩

theorem isSome_exec_firstWorker :
    ((machine twoWorkers).exec (init twoWorkers)
      [.overseer .ok, .overseer (.forked 10)]).isSome := by
  decide

/-- The counterexample to the clean startup: the second worker cannot be forked, and the first one
is sent no signal. -/
theorem not_cleansUp : ¬ ∀ (cfg : Overseer.Config) (tr : List Event) (s : State) (e : String)
    (s₁ : State) (es : List Event), Reach cfg tr s → s.overseer.pc.Spawning →
    (machine cfg).step s (.overseer (.error e)) = some (s₁, es) → CleansUp cfg tr es e s₁ := by
  intro h
  let s := (Option.get _ isSome_exec_firstWorker).1
  have hs : ((machine twoWorkers).step s (.overseer (.error "EAGAIN"))).isSome := by decide
  have hc := h twoWorkers _ s "EAGAIN" _ _ (Machine.reach_exec isSome_exec_firstWorker)
    (Or.inr (Or.inl ⟨1, by decide⟩)) (Option.some_get hs).symm
  obtain ⟨-, -, -, hkill⟩ := hc.cleanedUp [] _ .nil (by decide)
  exact absurd (hkill 10 0 (by decide)) (by decide)

end BladePSGI.Group
