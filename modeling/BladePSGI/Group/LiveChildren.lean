import BladePSGI.Group.Step
import BladePSGI.Overseer.ExitStatus
import BladePSGI.Overseer.LiveChildren

/-!
# Who signals whom

Two processes call `KillProcessGroup`: the overseer, and the monitoring process on its way out after
an exception. The monitoring process goes through the copy of `worker_pids_` it was forked with,
from which nothing is ever erased. `spares` is the guard of the runs in which neither of them gets
to a pid that the overseer has waited for.

* `only_live_signalled`: what it guards against is all that can go wrong.
* `not_only_live_signalled`: one crashed worker is enough for it to go wrong.
-/

namespace BladePSGI.Group

open Function Transition

variable {cfg : Overseer.Config} {s s' : State} {a : Action} {tr es : List Event} {pid q : Pid}
  {sig : Signal}

/-! ## The calls of the monitoring process -/

/-- The pids that the monitoring process will yet signal. -/
def Monitoring.targets (m : Monitoring) : List Pid :=
  match m.pc with
  | .crashed _ | .logCrashed _ | .catchSyscall .. | .logSyscall .. | .killProcessGroup =>
      m.workerPids
  | .kill todo => todo
  | _ => []

/-- An exception is thrown. -/
def Outcome.throws : Outcome → Bool
  | .fails _ | .exception _ => true
  | _ => false

theorem InitStep.throws_of {pc : InitPc} {o : Outcome} {syscall e : String} {ev : Option ChildEvent}
    (h : InitStep pc o (.throws syscall e) ev) : o.throws = true := by
  cases h <;> rfl

theorem InitStep.ne_kill {pc : InitPc} {o : Outcome} {next : InitNext} {e : Option ChildEvent}
    (h : InitStep pc o next e) : e ≠ some (.kill pid sig) := by
  rintro rfl
  exact h.isInit

/-- What a step of the monitoring process signals, now and later. -/
theorem Monitoring.Step.targets {m m' : Monitoring} {runnerDied shouldExit : Bool} {o : Outcome}
    {e : Option ChildEvent} (h : Monitoring.Step m runnerDied shouldExit o m' e) :
    (∀ pid ∈ m'.targets, pid ∈ m.targets ∨ o.throws = true ∧ pid ∈ m.workerPids) ∧
      ∀ pid sig, e = some (.kill pid sig) → pid ∈ m.targets := by
  cases h with
  | init _ h | initDone _ h =>
    exact ⟨by simp [Monitoring.targets], fun _ _ he => absurd he h.ne_kill⟩
  | initThrows _ h =>
    exact ⟨fun pid hp => Or.inr ⟨h.throws_of, hp⟩, fun _ _ he => absurd he h.ne_kill⟩
  | throws _ h =>
    refine ⟨fun pid hp => Or.inr ?_, by simp⟩
    rcases h with ⟨e, syscall, rfl, rfl⟩ | ⟨what, rfl, rfl⟩ <;> exact ⟨rfl, hp⟩
  | setShouldExit hpc =>
    refine ⟨fun pid hp => Or.inl ?_, by simp⟩
    obtain ⟨workerPids, pc⟩ := m
    cases hpc <;> cases shouldExit <;> simp_all [Monitoring.targets]
  | @kill q todo hpc =>
    simp +contextual [Monitoring.targets, hpc]
  | _ => simp_all [Monitoring.targets]

/-- Only the monitoring process signals anyone. -/
theorem Process.kill_step {p : Process} {runnerDied shouldExit : Bool} {o : Outcome}
    {program : Program}
    (h : p.step runnerDied shouldExit o = some (program, some (.kill pid sig))) :
    ∃ m, p.program = .monitoring m ∧ pid ∈ m.targets := by
  cases Process.step_cases h with
  | worker _ h =>
    cases h with
    | init _ h | initDone _ h | initThrows _ h => exact h.isInit.elim
  | auxiliary _ h =>
    cases h with
    | init _ h | initDone _ h | initThrows _ h => exact h.isInit.elim
  | @monitoring m _ _ hp h => exact ⟨m, hp, h.targets.2 pid sig rfl⟩

/-- What a child still signals after a step is what it would have signalled, or follows from an
exception. -/
theorem Process.targets_step {p : Process} {runnerDied shouldExit : Bool} {o : Outcome}
    {m' : Monitoring} {e : Option ChildEvent}
    (h : p.step runnerDied shouldExit o = some (.monitoring m', e)) :
    ∃ m, p.program = .monitoring m ∧
      ∀ pid ∈ m'.targets, pid ∈ m.targets ∨ o.throws = true ∧ pid ∈ m.workerPids := by
  cases Process.step_cases h with
  | @monitoring m _ _ hp h => exact ⟨m, hp, h.targets.1⟩

/-! ## The guard -/

/-- The monitoring process of `p` still has to signal the pid. -/
def Process.targets (p : Process) : List Pid :=
  match p.program with
  | .monitoring m => m.targets
  | _ => []

/-- The pids that the child still has to signal. -/
def State.targets (s : State) (q : Pid) : List Pid := ((s.processes q).map Process.targets).getD []

/-- **The guard.** The overseer begins no call of `KillProcessGroup` that includes a pid it has
waited for and does not wait for a child that the monitoring process still has to signal; no
exception is thrown in the monitoring process when a worker has been waited for. -/
def spares (s : State) : Action → Bool
  | .overseer o => Overseer.spares s.overseer (.run o) &&
    match o with
    | .wait (.child pid) => decide (∀ q ∈ s.overseer.children.alive, pid ∉ s.targets q)
    | _ => true
  | .deliver sig => Overseer.spares s.overseer (.deliver sig)
  | .child q o =>
    match (s.processes q).map Process.program with
    | some (.monitoring m) =>
      !o.throws || m.workerPids.all fun pid => pid ∉ s.overseer.children.reaped
    | _ => true
  | _ => true

/-- The runs that spare the reaped children. -/
abbrev SparingRun (cfg : Overseer.Config) : List Event → State → Prop :=
  (machine cfg).Run (fun _ s a => spares s a) (init cfg)

theorem sparing_overseer (h : SparingRun cfg tr s) :
    Overseer.SparingRun cfg (overseerTrace tr) s.overseer := by
  refine h.invariant (fun tr s => Overseer.SparingRun cfg (overseerTrace tr) s.overseer) .nil ?_
  rintro tr s a s' es - ih hg hs
  rw [overseerTrace_append]
  rcases (step_cases hs).overseer_step with ⟨ho, hes⟩ | ⟨b, hlift, hb⟩
  · rw [ho, hes, List.append_nil]
    exact ih
  · refine .snoc ih ?_ hb
    cases hlift with
    | run => exact (Bool.and_eq_true_iff.1 hg).1
    | deliver => exact hg
    | _ => rfl

/-! ## The invariant -/

/-- What the children still have to signal are pids that the overseer has not waited for. -/
def Live (tr : List Event) (s : State) : Prop :=
  ∀ q p, s.processes q = some p → ∀ pid ∈ p.targets, .overseer (.reap pid) ∉ tr

theorem targets_congr {p p' : Process} (h : p'.program = p.program) : p'.targets = p.targets := by
  rw [Process.targets, Process.targets, h]

/-- A signal does not make a child signal others. -/
theorem targets_handle (p : Process) (sig : Signal) (pending : Signal → Bool) :
    { p with program := (p.handle sig).1, pending }.targets = p.targets := by
  obtain ⟨program, _, _, _⟩ := p
  cases program <;> cases sig <;> rfl

theorem targets_forked (overseer : Overseer.State) (child : Overseer.Child) :
    (Process.forked overseer child).targets = [] := by
  cases child <;> rfl

/-- The steps of the others leave a child what it still has to signal. -/
theorem Step.targets_of_others {p' : Process} (h : Step cfg s a s' es)
    (hq : s'.processes q = some p') (hc : ∀ o, a ≠ .child q o) :
    p'.targets = [] ∨ ∃ p, s.processes q = some p ∧ p'.targets = p.targets := by
  generalize hprogram : p'.program = program
  cases hprogram ▸ h.comes hq with
  | forked => exact Or.inl ((targets_congr hprogram).trans (targets_forked _ _))
  | kept hp => exact Or.inr ⟨_, hp, targets_congr hprogram⟩
  | stepped ha => exact absurd ha (hc _)
  | @handled sig p _ hp =>
    have ht : p'.targets = { p with program := (p.handle sig).1 }.targets := targets_congr hprogram
    exact Or.inr ⟨p, hp, ht.trans (targets_handle p sig p.pending)⟩

namespace Live

theorem init (cfg : Overseer.Config) : Live [] (init cfg) := by
  intro q p hp
  cases hp

/-- A step that waits for no child and is not made by a child's program. -/
theorem congr (hl : Live tr s) (h : Step cfg s a s' es) (hc : ∀ pid o, a ≠ .child pid o)
    (hr : ∀ pid, .overseer (.reap pid) ∉ es) : Live (tr ++ es) s' := by
  intro q p' hq pid hpid
  rcases h.targets_of_others hq (hc q) with ht | ⟨p, hp, ht⟩
  · simp [ht] at hpid
  · have := hl q p hp pid (ht ▸ hpid)
    simp [this, hr]

theorem overseerStep {o : Overseer.Outcome} {overseer : Overseer.State}
    {es : List Overseer.Event} (hl : Live tr s) (hreach : Reach cfg tr s)
    (hg : spares s (.overseer o))
    (h : (Overseer.machine cfg).step s.overseer (.run o) = some (overseer, es)) :
    Live (tr ++ es.map .overseer) (es.foldl State.noteOverseer { s with overseer }) := by
  intro q p' hq pid hpid hr
  rcases processes_foldl hq with ⟨child, -, ht⟩ | ⟨p, hp, ht⟩
  · rw [targets_congr ht.program, targets_forked] at hpid
    cases hpid
  · rw [targets_congr ht.program] at hpid
    rcases List.mem_append.1 hr with hr | hr
    · exact hl q p hp pid hpid hr
    · obtain rfl := Overseer.outcome_of_reap h (by simpa using hr)
      change s.processes q = some p at hp
      have halive := (isSome_processes_iff hreach q).1 (by simp [hp])
      have := of_decide_eq_true (Bool.and_eq_true_iff.1 hg).2 q halive
      simp [State.targets, hp, hpid] at this

theorem step (hl : Live tr s) (hreach : Reach cfg tr s) (hg : spares s a)
    (h : Step cfg s a s' es) : Live (tr ++ es) s' := by
  have quiet := hl.congr h
  cases h with
  | overseer _ h => exact hl.overseerStep hreach hg h
  | @child pid o p program e _ _ hp h hc =>
    have hr : ∀ q, .overseer (.reap q) ∉ es := by cases hc <;> simp
    intro q p' hq r htarget
    rcases hc.processes hq with ⟨p₀, ⟨rfl, rfl⟩ | ⟨-, hp₀⟩, hprogram, -⟩
    · rw [targets_congr hprogram] at htarget
      cases program with
      | monitoring m' =>
        obtain ⟨m, hm, htargets⟩ := Process.targets_step h
        rcases htargets r htarget with hold | ⟨hthrows, hworker⟩
        · have := hl q p hp r (by rw [Process.targets, hm]; exact hold)
          simp [this, hr]
        · simp only [spares, hp, hm, Option.map_some, hthrows, Bool.not_true, Bool.false_or,
            List.all_eq_true, decide_eq_true_eq] at hg
          have hr' := hg r hworker
          rw [(Overseer.recorded_of_reach (reach_overseer hreach)).reaped, mem_overseerTrace] at hr'
          simp [hr', hr]
      | _ => cases htarget
    · have := hl q p₀ hp₀ r (targets_congr hprogram ▸ htarget)
      simp [this, hr]
  | @deliverChild pid sig p _ _ _ _ _ hc =>
    refine quiet (by simp) fun q => ?_
    generalize (p.handle sig).2 = e at hc
    cases hc <;> simp
  | deliver _ h =>
    cases Overseer.step_cases h with
    | deliver => exact quiet (by simp) (by simp)
  | _ => exact quiet (by simp) (by simp)

end Live

theorem live_of_run (h : SparingRun cfg tr s) : Live tr s := by
  refine h.invariant Live (.init cfg) ?_
  rintro tr s a s' es hrun hl hg hs
  exact hl.step hrun.reach hg (step_cases hs)

/-- What a child signals in a step. -/
theorem Live.kill_step (hl : Live tr s) (h : Step cfg s a s' es)
    (hk : .child q (.kill pid sig) ∈ es) :
    es = [.child q (.kill pid sig)] ∧ .overseer (.reap pid) ∉ tr := by
  have own : ∀ {pid' p e}, ChildStep s pid' p e s' es →
      es = [.child q (.kill pid sig)] ∧ q = pid' ∧ e = some (.kill pid sig) := by
    intro pid' p e hc
    cases hc <;> simp_all
  cases h with
  | overseer | deliver => simp at hk
  | raise | signal | dies | killRunner => simp at hk
  | child hp h hc =>
    obtain ⟨hes, rfl, rfl⟩ := own hc
    obtain ⟨m, hm, htarget⟩ := Process.kill_step h
    exact ⟨hes, hl q _ hp pid (by rw [Process.targets, hm]; exact htarget)⟩
  | deliverChild _ _ _ hc =>
    obtain ⟨_, he⟩ := Process.terminate_of_handle (own hc).2.2
    cases he

/-- **Only live children are signalled** in the runs that meet the guard: no process executes `kill`
for a pid that the overseer's `waitpid` has returned. -/
theorem only_live_signalled (h : SparingRun cfg tr s) (pid : Pid) (sig : Signal) :
    ¬ Follows (.overseer (.reap pid)) (.overseer (.kill pid sig)) tr ∧
      ∀ q, ¬ Follows (.overseer (.reap pid)) (.child q (.kill pid sig)) tr := by
  constructor
  · intro hf
    exact Overseer.not_follows_reap_kill (sparing_overseer h) pid sig (hf.filterMap rfl rfl)
  · intro q
    refine h.invariant (fun tr _ =>
      ¬ Follows (.overseer (.reap pid)) (.child q (.kill pid sig)) tr) (by simp) ?_
    rintro tr s a s' es hrun ih - hs hf
    have hl := live_of_run hrun
    rcases follows_append.1 hf with hf | ⟨hr, hk⟩ | hf
    · exact ih hf
    · exact (hl.kill_step (step_cases hs) hk).2 hr
    · obtain ⟨rfl, -⟩ := hl.kill_step (step_cases hs) hf.mem_right
      simp at hf

theorem only_live_signalled_smartShutdown : ∃ tr s, SparingRun Overseer.oneWorker tr s ∧
    .overseer (.kill 10 .sigterm) ∈ tr ∧ .overseer (.reap 10) ∈ tr ∧
    ¬ Follows (.overseer (.reap 10)) (.overseer (.kill 10 .sigterm)) tr := by
  have h : SparingRun Overseer.oneWorker _ _ :=
    Machine.Run.exec (g := fun _ => spares) .nil (Option.some_get isSome_exec_smartShutdown).symm
      (by decide)
  exact ⟨_, _, h, by decide, by decide, (only_live_signalled h 10 .sigterm).1⟩

/-- The worker terminates, and the overseer waits for it and begins to signal its children. -/
def crashedWorker : List Action :=
  startup ++ [.dies 10 (.exited 1), .deliver .sigchld, .overseer .ok, .overseer .ok, .overseer .ok,
    .overseer .ready, .overseer .ok, .overseer .ok, .overseer .ok, .overseer .ok,
    .overseer (.wait (.child 10)), .overseer .ok, .overseer .ok, .overseer .ok, .overseer .ok,
    .overseer .ok, .overseer .ok]

theorem isSome_exec_crashedWorker :
    ((machine Overseer.oneWorker).exec (init Overseer.oneWorker) crashedWorker).isSome := by
  decide

/-- The counterexample to the life of those signalled: the overseer kills the pid it has just waited
for. -/
theorem not_only_live_signalled : ¬ ∀ (cfg : Overseer.Config) (tr : List Event) (s : State),
    Reach cfg tr s →
      ∀ pid sig, ¬ Follows (.overseer (.reap pid)) (.overseer (.kill pid sig)) tr := by
  intro h
  refine h Overseer.oneWorker _ _ (Machine.reach_exec isSome_exec_crashedWorker) 10 .sigquit
    ⟨[.overseer (.fork 10 (.worker 0)), .overseer (.fork 11 .monitoring),
        .overseer (.log .startupComplete), .dies 10 (.exited 1), .overseer (.died 10),
        .overseer (.handlerBegin .sigchld), .overseer (.handlerReturn .sigchld)],
      [.overseer (.setShouldExit true),
        .overseer (.log (.childDied "worker process" 10 (.exited 1))),
        .overseer (.killpg .sigquit), .overseer (.kill 10 .sigquit)], ?_, ?_⟩
  · rfl
  · simp

end BladePSGI.Group
