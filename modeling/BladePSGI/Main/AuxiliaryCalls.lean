import BladePSGI.Main.Callbacks

/-!
# What the auxiliary processes call

* `asRequested_iff`: every auxiliary process calls what it was requested with, in every run, if and
  only if the loader keeps the variables of its requests.
* `not_asRequested_reassigned`: a loader that uses its variable again.
-/

namespace BladePSGI.Main.Callbacks

open Function Transition Perl Loader

variable {Value : Type} [Inhabited Value] {cl : CommandLine} {isLexical : ℕ → Bool}
  {s : State Value} {tr : List (Event Value)} {loader : Loader Value} {i : ℕ}

/-- Every auxiliary process that has called its callback has called what the second argument of its
request held at the time of the request. -/
def AsRequested (loader : Loader Value) (tr : List (Event Value)) : Prop :=
  ∀ index subr, .call index subr ∈ tr → ∃ v, (requested loader)[index]? = some v ∧ subr = some v

/-! ## The forks and the requests -/

/-- The forks of the overseer, in order. -/
def forks (tr : List (Event Value)) : List Overseer.Child :=
  Overseer.forks (Group.overseerTrace (groupTrace (mainTrace tr)))

/-- The `i`-th fork is the one for the `i`-th request. -/
theorem getElem?_forks (h : Reach cl isLexical loader tr s) (hf : Forked i tr) :
    i < (subrs loader).length ∧ (forks tr)[i]? = some (.auxiliary i) := by
  obtain ⟨pid, hmem⟩ := hf
  have hmain : .group (.overseer (.fork pid (.auxiliary i))) ∈ mainTrace tr :=
    List.mem_filterMap.2 ⟨_, hmem, rfl⟩
  have hgroup := reach_group (reach_main h)
  have hloader := (known_of_reach h).loaderAt
  unfold LoaderAt at hloader
  cases hs : s.main with
  | startup st =>
    rw [hs] at hgroup
    have hnil : groupTrace (mainTrace tr) = [] := hgroup
    rw [← mem_groupTrace, hnil] at hmain
    cases hmain
  | running r =>
    rw [hs] at hgroup hloader
    have hfork : .auxiliary i ∈ forks tr :=
      List.mem_filterMap.2 ⟨_, Group.mem_overseerTrace.2 (mem_groupTrace.2 hmain), rfl⟩
    have hspawned := Overseer.spawned_of_reach (Group.reach_overseer hgroup)
    rw [← length_names, ← hloader.1]
    exact hspawned.getElem?_forks hfork

/-- **What an auxiliary process calls**: what its argument holds when the loader has returned. -/
theorem call_eq (h : Reach cl isLexical loader tr s) {subr : Option Value}
    (hcall : .call i subr ∈ tr) :
    ∃ hi : i < (subrs loader).length, subr =
      some (((subrs loader)[i]).held (assigned (fun _ => default) (assignments loader))) := by
  obtain ⟨heq, hf⟩ := (known_of_reach h).calls i subr hcall
  have hi := (getElem?_forks h hf).1
  refine ⟨hi, ?_⟩
  rw [heq, left, value_callbacks, List.getElem?_eq_getElem hi]
  rfl

/-! ## A run in which the auxiliary process calls -/

/-- In the loader, with these requests made. -/
def atLoader (names : List String) : Startup where
  pc := .callAndReceiveCallback
  sharedMemory := true
  shouldExitImmediately := false
  auxiliaryNames := names
  terminated := none

theorem reach_atLoader (cl : CommandLine) (isLexical : ℕ → Bool) (loader : Loader Value) :
    ∃ tr s, Reach cl isLexical loader tr s ∧ s.main = .startup (atLoader []) ∧
      s.rest = loader := by
  have hexec : (machine cl isLexical).exec (init loader)
      (List.replicate 9 (.main (.startup .ok))) = some
        ({ init loader with main := .startup (atLoader []) },
          [.main (.startup (.log .startingUp)), .main (.startup (.log .startingWorkers))]) := rfl
  exact ⟨_, _, Machine.reach_of_exec hexec, rfl, rfl⟩

omit [Inhabited Value] in
/-- The loader can do all its statements. -/
theorem run_loader (cl : CommandLine) (isLexical : ℕ → Bool) {before : List String}
    (hmain : s.main = .startup (atLoader before)) :
    ∃ tr s', (machine cl isLexical).Reach s tr s' ∧ (∃ after, s'.main = .startup (atLoader after)) ∧
      s'.rest = [] := by
  generalize hrest : s.rest = rest
  induction rest generalizing s before with
  | nil => exact ⟨_, s, .nil, ⟨before, hmain⟩, hrest⟩
  | cons statement rest ih =>
    have hstep : ∃ s' es after, (machine cl isLexical).step s .loader = some (s', es) ∧
        s'.main = .startup (atLoader after) ∧ s'.rest = rest := by
      change ∃ s' es after, loaderStep cl s = some (s', es) ∧ _
      cases statement with
      | assign x v =>
        simp only [loaderStep, hrest, hmain]
        exact ⟨_, _, before, rfl, rfl, rfl⟩
      | requestAuxiliaryProcess name subr =>
        simp only [loaderStep, hrest, hmain]
        exact ⟨_, _, before ++ [name], rfl, rfl, rfl⟩
    obtain ⟨s', es, after, hs, hmain', hrest'⟩ := hstep
    obtain ⟨tr, t, hreach, ht⟩ := ih hmain' hrest'
    exact ⟨_, t, (Machine.Reach.one hs).trans hreach, ht⟩

/-- The overseer is about to fork the `k`-th auxiliary process. -/
def Spawning (k : ℕ) (s : State Value) : Prop :=
  ∃ r, s.main = .running r ∧ r.group.overseer.pc = .spawnAuxiliary k ∧
    r.group.overseer.terminated = none ∧ r.group.overseer.handlers = [] ∧
    r.group.runnerKilled = false

theorem exists_spawning_zero (cl : CommandLine) (isLexical : ℕ → Bool) (loader : Loader Value) :
    ∃ tr s, Reach cl isLexical loader tr s ∧ Spawning 0 s := by
  obtain ⟨tr₁, s₁, h₁, hmain₁, -⟩ := reach_atLoader cl isLexical loader
  obtain ⟨tr₂, s₂, h₂, ⟨after, hmain₂⟩, hrest⟩ := run_loader cl isLexical hmain₁
  have hreturns : (machine cl isLexical).step s₂ (.main (.startup .ok)) = some ({ s₂ with
      main := .startup { atLoader after with pc := .lockAllocations }
      interpreter := s₂.interpreter.leave isLexical }, []) := by
    change mainStep cl isLexical s₂ _ = _
    simp only [mainStep, hmain₂, hrest]
    rfl
  have hlock : (machine cl isLexical).step { s₂ with
      main := .startup { atLoader after with pc := .lockAllocations }
      interpreter := s₂.interpreter.leave isLexical } (.main (.startup .ok)) = some ({ s₂ with
      main := .running ((atLoader after).run cl)
      interpreter := s₂.interpreter.leave isLexical }, []) := rfl
  refine ⟨_, _, (h₁.trans h₂).trans ((Machine.Reach.one hreturns).trans (.one hlock)), _, rfl, ?_⟩
  exact ⟨rfl, rfl, rfl, rfl⟩

/-- The fork of the next auxiliary process. -/
theorem exists_fork (h : Reach cl isLexical loader tr s) (hspawn : Spawning i s)
    (hi : i < (subrs loader).length) : ∃ pid r overseer s' es,
      (machine cl isLexical).step s (.main (.group (.overseer (.forked pid)))) = some (s', es) ∧
      Spawning (i + 1) s' ∧ s'.main = .running r ∧
      r.group.processes pid = some (.forked overseer (.auxiliary i)) ∧
      s'.images pid = some ⟨i, s.interpreter⟩ := by
  obtain ⟨r, hmain, hpc, hrun, hh, hk⟩ := hspawn
  have hgroup := reach_group (reach_main h)
  have hloader := (known_of_reach h).loaderAt
  unfold LoaderAt at hloader
  rw [hmain] at hgroup hloader
  rw [← length_names, ← hloader.1] at hi
  obtain ⟨pid, overseer, hstep, hpc', hrun', hh'⟩ :=
    Overseer.exists_forkAuxiliary (Group.reach_overseer hgroup) hpc hrun hh hi
  let group : Group.State := { r.group with
    overseer
    processes := update r.group.processes pid (some (.forked overseer (.auxiliary i))) }
  have hgstep : (Group.machine (cl.config r.auxiliaryNames)).step r.group
      (.overseer (.forked pid)) = some (group, [.overseer (.fork pid (.auxiliary i))]) := by
    refine (if_neg (by simp [hk])).trans ?_
    simp only [Group.State.overseerStep, hstep]
    rfl
  let running : Running := { r with
    group, copies := update r.copies pid r.auxiliaryNames }
  have hmstep : (Main.machine cl).step (.running r) (.group (.overseer (.forked pid))) =
      some (.running running, [.group (.overseer (.fork pid (.auxiliary i)))]) := by
    change Main.step cl (.running r) (.group (.overseer (.forked pid))) = _
    simp only [Main.step, Running.step, hgstep]
    rfl
  have hs : (machine cl isLexical).step s (.main (.group (.overseer (.forked pid)))) =
      some ({ s with
        main := .running running
        images := update s.images pid (some ⟨i, s.interpreter⟩) },
        [.main (.group (.overseer (.fork pid (.auxiliary i))))]) := by
    change mainStep cl isLexical s _ = _
    simp only [mainStep, hmain, hmstep]
    rfl
  exact ⟨pid, running, overseer, _, _, hs, ⟨_, rfl, hpc', hrun', hh', hk⟩, rfl, update_self ..,
    update_self ..⟩

theorem exists_spawning (cl : CommandLine) (isLexical : ℕ → Bool) (loader : Loader Value)
    (hi : i ≤ (subrs loader).length) : ∃ tr s, Reach cl isLexical loader tr s ∧ Spawning i s := by
  induction i with
  | zero => exact exists_spawning_zero cl isLexical loader
  | succ i ih =>
    obtain ⟨tr, s, h, hspawn⟩ := ih (Nat.le_of_succ_le hi)
    obtain ⟨pid, r, overseer, s', es, hs, hspawn', -⟩ := exists_fork h hspawn hi
    exact ⟨_, s', .snoc h trivial hs, hspawn'⟩

/-- The process `pid` is the `i`-th auxiliary process, and stands at `pc`. -/
def ChildAt (i : ℕ) (pid : Pid) (pc : Group.Auxiliary.Pc) (s : State Value) : Prop :=
  ∃ r p name interpreter, s.main = .running r ∧ r.group.processes pid = some p ∧
    p.program = .auxiliary ⟨name, pc⟩ ∧ s.images pid = some ⟨i, interpreter⟩

omit [Inhabited Value] in
/-- A step of the child that reaches only its own process. -/
theorem ChildAt.step {pid : Pid} {pc pc' : Group.Auxiliary.Pc} {e : Option Group.ChildEvent}
    (h : ChildAt i pid pc s)
    (hx : ∀ name, Group.Auxiliary.step ⟨name, pc⟩ .ok = some (⟨name, pc'⟩, e))
    (he : ∀ e', e = some e' → e' = .setDeathSignal ∨ e' = .unblockSignals) : ∃ s' es,
      (machine cl isLexical).step s (.main (.group (.child pid .ok))) = some (s', es) ∧
        ChildAt i pid pc' s' ∧
        (pc = .call → ∃ subr, .call i subr ∈ es) := by
  obtain ⟨r, p, name, interpreter, hmain, hp, hprogram, himage⟩ := h
  have hstep : p.step r.group.runnerDied r.group.overseer.shouldExitImmediately .ok =
      some (.auxiliary ⟨name, pc'⟩, e) := by
    simp only [Group.Process.step, hprogram, hx]
    rfl
  let q : Group.Process := { p with program := .auxiliary ⟨name, pc'⟩ }
  obtain ⟨group, p', hchild, hp', hprogram'⟩ : ∃ group p',
      r.group.childStep (cl.config r.auxiliaryNames) pid q e =
        some (group, e.toList.map (.child pid)) ∧
      group.processes pid = some p' ∧ p'.program = .auxiliary ⟨name, pc'⟩ := by
    rcases e with _ | e
    · exact ⟨_, _, rfl, update_self .., rfl⟩
    · rcases he e rfl with rfl | rfl
      · exact ⟨_, _, rfl, update_self .., rfl⟩
      · exact ⟨_, _, rfl, update_self .., rfl⟩
  have hgroup : (Group.machine (cl.config r.auxiliaryNames)).step r.group (.child pid .ok) =
      some (group, e.toList.map (.child pid)) := by
    rw [← hchild]
    change Group.step (cl.config r.auxiliaryNames) r.group (.child pid .ok) = _
    simp only [Group.step, hp, hstep]
    rfl
  have hmain' : ∃ copies, (Main.machine cl).step (.running r) (.group (.child pid .ok)) =
      some (.running { r with group, copies }, (e.toList.map (.child pid)).map .group) := by
    change ∃ copies, Main.step cl (.running r) (.group (.child pid .ok)) = _
    simp only [Main.step, Running.step, hgroup]
    exact ⟨_, rfl⟩
  obtain ⟨copies, hmain'⟩ := hmain'
  have himages : ((e.toList.map (.child pid)).map Main.Event.group).foldl
      (noteFork s.interpreter) s.images = s.images := by
    cases e <;> rfl
  have hs : (machine cl isLexical).step s (.main (.group (.child pid .ok))) =
      some ({ s with main := .running { r with group, copies } },
        call s (.group (.child pid .ok)) ++
          ((e.toList.map (.child pid)).map .group).map .main) := by
    change mainStep cl isLexical s (.group (.child pid .ok)) = _
    simp only [mainStep, hmain, hmain', himages]
    rfl
  refine ⟨_, _, hs, ⟨_, p', name, interpreter, rfl, hp', hprogram', himage⟩, ?_⟩
  rintro rfl
  refine ⟨interpreter.callbackCall i, List.mem_append_left _ ?_⟩
  simp [call, hmain, hp, atCall, hprogram, himage]

/-- **Every auxiliary process that was requested can call its callback.** -/
theorem exists_call (cl : CommandLine) (isLexical : ℕ → Bool) (loader : Loader Value)
    (hi : i < (subrs loader).length) :
    ∃ tr s subr, Reach cl isLexical loader tr s ∧ .call i subr ∈ tr := by
  obtain ⟨tr, s, h, hspawn⟩ := exists_spawning cl isLexical loader hi.le
  obtain ⟨pid, r, overseer, s₀, es₀, hs₀, -, hmain, hp, himage⟩ := exists_fork h hspawn hi
  have h₀ : ChildAt i pid (.init .prctl) s₀ := ⟨r, _, _, _, hmain, hp, rfl, himage⟩
  -- `SubprocessInit`, `SetSignalHandler` and `UnblockSignals`
  obtain ⟨s₁, es₁, hs₁, h₁, -⟩ := h₀.step (fun _ => rfl) (by simp)
  obtain ⟨s₂, es₂, hs₂, h₂, -⟩ := h₁.step (fun _ => rfl) (by simp)
  obtain ⟨s₃, es₃, hs₃, h₃, -⟩ := h₂.step (fun _ => rfl) (by simp)
  obtain ⟨s₄, es₄, hs₄, h₄, -⟩ := h₃.step (fun _ => rfl) (by simp)
  obtain ⟨s₅, es₅, hs₅, -, hcall⟩ := h₄.step (fun _ => rfl) (by simp)
  obtain ⟨subr, hsubr⟩ := hcall rfl
  have hreach : Reach cl isLexical loader _ s₅ :=
    .snoc (.snoc (.snoc (.snoc (.snoc (.snoc h trivial hs₀) trivial hs₁) trivial hs₂) trivial hs₃)
      trivial hs₄) trivial hs₅
  exact ⟨_, s₅, subr, hreach, List.mem_append_right _ hsubr⟩

/-! ## What the auxiliary processes call -/

/-- **The auxiliary processes call what they were requested with exactly when the loader keeps the
variables of its requests.** -/
theorem asRequested_iff (cl : CommandLine) (isLexical : ℕ → Bool) (loader : Loader Value) :
    (∀ tr s, Reach cl isLexical loader tr s → AsRequested loader tr) ↔ Keeps loader := by
  rw [Keeps, ← requestedFrom_eq_iff]
  have hlength := length_requestedFrom (fun _ => default) loader
  constructor
  · intro hrun
    refine List.ext_getElem (by rw [hlength, List.length_map]) fun i hi _ => ?_
    rw [hlength] at hi
    obtain ⟨tr, s, subr, h, hcall⟩ := exists_call cl isLexical loader hi
    obtain ⟨v, hv, hsubr⟩ := hrun tr s h i subr hcall
    obtain ⟨_, hheld⟩ := call_eq h hcall
    rw [List.getElem_map, ← Option.some.inj (hsubr.symm.trans hheld)]
    exact (List.getElem_eq_iff _).2 hv
  · intro heq tr s h i subr hcall
    obtain ⟨hi, hheld⟩ := call_eq h hcall
    refine ⟨_, ?_, hheld⟩
    rw [requested, heq, List.getElem?_map, List.getElem?_eq_getElem hi]
    rfl

/-- `my $s = sub { "a" }; $ctx->request_auxiliary_process("cron", $s); $s = sub { "b" };` -/
def reassigned : Loader (Option String) :=
  [.assign 0 (some "a"), .requestAuxiliaryProcess "cron" (.var 0), .assign 0 (some "b")]

/-- The loader runs, and the auxiliary process comes up and calls. -/
def callReassigned : List Action :=
  List.replicate 9 (.main (.startup .ok)) ++ List.replicate 3 .loader ++
    List.replicate 2 (.main (.startup .ok)) ++ [.main (.group (.overseer (.forked 9)))] ++
    List.replicate 5 (.main (.group (.child 9 .ok)))

theorem isSome_exec_callReassigned : ((machine oneWorker fun _ => true).exec
    (init reassigned) callReassigned).isSome := by
  decide

/-- The counterexample: the process requested with the first subroutine calls the second one. -/
theorem not_asRequested_reassigned : ¬ ∀ (cl : CommandLine) (isLexical : ℕ → Bool)
    (loader : Loader (Option String)) (tr : List (Event (Option String)))
    (s : State (Option String)), Reach cl isLexical loader tr s → AsRequested loader tr := by
  intro h
  let tr : List (Event (Option String)) := [.main (.startup (.log .startingUp)),
    .main (.startup (.log .startingWorkers)), .main (.startup (.requestAuxiliaryProcess "cron")),
    .main (.group (.overseer (.fork 9 (.auxiliary 0)))), .main (.group (.child 9 .setDeathSignal)),
    .main (.group (.child 9 .unblockSignals)), .call 0 (some (some "b"))]
  have hreach : Reach oneWorker (fun _ => true) reassigned tr _ :=
    Machine.reach_exec isSome_exec_callReassigned
  obtain ⟨v, hv, hsubr⟩ := h _ _ _ _ _ hreach 0 (some (some "b")) (by simp [tr])
  obtain rfl : some "a" = v := Option.some.inj hv
  exact absurd hsubr (by decide)

end BladePSGI.Main.Callbacks
