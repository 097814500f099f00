import BladePSGI.Group.Requests

/-!
# Requests after `SIGTERM`

`MainLoopIteration` tests `_worker_terminated` before it calls the callback, and a `SIGTERM` makes a
blocked `Accept` fail. In between it does nothing: `Accept` blocks, and returns the next request.
`prompt` is the guard of the runs in which no worker gets its `SIGTERM` there.

* `no_request_after_sigterm`: in these runs a worker whose handler has run accepts no request any
  more, while a worker that gets its `SIGTERM` in between may accept one.
* `not_no_request_after_sigterm`: a run in which it does.
-/

namespace BladePSGI.Group

open Function Transition

variable {cfg : Overseer.Config} {s s' : State} {a : Action} {tr tr' es : List Event} {pid : Pid}

/-- The test of `_worker_terminated` is over, and `Accept` has not blocked yet. -/
def Worker.Pc.between : Worker.Pc → Bool
  | .setWorkerStatus | .call | .accept => true
  | _ => false

/-- **The guard.** No `SIGTERM` arrives in a worker between the test and the block. -/
def prompt (s : State) : Action → Bool
  | .deliverChild pid .sigterm =>
    match (s.processes pid).map Process.program with
    | some (.worker w) => !w.pc.between
    | _ => true
  | _ => true

/-- `worker_sigterm_handler` has run in the process. -/
def Process.Terminated (p : Process) : Prop := ∃ w, p.program = .worker w ∧ w.terminated = true

/-- A worker whose handler has run is not on its way into `Accept`. -/
def Program.Prompt : Program → Prop
  | .worker w => w.terminated = true → w.pc.between = false ∧ w.pc ≠ .accepting
  | _ => True

/-! ## The steps of a worker -/

theorem Worker.Step.prompt {w w' : Worker} {shouldExit : Bool} {o : Outcome} {e : Option ChildEvent}
    (h : Worker.Step w shouldExit o w' e) (hw : (Program.worker w).Prompt) :
    (Program.worker w').Prompt := by
  simp only [Program.Prompt] at hw ⊢
  cases h with
  | goOn _ h => simp [h]
  | _ => simp_all [Worker.Pc.between]

/-- Only the handler sets the flag. -/
theorem Worker.Step.terminated_eq {w w' : Worker} {shouldExit : Bool} {o : Outcome}
    {e : Option ChildEvent} (h : Worker.Step w shouldExit o w' e) :
    w'.terminated = w.terminated := by
  cases h <;> rfl

theorem Worker.Step.accepted_cases {w w' : Worker} {shouldExit : Bool} {o : Outcome}
    (h : Worker.Step w shouldExit o w' (some .accepted)) : w.pc = .accepting := by
  cases h with
  | init _ h | initDone _ h | initThrows _ h => exact h.isInit.elim
  | accepted hpc => exact hpc

theorem Worker.prompt_handle {w : Worker} (hw : (Program.worker w).Prompt) (sig : Signal)
    (hsig : sig = .sigterm → w.pc.between = false) : (Program.worker (w.handle sig).1).Prompt := by
  cases sig with
  | sigterm =>
    simp only [Worker.handle, Program.Prompt, forall_const]
    split_ifs with hpc
    · simp [Worker.Pc.between]
    · exact ⟨hsig rfl, hpc⟩
  | _ => exact hw

theorem Worker.terminated_handle {w : Worker} (h : w.terminated = true) (sig : Signal) :
    (w.handle sig).1.terminated = true := by
  cases sig <;> first | exact h | rfl

/-- What a step of a worker's process is. -/
theorem Process.step_worker {p : Process} {w : Worker} {runnerDied shouldExit : Bool} {o : Outcome}
    {program : Program} {e : Option ChildEvent} (hw : p.program = .worker w)
    (h : p.step runnerDied shouldExit o = some (program, e)) :
    ∃ w', program = .worker w' ∧ Worker.Step w shouldExit o w' e := by
  cases Process.step_cases h with
  | @worker _ w' _ hp h =>
    obtain rfl := Program.worker.inj (hw.symm.trans hp)
    exact ⟨w', rfl, h⟩
  | auxiliary hp | monitoring hp => cases hw.symm.trans hp

/-! ## Guarded runs -/

/-- The runs that meet the guard. -/
abbrev PromptRun (cfg : Overseer.Config) : State → List Event → State → Prop :=
  (machine cfg).Run fun _ s a => prompt s a

/-- Every program is prompt. -/
def State.Prompt (s : State) : Prop := ∀ pid p, s.processes pid = some p → p.program.Prompt

theorem State.Prompt.step (hs : s.Prompt) (h : Step cfg s a s' es) (hg : prompt s a) :
    s'.Prompt := by
  intro pid p hp
  generalize hprogram : p.program = program
  have hc := hprogram ▸ h.comes hp
  cases hc with
  | @forked _ child =>
    cases child with
    | worker => exact fun h => nomatch h
    | _ => trivial
  | kept hp => exact hs pid _ hp
  | @stepped _ p₀ _ _ _ hp₀ h =>
    have hprompt := hs pid p₀ hp₀
    cases Process.step_cases h with
    | worker hp₀ h => exact h.prompt (hp₀ ▸ hprompt)
    | auxiliary | monitoring => trivial
  | @handled sig p₀ ha hp₀ =>
    have hprompt := hs pid p₀ hp₀
    unfold Process.handle
    split <;> rename_i w hw
    · refine Worker.prompt_handle (hw ▸ hprompt) sig ?_
      rintro rfl
      simpa [ha, hp₀, hw, Group.prompt] using hg
    · trivial
    · trivial

theorem prompt_of_run (h : PromptRun cfg (init cfg) tr s) : s.Prompt := by
  refine h.invariant (fun _ s => s.Prompt) (fun _ _ hp => nomatch hp) ?_
  intro _ _ _ _ _ _ ih hg hs
  exact ih.step (step_cases hs) hg

/-- A worker stays terminated. -/
theorem Step.terminated (h : Step cfg s a s' es) (hnew : ∀ child, .overseer (.fork pid child) ∉ es)
    (ht : ∀ p, s.processes pid = some p → p.Terminated) {p : Process}
    (hp : s'.processes pid = some p) : p.Terminated := by
  unfold Process.Terminated
  generalize hprogram : p.program = program
  have hc := hprogram ▸ h.comes hp
  cases hc with
  | forked hf => exact absurd hf (hnew _)
  | kept hp₀ => exact ht _ hp₀
  | stepped _ hp₀ h =>
    obtain ⟨w, hw, hterm⟩ := ht _ hp₀
    obtain ⟨w', rfl, hstep⟩ := Process.step_worker hw h
    exact ⟨w', rfl, hstep.terminated_eq.trans hterm⟩
  | handled _ hp₀ =>
    obtain ⟨w, hw, hterm⟩ := ht _ hp₀
    exact ⟨_, by rw [Process.handle, hw], Worker.terminated_handle hterm _⟩

/-- A terminated worker does not accept. -/
theorem Step.accepted_notMem (h : Step cfg s a s' es) (hs : s.Prompt)
    (ht : ∀ p, s.processes pid = some p → p.Terminated) : .child pid .accepted ∉ es := by
  intro he
  cases h.emits he with
  | stepped _ hp h =>
    obtain ⟨w, hw, hterm⟩ := ht _ hp
    obtain ⟨w', -, hstep⟩ := Process.step_worker hw h
    have hprompt := hw ▸ hs pid _ hp
    exact (hprompt hterm).2 hstep.accepted_cases
  | @handled sig _ _ hp h =>
    obtain ⟨w, hw, -⟩ := ht _ hp
    rw [Process.handle, hw] at h
    cases sig <;> cases h

/-- In a guarded continuation a terminated worker stays terminated and accepts nothing. -/
theorem no_request_of_promptRun {p : Process} (h : PromptRun cfg (init cfg) tr s)
    (hp : s.processes pid = some p) (ht : p.Terminated) (h' : PromptRun cfg s tr' s') :
    .child pid .accepted ∉ tr' := by
  obtain ⟨child, hold⟩ := forked_of_isSome h.reach (by simp [hp] : (s.processes pid).isSome)
  have hinv := h'.invariant
    (fun tr' s' => (∀ p, s'.processes pid = some p → p.Terminated) ∧ .child pid .accepted ∉ tr')
    ⟨fun q hq => by rwa [← Option.some.inj (hp.symm.trans hq)], by simp⟩ ?_
  · exact hinv.2
  rintro tr' t a t' es hrun ⟨hterm, hnone⟩ hg hs
  have hfull := h.trans hrun
  have hstep := step_cases hs
  refine ⟨fun q hq => hstep.terminated (fun child' hf => ?_) hterm hq, ?_⟩
  · exact hstep.fork_new hfull.reach hf child (List.mem_append_left tr' hold)
  · rw [List.mem_append, not_or]
    exact ⟨hnone, hstep.accepted_notMem (prompt_of_run hfull) hterm⟩

/-! ## Unguarded steps -/

/-- The worker `pid` stands at the place. -/
def State.WorkerAt (s : State) (pid : Pid) (w : Worker) : Prop :=
  ∃ p, s.processes pid = some p ∧ p.program = .worker w

/-- A step of a worker that concerns nobody else. -/
theorem State.WorkerAt.step {w w' : Worker} {e : Option ChildEvent} (hs : s.WorkerAt pid w)
    (h : w.step s.overseer.shouldExitImmediately .ok = some (w', e))
    (he : ∀ e' ∈ e, (∃ status, e' = .setWorkerStatus w.workerno status) ∨ e' = .callBegin ∨
      e' = .accepted) :
    ∃ t, (machine cfg).step s (.child pid .ok) = some (t, e.toList.map (.child pid)) ∧
      t.WorkerAt pid w' := by
  obtain ⟨p, hp, hw⟩ := hs
  have hstep : p.step s.runnerDied s.overseer.shouldExitImmediately .ok = some (.worker w', e) := by
    simp only [Process.step, hw, h, Option.map_some]
  change ∃ t, Group.step cfg s (.child pid .ok) = _ ∧ _
  simp only [Group.step, hp, hstep]
  cases e with
  | none => exact ⟨_, rfl, _, update_self .., rfl⟩
  | some e =>
    rcases he e rfl with ⟨status, rfl⟩ | rfl | rfl <;> exact ⟨_, rfl, _, update_self .., rfl⟩

/-- The worker may accept a request. -/
def MayAccept (cfg : Overseer.Config) (s : State) (pid : Pid) : Prop :=
  ∃ tr' s', (machine cfg).Reach s tr' s' ∧ .child pid .accepted ∈ tr'

theorem State.WorkerAt.mayAccept_of_step {w w' : Worker} {e : Option ChildEvent}
    (hs : s.WorkerAt pid w) (h : w.step s.overseer.shouldExitImmediately .ok = some (w', e))
    (he : ∀ e' ∈ e, (∃ status, e' = .setWorkerStatus w.workerno status) ∨ e' = .callBegin)
    (hrest : ∀ t : State, t.WorkerAt pid w' → MayAccept cfg t pid) : MayAccept cfg s pid := by
  obtain ⟨t, hstep, ht⟩ := hs.step h fun e' he' => (he e' he').imp_right Or.inl
  obtain ⟨tr', s', hreach, hmem⟩ := hrest t ht
  exact ⟨_, s', (Machine.Reach.one hstep).trans hreach, List.mem_append_right _ hmem⟩

/-- **A worker past the test of `_worker_terminated` may accept a request.** -/
theorem State.WorkerAt.mayAccept {w : Worker} (hs : s.WorkerAt pid w) (hpc : w.pc.between = true) :
    MayAccept cfg s pid := by
  obtain ⟨workerno, pc, terminated⟩ := w
  have accepting : ∀ s : State, s.WorkerAt pid ⟨workerno, .accepting, terminated⟩ →
      MayAccept cfg s pid := by
    intro s hs
    obtain ⟨t, hstep, -⟩ :
        ∃ t, (machine cfg).step s (.child pid .ok) = some (t, [.child pid .accepted]) ∧ _ :=
      hs.step rfl (by simp)
    exact ⟨_, t, .one hstep, by simp⟩
  have accept : ∀ s : State, s.WorkerAt pid ⟨workerno, .accept, terminated⟩ →
      MayAccept cfg s pid :=
    fun s hs => hs.mayAccept_of_step rfl (by simp) accepting
  have call : ∀ s : State, s.WorkerAt pid ⟨workerno, .call, terminated⟩ → MayAccept cfg s pid :=
    fun s hs => hs.mayAccept_of_step rfl (by simp) accept
  cases pc with
  | setWorkerStatus => exact hs.mayAccept_of_step rfl (by simp) call
  | call => exact call s hs
  | accept => exact accept s hs
  | _ => cases hpc

/-- What the guard excludes. -/
theorem not_prompt_cases (h : (machine cfg).step s a = some (s', es)) (hg : prompt s a = false) :
    ∃ pid w, a = .deliverChild pid .sigterm ∧ s.WorkerAt pid w ∧ w.pc.between = true ∧
      s'.WorkerAt pid { w with terminated := true } := by
  unfold prompt at hg
  split at hg
  · rename_i pid
    split at hg
    · rename_i w hw
      obtain ⟨p, hp, hprogram⟩ := Option.map_eq_some_iff.1 hw
      have hpc : w.pc.between = true := by simpa using hg
      have hne : w.pc ≠ .accepting := by
        intro h
        rw [h] at hpc
        cases hpc
      refine ⟨pid, w, rfl, ⟨p, hp, hprogram⟩, hpc, ?_⟩
      change step cfg s (.deliverChild pid .sigterm) = _ at h
      simp only [Group.step, hp] at h
      split_ifs at h
      simp only [Process.handle, hprogram, Worker.handle, if_neg hne] at h
      obtain ⟨rfl, -⟩ := Prod.mk.inj (Option.some.inj h)
      exact ⟨_, update_self .., rfl⟩
    · cases hg
  · cases hg

/-- **A terminated worker takes no new work**, unless its `SIGTERM` has arrived between the test of
`_worker_terminated` and the block in `Accept`; and there it may take some. -/
theorem no_request_after_sigterm :
    (∀ tr s pid p tr' s', PromptRun cfg (init cfg) tr s → s.processes pid = some p →
      p.Terminated → PromptRun cfg s tr' s' → .child pid .accepted ∉ tr') ∧
    ∀ s a s' es, (machine cfg).step s a = some (s', es) → prompt s a = false →
      ∃ pid p, s'.processes pid = some p ∧ p.Terminated ∧ MayAccept cfg s' pid := by
  constructor
  · intro tr s pid p tr' s' h hp ht h'
    exact no_request_of_promptRun h hp ht h'
  · intro s a s' es h hg
    obtain ⟨pid, w, -, -, hpc, hat⟩ := not_prompt_cases h hg
    have hmay : MayAccept cfg s' pid := hat.mayAccept hpc
    obtain ⟨p, hp, hw⟩ := hat
    exact ⟨pid, p, hp, ⟨_, hw, rfl⟩, hmay⟩

/-- The worker is sent a `SIGTERM` after its first `n` steps. -/
def signalAfter (n : ℕ) : List Action :=
  startup ++ List.replicate n (.child 10 .ok) ++ [.signal 10 .sigterm]

/-- And the handler runs. -/
def sigtermAfter (n : ℕ) : List Action := signalAfter n ++ [.deliverChild 10 .sigterm]

/-- The worker is blocked in `Accept`. -/
theorem isSome_exec_sigtermAfter_nine :
    ((machine Overseer.oneWorker).exec (init Overseer.oneWorker) (sigtermAfter 9)).isSome := by
  decide

/-- The worker is on its way into `Accept`. -/
theorem isSome_exec_signalAfter_eight :
    ((machine Overseer.oneWorker).exec (init Overseer.oneWorker) (signalAfter 8)).isSome := by
  decide

theorem isSome_exec_sigtermAfter_eight :
    ((machine Overseer.oneWorker).exec (init Overseer.oneWorker) (sigtermAfter 8)).isSome := by
  decide

/-- The worker blocked in `Accept` ends, the other one may go on. -/
theorem no_request_after_sigterm_sigtermAfter :
    (∃ tr s p tr' s', PromptRun Overseer.oneWorker (init Overseer.oneWorker) tr s ∧
      s.processes 10 = some p ∧ p.Terminated ∧ PromptRun Overseer.oneWorker s tr' s' ∧
      tr' = [.child 10 .notAccepted] ∧ .child 10 .accepted ∉ tr') ∧
    ∃ s pid p, s.processes pid = some p ∧ p.Terminated ∧ MayAccept Overseer.oneWorker s pid := by
  constructor
  · let s := (Option.get _ isSome_exec_sigtermAfter_nine).1
    have h : PromptRun Overseer.oneWorker (init Overseer.oneWorker) _ s :=
      Machine.Run.exec (g := fun _ s a => prompt s a) .nil
        (Option.some_get isSome_exec_sigtermAfter_nine).symm (by decide)
    let p := (s.processes 10).get (by decide)
    have hp : s.processes 10 = some p := (Option.some_get _).symm
    have ht : p.Terminated := ⟨⟨0, .acceptInterrupted, true⟩, by decide, rfl⟩
    have hr : ((machine Overseer.oneWorker).exec s [.child 10 .ok]).isSome := by decide
    have h' : PromptRun Overseer.oneWorker s _ _ :=
      Machine.Run.exec (g := fun _ s a => prompt s a) .nil (Option.some_get hr).symm (by decide)
    exact ⟨_, s, p, _, _, h, hp, ht, h', by decide,
      no_request_after_sigterm.1 _ _ _ _ _ _ h hp ht h'⟩
  · let s := (Option.get _ isSome_exec_signalAfter_eight).1
    have hr : ((machine Overseer.oneWorker).step s (.deliverChild 10 .sigterm)).isSome := by decide
    obtain ⟨pid, p, hp, ht, hmay⟩ := no_request_after_sigterm.2 s _ _ _ (Option.some_get hr).symm
      (by decide)
    exact ⟨_, pid, p, hp, ht, hmay⟩

/-- The counterexample: `SIGTERM` arrives in the callback, before `Accept`. -/
theorem not_no_request_after_sigterm : ¬ ∀ (cfg : Overseer.Config) (tr : List Event) (s : State)
    (pid : Pid) (p : Process) (tr' : List Event) (s' : State), Reach cfg tr s →
      s.processes pid = some p → p.Terminated → (machine cfg).Reach s tr' s' →
      .child pid .accepted ∉ tr' := by
  intro h
  let s := (Option.get _ isSome_exec_sigtermAfter_eight).1
  have hreach : Reach Overseer.oneWorker _ s := Machine.reach_exec isSome_exec_sigtermAfter_eight
  let p := (s.processes 10).get (by decide)
  have hp : s.processes 10 = some p := (Option.some_get _).symm
  have ht : p.Terminated := ⟨⟨0, .accept, true⟩, by decide, rfl⟩
  let r := ((machine Overseer.oneWorker).exec s [.child 10 .ok, .child 10 .ok]).get (by decide)
  have hrest : (machine Overseer.oneWorker).Reach s r.2 r.1 := Machine.reach_exec (by decide)
  exact absurd (by decide) (h _ _ _ _ _ _ _ hreach hp ht hrest)

end BladePSGI.Group
