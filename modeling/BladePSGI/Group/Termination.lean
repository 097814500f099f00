import BladePSGI.Foundations.Ranking
import BladePSGI.Group.Accept
import BladePSGI.Group.Drain
import BladePSGI.Group.FailedFork
import Mathlib.Algebra.BigOperators.Group.Finset.Basic
import Mathlib.Algebra.Order.BigOperators.Group.Finset

/-!
# The children come to their end

What is left of the group when the overseer is dead, however it died. The monitoring process notices
and sets the exit flag, each worker leaves its loop at the next test of it, and an auxiliary process
has nothing to do but its one call.

* `Program.stepsLeft`: the rank of a child that is leaving.
* `child_ends`: a child that has been told to come to its end makes no more steps than its rank, and
  is not stuck before.
* `monitoring_ends`: the monitoring process has a bounded number of steps left, and it does not end
  by itself before the exit flag is set.
* `children_end`: with the exit flag set, all the children together have a bounded number of steps
  left, and none of them is stuck.
-/

namespace BladePSGI.Group

open Function Transition

variable {cfg : Overseer.Config} {s s' t : State} {a : Action} {as : List Action} {pid : Pid}
  {tr tr' es : List Event} {p : Process} {o : Outcome} {e : Option ChildEvent}

/-! ## The rank of a child -/

def InitPc.stepsLeft : InitPc → ℕ
  | .prctl => 4
  | .setProcessTitle => 3
  | .setSignalHandlers => 2
  | .unblockSignals => 1

/-- How many steps a worker has left that has been told to exit: by the flag or, where `terminated`
is set, by `SIGTERM`. -/
def Worker.stepsLeft (w : Worker) : ℕ :=
  match w.pc with
  | .init pc => pc.stepsLeft + 2
  | .testShouldExit => 2
  | .testTerminated => if w.terminated then 1 else 10
  | .setWorkerStatus => 9
  | .call => 8
  | .accept => 7
  | .accepting => 6
  | .serve => 5
  | .acceptInterrupted | .finish => 4
  | .increaseRequestCounter => 3
  | .logException _ => 2
  | .exit | .unwinding => 1

/-- How many steps an auxiliary process has left. -/
def Auxiliary.stepsLeft (x : Auxiliary) : ℕ :=
  match x.pc with
  | .init pc => pc.stepsLeft + 3
  | .call => 3
  | .logReturned | .logException _ => 2
  | .abort | .exit | .unwinding => 1

/-- How many steps the monitoring process has left when the overseer is dead. -/
def Monitoring.stepsLeft (m : Monitoring) : ℕ :=
  match m.pc with
  | .init pc => m.workerPids.length + 9 + pc.stepsLeft
  | .select => m.workerPids.length + 11
  | .accept => m.workerPids.length + 10
  | .allocate | .respond => m.workerPids.length + 9
  | .testRunnerDied => m.workerPids.length + 8
  | .runnerDied => m.workerPids.length + 7
  | .logRunnerDied => m.workerPids.length + 6
  | .crashed _ | .catchSyscall .. => m.workerPids.length + 5
  | .logCrashed _ | .logSyscall .. => m.workerPids.length + 4
  | .killProcessGroup => m.workerPids.length + 3
  | .kill todo => todo.length + 2
  | .exit => 1

def Program.stepsLeft : Program → ℕ
  | .worker w => w.stepsLeft
  | .auxiliary x => x.stepsLeft
  | .monitoring m => m.stepsLeft

/-- The program has been told to come to its end. -/
def Program.Leaving (runnerDied shouldExit : Bool) : Program → Prop
  | .worker w => shouldExit = true ∨ w.terminated = true
  | .auxiliary _ => True
  | .monitoring _ => runnerDied = true

theorem InitStep.stepsLeft {pc pc' : InitPc} (h : InitStep pc o (.next pc') e) :
    pc'.stepsLeft < pc.stepsLeft := by
  cases h <;> simp [InitPc.stepsLeft]

theorem InitPc.stepsLeft_pos (pc : InitPc) : 0 < pc.stepsLeft := by
  cases pc <;> simp [InitPc.stepsLeft]

/-- **A step of a worker comes nearer to the end.** -/
theorem Worker.Step.stepsLeft {w w' : Worker} {shouldExit : Bool}
    (h : Worker.Step w shouldExit o w' e) (hw : shouldExit = true ∨ w.terminated = true)
    (hgoes : ∀ status, e ≠ some (.terminate status)) : w'.stepsLeft < w.stepsLeft := by
  cases h with
  | init hpc h =>
    have := h.stepsLeft
    simp only [Worker.stepsLeft, hpc]
    omega
  | @initDone pc _ _ hpc | @initThrows pc _ _ _ _ hpc =>
    have := pc.stepsLeft_pos
    simp only [Worker.stepsLeft, hpc]
    omega
  | shouldExit | terminated | exception | exit => exact absurd rfl (hgoes _)
  | stay hpc hflag =>
    have hterminated := hw.resolve_left (by simp [hflag])
    simp [Worker.stepsLeft, hpc, hterminated]
  | goOn hpc hterminated => simp [Worker.stepsLeft, hpc, hterminated]
  | notAccepted hpc | perlException hpc | diedUnnoticed hpc | fails hpc =>
    rcases hpc with hpc | hpc <;> simp [Worker.stepsLeft, hpc]
  | _ hpc => simp [Worker.stepsLeft, hpc]

theorem Auxiliary.Step.stepsLeft {x x' : Auxiliary} (h : Auxiliary.Step x o x' e)
    (hgoes : ∀ status, e ≠ some (.terminate status)) : x'.stepsLeft < x.stepsLeft := by
  cases h with
  | init hpc h =>
    have := h.stepsLeft
    simp only [Auxiliary.stepsLeft, hpc]
    omega
  | @initDone pc _ _ hpc | @initThrows pc _ _ _ _ hpc =>
    have := pc.stepsLeft_pos
    simp only [Auxiliary.stepsLeft, hpc]
    omega
  | exception | abort | exit => exact absurd rfl (hgoes _)
  | _ hpc => simp [Auxiliary.stepsLeft, hpc]

/-- **A step of the monitoring process comes nearer to the end**, once the overseer is dead. -/
theorem Monitoring.Step.stepsLeft {m m' : Monitoring} {shouldExit : Bool}
    (h : Monitoring.Step m true shouldExit o m' e)
    (hgoes : ∀ status, e ≠ some (.terminate status)) : m'.stepsLeft < m.stepsLeft := by
  cases h with
  | init hpc h =>
    have := h.stepsLeft
    simp only [Monitoring.stepsLeft, hpc]
    omega
  | @initDone pc _ _ hpc | @initThrows pc _ _ _ _ hpc =>
    have := pc.stepsLeft_pos
    simp only [Monitoring.stepsLeft, hpc]
    omega
  | throws hpc h =>
    rcases hpc with hpc | hpc | hpc | hpc | hpc | ⟨_, hpc⟩ <;>
      rcases h with ⟨_, _, -, rfl⟩ | ⟨_, -, rfl⟩ <;> simp only [Monitoring.stepsLeft, hpc] <;> omega
  | loop hpc => rcases hpc with hpc | hpc | hpc | hpc <;> simp [Monitoring.stepsLeft, hpc]
  | runnerLives _ h => cases h
  | setShouldExit hpc =>
    generalize hm : m.pc = pc at hpc
    cases hpc <;> dsimp only [Monitoring.stepsLeft] <;> split_ifs <;> simp [hm]
  | exit => exact absurd rfl (hgoes _)
  | _ hpc => simp [Monitoring.stepsLeft, hpc]

/-- **A step of a child comes nearer to the end.** -/
theorem Process.stepsLeft_step {runnerDied shouldExit : Bool} {program : Program}
    (h : p.step runnerDied shouldExit o = some (program, e))
    (hp : p.program.Leaving runnerDied shouldExit)
    (hgoes : ∀ status, e ≠ some (.terminate status)) :
    program.stepsLeft < p.program.stepsLeft := by
  cases Process.step_cases h with
  | worker hprogram h =>
    rw [hprogram] at hp ⊢
    exact h.stepsLeft hp hgoes
  | auxiliary hprogram h =>
    rw [hprogram]
    exact h.stepsLeft hgoes
  | monitoring hprogram h =>
    rw [hprogram] at hp ⊢
    obtain rfl : runnerDied = true := hp
    exact h.stepsLeft hgoes

/-- A signal does not put a child off. -/
theorem Process.stepsLeft_handle (p : Process) (sig : Signal) :
    (p.handle sig).1.stepsLeft ≤ p.program.stepsLeft := by
  obtain ⟨program, _, _, _⟩ := p
  cases program with
  | worker w =>
    cases sig with
    | sigterm =>
      obtain ⟨_, pc, terminated⟩ := w
      cases pc <;> cases terminated <;>
        simp [Process.handle, Worker.handle, Program.stepsLeft, Worker.stepsLeft]
    | _ => exact Nat.le_refl _
  | auxiliary | monitoring => cases sig <;> exact Nat.le_refl _

theorem Program.stepsLeft_pos (program : Program) : 0 < program.stepsLeft := by
  cases program with
  | worker w =>
    simp only [Program.stepsLeft, Worker.stepsLeft]
    split <;> (try split_ifs) <;> omega
  | auxiliary x =>
    simp only [Program.stepsLeft, Auxiliary.stepsLeft]
    split <;> omega
  | monitoring m =>
    simp only [Program.stepsLeft, Monitoring.stepsLeft]
    split <;> omega

/-! ## The rank in the group -/

/-- How many steps the child has left. -/
def State.stepsLeft (s : State) (pid : Pid) : ℕ :=
  ((s.processes pid).map fun p => p.program.stepsLeft).getD 0

theorem stepsLeft_of_some (hp : s.processes pid = some p) :
    s.stepsLeft pid = p.program.stepsLeft := by
  simp [State.stepsLeft, hp]

theorem stepsLeft_of_none (hp : s.processes pid = none) : s.stepsLeft pid = 0 := by
  simp [State.stepsLeft, hp]

/-- The child, unless it is gone, has been told to come to its end. -/
def State.Leaving (s : State) (pid : Pid) : Prop :=
  ∀ p, s.processes pid = some p →
    p.program.Leaving s.runnerDied s.overseer.shouldExitImmediately

/-- A step of the child. -/
def Action.isStepOf (pid : Pid) : Action → Bool
  | .child q _ => q = pid
  | _ => false

/-- The overseer stays dead. -/
theorem Step.runnerDied (h : Step cfg s a s' es) (hd : s.runnerDied = true) :
    s'.runnerDied = true := by
  simp only [State.runnerDied, Bool.or_eq_true] at hd ⊢
  have child : ∀ {pid p e}, ChildStep s pid p e s' es →
      s'.overseer.terminated.isSome ∨ s'.runnerKilled = true := by
    intro pid p e hc
    cases hc with
    | kill => simpa using hd
    | _ => exact hd
  cases h with
  | overseer hk h =>
    have ht := hd.resolve_right (by simp [hk])
    cases Overseer.step_cases h with
    | main hrun | handler hrun => simp [hrun] at ht
  | deliver hk h =>
    have ht := hd.resolve_right (by simp [hk])
    cases Overseer.step_cases h with
    | deliver hc => simp [hc.1] at ht
  | child _ _ hc | deliverChild _ _ _ hc => exact child hc
  | signal => simpa using hd
  | killRunner => exact Or.inr rfl
  | raise | dies => exact hd

theorem Step.flag (h : Step cfg s a s' es) (hflag : s.overseer.shouldExitImmediately = true) :
    s'.overseer.shouldExitImmediately = true := by
  rw [h.flag_eq, hflag, Bool.true_or]

/-- A child that is leaving does not stop leaving. -/
theorem Program.Leaving.mono {program : Program} {died died' flag flag' : Bool}
    (h : program.Leaving died flag) (hdied : died = true → died' = true)
    (hflag : flag = true → flag' = true) : program.Leaving died' flag' := by
  cases program with
  | worker w => exact Or.imp_left hflag h
  | auxiliary x => trivial
  | monitoring m => exact hdied h

theorem Process.leaving_step {died flag : Bool} {program : Program}
    (h : p.step died flag o = some (program, e)) (hp : p.program.Leaving died flag) :
    program.Leaving died flag := by
  cases Process.step_cases h with
  | worker hprogram h =>
    rw [hprogram] at hp
    exact hp.imp_right h.terminated_eq.trans
  | auxiliary => trivial
  | monitoring hprogram =>
    rw [hprogram] at hp
    exact hp

theorem Process.leaving_handle {died flag : Bool} (sig : Signal)
    (hp : p.program.Leaving died flag) : (p.handle sig).1.Leaving died flag := by
  obtain ⟨program, _, _, _⟩ := p
  cases program with
  | worker w => exact Or.imp_right (fun ht => Worker.terminated_handle ht sig) hp
  | auxiliary x => trivial
  | monitoring m => exact hp

/-- **The step lemma.** -/
theorem Step.leaving (h : Step cfg s a s' es) (hnew : ∀ child, .overseer (.fork pid child) ∉ es)
    (hl : s.Leaving pid) :
    s'.Leaving pid ∧ s'.stepsLeft pid + (if a.isStepOf pid then 1 else 0) ≤ s.stepsLeft pid := by
  have mono : ∀ {program : Program},
      program.Leaving s.runnerDied s.overseer.shouldExitImmediately →
      program.Leaving s'.runnerDied s'.overseer.shouldExitImmediately :=
    fun hp => hp.mono h.runnerDied h.flag
  cases hp' : s'.processes pid with
  | none =>
    refine ⟨fun p hp => absurd (hp'.symm.trans hp) (by simp), ?_⟩
    rw [stepsLeft_of_none hp', Nat.zero_add]
    split_ifs with ha
    · cases h with
      | child hp =>
        obtain rfl : _ = pid := of_decide_eq_true ha
        rw [stepsLeft_of_some hp]
        exact Program.stepsLeft_pos _
      | _ => cases ha
    · exact Nat.zero_le _
  | some p' =>
    rw [stepsLeft_of_some hp']
    by_cases ha : a.isStepOf pid = true
    · rw [if_pos ha]
      cases h with
      | @child q o p program e _ _ hp h hc =>
        obtain rfl : q = pid := of_decide_eq_true ha
        obtain ⟨p₀, ⟨-, rfl⟩ | ⟨hne, -⟩, hprogram, -⟩ := hc.processes hp'
        · have hgoes : ∀ status, e ≠ some (.terminate status) := by
            rintro status rfl
            cases hc with
            | terminate => simp [State.without] at hp'
            | note hterminate => exact hterminate _ rfl
          rw [hprogram, stepsLeft_of_some hp]
          refine ⟨fun p₁ hp₁ => ?_, Process.stepsLeft_step h (hl p hp) hgoes⟩
          obtain rfl := Option.some.inj (hp'.symm.trans hp₁)
          rw [hprogram]
          exact mono (Process.leaving_step h (hl p hp))
        · exact absurd rfl hne
      | _ => cases ha
    · rw [if_neg ha, Nat.add_zero]
      suffices hkey : p'.program.Leaving s.runnerDied s.overseer.shouldExitImmediately ∧
          p'.program.stepsLeft ≤ s.stepsLeft pid by
        refine ⟨fun p₁ hp₁ => ?_, hkey.2⟩
        obtain rfl := Option.some.inj (hp'.symm.trans hp₁)
        exact mono hkey.1
      generalize hprogram : p'.program = program
      cases hprogram ▸ h.comes hp' with
      | forked hf => exact absurd hf (hnew _)
      | kept hp => exact ⟨hl _ hp, (stepsLeft_of_some hp).ge⟩
      | stepped hchild => exact absurd (by simp [hchild, Action.isStepOf]) ha
      | handled _ hp =>
        rw [stepsLeft_of_some hp]
        exact ⟨Process.leaving_handle _ (hl _ hp), Process.stepsLeft_handle _ _⟩

/-- **The rank of a child that has been told to come to its end**, whatever the others do. -/
theorem countP_isStepOf_add_le (h : Reach cfg tr s) (hp : s.processes pid = some p)
    (hl : p.program.Leaving s.runnerDied s.overseer.shouldExitImmediately)
    (he : (machine cfg).exec s as = some (t, tr')) :
    as.countP (Action.isStepOf pid) + t.stepsLeft pid ≤ p.program.stepsLeft := by
  obtain ⟨child, hfork⟩ := forked_of_isSome h (Option.isSome_of_mem hp)
  have hrank := Machine.countP_add_le
    (fun s => (∃ tr child, Reach cfg tr s ∧ .overseer (.fork pid child) ∈ tr) ∧ s.Leaving pid)
    (fun s => s.stepsLeft pid) (Action.isStepOf pid) ?_ ⟨⟨tr, child, h, hfork⟩, ?_⟩ he
  · rw [← stepsLeft_of_some hp]
    exact hrank.2
  · rintro s a s' es ⟨⟨tr, child, hreach, hfork⟩, hl⟩ hs
    have hstep := step_cases hs
    have hl' := hstep.leaving (fun child' hf => hstep.fork_new hreach hf child hfork) hl
    refine ⟨⟨⟨tr ++ es, child, hreach.snoc trivial hs, List.mem_append_left _ hfork⟩, hl'.1⟩, hl'.2⟩
  · rintro p₁ hp₁
    rwa [Option.some.inj (hp₁.symm.trans hp)]

/-- Nothing outside of a child keeps it from a step. -/
theorem isSome_childStep (h : Reach cfg tr s) (hp : (s.processes pid).isSome) (p' : Process)
    (e : Option ChildEvent) : (s.childStep cfg pid p' e).isSome := by
  unfold State.childStep
  split
  · rfl
  · simp only [State.childDies, childDies_step ((isSome_processes_iff h pid).1 hp)]
    rfl
  · dsimp only
    split <;> rfl

theorem Process.isSome_step (p : Process) (died flag : Bool) :
    (p.step died flag .ok).isSome ∨ (p.step died flag .timeout).isSome := by
  obtain ⟨program, _, _, _⟩ := p
  simp only [Process.step]
  cases program with
  | worker w =>
    refine Or.inl ?_
    simp only [Worker.step, Option.isSome_map]
    cases w.pc with
    | init pc => cases pc <;> rfl
    | testShouldExit | testTerminated =>
      dsimp only
      split_ifs <;> rfl
    | _ => rfl
  | auxiliary x =>
    refine Or.inl ?_
    simp only [Auxiliary.step, Option.isSome_map]
    cases x.pc with
    | init pc => cases pc <;> rfl
    | _ => rfl
  | monitoring m =>
    simp only [Monitoring.step, Option.isSome_map]
    cases m.pc with
    | init pc => cases pc <;> exact Or.inl rfl
    | select => exact Or.inr rfl
    | kill todo => cases todo <;> exact Or.inl rfl
    | _ => exact Or.inl rfl

/-- A child that lives has a next step, and needs no more for it than a call that returns. -/
theorem exists_step (h : Reach cfg tr s) (hp : s.processes pid = some p) :
    ∃ o, (o = .ok ∨ o = .timeout) ∧ ((machine cfg).step s (.child pid o)).isSome := by
  have lift : ∀ {o}, (p.step s.runnerDied s.overseer.shouldExitImmediately o).isSome →
      ((machine cfg).step s (.child pid o)).isSome := by
    intro o hstep
    obtain ⟨⟨program, e⟩, hstep⟩ := Option.isSome_iff_exists.1 hstep
    change (step cfg s (.child pid o)).isSome
    simp only [step, hp, hstep]
    exact isSome_childStep h (Option.isSome_of_mem hp) _ _
  rcases p.isSome_step s.runnerDied s.overseer.shouldExitImmediately with hstep | hstep
  · exact ⟨.ok, Or.inl rfl, lift hstep⟩
  · exact ⟨.timeout, Or.inr rfl, lift hstep⟩

/-- A worker that has been asked to terminate, at the head of its loop. -/
def asked : List Action :=
  startup ++ [.child 10 .ok, .child 10 .ok, .child 10 .ok, .child 10 .ok, .signal 10 .sigterm,
    .deliverChild 10 .sigterm]

theorem isSome_exec_asked :
    ((machine Overseer.oneWorker).exec (init Overseer.oneWorker) asked).isSome := by
  decide

/-- **A child that has been told to come to its end does so**, whatever the others do: it makes no
more steps than its rank, and as long as it lives it has made fewer and is not stuck. -/
theorem child_ends (h : Reach cfg tr s) (hp : s.processes pid = some p)
    (hl : p.program.Leaving s.runnerDied s.overseer.shouldExitImmediately)
    (he : (machine cfg).exec s as = some (t, tr')) :
    as.countP (Action.isStepOf pid) ≤ p.program.stepsLeft ∧
      ∀ p', t.processes pid = some p' → as.countP (Action.isStepOf pid) < p.program.stepsLeft ∧
        ∃ o, (o = .ok ∨ o = .timeout) ∧ ((machine cfg).step t (.child pid o)).isSome := by
  have hrank := countP_isStepOf_add_le h hp hl he
  refine ⟨Nat.le_of_add_right_le hrank, fun p' hp' => ⟨?_, ?_⟩⟩
  · have hpos := p'.program.stepsLeft_pos
    rw [stepsLeft_of_some hp'] at hrank
    omega
  · exact exists_step (Machine.Reach.trans h (Machine.reach_of_exec he)) hp'

theorem child_ends_asked : ∃ tr s p t tr', Reach Overseer.oneWorker tr s ∧
    s.processes 10 = some p ∧
    (machine Overseer.oneWorker).exec s [.child 10 .ok, .child 10 .ok] = some (t, tr') ∧
    [Action.child 10 .ok, .child 10 .ok].countP (Action.isStepOf 10) ≤ p.program.stepsLeft := by
  have h := Machine.reach_exec isSome_exec_asked
  have hprogram : ((((machine Overseer.oneWorker).exec (init Overseer.oneWorker) asked).get
      isSome_exec_asked).1.processes 10).map Process.program =
        some (.worker ⟨0, .testShouldExit, true⟩) := by
    decide
  have he : ((machine Overseer.oneWorker).exec
      (((machine Overseer.oneWorker).exec (init Overseer.oneWorker) asked).get
        isSome_exec_asked).1 [.child 10 .ok, .child 10 .ok]).isSome := by
    decide
  obtain ⟨p, hp, hprogram⟩ := Option.map_eq_some_iff.1 hprogram
  have hends := child_ends h hp (by rw [hprogram]; exact Or.inr rfl) (Option.some_get he).symm
  exact ⟨_, _, p, _, _, h, hp, (Option.some_get he).symm, hends.1⟩

/-! ## The monitoring process -/

/-- The monitoring process has passed `SetShouldExitImmediately`. -/
def Monitoring.Pc.Claimed : Monitoring.Pc → Prop
  | .logRunnerDied | .logCrashed _ | .logSyscall .. | .killProcessGroup | .kill _ | .exit => True
  | _ => False

theorem Monitoring.Step.claimed {m m' : Monitoring} {died shouldExit : Bool}
    (h : Monitoring.Step m died shouldExit o m' e) (hpc : m'.pc.Claimed) :
    m.pc.Claimed ∨ ∃ changed, e = some (.setShouldExit changed) := by
  cases h with
  | throws _ h => rcases h with ⟨_, _, -, rfl⟩ | ⟨_, -, rfl⟩ <;> exact hpc.elim
  | setShouldExit => exact Or.inr ⟨_, rfl⟩
  | logRunnerDied hpc' | logCrashed hpc' | logSyscall hpc' | killpg hpc' | kill hpc'
  | killpgReturn hpc' | exit hpc' =>
    rw [hpc']
    exact Or.inl trivial
  | _ => exact hpc.elim

/-- What the monitoring processes of the group have in common. -/
structure Watch (cfg : Overseer.Config) (shouldExit : Bool) (m : Monitoring) : Prop where
  workerPids : m.workerPids.length ≤ cfg.nworkers
  todo : ∀ todo, m.pc = .kill todo → todo.length ≤ cfg.nworkers
  flag : m.pc.Claimed → shouldExit = true

/-- The overseer has at most `nworkers` workers. -/
theorem length_workerPids_le (h : Reach cfg tr s) :
    s.overseer.workerPids.length ≤ cfg.nworkers := by
  have hreach := reach_overseer h
  have hsub : s.overseer.workerPids ⊆ (workerForks tr).map Prod.fst := by
    intro pid hpid
    obtain ⟨workerno, hf⟩ := (Overseer.kinds_of_reach hreach).worker pid hpid
    exact List.mem_map.2 ⟨(pid, workerno), mem_workerForks.2 (mem_overseerTrace.1 hf), rfl⟩
  calc s.overseer.workerPids.length ≤ ((workerForks tr).map Prod.fst).length :=
        ((Overseer.books_of_reach hreach).1.nodup_workers.subperm hsub).length_le
    _ = (workerForks tr).length := List.length_map _
    _ ≤ cfg.nworkers := length_workerForks_le h

theorem Monitoring.Step.workerPids {m m' : Monitoring} {died shouldExit : Bool}
    (h : Monitoring.Step m died shouldExit o m' e) : m'.workerPids = m.workerPids := by
  cases h <;> rfl

theorem Monitoring.Step.todo {m m' : Monitoring} {died shouldExit : Bool} {todo : List Pid}
    (h : Monitoring.Step m died shouldExit o m' e) (hpc : m'.pc = .kill todo) :
    todo = m.workerPids ∨ ∃ q, m.pc = .kill (q :: todo) := by
  cases h with
  | throws _ h => rcases h with ⟨_, _, -, rfl⟩ | ⟨_, -, rfl⟩ <;> cases hpc
  | @setShouldExit yes no hcaught =>
    generalize m.pc = pc at hcaught
    cases hcaught <;> cases shouldExit <;> cases hpc
  | killpg => exact Or.inl (Monitoring.Pc.kill.inj hpc).symm
  | @kill q _ hpc' =>
    rw [← Monitoring.Pc.kill.inj hpc]
    exact Or.inr ⟨q, hpc'⟩
  | exit hpc' =>
    rw [hpc'] at hpc
    cases hpc
  | _ => cases hpc

theorem ChildStep.fork_notMem (h : ChildStep s pid p e s' es) (q : Pid) (child : Overseer.Child) :
    .overseer (.fork q child) ∉ es := by
  cases h <;> simp

/-- **The step lemma of the monitoring processes.** -/
theorem Step.watch (hreach : Reach cfg tr s') (h : Step cfg s a s' es)
    (ih : ∀ pid p m, s.processes pid = some p → p.program = .monitoring m →
      Watch cfg s.overseer.shouldExitImmediately m)
    {m : Monitoring} (hp : s'.processes pid = some p) (hprogram : p.program = .monitoring m) :
    Watch cfg s'.overseer.shouldExitImmediately m := by
  have kept : ∀ {p₀}, s.processes pid = some p₀ → p₀.program = .monitoring m →
      Watch cfg s'.overseer.shouldExitImmediately m := by
    intro p₀ hp₀ heq
    have hw := ih pid p₀ m hp₀ heq
    exact ⟨hw.workerPids, hw.todo, fun hpc => h.flag (hw.flag hpc)⟩
  have fork : ∀ {overseer : Overseer.State} {child}, overseer = s'.overseer →
      p.program = (Process.forked overseer child).program →
      Watch cfg s'.overseer.shouldExitImmediately m := by
    rintro overseer child rfl heq
    cases child with
    | monitoring =>
      obtain rfl := Program.monitoring.inj (hprogram.symm.trans heq)
      exact ⟨length_workerPids_le hreach, fun _ hpc => by simp at hpc, False.elim⟩
    | worker | auxiliary => cases hprogram.symm.trans heq
  generalize hcomes : p.program = program at hprogram
  cases hcomes ▸ h.comes hp with
  | forked hf =>
    cases h with
    | overseer _ h | deliver _ h =>
      rcases processes_foldl hp with ⟨child, -, ht⟩ | ⟨p₀, hp₀, ht⟩
      · exact fork overseer_foldl.symm ht.program
      · exact kept hp₀ (ht.program.symm.trans (hcomes.trans hprogram))
    | child _ _ hc | deliverChild _ _ _ hc => exact absurd hf (hc.fork_notMem _ _)
    | _ => simp at hf
  | kept hp₀ => exact kept hp₀ hprogram
  | @stepped o p₀ _ e ha hp₀ hstep =>
    subst hprogram ha
    cases h with
    | child hp₁ hstep' hc =>
      obtain rfl := Option.some.inj (hp₀.symm.trans hp₁)
      obtain ⟨-, rfl⟩ := Prod.mk.inj (Option.some.inj (hstep.symm.trans hstep'))
      cases Process.step_cases hstep with
      | monitoring hm hmonitoring =>
        have hw := ih pid p₀ _ hp₀ hm
        refine ⟨hmonitoring.workerPids ▸ hw.workerPids, fun todo hpc => ?_, fun hpc => ?_⟩
        · rcases hmonitoring.todo hpc with rfl | ⟨q, hpc⟩
          · exact hw.workerPids
          · exact Nat.le_of_succ_le (hw.todo _ hpc)
        · rw [hc.flag_eq]
          rcases hmonitoring.claimed hpc with hpc | ⟨changed, rfl⟩
          · rw [hw.flag hpc]
            cases e with
            | none => rfl
            | some e => cases e <;> rfl
          · rfl
  | @handled sig p₀ _ hp₀ =>
    refine kept hp₀ ?_
    obtain ⟨program, _, _, _⟩ := p₀
    cases program with
    | monitoring => cases sig <;> exact hprogram
    | worker | auxiliary => cases hprogram

/-- **The invariant of the monitoring processes.** -/
theorem watch_of_reach (h : Reach cfg tr s) {m : Monitoring} (hp : s.processes pid = some p)
    (hprogram : p.program = .monitoring m) : Watch cfg s.overseer.shouldExitImmediately m := by
  refine h.invariant (fun _ s => ∀ pid p m, s.processes pid = some p → p.program = .monitoring m →
    Watch cfg s.overseer.shouldExitImmediately m) (fun _ _ _ hp => by cases hp) ?_
    pid p m hp hprogram
  rintro tr s a s' es hreach ih - hs pid p m hp hprogram
  exact (step_cases hs).watch (hreach.snoc trivial hs) ih hp hprogram

/-- What has been forked as the monitoring process goes on as it. -/
theorem Step.isMonitoring (h : Step cfg s a s' es)
    (hnew : ∀ child, .overseer (.fork pid child) ∉ es)
    (hm : ∀ p, s.processes pid = some p → p.program.IsMonitoring)
    (hp : s'.processes pid = some p) : p.program.IsMonitoring := by
  generalize hprogram : p.program = program
  cases hprogram ▸ h.comes hp with
  | forked hf => exact absurd hf (hnew _)
  | kept hp₀ => exact hm _ hp₀
  | @stepped _ p₀ _ _ _ hp₀ hstep =>
    have hm₀ := hm p₀ hp₀
    cases Process.step_cases hstep with
    | monitoring => trivial
    | worker hprogram₀ | auxiliary hprogram₀ =>
      rw [hprogram₀] at hm₀
      exact hm₀.elim
  | @handled sig p₀ _ hp₀ =>
    have hm₀ := hm p₀ hp₀
    obtain ⟨program, _, _, _⟩ := p₀
    cases program with
    | monitoring => trivial
    | worker | auxiliary => exact hm₀.elim

/-- The monitoring process ends by itself only after the exit flag is set. -/
theorem Step.flag_of_terminate (hreach : Reach cfg tr s) (h : Step cfg s a s' es)
    (hm : ∀ p, s.processes pid = some p → p.program.IsMonitoring)
    (he : .child pid (.terminate (.exited 1)) ∈ es) :
    s.overseer.shouldExitImmediately = true := by
  cases h.emits he with
  | stepped _ hp hstep =>
    have hm₀ := hm _ hp
    cases Process.step_cases hstep with
    | monitoring hprogram hmonitoring =>
      cases hmonitoring with
      | exit hpc =>
        exact (watch_of_reach hreach hp hprogram).flag (by simp [hpc, Monitoring.Pc.Claimed])
      | init _ h | initDone _ h | initThrows _ h => exact h.isInit.elim
    | worker hprogram | auxiliary hprogram =>
      rw [hprogram] at hm₀
      exact hm₀.elim
  | @handled sig p₀ _ hp hhandle =>
    have hm₀ := hm _ hp
    obtain ⟨program, _, _, _⟩ := p₀
    cases program with
    | monitoring => cases sig <;> simp [Process.handle, Monitoring.handle] at hhandle
    | worker | auxiliary => exact hm₀.elim

theorem Monitoring.stepsLeft_le {m : Monitoring} {n : ℕ} (hn : m.workerPids.length ≤ n)
    (hkill : ∀ todo, m.pc = .kill todo → todo.length ≤ n) : m.stepsLeft ≤ n + 13 := by
  simp only [Monitoring.stepsLeft]
  split
  case h_1 pc _ => cases pc <;> simp only [InitPc.stepsLeft] <;> omega
  case h_14 todo hpc =>
    have := hkill todo hpc
    omega
  all_goals omega

/-- **The monitoring process outlives the overseer only to set the exit flag.** Once the overseer is
dead, it makes at most `nworkers + 13` more steps, and it does not end by itself, with status 1,
before the flag is set. -/
theorem monitoring_ends {m : Monitoring} (h : Reach cfg tr s) (hdied : s.runnerDied = true)
    (hp : s.processes pid = some p) (hprogram : p.program = .monitoring m)
    (he : (machine cfg).exec s as = some (t, tr')) :
    as.countP (Action.isStepOf pid) ≤ cfg.nworkers + 13 ∧
      (.child pid (.terminate (.exited 1)) ∈ tr' → t.overseer.shouldExitImmediately = true) := by
  have hwatch := watch_of_reach h hp hprogram
  constructor
  · have hrank := countP_isStepOf_add_le h hp (by rw [hprogram]; exact hdied) he
    have hle : p.program.stepsLeft ≤ cfg.nworkers + 13 := by
      rw [hprogram]
      exact m.stepsLeft_le hwatch.workerPids hwatch.todo
    omega
  · obtain ⟨child, hfork⟩ := forked_of_isSome h (Option.isSome_of_mem hp)
    refine ((Machine.reach_of_exec he).invariant (fun tr' t => Reach cfg (tr ++ tr') t ∧
      (∀ p, t.processes pid = some p → p.program.IsMonitoring) ∧
        (.child pid (.terminate (.exited 1)) ∈ tr' → t.overseer.shouldExitImmediately = true))
      ⟨by simpa using h, ?_, by simp⟩ ?_).2.2
    · intro p₁ hp₁
      obtain rfl := Option.some.inj (hp.symm.trans hp₁)
      rw [hprogram]
      trivial
    · rintro tr' t a t' es - ⟨hreach, hm, ih⟩ - hs
      have hstep := step_cases hs
      refine ⟨?_, fun p hp => hstep.isMonitoring (fun child' hf => ?_) hm hp, fun hmem => ?_⟩
      · rw [← List.append_assoc]
        exact hreach.snoc trivial hs
      · exact hstep.fork_new hreach hf child (List.mem_append_left _ hfork)
      · rcases List.mem_append.1 hmem with hmem | hmem
        · exact hstep.flag (ih hmem)
        · exact hstep.flag (hstep.flag_of_terminate hreach hm hmem)

/-- The children come up, and the overseer is killed. -/
def orphaned : List Action :=
  startup ++ [.child 10 .ok, .child 10 .ok, .child 10 .ok, .child 10 .ok, .child 11 .ok,
    .child 11 .ok, .child 11 .ok, .child 11 .ok, .killRunner]

/-- The monitoring process notices. -/
def watched : List Action :=
  [.child 11 .ok, .child 11 .ok, .child 11 .ok, .child 11 .ok]

theorem isSome_exec_orphaned :
    ((machine Overseer.oneWorker).exec (init Overseer.oneWorker) orphaned).isSome := by
  decide

/-- The state in which the overseer is dead. -/
def orphans : State :=
  (((machine Overseer.oneWorker).exec (init Overseer.oneWorker) orphaned).get
    isSome_exec_orphaned).1

theorem isSome_exec_watched : ((machine Overseer.oneWorker).exec orphans watched).isSome := by
  decide

/-- The monitoring process of `orphans`. -/
theorem exists_monitoring_orphans : ∃ p m, orphans.processes 11 = some p ∧
    p.program = .monitoring m := by
  have h : (orphans.processes 11).map Process.program =
      some (.monitoring ⟨[10], .testRunnerDied⟩) := by
    decide
  obtain ⟨p, hp, hprogram⟩ := Option.map_eq_some_iff.1 h
  exact ⟨p, _, hp, hprogram⟩

theorem monitoring_ends_watched : ∃ t tr',
    (machine Overseer.oneWorker).exec orphans watched = some (t, tr') ∧
    .child 11 (.terminate (.exited 1)) ∈ tr' ∧ t.overseer.shouldExitImmediately = true := by
  obtain ⟨p, m, hp, hprogram⟩ := exists_monitoring_orphans
  have hends := monitoring_ends (Machine.reach_exec isSome_exec_orphaned) (by decide) hp hprogram
    (Option.some_get isSome_exec_watched).symm
  have hmem : Event.child 11 (.terminate (.exited 1)) ∈
      (((machine Overseer.oneWorker).exec orphans watched).get isSome_exec_watched).2 := by
    decide
  exact ⟨_, _, (Option.some_get isSome_exec_watched).symm, hmem, hends.2 hmem⟩

/-! ## All the children together -/

/-- A step of a child. -/
def Action.isChild : Action → Bool
  | .child .. => true
  | _ => false

/-- A dead overseer forks nobody. -/
theorem Step.fork_notMem (h : Step cfg s a s' es) (hd : s.runnerDied = true) (pid : Pid)
    (child : Overseer.Child) : .overseer (.fork pid child) ∉ es := by
  have alive : s.runnerKilled = false → ∀ {b overseer es'},
      (Overseer.machine cfg).step s.overseer b = some (overseer, es') →
      (∃ o, b = .run o) ∨ (∃ sig, b = .deliver sig) → False := by
    intro hk b overseer es' hs hb
    simp only [State.runnerDied, hk, Bool.or_false] at hd
    rcases hb with ⟨o, rfl⟩ | ⟨sig, rfl⟩
    · cases Overseer.step_cases hs with
      | main hrun | handler hrun => simp [hrun] at hd
    · cases Overseer.step_cases hs with
      | deliver hc => simp [hc.1] at hd
  cases h with
  | overseer hk h => exact (alive hk h (Or.inl ⟨_, rfl⟩)).elim
  | deliver hk h => exact (alive hk h (Or.inr ⟨_, rfl⟩)).elim
  | child _ _ hc | deliverChild _ _ _ hc => exact hc.fork_notMem _ _
  | _ => simp

/-- Without a fork no child appears. -/
theorem Step.isSome_of_isSome (h : Step cfg s a s' es)
    (hnew : ∀ child, .overseer (.fork pid child) ∉ es) (hp : (s'.processes pid).isSome) :
    (s.processes pid).isSome := by
  obtain ⟨p, hp⟩ := Option.isSome_iff_exists.1 hp
  generalize hprogram : p.program = program
  cases hprogram ▸ h.comes hp with
  | forked hf => exact absurd hf (hnew _)
  | kept hp₀ | stepped _ hp₀ | handled _ hp₀ => exact Option.isSome_of_mem hp₀

/-- A step of a child is a step of one of those that live. -/
theorem Step.isChild_le {alive : Finset Pid} (h : Step cfg s a s' es)
    (halive : ∀ pid, (s.processes pid).isSome → pid ∈ alive) :
    (if a.isChild then 1 else 0) ≤ ∑ pid ∈ alive, (if a.isStepOf pid then 1 else 0) := by
  cases a with
  | child pid o =>
    have hmem : pid ∈ alive := by
      cases h with
      | child hp => exact halive pid (Option.isSome_of_mem hp)
    calc 1 = if (Action.child pid o).isStepOf pid then 1 else 0 := by
          simp [Action.isStepOf]
      _ ≤ _ := Finset.single_le_sum
        (f := fun q => if (Action.child pid o).isStepOf q then 1 else 0)
        (fun _ _ => Nat.zero_le _) hmem
  | _ => exact Nat.zero_le _

/-- **The rank of all the children together**, where they have all been told to come to their end
and nothing is forked any more. -/
theorem countP_isChild_add_le (I : State → Prop)
    (hI : ∀ s a s' es, I s → Step cfg s a s' es →
      I s' ∧ ∀ pid child, .overseer (.fork pid child) ∉ es)
    (h : Reach cfg tr s) (hs : I s) (hl : ∀ pid, s.Leaving pid)
    (he : (machine cfg).exec s as = some (t, tr')) :
    as.countP Action.isChild + ∑ pid ∈ s.overseer.children.alive, t.stepsLeft pid ≤
      ∑ pid ∈ s.overseer.children.alive, s.stepsLeft pid := by
  let alive := s.overseer.children.alive
  refine (Machine.countP_add_le
    (fun s => I s ∧ (∀ pid, s.Leaving pid) ∧ ∀ pid, (s.processes pid).isSome → pid ∈ alive)
    (fun s => ∑ pid ∈ alive, s.stepsLeft pid) Action.isChild ?_
    ⟨hs, hl, fun pid => (isSome_processes_iff h pid).1⟩ he).2
  rintro s a s' es ⟨hs, hl, halive⟩ hstep
  have hstep := step_cases hstep
  obtain ⟨hs', hnew⟩ := hI s a s' es hs hstep
  have hleaving pid := hstep.leaving (hnew pid) (hl pid)
  refine ⟨⟨hs', fun pid => (hleaving pid).1,
    fun pid hp => halive pid (hstep.isSome_of_isSome (hnew pid) hp)⟩, ?_⟩
  calc (∑ pid ∈ alive, s'.stepsLeft pid) + (if a.isChild then 1 else 0)
      ≤ ∑ pid ∈ alive, (s'.stepsLeft pid + if a.isStepOf pid then 1 else 0) := by
        rw [Finset.sum_add_distrib]
        exact Nat.add_le_add_left (hstep.isChild_le halive) _
    _ ≤ ∑ pid ∈ alive, s.stepsLeft pid := Finset.sum_le_sum fun pid _ => (hleaving pid).2

/-- With the exit flag set and the overseer dead everybody is leaving. -/
theorem Program.leaving (program : Program) : program.Leaving true true := by
  cases program <;> simp [Program.Leaving]

theorem stepsLeft_le (h : Reach cfg tr s) (pid : Pid) : s.stepsLeft pid ≤ cfg.nworkers + 13 := by
  cases hp : s.processes pid with
  | none =>
    rw [stepsLeft_of_none hp]
    exact Nat.zero_le _
  | some p =>
    rw [stepsLeft_of_some hp]
    cases hprogram : p.program with
    | worker w =>
      simp only [Program.stepsLeft, Worker.stepsLeft]
      split
      case h_1 pc _ => cases pc <;> simp only [InitPc.stepsLeft] <;> omega
      all_goals (try split_ifs) <;> omega
    | auxiliary x =>
      simp only [Program.stepsLeft, Auxiliary.stepsLeft]
      split
      case h_1 pc _ => cases pc <;> simp only [InitPc.stepsLeft] <;> omega
      all_goals omega
    | monitoring m =>
      have hwatch := watch_of_reach h hp hprogram
      exact m.stepsLeft_le hwatch.workerPids hwatch.todo

theorem sum_stepsLeft_le (h : Reach cfg tr s) (alive : Finset Pid) :
    ∑ pid ∈ alive, s.stepsLeft pid ≤ alive.card * (cfg.nworkers + 13) :=
  calc ∑ pid ∈ alive, s.stepsLeft pid
      ≤ ∑ _pid ∈ alive, (cfg.nworkers + 13) := Finset.sum_le_sum fun pid _ => stepsLeft_le h pid
    _ = alive.card * (cfg.nworkers + 13) := Finset.sum_const_nat fun _ _ => rfl

/-- **The group comes to its end.** Once the overseer is dead and the exit flag is set, all the
children together make a bounded number of steps, and as long as one of them lives it is not
stuck. -/
theorem children_end (h : Reach cfg tr s) (hdied : s.runnerDied = true)
    (hflag : s.overseer.shouldExitImmediately = true)
    (he : (machine cfg).exec s as = some (t, tr')) :
    as.countP Action.isChild ≤ s.overseer.children.alive.card * (cfg.nworkers + 13) ∧
      ∀ pid p, t.processes pid = some p →
        ∃ o, (o = .ok ∨ o = .timeout) ∧ ((machine cfg).step t (.child pid o)).isSome := by
  refine ⟨?_, fun pid p hp => exists_step (Machine.Reach.trans h (Machine.reach_of_exec he)) hp⟩
  have hrank := countP_isChild_add_le (fun s => s.runnerDied = true)
    (fun s a s' es hd hstep => ⟨hstep.runnerDied hd, hstep.fork_notMem hd⟩) h hdied
    (fun pid p _ => by
      rw [hdied, hflag]
      exact Program.leaving _) he
  have hsum := sum_stepsLeft_le h s.overseer.children.alive
  omega

/-- The worker of `orphans` after the flag is set. -/
def drained : List Action := [.child 10 .ok]

theorem isSome_exec_watched_orphaned : ((machine Overseer.oneWorker).exec
    (init Overseer.oneWorker) (orphaned ++ watched)).isSome := by
  decide

theorem isSome_exec_drained : ((machine Overseer.oneWorker).exec
    (((machine Overseer.oneWorker).exec (init Overseer.oneWorker) (orphaned ++ watched)).get
      isSome_exec_watched_orphaned).1 drained).isSome := by
  decide

theorem children_end_drained : ∃ tr s t tr', Reach Overseer.oneWorker tr s ∧
    s.runnerDied = true ∧ s.processes 10 ≠ none ∧
    (machine Overseer.oneWorker).exec s drained = some (t, tr') ∧
    drained.countP Action.isChild ≤
      s.overseer.children.alive.card * (Overseer.oneWorker.nworkers + 13) := by
  have h := Machine.reach_exec isSome_exec_watched_orphaned
  refine ⟨_, _, _, _, h, by decide, ?_, (Option.some_get isSome_exec_drained).symm, ?_⟩
  · rw [← Option.isSome_iff_ne_none]
    decide
  · exact (children_end h (by decide) (by decide) (Option.some_get isSome_exec_drained).symm).1

end BladePSGI.Group
