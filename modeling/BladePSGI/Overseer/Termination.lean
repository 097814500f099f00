import BladePSGI.Foundations.Ranking
import BladePSGI.Overseer.ExitStatus
import BladePSGI.Overseer.Graceful
import Mathlib.Data.Finset.Card

/-!
# The overseer comes to its end

Once its last child is dead, the overseer cannot stay: each of its steps brings it nearer to its
end, save the repetition of a call that fails with `EINTR`, and a signal from outside puts it off by
one run of the handler at most.

* `State.stepsLeft`: the rank of a state.
* `overseer_ends`: an execution has no more steps than that, and one run of the handler for each
  signal raised; and as long as it has not ended, the overseer has a next step.
* `shutdown_completes`: after a shutdown request, and without `SIGQUIT` or failing calls, the end is
  `exit(0)`.
-/

namespace BladePSGI.Overseer

open Function Transition ProcessTable

variable {cfg : Config} {s s' t : State} {tr tr' es : List Event} {a : Action} {as : List Action}
  {sig : Signal} {n : ℕ}

/-! ## The rank -/

/-- The overseer makes a step, and not one that a call answered with `EINTR`. -/
def Action.proceeds : Action → Bool
  | .run o => o ≠ .interrupted
  | _ => false

/-- A signal arrives. -/
def Action.raises : Action → Bool
  | .raise _ => true
  | _ => false

/-- What is left when `KillProcessGroup` has returned. -/
def KillCaller.stepsLeft (n z : ℕ) : KillCaller → ℕ
  | .fastShutdown | .secondSmartShutdown | .smartShutdown => n + 5 * z + 8
  | .unexpectedDeath _ | .main => 1

/-- How many steps of its own the main program has left when it has forked all the children, where
it signals at most `n` pids in a call of `KillProcessGroup`, has `z` children to wait for and `b`
bytes in the self-pipe. -/
def Pc.stepsLeft (n z b : ℕ) : Pc → ℕ
  | .spawnAuxiliary _ | .spawnWorker _ | .spawnMonitoring => 0
  | .setSignalHandlers => 2 * n + 5 * z + b + 18
  | .unblockSignals => 2 * n + 5 * z + b + 17
  | .setProcessTitle => 2 * n + 5 * z + b + 16
  | .select => 2 * n + 5 * z + b + 15
  | .drainSelfPipe => 2 * n + 5 * z + b + 14
  | .testFastShutdown => 2 * n + 5 * z + 13
  | .testSmartShutdown => 2 * n + 5 * z + 12
  | .testForceFastShutdown => 2 * n + 5 * z + 11
  | .killProcessGroup _ caller => n + 2 + caller.stepsLeft n z
  | .kill _ todo caller => todo.length + 1 + caller.stepsLeft n z
  | .clearFastShutdown => n + 5 * z + 8
  | .clearSmartShutdown _ => n + 5 * z + 8
  | .setForceFastShutdown => n + 5 * z + 7
  | .waitpid => n + 5 * z + 6
  | .handleChildProcessDeath .. => n + 5 * z + 9
  | .testShutdown .. => n + 5 * z + 8
  | .erase .. => n + 5 * z + 7
  | .handleUnexpectedDeath .. | .catchSyscall .. => n + 5
  | .logUnexpectedDeath .. | .logSyscall .. => n + 4
  | .unknownChild .. => 2
  | .logUnknownChild .. => 1
  | .exit _ => 1

/-- The number of the pending signals. -/
def pendings (pending : Signal → Bool) : ℕ :=
  [Signal.sigterm, .sigint, .sigquit, .sigchld].countP pending

/-- How many steps the overseer has left, in the main program and in the runs of the handler, those
of the pending signals included. A run of the handler may put a byte into the self-pipe, which the
main program has to read, and so counts twice. -/
def State.stepsLeft (n : ℕ) (s : State) : ℕ :=
  match s.terminated with
  | some _ => 0
  | none => s.pc.stepsLeft n s.children.zombies.card s.selfPipe +
      2 * (s.handlers.map fun f => f.pc.remaining n).sum + 2 * (n + 5) * pendings s.pending

theorem stepsLeft_eq (hrun : s.terminated = none) :
    s.stepsLeft n = s.pc.stepsLeft n s.children.zombies.card s.selfPipe +
      2 * (s.handlers.map fun f => f.pc.remaining n).sum + 2 * (n + 5) * pendings s.pending := by
  simp only [State.stepsLeft, hrun]

theorem stepsLeft_of_terminated {how : Termination} (ht : s.terminated = some how) :
    s.stepsLeft n = 0 := by
  simp only [State.stepsLeft, ht]

/-- One more byte in the self-pipe is one more step at most. -/
theorem Pc.stepsLeft_le (pc : Pc) (n z : ℕ) {b b' : ℕ} (h : b' ≤ b + 1) :
    pc.stepsLeft n z b' ≤ pc.stepsLeft n z b + 1 := by
  cases pc <;> simp only [Pc.stepsLeft] <;> omega

theorem pendings_raise (pending : Signal → Bool) (sig : Signal) :
    pendings (update pending sig true) ≤ pendings pending + 1 := by
  cases sig <;> simp only [pendings, List.countP_cons, List.countP_nil, update_apply,
    reduceCtorEq, if_true, if_false] <;> split_ifs <;> omega

theorem pendings_deliver {pending : Signal → Bool} (h : pending sig = true) :
    pendings pending = pendings (update pending sig false) + 1 := by
  cases sig <;> simp only [pendings, List.countP_cons, List.countP_nil, update_apply,
    reduceCtorEq, if_true, if_false, h] <;> split_ifs <;> omega

/-- A step of the main program has been left to make. -/
theorem Pc.stepsLeft_pos {pc : Pc} (hpc : ¬ pc.Spawning) (n z b : ℕ) :
    0 < pc.stepsLeft n z b := by
  cases pc with
  | spawnAuxiliary | spawnWorker | spawnMonitoring => exact absurd (by simp [Pc.Spawning]) hpc
  | _ => simp only [Pc.stepsLeft]; omega

/-! ## The main program -/

/-- Where the rank of a step of the main program can be read off. -/
theorem stepsLeft_lt (hrun : s.terminated = none) (hpc : ¬ s.pc.Spawning)
    (hpending : t.pending = s.pending) (hh : t.handlers = s.handlers)
    (hlt : t.terminated = none → t.pc.stepsLeft n t.children.zombies.card t.selfPipe <
      s.pc.stepsLeft n s.children.zombies.card s.selfPipe) :
    t.stepsLeft n < s.stepsLeft n := by
  have hpos := Pc.stepsLeft_pos hpc n s.children.zombies.card s.selfPipe
  rw [stepsLeft_eq hrun]
  cases ht : t.terminated with
  | some how =>
    rw [stepsLeft_of_terminated ht]
    omega
  | none =>
    have := hlt ht
    rw [stepsLeft_eq ht, hpending, hh]
    omega

/-- **A step of the main program comes nearer to the end**, or repeats an interrupted call. -/
theorem stepsLeft_mainStep (h : MainStep cfg s s' es) (hrun : s.terminated = none)
    (hspawn : ¬ s.pc.Spawning) (halive : s.children.alive = ∅)
    (hn : (killTargets s).length ≤ n) :
    s'.stepsLeft n < s.stepsLeft n ∨ s' = s ∧ (s.pc = .drainSelfPipe ∨ s.pc = .waitpid) := by
  have less : ∀ {t : State}, t.pending = s.pending → t.handlers = s.handlers →
      (t.terminated = none → t.pc.stepsLeft n t.children.zombies.card t.selfPipe <
        s.pc.stepsLeft n s.children.zombies.card s.selfPipe) →
      t.stepsLeft n < s.stepsLeft n ∨ t = s ∧ (s.pc = .drainSelfPipe ∨ s.pc = .waitpid) :=
    fun hp hh hlt => Or.inl (stepsLeft_lt hrun hspawn hp hh hlt)
  cases h with
  | auxiliariesDone hpc | forkAuxiliary hpc | setPIDThrows hpc | forkAuxiliaryFails hpc
  | workersDone hpc | forkWorker hpc | forkWorkerFails hpc | forkMonitoring hpc =>
    exact absurd (by simp [hpc, Pc.Spawning]) hspawn
  | throws hpc =>
    refine less rfl rfl fun _ => ?_
    rcases hpc with hpc | hpc | hpc | hpc | hpc | hpc
    · exact absurd (by simp [hpc, Pc.Spawning]) hspawn
    all_goals
      simp only [hpc, Pc.stepsLeft]
      omega
  | readInterrupted hpc | waitInterrupted hpc => exact Or.inr ⟨by rw [← hpc], by simp [hpc]⟩
  | reap hpc hz =>
    refine less rfl rfl fun _ => ?_
    have hcard : (s.children.zombies.erase _).card + 1 = s.children.zombies.card :=
      Finset.card_erase_add_one hz
    simp only [hpc, Pc.stepsLeft, ProcessTable.reap]
    omega
  | nothingToReap hpc hu hz =>
    refine absurd ?_ hu
    simp [unreaped, halive, hz]
  | noChildren | noAuxiliaryProcess | logUnknownChild | exit =>
    exact less rfl rfl fun ht => by cases ht
  | @erase found _ hpc =>
    refine less ?_ ?_ fun _ => ?_ <;> cases found <;> simp [Overseer.erase, hpc, Pc.stepsLeft]
  | @killpgReturn _ caller hpc =>
    refine less rfl rfl fun _ => ?_
    cases caller <;> simp [hpc, Pc.stepsLeft, afterKill, KillCaller.stepsLeft]
  | @clearSmartShutdown caller hpc =>
    refine less rfl rfl fun _ => ?_
    cases caller <;> simp [hpc, Pc.stepsLeft, afterClearSmart]
  | handleDeath hpc =>
    refine less rfl rfl fun _ => ?_
    dsimp only [Overseer.handleChildProcessDeath]
    split_ifs <;> simp only [hpc, Pc.stepsLeft] <;> omega
  | setShouldExit hpc =>
    refine less rfl rfl fun _ => ?_
    rcases hpc with ⟨_, _, _, hpc, rfl, rfl⟩ | ⟨_, _, hpc, rfl, rfl⟩ | ⟨_, _, hpc, rfl, rfl⟩ <;>
      dsimp only <;> split_ifs <;> simp [hpc, Pc.stepsLeft, KillCaller.stepsLeft]
  | _ hpc =>
    refine less rfl rfl fun _ => ?_
    simp only [hpc, Pc.stepsLeft, KillCaller.stepsLeft, List.length_cons]
    omega

/-- An interrupted call is what a step repeats. -/
theorem eq_interrupted {o : Outcome} (hrun : s.terminated = none)
    (hpc : s.pc = .drainSelfPipe ∨ s.pc = .waitpid)
    (h : mainStep cfg s o = some (s, es)) : o = .interrupted := by
  rcases hpc with hpc | hpc <;> cases o <;>
    simp only [mainStep, hpc, drainSelfPipe, waitpid, goto, Option.some.injEq, Prod.mk.injEq,
      reduceCtorEq] at h ⊢
  case inl.ok =>
    split at h
    · have := congrArg State.selfPipe (Prod.mk.inj (Option.some.inj h)).1
      dsimp only at this
      omega
    · have := congrArg State.pc (Prod.mk.inj (Option.some.inj h)).1
      simp [hpc] at this
  case inr.wait report =>
    split at h
    · cases report <;> have := congrArg State.pc (Prod.mk.inj (Option.some.inj h)).1 <;>
        have ht := congrArg State.terminated (Prod.mk.inj (Option.some.inj h)).1 <;>
        simp_all
    · cases h
  all_goals
    have := congrArg State.pc h.1
    simp [hpc] at this

/-! ## The signal handler -/

/-- A run of the handler puts at most one byte into the self-pipe in a step. -/
theorem selfPipe_handlerStep {f : Frame} {rest : List Frame} {o : Outcome}
    (h : handlerStep cfg s f rest o = some (s', es)) : s'.selfPipe ≤ s.selfPipe + 1 := by
  obtain ⟨sig, pc⟩ := f
  unfold handlerStep at h
  split at h
  case h_1 =>
    cases sig <;> obtain ⟨rfl, -⟩ := Prod.mk.inj (Option.some.inj h) <;> exact Nat.le_succ _
  case h_3 =>
    obtain ⟨rfl, -⟩ := Prod.mk.inj (Option.some.inj h)
    dsimp only
    split_ifs <;> omega
  case h_10 => cases h
  all_goals
    obtain ⟨rfl, -⟩ := Prod.mk.inj (Option.some.inj h)
    exact Nat.le_succ _

/-- **A step of the handler comes nearer to the end.** -/
theorem stepsLeft_handlerStep {f : Frame} {rest : List Frame} {o : Outcome}
    (h : handlerStep cfg s f rest o = some (s', es)) (hrun : s.terminated = none)
    (hh : s.handlers = f :: rest) (hn : (killTargets s).length ≤ n) :
    s'.stepsLeft n < s.stepsLeft n := by
  have hpipe := selfPipe_handlerStep h
  have hpc := s.pc.stepsLeft_le n s.children.zombies.card hpipe
  -- a step that goes on
  have less : ∀ {t : State} {pc : HandlerPc}, t.terminated = none → t.pc = s.pc →
      t.children = s.children → t.pending = s.pending → t.selfPipe = s'.selfPipe →
      t.handlers = ⟨f.sig, pc⟩ :: rest →
      s.pc.stepsLeft n s.children.zombies.card s'.selfPipe + 2 * pc.remaining n <
        s.pc.stepsLeft n s.children.zombies.card s.selfPipe + 2 * f.pc.remaining n →
      t.stepsLeft n < s.stepsLeft n := by
    intro t pc ht htpc hc hp hb hth hlt
    rw [stepsLeft_eq hrun, stepsLeft_eq ht, htpc, hc, hb, hp, hh, hth, List.map_cons,
      List.map_cons, List.sum_cons, List.sum_cons]
    dsimp only
    omega
  cases handlerStep_cases h with
  | writeFails | exit =>
    rw [stepsLeft_of_terminated rfl, stepsLeft_eq hrun, hh, List.map_cons, List.sum_cons]
    simp only [HandlerPc.remaining]
    omega
  | «return» =>
    rw [stepsLeft_eq hrun, stepsLeft_eq (by exact hrun), hh, List.map_cons, List.sum_cons]
    simp only [HandlerPc.remaining]
    omega
  | _ =>
    refine less hrun rfl rfl rfl rfl rfl ?_
    simp only [HandlerPc.remaining, List.length_cons] at hpc ⊢
    omega

/-! ## Signals -/

theorem stepsLeft_raise (s : State) (sig : Signal) :
    { s with pending := update s.pending sig true }.stepsLeft n ≤
      s.stepsLeft n + 2 * (n + 5) := by
  have hle := Nat.mul_le_mul_left (2 * (n + 5)) (pendings_raise s.pending sig)
  rw [Nat.mul_succ (2 * (n + 5))] at hle
  unfold State.stepsLeft
  split
  · exact Nat.zero_le _
  · rename_i hrun
    rw [show s.terminated = none from hrun]
    dsimp only
    omega

/-- A signal that is delivered was accounted for. -/
theorem stepsLeft_deliver (h : CanDeliver s sig) :
    { s with
      pending := update s.pending sig false
      handlers := ⟨sig, .entry⟩ :: s.handlers }.stepsLeft n ≤ s.stepsLeft n := by
  obtain ⟨hrun, -, hpending, -⟩ := h
  rw [stepsLeft_eq hrun, stepsLeft_eq (by exact hrun), List.map_cons, List.sum_cons,
    pendings_deliver hpending, Nat.mul_succ (2 * (n + 5))]
  simp only [HandlerPc.remaining]
  omega

/-! ## Executions -/

/-- The main program has forked all the children, they are all dead, and there are at most `n` pids
to signal. -/
structure Childless (n : ℕ) (s : State) : Prop where
  spawned : ¬ s.pc.Spawning
  alive : s.children.alive = ∅
  targets : (killTargets s).length ≤ n

/-- What an action counts for. -/
theorem ite_le_one (p : Prop) [Decidable p] : (if p then 1 else 0) ≤ 1 := by
  split_ifs <;> omega

namespace Childless

/-- The pids to signal become fewer. -/
theorem targets_mainStep (h : MainStep cfg s s' es) (hspawn : ¬ s.pc.Spawning) :
    (killTargets s').length ≤ (killTargets s).length := by
  cases h with
  | forkWorker hpc | forkMonitoring hpc => exact absurd (by simp [hpc, Pc.Spawning]) hspawn
  | @erase found pid =>
    have := List.length_erase_le (a := pid) (l := s.workerPids)
    cases found <;> simp [Overseer.erase, killTargets]
    omega
  | _ => exact Nat.le_refl _

theorem mainStep (hc : Childless n s) (h : MainStep cfg s s' es) : Childless n s' where
  spawned hpc := hc.spawned ((mainStep_starting h hpc.starting).2.1 hpc)
  alive := by
    refine Finset.eq_empty_of_forall_notMem fun pid hpid => ?_
    rcases (alive_mainStep h pid).1 hpid with hpid | ⟨child, hf⟩
    · simp [hc.alive] at hpid
    · cases h with
      | forkAuxiliary hpc | setPIDThrows hpc | forkWorker hpc | forkMonitoring hpc =>
        exact hc.spawned (by simp [hpc, Pc.Spawning])
      | _ => simp at hf
  targets := Nat.le_trans (targets_mainStep h hc.spawned) hc.targets

theorem handlerStep {f : Frame} {rest : List Frame} (hc : Childless n s)
    (h : HandlerStep cfg s rest f s' es) : Childless n s' := by
  cases h <;> exact ⟨hc.spawned, hc.alive, hc.targets⟩

/-- **The step lemma.** -/
theorem step (hc : Childless n s) (h : (machine cfg).step s a = some (s', es)) :
    Childless n s' ∧ s'.stepsLeft n + (if a.proceeds then 1 else 0) ≤
      s.stepsLeft n + (if a.raises then 2 * (n + 5) else 0) := by
  cases step_cases h with
  | @main o _ _ hrun hh hm =>
    refine ⟨hc.mainStep hm, ?_⟩
    rcases stepsLeft_mainStep hm hrun hc.spawned hc.alive hc.targets with hlt | ⟨rfl, hpc⟩
    · exact Nat.le_trans (Nat.add_le_add_left (ite_le_one _) _) hlt
    · have hs : Overseer.mainStep cfg s' o = some (s', es) :=
        (step_run_main hrun hh o).symm.trans h
      have ho := eq_interrupted hrun hpc hs
      simp [ho, Action.raises, Action.proceeds]
  | @handler o f rest _ _ hrun hh hm =>
    refine ⟨hc.handlerStep hm, ?_⟩
    have hs : Overseer.handlerStep cfg s f rest o = some (s', es) :=
      (step_run_handler hrun hh o).symm.trans h
    have hlt := stepsLeft_handlerStep hs hrun hh hc.targets
    exact Nat.le_trans (Nat.add_le_add_left (ite_le_one _) _) hlt
  | raise => exact ⟨⟨hc.spawned, hc.alive, hc.targets⟩, stepsLeft_raise s _⟩
  | deliver hdeliver => exact ⟨⟨hc.spawned, hc.alive, hc.targets⟩, stepsLeft_deliver hdeliver⟩
  | childDies hpid => simp [hc.alive] at hpid
  | setShouldExit => exact ⟨⟨hc.spawned, hc.alive, hc.targets⟩, Nat.le_refl _⟩

/-- **The run lemma.** -/
theorem exec {tr : List Event} (hc : Childless n s)
    (he : (machine cfg).exec s as = some (t, tr)) :
    Childless n t ∧ as.countP Action.proceeds + t.stepsLeft n ≤
      s.stepsLeft n + 2 * (n + 5) * as.countP Action.raises :=
  Machine.countP_add_le_of_supply (Childless n) (State.stepsLeft n) Action.proceeds Action.raises _
    (fun _ _ _ _ hc hs => hc.step hs) hc he

end Childless

/-- The call succeeds. -/
def Outcome.Succeeds : Outcome → Prop
  | .interrupted | .error _ => False
  | _ => True

/-- **The overseer is never stuck** when its children are dead. -/
theorem exists_succeeding (hc : Childless n s) (hrun : s.terminated = none) :
    ∃ o, Outcome.Succeeds o ∧ ((machine cfg).step s (.run o)).isSome := by
  rcases hh : s.handlers with _ | ⟨⟨sig, pc⟩, rest⟩
  · have main : ∀ {o : Outcome}, o.Succeeds → (mainStep cfg s o).isSome →
        ∃ o, Outcome.Succeeds o ∧ ((machine cfg).step s (.run o)).isSome := by
      intro o ho hs
      refine ⟨o, ho, ?_⟩
      rwa [show (machine cfg).step s (.run o) = _ from step_run_main hrun hh o]
    cases hpc : s.pc with
    | spawnAuxiliary | spawnWorker | spawnMonitoring =>
      exact absurd (by simp [hpc, Pc.Spawning]) hc.spawned
    | select =>
      by_cases hb : 0 < s.selfPipe
      · exact main (o := .ready) trivial (by simp [mainStep, hpc, select, hb, goto])
      · refine main (o := .timeout) trivial ?_
        simp [mainStep, hpc, select, Nat.eq_zero_of_not_pos hb, goto]
    | waitpid =>
      by_cases hz : s.children.zombies = ∅
      · refine main (o := .wait .noChild) trivial ?_
        simp [mainStep, hpc, waitpid, Reports, unreaped, hc.alive, hz]
      · obtain ⟨pid, hpid⟩ := Finset.nonempty_iff_ne_empty.2 hz
        refine main (o := .wait (.child pid)) trivial ?_
        simp [mainStep, hpc, waitpid, Reports, hpid]
    | kill sig todo caller => cases todo <;> exact main (o := .ok) trivial (by simp [mainStep, hpc])
    | testShutdown found =>
      refine main (o := .ok) trivial ?_
      simp only [mainStep, hpc, testShutdown]
      split_ifs
      · rfl
      · cases found
        case auxiliary =>
          dsimp only
          split <;> rfl
        all_goals rfl
    | drainSelfPipe =>
      refine main (o := .ok) trivial ?_
      simp only [mainStep, hpc, drainSelfPipe]
      split_ifs <;> rfl
    | testFastShutdown | testForceFastShutdown =>
      refine main (o := .ok) trivial ?_
      simp only [mainStep, hpc]
      split_ifs <;> rfl
    | _ => exact main (o := .ok) trivial (by simp only [mainStep, hpc]; rfl)
  · refine ⟨.ok, trivial, ?_⟩
    rw [show (machine cfg).step s (.run .ok) = _ from step_run_handler hrun hh .ok]
    cases pc with
    | entry => cases sig <;> rfl
    | kill todo => cases todo <;> rfl
    | _ => rfl

/-- A shutdown until both children of `oneWorker` are dead and their zombies remain. -/
def allDead : List Action :=
  firstSigterm ++ [.run .ok, .run .ok, .run .ok, .run .ok, .run .ok, .childDies 10 (.exited 0),
    .childDies 11 (.signaled 15)]

/-- The rest of `cleanShutdown` after `allDead`, with a late `SIGINT` and an interrupted call. -/
def lastSteps : List Action :=
  [.run (.wait (.child 10)), .raise .sigint, .deliver .sigint, .run .ok, .run .ok, .run .ok,
    .run .ok, .run .ok, .run .ok, .run .ok, .run .interrupted, .run (.wait (.child 11)), .run .ok,
    .run .ok, .run .ok, .run (.wait .noChild)]

theorem isSome_exec_allDead : ((machine oneWorker).exec (init oneWorker) allDead).isSome := by
  decide

theorem pc_allDead : (((machine oneWorker).exec (init oneWorker) allDead).get
    isSome_exec_allDead).1.pc = .waitpid := by
  decide

theorem isSome_exec_lastSteps : ((machine oneWorker).exec
    (((machine oneWorker).exec (init oneWorker) allDead).get isSome_exec_allDead).1
      lastSteps).isSome := by
  decide

/-- **The overseer comes to its end** once it has no living child: it makes no more steps than are
left to it and one run of the handler for each signal that arrives, and it is never stuck before. -/
theorem overseer_ends (hspawn : ¬ s.pc.Spawning) (halive : s.children.alive = ∅)
    (he : (machine cfg).exec s as = some (t, tr)) :
    as.countP Action.proceeds ≤ s.stepsLeft (killTargets s).length +
        2 * ((killTargets s).length + 5) * as.countP Action.raises ∧
      (t.terminated = none →
        ∃ o, Outcome.Succeeds o ∧ ((machine cfg).step t (.run o)).isSome) := by
  obtain ⟨hc, hle⟩ := Childless.exec ⟨hspawn, halive, Nat.le_refl _⟩ he
  exact ⟨by omega, exists_succeeding hc⟩

theorem overseer_ends_oneWorker : ∃ (s t : State) (tr' : List Event), s.children.alive = ∅ ∧
    (machine oneWorker).exec s lastSteps = some (t, tr') ∧
    lastSteps.countP Action.proceeds ≤ s.stepsLeft (killTargets s).length +
      2 * ((killTargets s).length + 5) := by
  refine ⟨_, _, _, ?_, (Option.some_get isSome_exec_lastSteps).symm, ?_⟩
  · decide
  · exact (overseer_ends (by simp [pc_allDead, Pc.Spawning]) (by decide)
      (Option.some_get isSome_exec_lastSteps).symm).1

/-! ## The exit status -/

/-- No `SIGQUIT` arrives, and no call fails but with `EINTR`. -/
def Action.quiet : Action → Bool
  | .run o => o.works
  | .raise sig => sig ≠ .sigquit
  | _ => true

/-- A shutdown has been requested, and nothing makes the overseer end otherwise than through it. -/
structure Clean (s : State) : Prop where
  shutdown : s.shutdown = true
  place : ¬ s.pc.Final
  frames : ∀ f ∈ s.handlers, f.sig ≠ .sigquit
  pending : s.pending .sigquit = false
  ended : s.terminated = none ∨ s.terminated = some (.exit 0)

namespace Clean

theorem mainStep (hc : Clean s) (hspawn : ¬ s.pc.Spawning) (hb : Books s') {o : Outcome}
    (ho : o.works = true) (hh : s.handlers = [])
    (h : Overseer.mainStep cfg s o = some (s', es)) : Clean s' := by
  have hs := mainStep_cases h
  obtain ⟨hshutdown, hhandlers, hpending⟩ := frame_mainStep hs
  have hplace := hc.place
  have clean : ¬ s'.pc.Final → s'.terminated = none ∨ s'.terminated = some (.exit 0) →
      Clean s' := by
    refine fun hp ht => ⟨hshutdown.trans hc.shutdown, hp, ?_, by rw [hpending, hc.pending], ht⟩
    simp [hhandlers, hh]
  cases hs with
  | auxiliariesDone hpc | forkAuxiliary hpc | setPIDThrows hpc | forkAuxiliaryFails hpc
  | workersDone hpc | forkWorker hpc | forkWorkerFails hpc | forkMonitoring hpc =>
    exact absurd (by simp [hpc, Pc.Spawning]) hspawn
  | throws hpc => exact absurd rfl (ne_catchSyscall_of_works ho hpc h _ _)
  | unexpectedDeath _ hno | noAuxiliaryProcess _ hno =>
    rw [hc.shutdown] at hno
    cases hno
  | handleDeath =>
    refine clean ?_ hc.ended
    have hknown := hb.known
    dsimp only [Overseer.handleChildProcessDeath] at hknown ⊢
    split_ifs at hknown ⊢
    all_goals first | exact id | exact absurd rfl (hknown _ _).1
  | setShouldExit hpc =>
    refine absurd ?_ hplace
    rcases hpc with ⟨_, _, _, hpc, -⟩ | ⟨_, _, hpc, -⟩ | ⟨_, _, hpc, -⟩ <;> rw [hpc] <;> trivial
  | logUnexpectedDeath hpc | logUnknownChild hpc | logSyscall hpc | exit hpc =>
    exact absurd (by rw [hpc]; trivial) hplace
  | noChildren => exact clean hplace (Or.inr rfl)
  | killpg hpc | kill hpc =>
    rw [hpc] at hplace
    exact clean hplace hc.ended
  | @killpgReturn _ caller hpc =>
    rw [hpc] at hplace
    refine clean ?_ hc.ended
    cases caller <;> first | exact id | exact absurd trivial hplace
  | @clearSmartShutdown caller =>
    refine clean ?_ hc.ended
    cases caller <;> exact id
  | @erase found =>
    refine clean ?_ ?_ <;> cases found
    all_goals first | exact id | exact hc.ended
  | read => exact clean hplace hc.ended
  | _ => exact clean id hc.ended

theorem handlerStep (hc : Clean s) (hctl : Control s) {f : Frame} {rest : List Frame} {o : Outcome}
    (ho : o.works = true) (hh : s.handlers = f :: rest)
    (h : Overseer.handlerStep cfg s f rest o = some (s', es)) : Clean s' := by
  have hframes := hc.frames
  have hvalid := hctl.valid f (by simp [hh])
  rw [hh] at hframes
  obtain ⟨hf, hrest⟩ := List.forall_mem_cons.1 hframes
  cases handlerStep_cases h with
  | sigquit => exact absurd rfl hf
  | exit | killpg | kill | killpgReturn => exact absurd hvalid hf
  | writeFails =>
    have := terminated_of_works ho h
    exact ⟨hc.shutdown, hc.place, hc.frames, hc.pending, this ▸ hc.ended⟩
  | «return» => exact ⟨hc.shutdown, hc.place, hrest, hc.pending, hc.ended⟩
  | setShutdown =>
    exact ⟨rfl, hc.place, List.forall_mem_cons.2 ⟨hf, hrest⟩, hc.pending, hc.ended⟩
  | _ => exact ⟨hc.shutdown, hc.place, List.forall_mem_cons.2 ⟨hf, hrest⟩, hc.pending, hc.ended⟩

/-- **The step lemma.** -/
theorem step (hc : Clean s) (hspawn : ¬ s.pc.Spawning) (hreach : Reach cfg tr s)
    (ha : a.quiet = true) (h : (machine cfg).step s a = some (s', es)) : Clean s' := by
  have hreach' : Reach cfg (tr ++ es) s' := hreach.snoc trivial h
  cases step_cases h with
  | @main o _ _ hrun hh hm =>
    exact hc.mainStep hspawn (books_of_reach hreach').1 ha hh
      ((step_run_main hrun hh o).symm.trans h)
  | @handler o f rest _ _ hrun hh hm =>
    exact hc.handlerStep (control_of_reach hreach) ha hh
      ((step_run_handler hrun hh o).symm.trans h)
  | @raise sig =>
    have hsig : sig ≠ .sigquit := by simpa [Action.quiet] using ha
    exact ⟨hc.shutdown, hc.place, hc.frames, by simp [hsig.symm, hc.pending], hc.ended⟩
  | @deliver sig hdeliver =>
    have hsig : sig ≠ .sigquit := by
      rintro rfl
      have hpending := hdeliver.2.2.1
      rw [hc.pending] at hpending
      cases hpending
    refine ⟨hc.shutdown, hc.place, List.forall_mem_cons.2 ⟨hsig, hc.frames⟩, ?_, hc.ended⟩
    simp [hsig.symm, hc.pending]
  | childDies hpid =>
    exact ⟨hc.shutdown, hc.place, hc.frames, by simp [hc.pending], hc.ended⟩
  | setShouldExit => exact ⟨hc.shutdown, hc.place, hc.frames, hc.pending, hc.ended⟩

end Clean

/-- **A shutdown completes.** When a shutdown has been requested and the last child is dead, the
overseer comes to its end with `exit(0)`, unless a `SIGQUIT` arrives or a call fails. -/
theorem shutdown_completes (h : Reach cfg tr s) (hspawn : ¬ s.pc.Spawning)
    (halive : s.children.alive = ∅) (hclean : Clean s) (hquiet : ∀ a ∈ as, a.quiet = true)
    (he : (machine cfg).exec s as = some (t, tr')) :
    as.countP Action.proceeds ≤ s.stepsLeft (killTargets s).length +
        2 * ((killTargets s).length + 5) * as.countP Action.raises ∧
      (t.terminated = none ∧
          (∃ o, Outcome.Succeeds o ∧ ((machine cfg).step t (.run o)).isSome) ∨
        t.terminated = some (.exit 0)) := by
  have hchildless : Childless (killTargets s).length s := ⟨hspawn, halive, Nat.le_refl _⟩
  obtain ⟨hc, hle⟩ := hchildless.exec he
  have hinv : Reach cfg (tr ++ tr') t ∧ Childless (killTargets s).length t ∧ Clean t := by
    refine (Machine.run_of_exec hquiet he).invariant
      (fun tr' t => Reach cfg (tr ++ tr') t ∧ Childless (killTargets s).length t ∧ Clean t)
      ⟨by simpa using h, hchildless, hclean⟩ ?_
    rintro tr' t a t' es - ⟨hreach, hchild, hc⟩ ha hs
    refine ⟨?_, (hchild.step hs).1, hc.step hchild.spawned hreach ha hs⟩
    rw [← List.append_assoc]
    exact hreach.snoc trivial hs
  refine ⟨by omega, ?_⟩
  rcases hinv.2.2.ended with ht | ht
  · exact Or.inl ⟨ht, exists_succeeding hc ht⟩
  · exact Or.inr ht

theorem shutdown_completes_oneWorker : ∃ (tr : List Event) (s t : State) (tr' : List Event),
    Reach oneWorker tr s ∧ s.terminated = none ∧
    (machine oneWorker).exec s lastSteps = some (t, tr') ∧ t.terminated = some (.exit 0) := by
  have h := Machine.reach_exec isSome_exec_allDead
  have hclean : Clean (((machine oneWorker).exec (init oneWorker) allDead).get
      isSome_exec_allDead).1 :=
    ⟨by decide, id, by decide, by decide, by decide⟩
  have hend := (shutdown_completes h (by simp [pc_allDead, Pc.Spawning]) (by decide) hclean
    (by decide) (Option.some_get isSome_exec_lastSteps).symm).2
  refine ⟨_, _, _, _, h, by decide, (Option.some_get isSome_exec_lastSteps).symm, ?_⟩
  rcases hend with ⟨hnone, -⟩ | hexit
  · exact absurd hnone (by decide)
  · exact hexit

end BladePSGI.Overseer
