import BladePSGI.Group.ExitFlag
import BladePSGI.Group.RequestCounter
import BladePSGI.Overseer.Spawning

/-!
# After the exit flag is set

A worker tests the exit flag at the head of its loop and nowhere else. So when the flag is set, it
has at most the rest of one turn ahead of it (`Worker.Pc.ahead`), and what it does later is a part
of that.

* `loopEvents_sublist`: this is kept through every run.
* `count_loopEvent_le`: no worker begins a second call, or counts a second one.
* `total_increments_le`: all the workers together count at most one call each.
-/

namespace BladePSGI.Group

open Function Transition

variable {cfg : Overseer.Config} {s s' : State} {a : Action} {tr tr' es : List Event} {pid : Pid}

/-! ## What a worker has ahead of it -/

/-- The events of the loop of a worker. -/
def ChildEvent.isLoop : ChildEvent → Bool
  | .callBegin | .increaseRequestCounter => true
  | _ => false

/-- The events of the loop up to its head. -/
def Worker.Pc.ahead : Worker.Pc → List ChildEvent
  | .testTerminated | .setWorkerStatus | .call => [.callBegin, .increaseRequestCounter]
  | .accept | .accepting | .acceptInterrupted | .serve | .finish | .increaseRequestCounter =>
    [.increaseRequestCounter]
  | _ => []

def Program.ahead : Program → List ChildEvent
  | .worker w => w.pc.ahead
  | _ => []

def State.ahead (s : State) (pid : Pid) : List ChildEvent :=
  ((s.processes pid).map fun p => p.program.ahead).getD []

theorem ahead_of_some {p : Process} (h : s.processes pid = some p) :
    s.ahead pid = p.program.ahead := by
  rw [State.ahead, h]
  rfl

theorem ahead_of_none (h : s.processes pid = none) : s.ahead pid = [] := by
  rw [State.ahead, h]
  rfl

theorem ahead_forked (overseer : Overseer.State) (child : Overseer.Child) :
    (Process.forked overseer child).program.ahead = [] := by
  cases child <;> rfl

/-! ## Steps -/

theorem InitStep.isLoop {pc : InitPc} {o : Outcome} {next : InitNext} {e : Option ChildEvent}
    (h : InitStep pc o next e) : e.toList.filter ChildEvent.isLoop = [] := by
  cases h <;> rfl

/-- **What a worker does was ahead of it**, once the flag is set. -/
theorem Worker.Step.ahead {w w' : Worker} {o : Outcome} {e : Option ChildEvent}
    (h : Worker.Step w true o w' e) :
    (e.toList.filter ChildEvent.isLoop ++ w'.pc.ahead).Sublist w.pc.ahead := by
  cases h with
  | init _ h | initDone _ h | initThrows _ h =>
    rw [h.isLoop]
    exact List.nil_sublist _
  | stay _ h => cases h
  | notAccepted hpc => rcases hpc with hpc | hpc <;> rw [hpc] <;> exact List.Sublist.refl _
  | diedUnnoticed hpc => rcases hpc with hpc | hpc <;> rw [hpc] <;> exact List.Sublist.refl _
  | perlException | fails => exact List.nil_sublist _
  | exit => exact List.Sublist.refl _
  | shouldExit | terminated | exception => exact List.Sublist.refl _
  | _ hpc =>
    rw [hpc]
    exact List.Sublist.refl _

theorem Auxiliary.Step.isLoop {x x' : Auxiliary} {o : Outcome} {e : Option ChildEvent}
    (h : Auxiliary.Step x o x' e) : e.toList.filter ChildEvent.isLoop = [] := by
  cases h with
  | init _ h | initDone _ h | initThrows _ h => exact h.isLoop
  | _ => rfl

theorem Monitoring.Step.isLoop {m m' : Monitoring} {runnerDied shouldExit : Bool} {o : Outcome}
    {e : Option ChildEvent} (h : Monitoring.Step m runnerDied shouldExit o m' e) :
    e.toList.filter ChildEvent.isLoop = [] := by
  cases h with
  | init _ h | initDone _ h | initThrows _ h => exact h.isLoop
  | _ => rfl

theorem Process.ahead_step {p : Process} {runnerDied : Bool} {o : Outcome} {program : Program}
    {e : Option ChildEvent} (h : p.step runnerDied true o = some (program, e)) :
    (e.toList.filter ChildEvent.isLoop ++ program.ahead).Sublist p.program.ahead := by
  cases Process.step_cases h with
  | worker hp h =>
    rw [hp]
    exact h.ahead
  | auxiliary _ h | monitoring _ h =>
    rw [h.isLoop]
    exact List.nil_sublist _

theorem Process.ahead_handle (p : Process) (sig : Signal) :
    ((p.handle sig).2.toList.filter ChildEvent.isLoop ++ (p.handle sig).1.ahead).Sublist
      p.program.ahead := by
  obtain ⟨program, _, _, _⟩ := p
  cases program with
  | worker w =>
    cases sig with
    | sigterm =>
      change (if w.pc = .accepting then Worker.Pc.acceptInterrupted else w.pc).ahead.Sublist
        w.pc.ahead
      split_ifs with hpc
      · rw [hpc]
        exact List.Sublist.refl _
      · exact List.Sublist.refl _
    | _ => exact List.Sublist.refl _
  | auxiliary | monitoring => cases sig <;> exact List.nil_sublist _

theorem ChildStep.ahead {p₀ p : Process} {e : Option ChildEvent} (hp₀ : s.processes pid = some p₀)
    (hc : ChildStep s pid p e s' es)
    (h : (e.toList.filter ChildEvent.isLoop ++ p.program.ahead).Sublist p₀.program.ahead)
    (q : Pid) :
    ((childTrace es q).filter ChildEvent.isLoop ++ s'.ahead q).Sublist (s.ahead q) := by
  rw [hc.childTrace_eq]
  cases hq : s'.processes q with
  | none =>
    rw [ahead_of_none hq, List.append_nil]
    split_ifs with hpid
    · rw [hpid, ahead_of_some hp₀]
      exact (List.sublist_append_left ..).trans h
    · exact List.nil_sublist _
  | some p' =>
    rw [ahead_of_some hq]
    rcases hc.processes hq with ⟨p₁, ⟨rfl, rfl⟩ | ⟨hne, hp₁⟩, hprogram, -⟩
    · rw [if_pos rfl, hprogram, ahead_of_some hp₀]
      exact h
    · rw [if_neg hne, hprogram, ahead_of_some hp₁]
      exact List.Sublist.refl _

/-- **The step lemma.** -/
theorem Step.ahead (h : Step cfg s a s' es) (hflag : s.overseer.shouldExitImmediately = true)
    (pid : Pid) :
    ((childTrace es pid).filter ChildEvent.isLoop ++ s'.ahead pid).Sublist (s.ahead pid) := by
  -- a step that no child makes
  have quiet : (∀ q o, a ≠ .child q o) → (∀ q sig, a ≠ .deliverChild q sig) →
      childTrace es pid = [] →
      ((childTrace es pid).filter ChildEvent.isLoop ++ s'.ahead pid).Sublist (s.ahead pid) := by
    intro hc hd hnil
    rw [hnil]
    cases hp : s'.processes pid with
    | none =>
      rw [ahead_of_none hp]
      exact List.nil_sublist _
    | some p =>
      rw [ahead_of_some hp]
      rcases h.comes_of_others hp (hc pid) (hd pid) with ⟨_, child, -, hprogram⟩ |
        ⟨p₀, hp₀, hprogram⟩
      · rw [hprogram, ahead_forked]
        exact List.nil_sublist _
      · rw [hprogram, ahead_of_some hp₀]
        exact List.Sublist.refl _
  cases h with
  | child hp h hc =>
    rw [hflag] at h
    exact hc.ahead hp (Process.ahead_step h) pid
  | deliverChild hp _ _ hc => exact hc.ahead hp (Process.ahead_handle _ _) pid
  | _ => exact quiet (by simp) (by simp) (childTrace_eq_nil (by simp))

/-! ## Runs -/

/-- The exit flag stays set. -/
theorem flag_of_run (h : Reach cfg tr s) (hflag : s.overseer.shouldExitImmediately = true)
    (h' : (machine cfg).Reach s tr' s') : s'.overseer.shouldExitImmediately = true := by
  obtain ⟨o, hj⟩ := judged_of_reach h
  obtain ⟨o', hj'⟩ := judged_of_reach (Machine.Reach.trans h h')
  have happend : o.events ++ claims tr' = o'.events := by
    rw [← hj.claims, ← hj'.claims, claims, claims, claims, List.filterMap_append]
  rw [hj.flag] at hflag
  rw [hj'.flag]
  exact Once.isTaken_of_append happend hflag

/-- **What a worker does after the flag is set was ahead of it.** -/
theorem loopEvents_sublist (h : Reach cfg tr s) (hflag : s.overseer.shouldExitImmediately = true)
    (h' : (machine cfg).Reach s tr' s') (pid : Pid) :
    ((childTrace tr' pid).filter ChildEvent.isLoop ++ s'.ahead pid).Sublist (s.ahead pid) := by
  refine h'.invariant (fun tr' s' =>
    ((childTrace tr' pid).filter ChildEvent.isLoop ++ s'.ahead pid).Sublist (s.ahead pid))
    (List.Sublist.refl _) ?_
  intro tr' t a t' es hrun ih _ hs
  have hstep := (step_cases hs).ahead (flag_of_run h hflag hrun) pid
  rw [childTrace_append, List.filter_append, List.append_assoc]
  exact ((List.Sublist.refl _).append hstep).trans ih

theorem nodup_ahead (s : State) (pid : Pid) : (s.ahead pid).Nodup := by
  cases hp : s.processes pid with
  | none =>
    rw [ahead_of_none hp]
    exact List.nodup_nil
  | some p =>
    rw [ahead_of_some hp]
    cases p.program with
    | worker w => cases hpc : w.pc <;> simp [Program.ahead, Worker.Pc.ahead, hpc]
    | auxiliary | monitoring => exact List.nodup_nil

/-- **At most one turn**: no event of the loop comes twice. -/
theorem count_loopEvent_le (h : Reach cfg tr s) (hflag : s.overseer.shouldExitImmediately = true)
    (h' : (machine cfg).Reach s tr' s') (pid : Pid) {e : ChildEvent} (he : e.isLoop = true) :
    (childTrace tr' pid).count e ≤ 1 := by
  have hsub := (List.sublist_append_left ..).trans (loopEvents_sublist h hflag h' pid)
  rw [← List.count_filter he]
  exact List.nodup_iff_count_le_one.1 (hsub.nodup (nodup_ahead s pid)) e

/-! ## All the workers together -/

theorem Worker.Step.workerno {w w' : Worker} {shouldExit : Bool} {o : Outcome}
    {e : Option ChildEvent} (h : Worker.Step w shouldExit o w' e) : w'.workerno = w.workerno := by
  cases h <;> rfl

theorem Process.worker_step {p : Process} {runnerDied shouldExit : Bool} {o : Outcome}
    {e : Option ChildEvent} {w' : Worker}
    (h : p.step runnerDied shouldExit o = some (.worker w', e)) :
    ∃ w, p.program = .worker w ∧ Worker.Step w shouldExit o w' e := by
  cases Process.step_cases h with
  | worker hp h => exact ⟨_, hp, h⟩

theorem Process.worker_handle {p : Process} {sig : Signal} {w' : Worker}
    (h : (p.handle sig).1 = .worker w') :
    ∃ w, p.program = .worker w ∧ w'.workerno = w.workerno := by
  obtain ⟨program, _, _, _⟩ := p
  cases program with
  | worker w => cases sig <;> exact ⟨w, rfl, by rw [← Program.worker.inj h]; rfl⟩
  | auxiliary | monitoring => cases sig <;> cases h

/-- Only a worker counts. -/
theorem Process.worker_of_increment {p : Process} {runnerDied shouldExit : Bool} {o : Outcome}
    {program : Program}
    (h : p.step runnerDied shouldExit o = some (program, some .increaseRequestCounter)) :
    ∃ w, p.program = .worker w := by
  cases Process.step_cases h with
  | worker hp => exact ⟨_, hp⟩
  | auxiliary _ h | monitoring _ h => cases h.isLoop

/-- A worker was forked as the worker that it is. -/
theorem forked_of_worker (h : Reach cfg tr s) : ∀ pid p w, s.processes pid = some p →
    p.program = .worker w → .overseer (.fork pid (.worker w.workerno)) ∈ tr := by
  refine h.invariant (fun tr s => ∀ pid p w, s.processes pid = some p → p.program = .worker w →
    .overseer (.fork pid (.worker w.workerno)) ∈ tr) (fun _ _ _ hp => nomatch hp) ?_
  intro tr s a s' es _ ih _ hs pid p w hp hprogram
  generalize hprogram' : p.program = program at hprogram
  cases hprogram' ▸ (step_cases hs).comes hp with
  | @forked overseer child hf =>
    cases child with
    | worker workerno =>
      obtain rfl := Program.worker.inj hprogram
      exact List.mem_append_right _ hf
    | auxiliary | monitoring => cases hprogram
  | kept hp₀ => exact List.mem_append_left _ (ih pid _ w hp₀ hprogram)
  | stepped _ hp₀ h =>
    subst hprogram
    obtain ⟨w₀, hw₀, hstep⟩ := Process.worker_step h
    rw [hstep.workerno]
    exact List.mem_append_left _ (ih pid _ w₀ hp₀ hw₀)
  | handled _ hp₀ =>
    obtain ⟨w₀, hw₀, hworkerno⟩ := Process.worker_handle hprogram
    rw [hworkerno]
    exact List.mem_append_left _ (ih pid _ w₀ hp₀ hw₀)

/-- A worker stores its own status. -/
theorem Process.worker_of_setWorkerStatus {p : Process} {runnerDied shouldExit : Bool} {o : Outcome}
    {program : Program} {workerno : ℕ} {status : Char}
    (h : p.step runnerDied shouldExit o = some (program, some (.setWorkerStatus workerno status))) :
    ∃ w, p.program = .worker w ∧ w.workerno = workerno := by
  cases Process.step_cases h with
  | worker hp h =>
    cases h with
    | setWorkerStatus => exact ⟨_, hp, rfl⟩
    | init _ h | initDone _ h | initThrows _ h => exact h.isInit.elim
  | auxiliary _ h =>
    cases h with
    | init _ h | initDone _ h | initThrows _ h => exact h.isInit.elim
  | monitoring _ h =>
    cases h with
    | init _ h | initDone _ h | initThrows _ h => exact h.isInit.elim

/-- The fork of a worker. -/
def Event.workerFork : Event → Option (Pid × ℕ)
  | .overseer (.fork pid (.worker workerno)) => some (pid, workerno)
  | _ => none

/-- The pids of the workers and their numbers. -/
def workerForks (tr : List Event) : List (Pid × ℕ) := tr.filterMap Event.workerFork

theorem mem_workerForks {workerno : ℕ} :
    (pid, workerno) ∈ workerForks tr ↔ .overseer (.fork pid (.worker workerno)) ∈ tr := by
  simp only [workerForks, List.mem_filterMap]
  constructor
  · rintro ⟨e, hmem, he⟩
    unfold Event.workerFork at he
    split at he
    · obtain ⟨rfl, rfl⟩ := Prod.mk.inj (Option.some.inj he)
      exact hmem
    · cases he
  · exact fun h => ⟨_, h, rfl⟩

theorem map_workerForks (tr : List Event) : (workerForks tr).map Prod.snd =
    (Overseer.forks (overseerTrace tr)).filterMap Overseer.Child.workerno? := by
  rw [workerForks, Overseer.forks, overseerTrace, List.map_filterMap, List.filterMap_filterMap,
    List.filterMap_filterMap]
  refine List.filterMap_congr fun e _ => ?_
  cases e with
  | overseer e =>
    cases e with
    | fork pid child => cases child <;> rfl
    | _ => rfl
  | _ => rfl

/-- The workers are numbered from zero. -/
theorem exists_workerForks (h : Reach cfg tr s) :
    ∃ n ≤ cfg.nworkers, (workerForks tr).map Prod.snd = List.range n := by
  rw [map_workerForks]
  exact (Overseer.spawned_of_reach (reach_overseer h)).forked.workernos

theorem length_workerForks_le (h : Reach cfg tr s) : (workerForks tr).length ≤ cfg.nworkers := by
  obtain ⟨n, hn, heq⟩ := exists_workerForks h
  rw [← List.length_map, heq, List.length_range]
  exact hn

theorem workerno_lt (h : Reach cfg tr s) {p : Process} {w : Worker}
    (hp : s.processes pid = some p) (hprogram : p.program = .worker w) :
    w.workerno < cfg.nworkers := by
  obtain ⟨n, hn, heq⟩ := exists_workerForks h
  have hmem : w.workerno ∈ List.range n := by
    rw [← heq]
    exact List.mem_map_of_mem (mem_workerForks.2 (forked_of_worker h pid p w hp hprogram))
  exact (List.mem_range.1 hmem).trans_le hn

/-- Only workers count. -/
theorem forked_of_increment (h : Reach cfg tr s) {pid : Pid}
    (he : .child pid .increaseRequestCounter ∈ tr) :
    ∃ workerno, .overseer (.fork pid (.worker workerno)) ∈ tr := by
  refine h.invariant (fun tr _ => .child pid .increaseRequestCounter ∈ tr →
    ∃ workerno, .overseer (.fork pid (.worker workerno)) ∈ tr) (by simp) ?_ he
  intro tr s a s' es hrun ih _ hs he
  rcases List.mem_append.1 he with he | he
  · obtain ⟨workerno, hf⟩ := ih he
    exact ⟨workerno, List.mem_append_left es hf⟩
  · cases (step_cases hs).emits he with
    | @stepped o p program _ hp h =>
      obtain ⟨w, hw⟩ := Process.worker_of_increment h
      exact ⟨w.workerno, List.mem_append_left es (forked_of_worker hrun pid p w hp hw)⟩
    | handled _ _ h =>
      obtain ⟨_, he⟩ := Process.terminate_of_handle h
      cases he

/-- **At most one call each**: what all the workers count after the flag is set. -/
theorem total_increments_le (h : Reach cfg tr s)
    (hflag : s.overseer.shouldExitImmediately = true) (h' : (machine cfg).Reach s tr' s') :
    total (· = .increaseRequestCounter) tr' ≤ cfg.nworkers := by
  have hreach : Reach cfg (tr ++ tr') s' := Machine.Reach.trans h h'
  let pids : List Pid := emitters (· = .increaseRequestCounter) tr'
  have hnodup : pids.Nodup := by
    refine List.nodup_iff_count_le_one.2 fun pid => ?_
    rw [count_emitters]
    exact count_loopEvent_le h hflag h' pid rfl
  have hsub : pids ⊆ (workerForks (tr ++ tr')).map Prod.fst := by
    intro pid hmem
    rw [← List.count_pos_iff, count_emitters, List.countP_pos_iff] at hmem
    obtain ⟨e, he, hinc⟩ := hmem
    obtain rfl : e = .increaseRequestCounter := of_decide_eq_true hinc
    have hchild : .child pid .increaseRequestCounter ∈ tr ++ tr' :=
      List.mem_append_right tr (mem_childTrace.1 he)
    obtain ⟨workerno, hf⟩ := forked_of_increment hreach hchild
    exact List.mem_map.2 ⟨(pid, workerno), mem_workerForks.2 hf, rfl⟩
  calc total (· = .increaseRequestCounter) tr' = pids.length := (length_emitters ..).symm
    _ ≤ ((workerForks (tr ++ tr')).map Prod.fst).length := (hnodup.subperm hsub).length_le
    _ = (workerForks (tr ++ tr')).length := List.length_map _
    _ ≤ cfg.nworkers := length_workerForks_le hreach

/-- What the counter adds after the flag is set. -/
theorem requestCounter_drains (h : Reach cfg tr s)
    (hflag : s.overseer.shouldExitImmediately = true) (h' : (machine cfg).Reach s tr' s') :
    ∃ k ≤ cfg.nworkers, s'.requestCounter = s.requestCounter + BitVec.ofNat 64 k := by
  refine ⟨_, total_increments_le h hflag h', ?_⟩
  rw [requestCounter_eq_total (Machine.Reach.trans h h'), requestCounter_eq_total h, total_append,
    BitVec.ofNat_add]

/-- **At the head of its loop a worker can only exit**, with status 1. -/
theorem step_at_head (h : Reach cfg tr s) (hflag : s.overseer.shouldExitImmediately = true)
    {p : Process} {w : Worker} (hp : s.processes pid = some p) (hprogram : p.program = .worker w)
    (hpc : w.pc = .testShouldExit) {o : Outcome} {r : State × List Event} :
    (machine cfg).step s (.child pid o) = some r ↔ o = .ok ∧
      r = (s.without pid (.exited 1),
        [.child pid (.terminate (.exited 1)), .overseer (.died pid)]) := by
  have halive : pid ∈ s.overseer.children.alive :=
    (isSome_processes_iff h pid).1 (Option.isSome_of_mem hp)
  have hdies : s.childDies cfg pid (.exited 1) (.child pid (.terminate (.exited 1))) =
      some (s.without pid (.exited 1),
        [.child pid (.terminate (.exited 1)), .overseer (.died pid)]) := by
    simp only [State.childDies, childDies_step halive]
    rfl
  have hstep : ∀ o, p.step s.runnerDied s.overseer.shouldExitImmediately o =
      if o = .ok then some (.worker w, some (.terminate (.exited 1))) else none := by
    intro o
    cases o <;> simp [Process.step, hprogram, Worker.step, hpc, hflag, Worker.terminate]
  have hrun : (machine cfg).step s (.child pid o) =
      if o = .ok then some (s.without pid (.exited 1),
        [.child pid (.terminate (.exited 1)), .overseer (.died pid)]) else none := by
    change step cfg s (.child pid o) = _
    simp only [step, hp, hstep]
    split_ifs with ho
    · exact hdies
    · rfl
  rw [hrun]
  split_ifs with ho
  · simp [ho, eq_comm]
  · simp [ho]

end BladePSGI.Group
