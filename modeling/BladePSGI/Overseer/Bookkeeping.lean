import BladePSGI.Overseer.Step
import Mathlib.Data.List.Nodup

/-!
# The books the overseer keeps of its children

`worker_pids_`, `auxiliary_pids_` and `monitoring_process_pid_` are filled after each `fork` and
emptied after each `waitpid`. `Books` is the invariant: without duplicates or overlaps they list
the unreaped children, and beside them at most the one pid (`limbo`) that `waitpid` has just
returned and `HandleChildProcessDeath` has not yet removed.
-/

namespace BladePSGI.Overseer

open Function Transition ProcessTable

variable {cfg : Config} {s s' : State} {tr es : List Event} {a : Action}

/-- The pid is in one of the three lists. -/
def Listed (s : State) (pid : Pid) : Prop :=
  pid ∈ s.workerPids ∨ pid ∈ s.auxiliaryPids ∨ s.monitoringProcessPid = some pid

/-- The pid that a call of `KillProcessGroup` was made for. -/
def KillCaller.limbo : KillCaller → Option Pid
  | .unexpectedDeath pid => some pid
  | _ => none

/-- The pid that `waitpid` has returned and that is still in its list. -/
def Pc.limbo : Pc → Option Pid
  | .handleChildProcessDeath pid _ | .testShutdown _ pid _ | .erase _ pid
  | .handleUnexpectedDeath _ pid _ | .logUnexpectedDeath _ pid _
  | .unknownChild pid _ | .logUnknownChild pid _ => some pid
  | .killProcessGroup _ caller | .kill _ _ caller | .exit caller => caller.limbo
  | _ => none

@[simp] theorem limbo_afterKill (caller : KillCaller) :
    (afterKill caller).limbo = caller.limbo := by
  cases caller <;> rfl

@[simp] theorem limbo_afterClearSmart (caller : KillCaller) :
    (afterClearSmart caller).limbo = none := by
  cases caller <;> rfl

@[simp] theorem limbo_handleChildProcessDeath (s : State) (pid : Pid) (status : WaitStatus) :
    (handleChildProcessDeath s pid status).limbo = some pid := by
  unfold handleChildProcessDeath
  split_ifs <;> rfl

/-- The pid is in the list that the search found it in. -/
def InList (s : State) : Found → Pid → Prop
  | .worker, pid => pid ∈ s.workerPids
  | .auxiliary, pid => pid ∈ s.auxiliaryPids
  | .monitoring, pid => s.monitoringProcessPid = some pid

/-- **The bookkeeping invariant.** -/
structure Books (s : State) : Prop where
  nodup_workers : s.workerPids.Nodup
  nodup_auxiliaries : s.auxiliaryPids.Nodup
  disjoint : ∀ pid ∈ s.workerPids, pid ∉ s.auxiliaryPids
  monitoring : ∀ pid, s.monitoringProcessPid = some pid →
    pid ∉ s.workerPids ∧ pid ∉ s.auxiliaryPids
  listed : ∀ pid, Listed s pid ↔ pid ∈ s.children.unreaped ∨ s.pc.limbo = some pid
  limbo : ∀ pid, s.pc.limbo = some pid → pid ∉ s.children.unreaped
  found : ∀ found pid status, s.pc = .testShutdown found pid status → InList s found pid
  erase : ∀ found pid, s.pc = .erase found pid → InList s found pid
  known : ∀ pid status, s.pc ≠ .unknownChild pid status ∧ s.pc ≠ .logUnknownChild pid status
  /-- The monitoring process is forked last. -/
  notYet : (∃ i, s.pc = .spawnAuxiliary i) ∨ (∃ i, s.pc = .spawnWorker i) ∨
    s.pc = .spawnMonitoring → s.monitoringProcessPid = none

namespace Books

theorem init (cfg : Config) : Books (init cfg) := by
  constructor <;> simp [Overseer.init, Listed, Pc.limbo]

/-- A step that touches neither the lists nor the children may go anywhere, as long as the pid in
limbo stays in limbo and the search result stays what it is. -/
theorem congr (hb : Books s) (hw : s'.workerPids = s.workerPids)
    (ha : s'.auxiliaryPids = s.auxiliaryPids)
    (hm : s'.monitoringProcessPid = s.monitoringProcessPid)
    (hu : ∀ pid, pid ∈ s'.children.unreaped ↔ pid ∈ s.children.unreaped)
    (hl : s'.pc.limbo = s.pc.limbo)
    (hf : ∀ found pid status, s'.pc = .testShutdown found pid status → InList s found pid)
    (he : ∀ found pid, s'.pc = .erase found pid → InList s found pid)
    (hk : ∀ pid status, s'.pc ≠ .unknownChild pid status ∧ s'.pc ≠ .logUnknownChild pid status)
    (hn : (∃ i, s'.pc = .spawnAuxiliary i) ∨ (∃ i, s'.pc = .spawnWorker i) ∨
      s'.pc = .spawnMonitoring → s.monitoringProcessPid = none) :
    Books s' where
  nodup_workers := hw ▸ hb.nodup_workers
  nodup_auxiliaries := ha ▸ hb.nodup_auxiliaries
  disjoint := by rw [hw, ha]; exact hb.disjoint
  monitoring := by rw [hw, ha, hm]; exact hb.monitoring
  listed pid := by simpa only [Listed, hw, ha, hm, hu, hl] using hb.listed pid
  limbo pid := by simpa only [hu, hl] using hb.limbo pid
  found found pid status h := by
    have := hf found pid status h
    cases found <;> simpa only [InList, hw, ha, hm] using this
  erase found pid h := by
    have := he found pid h
    cases found <;> simpa only [InList, hw, ha, hm] using this
  known := hk
  notYet h := by rw [hm]; exact hn h

theorem handleDeath (hb : Books s) {pid : Pid} {status : WaitStatus}
    (hpc : s.pc = .handleChildProcessDeath pid status) :
    Books { s with pc := Overseer.handleChildProcessDeath s pid status } := by
  have hl : Listed s pid := (hb.listed pid).2 (Or.inr (by rw [hpc]; rfl))
  have hpc' : (Overseer.handleChildProcessDeath s pid status = .testShutdown .worker pid status ∧
        InList s .worker pid) ∨
      (Overseer.handleChildProcessDeath s pid status = .testShutdown .auxiliary pid status ∧
        InList s .auxiliary pid) ∨
      (Overseer.handleChildProcessDeath s pid status = .testShutdown .monitoring pid status ∧
        InList s .monitoring pid) := by
    unfold Overseer.handleChildProcessDeath
    split_ifs with hw ha hm
    · exact Or.inl ⟨rfl, hw⟩
    · exact Or.inr (Or.inl ⟨rfl, ha⟩)
    · exact Or.inr (Or.inr ⟨rfl, hm⟩)
    · exact absurd hl (by simp [Listed, hw, ha, hm])
  rcases hpc' with ⟨h, hin⟩ | ⟨h, hin⟩ | ⟨h, hin⟩ <;> rw [h] <;>
    refine hb.congr rfl rfl rfl (fun _ => Iff.rfl) (by rw [hpc]; rfl) ?_ (by simp) (by simp)
      (by simp) <;>
    · rintro found q status' ⟨⟩
      exact hin

theorem reap (hb : Books s) {pid : Pid} (hpc : s.pc = .waitpid) (h : pid ∈ s.children.zombies) :
    Books { s with
      children := s.children.reap pid
      pc := .handleChildProcessDeath pid (s.children.status pid) } where
  nodup_workers := hb.nodup_workers
  nodup_auxiliaries := hb.nodup_auxiliaries
  disjoint := hb.disjoint
  monitoring := hb.monitoring
  listed q := by
    have hu : pid ∈ s.children.unreaped := mem_unreaped.2 (Or.inr h)
    have := hb.listed q
    simp only [hpc, Pc.limbo, reduceCtorEq, or_false] at this
    simp only [Pc.limbo, mem_unreaped_reap h, Option.some.injEq]
    refine this.trans ⟨fun hq => ?_, ?_⟩
    · by_cases hqp : pid = q
      · exact Or.inr hqp
      · exact Or.inl ⟨Ne.symm hqp, hq⟩
    · rintro (⟨-, hq⟩ | rfl)
      · exact hq
      · exact hu
  limbo q hq := by
    simp only [Pc.limbo, Option.some.injEq] at hq
    subst hq
    simp [mem_unreaped_reap h]
  found := by simp
  erase := by simp
  known := by simp
  notYet := by simp

/-- Removing the pid in limbo from its list removes it from the books. -/
theorem listed_erase (hb : Books s) {found : Found} {pid : Pid} (hin : InList s found pid)
    (q : Pid) :
    Listed (Overseer.erase s found pid) q ↔ Listed s q ∧ q ≠ pid := by
  cases found <;> simp only [InList] at hin <;> simp only [Overseer.erase, Listed]
  case worker =>
    have ha := hb.disjoint pid hin
    have hm : s.monitoringProcessPid ≠ some pid := fun h => (hb.monitoring pid h).1 hin
    rw [hb.nodup_workers.mem_erase_iff]
    by_cases hq : q = pid
    · simp [hq, ha, hm]
    · simp [hq]
  case auxiliary =>
    have hw : pid ∉ s.workerPids := fun h => hb.disjoint pid h hin
    have hm : s.monitoringProcessPid ≠ some pid := fun h => (hb.monitoring pid h).2 hin
    rw [hb.nodup_auxiliaries.mem_erase_iff]
    by_cases hq : q = pid
    · simp [hq, hw, hm]
    · simp [hq]
  case monitoring =>
    obtain ⟨hw, ha⟩ := hb.monitoring pid hin
    by_cases hq : q = pid
    · simp [hq, hw, ha]
    · simp [hq, hin, Ne.symm hq]

theorem erase_step (hb : Books s) {found : Found} {pid : Pid} (hpc : s.pc = .erase found pid) :
    Books (Overseer.erase s found pid) := by
  have hin := hb.erase found pid hpc
  have hl : s.pc.limbo = some pid := by rw [hpc]; rfl
  have hlimbo : (Overseer.erase s found pid).pc = .waitpid := by cases found <;> rfl
  have hchildren : (Overseer.erase s found pid).children = s.children := by cases found <;> rfl
  have hw : ∀ q ∈ (Overseer.erase s found pid).workerPids, q ∈ s.workerPids := by
    cases found
    case worker => exact fun q => List.mem_of_mem_erase
    all_goals exact fun q hq => hq
  have ha : ∀ q ∈ (Overseer.erase s found pid).auxiliaryPids, q ∈ s.auxiliaryPids := by
    cases found
    case auxiliary => exact fun q => List.mem_of_mem_erase
    all_goals exact fun q hq => hq
  have hm : ∀ q, (Overseer.erase s found pid).monitoringProcessPid = some q →
      s.monitoringProcessPid = some q := by
    cases found
    case monitoring => simp [Overseer.erase]
    all_goals exact fun q hq => hq
  constructor
  case nodup_workers =>
    cases found
    case worker => exact hb.nodup_workers.erase pid
    all_goals exact hb.nodup_workers
  case nodup_auxiliaries =>
    cases found
    case auxiliary => exact hb.nodup_auxiliaries.erase pid
    all_goals exact hb.nodup_auxiliaries
  case disjoint => exact fun q hq hq' => hb.disjoint q (hw q hq) (ha q hq')
  case monitoring =>
    exact fun q hq => ⟨fun h => (hb.monitoring q (hm q hq)).1 (hw q h),
      fun h => (hb.monitoring q (hm q hq)).2 (ha q h)⟩
  case listed =>
    intro q
    rw [hb.listed_erase hin, hb.listed, hl, hlimbo, hchildren]
    have := hb.limbo pid hl
    by_cases hq : q = pid
    · simp [hq, this, Pc.limbo]
    · simp [hq, Ne.symm hq, Pc.limbo]
  all_goals simp [hlimbo, Pc.limbo]

/-- A fresh pid is in no list. -/
theorem not_listed (hb : Books s) {pid : Pid} (hfresh : pid ∉ s.children.unreaped)
    (hl : s.pc.limbo = none) : ¬ Listed s pid := by
  rw [hb.listed, hl]
  simpa using hfresh

theorem forkAuxiliary (hb : Books s) {index pid : ℕ} {processes : List AuxiliaryProcess}
    (hpc : s.pc = .spawnAuxiliary index) (hfresh : pid ∉ s.children.unreaped) :
    Books { s with
      children := s.children.fork pid hfresh
      auxiliaryProcesses := processes
      auxiliaryPids := s.auxiliaryPids ++ [pid]
      pc := .spawnAuxiliary (index + 1) } := by
  have hnl := hb.not_listed hfresh (by rw [hpc]; rfl)
  have hm := hb.notYet (Or.inl ⟨index, hpc⟩)
  simp only [Listed, not_or] at hnl
  constructor <;> try simp [hm]
  case nodup_workers => exact hb.nodup_workers
  case nodup_auxiliaries =>
    exact hb.nodup_auxiliaries.append (by simp) (by simpa using hnl.2.1)
  case disjoint =>
    exact fun q hq => ⟨hb.disjoint q hq, fun h => hnl.1 (h ▸ hq)⟩
  case listed =>
    intro q
    have := hb.listed q
    simp only [Listed, hm, hpc, Pc.limbo, reduceCtorEq, or_false] at this
    simp only [Listed, Pc.limbo, List.mem_append, List.mem_singleton, reduceCtorEq, or_false,
      ← this]
    tauto
  case limbo => simp [Pc.limbo]

theorem forkWorker (hb : Books s) {workerno pid : ℕ} (hpc : s.pc = .spawnWorker workerno)
    (hfresh : pid ∉ s.children.unreaped) :
    Books { s with
      children := s.children.fork pid hfresh
      workerPids := s.workerPids ++ [pid]
      pc := .spawnWorker (workerno + 1) } := by
  have hnl := hb.not_listed hfresh (by rw [hpc]; rfl)
  have hm := hb.notYet (Or.inr (Or.inl ⟨workerno, hpc⟩))
  simp only [Listed, not_or] at hnl
  constructor <;> try simp [hm]
  case nodup_workers => exact hb.nodup_workers.append (by simp) (by simpa using hnl.1)
  case nodup_auxiliaries => exact hb.nodup_auxiliaries
  case disjoint =>
    rintro q (hq | rfl)
    · exact hb.disjoint q hq
    · exact hnl.2.1
  case listed =>
    intro q
    have := hb.listed q
    simp only [Listed, hm, hpc, Pc.limbo, reduceCtorEq, or_false] at this
    simp only [Listed, Pc.limbo, List.mem_append, List.mem_singleton, reduceCtorEq, or_false,
      ← this]
    tauto
  case limbo => simp [Pc.limbo]

theorem forkMonitoring (hb : Books s) {pid : ℕ} (hpc : s.pc = .spawnMonitoring)
    (hfresh : pid ∉ s.children.unreaped) :
    Books { s with
      children := s.children.fork pid hfresh
      monitoringProcessPid := some pid
      pc := .setSignalHandlers } := by
  have hnl := hb.not_listed hfresh (by rw [hpc]; rfl)
  have hm := hb.notYet (Or.inr (Or.inr hpc))
  simp only [Listed, not_or] at hnl
  constructor <;> try simp
  case nodup_workers => exact hb.nodup_workers
  case nodup_auxiliaries => exact hb.nodup_auxiliaries
  case disjoint => exact hb.disjoint
  case monitoring => exact ⟨hnl.1, hnl.2.1⟩
  case listed =>
    intro q
    have := hb.listed q
    simp only [Listed, hm, hpc, Pc.limbo, reduceCtorEq, or_false] at this
    simp only [Listed, Pc.limbo, Option.some.injEq, reduceCtorEq, or_false, ← this,
      eq_comm (a := pid)]
    tauto
  case limbo => simp [Pc.limbo]

/-- **The main program keeps the books.** -/
theorem mainStep (hb : Books s)
    (hr : ∀ index process, s.pc = .spawnAuxiliary index →
      s.auxiliaryProcesses[index]? = some process → process.pid = none)
    (h : MainStep cfg s s' es) : Books s' := by
  have hn := hb.notYet
  have hf := hb.found
  have he := hb.erase
  have hk := hb.known
  cases h with
  | forkAuxiliary hpc _ _ hfresh => exact hb.forkAuxiliary hpc hfresh
  | forkWorker hpc _ hfresh => exact hb.forkWorker hpc hfresh
  | forkMonitoring hpc hfresh => exact hb.forkMonitoring hpc hfresh
  | setPIDThrows hpc hget hpid _ => exact absurd (hr _ _ hpc hget) hpid
  | reap hpc h => exact hb.reap hpc h
  | handleDeath hpc => exact hb.handleDeath hpc
  | erase hpc => exact hb.erase_step hpc
  | setShouldExit hpc =>
    rcases hpc with ⟨_, _, _, hpc, rfl, rfl⟩ | ⟨_, _, hpc, rfl, rfl⟩ | ⟨_, _, hpc, rfl, rfl⟩
    · refine hb.congr rfl rfl rfl (fun _ => Iff.rfl) ?_ ?_ ?_ ?_ ?_ <;> dsimp only <;>
        split_ifs <;> simp_all [Pc.limbo, KillCaller.limbo]
    · exact absurd hpc (hk _ _).1
    · refine hb.congr rfl rfl rfl (fun _ => Iff.rfl) ?_ ?_ ?_ ?_ ?_ <;> dsimp only <;>
        split_ifs <;> simp_all [Pc.limbo, KillCaller.limbo]
  | throws hpc =>
    refine hb.congr rfl rfl rfl (fun _ => Iff.rfl) ?_ (by simp) (by simp) (by simp) (by simp)
    rcases hpc with hpc | hpc | hpc | hpc | hpc | hpc <;> rw [hpc] <;> rfl
  | expectedDeath hpc =>
    refine hb.congr rfl rfl rfl (fun _ => Iff.rfl) (by rw [hpc]; rfl) (by simp) ?_ (by simp)
      (by simp)
    rintro found q ⟨⟩
    exact hf _ _ _ hpc
  | @killpgReturn _ caller hpc =>
    cases caller <;>
      refine hb.congr rfl rfl rfl (fun _ => Iff.rfl) (by rw [hpc]; rfl) ?_ ?_ ?_ ?_ <;>
      simp [afterKill]
  | @clearSmartShutdown caller hpc =>
    cases caller <;>
      refine hb.congr rfl rfl rfl (fun _ => Iff.rfl) (by rw [hpc]; rfl) ?_ ?_ ?_ ?_ <;>
      simp [afterClearSmart]
  | _ =>
    refine hb.congr rfl rfl rfl (fun _ => Iff.rfl) ?_ ?_ ?_ ?_ ?_ <;>
      simp_all [Pc.limbo, KillCaller.limbo]

/-- Neither a handler run nor what happens to the process touches the lists. -/
theorem step (hb : Books s)
    (hr : ∀ index process, s.pc = .spawnAuxiliary index →
      s.auxiliaryProcesses[index]? = some process → process.pid = none)
    (h : Step cfg s a s' es) : Books s' := by
  have same : ∀ {t : State}, t.workerPids = s.workerPids → t.auxiliaryPids = s.auxiliaryPids →
      t.monitoringProcessPid = s.monitoringProcessPid →
      (∀ pid, pid ∈ t.children.unreaped ↔ pid ∈ s.children.unreaped) → t.pc = s.pc → Books t :=
    fun hw ha hm hu hpc => hb.congr hw ha hm hu (by rw [hpc]) (by rw [hpc]; exact hb.found)
      (by rw [hpc]; exact hb.erase) (by rw [hpc]; exact hb.known) (by rw [hpc]; exact hb.notYet)
  cases h with
  | main _ _ h => exact hb.mainStep hr h
  | handler _ _ h => cases h <;> exact same rfl rfl rfl (fun _ => Iff.rfl) rfl
  | childDies h => exact same rfl rfl rfl (fun _ => mem_unreaped_exit h) rfl
  | _ => exact same rfl rfl rfl (fun _ => Iff.rfl) rfl

end Books

/-! ## The pids of the auxiliary process objects -/

/-- The pids set in `auxiliary_processes_`, in order. -/
def processPids (processes : List AuxiliaryProcess) : List Pid :=
  processes.filterMap AuxiliaryProcess.pid

theorem processPids_set {processes : List AuxiliaryProcess} {index : ℕ} {process : AuxiliaryProcess}
    (pid : Pid) (hget : processes[index]? = some process)
    (hnone : ∀ process ∈ processes.drop index, process.pid = none) :
    processPids (processes.set index ⟨process.name, some pid⟩) =
      processPids processes ++ [pid] := by
  obtain ⟨hi, rfl⟩ := List.getElem?_eq_some_iff.1 hget
  have hrest : processPids (processes.drop index) = [] :=
    List.filterMap_eq_nil_iff.2 hnone
  have hrest' : processPids (processes.drop (index + 1)) = [] :=
    List.filterMap_eq_nil_iff.2 fun process h =>
      hnone process (List.drop_subset_drop_left processes (Nat.le_succ index) h)
  have hsplit : processPids processes = processPids (processes.take index) := by
    rw [← List.append_nil (processPids (processes.take index)), ← hrest, processPids, processPids,
      processPids, ← List.filterMap_append, List.take_append_drop]
  rw [List.set_eq_take_append_cons_drop, if_pos hi, hsplit]
  simp only [processPids, List.filterMap_append, List.filterMap_cons] at hrest' ⊢
  rw [hrest']

/-- **Every pid in `auxiliary_pids_` belongs to one process object.** While auxiliary processes are
being spawned, the objects not yet reached have no pid and the others are listed in order. -/
structure Registered (s : State) : Prop where
  nodup : (processPids s.auxiliaryProcesses).Nodup
  subset : ∀ pid ∈ s.auxiliaryPids, pid ∈ processPids s.auxiliaryProcesses
  spawning : ∀ index, s.pc = .spawnAuxiliary index →
    processPids s.auxiliaryProcesses = s.auxiliaryPids ∧
      ∀ process ∈ s.auxiliaryProcesses.drop index, process.pid = none

namespace Registered

theorem init (cfg : Config) : Registered (init cfg) := by
  have h : processPids (cfg.auxiliaryNames.map (⟨·, none⟩)) = [] := by
    simp [processPids]
  constructor
  · simp [Overseer.init, h]
  · simp [Overseer.init]
  · simp [Overseer.init, h]

theorem pid_eq_none (hr : Registered s) (index : ℕ) (process : AuxiliaryProcess)
    (hpc : s.pc = .spawnAuxiliary index) (hget : s.auxiliaryProcesses[index]? = some process) :
    process.pid = none := by
  obtain ⟨hi, rfl⟩ := List.getElem?_eq_some_iff.1 hget
  refine (hr.spawning index hpc).2 _ ?_
  rw [List.drop_eq_getElem_cons hi]
  exact List.mem_cons_self

theorem congr (hr : Registered s) (hp : s'.auxiliaryProcesses = s.auxiliaryProcesses)
    (ha : ∀ pid ∈ s'.auxiliaryPids, pid ∈ s.auxiliaryPids)
    (hpc : ∀ index, s'.pc ≠ .spawnAuxiliary index) : Registered s' where
  nodup := hp ▸ hr.nodup
  subset pid h := hp ▸ hr.subset pid (ha pid h)
  spawning index h := absurd h (hpc index)

theorem forkAuxiliary (hr : Registered s) (hb : Books s) {index pid : ℕ}
    {process : AuxiliaryProcess} (hpc : s.pc = .spawnAuxiliary index)
    (hget : s.auxiliaryProcesses[index]? = some process)
    (hfresh : pid ∉ s.children.unreaped) :
    Registered { s with
      children := s.children.fork pid hfresh
      auxiliaryProcesses := s.auxiliaryProcesses.set index ⟨process.name, some pid⟩
      auxiliaryPids := s.auxiliaryPids ++ [pid]
      pc := .spawnAuxiliary (index + 1) } := by
  obtain ⟨heq, hnone⟩ := hr.spawning index hpc
  have hset := processPids_set pid hget hnone
  have hnl := hb.not_listed hfresh (by rw [hpc]; rfl)
  simp only [Listed, not_or] at hnl
  refine ⟨?_, ?_, ?_⟩ <;> simp only [hset, heq]
  · exact hb.nodup_auxiliaries.append (by simp) (by simpa using hnl.2.1)
  · exact fun _ h => h
  · rintro i ⟨⟩
    refine ⟨trivial, fun process h => hnone process ?_⟩
    rw [List.drop_set_of_lt (Nat.lt_succ_self index)] at h
    exact List.drop_subset_drop_left s.auxiliaryProcesses (Nat.le_succ index) h

theorem mainStep (hr : Registered s) (hb : Books s) (h : MainStep cfg s s' es) :
    Registered s' := by
  have hs := hr.spawning
  cases h with
  | forkAuxiliary hpc hget _ hfresh => exact hr.forkAuxiliary hb hpc hget hfresh
  | setPIDThrows hpc hget hpid _ => exact absurd (hr.pid_eq_none _ _ hpc hget) hpid
  | forkAuxiliaryFails => exact ⟨hr.nodup, hr.subset, hr.spawning⟩
  | @erase found pid hpc =>
    cases found
    case auxiliary => exact hr.congr rfl (fun _ => List.mem_of_mem_erase) (by simp [Overseer.erase])
    all_goals exact hr.congr rfl (fun _ h => h) (by simp [Overseer.erase])
  | setShouldExit hpc =>
    refine hr.congr rfl (fun _ h => h) fun index => ?_
    rcases hpc with ⟨_, _, _, -, rfl, rfl⟩ | ⟨_, _, -, rfl, rfl⟩ | ⟨_, _, -, rfl, rfl⟩ <;>
      dsimp only <;> split_ifs <;> simp
  | @killpgReturn _ caller =>
      exact hr.congr rfl (fun _ h => h) (by cases caller <;> simp [afterKill])
  | @clearSmartShutdown caller =>
    exact hr.congr rfl (fun _ h => h) (by cases caller <;> simp [afterClearSmart])
  | handleDeath =>
    refine hr.congr rfl (fun _ h => h) fun index => ?_
    dsimp only [handleChildProcessDeath]
    split_ifs <;> simp
  | _ => exact hr.congr rfl (fun _ h => h) (by simp_all)

theorem step (hr : Registered s) (hb : Books s) (h : Step cfg s a s' es) : Registered s' := by
  have same : ∀ {t : State}, t.auxiliaryProcesses = s.auxiliaryProcesses →
      t.auxiliaryPids = s.auxiliaryPids → t.pc = s.pc → Registered t := fun hp ha hpc =>
    ⟨hp ▸ hr.nodup, by rw [hp, ha]; exact hr.subset, by rw [hp, ha, hpc]; exact hr.spawning⟩
  cases h with
  | main _ _ h => exact hr.mainStep hb h
  | handler _ _ h => cases h <;> exact same rfl rfl rfl
  | _ => exact same rfl rfl rfl

end Registered

/-- **The books are right in every reachable state.** -/
theorem books_of_reach (h : Reach cfg tr s) : Books s ∧ Registered s := by
  refine h.invariant (fun _ s => Books s ∧ Registered s) ⟨.init cfg, .init cfg⟩ ?_
  rintro _ s a s' es - ⟨hb, hr⟩ - hs
  have hs := step_cases hs
  exact ⟨hb.step hr.pid_eq_none hs, hr.step hb hs⟩

/-! ## The forks and waits of the trace -/

/-- The overseer has forked the child and not yet reaped it. -/
def Unreaped (tr : List Event) (pid : Pid) : Prop :=
  (∃ child, .fork pid child ∈ tr) ∧ .reap pid ∉ tr

/-- The main program is still forking. -/
def Pc.Spawning (pc : Pc) : Prop :=
  (∃ i, pc = .spawnAuxiliary i) ∨ (∃ i, pc = .spawnWorker i) ∨ pc = .spawnMonitoring

/-- The main program has not yet unblocked the signals. -/
def Pc.Starting (pc : Pc) : Prop := pc.Spawning ∨ pc = .setSignalHandlers ∨ pc = .unblockSignals

theorem Pc.Spawning.starting {pc : Pc} (h : pc.Spawning) : pc.Starting := Or.inl h

theorem afterKill_not_starting (caller : KillCaller) : ¬ (afterKill caller).Starting := by
  cases caller <;> simp [afterKill, Pc.Starting, Pc.Spawning]

theorem afterClearSmart_not_starting (caller : KillCaller) :
    ¬ (afterClearSmart caller).Starting := by
  cases caller <;> simp [afterClearSmart, Pc.Starting, Pc.Spawning]

theorem handleChildProcessDeath_not_starting (s : State) (pid : Pid) (status : WaitStatus) :
    ¬ (handleChildProcessDeath s pid status).Starting := by
  unfold handleChildProcessDeath
  split_ifs <;> simp [Pc.Starting, Pc.Spawning]

/-- **The main program starts once.** While it does, it leaves the signal mask and the exit flag
alone. -/
theorem mainStep_starting (h : MainStep cfg s s' es) (hpc : s'.pc.Starting) :
    s.pc.Starting ∧ (s'.pc.Spawning → s.pc.Spawning) ∧ s'.signalsBlocked = s.signalsBlocked ∧
      s'.shouldExitImmediately = s.shouldExitImmediately := by
  cases h with
  | @erase found => cases found <;> simp [erase, Pc.Starting, Pc.Spawning] at hpc
  | setShouldExit h =>
    rcases h with ⟨_, _, _, -, rfl, rfl⟩ | ⟨_, _, -, rfl, rfl⟩ | ⟨_, _, -, rfl, rfl⟩ <;>
      dsimp only at hpc <;> split_ifs at hpc <;> simp [Pc.Starting, Pc.Spawning] at hpc
  | killpgReturn => exact absurd hpc (afterKill_not_starting _)
  | clearSmartShutdown => exact absurd hpc (afterClearSmart_not_starting _)
  | handleDeath => exact absurd hpc (handleChildProcessDeath_not_starting _ _ _)
  | _ => simp_all [Pc.Starting, Pc.Spawning]

/-- **The kernel's table agrees with the trace.** No pid is handed out twice, since all forks
precede the first wait. -/
structure Recorded (tr : List Event) (s : State) : Prop where
  unreaped : ∀ pid, pid ∈ s.children.unreaped ↔ Unreaped tr pid
  reaped : ∀ pid, pid ∈ s.children.reaped ↔ .reap pid ∈ tr
  spawning : s.pc.Spawning → ∀ pid, .reap pid ∉ tr

namespace Recorded

theorem init (cfg : Config) : Recorded [] (init cfg) := by
  constructor <;> simp [Overseer.init, Unreaped]

/-- A step that neither forks nor waits. -/
theorem congr (hr : Recorded tr s)
    (hu : ∀ pid, pid ∈ s'.children.unreaped ↔ pid ∈ s.children.unreaped)
    (hd : s'.children.reaped = s.children.reaped) (hf : ∀ pid child, .fork pid child ∉ es)
    (hw : ∀ pid, .reap pid ∉ es) (hpc : s'.pc.Spawning → s.pc.Spawning) :
    Recorded (tr ++ es) s' where
  unreaped pid := by simp [hu, hr.unreaped, Unreaped, hf, hw]
  reaped pid := by simp [hd, hr.reaped, hw]
  spawning h pid := by simp [hr.spawning (hpc h), hw]

theorem fork (hr : Recorded tr s) {pid : Pid} (child : Child) (hfresh : pid ∉ s.children.unreaped)
    (hpc : s.pc.Spawning) (hs : s'.children = s.children.fork pid hfresh)
    (hes : ∀ e ∈ es, e = .fork pid child ∨ e = .terminate .abort) (hf : .fork pid child ∈ es) :
    Recorded (tr ++ es) s' := by
  have hw : ∀ q, .reap q ∉ es := fun q hq => by simpa using hes _ hq
  have hn := hr.spawning hpc
  constructor
  case unreaped =>
    intro q
    rw [hs, mem_unreaped_fork, hr.unreaped]
    simp only [Unreaped, List.mem_append, hn, hw, or_false, not_false_eq_true, and_true]
    constructor
    · rintro (rfl | ⟨c, hc⟩)
      · exact ⟨child, Or.inr hf⟩
      · exact ⟨c, Or.inl hc⟩
    · rintro ⟨c, hc | hc⟩
      · exact Or.inr ⟨c, hc⟩
      · have := hes _ hc
        simp only [Event.fork.injEq, reduceCtorEq, or_false] at this
        exact Or.inl this.1
  case reaped => intro q; simp [hs, hr.reaped, hw]
  case spawning => intro _ q; simp [hn, hw]

theorem mainStep (hr : Recorded tr s) (h : MainStep cfg s s' es) : Recorded (tr ++ es) s' := by
  have hback : s'.pc.Spawning → s.pc.Spawning := fun hpc =>
    (mainStep_starting h hpc.starting).2.1 hpc
  cases h with
  | @forkAuxiliary index _ _ hpc _ _ hfresh =>
    exact hr.fork (.auxiliary index) hfresh (Or.inl ⟨_, hpc⟩) rfl (by simp) (by simp)
  | @setPIDThrows index _ _ hpc _ _ hfresh =>
    exact hr.fork (.auxiliary index) hfresh (Or.inl ⟨_, hpc⟩) rfl (by simp) (by simp)
  | @forkWorker workerno _ hpc _ hfresh =>
    exact hr.fork (.worker workerno) hfresh (Or.inr (Or.inl ⟨_, hpc⟩)) rfl (by simp) (by simp)
  | forkMonitoring hpc hfresh =>
    exact hr.fork .monitoring hfresh (Or.inr (Or.inr hpc)) rfl (by simp) (by simp)
  | reap hpc h =>
    constructor
    · intro q
      simp only [mem_unreaped_reap h, hr.unreaped, Unreaped, List.mem_append, List.mem_singleton,
        reduceCtorEq, or_false, Event.reap.injEq, not_or]
      tauto
    · intro q
      simp [hr.reaped, or_comm]
    · simp [Pc.Spawning]
  | @erase found => cases found <;> exact hr.congr (fun _ => Iff.rfl) rfl (by simp) (by simp) hback
  | _ => exact hr.congr (fun _ => Iff.rfl) rfl (by simp) (by simp) hback

theorem step (hr : Recorded tr s) (h : Step cfg s a s' es) : Recorded (tr ++ es) s' := by
  cases h with
  | main _ _ h => exact hr.mainStep h
  | handler _ _ h =>
    cases h <;> exact hr.congr (fun _ => Iff.rfl) rfl (by simp) (by simp) id
  | childDies h => exact hr.congr (fun _ => mem_unreaped_exit h) rfl (by simp) (by simp) id
  | _ => exact hr.congr (fun _ => Iff.rfl) rfl (by simp) (by simp) id

end Recorded

theorem recorded_of_reach (h : Reach cfg tr s) : Recorded tr s := by
  refine h.invariant Recorded (.init cfg) ?_
  rintro tr s a s' es - hr - hs
  exact hr.step (step_cases hs)

/-- No pid is handed out twice. -/
theorem Recorded.fork_notMem (hr : Recorded tr s) (h : Step cfg s a s' es) {pid : Pid}
    {child : Child} (hf : .fork pid child ∈ es) (child' : Child) : .fork pid child' ∉ tr := by
  have new : ∀ {q c}, s.pc.Spawning → q ∉ s.children.unreaped → Event.fork pid child = .fork q c →
      .fork pid child' ∉ tr := by
    rintro q c hpc hfresh ⟨⟩ hold
    exact hfresh ((hr.unreaped pid).2 ⟨⟨_, hold⟩, hr.spawning hpc pid⟩)
  cases h with
  | main _ _ h =>
    cases h with
    | forkAuxiliary hpc _ _ hfresh => exact new (Or.inl ⟨_, hpc⟩) hfresh (List.mem_singleton.1 hf)
    | setPIDThrows hpc _ _ hfresh => exact new (Or.inl ⟨_, hpc⟩) hfresh (by simpa using hf)
    | forkWorker hpc _ hfresh =>
      exact new (Or.inr (Or.inl ⟨_, hpc⟩)) hfresh (List.mem_singleton.1 hf)
    | forkMonitoring hpc hfresh => exact new (Or.inr (Or.inr hpc)) hfresh (List.mem_singleton.1 hf)
    | _ => simp at hf
  | handler _ _ h => cases h <;> simp at hf
  | _ => simp at hf

/-! ## The dead -/

/-- The child that dies. -/
def Event.died? : Event → Option Pid
  | .died pid => some pid
  | _ => none

/-- The children that have died, in the order of their deaths. -/
def dead (tr : List Event) : List Pid := tr.filterMap Event.died?

theorem dead_append (tr es : List Event) : dead (tr ++ es) = dead tr ++ dead es :=
  List.filterMap_append

theorem dead_append_of_notMem (h : ∀ pid, .died pid ∉ es) : dead (tr ++ es) = dead tr := by
  have hnil : dead es = [] := by
    refine List.filterMap_eq_nil_iff.2 fun e he => ?_
    cases e with
    | died pid => exact absurd he (h pid)
    | _ => rfl
  rw [dead_append, hnil, List.append_nil]

/-- The overseer kills none of its children itself. -/
theorem Step.died_notMem {o : Outcome} (h : Step cfg s (.run o) s' es) (pid : Pid) :
    .died pid ∉ es := by
  cases h with
  | main _ _ h => cases h <;> simp
  | handler _ _ h => cases h <;> simp

/-- **The dead are the forked children that do not live**, each of them once. -/
structure Buried (tr : List Event) (s : State) : Prop where
  nodup : (dead tr).Nodup
  mem_iff : ∀ pid, pid ∈ dead tr ↔ (∃ child, .fork pid child ∈ tr) ∧ pid ∉ s.children.alive

namespace Buried

theorem init (cfg : Config) : Buried [] (init cfg) := ⟨List.nodup_nil, by simp [dead]⟩

/-- A step in which nobody is forked and nobody dies. -/
theorem congr (hb : Buried tr s) (halive : s'.children.alive = s.children.alive)
    (hf : ∀ pid child, .fork pid child ∉ es) (hd : ∀ pid, .died pid ∉ es) :
    Buried (tr ++ es) s' := by
  have hdead : dead (tr ++ es) = dead tr := dead_append_of_notMem hd
  refine ⟨hdead ▸ hb.nodup, fun pid => ?_⟩
  rw [hdead, hb.mem_iff, halive]
  simp [hf]

theorem run (hb : Buried tr s) (hr : Recorded tr s) {o : Outcome}
    (h : Step cfg s (.run o) s' es) : Buried (tr ++ es) s' := by
  have hdead : dead (tr ++ es) = dead tr := dead_append_of_notMem h.died_notMem
  refine ⟨hdead ▸ hb.nodup, fun pid => ?_⟩
  rw [hdead, hb.mem_iff, alive_run h]
  constructor
  · rintro ⟨⟨child, hf⟩, hdied⟩
    refine ⟨⟨child, List.mem_append_left es hf⟩, ?_⟩
    rintro (halive | ⟨child', hf'⟩)
    · exact hdied halive
    · exact hr.fork_notMem h hf' child hf
  · rintro ⟨⟨child, hf⟩, hdied⟩
    rw [not_or] at hdied
    refine ⟨⟨child, (List.mem_append.1 hf).resolve_right fun hf => ?_⟩, hdied.1⟩
    exact hdied.2 ⟨child, hf⟩

theorem childDies (hb : Buried tr s) (hr : Recorded tr s) {pid : Pid} {status : WaitStatus}
    (h : pid ∈ s.children.alive) (hs : s'.children = s.children.exit pid status) :
    Buried (tr ++ [.died pid]) s' := by
  have hdead : dead (tr ++ [.died pid]) = dead tr ++ [pid] := dead_append tr _
  have hnew : pid ∉ dead tr := fun hmem => ((hb.mem_iff pid).1 hmem).2 h
  have hforked : ∃ child, .fork pid child ∈ tr :=
    ((hr.unreaped pid).1 (mem_unreaped.2 (Or.inl h))).1
  refine ⟨?_, fun q => ?_⟩
  · rw [hdead, ← List.concat_eq_append]
    exact hb.nodup.concat hnew
  · rw [hdead, hs, List.mem_append, hb.mem_iff]
    by_cases hq : q = pid
    · subst hq
      simpa using hforked
    · simp [hq]

theorem step (hb : Buried tr s) (hr : Recorded tr s) (h : Step cfg s a s' es) :
    Buried (tr ++ es) s' := by
  cases h with
  | @main o _ _ hrun hh h => exact hb.run hr (.main (o := o) hrun hh h)
  | @handler o _ _ _ _ hrun hh h => exact hb.run hr (.handler (o := o) hrun hh h)
  | childDies h => exact hb.childDies hr h rfl
  | _ => exact hb.congr rfl (by simp) (by simp)

end Buried

theorem buried_of_reach (h : Reach cfg tr s) : Buried tr s := by
  refine h.invariant Buried (.init cfg) ?_
  rintro tr s a s' es hreach hb - hs
  exact hb.step (recorded_of_reach hreach) (step_cases hs)

/-! ## What a child was forked as -/

/-- **The lists agree with the forks.** A pid is forked once, and it is only ever in the list of
its kind. -/
structure Kinds (tr : List Event) (s : State) : Prop where
  worker : ∀ pid ∈ s.workerPids, ∃ i, .fork pid (.worker i) ∈ tr
  auxiliary : ∀ pid ∈ s.auxiliaryPids, ∃ i, .fork pid (.auxiliary i) ∈ tr
  monitoring : ∀ pid, s.monitoringProcessPid = some pid → .fork pid .monitoring ∈ tr
  unique : ∀ pid child child', .fork pid child ∈ tr → .fork pid child' ∈ tr → child = child'

namespace Kinds

theorem init (cfg : Config) : Kinds [] (init cfg) := by
  constructor <;> simp [Overseer.init]

/-- A step that does not fork. -/
theorem congr (hk : Kinds tr s) (hw : ∀ pid ∈ s'.workerPids, pid ∈ s.workerPids)
    (ha : ∀ pid ∈ s'.auxiliaryPids, pid ∈ s.auxiliaryPids)
    (hm : ∀ pid, s'.monitoringProcessPid = some pid → s.monitoringProcessPid = some pid)
    (hf : ∀ pid child, .fork pid child ∉ es) : Kinds (tr ++ es) s' where
  worker pid h := by simpa [hf] using hk.worker pid (hw pid h)
  auxiliary pid h := by simpa [hf] using hk.auxiliary pid (ha pid h)
  monitoring pid h := by simpa [hf] using hk.monitoring pid (hm pid h)
  unique pid child child' := by simpa [hf] using hk.unique pid child child'

/-- A step that forks a pid that no unreaped child has. -/
theorem fork (hk : Kinds tr s) (child : Child) (hr : Recorded tr s) {pid : Pid}
    (hfresh : pid ∉ s.children.unreaped) (hpc : s.pc.Spawning)
    (hw : ∀ q ∈ s'.workerPids, q ∈ s.workerPids ∨ q = pid ∧ ∃ i, child = .worker i)
    (ha : ∀ q ∈ s'.auxiliaryPids, q ∈ s.auxiliaryPids ∨ q = pid ∧ ∃ i, child = .auxiliary i)
    (hm : ∀ q, s'.monitoringProcessPid = some q →
      s.monitoringProcessPid = some q ∨ q = pid ∧ child = .monitoring)
    (hes : ∀ q c, .fork q c ∈ es ↔ q = pid ∧ c = child) : Kinds (tr ++ es) s' where
  worker q h := by
    rcases hw q h with h | ⟨rfl, i, rfl⟩
    · exact (hk.worker q h).imp fun _ h => List.mem_append_left _ h
    · exact ⟨i, List.mem_append_right _ ((hes _ _).2 ⟨rfl, rfl⟩)⟩
  auxiliary q h := by
    rcases ha q h with h | ⟨rfl, i, rfl⟩
    · exact (hk.auxiliary q h).imp fun _ h => List.mem_append_left _ h
    · exact ⟨i, List.mem_append_right _ ((hes _ _).2 ⟨rfl, rfl⟩)⟩
  monitoring q h := by
    rcases hm q h with h | ⟨rfl, rfl⟩
    · exact List.mem_append_left _ (hk.monitoring q h)
    · exact List.mem_append_right _ ((hes _ _).2 ⟨rfl, rfl⟩)
  unique q c c' h h' := by
    have hnew : ∀ c, .fork pid c ∉ tr := fun c hc =>
      hfresh ((hr.unreaped pid).2 ⟨⟨c, hc⟩, hr.spawning hpc pid⟩)
    rw [List.mem_append, hes] at h h'
    rcases h with h | ⟨rfl, rfl⟩ <;> obtain h' | ⟨hq, rfl⟩ := h'
    · exact hk.unique q c c' h h'
    · exact absurd (hq ▸ h) (hnew c)
    · exact absurd h' (hnew c')
    · rfl

theorem mainStep (hk : Kinds tr s) (hr : Recorded tr s) (h : MainStep cfg s s' es) :
    Kinds (tr ++ es) s' := by
  cases h with
  | @forkAuxiliary index _ _ hpc _ _ hfresh =>
    exact hk.fork (.auxiliary index) hr hfresh (Or.inl ⟨_, hpc⟩) (fun _ h => Or.inl h)
      (by simp) (fun _ h => Or.inl h) (by simp)
  | @setPIDThrows index _ _ hpc _ _ hfresh =>
    exact hk.fork (.auxiliary index) hr hfresh (Or.inl ⟨_, hpc⟩) (fun _ h => Or.inl h)
      (fun _ h => Or.inl h) (fun _ h => Or.inl h) (by simp)
  | @forkWorker workerno _ hpc _ hfresh =>
    exact hk.fork (.worker workerno) hr hfresh (Or.inr (Or.inl ⟨_, hpc⟩)) (by simp)
      (fun _ h => Or.inl h) (fun _ h => Or.inl h) (by simp)
  | forkMonitoring hpc hfresh =>
    exact hk.fork .monitoring hr hfresh (Or.inr (Or.inr hpc)) (fun _ h => Or.inl h)
      (fun _ h => Or.inl h) (fun _ h => Or.inr ⟨(Option.some.inj h).symm, rfl⟩) (by simp)
  | @erase found =>
    cases found
    case worker =>
      exact hk.congr (fun _ => List.mem_of_mem_erase) (fun _ h => h) (fun _ h => h) (by simp)
    case auxiliary =>
      exact hk.congr (fun _ h => h) (fun _ => List.mem_of_mem_erase) (fun _ h => h) (by simp)
    case monitoring =>
      exact hk.congr (fun _ h => h) (fun _ h => h) (by simp [Overseer.erase]) (by simp)
  | _ => exact hk.congr (fun _ h => h) (fun _ h => h) (fun _ h => h) (by simp)

theorem step (hk : Kinds tr s) (hr : Recorded tr s) (h : Step cfg s a s' es) :
    Kinds (tr ++ es) s' := by
  cases h with
  | main _ _ h => exact hk.mainStep hr h
  | handler _ _ h =>
    cases h <;> exact hk.congr (fun _ h => h) (fun _ h => h) (fun _ h => h) (by simp)
  | _ => exact hk.congr (fun _ h => h) (fun _ h => h) (fun _ h => h) (by simp)

end Kinds

theorem kinds_of_reach (h : Reach cfg tr s) : Kinds tr s := by
  refine h.invariant Kinds (.init cfg) ?_
  rintro tr s a s' es hreach hk - hs
  exact hk.step (recorded_of_reach hreach) (step_cases hs)

/-! ## The books at a call of `waitpid` -/

/-- `abort` is never reached: the name of an auxiliary process is always found. -/
theorem not_abort (h : Reach cfg tr s) : s.terminated ≠ some .abort := by
  refine h.invariant (fun _ s => s.terminated ≠ some .abort) (by simp [Overseer.init]) ?_
  rintro tr s a s' es hreach ht - hs
  obtain ⟨hb, hr⟩ := books_of_reach hreach
  cases step_cases hs with
  | main _ _ h =>
    cases h with
    | setPIDThrows hpc hget hpid _ => exact absurd (hr.pid_eq_none _ _ hpc hget) hpid
    | noAuxiliaryProcess hpc _ hfind =>
      obtain ⟨process, hmem, hpid⟩ :=
        List.mem_filterMap.1 (hr.subset _ (hb.found _ _ _ hpc))
      exact absurd hpid (hfind process hmem)
    | @erase found => cases found <;> exact ht
    | _ => first | exact ht | simp
  | handler _ _ h => cases h <;> first | exact ht | simp
  | _ => exact ht

/-- **Child bookkeeping is exact.** At every call of `waitpid` the three lists are free of
duplicates, disjoint, and hold exactly the children forked and not yet reaped, each auxiliary one
being the pid of one process object; the branch for an unknown child and `abort` are never reached;
and `waitpid` reports `ECHILD` exactly when the lists are empty. -/
theorem books_exact (h : Reach cfg tr s) :
    (s.pc = .waitpid →
      s.workerPids.Nodup ∧ s.auxiliaryPids.Nodup ∧ (∀ pid ∈ s.workerPids, pid ∉ s.auxiliaryPids) ∧
      (∀ pid, s.monitoringProcessPid = some pid → pid ∉ s.workerPids ∧ pid ∉ s.auxiliaryPids) ∧
      (∀ pid, Listed s pid ↔ Unreaped tr pid) ∧
      (∀ pid ∈ s.auxiliaryPids, s.auxiliaryProcesses.countP (·.pid == some pid) = 1) ∧
      ((waitpid s (.wait .noChild)).isSome ↔
        s.workerPids = [] ∧ s.auxiliaryPids = [] ∧ s.monitoringProcessPid = none)) ∧
    (∀ pid status, s.pc ≠ .unknownChild pid status) ∧ s.terminated ≠ some .abort := by
  obtain ⟨hb, hr⟩ := books_of_reach h
  refine ⟨fun hpc => ?_, fun pid status => (hb.known pid status).1, not_abort h⟩
  have hl : ∀ pid, Listed s pid ↔ pid ∈ s.children.unreaped := fun pid => by
    simpa [hpc, Pc.limbo] using hb.listed pid
  refine ⟨hb.nodup_workers, hb.nodup_auxiliaries, hb.disjoint, hb.monitoring,
    fun pid => (hl pid).trans ((recorded_of_reach h).unreaped pid), fun pid hpid => ?_, ?_⟩
  · have hone := List.count_eq_one_of_mem hr.nodup (hr.subset pid hpid)
    rw [processPids, List.count_filterMap] at hone
    simpa using hone
  · have hnone : (waitpid s (.wait .noChild)).isSome ↔ s.children.unreaped = ∅ := by
      by_cases hu : s.children.unreaped = ∅ <;> simp [waitpid, Reports, hu]
    rw [hnone, Finset.eq_empty_iff_forall_notMem, ← forall_congr' fun pid => not_congr (hl pid)]
    simp only [Listed, not_or, forall_and, List.eq_nil_iff_forall_not_mem,
      Option.eq_none_iff_forall_ne_some]

theorem isSome_exec_waitpid : ((machine oneWorker).exec (init oneWorker)
    (startup ++ [.run .timeout, .run .ok, .run .ok])).isSome := by
  decide

theorem books_exact_oneWorker : ∃ tr s, Reach oneWorker tr s ∧ s.pc = .waitpid ∧
    s.workerPids = [10] ∧ (∀ pid, Listed s pid ↔ Unreaped tr pid) ∧ s.terminated ≠ some .abort := by
  have hb := books_exact (Machine.reach_exec isSome_exec_waitpid)
  obtain ⟨-, -, -, -, hl, -⟩ := hb.1 (by decide)
  exact ⟨_, _, Machine.reach_exec isSome_exec_waitpid, by decide, by decide, hl, hb.2.2⟩

end BladePSGI.Overseer
