import BladePSGI.Overseer.Bookkeeping
import Mathlib.Data.Fintype.EquivFin

/-!
# The forks of the overseer

`SpawnWorkersAndAuxiliaryProcesses` forks the auxiliary processes in the order of the requests and
then the workers in the order of their numbers; `SpawnMonitoringProcess` forks last.

* `spawned_of_reach`: the forks of the trace are these, as far as the overseer has got.
* `Spawned.getElem?_forks`: the `i`-th fork is the one for the `i`-th request.
* `count_auxiliary`: each request is forked once.
-/

namespace BladePSGI.Overseer

open Function Transition

variable {cfg : Config} {s s' : State} {tr es : List Event} {a : Action}

/-- What the event forks. -/
def Event.forked : Event → Option Child
  | .fork _ child => some child
  | _ => none

/-- The children forked, in order. -/
def forks (tr : List Event) : List Child := tr.filterMap Event.forked

/-- The first `i` auxiliary processes. -/
def auxiliaries (i : ℕ) : List Child := (List.range i).map .auxiliary

/-- The first `i` workers. -/
def workers (i : ℕ) : List Child := (List.range i).map .worker

theorem auxiliaries_succ (i : ℕ) : auxiliaries (i + 1) = auxiliaries i ++ [.auxiliary i] := by
  simp [auxiliaries, List.range_succ]

theorem workers_succ (i : ℕ) : workers (i + 1) = workers i ++ [.worker i] := by
  simp [workers, List.range_succ]

/-- What has been forked when the main program stands at a place. -/
def Pc.Forked (cfg : Config) (children : List Child) : Pc → Prop
  | .spawnAuxiliary i => i ≤ cfg.auxiliaryNames.length ∧ children = auxiliaries i
  | .spawnWorker i =>
    i ≤ cfg.nworkers ∧ children = auxiliaries cfg.auxiliaryNames.length ++ workers i
  | .spawnMonitoring =>
    children = auxiliaries cfg.auxiliaryNames.length ++ workers cfg.nworkers
  | _ => ∃ last, last ⊆ [Child.monitoring] ∧
    children = auxiliaries cfg.auxiliaryNames.length ++ workers cfg.nworkers ++ last

theorem forked_iff {pc : Pc} (h : ¬ pc.Spawning) {children : List Child} :
    pc.Forked cfg children ↔ ∃ last, last ⊆ [Child.monitoring] ∧
      children = auxiliaries cfg.auxiliaryNames.length ++ workers cfg.nworkers ++ last := by
  cases pc with
  | spawnAuxiliary | spawnWorker | spawnMonitoring => simp [Pc.Spawning] at h
  | _ => exact Iff.rfl

/-- **The invariant.** -/
structure Spawned (cfg : Config) (tr : List Event) (s : State) : Prop where
  names : s.auxiliaryProcesses.map AuxiliaryProcess.name = cfg.auxiliaryNames
  forked : s.pc.Forked cfg (forks tr)

namespace Spawned

theorem init (cfg : Config) : Spawned cfg [] (init cfg) := by
  refine ⟨?_, Nat.zero_le _, rfl⟩
  simp [Overseer.init, comp_def]

theorem length_eq (h : Spawned cfg tr s) :
    s.auxiliaryProcesses.length = cfg.auxiliaryNames.length := by
  rw [← h.names, List.length_map]

theorem forks_append (tr es : List Event) : forks (tr ++ es) = forks tr ++ forks es :=
  List.filterMap_append

/-- A step that forks nothing. -/
theorem congr (h : Spawned cfg tr s) (hn : s'.auxiliaryProcesses = s.auxiliaryProcesses)
    (hf : forks es = []) (hpc : s.pc.Forked cfg (forks tr) → s'.pc.Forked cfg (forks tr)) :
    Spawned cfg (tr ++ es) s' := by
  refine ⟨hn ▸ h.names, ?_⟩
  rw [forks_append, hf, List.append_nil]
  exact hpc h.forked

/-- A step after the last `fork`. -/
theorem later (h : Spawned cfg tr s) (hn : s'.auxiliaryProcesses = s.auxiliaryProcesses)
    (hf : forks es = []) (hpc : ¬ s.pc.Spawning) (hpc' : ¬ s'.pc.Spawning) :
    Spawned cfg (tr ++ es) s' :=
  h.congr hn hf fun hforked => (forked_iff hpc').2 ((forked_iff hpc).1 hforked)

theorem mainStep (h : Spawned cfg tr s) (hr : Registered s) (hs : MainStep cfg s s' es) :
    Spawned cfg (tr ++ es) s' := by
  have hforked := h.forked
  cases hs with
  | @auxiliariesDone index hpc hlen =>
    refine h.congr rfl rfl fun _ => ⟨Nat.zero_le _, ?_⟩
    rw [hpc] at hforked
    obtain ⟨hle, heq⟩ := hforked
    rw [heq, Nat.le_antisymm (h.length_eq ▸ hlen) hle]
    simp [workers]
  | @forkAuxiliary index pid process hpc hget =>
    rw [hpc] at hforked
    obtain ⟨hle, heq⟩ := hforked
    obtain ⟨hlt, hprocess⟩ := List.getElem?_eq_some_iff.1 hget
    refine ⟨?_, h.length_eq ▸ hlt, ?_⟩
    · subst hprocess
      have hlt' : index < (s.auxiliaryProcesses.map AuxiliaryProcess.name).length := by
        rwa [List.length_map]
      have hset := List.set_getElem_self hlt'
      rw [List.getElem_map] at hset
      rw [List.map_set, hset, h.names]
    · rw [forks_append, heq, auxiliaries_succ]
      rfl
  | setPIDThrows hpc hget hpid _ => exact absurd (hr.pid_eq_none _ _ hpc hget) hpid
  | @workersDone workerno hpc hlen =>
    refine h.congr rfl rfl fun _ => ?_
    rw [hpc] at hforked
    obtain ⟨hle, heq⟩ := hforked
    exact heq.trans (by rw [Nat.le_antisymm hle hlen])
  | @forkWorker workerno pid hpc hlt =>
    rw [hpc] at hforked
    obtain ⟨hle, heq⟩ := hforked
    refine ⟨h.names, hlt, ?_⟩
    rw [forks_append, heq, workers_succ, List.append_assoc]
    rfl
  | forkMonitoring hpc =>
    rw [hpc] at hforked
    refine ⟨h.names, [.monitoring], List.Subset.refl _, ?_⟩
    rw [forks_append, show forks tr = _ from hforked]
    rfl
  | throws hpc =>
    by_cases hspawn : s.pc = .spawnMonitoring
    · rw [hspawn] at hforked
      refine h.congr rfl rfl fun _ => ⟨[], List.nil_subset _, ?_⟩
      rw [List.append_nil]
      exact hforked
    · refine h.later rfl rfl ?_ (by simp [Pc.Spawning])
      rcases hpc with hpc | hpc | hpc | hpc | hpc | hpc <;> simp_all [Pc.Spawning]
  | forkAuxiliaryFails | forkWorkerFails => exact h.congr rfl rfl id
  | @erase found _ hpc =>
    cases found <;>
      exact h.later rfl rfl (by simp [hpc, Pc.Spawning]) (by simp [Overseer.erase, Pc.Spawning])
  | setShouldExit hpc =>
    rcases hpc with ⟨_, _, _, hpc, rfl, rfl⟩ | ⟨_, _, hpc, rfl, rfl⟩ | ⟨_, _, hpc, rfl, rfl⟩ <;>
      exact h.later rfl rfl (by simp [hpc, Pc.Spawning])
        (by dsimp only; split_ifs <;> simp [Pc.Spawning])
  | killpgReturn hpc =>
    exact h.later rfl rfl (by simp [hpc, Pc.Spawning])
      (mt Pc.Spawning.starting (afterKill_not_starting _))
  | clearSmartShutdown hpc =>
    exact h.later rfl rfl (by simp [hpc, Pc.Spawning])
      (mt Pc.Spawning.starting (afterClearSmart_not_starting _))
  | handleDeath hpc =>
    exact h.later rfl rfl (by simp [hpc, Pc.Spawning])
      (mt Pc.Spawning.starting (handleChildProcessDeath_not_starting _ _ _))
  | _ hpc => exact h.congr rfl rfl (by simp only [hpc]; exact id)

theorem step (h : Spawned cfg tr s) (hr : Registered s) (hs : Step cfg s a s' es) :
    Spawned cfg (tr ++ es) s' := by
  cases hs with
  | main _ _ hs => exact h.mainStep hr hs
  | handler _ _ hs => cases hs <;> exact h.congr rfl rfl id
  | _ => exact h.congr rfl rfl id

end Spawned

/-- **The children are forked in order.** -/
theorem spawned_of_reach (h : Reach cfg tr s) : Spawned cfg tr s := by
  refine h.invariant (Spawned cfg) (.init cfg) ?_
  rintro tr s a s' es hreach ih - hs
  exact ih.step (books_of_reach hreach).2 (step_cases hs)

/-- The number of a worker. -/
def Child.workerno? : Child → Option ℕ
  | .worker workerno => some workerno
  | _ => none

/-- The workers are numbered from zero, and are as many as the command line says at most. -/
theorem Pc.Forked.workernos {pc : Pc} {children : List Child} (h : pc.Forked cfg children) :
    ∃ n ≤ cfg.nworkers, children.filterMap Child.workerno? = List.range n := by
  have hauxiliaries : ∀ n, (auxiliaries n).filterMap Child.workerno? = [] := by
    simp [auxiliaries, Child.workerno?]
  have hworkers : ∀ n, (workers n).filterMap Child.workerno? = List.range n := by
    intro n
    rw [workers, List.filterMap_map]
    exact List.filterMap_some
  cases pc with
  | spawnAuxiliary i => exact ⟨0, Nat.zero_le _, by rw [h.2, hauxiliaries]; rfl⟩
  | spawnWorker i =>
    exact ⟨i, h.1, by rw [h.2, List.filterMap_append, hauxiliaries, hworkers, List.nil_append]⟩
  | spawnMonitoring =>
    refine ⟨_, Nat.le_refl _, ?_⟩
    rw [show children = _ from h, List.filterMap_append, hauxiliaries, hworkers, List.nil_append]
  | _ =>
    obtain ⟨last, hlast, rfl⟩ := h
    have hnil : last.filterMap Child.workerno? = [] := by
      refine List.filterMap_eq_nil_iff.2 fun child hchild => ?_
      rw [List.mem_singleton.1 (hlast hchild)]
      rfl
    refine ⟨_, Nat.le_refl _, ?_⟩
    rw [List.filterMap_append, List.filterMap_append, hauxiliaries, hworkers, hnil,
      List.nil_append, List.append_nil]

/-- The fork of the next auxiliary process can succeed. -/
theorem exists_forkAuxiliary (h : Reach cfg tr s) {k : ℕ} (hpc : s.pc = .spawnAuxiliary k)
    (hrun : s.terminated = none) (hh : s.handlers = []) (hk : k < cfg.auxiliaryNames.length) :
    ∃ pid s', (machine cfg).step s (.run (.forked pid)) = some (s', [.fork pid (.auxiliary k)]) ∧
      s'.pc = .spawnAuxiliary (k + 1) ∧ s'.terminated = none ∧ s'.handlers = [] := by
  obtain ⟨pid, hpid⟩ := Infinite.exists_notMem_finset s.children.unreaped
  rw [← (spawned_of_reach h).length_eq] at hk
  have hget : s.auxiliaryProcesses[k]? = some s.auxiliaryProcesses[k] := List.getElem?_eq_getElem hk
  have hnone := (books_of_reach h).2.pid_eq_none _ _ hpc hget
  let next : State := { s with
    children := s.children.fork pid hpid
    auxiliaryProcesses := s.auxiliaryProcesses.set k { s.auxiliaryProcesses[k] with pid := pid }
    auxiliaryPids := s.auxiliaryPids ++ [pid]
    pc := .spawnAuxiliary (k + 1) }
  refine ⟨pid, next, ?_, rfl, hrun, hh⟩
  change step cfg s (.run (.forked pid)) = _
  rw [step_run_main hrun hh]
  simp only [mainStep, hpc, spawnAuxiliaryProcess, hget, dif_pos hpid, AuxiliaryProcess.setPID,
    hnone]
  rfl

/-! ## Auxiliary processes by their names -/

/-- The child is an auxiliary process of the name. -/
def Child.hasName (names : List String) (name : String) : Child → Bool
  | .auxiliary i => names[i]? = some name
  | _ => false

theorem countP_range_getElem? (names : List String) (name : String) :
    (List.range names.length).countP (fun i => names[i]? = some name) = names.count name := by
  have h : (List.range names.length).map (names[·]?) = names.map some := by
    refine List.ext_getElem (by simp) fun i hi _ => ?_
    simp
  calc (List.range names.length).countP (fun i => names[i]? = some name)
      = ((List.range names.length).map (names[·]?)).countP (· = some name) := by
        rw [List.countP_map]; rfl
    _ = names.countP (· = name) := by rw [h, List.countP_map]; simp [comp_def]
    _ = names.count name := by rw [List.count_eq_countP]; simp [beq_eq_decide]

theorem Pc.Forked.rest {pc : Pc} {children : List Child} (h : pc.Forked cfg children)
    (hpc : ∀ i, pc ≠ .spawnAuxiliary i) : ∃ rest,
      children = auxiliaries cfg.auxiliaryNames.length ++ rest ∧ ∀ i, .auxiliary i ∉ rest := by
  have hworkers : ∀ n i, Child.auxiliary i ∉ workers n := by simp [workers]
  cases pc with
  | spawnAuxiliary i => exact absurd rfl (hpc i)
  | spawnWorker i => exact ⟨_, h.2, hworkers i⟩
  | spawnMonitoring => exact ⟨_, h, hworkers _⟩
  | _ =>
    obtain ⟨last, hlast, rfl⟩ := h
    refine ⟨workers cfg.nworkers ++ last, List.append_assoc .., fun i hi => ?_⟩
    rcases List.mem_append.1 hi with hi | hi
    · exact hworkers _ i hi
    · simpa using hlast hi

/-- **The `i`-th fork is the one for the `i`-th request.** -/
theorem Spawned.getElem?_forks (h : Spawned cfg tr s) {i : ℕ} (hmem : .auxiliary i ∈ forks tr) :
    i < cfg.auxiliaryNames.length ∧ (forks tr)[i]? = some (.auxiliary i) := by
  have hsplit : ∃ k rest, k ≤ cfg.auxiliaryNames.length ∧ forks tr = auxiliaries k ++ rest ∧
      .auxiliary i ∉ rest := by
    by_cases hpc : ∃ k, s.pc = .spawnAuxiliary k
    · obtain ⟨k, hpc⟩ := hpc
      have hforked := h.forked
      rw [hpc] at hforked
      exact ⟨k, [], hforked.1, hforked.2.trans (List.append_nil _).symm, List.not_mem_nil⟩
    · obtain ⟨rest, heq, hrest⟩ := h.forked.rest fun k hk => hpc ⟨k, hk⟩
      exact ⟨_, rest, Nat.le_refl _, heq, hrest i⟩
  obtain ⟨k, rest, hk, heq, hrest⟩ := hsplit
  rw [heq, List.mem_append, or_iff_left hrest] at hmem
  have hi : i < k := by simpa [auxiliaries] using hmem
  refine ⟨hi.trans_le hk, ?_⟩
  rw [heq, List.getElem?_append_left (by simpa [auxiliaries] using hi)]
  simp [auxiliaries, hi]

/-- **Each request is forked once.** After the loop over `auxiliary_processes_` there is one fork of
a name for every request of the name. -/
theorem count_auxiliary (h : Reach cfg tr s) (hpc : ∀ i, s.pc ≠ .spawnAuxiliary i) (name : String) :
    (forks tr).countP (Child.hasName cfg.auxiliaryNames name) = cfg.auxiliaryNames.count name := by
  obtain ⟨rest, heq, hrest⟩ := (spawned_of_reach h).forked.rest hpc
  have hzero : rest.countP (Child.hasName cfg.auxiliaryNames name) = 0 := by
    refine List.countP_eq_zero.2 fun child hchild => ?_
    cases child with
    | auxiliary i => exact absurd hchild (hrest i)
    | _ => simp [Child.hasName]
  rw [heq, List.countP_append, hzero, Nat.add_zero, auxiliaries, List.countP_map,
    ← countP_range_getElem?]
  rfl

end BladePSGI.Overseer
