import BladePSGI.Foundations.Text
import BladePSGI.Group.Segment

/-!
# The status of an idle worker

`MainLoopIteration` stores `_` as the status of its worker before each call of the callback, and the
PSGI application may store anything else while it handles a request. A worker that waits for a
request is therefore shown as `_`, whatever the others do to the segment in the meantime.

* `workerno_inj`: no two living workers have the same number.
* `Access.status`: no access touches the status of another worker.
* `idle_status`: the status of an idle worker.
-/

namespace BladePSGI.Group

open Transition Shmem Text

variable {cfg : Overseer.Config} {tr es : List Event} {i : ℕ}

/-- The worker has not got a request since it has stored `_`. -/
def Worker.Pc.Idle (pc : Worker.Pc) : Prop :=
  pc = .call ∨ pc = .accept ∨ pc = .accepting ∨ pc = .acceptInterrupted

/-- Where an idle worker comes from. -/
theorem Worker.Step.idle {w w' : Worker} {shouldExit : Bool} {o : Outcome} {e : Option ChildEvent}
    (h : Worker.Step w shouldExit o w' e) (hidle : w'.pc.Idle) :
    w'.workerno = w.workerno ∧ (w.pc.Idle ∨ e = some (.setWorkerStatus w.workerno '_')) := by
  refine ⟨h.workerno, ?_⟩
  cases h with
  | setWorkerStatus => exact Or.inr rfl
  | call hpc => exact Or.inl (Or.inl hpc)
  | accept hpc => exact Or.inl (Or.inr (Or.inl hpc))
  | shouldExit hpc | terminated hpc | exception hpc => exact Or.inl hidle
  | exit => exact Or.inl hidle
  | _ => simp [Worker.Pc.Idle] at hidle

theorem Process.idle_of_handle {p : Process} {sig : Signal} {w' : Worker}
    (h : (p.handle sig).1 = .worker w') (hidle : w'.pc.Idle) :
    ∃ w, p.program = .worker w ∧ w'.workerno = w.workerno ∧ w.pc.Idle := by
  obtain ⟨w, hprogram, hworkerno⟩ := Process.worker_handle h
  refine ⟨w, hprogram, hworkerno, ?_⟩
  simp only [Process.handle, hprogram, Program.worker.injEq] at h
  subst h
  cases sig with
  | sigterm =>
    by_cases hpc : w.pc = .accepting
    · exact Or.inr (Or.inr (Or.inl hpc))
    · simpa [Worker.handle, hpc] using hidle
  | sigint | sigquit | sigchld => exact hidle

/-- What a child does is an event of the step. -/
theorem Step.child_mem {g g' : State} {pid : Pid} {o : Outcome} {p : Process} {program : Program}
    {e : ChildEvent} (h : Step cfg g (.child pid o) g' es) (hp : g.processes pid = some p)
    (hstep : p.step g.runnerDied g.overseer.shouldExitImmediately o = some (program, some e)) :
    .child pid e ∈ es := by
  cases h with
  | child hq h hc =>
    obtain rfl := Option.some.inj (hq.symm.trans hp)
    obtain ⟨-, rfl⟩ := Prod.mk.inj (Option.some.inj (h.symm.trans hstep))
    rw [← mem_childTrace, hc.childTrace_eq, if_pos rfl]
    exact List.mem_singleton_self e

/-- **No two living workers have the same number.** -/
theorem workerno_inj {g : State} (h : Reach cfg tr g) {pid q : Pid} {p p' : Process} {w w' : Worker}
    (hp : g.processes pid = some p) (hprogram : p.program = .worker w)
    (hq : g.processes q = some p') (hprogram' : p'.program = .worker w')
    (heq : w.workerno = w'.workerno) : pid = q := by
  obtain ⟨n, -, hrange⟩ := exists_workerForks h
  have hnodup : ((workerForks tr).map Prod.snd).Nodup := hrange ▸ List.nodup_range
  have hfork := mem_workerForks.2 (forked_of_worker h pid p w hp hprogram)
  have hfork' := mem_workerForks.2 (forked_of_worker h q p' w' hq hprogram')
  exact congrArg Prod.fst (List.inj_on_of_nodup_map hnodup hfork hfork' heq)

/-- The only status that a worker stores by itself is `_`. -/
theorem Process.status_of_setWorkerStatus {p : Process} {runnerDied shouldExit : Bool} {o : Outcome}
    {program : Program} {workerno : ℕ} {status : Char}
    (h : p.step runnerDied shouldExit o = some (program, some (.setWorkerStatus workerno status))) :
    status = '_' := by
  obtain ⟨w, hw, -⟩ := Process.worker_of_setWorkerStatus h
  cases Process.step_cases h with
  | worker hp h =>
    cases h with
    | setWorkerStatus => rfl
    | init _ h | initDone _ h | initThrows _ h => exact h.isInit.elim
  | auxiliary hp | monitoring hp =>
    rw [hp] at hw
    cases hw

namespace Shared

variable {frozen : Frozen} {s s' : State} {a : Action} {segment segment' : Memory 64}

/-- Nobody but the PSGI application sets the worker status, and it does so while it handles a
request. -/
def inApplication (s : State) : Action → Bool
  | .access pid (.setWorkerStatus _) =>
    match (s.group.processes pid).map Process.program with
    | some (.worker w) => w.pc = .serve
    | _ => true
  | _ => true

/-! ## The status of a worker under the steps -/

theorem status_setWorkerStatus_of_ne {j : ℕ} (hi : i < 65536) (hj : j < 65536) (hne : j ≠ i)
    (status : Byte) :
    Shmem.setWorkerStatus segment j status (workerStatusPointer i) =
      segment (workerStatusPointer i) := by
  refine Memory.write_of_notMem fun hmem => hne ?_
  have hptr := congrArg BitVec.toNat (Block.mem_one_iff.1 hmem)
  rw [toNat_workerStatusPointer hi, toNat_workerStatusPointer hj] at hptr
  omega

theorem status_setWorkerStatus (status : Byte) :
    Shmem.setWorkerStatus segment i status (workerStatusPointer i) = status :=
  Memory.write_of_mem (Block.mem_one_iff.2 rfl)

/-- An event of another process leaves the status alone. -/
theorem status_store (hi : i < 2048) {e : Event} (he : StatusInArray e)
    (hother : ∀ pid status, e ≠ .child pid (.setWorkerStatus i status)) :
    store segment e (workerStatusPointer i) = segment (workerStatusPointer i) := by
  have hheader := notMem_header (inArray_workerStatusPointer (Nat.le_refl 2048) hi)
  cases e with
  | overseer e =>
    cases e with
    | setShouldExit => exact setShouldExitImmediately_of_notMem hheader.2
    | _ => rfl
  | child pid e =>
    cases e with
    | setShouldExit => exact setShouldExitImmediately_of_notMem hheader.2
    | increaseRequestCounter => exact Memory.store64_of_notMem hheader.1
    | setWorkerStatus workerno status =>
      refine status_setWorkerStatus_of_ne (by omega) he ?_ _
      rintro rfl
      exact hother pid status rfl
    | _ => rfl
  | _ => rfl

/-- After the events of a step the status is `_` if it was before, or if the worker has stored
it. -/
theorem status_foldl (hi : i < 2048) (hes : ∀ e ∈ es, StatusInArray e ∧
      ∀ pid workerno status, e = .child pid (.setWorkerStatus workerno status) → status = '_')
    (h : segment (workerStatusPointer i) = byte '_' ∨
      ∃ pid, .child pid (.setWorkerStatus i '_') ∈ es) :
    es.foldl store segment (workerStatusPointer i) = byte '_' := by
  induction es generalizing segment with
  | nil => simpa using h
  | cons e es ih =>
    obtain ⟨he, hes⟩ := List.forall_mem_cons.1 hes
    refine ih hes ?_
    by_cases hown : ∃ pid status, e = .child pid (.setWorkerStatus i status)
    · obtain ⟨pid, status, rfl⟩ := hown
      obtain rfl := he.2 pid i status rfl
      exact Or.inl (status_setWorkerStatus _)
    · push Not at hown
      rw [status_store hi he.1 hown]
      refine h.imp_right ?_
      rintro ⟨pid, hmem⟩
      exact ⟨pid, List.mem_of_ne_of_mem (hown pid '_').symm hmem⟩

/-- **No access touches the status of another worker.** -/
theorem Access.status (hi : i < 2048) {access : Access} {program : Program}
    (hworkerno : ∀ w, program = .worker w → w.workerno < 65536)
    (hother : ∀ w status, program = .worker w → access = .setWorkerStatus status →
      w.workerno ≠ i)
    (h : access.run frozen.shmem program segment = some segment') :
    segment' (workerStatusPointer i) = segment (workerStatusPointer i) := by
  cases access with
  | setWorkerStatus status =>
    cases program with
    | worker w =>
      obtain rfl := Option.some.inj h
      exact status_setWorkerStatus_of_ne (by omega) (hworkerno w rfl) (hother w status rfl rfl) _
    | auxiliary | monitoring => cases h
  | update kind index bytes =>
    obtain ⟨object, hget, rfl⟩ := Option.map_eq_some_iff.1 h
    have harea := frozen.inUserArea kind object (List.mem_of_getElem? hget)
    refine Memory.write_of_notMem fun hmem => ?_
    rw [Block.mem_iff, BitVec.toNat_sub, toNat_workerStatusPointer (by omega)] at hmem
    obtain ⟨hlow, hhigh⟩ := harea
    simp only [Object.block] at hmem
    omega
  | create call semInit =>
    obtain ⟨e, hcreate⟩ := create_locked frozen.locked segment semInit call
    simp only [Access.run, hcreate, Option.some.injEq] at h
    rw [h]

/-! ## Idle workers -/

/-- **An idle worker is shown as idle.** In every run in which only the PSGI application sets the
worker status, a worker that waits for a request has the status `_`. -/
theorem idle_status (hworkers : cfg.nworkers ≤ 2048)
    (h : (machine cfg frozen).Run (fun _ s a => inApplication s a) (init cfg frozen) tr s)
    {pid : Pid} {p : Process} {w : Worker} (hp : s.group.processes pid = some p)
    (hprogram : p.program = .worker w) (hidle : w.pc.Idle) :
    s.segment (workerStatusPointer w.workerno) = byte '_' := by
  revert pid p w
  refine h.invariant (fun _ (s : State) => ∀ {pid p w}, s.group.processes pid = some p →
    p.program = .worker w → w.pc.Idle →
      s.segment (workerStatusPointer w.workerno) = byte '_') (fun hp => by cases hp) ?_
  intro tr s a s' es hrun ih hguard hs pid p w hp hprogram hidle
  obtain ⟨ha, hg⟩ := reach_group hrun.reach
  obtain ⟨-, hg'⟩ := reach_group (hrun.reach.snoc trivial hs)
  have hi : w.workerno < 2048 := (workerno_lt hg' hp hprogram).trans_le hworkers
  cases step_cases hs with
  | access hq hrunaccess =>
    rename_i q access p' segment
    refine (Access.status hi (workerno_lt_of_reach hg hq) ?_ hrunaccess).trans
      (ih hp hprogram hidle)
    rintro w' status hprogram' rfl heq
    obtain rfl := workerno_inj hg hq hprogram' hp hprogram heq
    obtain rfl := Option.some.inj (hq.symm.trans hp)
    obtain rfl := Program.worker.inj (hprogram'.symm.trans hprogram)
    have hserve : w'.pc = .serve := by simpa [inApplication, hq, hprogram'] using hguard
    simp [Worker.Pc.Idle, hserve] at hidle
  | group hgroup =>
    rename_i b group
    rw [ha.load] at hgroup
    have hstep := Group.step_cases hgroup
    have hes : ∀ e ∈ es, StatusInArray e ∧ ∀ pid workerno status,
        e = .child pid (.setWorkerStatus workerno status) → status = '_' := by
      intro e he
      refine ⟨statusInArray_step hg hstep e he, ?_⟩
      rintro q workerno status rfl
      cases hstep.emits he with
      | stepped _ _ h => exact Process.status_of_setWorkerStatus h
      | handled _ _ h =>
        obtain ⟨_, he⟩ := Process.terminate_of_handle h
        cases he
    refine status_foldl hi hes ?_
    generalize hprogram₀ : p.program = program at hprogram
    cases hprogram₀ ▸ hstep.comes hp with
    | @forked overseer child hf =>
      cases child with
      | worker workerno =>
        obtain rfl := Program.worker.inj hprogram
        simp [Worker.Pc.Idle] at hidle
      | auxiliary | monitoring => cases hprogram
    | kept hp₀ => exact Or.inl (ih hp₀ hprogram hidle)
    | @stepped o p₀ _ e hb hp₀ h =>
      subst hprogram
      obtain ⟨w₀, hw₀, hw⟩ := Process.worker_step h
      obtain ⟨hworkerno, hidle | rfl⟩ := hw.idle hidle
      · rw [hworkerno]
        exact Or.inl (ih hp₀ hw₀ hidle)
      · subst hb
        rw [hworkerno]
        exact Or.inr ⟨pid, hstep.child_mem hp₀ h⟩
    | handled _ hp₀ =>
      obtain ⟨w₀, hw₀, hworkerno, hidle⟩ := Process.idle_of_handle hprogram hidle
      rw [hworkerno]
      exact Or.inl (ih hp₀ hw₀ hidle)

/-- A worker comes up and gets a request, for which the application sets the status `R`. -/
def serving : List Action :=
  (startup ++ List.replicate 10 (Group.Action.child 10 .ok)).map .group ++
    [.access 10 (.setWorkerStatus (byte 'R'))]

/-- It finishes the request and waits for the next one. -/
def servedOnce : List Action :=
  serving ++ (List.replicate 8 (Group.Action.child 10 .ok)).map .group

theorem isSome_exec_servedOnce : ((machine Overseer.oneWorker oneSemaphore).exec
    (init Overseer.oneWorker oneSemaphore) servedOnce).isSome := by
  decide

theorem idle_status_servedOnce : ∃ tr s p w, Reach Overseer.oneWorker oneSemaphore tr s ∧
    s.group.processes 10 = some p ∧ p.program = .worker w ∧ w.pc = .accepting ∧
    s.segment (workerStatusPointer w.workerno) = byte '_' := by
  have he := (Option.some_get isSome_exec_servedOnce).symm
  have hrun := Machine.Run.exec (g := fun _ s a => inApplication s a) .nil he (by decide)
  have hprogram : ((((machine Overseer.oneWorker oneSemaphore).exec
      (init Overseer.oneWorker oneSemaphore) servedOnce).get
        isSome_exec_servedOnce).1.group.processes 10).map Process.program =
          some (.worker ⟨0, .accepting, false⟩) := by
    decide
  obtain ⟨p, hp, hprogram⟩ := Option.map_eq_some_iff.1 hprogram
  refine ⟨_, _, p, _, hrun.reach, hp, hprogram, rfl, ?_⟩
  exact idle_status (by decide) hrun hp hprogram (Or.inr (Or.inr (Or.inl rfl)))

end Shared

end BladePSGI.Group
