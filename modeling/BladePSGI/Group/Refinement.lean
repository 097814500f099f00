import BladePSGI.Group.Segment

/-!
# The group refines the machine of the segment

`Shmem.machine` says what processes that share the segment do to it, in any order and with no
program of their own. Here it is the abstract level: the group, whose children run their programs
and whose overseer forks them, does nothing to the segment that this machine cannot do. Process
`pid` of the group is process `pid + 1` there; process `0` is the overseer.

* `onSegment`: what an event of the group is on the segment.
* `Simulates`: the relation between the two machines.
* `refines`: each run of the group goes on from the run of the loader as a run of `Shmem.machine`
  with the same forks, increments and settings of the flag, and the same segment.
-/

namespace BladePSGI.Group.Shared

open Function Transition Shmem

/-! ## What the events are on the segment -/

/-- The action on the segment that an event tells of. -/
def onSegment : Event → Option Shmem.Action
  | .overseer (.fork pid _) => some (.fork (pid + 1))
  | .overseer (.setShouldExit _) => some .setShouldExitImmediately
  | .child _ (.setShouldExit _) => some .setShouldExitImmediately
  | .child _ .increaseRequestCounter => some .increaseRequestCounter
  | .child _ (.setWorkerStatus workerno status) =>
    some (.setWorkerStatus workerno (BitVec.ofNat 8 status.toNat))
  | _ => none

/-- What both machines show of their steps. -/
inductive Visible
  | forked (pid : Pid)
  | requestCounted
  | setShouldExit (changed : Bool)

def visible : Event → Option Visible
  | .overseer (.fork pid _) => some (.forked pid)
  | .overseer (.setShouldExit changed) => some (.setShouldExit changed)
  | .child _ (.setShouldExit changed) => some (.setShouldExit changed)
  | .child _ .increaseRequestCounter => some .requestCounted
  | _ => none

def visibleOnSegment : Shmem.Event → Option Visible
  | .forked (pid + 1) => some (.forked pid)
  | .requestCounted _ => some .requestCounted
  | .setShouldExit changed => some (.setShouldExit changed)
  | _ => none

variable {cfg : Overseer.Config} {frozen : Frozen} {s s' : State} {a : Action}
  {tr es : List Event} {tr₀ tr' : List Shmem.Event} {u u₀ : Shmem.State}
  {segment segment' : Memory 64} {mapping : Memory 64}

theorem store_of_onSegment {e : Event} (h : onSegment e = none) : store segment e = segment := by
  cases e with
  | overseer e =>
    cases e with
    | setShouldExit => cases h
    | _ => rfl
  | child pid e =>
    cases e with
    | setShouldExit | increaseRequestCounter | setWorkerStatus => cases h
    | _ => rfl
  | _ => rfl

theorem visible_of_onSegment {e : Event} (h : onSegment e = none) : visible e = none := by
  cases e with
  | overseer e =>
    cases e with
    | setShouldExit | fork => cases h
    | _ => rfl
  | child pid e =>
    cases e with
    | setShouldExit | increaseRequestCounter | setWorkerStatus => cases h
    | _ => rfl
  | _ => rfl

/-! ## At most one event of a step is on the segment -/

/-- The event reports the flag as it was. -/
def ReportsFlag (flag : Bool) : Event → Prop
  | .overseer (.setShouldExit changed) => changed = !flag
  | .child _ (.setShouldExit changed) => changed = !flag
  | _ => True

/-- The events of a step: only the first is on the segment. -/
def OneOnSegment (flag : Bool) : List Event → Prop
  | [] => True
  | e :: es => ReportsFlag flag e ∧ ∀ e ∈ es, onSegment e = none

theorem oneOnSegment_overseer {g g' : Overseer.State} {b : Overseer.Action}
    {es : List Overseer.Event} (h : Overseer.Step cfg g b g' es) :
    OneOnSegment g.shouldExitImmediately (es.map .overseer) := by
  cases h with
  | main _ _ h => cases h <;> simp [OneOnSegment, ReportsFlag, onSegment]
  | handler _ _ h => cases h <;> simp [OneOnSegment, ReportsFlag]
  | raise | deliver | childDies | setShouldExit => simp [OneOnSegment, ReportsFlag]

/-- A child that sets the flag reports it. -/
theorem Process.changed_of_setShouldExit {p : Process} {runnerDied shouldExit : Bool} {o : Outcome}
    {program : Program} {changed : Bool}
    (h : p.step runnerDied shouldExit o = some (program, some (.setShouldExit changed))) :
    changed = !shouldExit := by
  cases Process.step_cases h with
  | monitoring _ h =>
    cases h with
    | setShouldExit => rfl
    | init _ h | initDone _ h | initThrows _ h => exact h.isInit.elim
  | worker _ h =>
    cases h with
    | init _ h | initDone _ h | initThrows _ h => exact h.isInit.elim
  | auxiliary _ h =>
    cases h with
    | init _ h | initDone _ h | initThrows _ h => exact h.isInit.elim

theorem oneOnSegment_childStep {g g' : Group.State} {pid : Pid} {p : Process}
    {e : Option ChildEvent} (h : ChildStep g pid p e g' es) {flag : Bool}
    (hflag : ∀ changed, e = some (.setShouldExit changed) → changed = !flag) :
    OneOnSegment flag es := by
  cases h with
  | setShouldExit => exact ⟨hflag _ rfl, by simp⟩
  | note _ hset =>
    refine ⟨?_, by simp⟩
    rename_i e _ _ _
    cases e with
    | setShouldExit changed => exact absurd rfl (hset changed)
    | _ => trivial
  | _ => simp [OneOnSegment, ReportsFlag, onSegment]

/-- **At most one event of a step is on the segment.** -/
theorem oneOnSegment_step {g g' : Group.State} {b : Group.Action} (h : Group.Step cfg g b g' es) :
    OneOnSegment g.overseer.shouldExitImmediately es := by
  cases h with
  | overseer _ h | deliver _ h => exact oneOnSegment_overseer (Overseer.step_cases h)
  | child _ h hc =>
    refine oneOnSegment_childStep hc fun changed he => ?_
    subst he
    exact Process.changed_of_setShouldExit h
  | deliverChild hp _ _ hc =>
    refine oneOnSegment_childStep hc fun changed he => ?_
    obtain ⟨_, he⟩ := Process.terminate_of_handle he
    cases he
  | raise | signal | dies | killRunner => simp [OneOnSegment, ReportsFlag, onSegment]

/-! ## The relation -/

/-- The group has left this trace and segment, the machine of the segment has left `tr'` since the
loader was done and is in the state `u`. -/
structure Simulates (frozen : Frozen) (tr : List Event) (segment : Memory 64)
    (tr' : List Shmem.Event) (u : Shmem.State) : Prop where
  segment : u.segment = segment
  spawning : u.spawning = true
  overseer : u.processes 0 = some frozen.shmem
  /-- Everybody who was forked has the registry of the overseer. -/
  registry : ∀ pid, u.processes (pid + 1) = none ∨ u.processes (pid + 1) = some frozen.shmem
  forked : ∀ pid, u.processes (pid + 1) ≠ none ↔ ∃ child, .overseer (.fork pid child) ∈ tr
  visible : tr'.filterMap visibleOnSegment = tr.filterMap visible

namespace Simulates

/-- Events that are not on the segment. -/
theorem quiet (h : Simulates frozen tr segment tr' u) (hes : ∀ e ∈ es, onSegment e = none) :
    Simulates frozen (tr ++ es) (es.foldl store segment) tr' u := by
  have hfold : es.foldl store segment = segment := by
    induction es with
    | nil => rfl
    | cons e es ih =>
      obtain ⟨he, hes⟩ := List.forall_mem_cons.1 hes
      rw [List.foldl_cons, store_of_onSegment he]
      exact ih hes
  have hvisible : es.filterMap Shared.visible = [] :=
    List.filterMap_eq_nil_iff.2 fun e he => visible_of_onSegment (hes e he)
  refine ⟨h.segment.trans hfold.symm, h.spawning, h.overseer, h.registry, fun pid => ?_, ?_⟩
  · rw [h.forked]
    refine exists_congr fun child => ⟨fun hf => List.mem_append_left es hf, fun hf => ?_⟩
    exact (List.mem_append.1 hf).resolve_right fun hmem => by cases hes _ hmem
  · rw [List.filterMap_append, hvisible, List.append_nil]
    exact h.visible

/-- A change of the segment, told by one event that is no fork. -/
theorem write (h : Simulates frozen tr segment tr' u) {e : Event} {e' : Shmem.Event}
    (hfork : ∀ pid child, e ≠ .overseer (.fork pid child))
    (hvisible : visibleOnSegment e' = Shared.visible e) (segment' : Memory 64) :
    Simulates frozen (tr ++ [e]) segment' (tr' ++ [e']) { u with segment := segment' } where
  segment := rfl
  spawning := h.spawning
  overseer := h.overseer
  registry := h.registry
  forked pid := by
    rw [h.forked]
    refine exists_congr fun child => ⟨fun hf => List.mem_append_left _ hf, fun hf => ?_⟩
    exact (List.mem_append.1 hf).resolve_right fun hmem =>
      hfork pid child (List.mem_singleton.1 hmem).symm
  visible := by
    rw [List.filterMap_append, List.filterMap_append, h.visible, List.filterMap_cons,
      List.filterMap_cons, hvisible]
    rfl

/-- A change of the segment that is not shown. -/
theorem touch (h : Simulates frozen tr segment tr' u) {es' : List Shmem.Event}
    (hes' : es'.filterMap visibleOnSegment = []) (segment' : Memory 64) :
    Simulates frozen tr segment' (tr' ++ es') { u with segment := segment' } where
  segment := rfl
  spawning := h.spawning
  overseer := h.overseer
  registry := h.registry
  forked := h.forked
  visible := by rw [List.filterMap_append, hes', List.append_nil, h.visible]

/-- A fork. -/
theorem fork (h : Simulates frozen tr segment tr' u) (pid : Pid) (child : Overseer.Child) :
    Simulates frozen (tr ++ [.overseer (.fork pid child)]) segment (tr' ++ [.forked (pid + 1)])
      { u with processes := update u.processes (pid + 1) (u.processes 0) } where
  segment := h.segment
  spawning := h.spawning
  overseer := h.overseer
  registry q := by
    by_cases hq : q = pid
    · exact Or.inr (by simp [hq, h.overseer])
    · simpa [hq] using h.registry q
  forked q := by
    by_cases hq : q = pid
    · subst hq
      simp [h.overseer]
    · simp [hq, h.forked q]
  visible := by
    rw [List.filterMap_append, List.filterMap_append, h.visible]
    rfl

/-- **One event is at most one step.** -/
theorem event {nworkers : ℕ} (h : Simulates frozen tr segment tr' u) {e : Event}
    (hflag : ReportsFlag (!(Shmem.setShouldExitImmediately segment).2) e)
    (hstatus : ∀ pid workerno status, e = .child pid (.setWorkerStatus workerno status) →
      workerno < nworkers)
    (hfresh : ∀ pid child, e = .overseer (.fork pid child) →
      ∀ child', .overseer (.fork pid child') ∉ tr) :
    ∃ es' u', (Shmem.machine nworkers).Reach u es' u' ∧
      Simulates frozen (tr ++ [e]) (store segment e) (tr' ++ es') u' := by
  have hseg := h.segment
  have setFlag : ∀ {changed}, changed = (Shmem.setShouldExitImmediately u.segment).2 →
      (Shmem.machine nworkers).step u .setShouldExitImmediately =
        some ({ u with segment := (Shmem.setShouldExitImmediately u.segment).1 },
          [.setShouldExit changed]) := by
    rintro changed rfl
    rfl
  cases hon : onSegment e with
  | none =>
    have hquiet : ∀ e' ∈ [e], onSegment e' = none := fun e' he' => List.mem_singleton.1 he' ▸ hon
    refine ⟨[], u, .nil, ?_⟩
    rw [List.append_nil]
    exact h.quiet hquiet
  | some b =>
    subst hseg
    cases e with
    | overseer e =>
      cases e with
      | fork pid child =>
        have hnone : u.processes (pid + 1) = none := by
          by_contra hne
          obtain ⟨child', hf⟩ := (h.forked pid).1 hne
          exact hfresh pid child rfl child' hf
        have hstep : (Shmem.machine nworkers).step u (.fork (pid + 1)) =
            some ({ u with processes := update u.processes (pid + 1) (u.processes 0) },
              [.forked (pid + 1)]) := if_pos ⟨h.spawning, hnone⟩
        exact ⟨_, _, Machine.Reach.one hstep, h.fork pid child⟩
      | setShouldExit changed =>
        exact ⟨_, _, Machine.Reach.one (setFlag (by simpa [ReportsFlag] using hflag)),
          h.write (by simp) rfl _⟩
      | _ => cases hon
    | child pid e =>
      cases e with
      | setShouldExit changed =>
        exact ⟨_, _, Machine.Reach.one (setFlag (by simpa [ReportsFlag] using hflag)),
          h.write (by simp) rfl _⟩
      | increaseRequestCounter =>
        exact ⟨_, _, Machine.Reach.one (a := .increaseRequestCounter) rfl, h.write (by simp) rfl _⟩
      | setWorkerStatus workerno status =>
        exact ⟨_, _, Machine.Reach.one (a := .setWorkerStatus workerno _)
          (if_pos (hstatus pid workerno status rfl)), h.write (by simp) rfl _⟩
      | _ => cases hon
    | _ => cases hon

/-- The events of a step. -/
theorem events {nworkers : ℕ} (h : Simulates frozen tr segment tr' u)
    (hone : OneOnSegment (!(Shmem.setShouldExitImmediately segment).2) es)
    (hstatus : ∀ pid workerno status, .child pid (.setWorkerStatus workerno status) ∈ es →
      workerno < nworkers)
    (hfresh : ∀ pid child, .overseer (.fork pid child) ∈ es →
      ∀ child', .overseer (.fork pid child') ∉ tr) :
    ∃ es' u', (Shmem.machine nworkers).Reach u es' u' ∧
      Simulates frozen (tr ++ es) (es.foldl store segment) (tr' ++ es') u' := by
  cases es with
  | nil => exact ⟨[], u, .nil, by simpa using h⟩
  | cons e es =>
    obtain ⟨es', u', hreach, h'⟩ := h.event hone.1
      (fun pid workerno status he => hstatus pid workerno status (he ▸ List.mem_cons_self))
      (fun pid child he => hfresh pid child (he ▸ List.mem_cons_self))
    refine ⟨es', u', hreach, ?_⟩
    simpa using h'.quiet hone.2

/-- **An access is one step.** -/
theorem access {nworkers : ℕ} (h : Simulates frozen tr segment tr' u) {pid : Pid}
    (hpid : u.processes (pid + 1) ≠ none) {access : Access} {program : Program}
    (hworkerno : ∀ w, program = .worker w → w.workerno < nworkers)
    (hrun : access.run frozen.shmem program segment = some segment') :
    ∃ es' u', (Shmem.machine nworkers).Reach u es' u' ∧
      Simulates frozen tr segment' (tr' ++ es') u' := by
  have hregistry := (h.registry pid).resolve_left hpid
  have hseg := h.segment
  subst hseg
  cases access with
  | setWorkerStatus status =>
    cases program with
    | worker w =>
      obtain rfl := Option.some.inj hrun
      exact ⟨_, _, Machine.Reach.one (a := .setWorkerStatus w.workerno status)
        (if_pos (hworkerno w rfl)), h.touch rfl _⟩
    | auxiliary | monitoring => cases hrun
  | update kind index bytes =>
    obtain ⟨object, hget, rfl⟩ := Option.map_eq_some_iff.1 hrun
    have hstep : (Shmem.machine nworkers).step u (.update (pid + 1) kind index bytes) =
        some ({ u with segment := u.segment.write (object.block kind) bytes }, []) := by
      simp only [Shmem.machine, Shmem.step, hregistry, hget]
    exact ⟨_, _, Machine.Reach.one hstep, h.touch rfl _⟩
  | create call semInit =>
    obtain ⟨e, hcreate⟩ := create_locked frozen.locked u.segment semInit call
    have hstep : (Shmem.machine nworkers).step u (.create (pid + 1) call semInit) =
        some (u, [.threw (pid + 1) e]) := by
      simp only [Shmem.machine, Shmem.step, hregistry, hcreate, report]
      rw [← hregistry, update_eq_self]
    simp only [Access.run, hcreate, Option.some.injEq] at hrun
    subst hrun
    exact ⟨_, _, Machine.Reach.one hstep, h.touch rfl _⟩

/-- **The step lemma.** -/
theorem step (hreach : Reach cfg frozen tr s) (h : Simulates frozen tr s.segment tr' u)
    (hs : Step cfg frozen s a s' es) :
    ∃ es' u', (Shmem.machine cfg.nworkers).Reach u es' u' ∧
      Simulates frozen (tr ++ es) s'.segment (tr' ++ es') u' := by
  obtain ⟨ha, hg⟩ := reach_group hreach
  cases hs with
  | group hgroup =>
    rw [ha.load] at hgroup
    have hstep := Group.step_cases hgroup
    refine h.events ?_ ?_ (fun pid child hf => hstep.fork_new hg hf)
    · rw [ha.setShouldExitImmediately, Bool.not_not]
      exact oneOnSegment_step hstep
    · intro pid workerno status hmem
      cases hstep.emits hmem with
      | stepped _ hp h =>
        obtain ⟨w, hw, rfl⟩ := Process.worker_of_setWorkerStatus h
        exact workerno_lt hg hp hw
      | handled _ _ h =>
        obtain ⟨_, he⟩ := Process.terminate_of_handle h
        cases he
  | access hp hrun =>
    rw [List.append_nil]
    obtain ⟨child, hf⟩ := forked_of_isSome hg (Option.isSome_of_mem hp)
    exact h.access ((h.forked _).2 ⟨child, hf⟩) (fun w hw => workerno_lt hg hp hw) hrun

end Simulates

/-! ## The loader and the group -/

/-- The loader has locked the allocations, and nobody is forked yet. -/
structure Ready (frozen : Frozen) (u₀ : Shmem.State) : Prop where
  segment : u₀.segment = frozen.segment
  spawning : u₀.spawning = true
  overseer : u₀.processes 0 = some frozen.shmem
  alone : ∀ pid, u₀.processes (pid + 1) = none

theorem Ready.simulates (h : Ready frozen u₀) : Simulates frozen [] frozen.segment [] u₀ where
  segment := h.segment
  spawning := h.spawning
  overseer := h.overseer
  registry pid := Or.inl (h.alone pid)
  forked pid := by simp [h.alone pid]
  visible := rfl

/-- What `LockAllocations` leaves. -/
theorem exists_ready {nworkers : ℕ} {v : Shmem.State} {es₀ : List Shmem.Event}
    (hworkers : nworkers ≤ 65536) (h : Shmem.Reach nworkers mapping tr₀ v)
    (hn : attempts tr₀ < 2 ^ 58) (hunused : HeaderUnused tr₀)
    (hlock : (Shmem.machine nworkers).step v .lockAllocations = some (u₀, es₀)) :
    ∃ frozen, Ready frozen u₀ := by
  have h' := h.snoc trivial hlock
  cases Shmem.step_cases hlock with
  | lock hspawning hp hunlocked =>
    obtain ⟨root, hroot, -, -, hall⟩ := (registry_of_reach h).ledger
    obtain ⟨frozen, hfrozen, hsegment⟩ := exists_frozen hworkers h'
      (by rw [attempts_append]; exact hn)
      ⟨fun before hmem => hunused.1 before (by simpa using hmem),
        fun changed hmem => hunused.2 changed (by simpa using hmem)⟩ (by simp)
    refine ⟨frozen, hsegment.symm, rfl, hfrozen, fun pid => ?_⟩
    dsimp only
    rw [update_of_ne (Nat.succ_ne_zero pid), ← Option.not_isSome_iff_eq_none]
    intro hsome
    obtain ⟨shmem, hshmem⟩ := Option.isSome_iff_exists.1 hsome
    exact absurd ((hall _ _ hshmem).2 hspawning) (by simp)

/-- **The group refines the machine of the segment.** After any run of the loader, each run of the
group on the segment is a run of `Shmem.machine` that goes on from it: with the same segment, with
the registry of the overseer in each process, and with the same forks, increments and settings of
the flag in the same order and with the same results. -/
theorem refines {v : Shmem.State} {es₀ : List Shmem.Event}
    (hloader : Shmem.Reach cfg.nworkers mapping tr₀ v) (hn : attempts tr₀ < 2 ^ 58)
    (hunused : HeaderUnused tr₀)
    (hlock : (Shmem.machine cfg.nworkers).step v .lockAllocations = some (u₀, es₀)) :
    ∃ frozen : Frozen, frozen.segment = u₀.segment ∧ u₀.processes 0 = some frozen.shmem ∧
      ∀ tr s, Reach cfg frozen tr s → ∃ tr' u,
        Shmem.Reach cfg.nworkers mapping (tr₀ ++ es₀ ++ tr') u ∧ u.segment = s.segment ∧
        (∀ pid, (s.group.processes pid).isSome → u.processes (pid + 1) = some frozen.shmem) ∧
        tr'.filterMap visibleOnSegment = tr.filterMap visible := by
  obtain ⟨frozen, hready⟩ := exists_ready cfg.nworkers_le hloader hn hunused hlock
  refine ⟨frozen, hready.segment.symm, hready.overseer, fun tr s h => ?_⟩
  obtain ⟨tr', u, hreach, hsim⟩ := h.simulate
    (fun tr s tr' u => Simulates frozen tr s.segment tr' u) hready.simulates
    (fun tr s a s' es tr' u hrun hsim _ hs => hsim.step hrun (step_cases hs))
  refine ⟨tr', u, ?_, hsim.segment, fun pid hp => ?_, hsim.visible⟩
  · exact Machine.Reach.trans (hloader.snoc trivial hlock) hreach
  · obtain ⟨child, hf⟩ := forked_of_isSome (reach_group h).2 hp
    exact (hsim.registry pid).resolve_left ((hsim.forked pid).2 ⟨child, hf⟩)

/-- A loader that creates one semaphore. -/
def oneCreation : List Shmem.Action := [.create 0 (.newSemaphore [115] 1) (.ok fun _ => 0)]

theorem isSome_exec_oneCreation :
    ((Shmem.machine 1).exec (Shmem.init fun _ => 0) oneCreation).isSome := by
  decide

theorem isSome_lock_oneCreation : ((Shmem.machine 1).step (((Shmem.machine 1).exec
    (Shmem.init fun _ => 0) oneCreation).get isSome_exec_oneCreation).1
    .lockAllocations).isSome := by
  decide

/-- The worker and the monitoring process are forked. -/
def twoForks : List Action :=
  [.overseer .ok, .overseer (.forked 10), .overseer .ok, .overseer (.forked 11)].map .group

theorem refines_oneCreation : ∃ (frozen : Frozen) (tr' : List Shmem.Event) (u : Shmem.State),
    u.processes 11 = some frozen.shmem ∧
    tr'.filterMap visibleOnSegment = [.forked 10, .forked 11] := by
  have hunused : HeaderUnused (((Shmem.machine 1).exec (Shmem.init fun _ => 0) oneCreation).get
      isSome_exec_oneCreation).2 := by
    have htrace : (((Shmem.machine 1).exec (Shmem.init fun _ => 0) oneCreation).get
        isSome_exec_oneCreation).2 = [.created 0 .semaphore ⟨16, [115]⟩] := by
      decide
    rw [htrace]
    simp [HeaderUnused]
  have hloader : Shmem.Reach Overseer.oneWorker.nworkers (fun _ => 0) _ _ :=
    Machine.reach_exec isSome_exec_oneCreation
  obtain ⟨frozen, -, -, hrefines⟩ :=
    refines hloader (by decide) hunused (Option.some_get isSome_lock_oneCreation).symm
  have he : ((machine Overseer.oneWorker frozen).exec (init Overseer.oneWorker frozen)
      twoForks).isSome := rfl
  obtain ⟨tr', u, -, -, hregistry, hvisible⟩ := hrefines _ _ (Machine.reach_exec he)
  exact ⟨frozen, tr', u, hregistry 10 rfl, hvisible⟩

end BladePSGI.Group.Shared
