import BladePSGI.Group.Drain
import BladePSGI.Shmem.Header

/-!
# The group on the shared segment

The exit flag and the request counter of the group have their bytes in the segment, where the Perl
code of the children writes worker statuses, semaphores and atomics as well. A step here reads the
flag and the counter from the segment, is a step of the group or an access of a running callback,
and writes to the segment what it stores there.

* `reach_group`: a run on the segment is a run of the group, and the flag and the counter of the
  group are those in the segment.
* `exitFlag_drains`: after the flag is set, every worker begins at most one call, all together
  count at most one call each, and whoever is at the head of the loop can only exit.
-/

namespace BladePSGI.Group.Shared

open Transition Shmem

structure State where
  /-- The group, with the flag and the counter of the last step. -/
  group : Group.State
  segment : Memory 64

def init (cfg : Overseer.Config) (frozen : Frozen) : State := ⟨Group.init cfg, frozen.segment⟩

/-- The state in which the group makes its next step. -/
def State.load (s : State) : Group.State :=
  { s.group with
    overseer := { s.group.overseer with
      shouldExitImmediately := Shmem.shouldExitImmediately s.segment }
    requestCounter := readRequestCounter s.segment }

/-- `SetShouldExitImmediately`, `IncreaseRequestCounter` and `SetWorkerStatus`, as the event
tells. -/
def store (segment : Memory 64) : Event → Memory 64
  | .overseer (.setShouldExit _) => (Shmem.setShouldExitImmediately segment).1
  | .child _ (.setShouldExit _) => (Shmem.setShouldExitImmediately segment).1
  | .child _ .increaseRequestCounter => (Shmem.increaseRequestCounter segment).1
  | .child _ (.setWorkerStatus workerno status) =>
    Shmem.setWorkerStatus segment workerno (BitVec.ofNat 8 status.toNat)
  | _ => segment

/-! ## What Perl does to the segment -/

/-- The callback of the process is running. -/
def inCallback : Program → Bool
  | .worker w =>
    match w.pc with
    | .accept | .accepting | .acceptInterrupted | .serve | .finish => true
    | _ => false
  | .auxiliary x => x.pc = .call
  | .monitoring _ => false

/-- What the Perl code of a child does to the segment. -/
inductive Access
  /-- `SetWorkerStatus`, which only a worker has. -/
  | setWorkerStatus (status : Byte)
  /-- An operation on a semaphore or an atomic. -/
  | update (kind : Kind) (index : ℕ) (bytes : ℕ → Byte)
  /-- The allocations are locked. -/
  | create (call : Call) (semInit : SemInit)

/-- The registry of a child is the one that it was forked with: no creation changes it. -/
def Access.run (access : Access) (shmem : SharedMemory) (program : Program)
    (segment : Memory 64) : Option (Memory 64) :=
  match access with
  | .setWorkerStatus status =>
    match program with
    | .worker w => some (Shmem.setWorkerStatus segment w.workerno status)
    | _ => none
  | .update kind index bytes =>
    (shmem.objects kind)[index]?.map fun object => segment.write (object.block kind) bytes
  | .create call semInit => some (Shmem.create shmem segment semInit call).2.1

/-! ## Steps -/

inductive Action
  | group (a : Group.Action)
  | access (pid : Pid) (access : Access)

def step (cfg : Overseer.Config) (frozen : Frozen) (s : State) :
    Action → Option (State × List Event)
  | .group a =>
    match (Group.machine cfg).step s.load a with
    | none => none
    | some (group, es) => some (⟨group, es.foldl store s.segment⟩, es)
  | .access pid access =>
    match s.group.processes pid with
    | none => none
    | some p =>
      if inCallback p.program then
        match access.run frozen.shmem p.program s.segment with
        | none => none
        | some segment => some ({ s with segment }, [])
      else none

/-- The group on the segment that the loader leaves. -/
def machine (cfg : Overseer.Config) (frozen : Frozen) : Machine State Action Event :=
  ⟨step cfg frozen⟩

abbrev Reach (cfg : Overseer.Config) (frozen : Frozen) : List Event → State → Prop :=
  (machine cfg frozen).Reach (init cfg frozen)

variable {cfg : Overseer.Config} {frozen : Frozen} {s s' : State} {a : Action}
  {tr tr' es : List Event} {segment segment' : Memory 64}

inductive Step (cfg : Overseer.Config) (frozen : Frozen) (s : State) :
    Action → State → List Event → Prop
  | group {a group es} (h : (Group.machine cfg).step s.load a = some (group, es)) :
    Step cfg frozen s (.group a) ⟨group, es.foldl store s.segment⟩ es
  | access {pid access p segment} (hp : s.group.processes pid = some p)
      (h : Access.run access frozen.shmem p.program s.segment = some segment) :
    Step cfg frozen s (.access pid access) { s with segment } []

/-- **What a step can do.** -/
theorem step_cases (h : (machine cfg frozen).step s a = some (s', es)) :
    Step cfg frozen s a s' es := by
  change step cfg frozen s a = _ at h
  cases a with
  | group a =>
    simp only [step] at h
    split at h
    · cases h
    · rename_i group es' hstep
      obtain ⟨rfl, rfl⟩ := Prod.mk.inj (Option.some.inj h)
      exact .group hstep
  | access pid access =>
    simp only [step] at h
    split at h
    · cases h
    · rename_i p hp
      split at h
      · split at h
        · cases h
        · rename_i segment hrun
          obtain ⟨rfl, rfl⟩ := Prod.mk.inj (Option.some.inj h)
          exact .access hp hrun
      · cases h

/-! ## The header under the steps -/

/-- An access leaves the header alone. -/
theorem Access.sameHeader {access : Access} {program : Program}
    (hworkerno : ∀ w, program = .worker w → w.workerno < 65536)
    (h : access.run frozen.shmem program segment = some segment') :
    SameHeader segment segment' := by
  cases access with
  | setWorkerStatus status =>
    cases program with
    | worker w =>
      obtain rfl := Option.some.inj h
      exact sameHeader_setWorkerStatus (hworkerno w rfl) status
    | auxiliary | monitoring => cases h
  | update kind index bytes =>
    obtain ⟨object, hget, rfl⟩ := Option.map_eq_some_iff.1 h
    exact (frozen.inUserArea kind object (List.mem_of_getElem? hget)).sameHeader bytes
  | create call semInit =>
    obtain ⟨e, hcreate⟩ := create_locked frozen.locked segment semInit call
    simp only [Access.run, hcreate, Option.some.injEq] at h
    subst h
    exact .refl _

/-- The status is stored in the array. -/
def StatusInArray : Event → Prop
  | .child _ (.setWorkerStatus workerno _) => workerno < 65536
  | _ => True

/-- **The flag after an event.** -/
theorem flag_store {e : Event} (he : StatusInArray e) :
    store segment e shouldExitImmediatelyOff =
      if e.setsFlag then 1 else segment shouldExitImmediatelyOff := by
  cases e with
  | overseer e =>
    cases e with
    | setShouldExit => exact flag_setShouldExitImmediately
    | _ => rfl
  | child pid e =>
    cases e with
    | setShouldExit => exact flag_setShouldExitImmediately
    | increaseRequestCounter => exact flag_increaseRequestCounter
    | setWorkerStatus workerno status => exact (sameHeader_setWorkerStatus he _).flag
    | _ => rfl
  | _ => rfl

/-- **The counter after an event.** -/
theorem readRequestCounter_store {e : Event} (he : StatusInArray e) :
    readRequestCounter (store segment e) = readRequestCounter segment +
      BitVec.ofNat 64 (if e.counts (· = .increaseRequestCounter) then 1 else 0) := by
  cases e with
  | overseer e =>
    cases e with
    | setShouldExit => exact counter_setShouldExitImmediately.trans (BitVec.add_zero _).symm
    | _ => exact (BitVec.add_zero _).symm
  | child pid e =>
    cases e with
    | setShouldExit => exact counter_setShouldExitImmediately.trans (BitVec.add_zero _).symm
    | increaseRequestCounter => exact counter_increaseRequestCounter
    | setWorkerStatus workerno status =>
      rw [store, (sameHeader_setWorkerStatus he _).counter]
      exact (BitVec.add_zero _).symm
    | _ => exact (BitVec.add_zero _).symm
  | _ => exact (BitVec.add_zero _).symm

theorem flag_foldl (hes : ∀ e ∈ es, StatusInArray e) :
    es.foldl store segment shouldExitImmediatelyOff =
      if es.any Event.setsFlag then 1 else segment shouldExitImmediatelyOff := by
  induction es generalizing segment with
  | nil => rfl
  | cons e es ih =>
    obtain ⟨he, hes⟩ := List.forall_mem_cons.1 hes
    rw [List.foldl_cons, ih hes, flag_store he, List.any_cons]
    cases e.setsFlag <;> simp

theorem readRequestCounter_foldl (hes : ∀ e ∈ es, StatusInArray e) :
    readRequestCounter (es.foldl store segment) = readRequestCounter segment +
      BitVec.ofNat 64 (total (· = .increaseRequestCounter) es) := by
  induction es generalizing segment with
  | nil => exact (BitVec.add_zero _).symm
  | cons e es ih =>
    obtain ⟨he, hes⟩ := List.forall_mem_cons.1 hes
    rw [List.foldl_cons, ih hes, readRequestCounter_store he, total_cons, BitVec.add_assoc,
      ← BitVec.ofNat_add, Nat.add_comm (total _ es)]

/-! ## The runs are runs of the group -/

theorem workerno_lt_of_reach {g : Group.State} (h : Group.Reach cfg tr g) {pid : Pid}
    {p : Process} (hp : g.processes pid = some p) :
    ∀ w, p.program = .worker w → w.workerno < 65536 := by
  intro w hw
  exact (workerno_lt h hp hw).trans_le cfg.nworkers_le

theorem statusInArray_step {g g' : Group.State} {b : Group.Action} (h : Group.Reach cfg tr g)
    (hs : Group.Step cfg g b g' es) : ∀ e ∈ es, StatusInArray e := by
  intro e he
  cases e with
  | child pid e =>
    cases e with
    | setWorkerStatus workerno status =>
      cases hs.emits he with
      | stepped _ hp hstep =>
        obtain ⟨w, hw, rfl⟩ := Process.worker_of_setWorkerStatus hstep
        exact workerno_lt_of_reach h hp w hw
      | handled _ _ hhandle =>
        obtain ⟨_, he⟩ := Process.terminate_of_handle hhandle
        cases he
    | _ => trivial
  | _ => trivial

/-- **The invariant**: the flag and the counter of the group are those in the segment. -/
structure Agrees (s : State) : Prop where
  flag : s.segment shouldExitImmediatelyOff =
    if s.group.overseer.shouldExitImmediately then 1 else 0
  counter : readRequestCounter s.segment = s.group.requestCounter

namespace Agrees

theorem init (cfg : Overseer.Config) (frozen : Frozen) : Agrees (init cfg frozen) :=
  ⟨frozen.flag, frozen.counter⟩

theorem shouldExitImmediately (ha : Agrees s) :
    Shmem.shouldExitImmediately s.segment = s.group.overseer.shouldExitImmediately := by
  rw [Shmem.shouldExitImmediately, ha.flag]
  cases s.group.overseer.shouldExitImmediately <;> rfl

/-- `SetShouldExitImmediately` returns what its event tells. -/
theorem setShouldExitImmediately (ha : Agrees s) :
    (Shmem.setShouldExitImmediately s.segment).2 = !s.group.overseer.shouldExitImmediately := by
  simp only [Shmem.setShouldExitImmediately, ha.flag]
  cases s.group.overseer.shouldExitImmediately <;> rfl

theorem load (ha : Agrees s) : s.load = s.group := by
  rw [State.load, ha.shouldExitImmediately, ha.counter]

/-- **The step lemma.** -/
theorem step (ha : Agrees s) (hg : Group.Reach cfg tr s.group) (h : Step cfg frozen s a s' es) :
    Agrees s' ∧ (Group.machine cfg).Reach s.group es s'.group := by
  cases h with
  | group h =>
    rw [ha.load] at h
    have hs := Group.step_cases h
    have hes := statusInArray_step hg hs
    refine ⟨⟨?_, ?_⟩, Machine.Reach.one h⟩
    · refine (flag_foldl hes).trans ?_
      rw [ha.flag, hs.flag_eq]
      cases s.group.overseer.shouldExitImmediately <;> simp
    · rw [readRequestCounter_foldl hes, ha.counter]
      exact hs.requestCounter_eq.symm
  | access hp h =>
    have hsame := Access.sameHeader (workerno_lt_of_reach hg hp) h
    exact ⟨⟨hsame.flag.trans ha.flag, hsame.counter.trans ha.counter⟩, .nil⟩

/-- From a state where the segment agrees with the group it stays so. -/
theorem run (ha : Agrees s) (hg : Group.Reach cfg tr s.group)
    (h : (machine cfg frozen).Reach s tr' s') :
    Agrees s' ∧ (Group.machine cfg).Reach s.group tr' s'.group := by
  refine h.invariant (fun tr' s' => Agrees s' ∧ (Group.machine cfg).Reach s.group tr' s'.group)
    ⟨ha, .nil⟩ ?_
  rintro tr' t a t' es - ⟨hat, hgt⟩ - hs
  obtain ⟨hat', hone⟩ := hat.step (Machine.Reach.trans hg hgt) (step_cases hs)
  exact ⟨hat', Machine.Reach.trans hgt hone⟩

end Agrees

/-- **A run on the segment is a run of the group.** -/
theorem reach_group (h : Reach cfg frozen tr s) : Agrees s ∧ Group.Reach cfg tr s.group :=
  Agrees.run (Agrees.init cfg frozen) .nil h

/-! ## The workers drain -/

/-- At the head of its loop a worker can only exit. -/
theorem step_at_head (ha : Agrees s) (hg : Group.Reach cfg tr s.group)
    (hflag : Shmem.shouldExitImmediately s.segment = true) {pid : Pid} {p : Process} {w : Worker}
    (hp : s.group.processes pid = some p) (hprogram : p.program = .worker w)
    (hpc : w.pc = .testShouldExit) {o : Outcome} {r : State × List Event} :
    (machine cfg frozen).step s (.group (.child pid o)) = some r ↔ o = .ok ∧
      r = (⟨s.group.without pid (.exited 1), s.segment⟩,
        [.child pid (.terminate (.exited 1)), .overseer (.died pid)]) := by
  have hgflag : s.group.overseer.shouldExitImmediately = true :=
    ha.shouldExitImmediately.symm.trans hflag
  have hgroup := @Group.step_at_head _ _ _ _ hg hgflag p w hp hprogram hpc o
  change step cfg frozen s (.group (.child pid o)) = _ ↔ _
  simp only [step, ha.load]
  constructor
  · intro h
    split at h
    · cases h
    · rename_i group es hstep
      obtain ⟨rfl, heq⟩ := hgroup.1 hstep
      obtain ⟨rfl, rfl⟩ := Prod.mk.inj heq
      exact ⟨rfl, (Option.some.inj h).symm⟩
  · rintro ⟨rfl, rfl⟩
    rw [hgroup.2 ⟨rfl, rfl⟩]
    rfl

/-- **The exit flag drains the workers**, whatever the others do in between: after it is set, no
worker begins a second call, the counter goes up by at most the number of the workers, and a worker
at the head of its loop can only exit with status 1. -/
theorem exitFlag_drains (h : Reach cfg frozen tr s)
    (hflag : Shmem.shouldExitImmediately s.segment = true)
    (h' : (machine cfg frozen).Reach s tr' s') :
    (∀ pid, (childTrace tr' pid).count .callBegin ≤ 1) ∧
      (∃ k ≤ cfg.nworkers,
        readRequestCounter s'.segment = readRequestCounter s.segment + BitVec.ofNat 64 k) ∧
      ∀ pid p w, s'.group.processes pid = some p → p.program = .worker w →
        w.pc = .testShouldExit → ∀ o r,
          (machine cfg frozen).step s' (.group (.child pid o)) = some r ↔ o = .ok ∧
            r = (⟨s'.group.without pid (.exited 1), s'.segment⟩,
              [.child pid (.terminate (.exited 1)), .overseer (.died pid)]) := by
  obtain ⟨ha, hg⟩ := reach_group h
  obtain ⟨ha', hg'⟩ := ha.run hg h'
  have hgflag : s.group.overseer.shouldExitImmediately = true :=
    ha.shouldExitImmediately.symm.trans hflag
  have hflag' : Shmem.shouldExitImmediately s'.segment = true :=
    ha'.shouldExitImmediately.trans (flag_of_run hg hgflag hg')
  refine ⟨fun pid => count_loopEvent_le hg hgflag hg' pid rfl, ?_, ?_⟩
  · obtain ⟨k, hk, hcounter⟩ := requestCounter_drains hg hgflag hg'
    exact ⟨k, hk, by rw [ha'.counter, ha.counter, hcounter]⟩
  · intro pid p w hp hprogram hpc o r
    exact step_at_head ha' (Machine.Reach.trans hg hg') hflag' hp hprogram hpc

/-- A registry with one semaphore. -/
def oneSemaphore : Frozen where
  shmem := ⟨[⟨16, []⟩], [], true, 48⟩
  segment := fun _ => 0
  locked := rfl
  inUserArea := by
    intro kind object hmem
    cases kind with
    | semaphore =>
      obtain rfl := List.mem_singleton.1 hmem
      exact ⟨by decide, by decide⟩
    | atomic => cases hmem
  flag := rfl
  counter := rfl

/-- The worker is about to call the callback when the monitoring process terminates and the
overseer sets the flag. -/
def monitoringTerminates : List Group.Action :=
  startup ++ [.child 10 .ok, .child 10 .ok, .child 10 .ok, .child 10 .ok, .child 10 .ok,
    .child 10 .ok, .child 10 .ok, .dies 11 (.exited 1), .deliver .sigchld, .overseer .ok,
    .overseer .ok, .overseer .ok, .overseer .ready, .overseer .ok, .overseer .ok, .overseer .ok,
    .overseer .ok, .overseer (.wait (.child 11)), .overseer .ok, .overseer .ok, .overseer .ok]

/-- The worker serves one request, and its callback writes to the segment. -/
def lastTurn : List Action :=
  [.group (.child 10 .ok), .access 10 (.setWorkerStatus 1),
    .access 10 (.update .semaphore 0 fun _ => 255), .group (.child 10 .ok), .group (.child 10 .ok),
    .group (.child 10 .ok), .group (.child 10 .ok), .group (.child 10 .ok)]

theorem isSome_exec_monitoringTerminates :
    ((machine Overseer.oneWorker oneSemaphore).exec (init Overseer.oneWorker oneSemaphore)
      (monitoringTerminates.map .group)).isSome := by
  decide

/-- The state in which the flag has just been set. -/
def flagged : State :=
  (((machine Overseer.oneWorker oneSemaphore).exec (init Overseer.oneWorker oneSemaphore)
    (monitoringTerminates.map .group)).get isSome_exec_monitoringTerminates).1

theorem isSome_exec_lastTurn :
    ((machine Overseer.oneWorker oneSemaphore).exec flagged lastTurn).isSome := by
  decide

theorem exitFlag_drains_lastTurn : ∃ tr tr' s', Reach Overseer.oneWorker oneSemaphore tr flagged ∧
    (machine Overseer.oneWorker oneSemaphore).Reach flagged tr' s' ∧
    .callBegin ∈ childTrace tr' 10 ∧ readRequestCounter s'.segment = 1 ∧
    (∀ pid, (childTrace tr' pid).count .callBegin ≤ 1) ∧
    ∃ k ≤ 1, readRequestCounter s'.segment =
      readRequestCounter flagged.segment + BitVec.ofNat 64 k := by
  have h : Reach Overseer.oneWorker oneSemaphore _ flagged :=
    Machine.reach_exec isSome_exec_monitoringTerminates
  have h' : (machine Overseer.oneWorker oneSemaphore).Reach flagged _ _ :=
    Machine.reach_exec isSome_exec_lastTurn
  obtain ⟨hcalls, hcounter, -⟩ := exitFlag_drains h (by decide) h'
  exact ⟨_, _, _, h, h', by decide, by decide, hcalls, hcounter⟩

end BladePSGI.Group.Shared
