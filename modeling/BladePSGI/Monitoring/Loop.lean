import BladePSGI.Foundations.Moments
import BladePSGI.Monitoring.Statistics
import BladePSGI.Shmem.Header
import BladePSGI.Shmem.WorkerStatus

/-!
# The monitoring loop among the other processes

`BPSGIMonitoring::Run` loads the worker statuses one after another, waits for the client, and then
reads the request counter and each of the shared objects, while the other processes go on: no
document is a picture of one state. The registry that it goes through is the copy of the
`BPSGISharedMemory` object that it was forked with.

* `looked_of_exec`: everything that has been written into a document is from some moment of this run
  since the return of `select`.
* `document_counts`: the counter is the number of the requests counted at its moment, each status
  the last one stored at its moment, and the semaphores and atomics are those of the registry.
-/

namespace BladePSGI.Monitoring.Loop

open Transition Text
open Shmem (SharedMemory Object Scan Name)

/-! ## The loop -/

/-- Where the monitoring process is in its loop. -/
inductive Pc
  | select
  /-- In `GetAllWorkerStatuses`. -/
  | statuses (scan : Scan)
  /-- In `HandleClient`, at `accept`. -/
  | accept (workerStatusArray : List Byte)
  /-- Before `ReadRequestCounter`. -/
  | requestCounter (workerStatusArray : List Byte)
  /-- In the loop over `semaphores_`. -/
  | semaphores (todo : List Object) (statdata : List Byte)
  /-- In the loop over `atomics_`. -/
  | atomics (todo : List Object) (statdata : List Byte)
  | write (statdata : List Byte)
  /-- A `SyscallException` has left the loop. -/
  | threw (syscall : String)

/-- What the calls return. -/
inductive Outcome
  | ok
  | ready
  | timeout
  | interrupted
  | fails

structure Config where
  nworkers : ℕ
  semGetvalue : SemGetvalue
  /-- The monitoring process among those that share the segment. -/
  process : ℕ
  /-- It is not the runner. -/
  process_ne : process ≠ 0
  bladepsgiStartTime : BitVec 64

structure State where
  others : Shmem.State
  pc : Pc

inductive Event
  | others (e : Shmem.Event)
  /-- `select` has returned `1`. -/
  | ready
  /-- The `write` to the client, which may be short. -/
  | response (statdata : List Byte)
  deriving DecidableEq

/-- The next step of the monitoring process, with its registry. -/
def monitoringStep (cfg : Config) (shmem : SharedMemory) (segment : Memory 64) :
    Pc → Outcome → Option (Pc × List Event)
  | .select, .ready => some (.statuses .start, [.ready])
  | .select, .timeout => some (.select, [])
  | .select, .interrupted => some (.select, [])
  | .select, .fails => some (.threw "select", [])
  | .statuses scan, .ok =>
    if scan.out.length < cfg.nworkers then some (.statuses (scan.next segment), [])
    else some (.accept scan.out, [])
  | .accept workerStatusArray, .ok => some (.requestCounter workerStatusArray, [])
  -- `EINTR` or `ECONNABORTED`: the statuses are dropped
  | .accept _, .interrupted => some (.select, [])
  | .accept _, .fails => some (.threw "accept", [])
  | .requestCounter workerStatusArray, .ok =>
    some (.semaphores shmem.semaphores (int64ToString cfg.bladepsgiStartTime ++ [byte '\n'] ++
      workerStatusArray ++ [byte '\n'] ++ int64ToString (Shmem.readRequestCounter segment) ++
        [byte '\n'] ++ [byte '\n']), [])
  | .semaphores (sem :: todo) statdata, .ok =>
    match semaphoreRead cfg.semGetvalue segment sem with
    | none => some (.threw "sem_getvalue", [])
    | some value =>
      some (.semaphores todo (statdata ++ line ['s', 'e', 'm', ' '] sem.name value), [])
  | .semaphores [] statdata, .ok => some (.atomics shmem.atomics statdata, [])
  | .atomics (atm :: todo) statdata, .ok =>
    some (.atomics todo (statdata ++ line ['a', 't', 'o', 'm', 'i', 'c', ' '] atm.name
      (atomicRead segment atm)), [])
  | .atomics [] statdata, .ok => some (.write statdata, [])
  | .write statdata, .ok => some (.select, [.response statdata])
  | _, _ => none

inductive Action
  | others (a : Shmem.Action)
  | monitoring (o : Outcome)

def step (cfg : Config) (s : State) : Action → Option (State × List Event)
  | .others a =>
    ((Shmem.machine cfg.nworkers).step s.others a).map fun r =>
      ({ s with others := r.1 }, r.2.map .others)
  | .monitoring o =>
    match s.others.processes cfg.process with
    | none => none
    | some shmem =>
      (monitoringStep cfg shmem s.others.segment s.pc o).map fun r => ({ s with pc := r.1 }, r.2)

/-- The monitoring process among the others. -/
def machine (cfg : Config) : Machine State Action Event := ⟨step cfg⟩

def init (mapping : Memory 64) : State := ⟨Shmem.init mapping, .select⟩

variable {cfg : Config} {mapping : Memory 64} {s s' : State} {a : Action} {as : List Action}
  {tr es : List Event} {pc pc' : Pc} {o : Outcome} {shmem : SharedMemory} {segment : Memory 64}

/-! ## What a step can do -/

/-- The steps of the monitoring process. -/
inductive MonitoringStep (cfg : Config) (shmem : SharedMemory) (segment : Memory 64) :
    Outcome → Pc → Pc → List Event → Prop
  | idle {o : Outcome} (ho : o ≠ .ready) : MonitoringStep cfg shmem segment o .select .select []
  | ready : MonitoringStep cfg shmem segment .ready .select (.statuses .start) [.ready]
  | throws {o pc syscall} (ho : o ≠ .ready) :
      MonitoringStep cfg shmem segment o pc (.threw syscall) []
  | load {scan} (h : scan.out.length < cfg.nworkers) :
      MonitoringStep cfg shmem segment .ok (.statuses scan) (.statuses (scan.next segment)) []
  | loaded {scan} (h : cfg.nworkers ≤ scan.out.length) :
      MonitoringStep cfg shmem segment .ok (.statuses scan) (.accept scan.out) []
  | accepted {out} : MonitoringStep cfg shmem segment .ok (.accept out) (.requestCounter out) []
  | interrupted {out} : MonitoringStep cfg shmem segment .interrupted (.accept out) .select []
  | requestCounter {out} : MonitoringStep cfg shmem segment .ok (.requestCounter out)
      (.semaphores shmem.semaphores (int64ToString cfg.bladepsgiStartTime ++ [byte '\n'] ++
        out ++ [byte '\n'] ++ int64ToString (Shmem.readRequestCounter segment) ++
          [byte '\n'] ++ [byte '\n'])) []
  | semaphore {sem todo statdata value}
      (h : semaphoreRead cfg.semGetvalue segment sem = some value) :
      MonitoringStep cfg shmem segment .ok (.semaphores (sem :: todo) statdata)
        (.semaphores todo (statdata ++ line ['s', 'e', 'm', ' '] sem.name value)) []
  | semaphoresDone {statdata} : MonitoringStep cfg shmem segment .ok (.semaphores [] statdata)
      (.atomics shmem.atomics statdata) []
  | atomic {atm todo statdata} :
      MonitoringStep cfg shmem segment .ok (.atomics (atm :: todo) statdata)
        (.atomics todo (statdata ++ line ['a', 't', 'o', 'm', 'i', 'c', ' '] atm.name
          (atomicRead segment atm))) []
  | atomicsDone {statdata} :
      MonitoringStep cfg shmem segment .ok (.atomics [] statdata) (.write statdata) []
  | write {statdata} :
      MonitoringStep cfg shmem segment .ok (.write statdata) .select [.response statdata]

theorem monitoringStep_cases (h : monitoringStep cfg shmem segment pc o = some (pc', es)) :
    MonitoringStep cfg shmem segment o pc pc' es := by
  unfold monitoringStep at h
  split at h
  case h_5 =>
    split_ifs at h with hlt <;> obtain ⟨rfl, rfl⟩ := Prod.mk.inj (Option.some.inj h)
    · exact .load hlt
    · exact .loaded (Nat.le_of_not_lt hlt)
  case h_10 =>
    split at h <;> obtain ⟨rfl, rfl⟩ := Prod.mk.inj (Option.some.inj h)
    · exact .throws (by simp)
    · exact .semaphore ‹_›
  case h_15 => cases h
  all_goals obtain ⟨rfl, rfl⟩ := Prod.mk.inj (Option.some.inj h)
  case h_2 | h_3 => exact .idle (by simp)
  case h_4 | h_8 => exact .throws (by simp)
  all_goals constructor

inductive Step (cfg : Config) (s : State) : Action → State → List Event → Prop
  | others {b others es'} (h : (Shmem.machine cfg.nworkers).step s.others b = some (others, es')) :
      Step cfg s (.others b) { s with others } (es'.map .others)
  | monitoring {o shmem pc es'} (hp : s.others.processes cfg.process = some shmem)
      (h : MonitoringStep cfg shmem s.others.segment o s.pc pc es') :
      Step cfg s (.monitoring o) { s with pc } es'

/-- **What a step can do.** -/
theorem step_cases (h : (machine cfg).step s a = some (s', es)) : Step cfg s a s' es := by
  change step cfg s a = _ at h
  cases a with
  | others a =>
    obtain ⟨⟨others, es'⟩, hs, heq⟩ := Option.map_eq_some_iff.1 h
    obtain ⟨rfl, rfl⟩ := Prod.mk.inj heq
    exact .others hs
  | monitoring o =>
    simp only [step] at h
    split at h
    · cases h
    · rename_i shmem hp
      obtain ⟨⟨pc, es'⟩, hs, heq⟩ := Option.map_eq_some_iff.1 h
      obtain ⟨rfl, rfl⟩ := Prod.mk.inj heq
      exact .monitoring hp (monitoringStep_cases hs)

/-- `select` returns `1` where it is called. -/
theorem MonitoringStep.ne_ready (h : MonitoringStep cfg shmem segment o pc pc' es)
    (hpc : pc ≠ .select) : o ≠ .ready := by
  cases h with
  | ready => exact absurd rfl hpc
  | idle ho | throws ho => exact ho
  | _ => simp

/-! ## The others -/

def Event.others? : Event → Option Shmem.Event
  | .others e => some e
  | _ => none

/-- The trace of the others. -/
def othersTrace (tr : List Event) : List Shmem.Event := tr.filterMap Event.others?

theorem othersTrace_append (tr es : List Event) :
    othersTrace (tr ++ es) = othersTrace tr ++ othersTrace es :=
  List.filterMap_append

@[simp] theorem othersTrace_map (es : List Shmem.Event) : othersTrace (es.map .others) = es := by
  rw [othersTrace, List.filterMap_map]
  exact List.filterMap_some

theorem MonitoringStep.othersTrace_eq (h : MonitoringStep cfg shmem segment o pc pc' es) :
    othersTrace es = [] := by
  cases h <;> rfl

/-- The monitoring process disturbs nobody. -/
theorem reach_others (h : (machine cfg).Reach (init mapping) tr s) :
    Shmem.Reach cfg.nworkers mapping (othersTrace tr) s.others := by
  refine h.invariant (fun tr s => Shmem.Reach cfg.nworkers mapping (othersTrace tr) s.others)
    .nil ?_
  rintro tr s a s' es - ih - hs
  rw [othersTrace_append]
  cases step_cases hs with
  | others h =>
    rw [othersTrace_map]
    exact ih.snoc trivial h
  | monitoring _ h =>
    rw [h.othersTrace_eq, List.append_nil]
    exact ih

/-! ## What is from which moment -/

/-- A moment of a run. -/
abbrev Moment (cfg : Config) (mapping : Memory 64) := Machine.Moment (machine cfg) (init mapping)

/-- The moments are from the time since the last return of `select`. -/
def Round (cfg : Config) (mapping : Memory 64) (as : List Action)
    (us : List (Moment cfg mapping)) : Prop :=
  ∃ before since, as = before ++ .monitoring .ready :: since ∧ .monitoring .ready ∉ since ∧
    ∀ u ∈ us, u.Within (before ++ [.monitoring .ready]) as

/-- The statuses, each at its moment. -/
def statusesAt (us : List (Moment cfg mapping)) : List Byte :=
  us.zipIdx.map fun x => x.1.state.others.segment (Shmem.workerStatusPointer x.2)

/-- The statistics are, piece by piece, from these moments. -/
structure StatisticsAt (us : List (Moment cfg mapping)) (u : Moment cfg mapping)
    (sems atms : List (Object × Moment cfg mapping)) (st : Statistics) : Prop where
  startTime : st.startTime = cfg.bladepsgiStartTime
  workerStatuses : st.workerStatuses = statusesAt us
  requestCounter : st.requestCounter = Shmem.readRequestCounter u.state.others.segment
  semaphores : st.semaphores.map (fun x => (x.1, some x.2)) =
    sems.map fun x => (x.1.name, semaphoreRead cfg.semGetvalue x.2.state.others.segment x.1)
  atomics : st.atomics = atms.map fun x => (x.1.name, atomicRead x.2.state.others.segment x.1)

/-- What has been written into `statdata`, when the semaphores `semsTodo` and the atomics
`atmsTodo` of the registry are still to be read. -/
def Seen (cfg : Config) (mapping : Memory 64) (as : List Action) (shmem : SharedMemory)
    (semsTodo atmsTodo : List Object) (statdata : List Byte) : Prop :=
  ∃ (us : List (Moment cfg mapping)) (u : Moment cfg mapping)
    (sems atms : List (Object × Moment cfg mapping)) (st : Statistics),
    Round cfg mapping as (us ++ u :: (sems ++ atms).map Prod.snd) ∧ us.length = cfg.nworkers ∧
    sems.map Prod.fst ++ semsTodo = shmem.semaphores ∧
    atms.map Prod.fst ++ atmsTodo = shmem.atomics ∧
    StatisticsAt us u sems atms st ∧ statdata = st.text

/-- **The invariant**, by the place in the loop, with the registry of the monitoring process. -/
def Looked (cfg : Config) (mapping : Memory 64) (as : List Action)
    (registry : Option SharedMemory) : Pc → Prop
  | .select | .threw _ => True
  | .statuses scan => ∃ us : List (Moment cfg mapping), Round cfg mapping as us ∧
      scan.out = statusesAt us ∧ scan.mem = Shmem.workerStatusPointer us.length ∧
      us.length ≤ cfg.nworkers
  | .accept out | .requestCounter out => ∃ us : List (Moment cfg mapping),
      Round cfg mapping as us ∧ out = statusesAt us ∧ us.length = cfg.nworkers
  | .semaphores todo statdata => ∃ shmem, registry = some shmem ∧
      Seen cfg mapping as shmem todo shmem.atomics statdata
  | .atomics todo statdata => ∃ shmem, registry = some shmem ∧
      Seen cfg mapping as shmem [] todo statdata
  | .write statdata => ∃ shmem, registry = some shmem ∧ Seen cfg mapping as shmem [] [] statdata

variable {us : List (Moment cfg mapping)} {semsTodo atmsTodo : List Object} {statdata : List Byte}
  {registry registry' : Option SharedMemory}

theorem statusesAt_concat (us : List (Moment cfg mapping)) (u : Moment cfg mapping) :
    statusesAt (us ++ [u]) =
      statusesAt us ++ [u.state.others.segment (Shmem.workerStatusPointer us.length)] := by
  simp [statusesAt, List.zipIdx_append]

theorem length_statusesAt (us : List (Moment cfg mapping)) :
    (statusesAt us).length = us.length := by
  simp [statusesAt]

namespace Round

theorem begin (cfg : Config) (mapping : Memory 64) (as : List Action) :
    Round cfg mapping (as ++ [.monitoring .ready]) [] :=
  ⟨as, [], rfl, List.not_mem_nil, by simp⟩

/-- The run goes on. -/
theorem concat (h : Round cfg mapping as us) (ha : a ≠ .monitoring .ready) :
    Round cfg mapping (as ++ [a]) us := by
  obtain ⟨before, since, rfl, hsince, hus⟩ := h
  refine ⟨before, since ++ [a], by simp, ?_, fun u hu => (hus u hu).concat a⟩
  simp [hsince, ha.symm]

/-- One more look. -/
theorem look (h : Round cfg mapping as us)
    (he : (machine cfg).exec (init mapping) as = some (s, tr))
    (ha : a ≠ .monitoring .ready) : Round cfg mapping (as ++ [a]) (us ++ [.now he]) := by
  refine concat ?_ ha
  obtain ⟨before, since, heq, hsince, hus⟩ := h
  refine ⟨before, since, heq, hsince, fun u hu => ?_⟩
  rcases List.mem_append.1 hu with hu | hu
  · exact hus u hu
  · rw [List.mem_singleton.1 hu]
    refine Machine.Moment.within_now he ⟨since, ?_⟩
    rw [heq, List.append_assoc, List.singleton_append]

end Round

theorem Seen.concat (h : Seen cfg mapping as shmem semsTodo atmsTodo statdata)
    (ha : a ≠ .monitoring .ready) :
    Seen cfg mapping (as ++ [a]) shmem semsTodo atmsTodo statdata := by
  obtain ⟨us, u, sems, atms, st, hround, hrest⟩ := h
  exact ⟨us, u, sems, atms, st, hround.concat ha, hrest⟩

/-- The others go on, and the registry stays. -/
theorem Looked.others (h : Looked cfg mapping as registry pc)
    (hr : ∀ shmem, registry = some shmem → registry' = some shmem) (b : Shmem.Action) :
    Looked cfg mapping (as ++ [.others b]) registry' pc := by
  have ha : Action.others b ≠ .monitoring .ready := by simp
  cases pc with
  | select | threw => trivial
  | statuses | accept | requestCounter =>
    obtain ⟨us, hround, hrest⟩ := h
    exact ⟨us, hround.concat ha, hrest⟩
  | semaphores | atomics | write =>
    obtain ⟨shmem, heq, hseen⟩ := h
    exact ⟨shmem, hr shmem heq, hseen.concat ha⟩

/-! ## The text grows by lines -/

theorem text_semaphore (st : Statistics) (hatms : st.atomics = []) (name : Name)
    (value : BitVec 64) :
    { st with semaphores := st.semaphores ++ [(name, value)] }.text =
      st.text ++ line ['s', 'e', 'm', ' '] name value := by
  simp [Statistics.text, Statistics.entries, hatms, line_eq]

theorem text_atomic (st : Statistics) (name : Name) (value : BitVec 64) :
    { st with atomics := st.atomics ++ [(name, value)] }.text =
      st.text ++ line ['a', 't', 'o', 'm', 'i', 'c', ' '] name value := by
  simp [Statistics.text, Statistics.entries, line_eq]

/-! ## Runs -/

/-- **The step lemma of the monitoring process.** -/
theorem MonitoringStep.looked (h : MonitoringStep cfg shmem s.others.segment o pc pc' es)
    (he : (machine cfg).exec (init mapping) as = some (s, tr))
    (hl : Looked cfg mapping as (some shmem) pc) :
    Looked cfg mapping (as ++ [.monitoring o]) (some shmem) pc' := by
  have ha : pc ≠ .select → Action.monitoring o ≠ .monitoring .ready := fun hpc heq =>
    h.ne_ready hpc (Action.monitoring.inj heq)
  cases h with
  | idle | throws | interrupted | write => trivial
  | ready => exact ⟨[], .begin cfg mapping as, rfl, (BitVec.add_zero _).symm, Nat.zero_le _⟩
  | @load scan hlt =>
    obtain ⟨us, hround, hout, hmem, -⟩ := hl
    rw [hout, length_statusesAt] at hlt
    refine ⟨_, hround.look he (ha (by simp)), ?_, ?_, ?_⟩
    · rw [statusesAt_concat, ← hout, ← hmem]
      rfl
    · rw [Scan.next, hmem, Shmem.workerStatusPointer_succ, List.length_append]
      rfl
    · rw [List.length_append]
      exact hlt
  | loaded hle =>
    obtain ⟨us, hround, hout, -, hn⟩ := hl
    rw [hout, length_statusesAt] at hle
    exact ⟨us, hround.concat (ha (by simp)), hout, Nat.le_antisymm hn hle⟩
  | accepted =>
    obtain ⟨us, hround, hrest⟩ := hl
    exact ⟨us, hround.concat (ha (by simp)), hrest⟩
  | requestCounter =>
    obtain ⟨us, hround, rfl, hn⟩ := hl
    refine ⟨shmem, rfl, us, _, [], [], ⟨cfg.bladepsgiStartTime, statusesAt us,
      Shmem.readRequestCounter s.others.segment, [], []⟩, hround.look he (ha (by simp)), hn, rfl,
      rfl, ⟨rfl, rfl, rfl, rfl, rfl⟩, ?_⟩
    simp [Statistics.text, Statistics.entries]
  | @semaphore sem todo statdata value hread =>
    obtain ⟨_, ⟨⟩, us, u, sems, atms, st, hround, hn, hsems, hatms, hst, rfl⟩ := hl
    have hnil : atms = [] := by simpa using hatms
    subst hnil
    refine ⟨shmem, rfl, us, u, sems ++ [(sem, .now he)], [],
      { st with semaphores := st.semaphores ++ [(sem.name, value)] }, ?_, hn, by simpa using hsems,
      rfl, ⟨hst.startTime, hst.workerStatuses, hst.requestCounter, ?_, hst.atomics⟩, ?_⟩
    · simpa using hround.look he (ha (by simp))
    · simp [hst.semaphores, hread, Machine.Moment.now]
    · exact (text_semaphore st hst.atomics _ _).symm
  | semaphoresDone | atomicsDone =>
    obtain ⟨_, ⟨⟩, hseen⟩ := hl
    exact ⟨shmem, rfl, hseen.concat (ha (by simp))⟩
  | @atomic atm todo statdata =>
    obtain ⟨_, ⟨⟩, us, u, sems, atms, st, hround, hn, hsems, hatms, hst, rfl⟩ := hl
    refine ⟨shmem, rfl, us, u, sems, atms ++ [(atm, .now he)],
      { st with atomics := st.atomics ++ [(atm.name, atomicRead s.others.segment atm)] }, ?_, hn,
      hsems, by simpa using hatms,
      ⟨hst.startTime, hst.workerStatuses, hst.requestCounter, hst.semaphores, ?_⟩, ?_⟩
    · simpa using hround.look he (ha (by simp))
    · simp [hst.atomics, Machine.Moment.now]
    · exact (text_atomic st _ _).symm

/-- **The invariant of the loop.** -/
theorem looked_of_exec (he : (machine cfg).exec (init mapping) as = some (s, tr)) :
    Looked cfg mapping as (s.others.processes cfg.process) s.pc := by
  refine Machine.exec_invariant (fun as _ (s : State) =>
    Looked cfg mapping as (s.others.processes cfg.process) s.pc) he trivial ?_
  intro as tr s a s' es he ih hs
  have hregistry := Shmem.registry_of_reach (reach_others (Machine.reach_of_exec he))
  cases step_cases hs with
  | others h =>
    exact ih.others (fun shmem hp => Shmem.processes_step_of_ne hregistry cfg.process_ne hp
      (Shmem.step_cases h)) _
  | monitoring hp h =>
    rw [hp] at ih
    change Looked cfg mapping _ (s.others.processes cfg.process) _
    rw [hp]
    exact h.looked he ih

/-! ## What the moments tell -/

/-- A request is counted. -/
def counted : Shmem.Event → Bool
  | .requestCounted _ => true
  | _ => false

theorem counter_step {nworkers : ℕ} {s s' : Shmem.State} {a : Shmem.Action}
    {tr es : List Shmem.Event} (hr : Shmem.Registry tr s) (hn : Shmem.attempts tr < 2 ^ 58)
    (hworkers : nworkers ≤ 65536) (h : Shmem.Step nworkers s a s' es) :
    Shmem.readRequestCounter s'.segment =
      Shmem.readRequestCounter s.segment + BitVec.ofNat 64 (es.countP counted) := by
  have quiet : Shmem.HeaderUnused es → es.countP counted = 0 →
      Shmem.readRequestCounter s'.segment =
        Shmem.readRequestCounter s.segment + BitVec.ofNat 64 (es.countP counted) := by
    intro hes hzero
    rw [(Shmem.sameHeader_step hr hn hworkers h hes).counter, hzero]
    exact (BitVec.add_zero _).symm
  cases h with
  | increaseRequestCounter => exact Shmem.counter_increaseRequestCounter
  | setShouldExitImmediately =>
    exact Shmem.counter_setShouldExitImmediately.trans (BitVec.add_zero _).symm
  | @create process call _ _ _ _ result =>
    refine quiet ?_ ?_ <;> cases result <;> simp [Shmem.report, Shmem.HeaderUnused, counted]
  | _ => exact quiet (by simp [Shmem.HeaderUnused]) rfl

/-- **The counter counts the requests.** -/
theorem counter_of_reach {nworkers : ℕ} {s : Shmem.State} {tr : List Shmem.Event}
    (hworkers : nworkers ≤ 65536) (h : Shmem.Reach nworkers mapping tr s)
    (hn : Shmem.attempts tr < 2 ^ 58) :
    Shmem.readRequestCounter s.segment = BitVec.ofNat 64 (tr.countP counted) := by
  revert hn
  refine h.invariant (fun tr (s : Shmem.State) => Shmem.attempts tr < 2 ^ 58 →
    Shmem.readRequestCounter s.segment = BitVec.ofNat 64 (tr.countP counted)) ?_ ?_
  · intro _
    have hclear : Shmem.SameHeader (fun _ => 0) (Shmem.clear mapping) := by
      intro a ha
      refine Memory.write_of_mem ?_
      rw [Block.mem_iff, BitVec.toNat_sub]
      dsimp only
      rw [Shmem.shmemSize]
      have hzero : (0 : BitVec 64).toNat = 0 := rfl
      omega
    exact hclear.counter
  · rintro tr s a s' es hreach ih - hs hn
    rw [Shmem.attempts_append] at hn
    have hn' : Shmem.attempts tr < 2 ^ 58 := by omega
    rw [counter_step (Shmem.registry_of_reach hreach) hn' hworkers (Shmem.step_cases hs),
      ih hn', List.countP_append, BitVec.ofNat_add]

/-- What the statistics tell of a run between the actions `as` and the actions `as'`, to a
monitoring process with this registry. -/
structure Tells (cfg : Config) (mapping : Memory 64) (shmem : SharedMemory) (as as' : List Action)
    (st : Statistics) : Prop where
  startTime : st.startTime = cfg.bladepsgiStartTime
  requestCounter : ∃ u : Moment cfg mapping, u.Within as as' ∧
    st.requestCounter = BitVec.ofNat 64 ((othersTrace u.trace).countP counted)
  length_workerStatuses : st.workerStatuses.length = cfg.nworkers
  workerStatuses : ∀ i < cfg.nworkers, ∃ u : Moment cfg mapping, u.Within as as' ∧
    st.workerStatuses[i]? = some (Shmem.lastStatus (othersTrace u.trace) i)
  semaphores : List.Forall₂ (fun sem x => x.1 = sem.name ∧ ∃ u : Moment cfg mapping,
    u.Within as as' ∧ semaphoreRead cfg.semGetvalue u.state.others.segment sem = some x.2)
    shmem.semaphores st.semaphores
  atomics : List.Forall₂ (fun atm x => x.1 = atm.name ∧ ∃ u : Moment cfg mapping,
    u.Within as as' ∧ atomicRead u.state.others.segment atm = x.2)
    shmem.atomics st.atomics

/-- The moments of the objects are among the moments. -/
theorem mem_moments {u : Moment cfg mapping} {objects : List (Object × Moment cfg mapping)}
    {x : Object × Moment cfg mapping} (hx : x ∈ objects) :
    x.2 ∈ us ++ u :: objects.map Prod.snd :=
  List.mem_append_right us (List.mem_cons_of_mem u (List.mem_map_of_mem hx))

/-- Statistics from moments of a time tell of that time. -/
theorem StatisticsAt.tells {as' : List Action} {u : Moment cfg mapping}
    {sems atms : List (Object × Moment cfg mapping)} {st : Statistics}
    (h : StatisticsAt us u sems atms st) (hworkers : cfg.nworkers ≤ 2048)
    (he : (machine cfg).exec (init mapping) as' = some (s, tr))
    (hn : Shmem.attempts (othersTrace tr) < 2 ^ 58)
    (hmoments : ∀ v ∈ us ++ u :: (sems ++ atms).map Prod.snd, v.Within as as')
    (hlen : us.length = cfg.nworkers) (hsems : sems.map Prod.fst = shmem.semaphores)
    (hatms : atms.map Prod.fst = shmem.atomics) : Tells cfg mapping shmem as as' st where
  startTime := h.startTime
  requestCounter := by
    have hu := hmoments u (by simp)
    have hattempts : Shmem.attempts (othersTrace u.trace) < 2 ^ 58 :=
      Nat.lt_of_le_of_lt ((hu.trace_prefix he).filterMap _).sublist.countP_le hn
    refine ⟨u, hu, ?_⟩
    rw [h.requestCounter]
    exact counter_of_reach (by omega) (reach_others u.reach) hattempts
  length_workerStatuses := by rw [h.workerStatuses, length_statusesAt, hlen]
  workerStatuses := by
    intro i hi
    have hget : us[i]? = some (us.get ⟨i, by omega⟩) := List.getElem?_eq_getElem (by omega)
    have hv : us.get ⟨i, by omega⟩ ∈ us ++ u :: (sems ++ atms).map Prod.snd :=
      List.mem_append_left _ (List.get_mem us _)
    generalize us.get ⟨i, by omega⟩ = v at hget hv
    refine ⟨v, hmoments v hv, ?_⟩
    rw [h.workerStatuses, statusesAt, List.getElem?_map, List.getElem?_zipIdx, hget,
      ← (Shmem.registers_of_reach hworkers (reach_others v.reach)).status i hi]
    simp
  semaphores := by
    have hwithin : ∀ x ∈ sems, x.2.Within as as' := fun x hx =>
      hmoments x.2 (mem_moments (List.mem_append_left _ hx))
    have hread : List.Forall₂ Eq (sems.map _) (st.semaphores.map _) :=
      List.forall₂_eq_eq_eq ▸ h.semaphores.symm
    rw [List.forall₂_map_left_iff, List.forall₂_map_right_iff] at hread
    rw [← hsems, List.forall₂_map_left_iff]
    refine ((List.forall₂_and_left _ _).2 ⟨hwithin, hread⟩).imp ?_
    rintro x value ⟨hx, heq⟩
    obtain ⟨hname, hvalue⟩ := Prod.mk.inj heq
    exact ⟨hname.symm, x.2, hx, hvalue⟩
  atomics := by
    have hwithin : ∀ x ∈ atms, x.2.Within as as' := fun x hx =>
      hmoments x.2 (mem_moments (List.mem_append_right _ hx))
    rw [← hatms, h.atomics, List.forall₂_map_left_iff, List.forall₂_map_right_iff,
      List.forall₂_same]
    exact fun x hx => ⟨rfl, x.2, hwithin x hx, rfl⟩

/-- **What a document says**, whenever one is sent: the run so far has a moment since the last
return of `select` at which exactly as many requests had been counted as the counter tells, for each
worker one at which the status was the last one that the worker had stored, and for each semaphore
and each atomic of the registry one at which it had its value. -/
theorem document_counts (hworkers : cfg.nworkers ≤ 2048)
    (he : (machine cfg).exec (init mapping) as = some (s, tr))
    (hs : (machine cfg).step s a = some (s', es)) (hes : .response statdata ∈ es)
    (hn : Shmem.attempts (othersTrace tr) < 2 ^ 58) :
    ∃ before since shmem st, as = before ++ .monitoring .ready :: since ∧
      .monitoring .ready ∉ since ∧ s.others.processes cfg.process = some shmem ∧
      statdata = st.text ∧ Tells cfg mapping shmem (before ++ [.monitoring .ready]) as st := by
  have hlooked := looked_of_exec he
  cases step_cases hs with
  | others => simp at hes
  | @monitoring _ shmem _ _ hp h =>
    generalize s.pc = pc at h hlooked
    cases h with
    | write =>
      obtain rfl := Event.response.inj (List.mem_singleton.1 hes)
      obtain ⟨shmem', hp', us, u, sems, atms, st, ⟨before, since, has, hsince, hmoments⟩, hlen,
        hsems, hatms, hst, htext⟩ := hlooked
      rw [List.append_nil] at hsems hatms
      exact ⟨before, since, shmem', st, has, hsince, hp', htext,
        hst.tells hworkers he hn hmoments hlen hsems hatms⟩
    | _ => simp at hes

/-- One worker; the monitoring process is the first one that is forked. -/
def oneChild : Config where
  nworkers := 1
  semGetvalue := firstBytes
  process := 1
  process_ne := by decide
  bladepsgiStartTime := 5

/-- The loader creates an atomic. Then the worker changes its status and counts two requests while
the monitoring process is reading, until the document is complete. -/
def oneDocument : List Action :=
  [.others (.create 0 (.newAtomicInt64 [byte 'a'] 7) (.fails 0)), .others .lockAllocations,
    .others (.fork 1), .others (.setWorkerStatus 0 95), .monitoring .ready, .monitoring .ok,
    .others (.setWorkerStatus 0 46), .others .increaseRequestCounter, .monitoring .ok,
    .monitoring .ok, .monitoring .ok, .others .increaseRequestCounter, .monitoring .ok,
    .monitoring .ok, .monitoring .ok]

theorem isSome_exec_oneDocument :
    ((machine oneChild).exec (init fun _ => 0) oneDocument).isSome := by
  decide +kernel

/-- The state before the `write`, with the trace that has led to it. -/
def beforeWrite : State × List Event :=
  ((machine oneChild).exec (init fun _ => 0) oneDocument).get isSome_exec_oneDocument

/-- The document of `oneDocument`. -/
theorem isSome_write : ((machine oneChild).step beforeWrite.1 (.monitoring .ok)).isSome := by
  decide +kernel

theorem mem_write : .response ("5\n_\n1\n\natomic a: 7\n".toList.map byte) ∈
    (((machine oneChild).step beforeWrite.1 (.monitoring .ok)).get isSome_write).2 := by
  decide +kernel

theorem document_counts_oneDocument : ∃ (st : Statistics) (u : Moment oneChild fun _ => 0),
    "5\n_\n1\n\natomic a: 7\n".toList.map byte = st.text ∧ u.actions <+: oneDocument ∧
    st.requestCounter = BitVec.ofNat 64 ((othersTrace u.trace).countP counted) := by
  have he : (machine oneChild).exec (init fun _ => 0) oneDocument =
      some (beforeWrite.1, beforeWrite.2) := (Option.some_get isSome_exec_oneDocument).symm
  obtain ⟨_, _, _, st, -, -, -, htext, htells⟩ := document_counts (by decide) he
    (Option.some_get isSome_write).symm mem_write (by decide +kernel)
  obtain ⟨u, hu, hcounter⟩ := htells.requestCounter
  exact ⟨st, u, htext, hu.before, hcounter⟩

end BladePSGI.Monitoring.Loop
