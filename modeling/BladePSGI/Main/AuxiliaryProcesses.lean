import BladePSGI.Main.Step
import BladePSGI.Overseer.Spawning

/-!
# Requests for auxiliary processes

`RequestAuxiliaryProcess` appends to a list that the overseer reads once, in
`SpawnWorkersAndAuxiliaryProcesses`. In a child it appends to the child's copy, which nobody reads,
and returns without an error all the same.

* `requests_honoured_iff`: every request has its fork only if none was made in a child.
* `not_requests_honoured`: a worker makes one.
-/

namespace BladePSGI.Main

open Function Transition

variable {cl : CommandLine} {s s' : State} {r : Running} {a : Action} {tr es : List Event}

/-! ## Requests and forks -/

/-- The name in a request made before the first `fork`. -/
def Event.loaderRequest : Event → Option String
  | .startup (.requestAuxiliaryProcess name) => some name
  | _ => none

/-- The name in a request made in a child. -/
def Event.childRequest : Event → Option String
  | .requestAuxiliaryProcess _ name => some name
  | _ => none

/-- The name in a request that returns without an error. -/
def Event.request : Event → Option String
  | .startup (.requestAuxiliaryProcess name) | .requestAuxiliaryProcess _ name => some name
  | _ => none

/-- The requests of the trace. -/
def requests (tr : List Event) : List String := tr.filterMap Event.request

/-- How many auxiliary processes of the name the overseer has forked. -/
def auxiliaryForks (auxiliaryNames : List String) (tr : List Event) (name : String) : ℕ :=
  (Overseer.forks (Group.overseerTrace (groupTrace tr))).countP
    (Overseer.Child.hasName auxiliaryNames name)

theorem count_requests (tr : List Event) (name : String) : (requests tr).count name =
    (tr.filterMap Event.loaderRequest).count name +
      (tr.filterMap Event.childRequest).count name := by
  induction tr with
  | nil => rfl
  | cons e tr ih =>
    rw [requests] at ih ⊢
    cases e with
    | startup e =>
      cases e with
      | requestAuxiliaryProcess name' =>
        simp only [List.filterMap_cons, Event.request, Event.loaderRequest, Event.childRequest,
          List.count_cons, ih]
        omega
      | _ => exact ih
    | group => exact ih
    | requestAuxiliaryProcess pid name' =>
      simp only [List.filterMap_cons, Event.request, Event.loaderRequest, Event.childRequest,
        List.count_cons, ih]
      omega

/-! ## The requests that the overseer reads -/

/-- The overseer's list. -/
def State.auxiliaryNames : State → List String
  | .startup s => s.auxiliaryNames
  | .running r => r.auxiliaryNames

theorem Startup.Step.auxiliaryNames {s s' : Startup} {es : List Startup.Event}
    (h : Startup.Step s s' es) : s'.auxiliaryNames =
      s.auxiliaryNames ++ (es.map Event.startup).filterMap Event.loaderRequest := by
  cases h <;> simp [Event.loaderRequest]

/-- The overseer's list holds the requests made before the first `fork`. -/
theorem auxiliaryNames_of_reach (h : Reach cl tr s) :
    s.auxiliaryNames = tr.filterMap Event.loaderRequest := by
  refine h.invariant (fun tr s => s.auxiliaryNames = tr.filterMap Event.loaderRequest) rfl ?_
  rintro tr s a s' es - ih - hs
  rw [List.filterMap_append, ← ih]
  cases step_cases hs with
  | startup _ h => exact h.auxiliaryNames
  | run => exact (List.append_nil _).symm
  | group => simp [State.auxiliaryNames, Event.loaderRequest]
  | requestAuxiliaryProcess => exact (List.append_nil _).symm

/-- The overseer forks one auxiliary process for each of them. -/
theorem auxiliaryForks_eq (h : Reach cl tr (.running r))
    (hpc : ∀ i, r.group.overseer.pc ≠ .spawnAuxiliary i) (name : String) :
    auxiliaryForks r.auxiliaryNames tr name = r.auxiliaryNames.count name :=
  Overseer.count_auxiliary (Group.reach_overseer (reach_group h)) hpc name

/-- **No request is dropped exactly when none is made in a child.** -/
theorem requests_honoured_iff (h : Reach cl tr (.running r))
    (hpc : ∀ i, r.group.overseer.pc ≠ .spawnAuxiliary i) :
    (∀ name, auxiliaryForks r.auxiliaryNames tr name = (requests tr).count name) ↔
      ∀ pid name, .requestAuxiliaryProcess pid name ∉ tr := by
  have hnames : r.auxiliaryNames = tr.filterMap Event.loaderRequest := auxiliaryNames_of_reach h
  have heq : ∀ name, auxiliaryForks r.auxiliaryNames tr name = (requests tr).count name ↔
      (tr.filterMap Event.childRequest).count name = 0 := by
    intro name
    rw [auxiliaryForks_eq h hpc, count_requests, ← hnames]
    omega
  simp only [heq, List.count_eq_zero, List.mem_filterMap, not_exists, not_and]
  constructor
  · intro hnone pid name hmem
    exact hnone name _ hmem rfl
  · intro hnone name e hmem he
    cases e with
    | requestAuxiliaryProcess pid name' => exact hnone pid name' hmem
    | _ => cases he

/-- The loader requests a process, and the overseer forks it. -/
def requestedEarly : List Action :=
  List.replicate 9 (.startup .ok) ++ [.startup (.requestAuxiliaryProcess "cron"), .startup .ok,
    .startup .ok, .group (.overseer (.forked 9)), .group (.overseer .ok)]

theorem isSome_exec_requestedEarly :
    ((machine oneWorker).exec (.startup Startup.init) requestedEarly).isSome := by
  decide

theorem requests_honoured_iff_requestedEarly : ∃ tr r, Reach oneWorker tr (.running r) ∧
    requests tr = ["cron"] ∧ auxiliaryForks r.auxiliaryNames tr "cron" = 1 := by
  let tr : List Event := [.startup (.log .startingUp), .startup (.log .startingWorkers),
    .startup (.requestAuxiliaryProcess "cron"), .group (.overseer (.fork 9 (.auxiliary 0)))]
  have h : Reach oneWorker tr (.running _) := Machine.reach_exec isSome_exec_requestedEarly
  have hforks := (requests_honoured_iff h fun _ hpc => nomatch hpc).2 (by simp [tr]) "cron"
  exact ⟨tr, _, h, by decide, hforks⟩

/-- A worker requests a process. -/
def requestedLate : List Action :=
  startup ++ List.replicate 10 (.group (.child 10 .ok)) ++ [.requestAuxiliaryProcess 10 "cron"]

theorem isSome_exec_requestedLate :
    ((machine oneWorker).exec (.startup Startup.init) requestedLate).isSome := by
  decide

/-- The counterexample: nobody forks the process that the worker has requested. -/
theorem not_requests_honoured : ¬ ∀ (cl : CommandLine) (tr : List Event) (r : Running),
    Reach cl tr (.running r) → (∀ i, r.group.overseer.pc ≠ .spawnAuxiliary i) →
      ∀ name, auxiliaryForks r.auxiliaryNames tr name = (requests tr).count name := by
  intro h
  have hreach : Reach oneWorker _ (.running _) := Machine.reach_exec isSome_exec_requestedLate
  exact absurd (h oneWorker _ _ hreach (fun _ hpc => nomatch hpc) "cron") (by decide)

end BladePSGI.Main
