import BladePSGI.Group.Requests
import BladePSGI.Main.Startup

/-!
# The whole program

One process until the first `fork`, a process group from then on. The auxiliary processes of the
group are those that were requested before the first `fork`. A child has its own copy of the list of
requests, and application code that runs in it may add to the copy.

* `reach_group`: from the first `fork` on, the program is the process group.
-/

namespace BladePSGI.Main

open Function Transition

/-- What the overseer is run with. -/
def CommandLine.config (cl : CommandLine) (auxiliaryNames : List String) : Overseer.Config where
  auxiliaryNames := auxiliaryNames
  nworkers := cl.nworkers
  nworkers_pos := cl.nworkers_pos
  nworkers_le := cl.nworkers_le
  pipeCapacity := cl.pipeCapacity
  pipeCapacity_pos := cl.pipeCapacity_pos

/-- The state from the first `fork` on. -/
structure Running where
  /-- The names in the overseer's `auxiliary_processes_`. -/
  auxiliaryNames : List String
  group : Group.State
  /-- The names in the copies that the children have of the list. -/
  copies : Pid → List String

inductive State
  | startup (s : Startup)
  | running (r : Running)

inductive Event
  | startup (e : Startup.Event)
  | group (e : Group.Event)
  /-- `request_auxiliary_process` returns without an error in a child. -/
  | requestAuxiliaryProcess (pid : Pid) (name : String)
  deriving DecidableEq

inductive Action
  | startup (o : Startup.Outcome)
  /-- The process terminates by itself before the first `fork`. -/
  | dies (status : WaitStatus)
  | group (a : Group.Action)
  /-- The application calls `request_auxiliary_process` in a child. -/
  | requestAuxiliaryProcess (pid : Pid) (name : String)

/-- What a step leads to. -/
abbrev Result := Option (State × List Event)

/-- A `fork` copies the list of requests. -/
def Running.noteFork (auxiliaryNames : List String) (copies : Pid → List String) :
    Group.Event → Pid → List String
  | .overseer (.fork pid _) => update copies pid auxiliaryNames
  | _ => copies

/-- The application runs in the process. -/
def inApplication : Group.Program → Bool
  | .worker w => w.pc = .serve ∨ w.pc = .finish
  | .auxiliary x => x.pc = .call
  | .monitoring _ => false

def Running.step (cl : CommandLine) (r : Running) (a : Group.Action) : Result :=
  match (Group.machine (cl.config r.auxiliaryNames)).step r.group a with
  | none => none
  | some (group, es) =>
    some (.running { r with
      group, copies := es.foldl (Running.noteFork r.auxiliaryNames) r.copies }, es.map .group)

/-- `bladepsgi_perl_interpreter_cb_request_auxiliary_process` in a child: `NULL`, always. -/
def Running.requestAuxiliaryProcess (r : Running) (pid : Pid) (name : String) : Result :=
  match r.group.processes pid with
  | none => none
  | some p =>
    if inApplication p.program then
      some (.running { r with copies := update r.copies pid (r.copies pid ++ [name]) },
        [.requestAuxiliaryProcess pid name])
    else none

/-- `LockAllocations`, and the program is ready to fork. -/
def Startup.run (cl : CommandLine) (s : Startup) : Running where
  auxiliaryNames := s.auxiliaryNames
  group := Group.init (cl.config s.auxiliaryNames)
  copies := fun _ => []

def startupStep (cl : CommandLine) (s : Startup) (o : Startup.Outcome) : Result :=
  if s.terminated.isSome then none
  else if s.pc = .lockAllocations ∧ o = .ok then some (.running (s.run cl), [])
  else (s.step cl o).map fun r => (.startup r.1, r.2.map .startup)

def step (cl : CommandLine) : State → Action → Result
  | .startup s, .startup o => startupStep cl s o
  | .startup s, .dies status =>
    if s.terminated.isSome then none
    else some (.startup { s with terminated := some status }, [.startup (.terminate status)])
  | .running r, .group a => r.step cl a
  | .running r, .requestAuxiliaryProcess pid name => r.requestAuxiliaryProcess pid name
  | _, _ => none

/-- The program as a machine. -/
def machine (cl : CommandLine) : Machine State Action Event := ⟨step cl⟩

/-- The runs of the program. -/
abbrev Reach (cl : CommandLine) : List Event → State → Prop :=
  (machine cl).Reach (.startup Startup.init)

/-- One worker, and room for one byte in the self-pipe. -/
def oneWorker : CommandLine where
  nworkers := 1
  nworkers_pos := Nat.one_pos
  nworkers_le := Overseer.oneWorker.nworkers_le
  fastcgiSocketPath := "fastcgi.sock"
  statsSocketPath := "stats.sock"
  pipeCapacity := 1
  pipeCapacity_pos := Nat.one_pos

/-- The startup of `oneWorker`. -/
def startup : List Action := List.replicate 11 (.startup .ok) ++ Group.startup.map .group

/-! ## What a step can do -/

/-- The steps of the program. -/
inductive Step (cl : CommandLine) : State → State → List Event → Prop
  | startup {s s' es} (hrun : s.terminated = none) (h : Startup.Step s s' es) :
      Step cl (.startup s) (.startup s') (es.map .startup)
  | run {s : Startup} (hrun : s.terminated = none) (hpc : s.pc = .lockAllocations) :
      Step cl (.startup s) (.running (s.run cl)) []
  | group {r : Running} {a group es}
      (h : (Group.machine (cl.config r.auxiliaryNames)).step r.group a = some (group, es)) :
      Step cl (.running r)
        (.running { r with
          group, copies := es.foldl (Running.noteFork r.auxiliaryNames) r.copies })
        (es.map .group)
  | requestAuxiliaryProcess {r : Running} {pid name p} (hp : r.group.processes pid = some p)
      (h : inApplication p.program = true) :
      Step cl (.running r)
        (.running { r with copies := update r.copies pid (r.copies pid ++ [name]) })
        [.requestAuxiliaryProcess pid name]

variable {cl : CommandLine} {s s' : State} {a : Action} {tr es : List Event}

theorem startupStep_cases {s : Startup} {o : Startup.Outcome} {es : List Event}
    (h : startupStep cl s o = some (s', es)) : Step cl (.startup s) s' es := by
  unfold startupStep at h
  split_ifs at h with hterm hlock
  · obtain ⟨rfl, rfl⟩ := Prod.mk.inj (Option.some.inj h)
    exact .run (Option.not_isSome_iff_eq_none.1 hterm) hlock.1
  · obtain ⟨⟨t, es'⟩, hstep, heq⟩ := Option.map_eq_some_iff.1 h
    obtain ⟨rfl, rfl⟩ := Prod.mk.inj heq
    exact .startup (Option.not_isSome_iff_eq_none.1 hterm) (Startup.step_cases hstep)

/-- **What a step of the program can do.** -/
theorem step_cases (h : (machine cl).step s a = some (s', es)) : Step cl s s' es := by
  change step cl s a = _ at h
  unfold step at h
  split at h
  case h_1 => exact startupStep_cases h
  case h_2 s status =>
    split_ifs at h with hterm
    obtain ⟨rfl, rfl⟩ := Prod.mk.inj (Option.some.inj h)
    exact .startup (Option.not_isSome_iff_eq_none.1 hterm) .terminate
  case h_3 r a =>
    unfold Running.step at h
    split at h
    · cases h
    · obtain ⟨rfl, rfl⟩ := Prod.mk.inj (Option.some.inj h)
      exact .group ‹_›
  case h_4 r pid name =>
    unfold Running.requestAuxiliaryProcess at h
    split at h
    · cases h
    · split_ifs at h with happ
      obtain ⟨rfl, rfl⟩ := Prod.mk.inj (Option.some.inj h)
      exact .requestAuxiliaryProcess ‹_› happ
  case h_5 => cases h

/-! ## The group in the program -/

/-- The event of the group. -/
def Event.group? : Event → Option Group.Event
  | .group e => some e
  | _ => none

/-- The trace of the group. -/
def groupTrace (tr : List Event) : List Group.Event := tr.filterMap Event.group?

theorem groupTrace_append (tr es : List Event) :
    groupTrace (tr ++ es) = groupTrace tr ++ groupTrace es :=
  List.filterMap_append

@[simp] theorem groupTrace_map_startup (es : List Startup.Event) :
    groupTrace (es.map .startup) = [] := by
  simp [groupTrace, Event.group?]

@[simp] theorem groupTrace_map_group (es : List Group.Event) : groupTrace (es.map .group) = es := by
  rw [groupTrace, List.filterMap_map]
  exact List.filterMap_some

@[simp] theorem mem_groupTrace {e : Group.Event} : e ∈ groupTrace tr ↔ .group e ∈ tr := by
  simp only [groupTrace, List.mem_filterMap]
  constructor
  · rintro ⟨e', hmem, he⟩
    cases e' <;> simp_all [Event.group?]
  · exact fun h => ⟨_, h, rfl⟩

/-- What holds of the group before and after the first `fork`. -/
def GroupReach (cl : CommandLine) (tr : List Event) : State → Prop
  | .startup _ => groupTrace tr = []
  | .running r => Group.Reach (cl.config r.auxiliaryNames) (groupTrace tr) r.group

/-- **The group of the program is the process group.** -/
theorem reach_group (h : Reach cl tr s) : GroupReach cl tr s := by
  refine h.invariant (GroupReach cl) rfl ?_
  rintro tr s a s' es - ih - hs
  cases step_cases hs with
  | startup => exact (groupTrace_append ..).trans (by rw [show groupTrace tr = [] from ih]; simp)
  | @run s =>
    change Group.Reach _ (groupTrace (tr ++ [])) _
    rw [List.append_nil, show groupTrace tr = [] from ih]
    exact .nil
  | group h =>
    change Group.Reach _ (groupTrace (tr ++ _)) _
    rw [groupTrace_append, groupTrace_map_group]
    exact .snoc ih trivial h
  | requestAuxiliaryProcess =>
    change Group.Reach _ (groupTrace (tr ++ _)) _
    rwa [groupTrace_append, show groupTrace [_] = [] from rfl, List.append_nil]

end BladePSGI.Main
