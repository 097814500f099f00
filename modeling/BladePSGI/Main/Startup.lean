import BladePSGI.Group.Step

/-!
# Before the first `fork`

`main` and `BPSGIMainApplication::Run` up to the first `fork`: one process with all its signals
blocked, which sets up the self-pipe, the shared memory and the sockets, starts the Perl interpreter
and calls the loader. The application that the loader loads may request auxiliary processes.

An exception of the C++ code ends in the catch clauses of `main`, a Perl exception in a line of its
own and `_exit(1)`. A `SyscallException` thrown under the loader ends in the destructor of the
interpreter, which calls `_exit(1)`.
-/

namespace BladePSGI.Main

/-- What the command line says, and the size of the self-pipe. -/
structure CommandLine where
  nworkers : ℕ
  /-- `main` refuses other worker counts. -/
  nworkers_pos : 0 < nworkers
  nworkers_le : nworkers ≤ 65536
  /-- The paths, as they stand in `sun_path`. -/
  fastcgiSocketPath : String
  statsSocketPath : String
  pipeCapacity : ℕ
  pipeCapacity_pos : 0 < pipeCapacity

/-- An exception that `main` catches. -/
inductive Exception
  /-- `SyscallException`. -/
  | syscall (syscall strerror : String)
  /-- `RuntimeException`. -/
  | runtime (error : String)
  deriving DecidableEq

/-- What the catch clause of `main` logs. -/
def Exception.line : Exception → LogLine
  | .syscall call e => .syscallFailed call e
  | .runtime error => .runtimeError error

/-- The three places of `SpawnWorkersAndAuxiliaryProcesses` that catch a
`PerlInterpreterException`. -/
inductive PerlFailure
  | interpreter
  | application
  | loader
  deriving DecidableEq

/-- What they log. -/
def PerlFailure.line (strerror : String) : PerlFailure → LogLine
  | .interpreter => .perlInterpreterFailed strerror
  | .application => .psgiApplicationFailed strerror
  | .loader => .psgiLoaderFailed strerror

namespace Startup

inductive Pc
  | blockSignals
  | logStartingUp
  | initializeSelfPipe
  | initializeSharedMemory
  | initializeMainFastCGISocket
  | initializeStatsSocket
  | logStartingWorkers
  | initializePerlInterpreter
  | loadCallback
  /-- The loader runs. -/
  | callAndReceiveCallback
  | lockAllocations
  /-- A `PerlInterpreterException` has been caught. -/
  | logPerlException (failure : PerlFailure) (strerror : String)
  /-- An exception has reached its catch clause in `main`. -/
  | catchException (ex : Exception)
  | logException (ex : Exception)
  | killProcessGroup
  /-- `_exit(1)`. -/
  | exit
  deriving DecidableEq

/-- What the kernel and the Perl interpreter answer. -/
inductive Outcome
  | ok
  | fails (syscall strerror : String)
  /-- `stat` finds something at the path that is no socket. -/
  | notASocket
  /-- The old socket cannot be removed. -/
  | unlinkFails (strerror : String)
  /-- A `PerlInterpreterException` is thrown. -/
  | perlException (strerror : String)
  /-- The application calls `request_auxiliary_process`. -/
  | requestAuxiliaryProcess (name : String)
  deriving DecidableEq

inductive Event
  | log (line : LogLine)
  /-- `SetShouldExitImmediately()`, with `none` if there is no shared memory, and the result
  otherwise. -/
  | setShouldExit (changed : Option Bool)
  | requestAuxiliaryProcess (name : String)
  | terminate (status : WaitStatus)
  deriving DecidableEq

end Startup

/-- The state before the first `fork`. -/
structure Startup where
  pc : Startup.Pc
  /-- `shmem_` is set. -/
  sharedMemory : Bool
  /-- The exit flag in shared memory. -/
  shouldExitImmediately : Bool
  /-- The names in `auxiliary_processes_`. -/
  auxiliaryNames : List String
  terminated : Option WaitStatus
  deriving DecidableEq

namespace Startup

def init : Startup where
  pc := .blockSignals
  sharedMemory := false
  shouldExitImmediately := false
  auxiliaryNames := []
  terminated := none

/-- What a step leads to. -/
abbrev Result := Option (Startup × List Event)

def goto (s : Startup) (pc : Pc) : Result := some ({ s with pc }, [])

def log (s : Startup) (line : LogLine) (pc : Pc) : Result := some ({ s with pc }, [.log line])

def terminate (s : Startup) (status : WaitStatus) : Result :=
  some ({ s with terminated := some status }, [.terminate status])

/-- A system call of the step fails: the code throws a `SyscallException`. -/
def throws (s : Startup) (calls : List String) (next : Pc) : Outcome → Result
  | .ok => s.goto next
  | .fails syscall e =>
    if syscall ∈ calls then s.goto (.catchException (.syscall syscall e)) else none
  | _ => none

/-- `InitializeUNIXSocket`. -/
def initializeUNIXSocket (s : Startup) (path : String) (next : Pc) : Outcome → Result
  | .notASocket => s.goto (.catchException
      (.runtime ("file " ++ path ++ " already exists and is not a socket")))
  | .unlinkFails e => s.goto (.catchException
      (.runtime ("could not remove socket file " ++ path ++ ": " ++ e)))
  | o => s.throws ["socket", "bind", "listen"] next o

/-- A step that runs Perl code. -/
def perl (s : Startup) (failure : PerlFailure) (next : Pc) : Outcome → Result
  | .ok => s.goto next
  | .perlException e => s.goto (.logPerlException failure e)
  | _ => none

/-- The catch clauses of `main`. -/
def setShouldExitImmediately (s : Startup) (yes no : Pc) : Result :=
  if s.sharedMemory then
    some ({ s with
      shouldExitImmediately := true
      pc := if s.shouldExitImmediately then no else yes },
      [.setShouldExit (some (!s.shouldExitImmediately))])
  else some ({ s with pc := yes }, [.setShouldExit none])

/-- `Run`, up to the first `fork`, which comes after `lockAllocations`. -/
def step (cl : CommandLine) (s : Startup) (o : Outcome) : Result :=
  match s.pc, o with
  | .blockSignals, o => s.throws ["sigprocmask"] .logStartingUp o
  | .logStartingUp, .ok => s.log .startingUp .initializeSelfPipe
  | .initializeSelfPipe, o => s.throws ["pipe", "fcntl"] .initializeSharedMemory o
  | .initializeSharedMemory, .ok =>
    some ({ s with sharedMemory := true, pc := .initializeMainFastCGISocket }, [])
  -- the test is for `NULL`, but `mmap` fails with `MAP_FAILED`, which `memset` writes to
  | .initializeSharedMemory, .fails _ _ => s.terminate (.signaled 11)
  | .initializeMainFastCGISocket, o =>
    s.initializeUNIXSocket cl.fastcgiSocketPath .initializeStatsSocket o
  | .initializeStatsSocket, o => s.initializeUNIXSocket cl.statsSocketPath .logStartingWorkers o
  | .logStartingWorkers, .ok => s.log .startingWorkers .initializePerlInterpreter
  | .initializePerlInterpreter, o => s.perl .interpreter .loadCallback o
  | .loadCallback, o => s.perl .application .callAndReceiveCallback o
  | .callAndReceiveCallback, .requestAuxiliaryProcess name =>
    some ({ s with auxiliaryNames := s.auxiliaryNames ++ [name] }, [.requestAuxiliaryProcess name])
  -- the destructor of the interpreter
  | .callAndReceiveCallback, .fails _ _ => s.goto .exit
  | .callAndReceiveCallback, o => s.perl .loader .lockAllocations o
  | .logPerlException failure e, .ok => s.log (failure.line e) .exit
  | .catchException ex, .ok => s.setShouldExitImmediately (.logException ex) .killProcessGroup
  | .logException ex, .ok => s.log ex.line .killProcessGroup
  -- there is nobody to signal
  | .killProcessGroup, .ok => s.goto .exit
  | .exit, .ok => s.terminate (.exited 1)
  | _, _ => none

/-! ## What a step can do -/

variable {cl : CommandLine} {s s' : Startup} {o : Outcome} {es : List Event}

/-- The next step is not the line that a catch clause of `main` logs. -/
def Pc.Plain : Pc → Prop
  | .logException _ => False
  | _ => True

/-- A catch clause of `main` has been entered, or `_exit(1)` is near. -/
def Pc.Leaving : Pc → Prop
  | .logException _ | .killProcessGroup | .exit => True
  | _ => False

/-- The steps before the first `fork`. -/
inductive Step (s : Startup) : Startup → List Event → Prop
  | goto {pc} (h : pc.Plain) (hleaving : s.pc.Leaving → pc.Leaving) : Step s { s with pc } []
  | log {line pc} (hline : line.isFatal = false) (h : pc.Plain)
      (hleaving : s.pc.Leaving → pc.Leaving) : Step s { s with pc } [.log line]
  | initializeSharedMemory (hpc : s.pc = .initializeSharedMemory) :
      Step s { s with sharedMemory := true, pc := .initializeMainFastCGISocket } []
  | requestAuxiliaryProcess {name} (hpc : s.pc = .callAndReceiveCallback) :
      Step s { s with auxiliaryNames := s.auxiliaryNames ++ [name] } [.requestAuxiliaryProcess name]
  | setShouldExit {ex} (hpc : s.pc = .catchException ex) (h : s.sharedMemory = true) :
      Step s { s with
        shouldExitImmediately := true
        pc := if s.shouldExitImmediately then .killProcessGroup else .logException ex }
        [.setShouldExit (some (!s.shouldExitImmediately))]
  | noSharedMemory {ex} (hpc : s.pc = .catchException ex) (h : s.sharedMemory = false) :
      Step s { s with pc := .logException ex } [.setShouldExit none]
  | logException {ex} (hpc : s.pc = .logException ex) :
      Step s { s with pc := .killProcessGroup } [.log ex.line]
  | terminate {status} : Step s { s with terminated := some status } [.terminate status]

theorem throws_cases {calls : List String} {next : Pc}
    (h : s.throws calls next o = some (s', es)) (hnext : next.Plain) (hpc : ¬ s.pc.Leaving) :
    Step s s' es := by
  cases o <;> simp only [throws, Startup.goto, reduceCtorEq] at h
  case ok =>
    obtain ⟨rfl, rfl⟩ := Prod.mk.inj (Option.some.inj h)
    exact .goto hnext (absurd · hpc)
  case fails =>
    split at h
    · obtain ⟨rfl, rfl⟩ := Prod.mk.inj (Option.some.inj h)
      exact .goto trivial (absurd · hpc)
    · cases h

theorem initializeUNIXSocket_cases {path : String} {next : Pc}
    (h : s.initializeUNIXSocket path next o = some (s', es)) (hnext : next.Plain)
    (hpc : ¬ s.pc.Leaving) : Step s s' es := by
  unfold initializeUNIXSocket at h
  split at h
  case h_3 => exact throws_cases h hnext hpc
  all_goals
    obtain ⟨rfl, rfl⟩ := Prod.mk.inj (Option.some.inj h)
    exact .goto trivial (absurd · hpc)

theorem perl_cases {failure : PerlFailure} {next : Pc}
    (h : s.perl failure next o = some (s', es)) (hnext : next.Plain) (hpc : ¬ s.pc.Leaving) :
    Step s s' es := by
  cases o <;> simp only [perl, Startup.goto, reduceCtorEq] at h <;>
    obtain ⟨rfl, rfl⟩ := Prod.mk.inj (Option.some.inj h)
  · exact .goto hnext (absurd · hpc)
  · exact .goto trivial (absurd · hpc)

/-- **What a step before the first `fork` can do.** -/
theorem step_cases (h : s.step cl o = some (s', es)) : Step s s' es := by
  unfold step at h
  split at h
  case h_1 hpc => exact throws_cases h trivial (hpc ▸ id)
  case h_3 hpc => exact throws_cases h trivial (hpc ▸ id)
  case h_6 hpc => exact initializeUNIXSocket_cases h trivial (hpc ▸ id)
  case h_7 hpc => exact initializeUNIXSocket_cases h trivial (hpc ▸ id)
  case h_9 hpc => exact perl_cases h trivial (hpc ▸ id)
  case h_10 hpc => exact perl_cases h trivial (hpc ▸ id)
  case h_13 hpc _ _ => exact perl_cases h trivial (hpc ▸ id)
  case h_15 hpc =>
    unfold setShouldExitImmediately at h
    split at h <;> obtain ⟨rfl, rfl⟩ := Prod.mk.inj (Option.some.inj h)
    · exact .setShouldExit hpc ‹_›
    · exact .noSharedMemory hpc (Bool.eq_false_iff.2 ‹_›)
  case h_19 => cases h
  all_goals obtain ⟨rfl, rfl⟩ := Prod.mk.inj (Option.some.inj h)
  case h_2 hpc | h_8 hpc => exact .log rfl trivial fun h => by simp [hpc, Pc.Leaving] at h
  case h_4 hpc => exact .initializeSharedMemory hpc
  case h_5 | h_18 => exact .terminate
  case h_11 hpc => exact .requestAuxiliaryProcess hpc
  case h_12 | h_17 => exact .goto trivial fun _ => trivial
  case h_14 failure e _ => exact .log (by cases failure <;> rfl) trivial fun _ => trivial
  case h_16 hpc => exact .logException hpc

end Startup

end BladePSGI.Main
