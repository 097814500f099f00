import BladePSGI.Foundations.Transition
import BladePSGI.Overseer.State

/-!
# The steps of the overseer

`mainStep` is the main program, statement by statement where a signal handler run can make a
difference; `handlerStep` is `HandleParentSignal`. Both are functions of the state and of what the
kernel answers to the system call of the step (`Outcome`). `step` adds what happens to the
process: signals are raised and delivered, children terminate, another process sets the exit flag.

`mainStep_cases` and `handlerStep_cases` say once what a step can do (`MainStep`, `HandlerStep`);
the invariants are proved from them.
-/

namespace BladePSGI.Overseer

open Function Transition ProcessTable

/-- What the kernel answers to the system call of a step. -/
inductive Outcome
  | ok
  /-- `fork` returns the pid in the parent. -/
  | forked (pid : Pid)
  /-- `select` finds the self-pipe readable. -/
  | ready
  | timeout
  | wait (report : Wait Pid)
  /-- The call fails with `EINTR`. -/
  | interrupted
  /-- The call fails in a way that the code does not expect. -/
  | error (strerror : String)
  deriving DecidableEq

/-- What a step leads to: `none` where the kernel cannot give this answer. -/
abbrev Result := Option (State × List Event)

def goto (s : State) (pc : Pc) : Result := some ({ s with pc }, [])

def terminate (s : State) (how : Termination) : Result :=
  some ({ s with terminated := some how }, [.terminate how])

/-- The pids that a call of `KillProcessGroup` signals, in order. -/
def killTargets (s : State) : List Pid := s.workerPids ++ s.monitoringProcessPid.toList

/-! ## Startup -/

/-- The loop over `auxiliary_processes_` with `SpawnAuxiliaryProcess`. A `SyscallException` thrown
here or in the loop over the workers unwinds `SpawnWorkersAndAuxiliaryProcesses`, where the
destructor of the Perl interpreter, not yet destroyed by `Destroy`, calls `_exit(1)`. -/
def spawnAuxiliaryProcess (s : State) (index : ℕ) : Outcome → Result
  | .ok => if index < s.auxiliaryProcesses.length then none else goto s (.spawnWorker 0)
  | .forked pid =>
    match s.auxiliaryProcesses[index]? with
    | none => none
    | some process =>
      if h : pid ∉ s.children.unreaped then
        match process.setPID pid with
        -- `std::logic_error` is caught nowhere
        | none =>
          some ({ s with
            children := s.children.fork pid h
            terminated := some .abort }, [.fork pid (.auxiliary index), .terminate .abort])
        | some process' =>
          some ({ s with
            children := s.children.fork pid h
            auxiliaryProcesses := s.auxiliaryProcesses.set index process'
            auxiliaryPids := s.auxiliaryPids ++ [pid]
            pc := .spawnAuxiliary (index + 1) }, [.fork pid (.auxiliary index)])
      else none
  | .error _ => if index < s.auxiliaryProcesses.length then terminate s (.exit 1) else none
  | _ => none

/-- The loop over the workers. -/
def spawnWorker (cfg : Config) (s : State) (workerno : ℕ) : Outcome → Result
  | .ok => if workerno < cfg.nworkers then none else goto s .spawnMonitoring
  | .forked pid =>
    if workerno < cfg.nworkers then
      if h : pid ∉ s.children.unreaped then
        some ({ s with
          children := s.children.fork pid h
          workerPids := s.workerPids ++ [pid]
          pc := .spawnWorker (workerno + 1) }, [.fork pid (.worker workerno)])
      else none
    else none
  | .error _ => if workerno < cfg.nworkers then terminate s (.exit 1) else none
  | _ => none

def spawnMonitoringProcess (s : State) : Outcome → Result
  | .forked pid =>
    if h : pid ∉ s.children.unreaped then
      some ({ s with
        children := s.children.fork pid h
        monitoringProcessPid := some pid
        pc := .setSignalHandlers }, [.fork pid .monitoring])
    else none
  | .error e => goto s (.catchSyscall "fork" e)
  | _ => none

/-! ## The main loop -/

/-- The call of `select`, with the self-pipe as its only file descriptor. -/
def select (s : State) : Outcome → Result
  | .ready => if 0 < s.selfPipe then goto s .drainSelfPipe else none
  | .timeout => if s.selfPipe = 0 then goto s .testFastShutdown else none
  | .interrupted => goto s .testFastShutdown
  | .error e => goto s (.catchSyscall "select" e)
  | _ => none

/-- One iteration of `DrainSelfPipe`: `read` takes up to ten bytes, or fails with `EAGAIN`. -/
def drainSelfPipe (s : State) : Outcome → Result
  | .ok =>
    if 0 < s.selfPipe then some ({ s with selfPipe := s.selfPipe - 10 }, [])
    else goto s .testFastShutdown
  | .interrupted => goto s .drainSelfPipe
  | .error e => goto s (.catchSyscall "read" e)
  | _ => none

/-- What the main program does when `KillProcessGroup` has returned. -/
def afterKill : KillCaller → Pc
  | .fastShutdown => .clearFastShutdown
  | .secondSmartShutdown => .clearSmartShutdown .secondSmartShutdown
  | .smartShutdown => .clearSmartShutdown .smartShutdown
  | .unexpectedDeath pid => .exit (.unexpectedDeath pid)
  | .main => .exit .main

/-- `two smart shutdowns means fast shutdown`: only the first one arms the escalation. -/
def afterClearSmart : KillCaller → Pc
  | .smartShutdown => .setForceFastShutdown
  | _ => .waitpid

/-- The call of `waitpid`. -/
def waitpid (s : State) : Outcome → Result
  | .wait report =>
    if s.children.Reports report then
      match report with
      | .child pid =>
        some ({ s with
          children := s.children.reap pid
          pc := .handleChildProcessDeath pid (s.children.status pid) }, [.reap pid])
      | .none => goto s .select
      | .noChild =>
        some ({ s with terminated := some (.exit 0) },
          [.log .shuttingDown, .terminate (.exit 0)])
    else none
  | .interrupted => goto s .waitpid
  | .error e => goto s (.catchSyscall "waitpid" e)
  | _ => none

/-- `HandleChildProcessDeath`, up to the test of `_mainapp_shutdown`. -/
def handleChildProcessDeath (s : State) (pid : Pid) (status : WaitStatus) : Pc :=
  if pid ∈ s.workerPids then .testShutdown .worker pid status
  else if pid ∈ s.auxiliaryPids then .testShutdown .auxiliary pid status
  else if s.monitoringProcessPid = some pid then .testShutdown .monitoring pid status
  else .unknownChild pid status

/-- The test of `_mainapp_shutdown` and, for an auxiliary process, the search for its name. -/
def testShutdown (s : State) (found : Found) (pid : Pid) (status : WaitStatus) : Result :=
  if s.shutdown then goto s (.erase found pid)
  else
    match found with
    | .worker => goto s (.handleUnexpectedDeath "worker process" pid status)
    | .auxiliary =>
      match s.auxiliaryProcesses.find? (·.pid = some pid) with
      | none => terminate s .abort
      | some process =>
        goto s (.handleUnexpectedDeath ("auxiliary process " ++ process.name) pid status)
    | .monitoring => goto s (.handleUnexpectedDeath "monitoring process" pid status)

/-- The end of `HandleChildProcessDeath` during a shutdown. -/
def erase (s : State) : Found → Pid → State
  | .worker, pid => { s with workerPids := s.workerPids.erase pid, pc := .waitpid }
  | .auxiliary, pid => { s with auxiliaryPids := s.auxiliaryPids.erase pid, pc := .waitpid }
  | .monitoring, _ => { s with monitoringProcessPid := none, pc := .waitpid }

/-- `SetShouldExitImmediately`, then `yes` if it changed the flag and `no` if it did not. -/
def setShouldExitImmediately (s : State) (yes no : Pc) : Result :=
  some ({ s with
    shouldExitImmediately := true
    pc := if s.shouldExitImmediately then no else yes },
    [.setShouldExit (!s.shouldExitImmediately)])

def log (s : State) (line : LogLine) (pc : Pc) : Result := some ({ s with pc }, [.log line])

/-- The main program. -/
def mainStep (cfg : Config) (s : State) (o : Outcome) : Result :=
  match s.pc, o with
  | .spawnAuxiliary index, o => spawnAuxiliaryProcess s index o
  | .spawnWorker workerno, o => spawnWorker cfg s workerno o
  | .spawnMonitoring, o => spawnMonitoringProcess s o
  | .setSignalHandlers, .ok => goto s .unblockSignals
  | .setSignalHandlers, .error e => goto s (.catchSyscall "sigaction" e)
  | .unblockSignals, .ok => some ({ s with signalsBlocked := false, pc := .setProcessTitle }, [])
  | .setProcessTitle, .ok => log s .startupComplete .select
  | .setProcessTitle, .error e => goto s (.catchSyscall "prctl" e)
  | .select, o => select s o
  | .drainSelfPipe, o => drainSelfPipe s o
  | .testFastShutdown, .ok =>
    if s.fastShutdown then log s .fastShutdown (.killProcessGroup .sigquit .fastShutdown)
    else goto s .testSmartShutdown
  | .testSmartShutdown, .ok =>
    goto s (if s.smartShutdown then .testForceFastShutdown else .waitpid)
  | .testForceFastShutdown, .ok =>
    if s.forceFastShutdown then
      log s .secondSmartShutdown (.killProcessGroup .sigquit .secondSmartShutdown)
    else log s .smartShutdown (.killProcessGroup .sigterm .smartShutdown)
  | .killProcessGroup sig caller, .ok =>
    some ({ s with pc := .kill sig (killTargets s) caller }, [.killpg sig])
  | .kill sig (pid :: todo) caller, .ok =>
    some ({ s with pc := .kill sig todo caller }, [.kill pid sig])
  | .kill sig [] caller, .ok => some ({ s with pc := afterKill caller }, [.killpgReturn sig])
  | .clearFastShutdown, .ok => some ({ s with fastShutdown := false, pc := .waitpid }, [])
  | .clearSmartShutdown caller, .ok =>
    some ({ s with smartShutdown := false, pc := afterClearSmart caller }, [])
  | .setForceFastShutdown, .ok => some ({ s with forceFastShutdown := true, pc := .waitpid }, [])
  | .waitpid, o => waitpid s o
  | .handleChildProcessDeath pid status, .ok => goto s (handleChildProcessDeath s pid status)
  | .testShutdown found pid status, .ok => testShutdown s found pid status
  | .erase found pid, .ok => some (erase s found pid, [])
  | .handleUnexpectedDeath process pid status, .ok =>
    setShouldExitImmediately s (.logUnexpectedDeath process pid status)
      (.killProcessGroup .sigquit (.unexpectedDeath pid))
  | .logUnexpectedDeath process pid status, .ok =>
    log s (.childDied process pid status) (.killProcessGroup .sigquit (.unexpectedDeath pid))
  | .unknownChild pid status, .ok =>
    setShouldExitImmediately s (.logUnknownChild pid status) (.logUnknownChild pid status)
  | .logUnknownChild pid status, .ok =>
    some ({ s with terminated := some (.exit 1) },
      [.log (.unknownChild pid status), .terminate (.exit 1)])
  | .catchSyscall syscall e, .ok =>
    setShouldExitImmediately s (.logSyscall syscall e) (.killProcessGroup .sigquit .main)
  | .logSyscall syscall e, .ok =>
    log s (.syscallFailed syscall e) (.killProcessGroup .sigquit .main)
  | .exit _, .ok => terminate s (.exit 1)
  | _, _ => none

/-! ## The signal handler -/

/-- `HandleParentSignal` in the run `f`, on top of the runs `rest`. A full self-pipe (`EAGAIN`) is
as good as a written one. -/
def handlerStep (cfg : Config) (s : State) (f : Frame) (rest : List Frame) (o : Outcome) : Result :=
  match f.pc, o with
  | .entry, .ok =>
    match f.sig with
    | .sigquit => some ({ s with handlers := ⟨f.sig, .killProcessGroup⟩ :: rest }, [])
    | .sigterm =>
      some ({ s with smartShutdown := true, handlers := ⟨f.sig, .setShutdown⟩ :: rest }, [])
    | .sigint =>
      some ({ s with fastShutdown := true, handlers := ⟨f.sig, .setShutdown⟩ :: rest }, [])
    | .sigchld => some ({ s with handlers := ⟨f.sig, .writeSelfPipe⟩ :: rest }, [])
  | .setShutdown, .ok =>
    some ({ s with shutdown := true, handlers := ⟨f.sig, .writeSelfPipe⟩ :: rest }, [])
  | .writeSelfPipe, .ok =>
    some ({ s with
      selfPipe := if s.selfPipe < cfg.pipeCapacity then s.selfPipe + 1 else s.selfPipe
      handlers := ⟨f.sig, .return⟩ :: rest }, [])
  | .writeSelfPipe, .error _ => terminate s (.exit 3)
  | .return, .ok => some ({ s with handlers := rest }, [.handlerReturn f.sig])
  | .killProcessGroup, .ok =>
    some ({ s with handlers := ⟨f.sig, .kill (killTargets s)⟩ :: rest }, [.killpg .sigquit])
  | .kill (pid :: todo), .ok =>
    some ({ s with handlers := ⟨f.sig, .kill todo⟩ :: rest }, [.kill pid .sigquit])
  | .kill [], .ok =>
    some ({ s with handlers := ⟨f.sig, .exit⟩ :: rest }, [.killpgReturn .sigquit])
  | .exit, .ok => terminate s (.exit 1)
  | _, _ => none

/-! ## The whole process -/

inductive Action
  /-- The process makes its next step: in the innermost handler run if there is one, else in the
  main program. -/
  | run (o : Outcome)
  /-- A signal is sent to the process. -/
  | raise (sig : Signal)
  /-- A pending signal interrupts the process. -/
  | deliver (sig : Signal)
  /-- A child terminates. -/
  | childDies (pid : Pid) (status : WaitStatus)
  /-- Another process sets the exit flag. -/
  | setShouldExit
  deriving DecidableEq

/-- A signal is delivered when it is pending and not blocked; it is blocked during the runs of its
own handler. -/
def CanDeliver (s : State) (sig : Signal) : Prop :=
  s.terminated = none ∧ s.signalsBlocked = false ∧ s.pending sig = true ∧
    sig ∉ s.handlers.map Frame.sig

instance (s : State) (sig : Signal) : Decidable (CanDeliver s sig) :=
  inferInstanceAs (Decidable (_ ∧ _ ∧ _ ∧ _))

def step (cfg : Config) (s : State) : Action → Result
  | .run o =>
    if s.terminated = none then
      match s.handlers with
      | [] => mainStep cfg s o
      | f :: rest => handlerStep cfg s f rest o
    else none
  | .raise sig => some ({ s with pending := update s.pending sig true }, [])
  | .deliver sig =>
    if CanDeliver s sig then
      some ({ s with
        pending := update s.pending sig false
        handlers := ⟨sig, .entry⟩ :: s.handlers }, [.handlerBegin sig])
    else none
  | .childDies pid status =>
    if pid ∈ s.children.alive then
      some ({ s with
        children := s.children.exit pid status
        pending := update s.pending .sigchld true }, [.died pid])
    else none
  | .setShouldExit => some ({ s with shouldExitImmediately := true }, [])

theorem step_run_main {cfg : Config} {s : State} (hrun : s.terminated = none)
    (hh : s.handlers = []) (o : Outcome) : step cfg s (.run o) = mainStep cfg s o := by
  simp only [step, hrun, hh, if_true]

theorem step_run_handler {cfg : Config} {s : State} {f : Frame} {rest : List Frame}
    (hrun : s.terminated = none) (hh : s.handlers = f :: rest) (o : Outcome) :
    step cfg s (.run o) = handlerStep cfg s f rest o := by
  simp only [step, hrun, hh, if_true]

/-- The overseer as a machine. -/
def machine (cfg : Config) : Machine State Action Event := ⟨step cfg⟩

/-- The runs of the overseer from before the first `fork`. -/
abbrev Reach (cfg : Config) : List Event → State → Prop := (machine cfg).Reach (init cfg)

/-- A worker and the monitoring process, with room for one byte in the self-pipe. -/
def oneWorker : Config := ⟨[], 1, by decide, by decide, 1, by decide⟩

/-- The startup of `oneWorker`: the worker has the pid 10 and the monitoring process 11. -/
def startup : List Action :=
  [.run .ok, .run (.forked 10), .run .ok, .run (.forked 11), .run .ok, .run .ok, .run .ok]

/-- A `SIGTERM`, and what the overseer does until it has called `KillProcessGroup(SIGTERM)`. -/
def firstSigterm : List Action :=
  startup ++ [.raise .sigterm, .deliver .sigterm, .run .ok, .run .ok, .run .ok, .run .ok,
    .run .ready, .run .ok, .run .ok, .run .ok, .run .ok, .run .ok, .run .ok]

/-! ## What a step can do -/

/-- The steps of the main program, one constructor a branch. -/
inductive MainStep (cfg : Config) (s : State) : State → List Event → Prop
  | auxiliariesDone {index} (hpc : s.pc = .spawnAuxiliary index)
      (h : s.auxiliaryProcesses.length ≤ index) :
      MainStep cfg s { s with pc := .spawnWorker 0 } []
  | forkAuxiliary {index pid process} (hpc : s.pc = .spawnAuxiliary index)
      (hget : s.auxiliaryProcesses[index]? = some process) (hpid : process.pid = none)
      (hfresh : pid ∉ s.children.unreaped) :
      MainStep cfg s { s with
        children := s.children.fork pid hfresh
        auxiliaryProcesses := s.auxiliaryProcesses.set index ⟨process.name, some pid⟩
        auxiliaryPids := s.auxiliaryPids ++ [pid]
        pc := .spawnAuxiliary (index + 1) } [.fork pid (.auxiliary index)]
  | setPIDThrows {index pid process} (hpc : s.pc = .spawnAuxiliary index)
      (hget : s.auxiliaryProcesses[index]? = some process) (hpid : process.pid ≠ none)
      (hfresh : pid ∉ s.children.unreaped) :
      MainStep cfg s { s with
        children := s.children.fork pid hfresh
        terminated := some .abort } [.fork pid (.auxiliary index), .terminate .abort]
  | forkAuxiliaryFails {index} (hpc : s.pc = .spawnAuxiliary index) :
      MainStep cfg s { s with terminated := some (.exit 1) } [.terminate (.exit 1)]
  | workersDone {workerno} (hpc : s.pc = .spawnWorker workerno) (h : cfg.nworkers ≤ workerno) :
      MainStep cfg s { s with pc := .spawnMonitoring } []
  | forkWorker {workerno pid} (hpc : s.pc = .spawnWorker workerno) (h : workerno < cfg.nworkers)
      (hfresh : pid ∉ s.children.unreaped) :
      MainStep cfg s { s with
        children := s.children.fork pid hfresh
        workerPids := s.workerPids ++ [pid]
        pc := .spawnWorker (workerno + 1) } [.fork pid (.worker workerno)]
  | forkWorkerFails {workerno} (hpc : s.pc = .spawnWorker workerno) :
      MainStep cfg s { s with terminated := some (.exit 1) } [.terminate (.exit 1)]
  | forkMonitoring {pid} (hpc : s.pc = .spawnMonitoring) (hfresh : pid ∉ s.children.unreaped) :
      MainStep cfg s { s with
        children := s.children.fork pid hfresh
        monitoringProcessPid := some pid
        pc := .setSignalHandlers } [.fork pid .monitoring]
  | throws {syscall e} (hpc : s.pc = .spawnMonitoring ∨ s.pc = .setSignalHandlers ∨
        s.pc = .setProcessTitle ∨ s.pc = .select ∨ s.pc = .drainSelfPipe ∨ s.pc = .waitpid) :
      MainStep cfg s { s with pc := .catchSyscall syscall e } []
  | setSignalHandlers (hpc : s.pc = .setSignalHandlers) :
      MainStep cfg s { s with pc := .unblockSignals } []
  | unblockSignals (hpc : s.pc = .unblockSignals) :
      MainStep cfg s { s with signalsBlocked := false, pc := .setProcessTitle } []
  | setProcessTitle (hpc : s.pc = .setProcessTitle) :
      MainStep cfg s { s with pc := .select } [.log .startupComplete]
  | selectReady (hpc : s.pc = .select) (h : 0 < s.selfPipe) :
      MainStep cfg s { s with pc := .drainSelfPipe } []
  | selectReturns (hpc : s.pc = .select) : MainStep cfg s { s with pc := .testFastShutdown } []
  | read (hpc : s.pc = .drainSelfPipe) (h : 0 < s.selfPipe) :
      MainStep cfg s { s with selfPipe := s.selfPipe - 10 } []
  | drained (hpc : s.pc = .drainSelfPipe) (h : s.selfPipe = 0) :
      MainStep cfg s { s with pc := .testFastShutdown } []
  | readInterrupted (hpc : s.pc = .drainSelfPipe) :
      MainStep cfg s { s with pc := .drainSelfPipe } []
  | fastRequested (hpc : s.pc = .testFastShutdown) (h : s.fastShutdown = true) :
      MainStep cfg s { s with pc := .killProcessGroup .sigquit .fastShutdown } [.log .fastShutdown]
  | noFastRequest (hpc : s.pc = .testFastShutdown) (h : s.fastShutdown = false) :
      MainStep cfg s { s with pc := .testSmartShutdown } []
  | smartRequested (hpc : s.pc = .testSmartShutdown) (h : s.smartShutdown = true) :
      MainStep cfg s { s with pc := .testForceFastShutdown } []
  | noSmartRequest (hpc : s.pc = .testSmartShutdown) (h : s.smartShutdown = false) :
      MainStep cfg s { s with pc := .waitpid } []
  | secondSmart (hpc : s.pc = .testForceFastShutdown) (h : s.forceFastShutdown = true) :
      MainStep cfg s { s with pc := .killProcessGroup .sigquit .secondSmartShutdown }
        [.log .secondSmartShutdown]
  | firstSmart (hpc : s.pc = .testForceFastShutdown) (h : s.forceFastShutdown = false) :
      MainStep cfg s { s with pc := .killProcessGroup .sigterm .smartShutdown }
        [.log .smartShutdown]
  | killpg {sig caller} (hpc : s.pc = .killProcessGroup sig caller) :
      MainStep cfg s { s with pc := .kill sig (killTargets s) caller } [.killpg sig]
  | kill {sig pid todo caller} (hpc : s.pc = .kill sig (pid :: todo) caller) :
      MainStep cfg s { s with pc := .kill sig todo caller } [.kill pid sig]
  | killpgReturn {sig caller} (hpc : s.pc = .kill sig [] caller) :
      MainStep cfg s { s with pc := afterKill caller } [.killpgReturn sig]
  | clearFastShutdown (hpc : s.pc = .clearFastShutdown) :
      MainStep cfg s { s with fastShutdown := false, pc := .waitpid } []
  | clearSmartShutdown {caller} (hpc : s.pc = .clearSmartShutdown caller) :
      MainStep cfg s { s with smartShutdown := false, pc := afterClearSmart caller } []
  | setForceFastShutdown (hpc : s.pc = .setForceFastShutdown) :
      MainStep cfg s { s with forceFastShutdown := true, pc := .waitpid } []
  | reap {pid} (hpc : s.pc = .waitpid) (h : pid ∈ s.children.zombies) :
      MainStep cfg s { s with
        children := s.children.reap pid
        pc := .handleChildProcessDeath pid (s.children.status pid) } [.reap pid]
  | nothingToReap (hpc : s.pc = .waitpid) (hu : s.children.unreaped ≠ ∅)
      (hz : s.children.zombies = ∅) : MainStep cfg s { s with pc := .select } []
  | noChildren (hpc : s.pc = .waitpid) (h : s.children.unreaped = ∅) :
      MainStep cfg s { s with terminated := some (.exit 0) }
        [.log .shuttingDown, .terminate (.exit 0)]
  | waitInterrupted (hpc : s.pc = .waitpid) : MainStep cfg s { s with pc := .waitpid } []
  | handleDeath {pid status} (hpc : s.pc = .handleChildProcessDeath pid status) :
      MainStep cfg s { s with pc := Overseer.handleChildProcessDeath s pid status } []
  | expectedDeath {found pid status} (hpc : s.pc = .testShutdown found pid status)
      (h : s.shutdown = true) : MainStep cfg s { s with pc := .erase found pid } []
  | unexpectedDeath {found pid status process} (hpc : s.pc = .testShutdown found pid status)
      (h : s.shutdown = false) :
      MainStep cfg s { s with pc := .handleUnexpectedDeath process pid status } []
  | noAuxiliaryProcess {pid status} (hpc : s.pc = .testShutdown .auxiliary pid status)
      (h : s.shutdown = false) (hfind : ∀ process ∈ s.auxiliaryProcesses, process.pid ≠ some pid) :
      MainStep cfg s { s with terminated := some .abort } [.terminate .abort]
  | erase {found pid} (hpc : s.pc = .erase found pid) :
      MainStep cfg s (Overseer.erase s found pid) []
  | setShouldExit {yes no} (hpc : (∃ process pid status,
        s.pc = .handleUnexpectedDeath process pid status ∧
          yes = .logUnexpectedDeath process pid status ∧
          no = .killProcessGroup .sigquit (.unexpectedDeath pid)) ∨
        (∃ pid status, s.pc = .unknownChild pid status ∧ yes = .logUnknownChild pid status ∧
          no = .logUnknownChild pid status) ∨
        ∃ syscall e, s.pc = .catchSyscall syscall e ∧ yes = .logSyscall syscall e ∧
          no = .killProcessGroup .sigquit .main) :
      MainStep cfg s { s with
        shouldExitImmediately := true
        pc := if s.shouldExitImmediately then no else yes }
        [.setShouldExit (!s.shouldExitImmediately)]
  | logUnexpectedDeath {process pid status} (hpc : s.pc = .logUnexpectedDeath process pid status) :
      MainStep cfg s { s with pc := .killProcessGroup .sigquit (.unexpectedDeath pid) }
        [.log (.childDied process pid status)]
  | logUnknownChild {pid status} (hpc : s.pc = .logUnknownChild pid status) :
      MainStep cfg s { s with terminated := some (.exit 1) }
        [.log (.unknownChild pid status), .terminate (.exit 1)]
  | logSyscall {syscall e} (hpc : s.pc = .logSyscall syscall e) :
      MainStep cfg s { s with pc := .killProcessGroup .sigquit .main }
        [.log (.syscallFailed syscall e)]
  | exit {caller} (hpc : s.pc = .exit caller) :
      MainStep cfg s { s with terminated := some (.exit 1) } [.terminate (.exit 1)]

/-- The steps of `HandleParentSignal`. -/
inductive HandlerStep (cfg : Config) (s : State) (rest : List Frame) :
    Frame → State → List Event → Prop
  | sigquit : HandlerStep cfg s rest ⟨.sigquit, .entry⟩
      { s with handlers := ⟨.sigquit, .killProcessGroup⟩ :: rest } []
  | sigterm : HandlerStep cfg s rest ⟨.sigterm, .entry⟩
      { s with smartShutdown := true, handlers := ⟨.sigterm, .setShutdown⟩ :: rest } []
  | sigint : HandlerStep cfg s rest ⟨.sigint, .entry⟩
      { s with fastShutdown := true, handlers := ⟨.sigint, .setShutdown⟩ :: rest } []
  | sigchld : HandlerStep cfg s rest ⟨.sigchld, .entry⟩
      { s with handlers := ⟨.sigchld, .writeSelfPipe⟩ :: rest } []
  | setShutdown {sig} : HandlerStep cfg s rest ⟨sig, .setShutdown⟩
      { s with shutdown := true, handlers := ⟨sig, .writeSelfPipe⟩ :: rest } []
  | write {sig n} (hle : s.selfPipe ≤ n) (hpos : 0 < n) :
      HandlerStep cfg s rest ⟨sig, .writeSelfPipe⟩
        { s with selfPipe := n, handlers := ⟨sig, .return⟩ :: rest } []
  | writeFails {sig} : HandlerStep cfg s rest ⟨sig, .writeSelfPipe⟩
      { s with terminated := some (.exit 3) } [.terminate (.exit 3)]
  | return {sig} : HandlerStep cfg s rest ⟨sig, .return⟩
      { s with handlers := rest } [.handlerReturn sig]
  | killpg {sig} : HandlerStep cfg s rest ⟨sig, .killProcessGroup⟩
      { s with handlers := ⟨sig, .kill (killTargets s)⟩ :: rest } [.killpg .sigquit]
  | kill {sig pid todo} : HandlerStep cfg s rest ⟨sig, .kill (pid :: todo)⟩
      { s with handlers := ⟨sig, .kill todo⟩ :: rest } [.kill pid .sigquit]
  | killpgReturn {sig} : HandlerStep cfg s rest ⟨sig, .kill []⟩
      { s with handlers := ⟨sig, .exit⟩ :: rest } [.killpgReturn .sigquit]
  | exit {sig} : HandlerStep cfg s rest ⟨sig, .exit⟩
      { s with terminated := some (.exit 1) } [.terminate (.exit 1)]

/-- What happens to the overseer in one action. -/
inductive Step (cfg : Config) (s : State) : Action → State → List Event → Prop
  | main {o s' es} (hrun : s.terminated = none) (hh : s.handlers = [])
      (h : MainStep cfg s s' es) : Step cfg s (.run o) s' es
  | handler {o f rest s' es} (hrun : s.terminated = none) (hh : s.handlers = f :: rest)
      (h : HandlerStep cfg s rest f s' es) : Step cfg s (.run o) s' es
  | raise {sig} : Step cfg s (.raise sig) { s with pending := update s.pending sig true } []
  | deliver {sig} (h : CanDeliver s sig) : Step cfg s (.deliver sig)
      { s with pending := update s.pending sig false, handlers := ⟨sig, .entry⟩ :: s.handlers }
      [.handlerBegin sig]
  | childDies {pid status} (h : pid ∈ s.children.alive) : Step cfg s (.childDies pid status)
      { s with
        children := s.children.exit pid status
        pending := update s.pending .sigchld true } [.died pid]
  | setShouldExit : Step cfg s .setShouldExit { s with shouldExitImmediately := true } []

variable {cfg : Config} {s s' : State} {es : List Event}

theorem handlerStep_cases {f : Frame} {rest : List Frame} {o : Outcome}
    (h : handlerStep cfg s f rest o = some (s', es)) : HandlerStep cfg s rest f s' es := by
  obtain ⟨sig, pc⟩ := f
  unfold handlerStep at h
  split at h <;> simp only [terminate, Option.some.injEq, Prod.mk.injEq, reduceCtorEq] at h
  case h_1 =>
    rename_i hpc
    cases hpc
    cases sig <;> simp only [Option.some.injEq, Prod.mk.injEq] at h <;>
      obtain ⟨rfl, rfl⟩ := h <;> constructor
  case h_3 hpc =>
    cases hpc
    obtain ⟨rfl, rfl⟩ := h
    have := cfg.pipeCapacity_pos
    exact .write (by split <;> omega) (by split <;> omega)
  all_goals
    rename_i hpc
    cases hpc
    obtain ⟨rfl, rfl⟩ := h
    constructor

theorem AuxiliaryProcess.setPID_cases (process : AuxiliaryProcess) (pid : Pid) :
    (process.pid ≠ none ∧ process.setPID pid = none) ∨
      (process.pid = none ∧ process.setPID pid = some ⟨process.name, some pid⟩) := by
  rcases process with ⟨name, _ | p⟩
  · exact Or.inr ⟨rfl, rfl⟩
  · exact Or.inl ⟨by simp, rfl⟩

theorem spawnAuxiliaryProcess_cases {index : ℕ} {o : Outcome} (hpc : s.pc = .spawnAuxiliary index)
    (h : spawnAuxiliaryProcess s index o = some (s', es)) : MainStep cfg s s' es := by
  cases o <;> simp only [spawnAuxiliaryProcess, goto, terminate, reduceCtorEq] at h
  case ok =>
    split at h
    · cases h
    · obtain ⟨rfl, rfl⟩ := Prod.mk.inj (Option.some.inj h)
      exact .auxiliariesDone hpc (by omega)
  case error =>
    split at h
    · obtain ⟨rfl, rfl⟩ := Prod.mk.inj (Option.some.inj h)
      exact .forkAuxiliaryFails hpc
    · cases h
  case forked pid =>
    split at h
    · cases h
    · rename_i process hget
      split at h
      · rename_i hfresh
        rcases process.setPID_cases pid with ⟨hpid, hset⟩ | ⟨hpid, hset⟩ <;>
          rw [hset] at h <;> obtain ⟨rfl, rfl⟩ := Prod.mk.inj (Option.some.inj h)
        · exact .setPIDThrows hpc hget hpid hfresh
        · exact .forkAuxiliary hpc hget hpid hfresh
      · cases h

theorem spawnWorker_cases {workerno : ℕ} {o : Outcome} (hpc : s.pc = .spawnWorker workerno)
    (h : spawnWorker cfg s workerno o = some (s', es)) : MainStep cfg s s' es := by
  cases o <;> simp only [spawnWorker, goto, terminate, reduceCtorEq] at h
  case ok =>
    split at h
    · cases h
    · obtain ⟨rfl, rfl⟩ := Prod.mk.inj (Option.some.inj h)
      exact .workersDone hpc (by omega)
  case error =>
    split at h
    · obtain ⟨rfl, rfl⟩ := Prod.mk.inj (Option.some.inj h)
      exact .forkWorkerFails hpc
    · cases h
  case forked pid =>
    split at h
    · rename_i hlt
      split at h
      · rename_i hfresh
        obtain ⟨rfl, rfl⟩ := Prod.mk.inj (Option.some.inj h)
        exact .forkWorker hpc hlt hfresh
      · cases h
    · cases h

theorem spawnMonitoringProcess_cases {o : Outcome} (hpc : s.pc = .spawnMonitoring)
    (h : spawnMonitoringProcess s o = some (s', es)) : MainStep cfg s s' es := by
  cases o <;> simp only [spawnMonitoringProcess, goto, reduceCtorEq] at h
  case error =>
    obtain ⟨rfl, rfl⟩ := Prod.mk.inj (Option.some.inj h)
    exact .throws (Or.inl hpc)
  case forked pid =>
    split at h
    · rename_i hfresh
      obtain ⟨rfl, rfl⟩ := Prod.mk.inj (Option.some.inj h)
      exact .forkMonitoring hpc hfresh
    · cases h

theorem select_cases {o : Outcome} (hpc : s.pc = .select)
    (h : select s o = some (s', es)) : MainStep cfg s s' es := by
  cases o <;> simp only [select, goto, reduceCtorEq] at h
  case ready =>
    split at h
    · obtain ⟨rfl, rfl⟩ := Prod.mk.inj (Option.some.inj h)
      exact .selectReady hpc ‹_›
    · cases h
  case timeout =>
    split at h
    · obtain ⟨rfl, rfl⟩ := Prod.mk.inj (Option.some.inj h)
      exact .selectReturns hpc
    · cases h
  case interrupted =>
    obtain ⟨rfl, rfl⟩ := Prod.mk.inj (Option.some.inj h)
    exact .selectReturns hpc
  case error =>
    obtain ⟨rfl, rfl⟩ := Prod.mk.inj (Option.some.inj h)
    exact .throws (by simp [hpc])

theorem drainSelfPipe_cases {o : Outcome} (hpc : s.pc = .drainSelfPipe)
    (h : drainSelfPipe s o = some (s', es)) : MainStep cfg s s' es := by
  cases o <;> simp only [drainSelfPipe, goto, reduceCtorEq] at h
  case ok =>
    split at h <;> obtain ⟨rfl, rfl⟩ := Prod.mk.inj (Option.some.inj h)
    · exact .read hpc ‹_›
    · exact .drained hpc (by omega)
  case interrupted =>
    obtain ⟨rfl, rfl⟩ := Prod.mk.inj (Option.some.inj h)
    exact .readInterrupted hpc
  case error =>
    obtain ⟨rfl, rfl⟩ := Prod.mk.inj (Option.some.inj h)
    exact .throws (by simp [hpc])

theorem waitpid_cases {o : Outcome} (hpc : s.pc = .waitpid)
    (h : waitpid s o = some (s', es)) : MainStep cfg s s' es := by
  cases o <;> simp only [waitpid, goto, reduceCtorEq] at h
  case wait report =>
    split at h
    · rename_i hr
      cases report <;> obtain ⟨rfl, rfl⟩ := Prod.mk.inj (Option.some.inj h)
      case child => exact .reap hpc hr
      case none => exact .nothingToReap hpc hr.1 hr.2
      case noChild => exact .noChildren hpc hr
    · cases h
  case interrupted =>
    obtain ⟨rfl, rfl⟩ := Prod.mk.inj (Option.some.inj h)
    exact .waitInterrupted hpc
  case error =>
    obtain ⟨rfl, rfl⟩ := Prod.mk.inj (Option.some.inj h)
    exact .throws (by simp [hpc])

theorem testShutdown_cases {found : Found} {pid : Pid} {status : WaitStatus}
    (hpc : s.pc = .testShutdown found pid status)
    (h : testShutdown s found pid status = some (s', es)) : MainStep cfg s s' es := by
  unfold testShutdown at h
  split at h
  · obtain ⟨rfl, rfl⟩ := Prod.mk.inj (Option.some.inj h)
    exact .expectedDeath hpc ‹_›
  · rename_i hs
    rw [Bool.not_eq_true] at hs
    cases found
    case auxiliary =>
      simp only at h
      split at h <;> obtain ⟨rfl, rfl⟩ := Prod.mk.inj (Option.some.inj h)
      · rename_i hfind
        exact .noAuxiliaryProcess hpc hs (by simpa using hfind)
      · exact .unexpectedDeath hpc hs
    all_goals
      obtain ⟨rfl, rfl⟩ := Prod.mk.inj (Option.some.inj h)
      exact .unexpectedDeath hpc hs

/-- **What a step of the main program can do.** -/
theorem mainStep_cases {o : Outcome} (h : mainStep cfg s o = some (s', es)) :
    MainStep cfg s s' es := by
  unfold mainStep at h
  split at h
  case h_1 index o hpc => exact spawnAuxiliaryProcess_cases hpc h
  case h_2 workerno o hpc => exact spawnWorker_cases hpc h
  case h_3 o hpc => exact spawnMonitoringProcess_cases hpc h
  case h_9 o hpc => exact select_cases hpc h
  case h_10 o hpc => exact drainSelfPipe_cases hpc h
  case h_20 o hpc => exact waitpid_cases hpc h
  case h_22 hpc => exact testShutdown_cases hpc h
  case h_31 => cases h
  case h_11 hpc =>
    split at h <;> obtain ⟨rfl, rfl⟩ := Prod.mk.inj (Option.some.inj h)
    · exact .fastRequested hpc ‹_›
    · exact .noFastRequest hpc (Bool.eq_false_of_not_eq_true ‹_›)
  case h_12 hpc =>
    obtain ⟨rfl, rfl⟩ := Prod.mk.inj (Option.some.inj h)
    split
    · exact .smartRequested hpc ‹_›
    · exact .noSmartRequest hpc (Bool.eq_false_of_not_eq_true ‹_›)
  case h_13 hpc =>
    split at h <;> obtain ⟨rfl, rfl⟩ := Prod.mk.inj (Option.some.inj h)
    · exact .secondSmart hpc ‹_›
    · exact .firstSmart hpc (Bool.eq_false_of_not_eq_true ‹_›)
  all_goals obtain ⟨rfl, rfl⟩ := Prod.mk.inj (Option.some.inj h)
  case h_4 hpc => exact .setSignalHandlers hpc
  case h_5 hpc => exact .throws (by simp [hpc])
  case h_6 hpc => exact .unblockSignals hpc
  case h_7 hpc => exact .setProcessTitle hpc
  case h_8 hpc => exact .throws (by simp [hpc])
  case h_14 hpc => exact .killpg hpc
  case h_15 hpc => exact .kill hpc
  case h_16 hpc => exact .killpgReturn hpc
  case h_17 hpc => exact .clearFastShutdown hpc
  case h_18 hpc => exact .clearSmartShutdown hpc
  case h_19 hpc => exact .setForceFastShutdown hpc
  case h_21 hpc => exact .handleDeath hpc
  case h_23 hpc => exact .erase hpc
  case h_24 process pid status hpc => exact .setShouldExit (Or.inl ⟨_, _, _, hpc, rfl, rfl⟩)
  case h_25 hpc => exact .logUnexpectedDeath hpc
  case h_26 hpc => exact .setShouldExit (Or.inr (Or.inl ⟨_, _, hpc, rfl, rfl⟩))
  case h_27 hpc => exact .logUnknownChild hpc
  case h_28 hpc => exact .setShouldExit (Or.inr (Or.inr ⟨_, _, hpc, rfl, rfl⟩))
  case h_29 hpc => exact .logSyscall hpc
  case h_30 hpc => exact .exit hpc

/-- **What one action can do to the overseer.** -/
theorem step_cases {a : Action} (h : (machine cfg).step s a = some (s', es)) :
    Step cfg s a s' es := by
  change step cfg s a = _ at h
  cases a <;> simp only [step] at h
  case run o =>
    split at h
    · rename_i hrun
      split at h
      · rename_i hh
        exact .main hrun hh (mainStep_cases h)
      · rename_i f rest hh
        exact .handler hrun hh (handlerStep_cases h)
    · cases h
  case raise sig =>
    obtain ⟨rfl, rfl⟩ := Prod.mk.inj (Option.some.inj h)
    exact .raise
  case setShouldExit =>
    obtain ⟨rfl, rfl⟩ := Prod.mk.inj (Option.some.inj h)
    exact .setShouldExit
  all_goals
    split at h
    · obtain ⟨rfl, rfl⟩ := Prod.mk.inj (Option.some.inj h)
      constructor
      assumption
    · cases h

/-! ## The living children -/

theorem alive_mainStep (h : MainStep cfg s s' es) (pid : Pid) :
    pid ∈ s'.children.alive ↔ pid ∈ s.children.alive ∨ ∃ child, .fork pid child ∈ es := by
  cases h with
  | forkAuxiliary | setPIDThrows | forkWorker | forkMonitoring => simp [or_comm]
  | @erase found => cases found <;> simp [Overseer.erase]
  | _ => simp

/-- Forks of its own are all that the overseer does to the set of its living children. -/
theorem alive_run {o : Outcome} (h : Step cfg s (.run o) s' es) (pid : Pid) :
    pid ∈ s'.children.alive ↔ pid ∈ s.children.alive ∨ ∃ child, .fork pid child ∈ es := by
  cases h with
  | main _ _ h => exact alive_mainStep h pid
  | handler _ _ h => cases h <;> simp

end BladePSGI.Overseer
