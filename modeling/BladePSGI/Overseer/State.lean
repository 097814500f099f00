import BladePSGI.Foundations.ProcessTable
import BladePSGI.Process
import Mathlib.Logic.Function.Basic

/-!
# The state of the overseer

The overseer is the process that `main` runs in: `BPSGIMainApplication::Run` from the first `fork`
on, with its signal handler `HandleParentSignal`. A state holds the static flags of
`bladepsgi.cpp`, the pid lists of the application object, what the kernel keeps for the process
(its children, its pending signals, the bytes in the self-pipe), the program counter of the main
program and, above it, the stack of the signal handler runs in progress.

The parts of `Run` before the first `fork` (sockets, shared memory, the loader) happen in one
process and are not modelled here.
-/

namespace BladePSGI.Overseer

open Function

/-- What the command line and the loader decide. -/
structure Config where
  /-- The names of the requested auxiliary processes, in order. -/
  auxiliaryNames : List String
  nworkers : ℕ
  /-- `main` refuses other worker counts. -/
  nworkers_pos : 0 < nworkers
  nworkers_le : nworkers ≤ 65536
  /-- How many bytes the self-pipe holds. -/
  pipeCapacity : ℕ
  pipeCapacity_pos : 0 < pipeCapacity

/-- What a child was forked as. -/
inductive Child
  | worker (workerno : ℕ)
  | auxiliary (index : ℕ)
  | monitoring
  deriving DecidableEq

/-- `BPSGIAuxiliaryProcess`, with `none` for the pid `-1`. -/
structure AuxiliaryProcess where
  name : String
  pid : Option Pid
  deriving DecidableEq

/-- `SetPID`: `none` where it throws `std::logic_error`. -/
def AuxiliaryProcess.setPID (process : AuxiliaryProcess) (pid : Pid) : Option AuxiliaryProcess :=
  match process.pid with
  | some _ => none
  | none => some { process with pid := some pid }

/-! ## Control -/

/-- The calls of `KillProcessGroup` in the main program. -/
inductive KillCaller
  | fastShutdown
  | secondSmartShutdown
  | smartShutdown
  /-- `HandleUnexpectedChildProcessDeath`, called for the pid. -/
  | unexpectedDeath (pid : Pid)
  /-- After the catch clauses of `main`. -/
  | main
  deriving DecidableEq

/-- In which of its three lists `HandleChildProcessDeath` found the pid. -/
inductive Found
  | worker
  | auxiliary
  | monitoring
  deriving DecidableEq

/-- Where the main program stands: the step named is the next one. -/
inductive Pc
  /-- The head of the loop over `auxiliary_processes_`. -/
  | spawnAuxiliary (index : ℕ)
  /-- The head of the loop over the workers. -/
  | spawnWorker (workerno : ℕ)
  | spawnMonitoring
  | setSignalHandlers
  | unblockSignals
  | setProcessTitle
  /-- The call of `select` in the main loop. -/
  | select
  /-- The call of `read` in `DrainSelfPipe`. -/
  | drainSelfPipe
  | testFastShutdown
  | testSmartShutdown
  | testForceFastShutdown
  | killProcessGroup (sig : Signal) (caller : KillCaller)
  /-- In `KillProcessGroup`, with the pids still to be signalled. -/
  | kill (sig : Signal) (todo : List Pid) (caller : KillCaller)
  | clearFastShutdown
  | clearSmartShutdown (caller : KillCaller)
  | setForceFastShutdown
  | waitpid
  /-- `HandleChildProcessDeath` has been entered. -/
  | handleChildProcessDeath (pid : Pid) (status : WaitStatus)
  | testShutdown (found : Found) (pid : Pid) (status : WaitStatus)
  | erase (found : Found) (pid : Pid)
  /-- `HandleUnexpectedChildProcessDeath` has been entered. -/
  | handleUnexpectedDeath (process : String) (pid : Pid) (status : WaitStatus)
  | logUnexpectedDeath (process : String) (pid : Pid) (status : WaitStatus)
  | unknownChild (pid : Pid) (status : WaitStatus)
  | logUnknownChild (pid : Pid) (status : WaitStatus)
  /-- A `SyscallException` has reached the catch clause of `main`. -/
  | catchSyscall (syscall strerror : String)
  | logSyscall (syscall strerror : String)
  /-- `_exit(1)` after a call of `KillProcessGroup`. -/
  | exit (caller : KillCaller)
  deriving DecidableEq

/-- Where a run of `HandleParentSignal` stands. -/
inductive HandlerPc
  | entry
  | setShutdown
  | writeSelfPipe
  | return
  | killProcessGroup
  | kill (todo : List Pid)
  | exit
  deriving DecidableEq

/-- A signal handler run in progress. -/
structure Frame where
  sig : Signal
  pc : HandlerPc
  deriving DecidableEq

structure State where
  /-- `_mainapp_shutdown`. -/
  shutdown : Bool
  /-- `_mainapp_fast_shutdown`. -/
  fastShutdown : Bool
  /-- `_mainapp_smart_shutdown`. -/
  smartShutdown : Bool
  /-- `_mainapp_force_fast_shutdown`. -/
  forceFastShutdown : Bool
  /-- The number of bytes in the self-pipe. -/
  selfPipe : ℕ
  workerPids : List Pid
  auxiliaryPids : List Pid
  /-- `none` for `-1`. -/
  monitoringProcessPid : Option Pid
  auxiliaryProcesses : List AuxiliaryProcess
  /-- The exit flag in shared memory. -/
  shouldExitImmediately : Bool
  children : ProcessTable Pid WaitStatus
  pending : Signal → Bool
  signalsBlocked : Bool
  pc : Pc
  /-- The handler runs in progress, the innermost first. -/
  handlers : List Frame
  terminated : Option Termination

/-- The state before the first `fork`. -/
def init (cfg : Config) : State where
  shutdown := false
  fastShutdown := false
  smartShutdown := false
  forceFastShutdown := false
  selfPipe := 0
  workerPids := []
  auxiliaryPids := []
  monitoringProcessPid := none
  auxiliaryProcesses := cfg.auxiliaryNames.map (⟨·, none⟩)
  shouldExitImmediately := false
  children := .empty
  pending := fun _ => false
  signalsBlocked := true
  pc := .spawnAuxiliary 0
  handlers := []
  terminated := none

/-- What the overseer does, as the other processes, the log and the service manager see it, and
what happens to it. -/
inductive Event
  | fork (pid : Pid) (child : Child)
  /-- A child terminates. -/
  | died (pid : Pid)
  /-- `waitpid` returns the pid. -/
  | reap (pid : Pid)
  | handlerBegin (sig : Signal)
  | handlerReturn (sig : Signal)
  /-- `KillProcessGroup(sig)` is called. -/
  | killpg (sig : Signal)
  | kill (pid : Pid) (sig : Signal)
  /-- `KillProcessGroup(sig)` returns. -/
  | killpgReturn (sig : Signal)
  /-- `SetShouldExitImmediately()`, with its result. -/
  | setShouldExit (changed : Bool)
  | log (line : LogLine)
  | terminate (how : Termination)
  deriving DecidableEq

end BladePSGI.Overseer
