import Mathlib.Data.Nat.Notation

/-!
# What the processes of the group have in common

Process ids, signals, wait statuses, the ways a process ends, and the lines of the log
(`BPSGIMainApplication::Log`).
-/

namespace BladePSGI

abbrev Pid := ℕ

/-- The signals that some process of the group handles. -/
inductive Signal
  | sigterm
  | sigint
  | sigquit
  | sigchld
  deriving DecidableEq

/-- The status that `waitpid` stores. -/
inductive WaitStatus
  /-- `WIFEXITED`, with `WEXITSTATUS`. -/
  | exited (code : ℕ)
  /-- `WIFSIGNALED`, with `WTERMSIG`. -/
  | signaled (signum : ℕ)
  deriving DecidableEq

instance : Inhabited WaitStatus := ⟨.exited 0⟩

/-- How the overseer ends. -/
inductive Termination
  /-- `exit(code)` or `_exit(code)`. -/
  | exit (code : ℕ)
  /-- `abort()`, or an exception that nobody catches. -/
  | abort
  deriving DecidableEq

inductive LogSeverity
  | log
  | warning
  | error
  | fatal
  | panic
  deriving DecidableEq

/-- The calls of `Log`, with their arguments. -/
inductive LogLine
  | startingUp
  | startingWorkers
  /-- `SpawnWorkersAndAuxiliaryProcesses`, before the first `fork`. -/
  | perlInterpreterFailed (strerror : String)
  | psgiApplicationFailed (strerror : String)
  | psgiLoaderFailed (strerror : String)
  | startupComplete
  | fastShutdown
  | secondSmartShutdown
  | smartShutdown
  | shuttingDown
  /-- `HandleUnexpectedChildProcessDeath(process, pid, status)`. -/
  | childDied (process : String) (pid : Pid) (status : WaitStatus)
  | unknownChild (pid : Pid) (status : WaitStatus)
  /-- The catch clauses of `main`. -/
  | syscallFailed (syscall strerror : String)
  | runtimeError (error : String)
  | monitoringCrashed (what : String)
  | runnerDied
  /-- `SubprocessInit`. -/
  | prctlFailed (strerror : String)
  | perlException (strerror : String)
  | auxiliaryReturned (name : String)
  | auxiliaryPerlException (strerror : String)
  deriving DecidableEq

namespace LogLine

def severity : LogLine → LogSeverity
  | .startingUp | .startingWorkers | .startupComplete | .fastShutdown | .secondSmartShutdown
  | .smartShutdown | .shuttingDown => .log
  | .childDied .. => .panic
  | .unknownChild .. | .syscallFailed .. | .runtimeError _ | .monitoringCrashed _ | .runnerDied =>
    .fatal
  | .prctlFailed _ => .warning
  | .perlInterpreterFailed _ | .psgiApplicationFailed _ | .psgiLoaderFailed _ | .perlException _
  | .auxiliaryReturned _ | .auxiliaryPerlException _ => .error

/-- The line says why the whole group ends. -/
def isFatal (line : LogLine) : Bool :=
  match line.severity with
  | .fatal | .panic => true
  | _ => false

end LogLine

end BladePSGI
