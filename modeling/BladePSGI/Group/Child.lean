import BladePSGI.Process

/-!
# The programs of the children

What a child does from its `fork` on, as a function of its own state and of what the kernel and the
Perl interpreter answer (`Outcome`): `BPSGIWorker::Run`, `BPSGIAuxiliaryProcess::Run` and
`BPSGIMonitoring::Run`, with what becomes of the exceptions that leave them. `step` is the next step
of the program, `handle` the arrival of a signal. A step emits at most one event; an event is also
what the step does outside of the process.

A `SyscallException` is no `std::exception`. In a worker or an auxiliary process it is on its way to
`main` when the destructor of the Perl interpreter, on which nobody has called `Destroy`, ends the
process with `_exit(1)`; in the monitoring process, which has no interpreter left, it gets there.

`Worker.step_cases`, `Auxiliary.step_cases` and `Monitoring.step_cases` say once what the steps can
do.
-/

namespace BladePSGI.Group

/-- What the kernel and the Perl interpreter answer to a step of a child. -/
inductive Outcome
  | ok
  /-- `select` finds the socket readable. -/
  | ready
  | timeout
  /-- The call fails with `EINTR`, or `accept` with `ECONNABORTED`. -/
  | interrupted
  /-- The call fails otherwise. -/
  | fails (strerror : String)
  /-- A `std::exception` is thrown. -/
  | exception (what : String)
  /-- The callback dies. -/
  | perlException (strerror : String)
  /-- The callback dies, and `$@` is false. -/
  | falseException
  deriving DecidableEq

/-- What a child does. -/
inductive ChildEvent
  /-- `prctl(PR_SET_PDEATHSIG, SIGQUIT)`. -/
  | setDeathSignal
  | unblockSignals
  | setWorkerStatus (workerno : ℕ) (status : Char)
  /-- `main_callback.Call()` begins. -/
  | callBegin
  /-- `Accept` returns a request. -/
  | accepted
  /-- `Accept` returns a negative number. -/
  | notAccepted
  /-- `Finish` returns. -/
  | finished
  /-- The callback dies, and `bladepsgi_perl_callback_call` does not notice. -/
  | diedUnnoticed
  | increaseRequestCounter
  /-- `SetShouldExitImmediately()`, with its result. -/
  | setShouldExit (changed : Bool)
  | log (line : LogLine)
  | killpg (sig : Signal)
  | kill (pid : Pid) (sig : Signal)
  | killpgReturn (sig : Signal)
  | terminate (status : WaitStatus)
  deriving DecidableEq

/-! ## The common beginning -/

/-- `SubprocessInit`, the calls of `SetSignalHandler`, and `UnblockSignals`. -/
inductive InitPc
  | prctl
  | setProcessTitle
  | setSignalHandlers
  | unblockSignals
  deriving DecidableEq

/-- Where a step of the beginning leads. -/
inductive InitNext
  | next (pc : InitPc)
  | done
  | throws (syscall strerror : String)

def initStep : InitPc → Outcome → Option (InitNext × Option ChildEvent)
  | .prctl, .ok => some (.next .setProcessTitle, some .setDeathSignal)
  | .prctl, .fails e => some (.next .setProcessTitle, some (.log (.prctlFailed e)))
  | .setProcessTitle, .ok => some (.next .setSignalHandlers, none)
  | .setProcessTitle, .fails e => some (.throws "prctl" e, none)
  | .setSignalHandlers, .ok => some (.next .unblockSignals, none)
  | .setSignalHandlers, .fails e => some (.throws "sigaction" e, none)
  | .unblockSignals, .ok => some (.done, some .unblockSignals)
  | _, _ => none

/-! ## Workers -/

namespace Worker

inductive Pc
  | init (pc : InitPc)
  /-- The head of `MainLoopIteration`: the test of the exit flag. -/
  | testShouldExit
  /-- The test of `_worker_terminated`. -/
  | testTerminated
  | setWorkerStatus
  | call
  /-- In the callback, before `Accept`. -/
  | accept
  /-- Blocked in `Accept`. -/
  | accepting
  /-- In `Accept`, after a signal handler has interrupted it. -/
  | acceptInterrupted
  /-- The application runs and the response is sent. -/
  | serve
  | finish
  /-- The callback has returned `1`, or `-1` if `Accept` has failed, or it has died with a false
  `$@`; for `bladepsgi_perl_callback_call`, which discards the result and tests `$@`, it is all the
  same. -/
  | increaseRequestCounter
  | logException (strerror : String)
  | exit
  /-- A `SyscallException` has left `Run`. -/
  | unwinding
  deriving DecidableEq

end Worker

/-- `BPSGIWorker`. -/
structure Worker where
  workerno : ℕ
  pc : Worker.Pc
  /-- `_worker_terminated`. -/
  terminated : Bool
  deriving DecidableEq

namespace Worker

/-- What a step leads to. -/
abbrev Result := Option (Worker × Option ChildEvent)

def goto (w : Worker) (pc : Pc) (e : Option ChildEvent) : Result := some ({ w with pc }, e)

def terminate (w : Worker) (status : WaitStatus) : Result := some (w, some (.terminate status))

/-- The exceptions that can leave the callback. -/
def throws (w : Worker) : Outcome → Result
  | .perlException e => w.goto (.logException e) none
  -- `bladepsgi_perl_callback_call` returns `0`
  | .falseException => w.goto .increaseRequestCounter (some .diedUnnoticed)
  | .fails _ => w.goto .unwinding none
  -- `RunWorker` calls `abort()`
  | .exception _ => w.terminate (.signaled 6)
  | _ => none

/-- `Run`, with `shouldExit` for the exit flag. -/
def step (w : Worker) (shouldExit : Bool) (o : Outcome) : Result :=
  match w.pc, o with
  | .init pc, o =>
    match initStep pc o with
    | none => none
    | some (.next pc, e) => w.goto (.init pc) e
    | some (.done, e) => w.goto .testShouldExit e
    | some (.throws _ _, e) => w.goto .unwinding e
  | .testShouldExit, .ok =>
    if shouldExit then w.terminate (.exited 1) else w.goto .testTerminated none
  | .testTerminated, .ok =>
    if w.terminated then w.terminate (.exited 0) else w.goto .setWorkerStatus none
  | .setWorkerStatus, .ok => w.goto .call (some (.setWorkerStatus w.workerno '_'))
  | .call, .ok => w.goto .accept (some .callBegin)
  | .accept, .ok => w.goto .accepting none
  | .accepting, .ok => w.goto .serve (some .accepted)
  | .accepting, .interrupted => w.goto .increaseRequestCounter (some .notAccepted)
  | .accepting, .fails _ => w.goto .increaseRequestCounter (some .notAccepted)
  | .acceptInterrupted, .ok => w.goto .increaseRequestCounter (some .notAccepted)
  | .serve, .ok => w.goto .finish none
  | .serve, o => w.throws o
  | .finish, .ok => w.goto .increaseRequestCounter (some .finished)
  | .finish, o => w.throws o
  | .increaseRequestCounter, .ok => w.goto .testShouldExit (some .increaseRequestCounter)
  | .logException e, .ok => w.goto .exit (some (.log (.perlException e)))
  | .exit, .ok => w.terminate (.exited 1)
  | .unwinding, .ok => w.terminate (.exited 1)
  | _, _ => none

/-- `worker_sigterm_handler` and `worker_sigquit_handler`; the other signals are ignored. -/
def handle (w : Worker) : Signal → Worker × Option ChildEvent
  | .sigterm =>
    ({ w with terminated := true, pc := if w.pc = .accepting then .acceptInterrupted else w.pc },
      none)
  | .sigquit => (w, some (.terminate (.exited 2)))
  | .sigint | .sigchld => (w, none)

end Worker

/-! ## Auxiliary processes -/

namespace Auxiliary

inductive Pc
  | init (pc : InitPc)
  | call
  | logReturned
  | abort
  | logException (strerror : String)
  | exit
  /-- A `SyscallException` has left `Run`. -/
  | unwinding
  deriving DecidableEq

end Auxiliary

/-- `BPSGIAuxiliaryProcess`, in its own process. -/
structure Auxiliary where
  name : String
  pc : Auxiliary.Pc
  deriving DecidableEq

namespace Auxiliary

/-- What a step leads to. -/
abbrev Result := Option (Auxiliary × Option ChildEvent)

def goto (x : Auxiliary) (pc : Pc) (e : Option ChildEvent) : Result := some ({ x with pc }, e)

def terminate (x : Auxiliary) (status : WaitStatus) : Result := some (x, some (.terminate status))

/-- `Run`. -/
def step (x : Auxiliary) (o : Outcome) : Result :=
  match x.pc, o with
  | .init pc, o =>
    match initStep pc o with
    | none => none
    | some (.next pc, e) => x.goto (.init pc) e
    | some (.done, e) => x.goto .call e
    | some (.throws _ _, e) => x.goto .unwinding e
  | .call, .ok => x.goto .logReturned none
  | .call, .falseException => x.goto .logReturned none
  | .call, .perlException e => x.goto (.logException e) none
  | .call, .fails _ => x.goto .unwinding none
  -- nobody catches it
  | .call, .exception _ => x.terminate (.signaled 6)
  | .logReturned, .ok => x.goto .abort (some (.log (.auxiliaryReturned x.name)))
  | .abort, .ok => x.terminate (.signaled 6)
  | .logException e, .ok => x.goto .exit (some (.log (.auxiliaryPerlException e)))
  | .exit, .ok => x.terminate (.exited 1)
  | .unwinding, .ok => x.terminate (.exited 1)
  | _, _ => none

/-- `auxiliary_sigquit_handler` and the default actions. -/
def handle (x : Auxiliary) : Signal → Auxiliary × Option ChildEvent
  | .sigterm => (x, some (.terminate (.signaled 15)))
  | .sigint => (x, some (.terminate (.signaled 2)))
  | .sigquit => (x, some (.terminate (.exited 2)))
  | .sigchld => (x, none)

end Auxiliary

/-! ## The monitoring process -/

namespace Monitoring

inductive Pc
  | init (pc : InitPc)
  | allocate
  /-- The head of the loop: `RunnerDied()`. -/
  | testRunnerDied
  | runnerDied
  | logRunnerDied
  | select
  /-- In `HandleClient`. -/
  | accept
  | respond
  /-- A `std::exception` has reached the catch clause of `RunMonitoringProcess`. -/
  | crashed (what : String)
  | logCrashed (what : String)
  /-- A `SyscallException` has reached the catch clause of `main`. -/
  | catchSyscall (syscall strerror : String)
  | logSyscall (syscall strerror : String)
  | killProcessGroup
  | kill (todo : List Pid)
  | exit
  deriving DecidableEq

end Monitoring

/-- The monitoring process, with the copy of `worker_pids_` from the `fork`. Its
`monitoring_process_pid_` is still `-1`. -/
structure Monitoring where
  workerPids : List Pid
  pc : Monitoring.Pc
  deriving DecidableEq

namespace Monitoring

/-- What a step leads to. -/
abbrev Result := Option (Monitoring × Option ChildEvent)

def goto (m : Monitoring) (pc : Pc) (e : Option ChildEvent) : Result := some ({ m with pc }, e)

/-- `SetShouldExitImmediately`, then `yes` if it changed the flag and `no` if it did not. -/
def setShouldExitImmediately (m : Monitoring) (shouldExit : Bool) (yes no : Pc) : Result :=
  m.goto (if shouldExit then no else yes) (some (.setShouldExit (!shouldExit)))

/-- `Run`, with `runnerDied` for `RunnerDied()` and `shouldExit` for the exit flag. -/
def step (m : Monitoring) (runnerDied shouldExit : Bool) (o : Outcome) : Result :=
  match m.pc, o with
  | .init _, .exception what => m.goto (.crashed what) none
  | .init pc, o =>
    match initStep pc o with
    | none => none
    | some (.next pc, e) => m.goto (.init pc) e
    | some (.done, e) => m.goto .allocate e
    | some (.throws syscall strerror, e) => m.goto (.catchSyscall syscall strerror) e
  | .allocate, .ok => m.goto .testRunnerDied none
  | .allocate, .exception what => m.goto (.crashed what) none
  | .testRunnerDied, .ok => m.goto (if runnerDied then .runnerDied else .select) none
  | .runnerDied, .ok => m.setShouldExitImmediately shouldExit .logRunnerDied .exit
  | .logRunnerDied, .ok => m.goto .exit (some (.log .runnerDied))
  | .logRunnerDied, .exception what => m.goto (.crashed what) none
  | .select, .ready => m.goto .accept none
  | .select, .timeout => m.goto .testRunnerDied none
  | .select, .interrupted => m.goto .testRunnerDied none
  | .select, .fails e => m.goto (.catchSyscall "select" e) none
  | .accept, .ok => m.goto .respond none
  | .accept, .interrupted => m.goto .testRunnerDied none
  | .accept, .fails e => m.goto (.catchSyscall "accept" e) none
  | .accept, .exception what => m.goto (.crashed what) none
  | .respond, .ok => m.goto .testRunnerDied none
  | .respond, .fails e => m.goto (.catchSyscall "sem_getvalue" e) none
  | .respond, .exception what => m.goto (.crashed what) none
  | .crashed what, .ok => m.setShouldExitImmediately shouldExit (.logCrashed what) .killProcessGroup
  | .logCrashed what, .ok => m.goto .killProcessGroup (some (.log (.monitoringCrashed what)))
  | .catchSyscall syscall e, .ok =>
    m.setShouldExitImmediately shouldExit (.logSyscall syscall e) .killProcessGroup
  | .logSyscall syscall e, .ok => m.goto .killProcessGroup (some (.log (.syscallFailed syscall e)))
  | .killProcessGroup, .ok => m.goto (.kill m.workerPids) (some (.killpg .sigquit))
  | .kill (pid :: todo), .ok => m.goto (.kill todo) (some (.kill pid .sigquit))
  | .kill [], .ok => m.goto .exit (some (.killpgReturn .sigquit))
  | .exit, .ok => some (m, some (.terminate (.exited 1)))
  | _, _ => none

/-- `monitoring_sigquit_handler` and the default actions. -/
def handle (m : Monitoring) : Signal → Monitoring × Option ChildEvent
  | .sigterm => (m, some (.terminate (.signaled 15)))
  | .sigint => (m, some (.terminate (.signaled 2)))
  | .sigquit => (m, some (.terminate (.exited 2)))
  | .sigchld => (m, none)

end Monitoring

/-! ## What a step can do -/

/-- The steps of the common beginning. -/
inductive InitStep : InitPc → Outcome → InitNext → Option ChildEvent → Prop
  | prctl : InitStep .prctl .ok (.next .setProcessTitle) (some .setDeathSignal)
  | prctlFails {e} :
      InitStep .prctl (.fails e) (.next .setProcessTitle) (some (.log (.prctlFailed e)))
  | setProcessTitle : InitStep .setProcessTitle .ok (.next .setSignalHandlers) none
  | setProcessTitleFails {e} : InitStep .setProcessTitle (.fails e) (.throws "prctl" e) none
  | setSignalHandlers : InitStep .setSignalHandlers .ok (.next .unblockSignals) none
  | setSignalHandlersFails {e} : InitStep .setSignalHandlers (.fails e) (.throws "sigaction" e) none
  | unblockSignals : InitStep .unblockSignals .ok .done (some .unblockSignals)

theorem initStep_cases {pc : InitPc} {o : Outcome} {next : InitNext} {e : Option ChildEvent}
    (h : initStep pc o = some (next, e)) : InitStep pc o next e := by
  cases pc <;> cases o <;>
    simp only [initStep, Option.some.injEq, Prod.mk.injEq, reduceCtorEq] at h <;>
    obtain ⟨rfl, rfl⟩ := h <;> constructor

/-- An event of the beginning. -/
def ChildEvent.IsInit : ChildEvent → Prop
  | .setDeathSignal | .unblockSignals | .log _ => True
  | _ => False

theorem InitStep.isInit {pc : InitPc} {o : Outcome} {next : InitNext} {e : ChildEvent}
    (h : InitStep pc o next (some e)) : e.IsInit := by
  cases h <;> trivial

namespace Worker

/-- The callback is running. -/
def Pc.Running (pc : Pc) : Prop := pc = .serve ∨ pc = .finish

/-- The steps of a worker. -/
inductive Step (w : Worker) (shouldExit : Bool) : Outcome → Worker → Option ChildEvent → Prop
  | init {pc o pc' e} (hpc : w.pc = .init pc) (h : InitStep pc o (.next pc') e) :
      Step w shouldExit o { w with pc := .init pc' } e
  | initDone {pc o e} (hpc : w.pc = .init pc) (h : InitStep pc o .done e) :
      Step w shouldExit o { w with pc := .testShouldExit } e
  | initThrows {pc o syscall strerror e} (hpc : w.pc = .init pc)
      (h : InitStep pc o (.throws syscall strerror) e) :
      Step w shouldExit o { w with pc := .unwinding } e
  | shouldExit (hpc : w.pc = .testShouldExit) (h : shouldExit = true) :
      Step w shouldExit .ok w (some (.terminate (.exited 1)))
  | stay (hpc : w.pc = .testShouldExit) (h : shouldExit = false) :
      Step w shouldExit .ok { w with pc := .testTerminated } none
  | terminated (hpc : w.pc = .testTerminated) (h : w.terminated = true) :
      Step w shouldExit .ok w (some (.terminate (.exited 0)))
  | goOn (hpc : w.pc = .testTerminated) (h : w.terminated = false) :
      Step w shouldExit .ok { w with pc := .setWorkerStatus } none
  | setWorkerStatus (hpc : w.pc = .setWorkerStatus) :
      Step w shouldExit .ok { w with pc := .call } (some (.setWorkerStatus w.workerno '_'))
  | call (hpc : w.pc = .call) :
      Step w shouldExit .ok { w with pc := .accept } (some .callBegin)
  | accept (hpc : w.pc = .accept) : Step w shouldExit .ok { w with pc := .accepting } none
  | accepted (hpc : w.pc = .accepting) :
      Step w shouldExit .ok { w with pc := .serve } (some .accepted)
  | notAccepted {o} (hpc : w.pc = .accepting ∨ w.pc = .acceptInterrupted) :
      Step w shouldExit o { w with pc := .increaseRequestCounter } (some .notAccepted)
  | served (hpc : w.pc = .serve) : Step w shouldExit .ok { w with pc := .finish } none
  | finished (hpc : w.pc = .finish) :
      Step w shouldExit .ok { w with pc := .increaseRequestCounter } (some .finished)
  | perlException {e} (hpc : w.pc.Running) :
      Step w shouldExit (.perlException e) { w with pc := .logException e } none
  | diedUnnoticed (hpc : w.pc.Running) :
      Step w shouldExit .falseException { w with pc := .increaseRequestCounter }
        (some .diedUnnoticed)
  | fails {e} (hpc : w.pc.Running) : Step w shouldExit (.fails e) { w with pc := .unwinding } none
  | exception {what} (hpc : w.pc.Running) :
      Step w shouldExit (.exception what) w (some (.terminate (.signaled 6)))
  | increaseRequestCounter (hpc : w.pc = .increaseRequestCounter) :
      Step w shouldExit .ok { w with pc := .testShouldExit } (some .increaseRequestCounter)
  | logException {e} (hpc : w.pc = .logException e) :
      Step w shouldExit .ok { w with pc := .exit } (some (.log (.perlException e)))
  | exit (hpc : w.pc = .exit ∨ w.pc = .unwinding) :
      Step w shouldExit .ok w (some (.terminate (.exited 1)))

theorem throws_cases {w w' : Worker} {shouldExit : Bool} {o : Outcome} {e : Option ChildEvent}
    (hpc : w.pc.Running) (h : w.throws o = some (w', e)) : Step w shouldExit o w' e := by
  cases o <;>
    simp only [throws, goto, terminate, Option.some.injEq, Prod.mk.injEq, reduceCtorEq] at h <;>
    obtain ⟨rfl, rfl⟩ := h
  · exact .fails hpc
  · exact .exception hpc
  · exact .perlException hpc
  · exact .diedUnnoticed hpc

/-- **What a step of a worker can do.** -/
theorem step_cases {w w' : Worker} {shouldExit : Bool} {o : Outcome} {e : Option ChildEvent}
    (h : w.step shouldExit o = some (w', e)) : Step w shouldExit o w' e := by
  unfold step at h
  split at h
  case h_1 hpc =>
    split at h <;> rename_i hinit
    · cases h
    all_goals
      obtain ⟨rfl, rfl⟩ := Prod.mk.inj (Option.some.inj h)
    · exact .init hpc (initStep_cases hinit)
    · exact .initDone hpc (initStep_cases hinit)
    · exact .initThrows hpc (initStep_cases hinit)
  case h_2 hpc =>
    split at h <;> obtain ⟨rfl, rfl⟩ := Prod.mk.inj (Option.some.inj h)
    · exact .shouldExit hpc ‹_›
    · exact .stay hpc (Bool.eq_false_iff.2 ‹_›)
  case h_3 hpc =>
    split at h <;> obtain ⟨rfl, rfl⟩ := Prod.mk.inj (Option.some.inj h)
    · exact .terminated hpc ‹_›
    · exact .goOn hpc (Bool.eq_false_iff.2 ‹_›)
  case h_12 hpc _ => exact throws_cases (Or.inl hpc) h
  case h_14 hpc _ => exact throws_cases (Or.inr hpc) h
  case h_19 => cases h
  all_goals obtain ⟨rfl, rfl⟩ := Prod.mk.inj (Option.some.inj h)
  case h_4 hpc => exact .setWorkerStatus hpc
  case h_5 hpc => exact .call hpc
  case h_6 hpc => exact .accept hpc
  case h_7 hpc => exact .accepted hpc
  case h_8 hpc => exact .notAccepted (Or.inl hpc)
  case h_9 hpc => exact .notAccepted (Or.inl hpc)
  case h_10 hpc => exact .notAccepted (Or.inr hpc)
  case h_11 hpc => exact .served hpc
  case h_13 hpc => exact .finished hpc
  case h_15 hpc => exact .increaseRequestCounter hpc
  case h_16 hpc => exact .logException hpc
  case h_17 hpc => exact .exit (Or.inl hpc)
  case h_18 hpc => exact .exit (Or.inr hpc)

end Worker

namespace Auxiliary

/-- The steps of an auxiliary process. -/
inductive Step (x : Auxiliary) : Outcome → Auxiliary → Option ChildEvent → Prop
  | init {pc o pc' e} (hpc : x.pc = .init pc) (h : InitStep pc o (.next pc') e) :
      Step x o { x with pc := .init pc' } e
  | initDone {pc o e} (hpc : x.pc = .init pc) (h : InitStep pc o .done e) :
      Step x o { x with pc := .call } e
  | initThrows {pc o syscall strerror e} (hpc : x.pc = .init pc)
      (h : InitStep pc o (.throws syscall strerror) e) : Step x o { x with pc := .unwinding } e
  | returned {o} (hpc : x.pc = .call) : Step x o { x with pc := .logReturned } none
  | perlException {e} (hpc : x.pc = .call) :
      Step x (.perlException e) { x with pc := .logException e } none
  | fails {e} (hpc : x.pc = .call) : Step x (.fails e) { x with pc := .unwinding } none
  | exception {what} (hpc : x.pc = .call) :
      Step x (.exception what) x (some (.terminate (.signaled 6)))
  | logReturned (hpc : x.pc = .logReturned) :
      Step x .ok { x with pc := .abort } (some (.log (.auxiliaryReturned x.name)))
  | abort (hpc : x.pc = .abort) : Step x .ok x (some (.terminate (.signaled 6)))
  | logException {e} (hpc : x.pc = .logException e) :
      Step x .ok { x with pc := .exit } (some (.log (.auxiliaryPerlException e)))
  | exit (hpc : x.pc = .exit ∨ x.pc = .unwinding) : Step x .ok x (some (.terminate (.exited 1)))

/-- **What a step of an auxiliary process can do.** -/
theorem step_cases {x x' : Auxiliary} {o : Outcome} {e : Option ChildEvent}
    (h : x.step o = some (x', e)) : Step x o x' e := by
  unfold step at h
  split at h
  case h_1 hpc =>
    split at h <;> rename_i hinit
    · cases h
    all_goals
      obtain ⟨rfl, rfl⟩ := Prod.mk.inj (Option.some.inj h)
    · exact .init hpc (initStep_cases hinit)
    · exact .initDone hpc (initStep_cases hinit)
    · exact .initThrows hpc (initStep_cases hinit)
  case h_12 => cases h
  all_goals obtain ⟨rfl, rfl⟩ := Prod.mk.inj (Option.some.inj h)
  case h_2 hpc => exact .returned hpc
  case h_3 hpc => exact .returned hpc
  case h_4 hpc => exact .perlException hpc
  case h_5 hpc => exact .fails hpc
  case h_6 hpc => exact .exception hpc
  case h_7 hpc => exact .logReturned hpc
  case h_8 hpc => exact .abort hpc
  case h_9 hpc => exact .logException hpc
  case h_10 hpc => exact .exit (Or.inl hpc)
  case h_11 hpc => exact .exit (Or.inr hpc)

end Auxiliary

namespace Monitoring

/-- An exception has been thrown. `yes` and `no` are where `SetShouldExitImmediately` leads if it
has changed the flag and if it has not. -/
inductive Pc.Caught : Pc → Pc → Pc → Prop
  | runnerDied : Caught .runnerDied .logRunnerDied .exit
  | crashed {what} : Caught (.crashed what) (.logCrashed what) .killProcessGroup
  | syscall {syscall e} : Caught (.catchSyscall syscall e) (.logSyscall syscall e) .killProcessGroup

/-- The steps of the monitoring process. -/
inductive Step (m : Monitoring) (runnerDied shouldExit : Bool) :
    Outcome → Monitoring → Option ChildEvent → Prop
  | init {pc o pc' e} (hpc : m.pc = .init pc) (h : InitStep pc o (.next pc') e) :
      Step m runnerDied shouldExit o { m with pc := .init pc' } e
  | initDone {pc o e} (hpc : m.pc = .init pc) (h : InitStep pc o .done e) :
      Step m runnerDied shouldExit o { m with pc := .allocate } e
  | initThrows {pc o syscall strerror e} (hpc : m.pc = .init pc)
      (h : InitStep pc o (.throws syscall strerror) e) :
      Step m runnerDied shouldExit o { m with pc := .catchSyscall syscall strerror } e
  | throws {o pc} (hpc : m.pc = .allocate ∨ m.pc = .select ∨ m.pc = .accept ∨ m.pc = .respond ∨
        m.pc = .logRunnerDied ∨ ∃ pc, m.pc = .init pc)
      (h : (∃ e syscall, o = .fails e ∧ pc = .catchSyscall syscall e) ∨
        ∃ what, o = .exception what ∧ pc = .crashed what) :
      Step m runnerDied shouldExit o { m with pc } none
  | loop {o} (hpc : m.pc = .allocate ∨ m.pc = .select ∨ m.pc = .accept ∨ m.pc = .respond) :
      Step m runnerDied shouldExit o { m with pc := .testRunnerDied } none
  | runnerDied (hpc : m.pc = .testRunnerDied) (h : runnerDied = true) :
      Step m runnerDied shouldExit .ok { m with pc := .runnerDied } none
  | runnerLives (hpc : m.pc = .testRunnerDied) (h : runnerDied = false) :
      Step m runnerDied shouldExit .ok { m with pc := .select } none
  | ready (hpc : m.pc = .select) : Step m runnerDied shouldExit .ready { m with pc := .accept } none
  | accepted (hpc : m.pc = .accept) :
      Step m runnerDied shouldExit .ok { m with pc := .respond } none
  | setShouldExit {yes no} (hpc : m.pc.Caught yes no) :
      Step m runnerDied shouldExit .ok { m with pc := if shouldExit then no else yes }
        (some (.setShouldExit (!shouldExit)))
  | logRunnerDied (hpc : m.pc = .logRunnerDied) :
      Step m runnerDied shouldExit .ok { m with pc := .exit } (some (.log .runnerDied))
  | logCrashed {what} (hpc : m.pc = .logCrashed what) :
      Step m runnerDied shouldExit .ok { m with pc := .killProcessGroup }
        (some (.log (.monitoringCrashed what)))
  | logSyscall {syscall e} (hpc : m.pc = .logSyscall syscall e) :
      Step m runnerDied shouldExit .ok { m with pc := .killProcessGroup }
        (some (.log (.syscallFailed syscall e)))
  | killpg (hpc : m.pc = .killProcessGroup) :
      Step m runnerDied shouldExit .ok { m with pc := .kill m.workerPids } (some (.killpg .sigquit))
  | kill {pid todo} (hpc : m.pc = .kill (pid :: todo)) :
      Step m runnerDied shouldExit .ok { m with pc := .kill todo } (some (.kill pid .sigquit))
  | killpgReturn (hpc : m.pc = .kill []) :
      Step m runnerDied shouldExit .ok { m with pc := .exit } (some (.killpgReturn .sigquit))
  | exit (hpc : m.pc = .exit) : Step m runnerDied shouldExit .ok m (some (.terminate (.exited 1)))

/-- **What a step of the monitoring process can do.** -/
theorem step_cases {m m' : Monitoring} {runnerDied shouldExit : Bool} {o : Outcome}
    {e : Option ChildEvent} (h : m.step runnerDied shouldExit o = some (m', e)) :
    Step m runnerDied shouldExit o m' e := by
  unfold step at h
  split at h
  case h_2 hpc _ =>
    split at h <;> rename_i hinit
    · cases h
    all_goals
      obtain ⟨rfl, rfl⟩ := Prod.mk.inj (Option.some.inj h)
    · exact .init hpc (initStep_cases hinit)
    · exact .initDone hpc (initStep_cases hinit)
    · exact .initThrows hpc (initStep_cases hinit)
  case h_28 => cases h
  all_goals obtain ⟨rfl, rfl⟩ := Prod.mk.inj (Option.some.inj h)
  case h_1 hpc => exact .throws (by simp [hpc]) (by simp)
  case h_3 hpc => exact .loop (by simp [hpc])
  case h_4 hpc => exact .throws (by simp [hpc]) (by simp)
  case h_5 hpc =>
    cases runnerDied
    · exact .runnerLives hpc rfl
    · exact .runnerDied hpc rfl
  case h_6 hpc => exact .setShouldExit (hpc ▸ .runnerDied)
  case h_7 hpc => exact .logRunnerDied hpc
  case h_8 hpc => exact .throws (by simp [hpc]) (by simp)
  case h_9 hpc => exact .ready hpc
  case h_10 hpc => exact .loop (by simp [hpc])
  case h_11 hpc => exact .loop (by simp [hpc])
  case h_12 hpc => exact .throws (by simp [hpc]) (by simp)
  case h_13 hpc => exact .accepted hpc
  case h_14 hpc => exact .loop (by simp [hpc])
  case h_15 hpc => exact .throws (by simp [hpc]) (by simp)
  case h_16 hpc => exact .throws (by simp [hpc]) (by simp)
  case h_17 hpc => exact .loop (by simp [hpc])
  case h_18 hpc => exact .throws (by simp [hpc]) (by simp)
  case h_19 hpc => exact .throws (by simp [hpc]) (by simp)
  case h_20 hpc => exact .setShouldExit (hpc ▸ .crashed)
  case h_21 hpc => exact .logCrashed hpc
  case h_22 hpc => exact .setShouldExit (hpc ▸ .syscall)
  case h_23 hpc => exact .logSyscall hpc
  case h_24 hpc => exact .killpg hpc
  case h_25 hpc => exact .kill hpc
  case h_26 hpc => exact .killpgReturn hpc
  case h_27 hpc => exact .exit hpc

end Monitoring

end BladePSGI.Group
