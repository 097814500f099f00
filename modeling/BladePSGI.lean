import BladePSGI.Foundations.Transition
import BladePSGI.Foundations.ProcessTable
import BladePSGI.Foundations.Once
import BladePSGI.Foundations.Memory
import BladePSGI.Foundations.Text
import BladePSGI.Foundations.Nesting
import BladePSGI.Foundations.FileSystem
import BladePSGI.Foundations.CString
import BladePSGI.Foundations.Semaphore
import BladePSGI.Foundations.Cells
import BladePSGI.Process
import BladePSGI.Overseer.State
import BladePSGI.Overseer.Step
import BladePSGI.Overseer.Bookkeeping
import BladePSGI.Overseer.Control
import BladePSGI.Overseer.KillProcessGroup
import BladePSGI.Overseer.Wakeup
import BladePSGI.Overseer.ExitStatus
import BladePSGI.Overseer.LiveChildren
import BladePSGI.Overseer.Graceful
import BladePSGI.Overseer.ExitFlag
import BladePSGI.Overseer.Spawning
import BladePSGI.Overseer.FailedFork
import BladePSGI.Shmem.SharedMemory
import BladePSGI.Shmem.Step
import BladePSGI.Shmem.WorkerStatus
import BladePSGI.Shmem.Allocation
import BladePSGI.Shmem.Exhaustion
import BladePSGI.Shmem.Header
import BladePSGI.Perl.AtomicInt64
import BladePSGI.Perl.FastCGIWrapper
import BladePSGI.Perl.Delivery
import BladePSGI.Monitoring.Statistics
import BladePSGI.Perl.Semaphore
import BladePSGI.Perl.Loader
import BladePSGI.Group.Child
import BladePSGI.Group.Step
import BladePSGI.Group.LiveChildren
import BladePSGI.Group.Requests
import BladePSGI.Group.GracefulShutdown
import BladePSGI.Group.RequestCounter
import BladePSGI.Group.Accept
import BladePSGI.Group.Orphans
import BladePSGI.Group.ExitFlag
import BladePSGI.Group.FailedFork
import BladePSGI.Group.Drain
import BladePSGI.Group.Segment
import BladePSGI.Main.SignalMask
import BladePSGI.Main.Startup
import BladePSGI.Main.Arguments
import BladePSGI.Main.UnixSocket
import BladePSGI.Main.ProcessTitle
import BladePSGI.Main.Step
import BladePSGI.Main.ExitFlag
import BladePSGI.Main.AuxiliaryProcesses
import BladePSGI.Main.Callbacks
import BladePSGI.Main.AuxiliaryCalls
import BladePSGI.Foundations.Ranking
import BladePSGI.Overseer.Termination
import BladePSGI.Group.Termination
import BladePSGI.Foundations.Moments
import BladePSGI.Monitoring.Loop
import BladePSGI.Log
import BladePSGI.Group.IdleStatus
import BladePSGI.Group.Refinement
import BladePSGI.Group.Shutdown
import BladePSGI.Perl.SemaphoreHolders
import BladePSGI.Main.Restart
import BladePSGI.Main.Usage
import BladePSGI.Perl.SharedObjects
import BladePSGI.Perl.Environment
