import BladePSGI.Foundations.Transition
import BladePSGI.Shmem.SharedMemory
import Mathlib.Logic.Function.Basic

/-!
# The processes and the segment they share

The segment is one; the `BPSGISharedMemory` object is copied by every `fork`. The runner is process
`0`: it runs the application loader, calls `LockAllocations`, and only then forks
(`SpawnWorkersAndAuxiliaryProcesses`). Creations of objects are open to every process at any time,
so are the accesses to the segment; one process at a time reads the worker statuses.
-/

namespace BladePSGI.Shmem

open Function Transition

structure State where
  segment : Memory 64
  processes : ℕ → Option SharedMemory
  /-- The runner has called `LockAllocations`. -/
  spawning : Bool
  /-- `GetAllWorkerStatuses` in progress. -/
  scan : Option Scan

/-- The state that `InitializeSharedMemory` makes of a fresh mapping. -/
def init (mapping : Memory 64) : State where
  segment := clear mapping
  processes := update (fun _ => none) 0 (some .new)
  spawning := false
  scan := none

inductive Action
  | create (process : ℕ) (call : Call) (semInit : SemInit)
  | lockAllocations
  | fork (child : ℕ)
  | setWorkerStatus (workerno : ℕ) (status : Byte)
  /-- `GetAllWorkerStatuses` is called. -/
  | scanBegin
  | scanNext
  | scanEnd
  | increaseRequestCounter
  | setShouldExitImmediately
  /-- A process changes one of its semaphores or atomics. -/
  | update (process : ℕ) (kind : Kind) (index : ℕ) (bytes : ℕ → Byte)

inductive Event
  | created (process : ℕ) (kind : Kind) (object : Object)
  | threw (process : ℕ) (error : Error)
  | locked
  | forked (child : ℕ)
  | statusStored (workerno : ℕ) (pointer : Offset) (status : Byte)
  | scanBegun
  | statusLoaded (workerno : ℕ) (pointer : Offset) (status : Byte)
  /-- What `GetAllWorkerStatuses` has written to `out`. -/
  | statuses (out : List Byte)
  | requestCounted (before : BitVec 64)
  | setShouldExit (changed : Bool)
  deriving DecidableEq

/-- What a creation reports. -/
def report (process : ℕ) (call : Call) : Except Error Offset → Event
  | .ok pointer => .created process call.kind ⟨pointer, call.name⟩
  | .error e => .threw process e

/-- The steps of the processes, of `nworkers` workers. -/
def step (nworkers : ℕ) (s : State) : Action → Option (State × List Event)
  | .create process call semInit =>
    match s.processes process with
    | none => none
    | some shmem =>
      let (shmem', segment, result) := create shmem s.segment semInit call
      some ({ s with segment, processes := Function.update s.processes process (some shmem') },
        [report process call result])
  | .lockAllocations =>
    if s.spawning then none
    else
      match s.processes 0 with
      | none => none
      | some shmem =>
        match shmem.lockAllocations with
        | none => none
        | some shmem' =>
          some ({ s with
              processes := Function.update s.processes 0 (some shmem'), spawning := true },
            [.locked])
  | .fork child =>
    if s.spawning ∧ s.processes child = none then
      some ({ s with processes := Function.update s.processes child (s.processes 0) },
        [.forked child])
    else none
  | .setWorkerStatus workerno status =>
    if workerno < nworkers then
      some ({ s with segment := setWorkerStatus s.segment workerno status },
        [.statusStored workerno (workerStatusPointer workerno) status])
    else none
  | .scanBegin =>
    match s.scan with
    | none => some ({ s with scan := some .start }, [.scanBegun])
    | some _ => none
  | .scanNext =>
    match s.scan with
    | none => none
    | some scan =>
      if scan.out.length < nworkers then
        some ({ s with scan := some (scan.next s.segment) },
          [.statusLoaded scan.out.length scan.mem (s.segment scan.mem)])
      else none
  | .scanEnd =>
    match s.scan with
    | none => none
    | some scan =>
      if scan.out.length < nworkers then none
      else some ({ s with scan := none }, [.statuses scan.out])
  | .increaseRequestCounter =>
    let (segment, before) := increaseRequestCounter s.segment
    some ({ s with segment }, [.requestCounted before])
  | .setShouldExitImmediately =>
    let (segment, changed) := setShouldExitImmediately s.segment
    some ({ s with segment }, [.setShouldExit changed])
  | .update process kind index bytes =>
    match s.processes process with
    | none => none
    | some shmem =>
      match (shmem.objects kind)[index]? with
      | none => none
      | some object => some ({ s with segment := s.segment.write (object.block kind) bytes }, [])

def machine (nworkers : ℕ) : Machine State Action Event := ⟨step nworkers⟩

/-- The runs on a fresh segment. -/
abbrev Reach (nworkers : ℕ) (mapping : Memory 64) : List Event → State → Prop :=
  (machine nworkers).Reach (init mapping)

/-! ## What a step can do -/

inductive Step (nworkers : ℕ) (s : State) : Action → State → List Event → Prop
  | create {process call semInit shmem shmem' segment result}
      (hp : s.processes process = some shmem)
      (h : Creates shmem s.segment call shmem' segment result) :
      Step nworkers s (.create process call semInit)
        { s with segment, processes := Function.update s.processes process (some shmem') }
        [report process call result]
  | lock {shmem} (hs : s.spawning = false) (hp : s.processes 0 = some shmem)
      (hlock : shmem.locked = false) :
      Step nworkers s .lockAllocations
        { s with
          processes := Function.update s.processes 0 (some { shmem with locked := true })
          spawning := true } [.locked]
  | fork {child} (hs : s.spawning = true) (hp : s.processes child = none) :
      Step nworkers s (.fork child)
        { s with processes := Function.update s.processes child (s.processes 0) } [.forked child]
  | setWorkerStatus {workerno status} (h : workerno < nworkers) :
      Step nworkers s (.setWorkerStatus workerno status)
        { s with segment := Shmem.setWorkerStatus s.segment workerno status }
        [.statusStored workerno (workerStatusPointer workerno) status]
  | scanBegin (h : s.scan = none) :
      Step nworkers s .scanBegin { s with scan := some .start } [.scanBegun]
  | scanNext {scan} (h : s.scan = some scan) (hlt : scan.out.length < nworkers) :
      Step nworkers s .scanNext { s with scan := some (scan.next s.segment) }
        [.statusLoaded scan.out.length scan.mem (s.segment scan.mem)]
  | scanEnd {scan} (h : s.scan = some scan) (hle : nworkers ≤ scan.out.length) :
      Step nworkers s .scanEnd { s with scan := none } [.statuses scan.out]
  | increaseRequestCounter :
      Step nworkers s .increaseRequestCounter
        { s with segment := (Shmem.increaseRequestCounter s.segment).1 }
        [.requestCounted (readRequestCounter s.segment)]
  | setShouldExitImmediately :
      Step nworkers s .setShouldExitImmediately
        { s with segment := (Shmem.setShouldExitImmediately s.segment).1 }
        [.setShouldExit (Shmem.setShouldExitImmediately s.segment).2]
  | update {process kind index bytes shmem object} (hp : s.processes process = some shmem)
      (hobject : object ∈ shmem.objects kind) :
      Step nworkers s (.update process kind index bytes)
        { s with segment := s.segment.write (object.block kind) bytes } []

/-- **What a step can do.** -/
theorem step_cases {nworkers : ℕ} {s s' : State} {a : Action} {es : List Event}
    (h : (machine nworkers).step s a = some (s', es)) : Step nworkers s a s' es := by
  change step nworkers s a = _ at h
  cases a <;> simp only [step] at h
  case create process call semInit =>
    split at h
    · cases h
    · rename_i shmem hp
      obtain ⟨rfl, rfl⟩ := Prod.mk.inj (Option.some.inj h)
      exact .create hp (create_cases shmem s.segment semInit call)
  case lockAllocations =>
    split at h
    · cases h
    · rename_i hs
      rw [Bool.not_eq_true] at hs
      split at h
      · cases h
      · rename_i shmem hp
        split at h
        · cases h
        · rename_i shmem' hlock
          unfold SharedMemory.lockAllocations at hlock
          split at hlock
          · cases hlock
          · rename_i hunlocked
            obtain rfl := Option.some.inj hlock
            obtain ⟨rfl, rfl⟩ := Prod.mk.inj (Option.some.inj h)
            exact .lock hs hp (Bool.eq_false_iff.2 hunlocked)
  case fork child =>
    split at h
    · rename_i hc
      obtain ⟨rfl, rfl⟩ := Prod.mk.inj (Option.some.inj h)
      exact .fork hc.1 hc.2
    · cases h
  case setWorkerStatus workerno status =>
    split at h
    · obtain ⟨rfl, rfl⟩ := Prod.mk.inj (Option.some.inj h)
      exact .setWorkerStatus ‹_›
    · cases h
  case scanBegin =>
    split at h
    · obtain ⟨rfl, rfl⟩ := Prod.mk.inj (Option.some.inj h)
      exact .scanBegin ‹_›
    · cases h
  case scanNext =>
    split at h
    · cases h
    · split at h
      · obtain ⟨rfl, rfl⟩ := Prod.mk.inj (Option.some.inj h)
        exact .scanNext ‹_› ‹_›
      · cases h
  case scanEnd =>
    split at h
    · cases h
    · split at h
      · cases h
      · obtain ⟨rfl, rfl⟩ := Prod.mk.inj (Option.some.inj h)
        exact .scanEnd ‹_› (Nat.le_of_not_lt ‹_›)
  case increaseRequestCounter =>
    obtain ⟨rfl, rfl⟩ := Prod.mk.inj (Option.some.inj h)
    exact .increaseRequestCounter
  case setShouldExitImmediately =>
    obtain ⟨rfl, rfl⟩ := Prod.mk.inj (Option.some.inj h)
    exact .setShouldExitImmediately
  case update process kind index bytes =>
    split at h
    · cases h
    · split at h
      · cases h
      · rename_i object hget
        obtain ⟨rfl, rfl⟩ := Prod.mk.inj (Option.some.inj h)
        exact .update ‹_› (List.mem_of_getElem? hget)

end BladePSGI.Shmem
