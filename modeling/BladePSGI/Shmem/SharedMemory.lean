import BladePSGI.Foundations.Memory
import Mathlib.Data.List.Basic

/-!
# The shared memory segment

The layout of the segment (`SHMEM_*`) and the object `BPSGISharedMemory` that every process holds a
copy of: the registry of the semaphores and atomics, the lock, and the offset of the next block.
Offsets and pointers are relative to the start of the segment and have 64 bits, like `size_t`.
-/

namespace BladePSGI.Shmem

/-- Offsets into the segment. -/
abbrev Offset := BitVec 64

/-- The bytes of a `std::string`. -/
abbrev Name := List Byte

def alignof : BitVec 64 := 16

/-- `SHMEMALIGN`. -/
def shmemAlign (memoff : BitVec 64) : BitVec 64 :=
  if memoff % alignof = 0 then memoff else memoff + (alignof - memoff % alignof)

def shouldExitImmediatelyOff : Offset := 0

def requestCounterOff : Offset := shouldExitImmediatelyOff + 8

def firstUserAvailableOffset : Offset := shmemAlign (requestCounterOff + 8)

def workerStatusArrayOff : Offset := 2048

/-- What `InitializeSharedMemory` maps. -/
def shmemSize : ℕ := 4096

/-- `sizeof(sem_t)`. -/
def sizeofSem : ℕ := 32

/-- `sizeof(int64_t)`. -/
def sizeofInt64 : ℕ := 8

/-- A `BPSGISemaphore` or `BPSGIAtomicInt64`. -/
structure Object where
  pointer : Offset
  name : Name
  deriving DecidableEq

/-- `BPSGISharedMemory`, without the pointer to the segment and its size. -/
structure SharedMemory where
  semaphores : List Object
  atomics : List Object
  locked : Bool
  nextUserAvailableOffset : Offset
  deriving DecidableEq

/-- The constructor. -/
def SharedMemory.new : SharedMemory := ⟨[], [], false, firstUserAvailableOffset⟩

/-- What the constructor makes of the bytes it finds. -/
def clear (segment : Memory 64) : Memory 64 := segment.write ⟨0, shmemSize⟩ fun _ => 0

/-! ## Creating objects -/

/-- What a creation throws. -/
inductive Error
  | semaphoreExists (name : Name)
  | atomicExists (name : Name)
  | outsideRange
  | locked
  | outOfMemory
  /-- A `SyscallException`. -/
  | syscall (name : String) (errno : ℕ)
  deriving DecidableEq

/-- The bytes of a string literal. -/
def literal (s : String) : Name := s.toUTF8.toList.map UInt8.toBitVec

/-- The text of a thrown `std::string`. -/
def Error.text : Error → Option Name
  | .semaphoreExists name =>
      some (literal "semaphore with name " ++ name ++ literal " already exists")
  | .atomicExists name =>
    some (literal "atomic integer with name " ++ name ++ literal " already exists")
  | .outsideRange => some (literal "semaphore init value is outside of allowed range")
  | .locked => some (literal "could not allocate shared memory: shared memory has been locked")
  | .outOfMemory => some (literal "could not allocate shared memory: out of shared memory")
  | .syscall .. => none

/-- `LockAllocations`: `none` where it throws `std::logic_error`. -/
def SharedMemory.lockAllocations (shmem : SharedMemory) : Option SharedMemory :=
  if shmem.locked then none else some { shmem with locked := true }

/-- `AllocateUserShmem`. The offset has moved on even where it throws for want of memory. -/
def SharedMemory.allocateUserShmem (shmem : SharedMemory) (size : ℕ) :
    SharedMemory × Except Error Offset :=
  if shmem.locked then (shmem, .error .locked)
  else
    let mem := shmem.nextUserAvailableOffset
    let next := shmemAlign (mem + BitVec.ofNat 64 size)
    let shmem' := { shmem with nextUserAvailableOffset := next }
    if workerStatusArrayOff ≤ next then (shmem', .error .outOfMemory) else (shmem', .ok mem)

/-- What `sem_init` does: it fills in the semaphore or fails. -/
inductive SemInit
  | ok (bytes : ℕ → Byte)
  | fails (errno : ℕ)

/-- `NewSemaphore`. -/
def newSemaphore (shmem : SharedMemory) (segment : Memory 64) (name : Name) (value : BitVec 64)
    (semInit : SemInit) : SharedMemory × Memory 64 × Except Error Offset :=
  if shmem.semaphores.any (·.name = name) then (shmem, segment, .error (.semaphoreExists name))
  else if value.toInt ≤ 0 ∨ value.toInt > 2147483647 then (shmem, segment, .error .outsideRange)
  else
    match shmem.allocateUserShmem sizeofSem with
    | (shmem, .error e) => (shmem, segment, .error e)
    | (shmem, .ok ptr) =>
      let segment := segment.write ⟨ptr, sizeofSem⟩ fun _ => 0
      match semInit with
      | .fails errno => (shmem, segment, .error (.syscall "sem_init" errno))
      | .ok bytes =>
        ({ shmem with semaphores := shmem.semaphores ++ [⟨ptr, name⟩] },
          segment.write ⟨ptr, sizeofSem⟩ bytes, .ok ptr)

/-- `NewAtomicInt64`. -/
def newAtomicInt64 (shmem : SharedMemory) (segment : Memory 64) (name : Name) (value : BitVec 64) :
    SharedMemory × Memory 64 × Except Error Offset :=
  if shmem.atomics.any (·.name = name) then (shmem, segment, .error (.atomicExists name))
  else
    match shmem.allocateUserShmem sizeofInt64 with
    | (shmem, .error e) => (shmem, segment, .error e)
    | (shmem, .ok ptr) =>
      ({ shmem with atomics := shmem.atomics ++ [⟨ptr, name⟩] }, segment.store64 ptr value, .ok ptr)

/-- A creation that Perl asks for. -/
inductive Call
  | newSemaphore (name : Name) (value : BitVec 64)
  | newAtomicInt64 (name : Name) (value : BitVec 64)

def create (shmem : SharedMemory) (segment : Memory 64) (semInit : SemInit) :
    Call → SharedMemory × Memory 64 × Except Error Offset
  | .newSemaphore name value => newSemaphore shmem segment name value semInit
  | .newAtomicInt64 name value => newAtomicInt64 shmem segment name value

/-! ## The header -/

/-- `IncreaseRequestCounter`, with the counter before. -/
def increaseRequestCounter (segment : Memory 64) : Memory 64 × BitVec 64 :=
  let m := segment.load64 requestCounterOff
  (segment.store64 requestCounterOff (m + 1), m)

def readRequestCounter (segment : Memory 64) : BitVec 64 := segment.load64 requestCounterOff

/-- `SetShouldExitImmediately`, with its result. -/
def setShouldExitImmediately (segment : Memory 64) : Memory 64 × Bool :=
  (segment.write ⟨shouldExitImmediatelyOff, 1⟩ fun _ => 1, segment shouldExitImmediatelyOff = 0)

theorem setShouldExitImmediately_of_notMem {segment : Memory 64} {a : Offset}
    (h : a ∉ (⟨shouldExitImmediatelyOff, 1⟩ : Block 64)) :
    (setShouldExitImmediately segment).1 a = segment a := by
  show segment.write ⟨shouldExitImmediatelyOff, 1⟩ (fun _ => 1) a = segment a
  exact Memory.write_of_notMem h

def shouldExitImmediately (segment : Memory 64) : Bool := segment shouldExitImmediatelyOff = 1

/-! ## The worker status array -/

/-- `WorkerArraySegment() + workerno`. -/
def workerStatusPointer (workerno : ℕ) : Offset := workerStatusArrayOff + BitVec.ofNat 64 workerno

/-- `SetWorkerStatus`. -/
def setWorkerStatus (segment : Memory 64) (workerno : ℕ) (status : Byte) : Memory 64 :=
  segment.write ⟨workerStatusPointer workerno, 1⟩ fun _ => status

/-- `GetAllWorkerStatuses` in progress: the pointer that walks through the array and the bytes
written to `out`. -/
structure Scan where
  mem : Offset
  out : List Byte

def Scan.start : Scan := ⟨workerStatusArrayOff, []⟩

/-- One iteration of its loop. -/
def Scan.next (scan : Scan) (segment : Memory 64) : Scan :=
  ⟨scan.mem + 1, scan.out ++ [segment scan.mem]⟩

/-! ## What a creation can do -/

inductive Kind
  | semaphore
  | atomic
  deriving DecidableEq

def Kind.size : Kind → ℕ
  | .semaphore => sizeofSem
  | .atomic => sizeofInt64

def Call.kind : Call → Kind
  | .newSemaphore .. => .semaphore
  | .newAtomicInt64 .. => .atomic

def Call.name : Call → Name
  | .newSemaphore name _ | .newAtomicInt64 name _ => name

namespace SharedMemory

def objects (shmem : SharedMemory) : Kind → List Object
  | .semaphore => shmem.semaphores
  | .atomic => shmem.atomics

def register (shmem : SharedMemory) (object : Object) : Kind → SharedMemory
  | .semaphore => { shmem with semaphores := shmem.semaphores ++ [object] }
  | .atomic => { shmem with atomics := shmem.atomics ++ [object] }

/-- `AllocateUserShmem` has moved the offset. -/
def bump (shmem : SharedMemory) (size : ℕ) : SharedMemory :=
  { shmem with
    nextUserAvailableOffset := shmemAlign (shmem.nextUserAvailableOffset + BitVec.ofNat 64 size) }

@[simp] theorem objects_bump (shmem : SharedMemory) (size : ℕ) (kind : Kind) :
    (shmem.bump size).objects kind = shmem.objects kind := by
  cases kind <;> rfl

@[simp] theorem objects_lock (shmem : SharedMemory) (locked : Bool) (kind : Kind) :
    { shmem with locked }.objects kind = shmem.objects kind := by
  cases kind <;> rfl

/-- The registry after a registration. -/
theorem mem_objects_register {shmem : SharedMemory} {object new : Object} {kind kind' : Kind} :
    object ∈ (shmem.register new kind').objects kind ↔
      object ∈ shmem.objects kind ∨ kind = kind' ∧ object = new := by
  cases kind <;> cases kind' <;> simp [register, objects]

@[simp] theorem nextUserAvailableOffset_register (shmem : SharedMemory) (object : Object)
    (kind : Kind) :
    (shmem.register object kind).nextUserAvailableOffset = shmem.nextUserAvailableOffset := by
  cases kind <;> rfl

end SharedMemory

/-- The block of an object. -/
def Object.block (object : Object) (kind : Kind) : Block 64 := ⟨object.pointer, kind.size⟩

/-- The memories agree outside the block. -/
def SameOutside (b : Block 64) (segment segment' : Memory 64) : Prop :=
  ∀ a, a ∉ b → segment' a = segment a

/-- The outcomes of a creation. -/
inductive Creates (shmem : SharedMemory) (segment : Memory 64) (call : Call) :
    SharedMemory → Memory 64 → Except Error Offset → Prop
  /-- A check fails. -/
  | refused (e : Error) : Creates shmem segment call shmem segment (.error e)
  /-- Out of memory. -/
  | exhausted (hlock : shmem.locked = false)
      (h : workerStatusArrayOff ≤ (shmem.bump call.kind.size).nextUserAvailableOffset) :
      Creates shmem segment call (shmem.bump call.kind.size) segment (.error .outOfMemory)
  /-- `sem_init` fails. -/
  | initFails {segment'} (errno : ℕ) (hlock : shmem.locked = false)
      (h : (shmem.bump call.kind.size).nextUserAvailableOffset < workerStatusArrayOff)
      (hout : SameOutside ⟨shmem.nextUserAvailableOffset, call.kind.size⟩ segment segment') :
      Creates shmem segment call (shmem.bump call.kind.size) segment'
        (.error (.syscall "sem_init" errno))
  | created {segment'} (hlock : shmem.locked = false)
      (hname : ∀ object ∈ shmem.objects call.kind, object.name ≠ call.name)
      (h : (shmem.bump call.kind.size).nextUserAvailableOffset < workerStatusArrayOff)
      (hout : SameOutside ⟨shmem.nextUserAvailableOffset, call.kind.size⟩ segment segment') :
      Creates shmem segment call
        ((shmem.bump call.kind.size).register ⟨shmem.nextUserAvailableOffset, call.name⟩ call.kind)
        segment' (.ok shmem.nextUserAvailableOffset)

theorem sameOutside_write {b : Block 64} {segment : Memory 64} {bytes : ℕ → Byte} :
    SameOutside b segment (segment.write b bytes) :=
  fun _ h => Memory.write_of_notMem h

theorem SameOutside.write {b : Block 64} {segment segment' : Memory 64} {bytes : ℕ → Byte}
    (h : SameOutside b segment segment') : SameOutside b segment (segment'.write b bytes) :=
  fun a ha => (Memory.write_of_notMem ha).trans (h a ha)

theorem allocateUserShmem_cases (shmem : SharedMemory) (size : ℕ) :
    (shmem.locked = true ∧ shmem.allocateUserShmem size = (shmem, .error .locked)) ∨
      (shmem.locked = false ∧ workerStatusArrayOff ≤ (shmem.bump size).nextUserAvailableOffset ∧
        shmem.allocateUserShmem size = (shmem.bump size, .error .outOfMemory)) ∨
      (shmem.locked = false ∧ (shmem.bump size).nextUserAvailableOffset < workerStatusArrayOff ∧
        shmem.allocateUserShmem size = (shmem.bump size, .ok shmem.nextUserAvailableOffset)) := by
  by_cases hlock : shmem.locked = true
  · exact Or.inl ⟨hlock, if_pos hlock⟩
  · have heq : shmem.allocateUserShmem size = _ := if_neg hlock
    rw [Bool.not_eq_true] at hlock
    rw [heq]
    by_cases h : workerStatusArrayOff ≤ (shmem.bump size).nextUserAvailableOffset
    · exact Or.inr (Or.inl ⟨hlock, h, if_pos h⟩)
    · exact Or.inr (Or.inr ⟨hlock, BitVec.not_le.1 h, if_neg h⟩)

/-- **What a creation can do.** -/
theorem create_cases (shmem : SharedMemory) (segment : Memory 64) (semInit : SemInit)
    (call : Call) :
    Creates shmem segment call (create shmem segment semInit call).1
      (create shmem segment semInit call).2.1 (create shmem segment semInit call).2.2 := by
  cases call with
  | newSemaphore name value =>
    simp only [create, newSemaphore]
    split_ifs with hname hvalue
    · exact .refused _
    · exact .refused _
    · rw [List.any_eq_true] at hname
      rcases allocateUserShmem_cases shmem sizeofSem with
        ⟨-, h⟩ | ⟨hlock, hle, h⟩ | ⟨hlock, hlt, h⟩ <;>
        rw [h] <;> dsimp only
      · exact .refused _
      · exact .exhausted hlock hle
      · cases semInit with
        | fails errno =>
          dsimp only
          exact .initFails errno hlock hlt sameOutside_write
        | ok bytes =>
          dsimp only
          refine .created hlock (fun object hmem heq => hname ⟨object, hmem, ?_⟩) hlt
            sameOutside_write.write
          exact decide_eq_true heq
  | newAtomicInt64 name value =>
    simp only [create, newAtomicInt64]
    split_ifs with hname
    · exact .refused _
    · rw [List.any_eq_true] at hname
      rcases allocateUserShmem_cases shmem sizeofInt64 with
        ⟨-, h⟩ | ⟨hlock, hle, h⟩ | ⟨hlock, hlt, h⟩ <;>
        rw [h] <;> dsimp only
      · exact .refused _
      · exact .exhausted hlock hle
      · refine .created hlock (fun object hmem heq => hname ⟨object, hmem, ?_⟩) hlt
          sameOutside_write
        exact decide_eq_true heq

end BladePSGI.Shmem
