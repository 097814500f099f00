import BladePSGI.Foundations.Semaphore
import BladePSGI.Monitoring.Statistics
import BladePSGI.Perl.AtomicInt64

/-!
# The semaphores of Perl

A `BPSGI::Semaphore` is created through the same three layers as an atomic integer: the initial
value is cut to an `int` by the typemap of the XS method, and only what is left of it is checked
(`BPSGISharedMemory::NewSemaphore`) and given to `sem_init`. `Acquire` and `TryAcquire` call
`sem_wait` and `sem_trywait` again as long as a signal interrupts them.

* `value_add_acquisitions`: the count in any state is the one of `sem_init`, less what has been
  acquired and more what has been released.
* `startsAndConserves_iff`: the initial values for which the semaphore is the one asked for.
-/

namespace BladePSGI.Perl.Semaphore

open Transition Shmem

/-! ## Creation -/

/-- The text of an exception that the bridge catches. -/
def errorText (strerror : ℕ → Name) : Error → Name
  | .syscall syscall errno =>
    literal "system call " ++ literal syscall ++ literal " failed: " ++ strerror errno
  | e => e.text.getD []

/-- `bladepsgi_perl_interpreter_cb_new_semaphore`. -/
def cbNewSemaphore (sems : Semaphores sizeofSem) (strerror : ℕ → Name) (shmem : SharedMemory)
    (segment : Memory 64) (name : Name) (value : CInt) :
    SharedMemory × Memory 64 × Except Name Offset :=
  -- `sem_init` gets the value as an `unsigned int`
  let semInit := SemInit.ok (sems.init value.toNat)
  let (shmem', segment', result) := newSemaphore shmem segment name (ofInt value) semInit
  (shmem', segment', result.mapError (errorText strerror))

/-- `bladepsgi_context_new_semaphore`, with the message it croaks with. -/
def contextNewSemaphore (sems : Semaphores sizeofSem) (strerror : ℕ → Name) (shmem : SharedMemory)
    (segment : Memory 64) (name : Name) (value : IV) :
    SharedMemory × Memory 64 × Except Name Offset :=
  let (shmem', segment', result) :=
    cbNewSemaphore sems strerror shmem segment (cString name) (toInt value)
  (shmem', segment', result.mapError fun text =>
    literal "could not create a new semaphore " ++ cString name ++ literal ": " ++ text ++
      literal "\n")

/-! ## The methods -/

/-- Where a process is in `Acquire`, `TryAcquire` or `Release`. -/
inductive Pc
  | idle
  | semWait
  | semTrywait
  | semPost
  deriving DecidableEq

inductive Errno
  | eintr
  | eagain
  | other (errno : ℕ)
  deriving DecidableEq

structure State where
  segment : Memory 64
  pc : ℕ → Pc

inductive Action
  /-- A process calls `Acquire`, and so on. -/
  | acquire (process : ℕ)
  | tryAcquire (process : ℕ)
  | release (process : ℕ)
  /-- The system call that the process is in returns `0`. -/
  | succeeds (process n : ℕ)
  /-- It returns `-1`. -/
  | fails (process n : ℕ) (errno : Errno)
  /-- A byte elsewhere in the segment changes. -/
  | elsewhere (a : Offset) (byte : Byte)

inductive Event
  | acquired (process : ℕ)
  | tryAcquired (process : ℕ) (result : Bool)
  | released (process : ℕ)
  /-- A `SyscallException`. -/
  | threw (process : ℕ) (syscall : String) (errno : Errno)
  deriving DecidableEq

/-- A process calls one of the methods. -/
def enter (s : State) (process : ℕ) (pc : Pc) : Option (State × List Event) :=
  if s.pc process = .idle then
    some ({ s with pc := Function.update s.pc process pc }, [])
  else none

/-- A system call has changed the semaphore, and the process goes on at `pc`. -/
def answer (s : State) (sem : Offset) (process : ℕ) (bytes : ℕ → Byte) (pc : Pc)
    (es : List Event) : Option (State × List Event) :=
  some ({ segment := s.segment.write ⟨sem, sizeofSem⟩ bytes
          pc := Function.update s.pc process pc }, es)

/-- The steps of the processes with the semaphore at `sem`. -/
def step (sems : Semaphores sizeofSem) (sem : Offset) (s : State) :
    Action → Option (State × List Event)
  | .acquire process => enter s process .semWait
  | .tryAcquire process => enter s process .semTrywait
  | .release process => enter s process .semPost
  | .succeeds process n =>
    let bytes := s.segment.bytesAt sem
    match s.pc process with
    | .idle => none
    | .semWait =>
      if 0 < sems.value bytes then answer s sem process (sems.take n bytes) .idle
        [.acquired process]
      else none
    | .semTrywait =>
      if 0 < sems.value bytes then
        answer s sem process (sems.take n bytes) .idle [.tryAcquired process true]
      else none
    | .semPost =>
      if sems.value bytes < semValueMax then
        answer s sem process (sems.post n bytes) .idle [.released process]
      else none
  | .fails process n errno =>
    let bytes := sems.refuse n (s.segment.bytesAt sem)
    match s.pc process, errno with
    | .idle, _ => none
    -- `goto again`
    | .semWait, .eintr => answer s sem process bytes .semWait []
    | .semWait, e => answer s sem process bytes .idle [.threw process "sem_wait" e]
    | .semTrywait, .eintr => answer s sem process bytes .semTrywait []
    | .semTrywait, .eagain => answer s sem process bytes .idle [.tryAcquired process false]
    | .semTrywait, e => answer s sem process bytes .idle [.threw process "sem_trywait" e]
    | .semPost, e => answer s sem process bytes .idle [.threw process "sem_post" e]
  | .elsewhere a byte =>
    if a ∈ (⟨sem, sizeofSem⟩ : Block 64) then none
    else some ({ s with segment := Function.update s.segment a byte }, [])

def machine (sems : Semaphores sizeofSem) (sem : Offset) : Machine State Action Event :=
  ⟨step sems sem⟩

/-- Nobody is in a method. -/
def start (segment : Memory 64) : State := ⟨segment, fun _ => .idle⟩

/-- `sem_getvalue`. -/
def semGetvalue (sems : Semaphores sizeofSem) : Monitoring.SemGetvalue :=
  fun segment sem => some (BitVec.ofNat 32 (sems.valueAt segment sem))

/-- The semaphore has been acquired. -/
def Event.isAcquisition : Event → Bool
  | .acquired _ | .tryAcquired _ true => true
  | _ => false

def Event.isRelease : Event → Bool
  | .released _ => true
  | _ => false

def acquisitions (tr : List Event) : ℕ := tr.countP Event.isAcquisition

def releases (tr : List Event) : ℕ := tr.countP Event.isRelease

/-! ## The count -/

variable {sems : Semaphores sizeofSem} {sem : Offset} {s s' : State} {a : Action}
  {es tr : List Event}

theorem acquisitions_append (tr es : List Event) :
    acquisitions (tr ++ es) = acquisitions tr + acquisitions es := List.countP_append

theorem releases_append (tr es : List Event) :
    releases (tr ++ es) = releases tr + releases es := List.countP_append

/-- What a step does to the count. -/
structure Counted (sems : Semaphores sizeofSem) (sem : Offset) (s s' : State) (es : List Event) :
    Prop where
  value_add : sems.valueAt s'.segment sem + acquisitions es =
    sems.valueAt s.segment sem + releases es
  value_le : sems.valueAt s.segment sem ≤ semValueMax → sems.valueAt s'.segment sem ≤ semValueMax

/-- A step that leaves the count as it is. -/
theorem Counted.of_eq (hvalue : sems.valueAt s'.segment sem = sems.valueAt s.segment sem)
    (hacquisitions : acquisitions es = 0) (hreleases : releases es = 0) :
    Counted sems sem s s' es := by
  refine ⟨by omega, fun h => ?_⟩
  rwa [hvalue]

/-- A step that takes one. -/
theorem Counted.of_take (hvalue : sems.valueAt s'.segment sem + 1 = sems.valueAt s.segment sem)
    (hacquisitions : acquisitions es = 1) (hreleases : releases es = 0) :
    Counted sems sem s s' es :=
  ⟨by omega, fun _ => by omega⟩

/-- A step that adds one. -/
theorem Counted.of_post (hlt : sems.valueAt s.segment sem < semValueMax)
    (hvalue : sems.valueAt s'.segment sem = sems.valueAt s.segment sem + 1)
    (hacquisitions : acquisitions es = 0) (hreleases : releases es = 1) :
    Counted sems sem s s' es :=
  ⟨by omega, fun _ => by omega⟩

/-- What the answer of a system call does to the count. -/
theorem valueAt_answer (sems : Semaphores sizeofSem) {process : ℕ} {bytes : ℕ → Byte} {pc : Pc}
    {es₀ : List Event}
    (h : answer s sem process bytes pc es₀ = some (s', es)) :
    sems.valueAt s'.segment sem = sems.value bytes ∧ es = es₀ := by
  obtain ⟨rfl, rfl⟩ := Prod.mk.inj (Option.some.inj h)
  exact ⟨sems.valueAt_write (by decide), rfl⟩

theorem counted_enter {process : ℕ} {pc : Pc} (h : enter s process pc = some (s', es)) :
    Counted sems sem s s' es := by
  unfold enter at h
  split_ifs at h
  obtain ⟨rfl, rfl⟩ := Prod.mk.inj (Option.some.inj h)
  exact .of_eq rfl rfl rfl

/-- A call that succeeds takes one or adds one. -/
theorem counted_succeeds {process n : ℕ}
    (h : step sems sem s (.succeeds process n) = some (s', es)) : Counted sems sem s s' es := by
  unfold step at h
  dsimp only at h
  split at h
  · cases h
  · split_ifs at h with hpos
    obtain ⟨hvalue, rfl⟩ := valueAt_answer sems h
    exact .of_take (hvalue ▸ sems.value_take hpos) rfl rfl
  · split_ifs at h with hpos
    obtain ⟨hvalue, rfl⟩ := valueAt_answer sems h
    exact .of_take (hvalue ▸ sems.value_take hpos) rfl rfl
  · split_ifs at h with hlt
    obtain ⟨hvalue, rfl⟩ := valueAt_answer sems h
    exact .of_post hlt (hvalue.trans (sems.value_post hlt)) rfl rfl

/-- A call that fails leaves the count as it is, whether the process goes on or calls again. -/
theorem counted_fails {process n : ℕ} {errno : Errno}
    (h : step sems sem s (.fails process n errno) = some (s', es)) :
    Counted sems sem s s' es := by
  unfold step at h
  dsimp only at h
  split at h
  case h_1 => cases h
  all_goals
    obtain ⟨hvalue, rfl⟩ := valueAt_answer sems h
    exact .of_eq (hvalue.trans sems.value_refuse) rfl rfl

/-- **What a step does to the count.** -/
theorem counted_step (h : step sems sem s a = some (s', es)) : Counted sems sem s s' es := by
  cases a with
  | acquire process | tryAcquire process | release process => exact counted_enter h
  | succeeds process n => exact counted_succeeds h
  | fails process n errno => exact counted_fails h
  | elsewhere a byte =>
    unfold step at h
    dsimp only at h
    split_ifs at h with ha
    obtain ⟨rfl, rfl⟩ := Prod.mk.inj (Option.some.inj h)
    refine .of_eq (sems.valueAt_congr (by decide) fun x hx => ?_) rfl rfl
    have hne : x ≠ a := by
      rintro rfl
      exact ha hx
    exact Function.update_of_ne hne ..

/-- **The count is conserved.** -/
theorem value_add_acquisitions {segment : Memory 64}
    (hle : sems.valueAt segment sem ≤ semValueMax)
    (h : (machine sems sem).Reach (start segment) tr s) :
    sems.valueAt s.segment sem + acquisitions tr = sems.valueAt segment sem + releases tr ∧
      sems.valueAt s.segment sem ≤ semValueMax := by
  refine h.invariant (fun tr s => sems.valueAt s.segment sem + acquisitions tr =
    sems.valueAt segment sem + releases tr ∧ sems.valueAt s.segment sem ≤ semValueMax)
    ⟨rfl, hle⟩ ?_
  rintro tr s a s' es - ⟨hadd, hle⟩ - hs
  have hcounted := counted_step hs
  refine ⟨?_, hcounted.value_le hle⟩
  have := hcounted.value_add
  rw [acquisitions_append, releases_append]
  omega

/-- What `Read` reports. -/
theorem semaphoreRead_eq {segment : Memory 64} (name : Name)
    (hle : sems.valueAt segment sem ≤ semValueMax) :
    ∃ value, Monitoring.semaphoreRead (semGetvalue sems) segment ⟨sem, name⟩ = some value ∧
      value.toInt = sems.valueAt segment sem := by
  refine ⟨(BitVec.ofNat 32 (sems.valueAt segment sem)).signExtend 64, rfl, ?_⟩
  unfold semValueMax at hle
  rw [BitVec.toInt_signExtend_of_le (by decide), BitVec.toInt_eq_toNat_bmod, BitVec.toNat_ofNat,
    Nat.mod_eq_of_lt (by omega), Int.bmod_eq_of_le (by omega) (by omega)]

/-! ## The initial value -/

variable {shmem : SharedMemory} {segment : Memory 64} {name : Name} {v : IV}
  {strerror : ℕ → Name}

/-- The values that a semaphore can start with. -/
def InRange (v : IV) : Prop := 1 ≤ v.toInt ∧ v.toInt ≤ 2147483647

/-- The name is not taken, and there is space. -/
structure Room (shmem : SharedMemory) (name : Name) : Prop where
  fresh : ∀ object ∈ shmem.semaphores, object.name ≠ cString name
  unlocked : shmem.locked = false
  free : (shmem.bump sizeofSem).nextUserAvailableOffset < workerStatusArrayOff

/-- **The semaphore starts at the value asked for and conserves its count.** -/
structure StartsAndConserves (sems : Semaphores sizeofSem) (strerror : ℕ → Name) (v : IV) :
    Prop where
  refused : ¬ InRange v → ∀ shmem segment name, Room shmem name →
    ∃ text, (contextNewSemaphore sems strerror shmem segment name v).2.2 = .error text
  conserves : InRange v → ∀ shmem segment name, Room shmem name →
    ∃ sem, (contextNewSemaphore sems strerror shmem segment name v).2.2 = .ok sem ∧
      ∀ tr s, (machine sems sem).Reach
          (start (contextNewSemaphore sems strerror shmem segment name v).2.1) tr s →
        ∃ value, Monitoring.semaphoreRead (semGetvalue sems) s.segment ⟨sem, cString name⟩ =
            some value ∧
          value.toInt = v.toInt + releases tr - acquisitions tr ∧ 0 ≤ value.toInt

theorem any_name_eq_false (h : Room shmem name) :
    shmem.semaphores.any (·.name = cString name) = false := by
  rw [List.any_eq_false]
  exact fun object hmem heq => h.fresh object hmem (of_decide_eq_true heq)

theorem toInt_ofInt (n : CInt) : (ofInt n).toInt = n.toInt :=
  BitVec.toInt_signExtend_of_le (by decide)

/-- What is left of the value is refused where it is not positive. -/
theorem contextNewSemaphore_error (hroom : Room shmem name) (h : (toInt v).toInt ≤ 0) :
    ∃ text, (contextNewSemaphore sems strerror shmem segment name v).2.2 = .error text := by
  have hrange : (ofInt (toInt v)).toInt ≤ 0 ∨ (ofInt (toInt v)).toInt > 2147483647 :=
    .inl ((toInt_ofInt _).trans_le h)
  simp only [contextNewSemaphore, cbNewSemaphore, newSemaphore, any_name_eq_false hroom,
    Bool.false_eq_true, if_false, if_pos hrange]
  exact ⟨_, rfl⟩

/-- Otherwise the semaphore starts with it. -/
theorem contextNewSemaphore_ok (sems : Semaphores sizeofSem) (strerror : ℕ → Name)
    (segment : Memory 64) (hroom : Room shmem name) (h : 0 < (toInt v).toInt) :
    (contextNewSemaphore sems strerror shmem segment name v).2.2 =
        .ok shmem.nextUserAvailableOffset ∧
      sems.valueAt (contextNewSemaphore sems strerror shmem segment name v).2.1
        shmem.nextUserAvailableOffset = (toInt v).toNat ∧
      (toInt v).toInt = (toInt v).toNat ∧ (toInt v).toNat ≤ semValueMax := by
  have hlt : (toInt v).toInt < 2 ^ 31 := BitVec.toInt_lt
  have hrange : ¬ ((ofInt (toInt v)).toInt ≤ 0 ∨ (ofInt (toInt v)).toInt > 2147483647) := by
    rw [toInt_ofInt]
    omega
  have hnat : (toInt v).toInt = (toInt v).toNat := by
    rw [BitVec.toInt_eq_toNat_cond] at h ⊢
    split_ifs at h ⊢ with hsmall
    · rfl
    · have := (toInt v).isLt
      omega
  have hmax : (toInt v).toNat ≤ semValueMax := by
    unfold semValueMax
    omega
  rcases allocateUserShmem_cases shmem sizeofSem with
    ⟨hlock, -⟩ | ⟨-, hfull, -⟩ | ⟨-, -, halloc⟩
  · rw [hroom.unlocked] at hlock
    cases hlock
  · exact absurd hroom.free (BitVec.not_lt.2 hfull)
  · simp only [contextNewSemaphore, cbNewSemaphore, newSemaphore, any_name_eq_false hroom,
      Bool.false_eq_true, if_false, if_neg hrange, halloc]
    exact ⟨rfl, (sems.valueAt_write (by decide)).trans (sems.value_init hmax), hnat, hmax⟩

theorem room_new : Room .new name :=
  ⟨fun _ h => absurd h List.not_mem_nil, rfl, by decide⟩

/-- **When a semaphore is the one asked for**: if the value is in range, or what the typemap leaves
of it is not positive. -/
theorem startsAndConserves_iff (sems : Semaphores sizeofSem) (strerror : ℕ → Name) (v : IV) :
    StartsAndConserves sems strerror v ↔ InRange v ∨ (toInt v).toInt ≤ 0 := by
  constructor
  · intro h
    by_contra hcon
    obtain ⟨hv, hpos⟩ := not_or.1 hcon
    obtain ⟨text, htext⟩ := h.refused hv .new (fun _ => 0) [] room_new
    rw [(contextNewSemaphore_ok sems strerror _ room_new (Int.not_le.1 hpos)).1] at htext
    cases htext
  · intro h
    refine ⟨fun hv shmem segment name hroom => ?_, fun hv shmem segment name hroom => ?_⟩
    · exact contextNewSemaphore_error hroom (h.resolve_left hv)
    · obtain ⟨hlo, hhi⟩ := hv
      have hnarrow : (toInt v).toInt = v.toInt := by
        rw [← toInt_ofInt]
        exact congrArg BitVec.toInt ((narrow_eq_iff v).2 ⟨by omega, by omega⟩)
      have hpos : 0 < (toInt v).toInt := by omega
      obtain ⟨hok, hvalue, hnat, hmax⟩ :=
        contextNewSemaphore_ok sems strerror segment hroom hpos
      refine ⟨_, hok, fun tr s hreach => ?_⟩
      obtain ⟨hadd, hle⟩ := value_add_acquisitions (hvalue.trans_le hmax) hreach
      obtain ⟨value, hread, heq⟩ := semaphoreRead_eq (cString name) hle
      refine ⟨value, hread, ?_, ?_⟩
      · rw [heq, ← hnarrow, hnat]
        omega
      · rw [heq]
        exact Int.natCast_nonneg _

/-- The four bytes of a count. -/
def countBytes (count : ℕ) : ℕ → Byte :=
  fun j => if j < 4 then BitVec.ofNat 8 (count / 256 ^ j) else 0

/-- The count in the first four bytes. -/
def firstBytes (bytes : ℕ → Byte) : ℕ :=
  (bytes 0).toNat + 256 * (bytes 1).toNat + 65536 * (bytes 2).toNat + 16777216 * (bytes 3).toNat

theorem firstBytes_countBytes {count : ℕ} (h : count ≤ semValueMax) :
    firstBytes (countBytes count) = count := by
  unfold semValueMax at h
  simp only [firstBytes, countBytes, Nat.reducePow, Nat.reduceLT, if_true, BitVec.toNat_ofNat,
    pow_zero, pow_one, Nat.div_one]
  omega

/-- Semaphores that keep nothing but the count, in their first four bytes. -/
def plain : Semaphores sizeofSem where
  value b := min (firstBytes b) semValueMax
  init := countBytes
  take _ b := countBytes (min (firstBytes b) semValueMax - 1)
  refuse _ b := b
  post _ b := countBytes (min (firstBytes b) semValueMax + 1)
  value_congr h := by
    simp only [firstBytes, h 0 (by decide), h 1 (by decide), h 2 (by decide), h 3 (by decide)]
  value_init h := by
    rw [firstBytes_countBytes h, Nat.min_eq_left h]
  value_take h := by
    rw [firstBytes_countBytes (by omega)]
    omega
  value_refuse := rfl
  value_post h := by
    rw [firstBytes_countBytes (by omega)]
    omega

/-- `2 ^ 32 + 1` is taken for `1`. -/
theorem not_startsAndConserves_wrapped :
    ¬ StartsAndConserves plain (fun _ => []) 4294967297 := by
  intro h
  have hv : ¬ InRange 4294967297 := by
    unfold InRange
    decide
  obtain ⟨text, htext⟩ := h.refused hv .new (fun _ => 0) [] room_new
  rw [(contextNewSemaphore_ok plain _ _ room_new (by decide)).1] at htext
  cases htext

end BladePSGI.Perl.Semaphore
