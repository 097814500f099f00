import BladePSGI.Perl.Semaphore
import BladePSGI.Shmem.Header
import Mathlib.Data.List.Pairwise

/-!
# The segment as independent objects

After the lock the segment holds a fixed set of things: the semaphores and the atomics that the
loader has created, a status byte for each worker, the request counter and the exit flag. All of
them are bytes of one memory, which every process may write at any time. `Objects` is what they are
meant to be: values that have nothing to do with each other. `view` reads them off the bytes.

* `Layout`: no two of them have a byte in common.
* `step_frame`: what is done to one of them leaves the bytes of the others alone.
* `reach_objects_iff`: the runs of the processes on the segment are those of the independent
  objects.
-/

namespace BladePSGI.Perl.SharedObjects

open Function Transition Shmem

/-! ## The processes on the segment -/

/-- The segment, and where each process is in the methods of each semaphore. -/
structure State where
  segment : Memory 64
  pc : ℕ → ℕ → Semaphore.Pc

inductive Action
  /-- A step of a process in the methods of semaphore `i`. -/
  | semaphore (i : ℕ) (a : Semaphore.Action)
  | atomic (i process : ℕ) (method : Method)
  | setWorkerStatus (workerno : ℕ) (status : Byte)
  | increaseRequestCounter
  | setShouldExitImmediately

inductive Event
  | semaphore (i : ℕ) (e : Semaphore.Event)
  | atomic (i : ℕ) (e : Called)
  | statusStored (workerno : ℕ) (status : Byte)
  | requestCounted (before : BitVec 64)
  | setShouldExit (changed : Bool)
  deriving DecidableEq

/-- The action is one of a process in a method. -/
def isCall : Semaphore.Action → Bool
  | .elsewhere .. => false
  | _ => true

def step (sems : Semaphores sizeofSem) (shmem : SharedMemory) (nworkers : ℕ) (s : State) :
    Action → Option (State × List Event)
  | .semaphore i a =>
    match shmem.semaphores[i]? with
    | none => none
    | some object =>
      if isCall a then
        (Semaphore.step sems object.pointer ⟨s.segment, s.pc i⟩ a).map fun r =>
          (⟨r.1.segment, update s.pc i r.1.pc⟩, r.2.map (.semaphore i))
      else none
  | .atomic i process method =>
    match shmem.atomics[i]? with
    | none => none
    | some object =>
      let (segment, value) := method.call s.segment object.pointer
      some ({ s with segment }, [.atomic i ⟨process, method, value⟩])
  | .setWorkerStatus workerno status =>
    if workerno < nworkers then
      some ({ s with segment := Shmem.setWorkerStatus s.segment workerno status },
        [.statusStored workerno status])
    else none
  | .increaseRequestCounter =>
    let (segment, before) := Shmem.increaseRequestCounter s.segment
    some ({ s with segment }, [.requestCounted before])
  | .setShouldExitImmediately =>
    let (segment, changed) := Shmem.setShouldExitImmediately s.segment
    some ({ s with segment }, [.setShouldExit changed])

def machine (sems : Semaphores sizeofSem) (shmem : SharedMemory) (nworkers : ℕ) :
    Machine State Action Event := ⟨step sems shmem nworkers⟩

/-- Nobody is in a method. -/
def start (segment : Memory 64) : State := ⟨segment, fun _ _ => .idle⟩

/-! ## The independent objects -/

/-- A semaphore that is nothing but a count. -/
structure Count where
  value : ℕ
  pc : ℕ → Semaphore.Pc

/-- A process calls one of the methods. -/
def Count.enter (c : Count) (process : ℕ) (pc : Semaphore.Pc) :
    Option (Count × List Semaphore.Event) :=
  if c.pc process = .idle then some ({ c with pc := update c.pc process pc }, []) else none

/-- A process goes on at `pc`. -/
def Count.answer (c : Count) (process value : ℕ) (pc : Semaphore.Pc) (es : List Semaphore.Event) :
    Option (Count × List Semaphore.Event) :=
  some (⟨value, update c.pc process pc⟩, es)

/-- `Acquire`, `TryAcquire` and `Release` on a count. -/
def Count.step (c : Count) : Semaphore.Action → Option (Count × List Semaphore.Event)
  | .acquire process => c.enter process .semWait
  | .tryAcquire process => c.enter process .semTrywait
  | .release process => c.enter process .semPost
  | .succeeds process _ =>
    match c.pc process with
    | .idle => none
    | .semWait => if 0 < c.value then c.answer process (c.value - 1) .idle [.acquired process]
        else none
    | .semTrywait =>
      if 0 < c.value then c.answer process (c.value - 1) .idle [.tryAcquired process true]
      else none
    | .semPost =>
      if c.value < semValueMax then c.answer process (c.value + 1) .idle [.released process]
      else none
  | .fails process _ errno =>
    match c.pc process, errno with
    | .idle, _ => none
    | .semWait, .eintr => c.answer process c.value .semWait []
    | .semWait, e => c.answer process c.value .idle [.threw process "sem_wait" e]
    | .semTrywait, .eintr => c.answer process c.value .semTrywait []
    | .semTrywait, .eagain => c.answer process c.value .idle [.tryAcquired process false]
    | .semTrywait, e => c.answer process c.value .idle [.threw process "sem_trywait" e]
    | .semPost, e => c.answer process c.value .idle [.threw process "sem_post" e]
  | .elsewhere .. => none

/-- The call with what the typemap leaves of its argument. -/
def narrowed : Method → Method
  | .incr => .incr
  | .fetchAdd val => .fetchAdd (narrow val)
  | .load => .load
  | .store val => .store (narrow val)

/-- The values of the objects. -/
@[ext] structure Objects where
  semaphore : ℕ → Count
  atomic : ℕ → IV
  status : ℕ → Byte
  requestCounter : BitVec 64
  shouldExitImmediately : Byte

/-- A step on one of the objects. -/
def Objects.step (nsemaphores natomics nworkers : ℕ) (o : Objects) :
    Action → Option (Objects × List Event)
  | .semaphore i a =>
    if i < nsemaphores then
      ((o.semaphore i).step a).map fun r =>
        ({ o with semaphore := update o.semaphore i r.1 }, r.2.map (.semaphore i))
    else none
  | .atomic i process method =>
    if i < natomics then
      let (counter, value) := (narrowed method).reference (o.atomic i)
      some ({ o with atomic := update o.atomic i counter }, [.atomic i ⟨process, method, value⟩])
    else none
  | .setWorkerStatus workerno status =>
    if workerno < nworkers then
      some ({ o with status := update o.status workerno status }, [.statusStored workerno status])
    else none
  | .increaseRequestCounter =>
    some ({ o with requestCounter := o.requestCounter + 1 }, [.requestCounted o.requestCounter])
  | .setShouldExitImmediately =>
    some ({ o with shouldExitImmediately := 1 },
      [.setShouldExit (o.shouldExitImmediately = 0)])

/-- The objects of a registry. -/
def objects (shmem : SharedMemory) (nworkers : ℕ) : Machine Objects Action Event :=
  ⟨Objects.step shmem.semaphores.length shmem.atomics.length nworkers⟩

/-- The objects that the bytes of the segment stand for. -/
def view (sems : Semaphores sizeofSem) (shmem : SharedMemory) (nworkers : ℕ) (s : State) :
    Objects where
  semaphore i := ⟨(shmem.semaphores[i]?.map fun object =>
    sems.valueAt s.segment object.pointer).getD 0, s.pc i⟩
  atomic i := (shmem.atomics[i]?.map fun object => s.segment.load64 object.pointer).getD 0
  status i := if i < nworkers then s.segment (workerStatusPointer i) else 0
  requestCounter := readRequestCounter s.segment
  shouldExitImmediately := s.segment shouldExitImmediatelyOff

/-! ## One object -/

variable {sems : Semaphores sizeofSem} {shmem : SharedMemory} {nworkers : ℕ} {s s' : State}
  {a : Action} {tr es : List Event} {sem : Offset}

/-- The count of a semaphore. -/
def count (sems : Semaphores sizeofSem) (sem : Offset) (s : Semaphore.State) : Count :=
  ⟨sems.valueAt s.segment sem, s.pc⟩

theorem count_enter (s : Semaphore.State) (process : ℕ) (pc : Semaphore.Pc) :
    (Semaphore.enter s process pc).map (fun r => (count sems sem r.1, r.2)) =
      (count sems sem s).enter process pc := by
  unfold Semaphore.enter Count.enter
  by_cases h : s.pc process = .idle
  · simp [h, count]
  · simp [h, count]

theorem count_answer (s : Semaphore.State) (process : ℕ) (bytes : ℕ → Byte) (pc : Semaphore.Pc)
    (es : List Semaphore.Event) :
    (Semaphore.answer s sem process bytes pc es).map (fun r => (count sems sem r.1, r.2)) =
      (count sems sem s).answer process (sems.value bytes) pc es := by
  have hvalue : sems.valueAt (s.segment.write ⟨sem, sizeofSem⟩ bytes) sem = sems.value bytes :=
    sems.valueAt_write (by decide)
  simp only [Semaphore.answer, Option.map_some, count, Count.answer, hvalue]

/-- **A semaphore is its count.** -/
theorem count_step (s : Semaphore.State) (a : Semaphore.Action) (ha : isCall a = true) :
    (Semaphore.step sems sem s a).map (fun r => (count sems sem r.1, r.2)) =
      (count sems sem s).step a := by
  have hbytes : sems.value (s.segment.bytesAt sem) = (count sems sem s).value := rfl
  cases a with
  | acquire process | tryAcquire process | release process => exact count_enter s process _
  | succeeds process n =>
    have hpc : (count sems sem s).pc process = s.pc process := rfl
    have htake (hpos : 0 < (count sems sem s).value) :
        sems.value (sems.take n (s.segment.bytesAt sem)) = (count sems sem s).value - 1 := by
      have := sems.value_take (n := n) hpos
      rw [hbytes] at this
      omega
    simp only [Semaphore.step, Count.step, hbytes, hpc]
    cases s.pc process with
    | idle => rfl
    | semWait | semTrywait =>
      dsimp only
      split_ifs with hpos
      · rw [count_answer, htake hpos]
      · rfl
    | semPost =>
      dsimp only
      split_ifs with hlt
      · rw [count_answer, sems.value_post hlt, hbytes]
      · rfl
  | fails process n errno =>
    have hpc : (count sems sem s).pc process = s.pc process := rfl
    have hrefuse : sems.value (sems.refuse n (s.segment.bytesAt sem)) = (count sems sem s).value :=
      sems.value_refuse
    simp only [Semaphore.step, Count.step, hpc]
    rw [← hrefuse]
    cases s.pc process <;> cases errno <;> first | rfl | exact count_answer ..
  | elsewhere x byte => cases ha

/-- An atomic is the reference counter, with narrowed arguments. -/
theorem load64_call_eq (segment : Memory 64) (atm : Offset) (method : Method) :
    ((method.call segment atm).1.load64 atm, (method.call segment atm).2) =
      (narrowed method).reference (segment.load64 atm) := by
  cases method with
  | load => rfl
  | incr | fetchAdd val | store val => exact Prod.ext (Memory.load64_store64 (by decide)) rfl

/-! ## Where the objects are -/

/-- What the segment is made of. -/
inductive Part
  | semaphore (i : ℕ)
  | atomic (i : ℕ)
  | status (workerno : ℕ)
  | requestCounter
  | shouldExitImmediately
  deriving DecidableEq

/-- The bytes of an object of the registry, if there is one. -/
def objectBlock (shmem : SharedMemory) (kind : Kind) (i : ℕ) : Block 64 :=
  ((shmem.objects kind)[i]?.map fun object : Object => object.block kind).getD ⟨0, 0⟩

/-- The bytes of a part. -/
def Part.block (shmem : SharedMemory) (nworkers : ℕ) : Part → Block 64
  | semaphore i => objectBlock shmem .semaphore i
  | atomic i => objectBlock shmem .atomic i
  | status workerno =>
    if workerno < nworkers then ⟨workerStatusPointer workerno, 1⟩ else ⟨0, 0⟩
  | requestCounter => ⟨requestCounterOff, 8⟩
  | shouldExitImmediately => ⟨shouldExitImmediatelyOff, 1⟩

/-- No two objects of the registry have a byte in common, and they are in the user area. -/
structure Layout (shmem : SharedMemory) (nworkers : ℕ) : Prop where
  inUserArea : ∀ kind, ∀ object ∈ shmem.objects kind, object.InUserArea kind
  disjoint : ∀ (kind kind' : Kind) (i j : ℕ) (object object' : Object),
    (shmem.objects kind)[i]? = some object → (shmem.objects kind')[j]? = some object' →
      (kind, i) ≠ (kind', j) → (object.block kind).Disjoint (object'.block kind')
  nworkers_le : nworkers ≤ 2048

/-- The addresses where a part can be. -/
def Part.Zone (x : Offset) : Part → Prop
  | semaphore _ | atomic _ => 16 ≤ x.toNat ∧ x.toNat < 2048
  | status workerno => x.toNat = 2048 + workerno
  | requestCounter => 8 ≤ x.toNat ∧ x.toNat < 16
  | shouldExitImmediately => x.toNat = 0

theorem block_status {workerno : ℕ} (h : workerno < nworkers) :
    (Part.status workerno).block shmem nworkers = ⟨workerStatusPointer workerno, 1⟩ := if_pos h

theorem zone_of_mem {p : Part} (hl : Layout shmem nworkers) {x : Offset}
    (hx : x ∈ p.block shmem nworkers) : p.Zone x := by
  have hobject : ∀ kind i, x ∈ objectBlock shmem kind i → 16 ≤ x.toNat ∧ x.toNat < 2048 := by
    intro kind i hx
    unfold objectBlock at hx
    cases hget : (shmem.objects kind)[i]? with
    | none =>
      rw [hget] at hx
      exact absurd hx (Nat.not_lt_zero _)
    | some object =>
      rw [hget] at hx
      obtain ⟨hlo, hhi⟩ := hl.inUserArea kind object (List.mem_of_getElem? hget)
      have hx : (x - object.pointer).toNat < kind.size := hx
      rw [BitVec.toNat_sub] at hx
      have := x.isLt
      omega
  cases p with
  | semaphore i => exact hobject .semaphore i hx
  | atomic i => exact hobject .atomic i hx
  | status workerno =>
    by_cases hlt : workerno < nworkers
    · rw [block_status hlt, Block.mem_one_iff] at hx
      have := hl.nworkers_le
      subst hx
      exact toNat_workerStatusPointer (by omega)
    · rw [Part.block, if_neg hlt] at hx
      exact absurd hx (Nat.not_lt_zero _)
  | requestCounter =>
    have hoff : requestCounterOff.toNat = 8 := rfl
    have hx : (x - requestCounterOff).toNat < 8 := hx
    rw [BitVec.toNat_sub] at hx
    have := x.isLt
    exact ⟨by omega, by omega⟩
  | shouldExitImmediately =>
    rw [Part.block, Block.mem_one_iff] at hx
    subst hx
    rfl

/-- **No two parts have a byte in common.** -/
theorem disjoint_block (hl : Layout shmem nworkers) {p q : Part} (hne : p ≠ q) :
    (p.block shmem nworkers).Disjoint (q.block shmem nworkers) := by
  have hobjects : ∀ kind kind' i j, (kind, i) ≠ (kind', j) →
      (objectBlock shmem kind i).Disjoint (objectBlock shmem kind' j) := by
    intro kind kind' i j hne x hx hx'
    unfold objectBlock at hx hx'
    cases hget : (shmem.objects kind)[i]? with
    | none =>
      rw [hget] at hx
      exact absurd hx (Nat.not_lt_zero _)
    | some object =>
      cases hget' : (shmem.objects kind')[j]? with
      | none =>
        rw [hget'] at hx'
        exact absurd hx' (Nat.not_lt_zero _)
      | some object' =>
        rw [hget] at hx
        rw [hget'] at hx'
        exact hl.disjoint kind kind' i j object object' hget hget' hne x hx hx'
  intro x hx hx'
  have h := zone_of_mem hl hx
  have h' := zone_of_mem hl hx'
  cases p with
  | semaphore i =>
    cases q with
    | semaphore j => exact hobjects .semaphore .semaphore i j (by simpa using hne) x hx hx'
    | atomic j => exact hobjects .semaphore .atomic i j (by simp) x hx hx'
    | _ => simp only [Part.Zone] at h h'; omega
  | atomic i =>
    cases q with
    | semaphore j => exact hobjects .atomic .semaphore i j (by simp) x hx hx'
    | atomic j => exact hobjects .atomic .atomic i j (by simpa using hne) x hx hx'
    | _ => simp only [Part.Zone] at h h'; omega
  | status workerno =>
    cases q with
    | status workerno' =>
      simp only [Part.Zone] at h h'
      exact hne (congrArg Part.status (by omega))
    | _ => simp only [Part.Zone] at h h'; omega
  | requestCounter =>
    cases q with
    | requestCounter => exact hne rfl
    | _ => simp only [Part.Zone] at h h'; omega
  | shouldExitImmediately =>
    cases q with
    | shouldExitImmediately => exact hne rfl
    | _ => simp only [Part.Zone] at h h'; omega

/-! ## What a step leaves alone -/

/-- The part that an action is about. -/
def owner : Action → Part
  | .semaphore i _ => .semaphore i
  | .atomic i _ _ => .atomic i
  | .setWorkerStatus workerno _ => .status workerno
  | .increaseRequestCounter => .requestCounter
  | .setShouldExitImmediately => .shouldExitImmediately

theorem objectBlock_eq {kind : Kind} {i : ℕ} {object : Object}
    (h : (shmem.objects kind)[i]? = some object) :
    objectBlock shmem kind i = object.block kind := by
  rw [objectBlock, h, Option.map_some, Option.getD_some]

/-- A process in a method of a semaphore changes nothing but the semaphore. -/
theorem semaphore_frame {t t' : Semaphore.State} {b : Semaphore.Action}
    {es : List Semaphore.Event} (h : Semaphore.step sems sem t b = some (t', es))
    (hb : isCall b = true) {x : Offset} (hx : x ∉ (⟨sem, sizeofSem⟩ : Block 64)) :
    t'.segment x = t.segment x := by
  have hanswer : ∀ {process bytes pc es₀},
      Semaphore.answer t sem process bytes pc es₀ = some (t', es) →
        t'.segment x = t.segment x := by
    intro process bytes pc es₀ h
    obtain ⟨rfl, -⟩ := Prod.mk.inj (Option.some.inj h)
    exact Memory.write_of_notMem hx
  have henter : ∀ {process pc}, Semaphore.enter t process pc = some (t', es) →
      t'.segment x = t.segment x := by
    intro process pc h
    unfold Semaphore.enter at h
    split_ifs at h
    obtain ⟨rfl, -⟩ := Prod.mk.inj (Option.some.inj h)
    rfl
  cases b with
  | acquire process | tryAcquire process | release process => exact henter h
  | succeeds process n =>
    unfold Semaphore.step at h
    dsimp only at h
    split at h
    · cases h
    all_goals
      split_ifs at h
      exact hanswer h
  | fails process n errno =>
    unfold Semaphore.step at h
    dsimp only at h
    split at h
    case h_1 => cases h
    all_goals exact hanswer h
  | elsewhere => cases hb

theorem call_frame (segment : Memory 64) {atm x : Offset} (method : Method)
    (hx : x ∉ (⟨atm, sizeofInt64⟩ : Block 64)) : (method.call segment atm).1 x = segment x := by
  cases method with
  | load => rfl
  | incr | fetchAdd val | store val => exact Memory.store64_of_notMem hx

/-- **A step leaves the bytes of the other parts alone.** -/
theorem step_frame (h : step sems shmem nworkers s a = some (s', es)) {x : Offset}
    (hx : x ∉ (owner a).block shmem nworkers) : s'.segment x = s.segment x := by
  cases a with
  | semaphore i b =>
    simp only [step] at h
    split at h
    · cases h
    · rename_i object hget
      split_ifs at h with hb
      obtain ⟨r, hr, heq⟩ := Option.map_eq_some_iff.1 h
      obtain ⟨rfl, -⟩ := Prod.mk.inj heq
      rw [owner, Part.block, objectBlock_eq hget] at hx
      exact semaphore_frame hr hb hx
  | atomic i process method =>
    simp only [step] at h
    split at h
    · cases h
    · rename_i object hget
      obtain ⟨rfl, -⟩ := Prod.mk.inj (Option.some.inj h)
      rw [owner, Part.block, objectBlock_eq hget] at hx
      exact call_frame s.segment method hx
  | setWorkerStatus workerno status =>
    simp only [step] at h
    split_ifs at h with hlt
    obtain ⟨rfl, -⟩ := Prod.mk.inj (Option.some.inj h)
    rw [owner, block_status hlt] at hx
    show s.segment.write ⟨workerStatusPointer workerno, 1⟩ (fun _ => status) x = s.segment x
    exact Memory.write_of_notMem hx
  | increaseRequestCounter =>
    obtain ⟨rfl, -⟩ := Prod.mk.inj (Option.some.inj h)
    exact Memory.store64_of_notMem hx
  | setShouldExitImmediately =>
    obtain ⟨rfl, -⟩ := Prod.mk.inj (Option.some.inj h)
    exact setShouldExitImmediately_of_notMem hx

/-! ## The view -/

/-- The bytes of a part are the same. -/
def Same (shmem : SharedMemory) (nworkers : ℕ) (p : Part) (s s' : State) : Prop :=
  ∀ x ∈ p.block shmem nworkers, s'.segment x = s.segment x

theorem same_of_step (hl : Layout shmem nworkers)
    (h : step sems shmem nworkers s a = some (s', es)) {p : Part} (hne : p ≠ owner a) :
    Same shmem nworkers p s s' :=
  fun x hx => step_frame h (disjoint_block hl hne x hx)

theorem view_semaphore {i : ℕ} (h : Same shmem nworkers (.semaphore i) s s')
    (hpc : s'.pc i = s.pc i) :
    (view sems shmem nworkers s').semaphore i = (view sems shmem nworkers s).semaphore i := by
  simp only [view, hpc]
  cases hget : shmem.semaphores[i]? with
  | none => rfl
  | some object =>
    have hblock : objectBlock shmem .semaphore i = object.block .semaphore := objectBlock_eq hget
    rw [Same, Part.block, hblock] at h
    simp only [Option.map_some, Option.getD_some]
    rw [sems.valueAt_congr (by decide) h]

theorem view_atomic {i : ℕ} (h : Same shmem nworkers (.atomic i) s s') :
    (view sems shmem nworkers s').atomic i = (view sems shmem nworkers s).atomic i := by
  simp only [view]
  cases hget : shmem.atomics[i]? with
  | none => rfl
  | some object =>
    have hblock : objectBlock shmem .atomic i = object.block .atomic := objectBlock_eq hget
    rw [Same, Part.block, hblock] at h
    exact Memory.load64_congr (by decide) h

theorem view_status {workerno : ℕ} (h : Same shmem nworkers (.status workerno) s s') :
    (view sems shmem nworkers s').status workerno =
      (view sems shmem nworkers s).status workerno := by
  simp only [view]
  split_ifs with hlt
  · rw [Same, block_status hlt] at h
    exact h _ (Block.mem_one_iff.2 rfl)
  · rfl

theorem view_requestCounter (h : Same shmem nworkers .requestCounter s s') :
    (view sems shmem nworkers s').requestCounter = (view sems shmem nworkers s).requestCounter :=
  Memory.load64_congr (by decide) h

theorem view_shouldExitImmediately (h : Same shmem nworkers .shouldExitImmediately s s') :
    (view sems shmem nworkers s').shouldExitImmediately =
      (view sems shmem nworkers s).shouldExitImmediately :=
  h _ (Block.mem_one_iff.2 rfl)

/-- The objects `o`, with one of `o'` in the place of its counterpart. -/
def Objects.replace (o o' : Objects) : Part → Objects
  | .semaphore i => { o with semaphore := update o.semaphore i (o'.semaphore i) }
  | .atomic i => { o with atomic := update o.atomic i (o'.atomic i) }
  | .status workerno => { o with status := update o.status workerno (o'.status workerno) }
  | .requestCounter => { o with requestCounter := o'.requestCounter }
  | .shouldExitImmediately => { o with shouldExitImmediately := o'.shouldExitImmediately }

/-- A function that differs at one place only. -/
theorem eq_update_of_ne {β : Type} {f g : ℕ → β} {i : ℕ} (h : ∀ j, j ≠ i → g j = f j) :
    g = update f i (g i) := by
  funext j
  by_cases hj : j = i
  · rw [hj, update_self]
  · rw [update_of_ne hj, h j hj]

theorem eq_replace {o o' : Objects} {p : Part}
    (hsemaphore : ∀ i, .semaphore i ≠ p → o'.semaphore i = o.semaphore i)
    (hatomic : ∀ i, .atomic i ≠ p → o'.atomic i = o.atomic i)
    (hstatus : ∀ i, .status i ≠ p → o'.status i = o.status i)
    (hcounter : .requestCounter ≠ p → o'.requestCounter = o.requestCounter)
    (hflag : .shouldExitImmediately ≠ p → o'.shouldExitImmediately = o.shouldExitImmediately) :
    o' = o.replace o' p := by
  cases p with
  | semaphore i =>
    exact Objects.ext (eq_update_of_ne fun j hj => hsemaphore j (by simpa using hj))
      (funext fun j => hatomic j (by simp)) (funext fun j => hstatus j (by simp))
      (hcounter (by simp)) (hflag (by simp))
  | atomic i =>
    exact Objects.ext (funext fun j => hsemaphore j (by simp))
      (eq_update_of_ne fun j hj => hatomic j (by simpa using hj))
      (funext fun j => hstatus j (by simp)) (hcounter (by simp)) (hflag (by simp))
  | status workerno =>
    exact Objects.ext (funext fun j => hsemaphore j (by simp)) (funext fun j => hatomic j (by simp))
      (eq_update_of_ne fun j hj => hstatus j (by simpa using hj)) (hcounter (by simp))
      (hflag (by simp))
  | requestCounter =>
    exact Objects.ext (funext fun j => hsemaphore j (by simp)) (funext fun j => hatomic j (by simp))
      (funext fun j => hstatus j (by simp)) rfl (hflag (by simp))
  | shouldExitImmediately =>
    exact Objects.ext (funext fun j => hsemaphore j (by simp)) (funext fun j => hatomic j (by simp))
      (funext fun j => hstatus j (by simp)) (hcounter (by simp)) rfl

theorem pc_of_step (h : step sems shmem nworkers s a = some (s', es)) {i : ℕ}
    (hne : .semaphore i ≠ owner a) : s'.pc i = s.pc i := by
  cases a with
  | semaphore j b =>
    simp only [step] at h
    split at h
    · cases h
    · split_ifs at h
      obtain ⟨r, -, heq⟩ := Option.map_eq_some_iff.1 h
      obtain ⟨rfl, -⟩ := Prod.mk.inj heq
      exact update_of_ne (by simpa [owner] using hne) ..
  | atomic j process method =>
    simp only [step] at h
    split at h
    · cases h
    · obtain ⟨rfl, -⟩ := Prod.mk.inj (Option.some.inj h)
      rfl
  | setWorkerStatus workerno status =>
    simp only [step] at h
    split_ifs at h
    obtain ⟨rfl, -⟩ := Prod.mk.inj (Option.some.inj h)
    rfl
  | increaseRequestCounter | setShouldExitImmediately =>
    obtain ⟨rfl, -⟩ := Prod.mk.inj (Option.some.inj h)
    rfl

/-- **A step changes the view of one part only.** -/
theorem view_of_step (hl : Layout shmem nworkers)
    (h : step sems shmem nworkers s a = some (s', es)) :
    view sems shmem nworkers s' =
      (view sems shmem nworkers s).replace (view sems shmem nworkers s') (owner a) :=
  eq_replace (fun _ hne => view_semaphore (same_of_step hl h hne) (pc_of_step h hne))
    (fun _ hne => view_atomic (same_of_step hl h hne))
    (fun _ hne => view_status (same_of_step hl h hne))
    (fun hne => view_requestCounter (same_of_step hl h hne))
    (fun hne => view_shouldExitImmediately (same_of_step hl h hne))

/-! ## The same runs -/

theorem semaphore_eq {i : ℕ} {object : Object} (h : shmem.semaphores[i]? = some object)
    (s : State) : (view sems shmem nworkers s).semaphore i =
      count sems object.pointer ⟨s.segment, s.pc i⟩ := by
  simp only [view, h, Option.map_some, Option.getD_some, count]

theorem step_semaphore (hl : Layout shmem nworkers) (s : State) (i : ℕ) (b : Semaphore.Action) :
    (objects shmem nworkers).step (view sems shmem nworkers s) (.semaphore i b) =
      (step sems shmem nworkers s (.semaphore i b)).map fun r =>
        (view sems shmem nworkers r.1, r.2) := by
  cases hget : shmem.semaphores[i]? with
  | none =>
    have hlen : ¬ i < shmem.semaphores.length := by
      rwa [List.getElem?_eq_none_iff, ← Nat.not_lt] at hget
    simp [objects, Objects.step, step, hlen]
  | some object =>
    obtain ⟨hlen, -⟩ := List.getElem?_eq_some_iff.1 hget
    have hview : (view sems shmem nworkers s).semaphore i =
        count sems object.pointer ⟨s.segment, s.pc i⟩ := semaphore_eq hget s
    cases hb : isCall b with
    | false =>
      cases b with
      | elsewhere x byte =>
        simp [objects, Objects.step, step, hget, isCall, Count.step]
      | _ => cases hb
    | true =>
      have hcount := @count_step sems object.pointer ⟨s.segment, s.pc i⟩ b hb
      rw [← hview] at hcount
      cases hstep : Semaphore.step sems object.pointer ⟨s.segment, s.pc i⟩ b with
      | none =>
        rw [hstep, Option.map_none] at hcount
        simp [objects, Objects.step, step, hget, hb, hstep, ← hcount]
      | some r =>
        rw [hstep, Option.map_some] at hcount
        have hs : step sems shmem nworkers s (.semaphore i b) =
            some (⟨r.1.segment, update s.pc i r.1.pc⟩, r.2.map (.semaphore i)) := by
          simp [step, hget, hb, hstep]
        have hnew : (view sems shmem nworkers
            ⟨r.1.segment, update s.pc i r.1.pc⟩).semaphore i = count sems object.pointer r.1 := by
          rw [semaphore_eq hget]
          dsimp only
          rw [update_self]
        rw [hs, Option.map_some, view_of_step hl hs, owner, Objects.replace, hnew]
        simp only [objects, Objects.step, if_pos hlen, ← hcount, Option.map_some]

theorem step_atomic (hl : Layout shmem nworkers) (s : State) (i process : ℕ) (method : Method) :
    (objects shmem nworkers).step (view sems shmem nworkers s) (.atomic i process method) =
      (step sems shmem nworkers s (.atomic i process method)).map fun r =>
        (view sems shmem nworkers r.1, r.2) := by
  cases hget : shmem.atomics[i]? with
  | none =>
    have hlen : ¬ i < shmem.atomics.length := by
      rwa [List.getElem?_eq_none_iff, ← Nat.not_lt] at hget
    simp [objects, Objects.step, step, hlen]
  | some object =>
    obtain ⟨hlen, -⟩ := List.getElem?_eq_some_iff.1 hget
    have hview (s : State) : (view sems shmem nworkers s).atomic i =
        s.segment.load64 object.pointer := by
      simp only [view, hget, Option.map_some, Option.getD_some]
    have hcall := load64_call_eq s.segment object.pointer method
    have hs : step sems shmem nworkers s (.atomic i process method) =
        some ({ s with segment := (method.call s.segment object.pointer).1 },
          [.atomic i ⟨process, method, (method.call s.segment object.pointer).2⟩]) := by
      simp only [step, hget]
    rw [hs, Option.map_some, view_of_step hl hs, owner, Objects.replace, hview]
    simp only [objects, Objects.step, if_pos hlen, hview, ← hcall]

theorem view_step (hl : Layout shmem nworkers) (s : State) (a : Action) :
    (objects shmem nworkers).step (view sems shmem nworkers s) a =
      ((machine sems shmem nworkers).step s a).map fun r =>
        (view sems shmem nworkers r.1, r.2) := by
  change _ = (step sems shmem nworkers s a).map _
  cases a with
  | semaphore i b => exact step_semaphore hl s i b
  | atomic i process method => exact step_atomic hl s i process method
  | setWorkerStatus workerno status =>
    by_cases hlt : workerno < nworkers
    · have hs : step sems shmem nworkers s (.setWorkerStatus workerno status) =
          some ({ s with segment := Shmem.setWorkerStatus s.segment workerno status },
            [.statusStored workerno status]) := if_pos hlt
      have hbyte : Shmem.setWorkerStatus s.segment workerno status (workerStatusPointer workerno) =
          status := Memory.write_of_mem (Block.mem_one_iff.2 rfl)
      rw [hs, Option.map_some, view_of_step hl hs, owner, Objects.replace]
      simp only [objects, Objects.step, if_pos hlt, view, hbyte]
    · simp [objects, Objects.step, step, hlt]
  | increaseRequestCounter =>
    have hs : step sems shmem nworkers s .increaseRequestCounter =
        some ({ s with segment := (Shmem.increaseRequestCounter s.segment).1 },
          [.requestCounted (readRequestCounter s.segment)]) := rfl
    rw [hs, Option.map_some, view_of_step hl hs, owner, Objects.replace]
    simp only [objects, Objects.step, view, counter_increaseRequestCounter]
  | setShouldExitImmediately =>
    have hs : step sems shmem nworkers s .setShouldExitImmediately =
        some ({ s with segment := (Shmem.setShouldExitImmediately s.segment).1 },
          [.setShouldExit (Shmem.setShouldExitImmediately s.segment).2]) := rfl
    rw [hs, Option.map_some, view_of_step hl hs, owner, Objects.replace]
    simp only [objects, Objects.step, view, flag_setShouldExitImmediately]
    rfl

/-! ## What the loader leaves -/

variable {mapping : Memory 64} {tr₀ : List Shmem.Event} {u : Shmem.State}

/-- The registry that the loader leaves is laid out well. -/
theorem layout_of_reach (hn : nworkers ≤ 2048) (h : Shmem.Reach nworkers mapping tr₀ u)
    (hattempts : attempts tr₀ < 2 ^ 58) (hroot : u.processes 0 = some shmem) :
    Layout shmem nworkers := by
  obtain ⟨root, h₀, -, hledger, -⟩ := (registry_of_reach h).ledger
  rw [hroot, Option.some.injEq] at h₀
  subst h₀
  have hledger := hledger hattempts
  refine ⟨fun _ _ => hledger.inUserArea, ?_, hn⟩
  intro kind kind' i j object object' hi hj hne
  have hmem : ∀ {kind object}, object ∈ shmem.objects kind → (kind, object) ∈ creations tr₀ := by
    intro kind object h
    rw [hledger.objects] at h
    obtain ⟨⟨kind₀, object₀⟩, hmem, heq⟩ := List.mem_filterMap.1 h
    dsimp only at heq
    split_ifs at heq with hkind
    obtain rfl := Option.some.inj heq
    exact hkind ▸ hmem
  have hdistinct : (kind, object) ≠ (kind', object') := by
    intro heq
    obtain ⟨rfl, rfl⟩ := Prod.mk.inj heq
    have hnodup : (shmem.objects kind).Nodup := by
      rw [hledger.objects]
      exact List.Nodup.of_map _ (hledger.names kind)
    obtain ⟨hlt, -⟩ := List.getElem?_eq_some_iff.1 hi
    exact hne (congrArg (kind, ·) ((List.getElem?_inj hlt hnodup).1 (hi.trans hj.symm)))
  have hpairwise := pairwise_disjoint hledger.pairwise fun c hc => (hledger.blocks c hc).2.2.2
  have hsymm : Std.Symm fun c d : Kind × Object => (c.2.block c.1).Disjoint (d.2.block d.1) :=
    ⟨fun _ _ h => h.symm⟩
  exact hpairwise.forall (hmem (List.mem_of_getElem? hi)) (hmem (List.mem_of_getElem? hj)) hdistinct

/-- **The segment is as good as independent objects**: after any run of the loader, the processes
can do to it what they could do to the objects, with the same answers, and nothing else. -/
theorem reach_objects_iff (sems : Semaphores sizeofSem) (hn : nworkers ≤ 2048)
    (h : Shmem.Reach nworkers mapping tr₀ u) (hattempts : attempts tr₀ < 2 ^ 58)
    (hroot : u.processes 0 = some shmem) {tr : List Event} {o : Objects} :
    (∃ s, (machine sems shmem nworkers).Reach (start u.segment) tr s ∧
        view sems shmem nworkers s = o) ↔
      (objects shmem nworkers).Reach (view sems shmem nworkers (start u.segment)) tr o :=
  Machine.reach_view_iff _ (view_step (layout_of_reach hn h hattempts hroot))

/-- A loader that creates a semaphore and an atomic. -/
def twoCreations : List Shmem.Action :=
  [.create 0 (.newSemaphore [115] 1) (.ok (Semaphore.plain.init 1)),
    .create 0 (.newAtomicInt64 [97] 7) (.ok fun _ => 0), .lockAllocations]

theorem isSome_exec_twoCreations :
    ((Shmem.machine 1).exec (init fun _ => 0) twoCreations).isSome := by
  decide

/-- The state after it. -/
def afterTwoCreations : Shmem.State :=
  (((Shmem.machine 1).exec (init fun _ => 0) twoCreations).get isSome_exec_twoCreations).1

/-- The registry. -/
def twoObjects : SharedMemory := ⟨[⟨16, [115]⟩], [⟨48, [97]⟩], true, 64⟩

/-- A worker has acquired the semaphore, added to the atomic and set its status; another process
asks for the semaphore in vain. -/
def acquiredAndAdded : List Action :=
  [.semaphore 0 (.acquire 1), .semaphore 0 (.succeeds 1 0), .atomic 0 1 (.fetchAdd (-3)),
    .setWorkerStatus 0 83, .semaphore 0 (.tryAcquire 2), .semaphore 0 (.fails 2 0 .eagain),
    .increaseRequestCounter]

theorem isSome_exec_acquiredAndAdded : ((machine Semaphore.plain twoObjects 1).exec
    (start afterTwoCreations.segment) acquiredAndAdded).isSome := by
  decide

theorem reach_objects_iff_acquiredAndAdded : ∃ tr o,
    (objects twoObjects 1).Reach
      (view Semaphore.plain twoObjects 1 (start afterTwoCreations.segment)) tr o ∧
    .atomic 0 ⟨1, .fetchAdd (-3), some 7⟩ ∈ tr ∧ (o.semaphore 0).value = 0 ∧ o.atomic 0 = 4 ∧
      o.status 0 = 83 ∧ o.requestCounter = 1 := by
  have hloader : Shmem.Reach 1 (fun _ => 0) _ afterTwoCreations :=
    Machine.reach_exec isSome_exec_twoCreations
  have hrun := Machine.reach_exec isSome_exec_acquiredAndAdded
  exact ⟨_, _, (reach_objects_iff Semaphore.plain (by decide) hloader (by decide)
    (by decide)).1 ⟨_, hrun, rfl⟩, by decide, by decide, by decide, by decide, by decide⟩

end BladePSGI.Perl.SharedObjects
