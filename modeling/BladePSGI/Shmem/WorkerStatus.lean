import BladePSGI.Shmem.Step

/-!
# The worker status array

`main` accepts up to 65536 workers, but between the array's offset and the end of the segment there
are 2048 bytes. For that many workers the array is what it is meant to be, one register a worker
(`RegistersRight`), whatever the allocator does in the meantime; for more it is not.

* `Registers`: the invariant.
* `registersRight_iff`: the array is right in every run exactly if there are at most 2048 workers.
-/

namespace BladePSGI.Shmem

open Function Transition

variable {nworkers : ℕ} {mapping : Memory 64} {s s' : State} {tr es : List Event} {a : Action}

/-! ## The allocator stays away from the array -/

theorem toNat_shmemAlign (memoff : BitVec 64) : (shmemAlign memoff).toNat =
    if memoff.toNat % 16 = 0 then memoff.toNat
    else (memoff.toNat + (16 - memoff.toNat % 16)) % 2 ^ 64 := by
  have hmod : (memoff % alignof).toNat = memoff.toNat % 16 := rfl
  have hzero : memoff % alignof = 0 ↔ memoff.toNat % 16 = 0 := by
    rw [← hmod, ← BitVec.toNat_inj]
    rfl
  unfold shmemAlign
  simp only [hzero]
  split_ifs with h
  · rfl
  · have hsub : (alignof - memoff % alignof).toNat = 16 - memoff.toNat % 16 := by
      rw [BitVec.toNat_sub, hmod, alignof]
      simp
      omega
    rw [BitVec.toNat_add, hsub]

theorem bump_aligned (shmem : SharedMemory) (size : ℕ) :
    (shmem.bump size).nextUserAvailableOffset.toNat % 16 = 0 := by
  rw [SharedMemory.bump, toNat_shmemAlign]
  split_ifs <;> omega

/-- The address is in the array or behind it in the segment. -/
def InArray (a : Offset) : Prop := 2048 ≤ a.toNat ∧ a.toNat < shmemSize

theorem Kind.size_le (kind : Kind) : kind.size ≤ 32 := by
  cases kind <;> decide

/-- An allocation that is let through is not in the array, even where the offset has wrapped. -/
theorem bump_avoids {shmem : SharedMemory} {size : ℕ} (hsize : size ≤ 32)
    (halign : shmem.nextUserAvailableOffset.toNat % 16 = 0)
    (h : (shmem.bump size).nextUserAvailableOffset < workerStatusArrayOff) :
    ∀ a ∈ (⟨shmem.nextUserAvailableOffset, size⟩ : Block 64), ¬ InArray a := by
  rintro a ha ⟨hlo, hhi⟩
  have hsz : (BitVec.ofNat 64 size).toNat = size := by
    rw [BitVec.toNat_ofNat]
    omega
  have ha : (a - shmem.nextUserAvailableOffset).toNat < size := ha
  rw [SharedMemory.bump, BitVec.lt_def, toNat_shmemAlign, BitVec.toNat_add, hsz] at h
  rw [BitVec.toNat_sub] at ha
  have hoff : workerStatusArrayOff.toNat = 2048 := rfl
  have := shmem.nextUserAvailableOffset.isLt
  have := a.isLt
  rw [shmemSize] at hhi
  split_ifs at h <;> omega

/-! ## The registers -/

theorem toNat_workerStatusPointer {i : ℕ} (h : i < 65536) :
    (workerStatusPointer i).toNat = 2048 + i := by
  rw [workerStatusPointer, BitVec.toNat_add, BitVec.toNat_ofNat]
  have hoff : workerStatusArrayOff.toNat = 2048 := rfl
  omega

theorem workerStatusPointer_succ (i : ℕ) :
    workerStatusPointer i + 1 = workerStatusPointer (i + 1) := by
  rw [workerStatusPointer, workerStatusPointer, BitVec.ofNat_add, BitVec.add_assoc]
  rfl

theorem inArray_workerStatusPointer (hn : nworkers ≤ 2048) {i : ℕ} (hi : i < nworkers) :
    InArray (workerStatusPointer i) := by
  rw [InArray, toNat_workerStatusPointer (by omega), shmemSize]
  omega

/-- The header is not in the array. -/
theorem notMem_header {a : Offset} (ha : InArray a) :
    a ∉ (⟨requestCounterOff, 8⟩ : Block 64) ∧ a ∉ (⟨shouldExitImmediatelyOff, 1⟩ : Block 64) := by
  obtain ⟨hlo, hhi⟩ := ha
  rw [shmemSize] at hhi
  have hcounter : requestCounterOff.toNat = 8 := rfl
  have hflag : shouldExitImmediatelyOff.toNat = 0 := rfl
  constructor <;> rw [Block.mem_iff, BitVec.toNat_sub] <;> dsimp only <;> omega

/-- The last byte that the worker has stored. -/
def lastStatus (tr : List Event) (workerno : ℕ) : Byte :=
  tr.foldl (fun status e =>
    match e with
    | .statusStored w _ status' => if w = workerno then status' else status
    | _ => status) 0

/-- `GetAllWorkerStatuses` has loaded the bytes of `out` since it was last called. -/
def Loaded (tr : List Event) (out : List Byte) : Prop :=
  ∃ l₁ l₂, tr = l₁ ++ .scanBegun :: l₂ ∧ .scanBegun ∉ l₂ ∧
    ∀ i, (h : i < out.length) → .statusLoaded i (workerStatusPointer i) (out.get ⟨i, h⟩) ∈ l₂

/-- What the status array promises, at the end of a run. -/
structure RegistersRight (nworkers : ℕ) (tr : List Event) (s : State) : Prop where
  /-- Every store and load is in the segment. -/
  inside : ∀ i pointer status, .statusStored i pointer status ∈ tr ∨
    .statusLoaded i pointer status ∈ tr → pointer.toNat < shmemSize
  /-- Every load finds the last byte that the worker has stored. -/
  loads : Each (fun tr e => ∀ i pointer status, e = .statusLoaded i pointer status →
    status = lastStatus tr i) tr
  /-- `GetAllWorkerStatuses` returns what it has loaded, one byte a worker. -/
  returns : Each (fun tr e => ∀ out, e = .statuses out → out.length = nworkers ∧ Loaded tr out) tr
  /-- A store changes nothing else. -/
  frame : ∀ i status s' es, (machine nworkers).step s (.setWorkerStatus i status) = some (s', es) →
    (∀ j < nworkers, j ≠ i →
      s'.segment (workerStatusPointer j) = s.segment (workerStatusPointer j)) ∧
    (∀ process shmem, s.processes process = some shmem → ∀ kind, ∀ object ∈ shmem.objects kind,
      ∀ a ∈ object.block kind, s'.segment a = s.segment a) ∧
    readRequestCounter s'.segment = readRequestCounter s.segment ∧
    s'.segment shouldExitImmediatelyOff = s.segment shouldExitImmediatelyOff

/-- The allocator of a process is aligned, and its objects stay out of the array. -/
structure SharedMemory.Apart (shmem : SharedMemory) : Prop where
  aligned : shmem.nextUserAvailableOffset.toNat % 16 = 0
  avoids : ∀ kind, ∀ object ∈ shmem.objects kind, ∀ a ∈ object.block kind, ¬ InArray a

/-- **The invariant of the array.** -/
structure Registers (nworkers : ℕ) (tr : List Event) (s : State) : Prop where
  apart : ∀ process shmem, s.processes process = some shmem → shmem.Apart
  status : ∀ i < nworkers, s.segment (workerStatusPointer i) = lastStatus tr i
  scan : ∀ scan, s.scan = some scan → scan.out.length ≤ nworkers ∧
    scan.mem = workerStatusPointer scan.out.length ∧ Loaded tr scan.out

theorem lastStatus_concat (tr : List Event) (e : Event) (i : ℕ)
    (he : ∀ pointer status, e ≠ .statusStored i pointer status) :
    lastStatus (tr ++ [e]) i = lastStatus tr i := by
  rw [lastStatus, List.foldl_append, List.foldl_cons, List.foldl_nil]
  split
  · rename_i w pointer status
    rw [if_neg fun h => he pointer status (by rw [h])]
    rfl
  · rfl

theorem lastStatus_store (tr : List Event) (i : ℕ) (pointer : Offset) (status : Byte) :
    lastStatus (tr ++ [.statusStored i pointer status]) i = status := by
  simp [lastStatus]

theorem Loaded.append {out : List Byte} (h : Loaded tr out) (hes : .scanBegun ∉ es) :
    Loaded (tr ++ es) out := by
  obtain ⟨l₁, l₂, rfl, hlast, hout⟩ := h
  exact ⟨l₁, l₂ ++ es, by simp, by simp [hlast, hes],
    fun i h => List.mem_append_left es (hout i h)⟩

namespace Registers

theorem init (mapping : Memory 64) (hn : nworkers ≤ 2048) :
    Registers nworkers [] (init mapping) := by
  have hp : ∀ process shmem,
      (Shmem.init mapping).processes process = some shmem → shmem = .new := by
    intro process shmem h
    by_cases hz : process = 0
    · subst hz
      exact (Option.some.inj h).symm
    · simp [Shmem.init, hz] at h
  refine ⟨fun process shmem h => ?_, fun i hi => ?_, fun scan h => by simp [Shmem.init] at h⟩
  · rw [hp process shmem h]
    exact ⟨by decide, fun kind => by cases kind <;> simp [SharedMemory.new, SharedMemory.objects]⟩
  · change clear mapping (workerStatusPointer i) = 0
    rw [clear, Memory.write_of_mem]
    have := (inArray_workerStatusPointer hn hi).2
    simpa [Block.mem_iff] using this

/-- A step that stays out of the array. -/
theorem congr (hr : Registers nworkers tr s) (hn : nworkers ≤ 2048)
    (hp : ∀ process shmem, s'.processes process = some shmem → shmem.Apart)
    (hseg : ∀ a, InArray a → s'.segment a = s.segment a) (hscan : s'.scan = s.scan)
    (hes : ∀ i, lastStatus (tr ++ es) i = lastStatus tr i) (hbegun : .scanBegun ∉ es) :
    Registers nworkers (tr ++ es) s' where
  apart := hp
  status i hi := by rw [hseg _ (inArray_workerStatusPointer hn hi), hes, hr.status i hi]
  scan scan h := by
    obtain ⟨hle, hmem, hload⟩ := hr.scan scan (hscan ▸ h)
    exact ⟨hle, hmem, hload.append hbegun⟩

/-- A creation stays out of the array. -/
theorem apart_create {shmem shmem' : SharedMemory} {segment segment' : Memory 64} {call : Call}
    {result : Except Error Offset} (h : Creates shmem segment call shmem' segment' result)
    (hapart : shmem.Apart) :
    shmem'.Apart ∧ ∀ a, InArray a → segment' a = segment a := by
  have hbump : (shmem.bump call.kind.size).Apart :=
    ⟨bump_aligned _ _, fun kind => by simpa using hapart.avoids kind⟩
  cases h with
  | refused => exact ⟨hapart, fun _ _ => rfl⟩
  | exhausted => exact ⟨hbump, fun _ _ => rfl⟩
  | initFails _ _ hlt hout =>
    have hnew := bump_avoids call.kind.size_le hapart.aligned hlt
    exact ⟨hbump, fun a ha => hout a fun hmem => hnew a hmem ha⟩
  | created _ _ hlt hout =>
    have hnew := bump_avoids call.kind.size_le hapart.aligned hlt
    refine ⟨⟨?_, fun kind object hmem => ?_⟩, fun a ha => hout a fun hmem => hnew a hmem ha⟩
    · simpa using hbump.aligned
    · rw [SharedMemory.mem_objects_register, SharedMemory.objects_bump] at hmem
      rcases hmem with hold | ⟨rfl, rfl⟩
      · exact hapart.avoids kind object hold
      · exact hnew

/-- A step that gives one process a new object. -/
theorem apart_update (hr : Registers nworkers tr s) {process : ℕ} {shmem : SharedMemory}
    (h : shmem.Apart) (q : ℕ) (shmem' : SharedMemory)
    (hq : update s.processes process (some shmem) q = some shmem') : shmem'.Apart := by
  by_cases hqp : q = process
  · rw [hqp, update_self, Option.some.injEq] at hq
    exact hq ▸ h
  · rw [update_of_ne hqp] at hq
    exact hr.apart q shmem' hq

theorem setWorkerStatus_step (hr : Registers nworkers tr s) (hn : nworkers ≤ 2048) {i : ℕ}
    (status : Byte) (hi : i < nworkers) :
    Registers nworkers (tr ++ [.statusStored i (workerStatusPointer i) status])
      { s with segment := setWorkerStatus s.segment i status } := by
  refine ⟨hr.apart, fun j hj => ?_, fun scan h => ?_⟩
  · change setWorkerStatus s.segment i status (workerStatusPointer j) = _
    by_cases hij : j = i
    · subst hij
      rw [lastStatus_store, setWorkerStatus, Memory.write_of_mem (Block.mem_one_iff.2 rfl)]
    · have hne : workerStatusPointer j ≠ workerStatusPointer i := by
        intro h
        have := congrArg BitVec.toNat h
        rw [toNat_workerStatusPointer (by omega), toNat_workerStatusPointer (by omega)] at this
        omega
      rw [lastStatus_concat _ _ _ (by simp [Ne.symm hij]), setWorkerStatus,
        Memory.write_of_notMem (by rwa [Block.mem_one_iff]), hr.status j hj]
  · obtain ⟨hle, hmem, hload⟩ := hr.scan scan h
    exact ⟨hle, hmem, hload.append (by simp)⟩

theorem scanNext_step (hr : Registers nworkers tr s) {scan : Scan} (h : s.scan = some scan)
    (hlt : scan.out.length < nworkers) :
    Registers nworkers
      (tr ++ [.statusLoaded scan.out.length scan.mem (s.segment scan.mem)])
      { s with scan := some (scan.next s.segment) } := by
  obtain ⟨-, hmem, l₁, l₂, rfl, hlast, hout⟩ := hr.scan scan h
  refine ⟨hr.apart, fun i hi => ?_, ?_⟩
  · rw [lastStatus_concat _ _ _ (by simp), ← hr.status i hi]
  · rintro scan' ⟨⟩
    refine ⟨by simp [Scan.next]; omega, ?_, l₁, l₂ ++ [_], by simp; rfl, by simp [hlast], ?_⟩
    · change scan.mem + 1 = workerStatusPointer (scan.out ++ [s.segment scan.mem]).length
      rw [hmem, workerStatusPointer_succ, List.length_append, List.length_singleton]
    · intro i hi
      simp only [Scan.next, List.length_append, List.length_singleton] at hi
      by_cases hnew : i = scan.out.length
      · subst hnew
        simp [Scan.next, hmem]
      · have := hout i (by omega)
        refine List.mem_append_left _ ?_
        simpa [Scan.next, List.getElem_append_left (by omega : i < scan.out.length)] using this

theorem step (hr : Registers nworkers tr s) (hn : nworkers ≤ 2048)
    (h : Step nworkers s a s' es) : Registers nworkers (tr ++ es) s' := by
  have hquiet : ∀ e, (∀ i pointer status, e ≠ .statusStored i pointer status) → ∀ i,
      lastStatus (tr ++ [e]) i = lastStatus tr i := fun e he i => lastStatus_concat tr e i (he i)
  cases h with
  | @create process call semInit shmem shmem' segment result hp hc =>
    have hreport :
        (∀ i pointer status, report process call result ≠ .statusStored i pointer status) ∧
        report process call result ≠ .scanBegun := by
      cases result <;> simp [report]
    obtain ⟨hshmem, hseg⟩ := apart_create hc (hr.apart _ _ hp)
    exact hr.congr hn (hr.apart_update hshmem) hseg rfl (hquiet _ hreport.1)
      (by simpa using hreport.2.symm)
  | lock _ hp =>
    have h := hr.apart _ _ hp
    exact hr.congr hn (hr.apart_update ⟨h.aligned, fun kind => by simpa using h.avoids kind⟩)
      (fun _ _ => rfl) rfl (hquiet _ (by simp)) (by simp)
  | @fork child _ _ =>
    refine hr.congr hn (fun q shmem hq => ?_) (fun _ _ => rfl) rfl (hquiet _ (by simp)) (by simp)
    by_cases hqc : q = child
    · exact hr.apart 0 shmem (by simpa [hqc] using hq)
    · exact hr.apart q shmem (by simpa [hqc] using hq)
  | setWorkerStatus hlt => exact hr.setWorkerStatus_step hn _ hlt
  | scanBegin =>
    refine ⟨hr.apart, fun i hi => ?_, ?_⟩
    · rw [hquiet _ (by simp), ← hr.status i hi]
    · rintro scan ⟨⟩
      exact ⟨Nat.zero_le _, by simp [Scan.start, workerStatusPointer], tr, [], rfl, by simp,
        by simp [Scan.start]⟩
  | scanNext h hlt => exact hr.scanNext_step h hlt
  | scanEnd =>
    refine ⟨hr.apart, fun i hi => ?_, by simp⟩
    rw [hquiet _ (by simp), ← hr.status i hi]
  | increaseRequestCounter =>
    refine hr.congr hn hr.apart (fun a ha => ?_) rfl (hquiet _ (by simp)) (by simp)
    exact Memory.store64_of_notMem (notMem_header ha).1
  | setShouldExitImmediately =>
    refine hr.congr hn hr.apart (fun a ha => ?_) rfl (hquiet _ (by simp)) (by simp)
    exact setShouldExitImmediately_of_notMem (notMem_header ha).2
  | update hp hobject =>
    exact hr.congr hn hr.apart
      (fun a ha => Memory.write_of_notMem fun hmem =>
        (hr.apart _ _ hp).avoids _ _ hobject a hmem ha)
      rfl (by simp) (by simp)

end Registers

theorem registers_of_reach (hn : nworkers ≤ 2048) (h : Reach nworkers mapping tr s) :
    Registers nworkers tr s := by
  refine h.invariant (Registers nworkers) (.init mapping hn) ?_
  rintro tr s a s' es - hr - hs
  exact hr.step hn (step_cases hs)

/-! ## What the registers promise -/

theorem length_events (h : Step nworkers s a s' es) : es.length ≤ 1 := by
  cases h <;> simp

/-- Where a store or a load of a status goes. -/
theorem status_pointer (hr : Registers nworkers tr s) (h : Step nworkers s a s' es) {i : ℕ}
    {pointer : Offset} {status : Byte}
    (he : .statusStored i pointer status ∈ es ∨ .statusLoaded i pointer status ∈ es) :
    i < nworkers ∧ pointer = workerStatusPointer i := by
  cases h with
  | @create process call _ _ _ _ result => cases result <;> simp [report] at he
  | setWorkerStatus hlt =>
    obtain ⟨rfl, rfl, rfl⟩ : i = _ ∧ pointer = _ ∧ status = _ := by simpa using he
    exact ⟨hlt, rfl⟩
  | scanNext hscan hlt =>
    obtain ⟨rfl, rfl, rfl⟩ : i = _ ∧ pointer = _ ∧ status = _ := by simpa using he
    exact ⟨hlt, (hr.scan _ hscan).2.1⟩
  | _ => simp at he

theorem inside_of_reach (hn : nworkers ≤ 2048) (h : Reach nworkers mapping tr s) {i : ℕ}
    {pointer : Offset} {status : Byte}
    (he : .statusStored i pointer status ∈ tr ∨ .statusLoaded i pointer status ∈ tr) :
    pointer.toNat < shmemSize := by
  refine h.invariant (fun tr _ => .statusStored i pointer status ∈ tr ∨
    .statusLoaded i pointer status ∈ tr → pointer.toNat < shmemSize) (by simp) ?_ he
  intro tr s a s' es hreach ih _ hs he
  rw [List.mem_append, List.mem_append, or_or_or_comm] at he
  rcases he with he | he
  · exact ih he
  · obtain ⟨hi, rfl⟩ := status_pointer (registers_of_reach hn hreach) (step_cases hs) he
    exact (inArray_workerStatusPointer hn hi).2

theorem loads_of_reach (hn : nworkers ≤ 2048) (h : Reach nworkers mapping tr s) :
    Each (fun tr e => ∀ i pointer status, e = .statusLoaded i pointer status →
      status = lastStatus tr i) tr := by
  refine h.each _ (fun s a s' es hs => length_events (step_cases hs)) ?_
  rintro tr s a s' e hreach hs i pointer status rfl
  have hr := registers_of_reach hn hreach
  obtain ⟨hi, rfl⟩ := status_pointer hr (step_cases hs) (Or.inr List.mem_cons_self)
  rw [← hr.status i hi]
  generalize hes : [Event.statusLoaded i (workerStatusPointer i) status] = es at hs
  cases step_cases hs with
  | @create process call _ _ _ _ result => cases result <;> simp [report] at hes
  | scanNext hscan hlt =>
    obtain ⟨-, hmem, rfl⟩ : _ ∧ _ ∧ status = _ := by simpa using hes
    rw [hmem]
  | _ => simp at hes

theorem returns_of_reach (hn : nworkers ≤ 2048) (h : Reach nworkers mapping tr s) :
    Each (fun tr e => ∀ out, e = .statuses out → out.length = nworkers ∧ Loaded tr out) tr := by
  refine h.each _ (fun s a s' es hs => length_events (step_cases hs)) ?_
  rintro tr s a s' e hreach hs out rfl
  generalize hes : [Event.statuses out] = es at hs
  cases step_cases hs with
  | @create process call _ _ _ _ result => cases result <;> simp [report] at hes
  | scanEnd hscan hle =>
    obtain rfl : out = _ := by simpa using hes
    obtain ⟨hle', -, hload⟩ := (registers_of_reach hn hreach).scan _ hscan
    exact ⟨Nat.le_antisymm hle' hle, hload⟩
  | _ => simp at hes

/-- A store of a status changes one byte of the array. -/
theorem frame_setWorkerStatus (hn : nworkers ≤ 2048) (hr : Registers nworkers tr s) {i : ℕ}
    {status : Byte} (h : Step nworkers s (.setWorkerStatus i status) s' es) :
    (∀ j < nworkers, j ≠ i →
      s'.segment (workerStatusPointer j) = s.segment (workerStatusPointer j)) ∧
    (∀ process shmem, s.processes process = some shmem → ∀ kind, ∀ object ∈ shmem.objects kind,
      ∀ a ∈ object.block kind, s'.segment a = s.segment a) ∧
    readRequestCounter s'.segment = readRequestCounter s.segment ∧
    s'.segment shouldExitImmediatelyOff = s.segment shouldExitImmediatelyOff := by
  cases h with
  | setWorkerStatus hi =>
    have hin := inArray_workerStatusPointer hn hi
    have houtside : ∀ a, a ≠ workerStatusPointer i →
        setWorkerStatus s.segment i status a = s.segment a :=
      fun a ha => Memory.write_of_notMem (by rwa [Block.mem_one_iff])
    refine ⟨fun j hj hji => houtside _ ?_, ?_, ?_, houtside _ ?_⟩
    · intro heq
      have := congrArg BitVec.toNat heq
      rw [toNat_workerStatusPointer (by omega), toNat_workerStatusPointer (by omega)] at this
      omega
    · intro process shmem hp kind object hobject a ha
      refine houtside a ?_
      rintro rfl
      exact (hr.apart process shmem hp).avoids kind object hobject _ ha hin
    · refine Memory.load64_congr (by decide) fun a ha => houtside a ?_
      rintro rfl
      exact (notMem_header hin).1 ha
    · intro heq
      exact (notMem_header hin).2 (Block.mem_one_iff.2 heq.symm)

theorem registersRight_of_reach (hn : nworkers ≤ 2048) (h : Reach nworkers mapping tr s) :
    RegistersRight nworkers tr s where
  inside _ _ _ he := inside_of_reach hn h he
  loads := loads_of_reach hn h
  returns := returns_of_reach hn h
  frame _ _ _ _ hs := frame_setWorkerStatus hn (registers_of_reach hn h) (step_cases hs)

/-- The first store of a worker whose byte is behind the segment. -/
theorem not_inside (h : 2048 < nworkers) (mapping : Memory 64) :
    ∃ tr s, Reach nworkers mapping tr s ∧ ¬ RegistersRight nworkers tr s := by
  have hs : (machine nworkers).step (init mapping) (.setWorkerStatus 2048 1) =
      some (_, [.statusStored 2048 (workerStatusPointer 2048) 1]) := if_pos h
  refine ⟨_, _, .one hs, fun hr => ?_⟩
  exact absurd (hr.inside 2048 _ 1 (Or.inl List.mem_cons_self)) (by decide)

/-- **The array holds 2048 workers.** The worker status array is one register a worker, inside the
segment and apart from everything else, in every run exactly if there are at most 2048 workers. -/
theorem registersRight_iff (nworkers : ℕ) :
    (∀ mapping tr s, Reach nworkers mapping tr s → RegistersRight nworkers tr s) ↔
      nworkers ≤ 2048 := by
  constructor
  · intro h
    by_contra hn
    obtain ⟨tr, s, hreach, hr⟩ := not_inside (Nat.lt_of_not_le hn) fun _ => 0
    exact hr (h _ tr s hreach)
  · intro hn mapping tr s h
    exact registersRight_of_reach hn h

/-- The counterexample to the registers: 2049 workers, which `main` accepts. -/
theorem not_registersRight : ¬ ∀ nworkers, 1 ≤ nworkers → nworkers ≤ 65536 →
    ∀ mapping tr s, Reach nworkers mapping tr s → RegistersRight nworkers tr s := by
  intro h
  obtain ⟨tr, s, hreach, hr⟩ := not_inside (show 2048 < 2049 by decide) fun _ => 0
  exact hr (h 2049 (by decide) (by decide) _ tr s hreach)

end BladePSGI.Shmem
