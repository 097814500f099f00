import BladePSGI.Shmem.WorkerStatus
import Mathlib.Data.List.Nodup

/-!
# The allocator and the registry

`AllocateUserShmem` hands out one block after the other, `NewSemaphore` and `NewAtomicInt64` record
them under their names, and `LockAllocations` ends both for good before the first process is
forked. `Ledger` is the invariant; it compares the registry with the creations of the trace.

* `registry_frozen`: the blocks are aligned, disjoint and between the header and the worker status
  array, the names are distinct, and after the lock all processes have one registry that no call
  can change.
-/

namespace BladePSGI.Shmem

open Function Transition

variable {nworkers : ℕ} {mapping : Memory 64} {s s' : State} {tr es : List Event} {a : Action}

/-! ## The creations of a trace -/

/-- The calls of `NewSemaphore` and `NewAtomicInt64`, whether they succeeded or not. -/
def attempts (tr : List Event) : ℕ :=
  tr.countP fun e =>
    match e with
    | .created .. | .threw .. => true
    | _ => false

/-- The object that an event creates. -/
def Event.creation : Event → Option (Kind × Object)
  | .created _ kind object => some (kind, object)
  | _ => none

/-- The objects that were created, in order. -/
def creations (tr : List Event) : List (Kind × Object) := tr.filterMap Event.creation

/-- The created objects of one kind. -/
def creationsOf (tr : List Event) (kind : Kind) : List Object :=
  (creations tr).filterMap fun c => if c.1 = kind then some c.2 else none

theorem attempts_append (tr es : List Event) : attempts (tr ++ es) = attempts tr + attempts es :=
  List.countP_append

theorem creations_append (tr es : List Event) :
    creations (tr ++ es) = creations tr ++ creations es :=
  List.filterMap_append

theorem creationsOf_append (tr es : List Event) (kind : Kind) :
    creationsOf (tr ++ es) kind = creationsOf tr kind ++ creationsOf es kind := by
  rw [creationsOf, creations_append, List.filterMap_append]
  rfl

/-! ## The allocator -/

/-- Without a wrap, the offset moves past the block, and by at most 32 bytes. -/
theorem toNat_bump {shmem : SharedMemory} (kind : Kind)
    (halign : shmem.nextUserAvailableOffset.toNat % 16 = 0)
    (hroom : shmem.nextUserAvailableOffset.toNat + 64 < 2 ^ 64) :
    shmem.nextUserAvailableOffset.toNat + kind.size ≤
        (shmem.bump kind.size).nextUserAvailableOffset.toNat ∧
      (shmem.bump kind.size).nextUserAvailableOffset.toNat ≤
        shmem.nextUserAvailableOffset.toNat + 32 := by
  have hsz : (BitVec.ofNat 64 kind.size).toNat = kind.size := by
    cases kind <;> rfl
  have hsize : kind.size = 8 ∨ kind.size = 32 := by
    cases kind
    · exact Or.inr rfl
    · exact Or.inl rfl
  rw [SharedMemory.bump, toNat_shmemAlign, BitVec.toNat_add, hsz]
  split_ifs <;> omega

/-- The registry of the runner against the creations of the trace. -/
structure Ledger (tr : List Event) (shmem : SharedMemory) : Prop where
  aligned : shmem.nextUserAvailableOffset.toNat % 16 = 0
  low : 16 ≤ shmem.nextUserAvailableOffset.toNat
  bound : shmem.nextUserAvailableOffset.toNat ≤ 16 + 32 * attempts tr
  objects : ∀ kind, shmem.objects kind = creationsOf tr kind
  names : ∀ kind, ((creationsOf tr kind).map Object.name).Nodup
  blocks : ∀ c ∈ creations tr, c.2.pointer.toNat % 16 = 0 ∧ 16 ≤ c.2.pointer.toNat ∧
    c.2.pointer.toNat + c.1.size ≤ shmem.nextUserAvailableOffset.toNat ∧
    c.2.pointer.toNat + c.1.size ≤ workerStatusArrayOff.toNat
  pairwise : (creations tr).Pairwise fun c d => c.2.pointer.toNat + c.1.size ≤ d.2.pointer.toNat

namespace Ledger

variable {shmem shmem' : SharedMemory}

theorem new : Ledger [] .new := by
  refine ⟨by decide, by decide, by decide, fun kind => ?_, fun kind => ?_, by simp [creations],
    by simp [creations]⟩
  · cases kind <;> rfl
  · simp [creationsOf, creations]

/-- Events that create nothing, with the offset possibly moved on. -/
theorem quiet (hl : Ledger tr shmem) (hes : ∀ e ∈ es, e.creation = none)
    (halign : shmem'.nextUserAvailableOffset.toNat % 16 = 0)
    (hle : shmem.nextUserAvailableOffset.toNat ≤ shmem'.nextUserAvailableOffset.toNat)
    (hbound : shmem'.nextUserAvailableOffset.toNat ≤ 16 + 32 * attempts (tr ++ es))
    (hobjects : ∀ kind, shmem'.objects kind = shmem.objects kind) : Ledger (tr ++ es) shmem' := by
  have hc : creations (tr ++ es) = creations tr := by
    rw [creations_append, show creations es = [] from List.filterMap_eq_nil_iff.2 hes,
      List.append_nil]
  have hco : ∀ kind, creationsOf (tr ++ es) kind = creationsOf tr kind := fun kind => by
    rw [creationsOf, hc]
    rfl
  refine ⟨halign, Nat.le_trans hl.low hle, hbound, fun kind => ?_, fun kind => ?_, ?_, ?_⟩
  · rw [hobjects, hco, hl.objects]
  · rw [hco]
    exact hl.names kind
  · rw [hc]
    intro c hmem
    obtain ⟨h₁, h₂, h₃, h₄⟩ := hl.blocks c hmem
    exact ⟨h₁, h₂, Nat.le_trans h₃ hle, h₄⟩
  · rw [hc]
    exact hl.pairwise

/-- A successful creation. -/
theorem created (hl : Ledger tr shmem) (process : ℕ) {kind : Kind} {name : Name}
    (hname : ∀ object ∈ shmem.objects kind, object.name ≠ name)
    (hlt : (shmem.bump kind.size).nextUserAvailableOffset < workerStatusArrayOff)
    (hroom : shmem.nextUserAvailableOffset.toNat + 64 < 2 ^ 64) :
    Ledger (tr ++ [.created process kind ⟨shmem.nextUserAvailableOffset, name⟩])
      ((shmem.bump kind.size).register ⟨shmem.nextUserAvailableOffset, name⟩ kind) := by
  obtain ⟨hpast, hstep⟩ := toNat_bump kind hl.aligned hroom
  have hc : creations (tr ++ [.created process kind ⟨shmem.nextUserAvailableOffset, name⟩]) =
      creations tr ++ [(kind, ⟨shmem.nextUserAvailableOffset, name⟩)] := by
    rw [creations_append]
    rfl
  have hco : ∀ kind',
      creationsOf (tr ++ [.created process kind ⟨shmem.nextUserAvailableOffset, name⟩])
      kind' = creationsOf tr kind' ++ if kind = kind' then
        [⟨shmem.nextUserAvailableOffset, name⟩] else [] := by
    intro kind'
    rw [creationsOf_append]
    by_cases hk : kind = kind' <;> simp [creationsOf, creations, Event.creation, hk]
  refine ⟨?_, ?_, ?_, fun kind' => ?_, fun kind' => ?_, ?_, ?_⟩
  case refine_1 => simpa using bump_aligned shmem kind.size
  case refine_2 =>
    have := hl.low
    rw [SharedMemory.nextUserAvailableOffset_register]
    omega
  case refine_3 =>
    have := hl.bound
    rw [SharedMemory.nextUserAvailableOffset_register, attempts_append]
    simp only [attempts, List.countP_singleton, if_true] at this ⊢
    omega
  case refine_4 =>
    rw [hco, ← hl.objects]
    cases kind <;> cases kind' <;>
      simp [SharedMemory.register, SharedMemory.objects, SharedMemory.bump]
  case refine_5 =>
    rw [hco, List.map_append]
    by_cases hk : kind = kind'
    · subst hk
      refine (hl.names kind).append (by simp) ?_
      rw [← hl.objects kind]
      simpa using hname
    · simpa [hk] using hl.names kind'
  case refine_6 =>
    rw [hc, SharedMemory.nextUserAvailableOffset_register]
    intro c hmem
    rw [List.mem_append, List.mem_singleton] at hmem
    rw [BitVec.lt_def] at hlt
    rcases hmem with hmem | rfl
    · obtain ⟨h₁, h₂, h₃, h₄⟩ := hl.blocks c hmem
      exact ⟨h₁, h₂, by omega, h₄⟩
    · exact ⟨hl.aligned, hl.low, hpast, by dsimp only; omega⟩
  case refine_7 =>
    rw [hc]
    refine List.pairwise_append.2 ⟨hl.pairwise, List.pairwise_singleton _ _, ?_⟩
    intro c hmem d hd
    rw [List.mem_singleton] at hd
    subst hd
    exact (hl.blocks c hmem).2.2.1

/-- Events that have nothing to do with the allocator. -/
theorem append (hl : Ledger tr shmem) (hes : ∀ e ∈ es, e.creation = none)
    (hobjects : ∀ kind, shmem'.objects kind = shmem.objects kind)
    (hnext : shmem'.nextUserAvailableOffset = shmem.nextUserAvailableOffset) :
    Ledger (tr ++ es) shmem' := by
  refine hl.quiet hes (hnext ▸ hl.aligned) (Nat.le_of_eq (congrArg _ hnext.symm)) ?_ hobjects
  have := hl.bound
  rw [attempts_append, hnext]
  omega

theorem create (hl : Ledger tr shmem) (process : ℕ) {segment segment' : Memory 64} {call : Call}
    {result : Except Error Offset} (h : Creates shmem segment call shmem' segment' result)
    (hn : attempts tr < 2 ^ 58) : Ledger (tr ++ [report process call result]) shmem' := by
  have hbound := hl.bound
  have hroom : shmem.nextUserAvailableOffset.toNat + 64 < 2 ^ 64 := by omega
  obtain ⟨hpast, hstep⟩ := toNat_bump call.kind hl.aligned hroom
  have hone : ∀ e, attempts (tr ++ [report process call (.error e)]) = attempts tr + 1 := by
    intro e
    rw [attempts_append]
    rfl
  cases h with
  | refused => exact hl.append (by simp [report, Event.creation]) (fun _ => rfl) rfl
  | exhausted =>
    exact hl.quiet (by simp [report, Event.creation]) (bump_aligned _ _) (by omega)
      (by rw [hone]; omega) (shmem.objects_bump _)
  | initFails =>
    exact hl.quiet (by simp [report, Event.creation]) (bump_aligned _ _) (by omega)
      (by rw [hone]; omega) (shmem.objects_bump _)
  | created _ hname hlt => exact hl.created process hname hlt hroom

end Ledger

/-! ## The processes -/

/-- **The invariant of the registry.** Before the lock the runner is alone; after it all processes
hold the same locked object. -/
structure Registry (tr : List Event) (s : State) : Prop where
  ledger : ∃ shmem, s.processes 0 = some shmem ∧ shmem.locked = s.spawning ∧
    (attempts tr < 2 ^ 58 → Ledger tr shmem) ∧
    ∀ process shmem', s.processes process = some shmem' →
      shmem' = shmem ∧ (s.spawning = false → process = 0)
  locked : .locked ∈ tr → s.spawning = true

theorem update_cases {f : ℕ → Option SharedMemory} {p q : ℕ} {v x : SharedMemory}
    (h : update f p (some v) q = some x) : (q = p ∧ x = v) ∨ (q ≠ p ∧ f q = some x) := by
  by_cases hq : q = p
  · rw [hq, update_self, Option.some.injEq] at h
    exact Or.inl ⟨hq, h.symm⟩
  · rw [update_of_ne hq] at h
    exact Or.inr ⟨hq, h⟩

namespace Registry

theorem init (mapping : Memory 64) : Registry [] (init mapping) := by
  refine ⟨⟨.new, rfl, rfl, fun _ => .new, fun process shmem' h => ?_⟩, by simp⟩
  by_cases hp : process = 0
  · subst hp
    exact ⟨(Option.some.inj h).symm, fun _ => rfl⟩
  · simp [Shmem.init, hp] at h

/-- A step that leaves the objects of the processes alone. -/
theorem congr (hr : Registry tr s) (hp : s'.processes = s.processes)
    (hs : s'.spawning = s.spawning) (hes : ∀ e ∈ es, e.creation = none ∧ e ≠ .locked) :
    Registry (tr ++ es) s' := by
  obtain ⟨⟨shmem, h₀, hlock, hl, hall⟩, hlocked⟩ := hr
  refine ⟨⟨shmem, hp ▸ h₀, hs ▸ hlock, fun hn => ?_, ?_⟩, fun hmem => ?_⟩
  · rw [attempts_append] at hn
    exact (hl (by omega)).append (fun e he => (hes e he).1) (fun _ => rfl) rfl
  · rw [hp, hs]
    exact hall
  · rw [hs]
    exact hlocked ((List.mem_append.1 hmem).resolve_right fun h => (hes _ h).2 rfl)

/-- A creation, before the lock and after it. -/
theorem create_step (hr : Registry tr s) {process : ℕ} {shmem shmem' : SharedMemory}
    {segment : Memory 64} {call : Call} {result : Except Error Offset}
    (hp : s.processes process = some shmem)
    (hc : Creates shmem s.segment call shmem' segment result) :
    Registry (tr ++ [report process call result])
      { s with segment, processes := update s.processes process (some shmem') } := by
  obtain ⟨⟨root, h₀, hlock, hl, hall⟩, hlocked⟩ := hr
  obtain ⟨rfl, hroot⟩ := hall process shmem hp
  have hlocked' : .locked ∈ tr ++ [report process call result] → s.spawning = true := by
    intro hmem
    refine hlocked ((List.mem_append.1 hmem).resolve_right ?_)
    cases result <;> simp [report]
  have hledger : attempts (tr ++ [report process call result]) < 2 ^ 58 →
      Ledger (tr ++ [report process call result]) shmem' := by
    intro hn
    rw [attempts_append] at hn
    exact (hl (by omega)).create process hc (by omega)
  by_cases hspawn : s.spawning = true
  case pos =>
    obtain rfl : shmem' = shmem := by
      cases hc with
      | refused => rfl
      | exhausted hunlocked | initFails _ hunlocked | created hunlocked =>
        simp [hunlocked, hspawn] at hlock
    have hsame : update s.processes process (some shmem') = s.processes := by
      rw [← hp, update_eq_self]
    exact ⟨⟨shmem', by rw [hsame]; exact h₀, hlock, hledger, by rw [hsame]; exact hall⟩, hlocked'⟩
  case neg =>
    rw [Bool.not_eq_true] at hspawn
    obtain rfl := hroot hspawn
    have hlock' : shmem'.locked = s.spawning := by
      rw [← hlock]
      cases hc <;> try rfl
      cases call <;> rfl
    refine ⟨⟨shmem', by simp, hlock', hledger, fun q shmem'' hq => ?_⟩, hlocked'⟩
    rcases update_cases hq with ⟨rfl, rfl⟩ | ⟨hq0, hq⟩
    · exact ⟨rfl, fun _ => rfl⟩
    · exact absurd ((hall q shmem'' hq).2 hspawn) hq0

theorem step (hr : Registry tr s) (h : Step nworkers s a s' es) : Registry (tr ++ es) s' := by
  have hr' := hr
  obtain ⟨⟨root, h₀, hlock, hl, hall⟩, hlocked⟩ := hr'
  cases h with
  | create hp hc => exact hr.create_step hp hc
  | @lock shmem hs hp hunlocked =>
    obtain ⟨rfl, -⟩ := hall 0 shmem hp
    refine ⟨⟨{ shmem with locked := true }, by simp, rfl, fun hn => ?_, fun q shmem'' hq => ?_⟩,
      fun _ => rfl⟩
    · rw [attempts_append] at hn
      exact (hl (by omega)).append (by simp [Event.creation]) (shmem.objects_lock true) rfl
    · rcases update_cases hq with ⟨rfl, rfl⟩ | ⟨hq0, hq⟩
      · exact ⟨rfl, fun _ => rfl⟩
      · exact absurd ((hall q shmem'' hq).2 hs) hq0
  | @fork child hs hp =>
    have hchild : 0 ≠ child := by
      rintro rfl
      simp [h₀] at hp
    refine ⟨⟨root, (update_of_ne hchild ..).trans h₀, hlock, fun hn => ?_, fun q shmem'' hq => ?_⟩,
      fun _ => hs⟩
    · rw [attempts_append] at hn
      exact (hl (by omega)).append (by simp [Event.creation]) (fun _ => rfl) rfl
    · rw [h₀] at hq
      refine ⟨?_, fun h => by simp [hs] at h⟩
      rcases update_cases hq with ⟨-, rfl⟩ | ⟨-, hq⟩
      · rfl
      · exact (hall q shmem'' hq).1
  | _ => exact hr.congr rfl rfl (by simp [Event.creation])

end Registry

theorem registry_of_reach (h : Reach nworkers mapping tr s) : Registry tr s := by
  refine h.invariant Registry (.init mapping) ?_
  rintro tr s a s' es - hr - hs
  exact hr.step (step_cases hs)

/-! ## The registry is frozen -/

/-- After the lock a creation throws and changes nothing. -/
theorem create_locked {shmem : SharedMemory} (hlock : shmem.locked = true) (segment : Memory 64)
    (semInit : SemInit) (call : Call) :
    ∃ e, create shmem segment semInit call = (shmem, segment, .error e) := by
  have h := create_cases shmem segment semInit call
  generalize create shmem segment semInit call = result at h
  obtain ⟨shmem', segment', result⟩ := result
  dsimp only at h
  cases h with
  | refused e => exact ⟨e, rfl⟩
  | exhausted hunlocked | initFails _ hunlocked | created hunlocked => simp [hlock] at hunlocked

/-- After the lock no step changes the object of a process. -/
theorem processes_step (hr : Registry tr s) (hspawn : s.spawning = true)
    (h : Step nworkers s a s' es) : s'.processes 0 = s.processes 0 ∧ s'.spawning = true := by
  obtain ⟨⟨root, h₀, hlock, -, hall⟩, -⟩ := hr
  cases h with
  | @create process _ _ shmem shmem' _ _ hp hc =>
    refine ⟨?_, hspawn⟩
    obtain ⟨rfl, -⟩ := hall process shmem hp
    cases hc with
    | refused => exact congrFun (by rw [← hp, update_eq_self] :
        update s.processes process (some shmem) = s.processes) 0
    | exhausted hunlocked | initFails _ hunlocked | created hunlocked =>
      simp [hunlocked, hspawn] at hlock
  | lock hs => simp [hspawn] at hs
  | @fork child _ hp =>
    refine ⟨update_of_ne ?_ .., hspawn⟩
    rintro rfl
    simp [h₀] at hp
  | _ => exact ⟨rfl, hspawn⟩

theorem processes_of_reach {tr' : List Event} (h : Reach nworkers mapping tr s)
    (hspawn : s.spawning = true) (h' : (machine nworkers).Reach s tr' s') :
    s'.processes 0 = s.processes 0 := by
  refine (h'.invariant (fun _ t => t.processes 0 = s.processes 0 ∧ t.spawning = true)
    ⟨rfl, hspawn⟩ ?_).1
  rintro tr' t a t' es hreach ⟨h₀, hs⟩ - hstep
  have hr := registry_of_reach (Machine.Reach.trans h hreach)
  obtain ⟨h₀', hs'⟩ := processes_step hr hs (step_cases hstep)
  exact ⟨h₀'.trans h₀, hs'⟩

/-- A process that has been forked keeps its object. -/
theorem processes_step_of_ne (hr : Registry tr s) {process : ℕ} {shmem : SharedMemory}
    (hne : process ≠ 0) (hp : s.processes process = some shmem) (h : Step nworkers s a s' es) :
    s'.processes process = some shmem := by
  obtain ⟨⟨root, h₀, hlock, -, hall⟩, -⟩ := hr
  obtain ⟨rfl, hroot⟩ := hall process shmem hp
  have hspawn : s.spawning = true := by
    by_contra hs
    exact hne (hroot (Bool.eq_false_iff.2 hs))
  cases h with
  | @create q _ _ shmem₁ shmem' _ _ hq hc =>
    obtain ⟨rfl, -⟩ := hall q shmem₁ hq
    cases hc with
    | refused =>
      have hsame : update s.processes q (some shmem₁) = s.processes := by
        rw [← hq, update_eq_self]
      exact (congrFun hsame process).trans hp
    | exhausted hunlocked | initFails _ hunlocked | created hunlocked =>
      simp [hunlocked, hspawn] at hlock
  | lock hs => simp [hspawn] at hs
  | @fork child _ hchild =>
    have hother : process ≠ child := by
      rintro rfl
      simp [hp] at hchild
    exact (update_of_ne hother ..).trans hp
  | _ => exact hp

theorem pairwise_disjoint {cs : List (Kind × Object)}
    (h : cs.Pairwise fun c d => c.2.pointer.toNat + c.1.size ≤ d.2.pointer.toNat)
    (hin : ∀ c ∈ cs, c.2.pointer.toNat + c.1.size ≤ 2048) :
    cs.Pairwise fun c d => (c.2.block c.1).Disjoint (d.2.block d.1) := by
  refine h.imp_of_mem fun {c d} hc hd hle a hac had => ?_
  have hac : (a - c.2.pointer).toNat < c.1.size := hac
  have had : (a - d.2.pointer).toNat < d.1.size := had
  rw [BitVec.toNat_sub] at hac had
  have := hin c hc
  have := hin d hd
  have := a.isLt
  omega

/-- **Shared objects are disjoint and the registry is frozen at the lock.** -/
theorem registry_frozen (h : Reach nworkers mapping tr s) (hn : attempts tr < 2 ^ 58) :
    (∀ c ∈ creations tr, 16 ≤ c.2.pointer.toNat ∧ c.2.pointer.toNat + c.1.size ≤ 2048 ∧
      ∀ segment : ℕ, 4096 ∣ segment → 16 ∣ segment + c.2.pointer.toNat) ∧
    (creations tr).Pairwise (fun c d => (c.2.block c.1).Disjoint (d.2.block d.1)) ∧
    (∀ kind, ((creationsOf tr kind).map Object.name).Nodup) ∧
    (.locked ∈ tr → ∀ process shmem, s.processes process = some shmem →
      (∀ segment semInit call, ∃ e,
        create shmem segment semInit call = (shmem, segment, .error e)) ∧
      ∀ tr' s', (machine nworkers).Reach s tr' s' →
        ∀ process' shmem', s'.processes process' = some shmem' → shmem' = shmem) := by
  have hr := registry_of_reach h
  obtain ⟨root, h₀, hlock, hl, hall⟩ := hr.ledger
  have hledger := hl hn
  have hin : ∀ c ∈ creations tr, c.2.pointer.toNat + c.1.size ≤ 2048 :=
    fun c hc => (hledger.blocks c hc).2.2.2
  refine ⟨fun c hc => ?_, pairwise_disjoint hledger.pairwise hin, hledger.names, ?_⟩
  · obtain ⟨halign, hlow, -, -⟩ := hledger.blocks c hc
    refine ⟨hlow, hin c hc, fun segment hseg => ?_⟩
    omega
  · intro hmem process shmem hp
    have hspawn := hr.locked hmem
    obtain ⟨rfl, -⟩ := hall process shmem hp
    refine ⟨create_locked (hlock.trans hspawn), fun tr' s' h' process' shmem' hp' => ?_⟩
    obtain ⟨root', h₀', -, -, hall'⟩ := (registry_of_reach (Machine.Reach.trans h h')).ledger
    obtain ⟨rfl, -⟩ := hall' process' shmem' hp'
    rw [processes_of_reach h hspawn h', h₀, Option.some.injEq] at h₀'
    exact h₀'.symm

/-- A semaphore, an atomic, the lock, a fork and a late creation in the child. -/
def lateCreation : List Action :=
  [.create 0 (.newSemaphore [115] 1) (.ok fun _ => 0),
    .create 0 (.newAtomicInt64 [97] 7) (.ok fun _ => 0), .lockAllocations, .fork 1,
    .create 1 (.newAtomicInt64 [98] 7) (.ok fun _ => 0)]

theorem isSome_exec_lateCreation : ((machine 1).exec (init fun _ => 0) lateCreation).isSome := by
  decide

theorem registry_frozen_lateCreation : ∃ tr s, Reach 1 (fun _ => 0) tr s ∧
    .created 0 .semaphore ⟨16, [115]⟩ ∈ tr ∧ .created 0 .atomic ⟨48, [97]⟩ ∈ tr ∧
    .threw 1 .locked ∈ tr ∧
    ((creations tr).Pairwise fun c d => (c.2.block c.1).Disjoint (d.2.block d.1)) := by
  have h : Reach 1 (fun _ => 0) _ _ := Machine.reach_exec isSome_exec_lateCreation
  exact ⟨_, _, h, by decide, by decide, by decide, (registry_frozen h (by decide)).2.1⟩

end BladePSGI.Shmem
