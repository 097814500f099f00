import BladePSGI.Shmem.Allocation
import Mathlib.Algebra.Order.BigOperators.Group.List
import Mathlib.Algebra.Order.Group.Nat

/-!
# The end of the user area

`AllocateUserShmem` moves its offset on before it looks at it, and compares the start of the block
after the new one, not the end of the new one, with the start of the worker status array.

* `unnoticed_iff`: a creation that throws leaves no trace in the later ones if and only if one of
  the checks before the allocation refused it; one that runs out of memory has moved the offset.
* `unnoticed_iff_of_attempts`: the same for as many calls as the offset can count.
* `outOfMemory_iff_extends_iff`: the allocator runs out of memory exactly when the block does not
  fit, except for a semaphore at 2016 and an atomic at 2032.
-/

namespace BladePSGI.Shmem

open Function Transition

variable {nworkers : ℕ} {mapping : Memory 64} {s : State} {tr : List Event} {process : ℕ}
  {shmem : SharedMemory} {segment : Memory 64} {call : Call}

/-! ## The checks before the allocation -/

/-- The range that `NewSemaphore` checks. -/
def Call.OutsideRange : Call → Prop
  | .newSemaphore _ value => value.toInt ≤ 0 ∨ value.toInt > 2147483647
  | .newAtomicInt64 .. => False

instance (call : Call) : Decidable call.OutsideRange := by
  cases call
  · exact inferInstanceAs (Decidable (_ ∨ _))
  · exact inferInstanceAs (Decidable False)

/-- The name is taken, the value is outside of the range, or the segment is locked. -/
def SharedMemory.Refuses (shmem : SharedMemory) (call : Call) : Prop :=
  (∃ object ∈ shmem.objects call.kind, object.name = call.name) ∨ call.OutsideRange ∨
    shmem.locked = true

instance (shmem : SharedMemory) (call : Call) : Decidable (shmem.Refuses call) :=
  inferInstanceAs (Decidable (_ ∨ _ ∨ _))

/-- The same object with another offset. -/
def SharedMemory.moved (shmem : SharedMemory) (off : Offset) : SharedMemory :=
  { shmem with nextUserAvailableOffset := off }

/-- A refused creation has no effect at all, wherever the offset stands. -/
theorem create_of_refuses (h : shmem.Refuses call) (semInit : SemInit) :
    ∃ e, e ≠ .outOfMemory ∧ ∀ off segment,
      create (shmem.moved off) segment semInit call = (shmem.moved off, segment, .error e) := by
  have hlocked : ∀ size off, shmem.locked = true →
      (shmem.moved off).allocateUserShmem size = (shmem.moved off, .error .locked) :=
    fun _ _ hlock => if_pos hlock
  by_cases hany : (shmem.objects call.kind).any (·.name = call.name) = true
  · cases call with
    | newSemaphore name _ =>
      exact ⟨.semaphoreExists name, Error.noConfusion, fun _ _ => if_pos hany⟩
    | newAtomicInt64 name _ => exact ⟨.atomicExists name, Error.noConfusion, fun _ _ => if_pos hany⟩
  · have hrest : call.OutsideRange ∨ shmem.locked = true := by
      refine h.resolve_left ?_
      rintro ⟨object, hmem, heq⟩
      exact hany (List.any_eq_true.2 ⟨object, hmem, decide_eq_true heq⟩)
    cases call with
    | newSemaphore name value =>
      by_cases hrange : (Call.newSemaphore name value).OutsideRange
      · exact ⟨.outsideRange, Error.noConfusion, fun _ _ => (if_neg hany).trans (if_pos hrange)⟩
      · refine ⟨.locked, Error.noConfusion, fun off segment => ?_⟩
        refine (if_neg hany).trans ((if_neg hrange).trans ?_)
        rw [hlocked _ off (hrest.resolve_left hrange)]
    | newAtomicInt64 name value =>
      refine ⟨.locked, Error.noConfusion, fun off segment => (if_neg hany).trans ?_⟩
      rw [hlocked _ off (hrest.resolve_left id)]

/-- A creation that no check refuses: the new offset decides, then `sem_init`. -/
theorem create_of_not_refuses (h : ¬ shmem.Refuses call) (segment : Memory 64) (semInit : SemInit) :
    (workerStatusArrayOff ≤ (shmem.bump call.kind.size).nextUserAvailableOffset ∧
      create shmem segment semInit call =
        (shmem.bump call.kind.size, segment, .error .outOfMemory)) ∨
    (shmem.bump call.kind.size).nextUserAvailableOffset < workerStatusArrayOff ∧
      ((∃ errno segment', semInit = .fails errno ∧ create shmem segment semInit call =
        (shmem.bump call.kind.size, segment', .error (.syscall "sem_init" errno))) ∨
      ∃ segment', create shmem segment semInit call =
        ((shmem.bump call.kind.size).register ⟨shmem.nextUserAvailableOffset, call.name⟩ call.kind,
          segment', .ok shmem.nextUserAvailableOffset)) := by
  obtain ⟨hname, hrange, hlock⟩ : (¬ ∃ object ∈ shmem.objects call.kind, object.name = call.name) ∧
      ¬ call.OutsideRange ∧ ¬ shmem.locked = true := by
    simpa only [SharedMemory.Refuses, not_or] using h
  have hany : ¬ (shmem.objects call.kind).any (·.name = call.name) = true := by
    simpa [List.any_eq_true] using hname
  cases call with
  | newSemaphore name value =>
    have hcreate : create shmem segment semInit (.newSemaphore name value) = _ :=
      (if_neg hany).trans (if_neg hrange)
    rw [hcreate]
    rcases allocateUserShmem_cases shmem sizeofSem with ⟨hl, -⟩ | ⟨-, hle, heq⟩ | ⟨-, hlt, heq⟩
    · exact absurd hl hlock
    · rw [heq]
      exact Or.inl ⟨hle, rfl⟩
    · rw [heq]
      refine Or.inr ⟨hlt, ?_⟩
      cases semInit with
      | fails errno => exact Or.inl ⟨errno, _, rfl, rfl⟩
      | ok bytes => exact Or.inr ⟨_, rfl⟩
  | newAtomicInt64 name value =>
    have hcreate : create shmem segment semInit (.newAtomicInt64 name value) = _ := if_neg hany
    rw [hcreate]
    rcases allocateUserShmem_cases shmem sizeofInt64 with ⟨hl, -⟩ | ⟨-, hle, heq⟩ | ⟨-, hlt, heq⟩
    · exact absurd hl hlock
    · rw [heq]
      exact Or.inl ⟨hle, rfl⟩
    · rw [heq]
      exact Or.inr ⟨hlt, Or.inr ⟨_, rfl⟩⟩

/-- The new offset alone decides the answer when `sem_init` succeeds. -/
theorem create_answer (h : ¬ shmem.Refuses call) (segment : Memory 64) (bytes : ℕ → Byte) :
    (create shmem segment (.ok bytes) call).2.2 =
      if workerStatusArrayOff ≤ (shmem.bump call.kind.size).nextUserAvailableOffset then
        .error .outOfMemory
      else .ok shmem.nextUserAvailableOffset := by
  rcases create_of_not_refuses h segment (.ok bytes) with
      ⟨hle, heq⟩ | ⟨hlt, ⟨_, _, hinit, -⟩ | ⟨_, heq⟩⟩
  · rw [heq, if_pos hle]
  · cases hinit
  · rw [heq, if_neg (BitVec.not_le.2 hlt)]

/-! ## Later creations -/

/-- The answers to a sequence of creations; every `sem_init` succeeds. -/
def answers : SharedMemory → Memory 64 → List (Call × (ℕ → Byte)) → List (Except Error Offset)
  | _, _, [] => []
  | shmem, segment, (call, bytes) :: calls =>
    let (shmem, segment, answer) := create shmem segment (.ok bytes) call
    answer :: answers shmem segment calls

@[simp] theorem answers_cons (bytes : ℕ → Byte) (calls : List (Call × (ℕ → Byte))) :
    answers shmem segment ((call, bytes) :: calls) =
      (create shmem segment (.ok bytes) call).2.2 ::
        answers (create shmem segment (.ok bytes) call).1
          (create shmem segment (.ok bytes) call).2.1 calls := rfl

/-- The later calls do not notice a call. -/
def Unnoticed (shmem : SharedMemory) (segment : Memory 64) (call : Call) (bytes : ℕ → Byte)
    (later : List (Call × (ℕ → Byte))) : Prop :=
  answers (create shmem segment (.ok bytes) call).1 (create shmem segment (.ok bytes) call).2.1
    later = answers shmem segment later

theorem unnoticed_of_refuses (h : shmem.Refuses call) (bytes : ℕ → Byte)
    (later : List (Call × (ℕ → Byte))) : Unnoticed shmem segment call bytes later := by
  obtain ⟨e, -, heq⟩ := create_of_refuses h (.ok bytes)
  rw [Unnoticed, show create shmem segment (.ok bytes) call = _ from heq _ segment]
  rfl

/-- A call that throws and is not refused has run out of memory. -/
theorem create_of_throws (h : ¬ shmem.Refuses call) {bytes : ℕ → Byte} {e : Error}
    (hthrows : (create shmem segment (.ok bytes) call).2.2 = .error e) :
    workerStatusArrayOff ≤ (shmem.bump call.kind.size).nextUserAvailableOffset ∧
      create shmem segment (.ok bytes) call =
        (shmem.bump call.kind.size, segment, .error .outOfMemory) := by
  rcases create_of_not_refuses h segment (.ok bytes) with hout | ⟨-, ⟨_, _, hinit, -⟩ | ⟨_, heq⟩⟩
  · exact hout
  · cases hinit
  · rw [heq] at hthrows
    cases hthrows

/-- As many atomics as one likes, with names of lengths from `n` on. -/
def freshAtomics : ℕ → ℕ → List (Call × (ℕ → Byte))
  | _, 0 => []
  | n, k + 1 => (.newAtomicInt64 (List.replicate n 1) 0, fun _ => 0) :: freshAtomics (n + 1) k

theorem length_freshAtomics (n k : ℕ) : (freshAtomics n k).length = k := by
  induction k generalizing n with
  | zero => rfl
  | succ k ih => rw [freshAtomics, List.length_cons, ih]

/-- An unlocked object without an atomic whose name has length `n` or more. -/
structure SharedMemory.Open (shmem : SharedMemory) (n : ℕ) : Prop where
  unlocked : shmem.locked = false
  aligned : shmem.nextUserAvailableOffset.toNat % 16 = 0
  short : ∀ object ∈ shmem.atomics, object.name.length < n

namespace SharedMemory.Open

variable {shmem₁ shmem₂ : SharedMemory} {n : ℕ}

/-- Every object is open to names that are long enough. -/
theorem exists_of_unlocked (hlock : shmem.locked = false)
    (halign : shmem.nextUserAvailableOffset.toNat % 16 = 0) : ∃ n, shmem.Open n := by
  refine ⟨(shmem.atomics.map fun object => object.name.length).sum + 1, hlock, halign, ?_⟩
  intro object hmem
  exact Nat.lt_succ_of_le (List.le_sum_of_mem (List.mem_map_of_mem hmem))

theorem bump (h : shmem.Open n) (size : ℕ) : (shmem.bump size).Open n :=
  ⟨h.unlocked, bump_aligned _ _, h.short⟩

/-- An atomic takes sixteen bytes. -/
theorem bump_atomic (h : shmem.Open n) :
    (shmem.bump sizeofInt64).nextUserAvailableOffset = shmem.nextUserAvailableOffset + 16 := by
  have halign := h.aligned
  have hsz : (BitVec.ofNat 64 sizeofInt64).toNat = 8 := rfl
  apply BitVec.eq_of_toNat_eq
  rw [SharedMemory.bump, toNat_shmemAlign, BitVec.toNat_add, BitVec.toNat_add, hsz]
  have h16 : (16 : BitVec 64).toNat = 16 := rfl
  split_ifs <;> omega

/-- One more atomic. -/
theorem create_fresh (h : shmem.Open n) (segment : Memory 64) (bytes : ℕ → Byte) :
    let out := create shmem segment (.ok bytes) (.newAtomicInt64 (List.replicate n 1) 0)
    out.1.Open (n + 1) ∧ out.1.nextUserAvailableOffset = shmem.nextUserAvailableOffset + 16 ∧
      out.2.2 = if workerStatusArrayOff ≤ shmem.nextUserAvailableOffset + 16 then
        .error .outOfMemory else .ok shmem.nextUserAvailableOffset := by
  have hfresh : ¬ shmem.Refuses (.newAtomicInt64 (List.replicate n 1) 0) := by
    rintro (⟨object, hmem, hname⟩ | hrange | hlock)
    · have hlt := h.short object hmem
      rw [hname] at hlt
      simp [Call.name] at hlt
    · exact hrange
    · simp [h.unlocked] at hlock
  have hopen : (shmem.bump sizeofInt64).Open (n + 1) :=
    ⟨h.unlocked, (h.bump _).aligned, fun object hmem => Nat.lt_succ_of_lt (h.short object hmem)⟩
  have hnext := h.bump_atomic
  rcases create_of_not_refuses hfresh segment (.ok bytes) with
      ⟨hle, heq⟩ | ⟨hlt, ⟨_, _, hinit, -⟩ | ⟨_, heq⟩⟩
  · rw [heq]
    refine ⟨hopen, hnext, (if_pos ?_).symm⟩
    rwa [← hnext]
  · cases hinit
  · rw [heq]
    refine ⟨⟨h.unlocked, hopen.aligned, fun object hmem => ?_⟩, hnext, (if_neg ?_).symm⟩
    · rcases (@mem_objects_register _ _ _ .atomic .atomic).1 hmem with hold | ⟨-, rfl⟩
      · exact hopen.short object hold
      · simp [Call.name]
    · rw [← hnext]
      exact BitVec.not_le.2 hlt

/-- Two objects with different offsets are told apart when the first one's offset has come round. -/
theorem answers_ne (k : ℕ) (h₁ : shmem₁.Open n) (h₂ : shmem₂.Open n)
    (hne : shmem₁.nextUserAvailableOffset ≠ shmem₂.nextUserAvailableOffset)
    (hround : shmem₁.nextUserAvailableOffset + BitVec.ofNat 64 (16 * (k + 1)) = 0)
    (segment₁ segment₂ : Memory 64) :
    answers shmem₁ segment₁ (freshAtomics n (k + 1)) ≠
      answers shmem₂ segment₂ (freshAtomics n (k + 1)) := by
  induction k generalizing shmem₁ shmem₂ segment₁ segment₂ n with
  | zero =>
    obtain ⟨-, -, hanswer₁⟩ := h₁.create_fresh segment₁ fun _ => 0
    obtain ⟨-, -, hanswer₂⟩ := h₂.create_fresh segment₂ fun _ => 0
    have hzero : ¬ workerStatusArrayOff ≤ shmem₁.nextUserAvailableOffset + 16 := by
      rw [show shmem₁.nextUserAvailableOffset + 16 = 0 from hround]
      decide
    rw [freshAtomics, answers_cons, answers_cons, hanswer₁, hanswer₂, if_neg hzero]
    intro heq
    have hhead := (List.cons_eq_cons.1 heq).1
    split_ifs at hhead
    exact hne (Except.ok.inj hhead)
  | succ k ih =>
    obtain ⟨hopen₁, hnext₁, -⟩ := h₁.create_fresh segment₁ fun _ => 0
    obtain ⟨hopen₂, hnext₂, -⟩ := h₂.create_fresh segment₂ fun _ => 0
    rw [freshAtomics, answers_cons, answers_cons]
    intro heq
    refine ih hopen₁ hopen₂ ?_ ?_ _ _ (List.cons_eq_cons.1 heq).2
    · rwa [hnext₁, hnext₂, ne_eq, BitVec.add_left_inj]
    · rw [hnext₁, BitVec.add_assoc, ← hround]
      congr 1
      apply BitVec.eq_of_toNat_eq
      simp
      omega

end SharedMemory.Open

/-! ## Failing creations -/

/-- The offset is always a multiple of sixteen. -/
theorem aligned_of_reach (h : Reach nworkers mapping tr s)
    (hp : s.processes process = some shmem) : shmem.nextUserAvailableOffset.toNat % 16 = 0 := by
  refine h.invariant (fun _ s => ∀ process shmem, s.processes process = some shmem →
    shmem.nextUserAvailableOffset.toNat % 16 = 0) ?_ ?_ process shmem hp
  · intro process shmem hp
    have hp : update (fun _ => none) 0 (some SharedMemory.new) process = some shmem := hp
    rcases update_cases hp with ⟨-, rfl⟩ | ⟨-, h⟩
    · decide
    · cases h
  · rintro tr s a s' es - ih - hs process shmem hp
    cases step_cases hs with
    | @create q call _ old new _ _ hq hc =>
      rcases update_cases hp with ⟨-, rfl⟩ | ⟨-, hp⟩
      · cases hc with
        | refused => exact ih q _ hq
        | exhausted => exact bump_aligned ..
        | initFails => exact bump_aligned ..
        | created => simpa using bump_aligned ..
      · exact ih process shmem hp
    | @lock old _ hq =>
      rcases update_cases hp with ⟨-, rfl⟩ | ⟨-, hp⟩
      · exact ih 0 old hq
      · exact ih process shmem hp
    | @fork child _ _ =>
      by_cases hc : process = child
      · exact ih 0 shmem (by simpa [hc] using hp)
      · exact ih process shmem (by simpa [hc] using hp)
    | _ => exact ih process shmem hp

/-- The offset never stays where it was. -/
theorem bump_ne (kind : Kind) (halign : shmem.nextUserAvailableOffset.toNat % 16 = 0) :
    shmem.nextUserAvailableOffset ≠ (shmem.bump kind.size).nextUserAvailableOffset := by
  intro h
  have hsize : kind.size = 8 ∨ kind.size = 32 := by cases kind <;> decide
  have hsz : (BitVec.ofNat 64 kind.size).toNat = kind.size := by cases kind <;> rfl
  have h := congrArg BitVec.toNat h
  rw [SharedMemory.bump, toNat_shmemAlign, BitVec.toNat_add, hsz] at h
  have := shmem.nextUserAvailableOffset.isLt
  split_ifs at h <;> omega

/-- **A failed creation has no effect exactly if a check refused it.** -/
theorem unnoticed_iff (h : Reach nworkers mapping tr s) (hp : s.processes process = some shmem)
    {bytes : ℕ → Byte} {e : Error}
    (hthrows : (create shmem s.segment (.ok bytes) call).2.2 = .error e) :
    (∀ later, Unnoticed shmem s.segment call bytes later) ↔ shmem.Refuses call := by
  refine ⟨fun hall => ?_, fun hrefuses => unnoticed_of_refuses hrefuses bytes⟩
  by_contra hrefuses
  obtain ⟨-, heq⟩ := create_of_throws hrefuses hthrows
  have hlock : shmem.locked = false := by
    rw [← Bool.not_eq_true]
    exact fun hlock => hrefuses (Or.inr (Or.inr hlock))
  have halign := aligned_of_reach h hp
  obtain ⟨n, hopen⟩ := SharedMemory.Open.exists_of_unlocked hlock halign
  -- the number of atomics after which the offset of the undisturbed run is zero again
  obtain ⟨k, hk⟩ : ∃ k, shmem.nextUserAvailableOffset.toNat + 16 * (k + 1) = 2 ^ 64 := by
    have := shmem.nextUserAvailableOffset.isLt
    exact ⟨(2 ^ 64 - shmem.nextUserAvailableOffset.toNat) / 16 - 1, by omega⟩
  have hround : shmem.nextUserAvailableOffset + BitVec.ofNat 64 (16 * (k + 1)) = 0 := by
    apply BitVec.eq_of_toNat_eq
    rw [BitVec.toNat_add, BitVec.toNat_ofNat, Nat.add_mod_mod, hk]
    rfl
  have hne := hopen.answers_ne k (hopen.bump _) (bump_ne call.kind halign) hround s.segment
    s.segment
  have hsame := hall (freshAtomics n (k + 1))
  rw [Unnoticed, heq] at hsame
  exact hne hsame.symm

/-- The runner creates an atomic. -/
def createAtomic : List Action := [.create 0 (.newAtomicInt64 [1] 0) (.ok fun _ => 0)]

theorem isSome_exec_createAtomic : ((machine 1).exec (init fun _ => 0) createAtomic).isSome := by
  decide +kernel

/-- A name that is taken is refused. -/
theorem unnoticed_iff_nameTaken : ∃ tr s shmem, Reach 1 (fun _ => 0) tr s ∧
    s.processes 0 = some shmem ∧
    ∀ later, Unnoticed shmem s.segment (.newAtomicInt64 [1] 5) (fun _ => 0) later := by
  have hrun := Machine.reach_exec isSome_exec_createAtomic
  let s := (Option.get _ isSome_exec_createAtomic).1
  let shmem := (s.processes 0).get (by decide +kernel)
  have hp : s.processes 0 = some shmem := (Option.some_get _).symm
  have hthrows : (create shmem s.segment (.ok fun _ => 0) (.newAtomicInt64 [1] 5)).2.2 =
      .error (.atomicExists [1]) := by
    decide +kernel
  exact ⟨_, s, shmem, hrun, hp, (unnoticed_iff hrun hp hthrows).2 (by decide +kernel)⟩

/-- 62 semaphores and an atomic: 32 bytes are left. -/
def almostFull : List (Call × (ℕ → Byte)) :=
  (List.range 62).map (fun i => (.newSemaphore [BitVec.ofNat 8 (i + 1)] 1, fun _ => 0)) ++
    [(.newAtomicInt64 [1] 0, fun _ => 0)]

/-- The object that has created them. -/
def filled : SharedMemory where
  semaphores := (List.range 62).map fun i =>
    ⟨BitVec.ofNat 64 (16 + 32 * i), [BitVec.ofNat 8 (i + 1)]⟩
  atomics := [⟨2000, [1]⟩]
  locked := false
  nextUserAvailableOffset := 2016

theorem reach_filled : ∃ tr s, Reach 1 (fun _ => 0) tr s ∧ s.processes 0 = some filled := by
  have h : ((machine 1).exec (init fun _ => 0)
      (almostFull.map fun c => .create 0 c.1 (.ok c.2))).bind (·.1.processes 0) = some filled := by
    decide +kernel
  obtain ⟨⟨s, tr⟩, hexec, hp⟩ := Option.bind_eq_some_iff.1 h
  exact ⟨tr, s, Machine.reach_of_exec hexec, hp⟩

theorem filled_refuses_not_semaphore : ¬ filled.Refuses (.newSemaphore [100] 1) := by
  decide +kernel

/-- There is no room for the 32 bytes of a semaphore, as the end would be 2048. -/
theorem filled_answer_semaphore (segment : Memory 64) :
    (create filled segment (.ok fun _ => 0) (.newSemaphore [100] 1)).2.2 = .error .outOfMemory :=
  (create_answer filled_refuses_not_semaphore segment _).trans (if_pos (by decide +kernel))

/-- A semaphore that does not fit takes the space of a last atomic with it. -/
theorem not_unnoticed : ¬ ∀ (nworkers : ℕ) (mapping : Memory 64) (tr : List Event) (s : State)
    (process : ℕ) (shmem : SharedMemory) (call : Call) (bytes : ℕ → Byte) (e : Error),
    Reach nworkers mapping tr s → s.processes process = some shmem →
    (create shmem s.segment (.ok bytes) call).2.2 = .error e →
    ∀ later, Unnoticed shmem s.segment call bytes later := by
  intro h
  obtain ⟨tr, s, hrun, hp⟩ := reach_filled
  have hthrows := filled_answer_semaphore s.segment
  have hsame := h 1 _ _ s 0 filled _ _ _ hrun hp hthrows [(.newAtomicInt64 [2] 0, fun _ => 0)]
  obtain ⟨-, hbumped⟩ := create_of_throws filled_refuses_not_semaphore hthrows
  rw [Unnoticed, hbumped, answers_cons, answers_cons, List.cons_eq_cons] at hsame
  have hhead := hsame.1
  dsimp only at hhead
  rw [create_answer (by decide +kernel), create_answer (by decide +kernel)] at hhead
  exact absurd hhead (by decide +kernel)

/-! ## As many creations as the offset can count -/

/-- The offset after a creation, without a wrap. -/
theorem bump_le (kind : Kind) (halign : shmem.nextUserAvailableOffset.toNat % 16 = 0)
    (hroom : shmem.nextUserAvailableOffset.toNat + 64 < 2 ^ 64) :
    shmem.nextUserAvailableOffset.toNat + 16 ≤
      (shmem.bump kind.size).nextUserAvailableOffset.toNat := by
  obtain ⟨hle, -⟩ := toNat_bump kind halign hroom
  have hnew := bump_aligned shmem kind.size
  have hsize : kind.size = 8 ∨ kind.size = 32 := by cases kind <;> decide
  omega

@[simp] theorem refuses_moved {off : Offset} :
    (shmem.moved off).Refuses call ↔ shmem.Refuses call := by
  have hobjects : (shmem.moved off).objects call.kind = shmem.objects call.kind := by
    cases call.kind <;> rfl
  rw [SharedMemory.Refuses, SharedMemory.Refuses, hobjects]
  rfl

/-- Behind the last place for a block every creation that is not refused moves the offset on. -/
theorem create_of_exhausted (h : ¬ shmem.Refuses call) {off : Offset}
    (halign : off.toNat % 16 = 0) (hlow : 2032 ≤ off.toNat) (hroom : off.toNat + 64 < 2 ^ 64)
    (segment : Memory 64) (bytes : ℕ → Byte) :
    ∃ off', off'.toNat % 16 = 0 ∧ off.toNat ≤ off'.toNat ∧ off'.toNat ≤ off.toNat + 32 ∧
      create (shmem.moved off) segment (.ok bytes) call =
        (shmem.moved off', segment, .error .outOfMemory) := by
  have hle := @bump_le (shmem.moved off) call.kind halign hroom
  obtain ⟨-, hstep⟩ := @toNat_bump (shmem.moved off) call.kind halign hroom
  change off.toNat + 16 ≤ _ at hle
  rcases create_of_not_refuses (mt refuses_moved.1 h) segment (.ok bytes) with ⟨-, heq⟩ | ⟨hlt, -⟩
  · exact ⟨_, bump_aligned .., by omega, hstep, heq⟩
  · have hoff : workerStatusArrayOff.toNat = 2048 := rfl
    rw [BitVec.lt_def] at hlt
    omega

/-- Two objects that differ in the offset only, both behind the last place for a block. -/
theorem answers_of_exhausted (later : List (Call × (ℕ → Byte))) {off₁ off₂ : Offset}
    (halign₁ : off₁.toNat % 16 = 0) (halign₂ : off₂.toNat % 16 = 0) (hlow₁ : 2032 ≤ off₁.toNat)
    (hlow₂ : 2032 ≤ off₂.toNat) (hroom₁ : off₁.toNat + 32 * later.length + 64 < 2 ^ 64)
    (hroom₂ : off₂.toNat + 32 * later.length + 64 < 2 ^ 64) (segment : Memory 64) :
    answers (shmem.moved off₁) segment later = answers (shmem.moved off₂) segment later := by
  induction later generalizing off₁ off₂ with
  | nil => rfl
  | cons c later ih =>
    obtain ⟨call, bytes⟩ := c
    rw [List.length_cons] at hroom₁ hroom₂
    by_cases hrefuses : shmem.Refuses call
    case pos =>
      obtain ⟨e, -, heq⟩ := create_of_refuses hrefuses (.ok bytes)
      rw [answers_cons, answers_cons, heq, heq]
      exact congrArg _ (ih halign₁ halign₂ hlow₁ hlow₂ (by omega) (by omega))
    case neg =>
      obtain ⟨off₁', halign₁', hle₁, hstep₁, heq₁⟩ :=
        create_of_exhausted hrefuses halign₁ hlow₁ (by omega) segment bytes
      obtain ⟨off₂', halign₂', hle₂, hstep₂, heq₂⟩ :=
        create_of_exhausted hrefuses halign₂ hlow₂ (by omega) segment bytes
      rw [answers_cons, answers_cons, heq₁, heq₂]
      exact congrArg _ (ih halign₁' halign₂' (by omega) (by omega) (by omega) (by omega))

/-- **Within reach of the offset** a failed creation has no effect exactly if a check refused it or
there was no place left for another block. -/
theorem unnoticed_iff_of_attempts (h : Reach nworkers mapping tr s)
    (hp : s.processes process = some shmem) (hn : attempts tr < 2 ^ 57) {bytes : ℕ → Byte}
    {e : Error}
    (hthrows : (create shmem s.segment (.ok bytes) call).2.2 = .error e) :
    (∀ later, later.length < 2 ^ 57 → Unnoticed shmem s.segment call bytes later) ↔
      shmem.Refuses call ∨ 2032 ≤ shmem.nextUserAvailableOffset.toNat := by
  by_cases hrefuses : shmem.Refuses call
  · exact ⟨fun _ => Or.inl hrefuses, fun _ later _ => unnoticed_of_refuses hrefuses bytes later⟩
  have halign := aligned_of_reach h hp
  have hbound : shmem.nextUserAvailableOffset.toNat ≤ 16 + 32 * attempts tr := by
    obtain ⟨root, -, -, hl, hall⟩ := (registry_of_reach h).ledger
    obtain ⟨rfl, -⟩ := hall process shmem hp
    exact (hl (by omega)).bound
  obtain ⟨hle, heq⟩ := create_of_throws hrefuses hthrows
  have hmoved := bump_le call.kind halign (by omega)
  obtain ⟨-, hstep⟩ := toNat_bump call.kind halign (by omega)
  have hoff : workerStatusArrayOff.toNat = 2048 := rfl
  have h16 : (16 : BitVec 64).toNat = 16 := rfl
  constructor
  · intro hall
    refine Or.inr (Nat.le_of_not_lt fun hlt => ?_)
    have hlock : shmem.locked = false := by
      rw [← Bool.not_eq_true]
      exact fun hlock => hrefuses (Or.inr (Or.inr hlock))
    obtain ⟨n, hopen⟩ := SharedMemory.Open.exists_of_unlocked hlock halign
    have hsame := hall (freshAtomics n 1) (by rw [length_freshAtomics]; decide)
    obtain ⟨-, -, hanswer⟩ := hopen.create_fresh s.segment fun _ => 0
    obtain ⟨-, -, hanswer'⟩ := (hopen.bump call.kind.size).create_fresh s.segment fun _ => 0
    have hfits : ¬ workerStatusArrayOff ≤ shmem.nextUserAvailableOffset + 16 := by
      rw [BitVec.le_def, BitVec.toNat_add, hoff, h16]
      omega
    have hexceeds : workerStatusArrayOff ≤
        (shmem.bump call.kind.size).nextUserAvailableOffset + 16 := by
      rw [BitVec.le_def, hoff] at hle
      rw [BitVec.le_def, BitVec.toNat_add, hoff, h16]
      omega
    rw [if_neg hfits] at hanswer
    rw [if_pos hexceeds] at hanswer'
    rw [Unnoticed, heq, freshAtomics, answers_cons, answers_cons, hanswer, hanswer'] at hsame
    cases (List.cons_eq_cons.1 hsame).1
  · rintro (hr | hlow) later hlen
    · exact absurd hr hrefuses
    · rw [Unnoticed, heq]
      exact answers_of_exhausted later (bump_aligned ..) halign (by omega) hlow (by omega)
        (by omega) _

/-! ## The last block -/

/-- The state after creations that all succeed. -/
def createAll :
    SharedMemory → Memory 64 → List (Call × (ℕ → Byte)) → Option (SharedMemory × Memory 64)
  | shmem, segment, [] => some (shmem, segment)
  | shmem, segment, (call, bytes) :: calls =>
    match create shmem segment (.ok bytes) call with
    | (shmem, segment, .ok _) => createAll shmem segment calls
    | (_, _, .error _) => none

/-- Where the blocks of the header and of the objects end. -/
def SharedMemory.blocksEnd (shmem : SharedMemory) : ℕ :=
  ((shmem.semaphores.map fun object => object.pointer.toNat + sizeofSem) ++
    shmem.atomics.map fun object => object.pointer.toNat + sizeofInt64).foldr max 16

/-- The next multiple of sixteen. -/
def SharedMemory.nextBlock (shmem : SharedMemory) : ℕ := (shmem.blocksEnd + 15) / 16 * 16

/-- The block of the call would reach into the worker status array. -/
def SharedMemory.Extends (shmem : SharedMemory) (call : Call) : Prop :=
  workerStatusArrayOff.toNat < shmem.nextBlock + call.kind.size

/-- The two cases in which the next offset is 2048 although the block ends there or before. -/
def SharedMemory.LastBlock (shmem : SharedMemory) : Call → Prop
  | .newSemaphore .. => shmem.nextBlock = 2016
  | .newAtomicInt64 .. => shmem.nextBlock = 2032

theorem foldr_max_comm (l : List ℕ) (m n : ℕ) : l.foldr max (max m n) = max m (l.foldr max n) := by
  induction l with
  | nil => rfl
  | cons x l ih => rw [List.foldr_cons, List.foldr_cons, ih, max_left_comm]

theorem blocksEnd_register (shmem : SharedMemory) (object : Object) (kind : Kind) :
    (shmem.register object kind).blocksEnd =
      max (object.pointer.toNat + kind.size) shmem.blocksEnd := by
  cases kind
  case semaphore =>
    simp only [SharedMemory.blocksEnd, SharedMemory.register, List.map_append, List.foldr_append,
      List.map_cons, List.map_nil, List.foldr_cons, List.foldr_nil]
    exact foldr_max_comm ..
  case atomic =>
    simp only [SharedMemory.blocksEnd, SharedMemory.register, List.map_append, List.foldr_append,
      List.map_cons, List.map_nil, List.foldr_cons, List.foldr_nil]
    rw [foldr_max_comm, foldr_max_comm]
    rfl

/-- The offset stands behind the blocks and before the worker status array. -/
structure SharedMemory.Packed (shmem : SharedMemory) : Prop where
  offset : shmem.nextUserAvailableOffset.toNat = shmem.nextBlock
  below : shmem.nextUserAvailableOffset.toNat < 2048

namespace SharedMemory.Packed

theorem aligned (h : shmem.Packed) : shmem.nextUserAvailableOffset.toNat % 16 = 0 := by
  rw [h.offset, nextBlock]
  omega

/-- Where the offset moves on to. -/
theorem toNat_bump (h : shmem.Packed) (kind : Kind) :
    (shmem.bump kind.size).nextUserAvailableOffset.toNat =
      (shmem.nextUserAvailableOffset.toNat + kind.size + 15) / 16 * 16 := by
  have hlt := h.below
  have hold := h.aligned
  have hsize : kind.size = 8 ∨ kind.size = 32 := by cases kind <;> decide
  have hsz : (BitVec.ofNat 64 kind.size).toNat = kind.size := by cases kind <;> rfl
  rw [SharedMemory.bump, toNat_shmemAlign, BitVec.toNat_add, hsz]
  split_ifs <;> omega

theorem create (h : shmem.Packed) {shmem' : SharedMemory} {segment' : Memory 64} {off : Offset}
    (hc : Creates shmem segment call shmem' segment' (.ok off)) : shmem'.Packed := by
  cases hc with
  | created _ _ hlt _ =>
    have hbump := h.toNat_bump call.kind
    have hold := h.offset
    have hoff : workerStatusArrayOff.toNat = 2048 := rfl
    rw [BitVec.lt_def, hoff] at hlt
    refine ⟨?_, by rwa [nextUserAvailableOffset_register]⟩
    have hend : (shmem.bump call.kind.size).blocksEnd = shmem.blocksEnd := rfl
    rw [nextUserAvailableOffset_register, hbump, nextBlock, blocksEnd_register, hend]
    dsimp only
    rw [nextBlock] at hold
    have hmax : max (shmem.nextUserAvailableOffset.toNat + call.kind.size) shmem.blocksEnd =
        shmem.nextUserAvailableOffset.toNat + call.kind.size := by omega
    rw [hmax]

end SharedMemory.Packed

theorem packed_of_createAll {calls : List (Call × (ℕ → Byte))} {shmem' : SharedMemory}
    {segment' : Memory 64} (h : createAll shmem segment calls = some (shmem', segment'))
    (hpacked : shmem.Packed) : shmem'.Packed := by
  induction calls generalizing shmem segment with
  | nil =>
    obtain ⟨rfl, rfl⟩ := Prod.mk.inj (Option.some.inj h)
    exact hpacked
  | cons c calls ih =>
    obtain ⟨call, bytes⟩ := c
    rw [createAll] at h
    have hc := create_cases shmem segment (.ok bytes) call
    split at h
    · rename_i shmem₁ segment₁ off heq
      rw [heq] at hc
      exact ih h (hpacked.create hc)
    · cases h

/-- **The allocator runs out of memory exactly where the block does not fit, the last block
excepted.** -/
theorem outOfMemory_iff_extends_iff {calls : List (Call × (ℕ → Byte))} {segment₀ : Memory 64}
    (h : createAll .new segment₀ calls = some (shmem, segment)) (hnext : ¬ shmem.Refuses call)
    (semInit : SemInit) :
    ((create shmem segment semInit call).2.2 = .error .outOfMemory ↔ shmem.Extends call) ↔
      ¬ shmem.LastBlock call := by
  have hpacked : shmem.Packed := packed_of_createAll h ⟨by decide, by decide⟩
  have hbump := hpacked.toNat_bump call.kind
  have hold := hpacked.offset
  have halign := hpacked.aligned
  have hlt := hpacked.below
  have hoff : workerStatusArrayOff.toNat = 2048 := rfl
  have hthrows : (create shmem segment semInit call).2.2 = .error .outOfMemory ↔
      2048 ≤ (shmem.bump call.kind.size).nextUserAvailableOffset.toNat := by
    rw [← hoff, ← BitVec.le_def]
    rcases create_of_not_refuses hnext segment semInit with
        ⟨hle, heq⟩ | ⟨hlt, ⟨_, _, -, heq⟩ | ⟨_, heq⟩⟩
    · simp [heq, hle]
    · simp [heq, BitVec.not_le.2 hlt]
    · simp [heq, BitVec.not_le.2 hlt]
  rw [hthrows, hbump, SharedMemory.Extends, hoff, ← hold]
  cases call with
  | newSemaphore =>
    rw [SharedMemory.LastBlock, ← hold]
    simp only [Call.kind, Kind.size, sizeofSem]
    omega
  | newAtomicInt64 =>
    rw [SharedMemory.LastBlock, ← hold]
    simp only [Call.kind, Kind.size, sizeofInt64]
    omega

theorem createAll_almostFull :
    ∃ segment, createAll .new (fun _ => 0) almostFull = some (filled, segment) := by
  have h : (createAll .new (fun _ => 0) almostFull).map Prod.fst = some filled := by decide +kernel
  obtain ⟨⟨_, segment⟩, hcreate, rfl⟩ := Option.map_eq_some_iff.1 h
  exact ⟨segment, hcreate⟩

/-- One more atomic. -/
theorem outOfMemory_iff_extends_iff_atomic : ∃ shmem segment,
    createAll .new (fun _ => 0) almostFull = some (shmem, segment) ∧
    ((create shmem segment (.ok fun _ => 0) (.newAtomicInt64 [2] 0)).2.2 = .error .outOfMemory ↔
      shmem.Extends (.newAtomicInt64 [2] 0)) := by
  obtain ⟨segment, h⟩ := createAll_almostFull
  refine ⟨filled, segment, h, (outOfMemory_iff_extends_iff h ?_ _).2 ?_⟩
  · decide +kernel
  · unfold SharedMemory.LastBlock
    decide +kernel

/-- A semaphore that would end at 2048 is turned away. -/
theorem not_outOfMemory_iff_extends : ¬ ∀ (calls : List (Call × (ℕ → Byte)))
    (segment₀ segment : Memory 64) (shmem : SharedMemory) (call : Call) (semInit : SemInit),
    createAll .new segment₀ calls = some (shmem, segment) → ¬ shmem.Refuses call →
    ((create shmem segment semInit call).2.2 = .error .outOfMemory ↔ shmem.Extends call) := by
  intro h
  obtain ⟨segment, hcreate⟩ := createAll_almostFull
  have hiff := h almostFull _ segment filled _ (.ok fun _ => 0) hcreate filled_refuses_not_semaphore
  have hextends := hiff.1 (filled_answer_semaphore segment)
  unfold SharedMemory.Extends at hextends
  exact absurd hextends (by decide +kernel)

end BladePSGI.Shmem
